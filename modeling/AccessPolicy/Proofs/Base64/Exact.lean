import AccessPolicy.Proofs.Base64.Encoding

/-!
# Exact texts

A text that the strict reader accepts consists of digits and pads. Its octets say nothing about the
bits of the last digit that belong to none of them, nor about pads behind a complete group. A text
with neither is exact: exact texts, and no others, are what their own octets are written as.
-/

namespace AccessPolicy.Base64

/-- A digit is written as its value stands for. -/
theorem Alphabet.digit_of_value? {alphabet : Alphabet} {c : Char} {value : Nat}
    (h : alphabet.value? c = some value) : value < 64 ∧ alphabet.digit value = c := by
  have hc : Char.ofNat c.toNat = c := Char.ofNat_toNat c
  unfold value? at h
  split at h
  · cases h
    have he : c.toNat - 65 + 65 = c.toNat := by omega
    refine ⟨by omega, ?_⟩
    rw [digit, if_pos (by omega), he, hc]
  · split at h
    · cases h
      have he : c.toNat - 97 + 26 - 26 + 97 = c.toNat := by omega
      refine ⟨by omega, ?_⟩
      rw [digit, if_neg (by omega), if_pos (by omega), he, hc]
    · split at h
      · cases h
        have he : c.toNat - 48 + 52 - 52 + 48 = c.toNat := by omega
        refine ⟨by omega, ?_⟩
        rw [digit, if_neg (by omega), if_neg (by omega), if_pos (by omega), he, hc]
      · split at h
        · rename_i hplus
          cases h
          exact ⟨by decide, hplus.symm⟩
        · split at h
          · rename_i hslash
            cases h
            exact ⟨by decide, hslash.symm⟩
          · cases h

/-- Digits are written as their values stand for. -/
theorem map_digit_of_mapM_value? {alphabet : Alphabet} {cs : List Char} {values : List Nat}
    (h : cs.mapM alphabet.value? = some values) :
    (∀ value ∈ values, value < 64) ∧ values.map alphabet.digit = cs := by
  induction cs generalizing values with
  | nil =>
    cases h
    exact ⟨fun _ hm => absurd hm List.not_mem_nil, rfl⟩
  | cons c cs ih =>
    simp only [List.mapM_cons, Option.bind_eq_bind, Option.bind_eq_some_iff, Option.pure_def,
      Option.some.injEq] at h
    obtain ⟨value, hv, rest, hr, rfl⟩ := h
    obtain ⟨hlt, hd⟩ := Alphabet.digit_of_value? hv
    obtain ⟨hall, hmap⟩ := ih hr
    refine ⟨List.forall_mem_cons.mpr ⟨hlt, hall⟩, ?_⟩
    rw [List.map_cons, hd, hmap]

/-- A text that is taken apart consists of its digits and its pads. -/
theorem of_split?_eq_some {cs digits : List Char} {pads : Nat}
    (h : split? cs = some (digits, pads)) : cs = digits ++ List.replicate pads pad := by
  simp only [split?] at h
  split at h
  · rename_i hall
    simp only [Option.some.injEq, Prod.mk.injEq] at h
    obtain ⟨rfl, rfl⟩ := h
    have hpads : cs.dropWhile (· ≠ pad) =
        List.replicate (cs.dropWhile (· ≠ pad)).length pad := by
      refine List.eq_replicate_of_mem fun c hc => ?_
      exact of_decide_eq_true (List.all_eq_true.mp hall c hc)
    rw [← hpads, List.takeWhile_append_dropWhile]
  · cases h

/-- Six-bit values without the bits of the last one that belong to no octet. -/
def cleared : List Nat → List Nat
  | [] => []
  | [p] => [p]
  | [p, q] => [p, q / 16 * 16]
  | [p, q, r] => [p, q, r / 4 * 4]
  | p :: q :: r :: s :: rest => p :: q :: r :: s :: cleared rest

@[simp] theorem length_cleared (values : List Nat) : (cleared values).length = values.length := by
  fun_induction cleared values with
  | case1 => rfl
  | case2 => rfl
  | case3 => rfl
  | case4 => rfl
  | case5 p q r s rest ih => simp only [List.length_cons, ih]

/-- Octets are split into the values that make them up, without their unused bits. -/
theorem sextets_of_octets? {values : List Nat} {octets : List UInt8} {unused : Nat}
    (hv : ∀ value ∈ values, value < 64) (h : octets? values = some (octets, unused)) :
    sextets octets = cleared values ∧ (cleared values = values ↔ unused = 0) := by
  induction values using cleared.induct generalizing octets with
  | case1 =>
    cases h
    exact ⟨rfl, fun _ => rfl, fun _ => rfl⟩
  | case2 p => cases h
  | case3 p q =>
    simp only [List.mem_cons, List.not_mem_nil, or_false, forall_eq_or_imp, forall_eq] at hv
    cases h
    simp only [sextets, cleared, UInt8.toNat_ofNat', List.cons.injEq, and_true, true_and]
    omega
  | case4 p q r =>
    simp only [List.mem_cons, List.not_mem_nil, or_false, forall_eq_or_imp, forall_eq] at hv
    cases h
    simp only [sextets, cleared, UInt8.toNat_ofNat', List.cons.injEq, and_true, true_and]
    omega
  | case5 p q r s rest ih =>
    simp only [List.mem_cons, forall_eq_or_imp] at hv
    obtain ⟨hp, hq, hr, hs, hrest⟩ := hv
    simp only [octets?, Option.map_eq_some_iff, Prod.mk.injEq, Prod.exists] at h
    obtain ⟨others, unused', ho, rfl, rfl⟩ := h
    obtain ⟨hsplit, hclear⟩ := ih hrest ho
    simp only [sextets, cleared, UInt8.toNat_ofNat', hsplit, List.cons.injEq, and_true, true_and]
    exact ⟨by omega, hclear⟩

/-- Whether a text is digits without unused bits and exactly the padding of the last group. -/
def IsExact (cs : List Char) : Prop :=
  ∃ digits octets, split? cs = some (digits, padding digits.length) ∧
    digits? .standard digits = some (octets, 0)

/-- What the strict reader accepts is digits and accepted pads. The octets are written with the
same digits but for the unused bits, and with the padding of the last group. -/
theorem of_decodeStrict?_eq_some {cs : List Char} {octets : List UInt8}
    (h : decodeStrict? cs = some octets) :
    ∃ values pads, (∀ value ∈ values, value < 64) ∧
      cs = values.map Alphabet.standard.digit ++ List.replicate pads pad ∧
      strictPadding values.length pads = true ∧
      encode .standard octets = (cleared values).map Alphabet.standard.digit ++
        List.replicate (padding values.length) pad ∧
      (IsExact cs ↔ cleared values = values ∧ pads = padding values.length) := by
  simp only [decodeStrict?, Option.bind_eq_some_iff, Prod.exists] at h
  obtain ⟨digits, pads, hs, h⟩ := h
  split at h
  · rename_i hp
    simp only [digits?, Option.map_eq_some_iff, Option.bind_eq_some_iff, Prod.exists,
      exists_and_right, exists_eq_right] at h
    obtain ⟨unused, values, hm, ho⟩ := h
    obtain ⟨hlt, hmap⟩ := map_digit_of_mapM_value? hm
    obtain ⟨hsplit, hclear⟩ := sextets_of_octets? hlt ho
    have hlen : digits.length = values.length := by rw [← hmap, List.length_map]
    refine ⟨values, pads, hlt, ?_, hlen ▸ hp, ?_, ?_⟩
    · rw [hmap]
      exact of_split?_eq_some hs
    · rw [encode, hsplit, List.length_map, length_cleared]
    · simp only [IsExact, hs, Option.some.injEq, Prod.mk.injEq]
      rw [← hlen]
      constructor
      · rintro ⟨_, _, ⟨rfl, rfl⟩, hd⟩
        rw [digits?, hm, Option.bind_some, ho, Option.some.injEq, Prod.mk.injEq] at hd
        exact ⟨hclear.mpr hd.2, rfl⟩
      · rintro ⟨hc, rfl⟩
        refine ⟨digits, octets, ⟨rfl, rfl⟩, ?_⟩
        rw [digits?, hm, Option.bind_some, ho, hclear.mp hc]
  · cases h

/-- Octets are written as exact texts. -/
theorem isExact_encode (octets : List UInt8) : IsExact (encode .standard octets) := by
  refine ⟨_, octets, ?_, digits?_sextets .standard octets⟩
  rw [split?_encode, List.length_map]

/-- A text that the strict reader accepts is what its octets are written as exactly if it is
exact. -/
theorem encode_eq_iff_isExact {cs : List Char} {octets : List UInt8}
    (h : decodeStrict? cs = some octets) : encode .standard octets = cs ↔ IsExact cs := by
  obtain ⟨values, pads, _, hcs, _, he, hexact⟩ := of_decodeStrict?_eq_some h
  constructor
  · rintro rfl
    exact isExact_encode octets
  · intro hx
    obtain ⟨hc, rfl⟩ := hexact.mp hx
    rw [he, hc, hcs]

/-- The strict reader finds no octets in the empty text only. -/
theorem decodeStrict?_eq_some_nil_iff {cs : List Char} : decodeStrict? cs = some [] ↔ cs = [] := by
  constructor
  · intro h
    obtain ⟨values, pads, _, rfl, hp, he, _⟩ := of_decodeStrict?_eq_some h
    rw [encode_nil, eq_comm, List.append_eq_nil_iff, List.map_eq_nil_iff] at he
    have hv : values = [] := by
      rw [← List.length_eq_zero_iff, ← length_cleared, he.1, List.length_nil]
    subst hv
    have hz : pads = 0 := by simpa [strictPadding] using hp
    rw [hz]
    rfl
  · rintro rfl
    rfl

end AccessPolicy.Base64
