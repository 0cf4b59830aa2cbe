import AccessPolicy.Proofs.Base64.Exact

/-!
# Two readers of a text

The strict and the lenient reader never read different octets in one text. What the lenient reader
accepts, the strict one accepts if its digits are all in the standard alphabet and its groups are
complete. What the strict reader accepts, the lenient one accepts unless bits are left over or
there are pads behind a complete group, so both accept exactly the exact texts.
-/

namespace AccessPolicy.Base64

/-! ## What each reader finds -/

/-- The strict reader finds digits of the standard alphabet and as many pads as it accepts. -/
theorem decodeStrict?_eq_some_iff {cs : List Char} {octets : List UInt8} :
    decodeStrict? cs = some octets ↔ ∃ digits pads, split? cs = some (digits, pads) ∧
      strictPadding digits.length pads = true ∧
        ∃ unused, digits? .standard digits = some (octets, unused) := by
  simp only [decodeStrict?, Option.bind_eq_some_iff, Prod.exists, Option.ite_none_right_eq_some,
    Option.map_eq_some_iff, exists_and_right, exists_eq_right]

/-- The lenient reader reads in one of the alphabets. -/
theorem exists_of_decodeLenient? {cs : List Char} {octets : List UInt8}
    (h : decodeLenient? cs = some octets) : ∃ alphabet, decodeIn? alphabet cs = some octets := by
  rcases Option.or_eq_some_iff.mp h with hs | ⟨_, hu⟩
  · exact ⟨.standard, hs⟩
  · exact ⟨.urlSafe, hu⟩

/-- Both readers read the same octets. -/
theorem decodeStrict?_unique {cs : List Char} {strict lenient : List UInt8}
    (hs : decodeStrict? cs = some strict) (hl : decodeLenient? cs = some lenient) :
    strict = lenient := by
  obtain ⟨digits, pads, hsplit, _, unused, hd⟩ := decodeStrict?_eq_some_iff.mp hs
  obtain ⟨alphabet, hin⟩ := exists_of_decodeLenient? hl
  obtain ⟨digits', pads', hsplit', hd', _⟩ := decodeIn?_eq_some_iff.mp hin
  rw [hsplit, Option.some.injEq, Prod.mk.injEq] at hsplit'
  rw [← hsplit'.1] at hd'
  exact congrArg Prod.fst (digits?_unique hd hd')

/-! ## Lenient texts for the strict reader -/

/-- Part of the padding is accepted by the strict reader exactly if it completes the last group. -/
theorem strictPadding_iff {digits pads : Nat} (h : pads ≤ padding digits) :
    strictPadding digits pads = true ↔ (digits + pads) % 4 = 0 := by
  unfold padding at h
  unfold strictPadding padding
  by_cases hz : digits % 4 = 0
  · rw [if_pos hz]
    simp
    omega
  · rw [if_neg hz, decide_eq_true_eq]
    omega

/-- A digit has its value in the standard alphabet exactly if it is none of the two that only the
URL-safe alphabet has. -/
theorem Alphabet.value?_standard_iff {alphabet : Alphabet} {c : Char} {value : Nat}
    (h : alphabet.value? c = some value) :
    Alphabet.standard.value? c = some value ↔ '-' ≠ c ∧ '_' ≠ c := by
  constructor
  · intro hs
    constructor <;> rintro rfl <;> cases hs
  · rintro ⟨hminus, hunder⟩
    cases alphabet with
    | standard => exact h
    | urlSafe =>
      -- the alphabets have the same letters and figures, and those are tried first
      simp only [value?, plus, slash, hminus.symm, hunder.symm, if_false] at h ⊢
      by_cases hupper : 65 ≤ c.toNat ∧ c.toNat ≤ 90
      · rwa [if_pos hupper] at h ⊢
      by_cases hlower : 97 ≤ c.toNat ∧ c.toNat ≤ 122
      · rwa [if_neg hupper, if_pos hlower] at h ⊢
      by_cases hfigure : 48 ≤ c.toNat ∧ c.toNat ≤ 57
      · rwa [if_neg hupper, if_neg hlower, if_pos hfigure] at h ⊢
      · simp [hupper, hlower, hfigure] at h

/-- Digits have their values in the standard alphabet exactly if none of them is one of these. -/
theorem mapM_value?_standard_iff {alphabet : Alphabet} {cs : List Char} {values : List Nat}
    (h : cs.mapM alphabet.value? = some values) :
    cs.mapM Alphabet.standard.value? = some values ↔ '-' ∉ cs ∧ '_' ∉ cs := by
  induction cs generalizing values with
  | nil =>
    cases h
    simp
  | cons c cs ih =>
    simp only [List.mapM_cons, Option.bind_eq_bind, Option.bind_eq_some_iff, Option.pure_def,
      Option.some.injEq] at h
    obtain ⟨value, hv, rest, hr, rfl⟩ := h
    simp only [List.mapM_cons, Option.bind_eq_bind, Option.bind_eq_some_iff, Option.pure_def,
      Option.some.injEq, List.cons.injEq, exists_eq_right_right, Alphabet.value?_standard_iff hv,
      ih hr, List.mem_cons, not_or]
    exact and_and_and_comm

/-- What the lenient reader accepts, the strict one accepts exactly if no digit is one that only
the URL-safe alphabet has and the length is that of complete groups. -/
theorem decodeStrict?_eq_some_iff_of_lenient {cs : List Char} {octets : List UInt8}
    (h : decodeLenient? cs = some octets) :
    decodeStrict? cs = some octets ↔ ('-' ∉ cs ∧ '_' ∉ cs) ∧ cs.length % 4 = 0 := by
  obtain ⟨alphabet, hin⟩ := exists_of_decodeLenient? h
  obtain ⟨digits, pads, hs, hd, hp⟩ := decodeIn?_eq_some_iff.mp hin
  have hcs := of_split?_eq_some hs
  have hmem : ∀ c, c ≠ pad → (c ∈ cs ↔ c ∈ digits) := by
    intro c hc
    rw [hcs, List.mem_append]
    exact or_iff_left fun hm => hc (List.eq_of_mem_replicate hm)
  have hdigits : (∃ unused, digits? .standard digits = some (octets, unused)) ↔
      '-' ∉ cs ∧ '_' ∉ cs := by
    obtain ⟨values, hv, ho⟩ := Option.bind_eq_some_iff.mp hd
    rw [hmem '-' (by decide), hmem '_' (by decide), ← mapM_value?_standard_iff hv]
    constructor
    · rintro ⟨unused, hstandard⟩
      obtain ⟨values', hv', _⟩ := Option.bind_eq_some_iff.mp hstandard
      rwa [mapM_value?_unique hv' hv] at hv'
    · intro hstandard
      exact ⟨0, by rw [digits?, hstandard, Option.bind_some, ho]⟩
  have hlength : strictPadding digits.length pads = true ↔ cs.length % 4 = 0 := by
    rw [strictPadding_iff hp, hcs, List.length_append, List.length_replicate]
  rw [← hdigits, ← hlength, decodeStrict?_eq_some_iff]
  constructor
  · rintro ⟨digits', pads', hs', hp', hd'⟩
    rw [hs, Option.some.injEq, Prod.mk.injEq] at hs'
    obtain ⟨rfl, rfl⟩ := hs'
    exact ⟨hd', hp'⟩
  · rintro ⟨hd', hp'⟩
    exact ⟨digits, pads, hs, hp', hd'⟩

/-! ## Strict texts for the lenient reader -/

/-- Six-bit values have no unused bits exactly if the last one has none: four if it is the second
of its group, two if it is the third. -/
theorem cleared_eq_self_iff {values : List Nat} : cleared values = values ↔
    ∀ value ∈ values.getLast?, (values.length % 4 = 2 → value % 16 = 0) ∧
      (values.length % 4 = 3 → value % 4 = 0) := by
  fun_induction cleared values with
  | case1 => simp
  | case2 p => simp
  | case3 p q =>
    simp
    omega
  | case4 p q r =>
    simp
    omega
  | case5 p q r s rest ih =>
    cases rest with
    | nil => simp [cleared]
    | cons value rest =>
      have hlength : (p :: q :: r :: s :: value :: rest).length % 4 =
          (value :: rest).length % 4 := by
        simp only [List.length_cons]
        omega
      simp only [hlength, List.cons.injEq, true_and, ih, List.getLast?_cons_cons]

/-- What stands in front of the first pad. -/
def unpadded (cs : List Char) : List Char := cs.takeWhile (· ≠ pad)

/-- Whether the last digit of a text has bits set that belong to no octet: some of the last four
if it is the second of its group, or of the last two if it is the third. -/
def HasUnusedBits (cs : List Char) : Prop :=
  ∃ last value, (unpadded cs).getLast? = some last ∧
    Alphabet.standard.value? last = some value ∧
    ((unpadded cs).length % 4 = 2 ∧ value % 16 ≠ 0 ∨ (unpadded cs).length % 4 = 3 ∧ value % 4 ≠ 0)

/-- Whether there are pads in a text behind a complete group. -/
def HasSurplusPads (cs : List Char) : Prop := pad ∈ cs ∧ (unpadded cs).length % 4 = 0

/-- Digits stand in front of the pads that follow them. -/
theorem unpadded_append {digits : List Char} (h : ∀ c ∈ digits, c ≠ pad) (pads : Nat) :
    unpadded (digits ++ List.replicate pads pad) = digits := by
  have hs := split?_append_pads h pads
  simp only [split?] at hs
  split at hs
  · simp only [Option.some.injEq, Prod.mk.injEq] at hs
    exact hs.1
  · cases hs

/-- Digits of values stand in front of the pads that follow them. -/
theorem unpadded_append_pads {values : List Nat} (h : ∀ value ∈ values, value < 64) (pads : Nat) :
    unpadded (values.map Alphabet.standard.digit ++ List.replicate pads pad) =
      values.map Alphabet.standard.digit :=
  unpadded_append (Alphabet.standard.ne_pad_of_mem_map_digit h) pads

/-- Digits with pads behind them have unused bits set exactly if their values have. -/
theorem hasUnusedBits_iff {values : List Nat} (h : ∀ value ∈ values, value < 64) (pads : Nat) :
    HasUnusedBits (values.map Alphabet.standard.digit ++ List.replicate pads pad) ↔
      cleared values ≠ values := by
  rw [HasUnusedBits, unpadded_append_pads h, List.getLast?_map, List.length_map, ne_eq,
    cleared_eq_self_iff]
  cases hlast : values.getLast? with
  | none => simp
  | some value =>
    have hvalue : Alphabet.standard.value? (Alphabet.standard.digit value) = some value :=
      Alphabet.value?_digit _ value (h value (List.mem_of_getLast? hlast))
    simp [hvalue]
    omega

/-- Digits with accepted pads behind them have surplus pads exactly if these are not the padding of
the last group. -/
theorem hasSurplusPads_iff {values : List Nat} (h : ∀ value ∈ values, value < 64) {pads : Nat}
    (hp : strictPadding values.length pads = true) :
    HasSurplusPads (values.map Alphabet.standard.digit ++ List.replicate pads pad) ↔
      pads ≠ padding values.length := by
  have hpad : pad ∈ values.map Alphabet.standard.digit ++ List.replicate pads pad ↔ pads ≠ 0 := by
    rw [List.mem_append, List.mem_replicate]
    constructor
    · rintro (hm | ⟨hne, _⟩)
      · exact absurd rfl (Alphabet.standard.ne_pad_of_mem_map_digit h pad hm)
      · exact hne
    · exact fun hne => Or.inr ⟨hne, rfl⟩
  rw [HasSurplusPads, hpad, unpadded_append_pads h, List.length_map]
  unfold strictPadding at hp
  unfold padding at hp ⊢
  by_cases hz : values.length % 4 = 0
  · simp [hz]
  · rw [if_neg hz, decide_eq_true_eq] at hp
    simp [hz, hp]

/-- What the strict reader accepts, the lenient one accepts exactly if it is exact. -/
theorem decodeLenient?_eq_some_iff_isExact {cs : List Char} {octets : List UInt8}
    (h : decodeStrict? cs = some octets) : decodeLenient? cs = some octets ↔ IsExact cs := by
  constructor
  · intro hl
    obtain ⟨alphabet, hin⟩ := exists_of_decodeLenient? hl
    obtain ⟨digits, pads, hs, hd, hp⟩ := decodeIn?_eq_some_iff.mp hin
    obtain ⟨digits', pads', hs', hp', unused, hd'⟩ := decodeStrict?_eq_some_iff.mp h
    rw [hs, Option.some.injEq, Prod.mk.injEq] at hs'
    obtain ⟨rfl, rfl⟩ := hs'
    have hpadding : pads = padding digits.length := by
      rw [strictPadding_iff hp] at hp'
      unfold padding at hp ⊢
      omega
    rw [digits?_unique hd' hd] at hd'
    exact ⟨digits, octets, hpadding ▸ hs, hd'⟩
  · rintro ⟨digits, octets', hs, hd⟩
    have hin : decodeIn? .standard cs = some octets' :=
      decodeIn?_eq_some_iff.mpr ⟨digits, _, hs, hd, le_refl _⟩
    have hl := decodeLenient?_of_decodeIn? hin
    rwa [decodeStrict?_unique h hl]

/-- What the strict reader accepts, the lenient one rejects exactly because of unused bits that are
set or of pads behind a complete group. -/
theorem decodeLenient?_eq_none_iff {cs : List Char} {octets : List UInt8}
    (h : decodeStrict? cs = some octets) :
    decodeLenient? cs = none ↔ HasUnusedBits cs ∨ HasSurplusPads cs := by
  have hrejects : decodeLenient? cs = none ↔ ¬IsExact cs := by
    rw [← decodeLenient?_eq_some_iff_isExact h]
    cases hl : decodeLenient? cs with
    | none => simp
    | some lenient => simp [decodeStrict?_unique h hl]
  obtain ⟨values, pads, hv, rfl, hp, _, hexact⟩ := of_decodeStrict?_eq_some h
  rw [hrejects, hexact, hasUnusedBits_iff hv, hasSurplusPads_iff hv hp]
  exact not_and_or

end AccessPolicy.Base64
