import AccessPolicy.Proofs.Base64.Readers
import Mathlib.Algebra.Group.Nat.Defs

/-!
# Padded texts

What Base64 is, said without a reader: a table of digits, and octets whose bits are those of the
digits in order, without the bits that are left over at the end. A padded text is digits and the
pads that complete the last group of four, of which there are at most two. The strict reader accepts
the padded texts, and beyond them only pads behind complete groups, which it does not look at.
-/

namespace AccessPolicy.Base64

/-! ## Digits -/

/-- The digits of the standard alphabet, in the order of their values. -/
def figures : List Char :=
  "ABCDEFGHIJKLMNOPQRSTUVWXYZabcdefghijklmnopqrstuvwxyz0123456789+/".toList

/-- Every digit of the table has its place for a value. -/
theorem value?_of_mem_figures :
    ∀ c ∈ figures, Alphabet.standard.value? c = some (figures.idxOf c) := by
  have hall : figures.all (fun c => Alphabet.standard.value? c = some (figures.idxOf c)) := by
    decide
  exact fun c hc => of_decide_eq_true (List.all_eq_true.mp hall c hc)

/-- The table has a digit for every six-bit value. -/
private theorem digit_mem_figures : ∀ value < 64, Alphabet.standard.digit value ∈ figures := by
  decide

/-- A character is a digit exactly if it is in the table, and its place is its value. -/
theorem value?_standard_eq_some_iff {c : Char} {value : Nat} :
    Alphabet.standard.value? c = some value ↔ c ∈ figures ∧ value = figures.idxOf c := by
  constructor
  · intro h
    obtain ⟨hlt, hdigit⟩ := Alphabet.digit_of_value? h
    have hmem : c ∈ figures := hdigit ▸ digit_mem_figures value hlt
    rw [value?_of_mem_figures c hmem, Option.some.injEq] at h
    exact ⟨hmem, h.symm⟩
  · rintro ⟨hmem, rfl⟩
    exact value?_of_mem_figures c hmem

/-- Digits have their places for values, and nothing else has. -/
theorem mapM_value?_standard_eq_some_iff {cs : List Char} {values : List Nat} :
    cs.mapM Alphabet.standard.value? = some values ↔
      (∀ c ∈ cs, c ∈ figures) ∧ values = cs.map figures.idxOf := by
  induction cs generalizing values with
  | nil => simp [eq_comm]
  | cons c cs ih =>
    simp only [List.mapM_cons, Option.bind_eq_bind, Option.bind_eq_some_iff, Option.pure_def,
      Option.some.injEq, value?_standard_eq_some_iff, ih, List.forall_mem_cons, List.map_cons]
    constructor
    · rintro ⟨_, ⟨hc, rfl⟩, _, ⟨hcs, rfl⟩, rfl⟩
      exact ⟨⟨hc, hcs⟩, rfl⟩
    · rintro ⟨⟨hc, hcs⟩, rfl⟩
      exact ⟨_, ⟨hc, rfl⟩, _, ⟨hcs, rfl⟩, rfl⟩

/-- Characters of which each is found in the table are in it. -/
theorem mem_figures_of_all {cs : List Char} (h : cs.all figures.contains = true) :
    ∀ c ∈ cs, c ∈ figures :=
  fun c hc => List.contains_iff_mem.mp (List.all_eq_true.mp h c hc)

/-- The pad is not in the table. -/
theorem pad_notMem_figures : pad ∉ figures := by
  decide

/-! ## Bits -/

/-- The last `width` bits of a number, the most significant first. -/
def bits : (width value : Nat) → List Bool
  | 0, _ => []
  | width + 1, value => decide (value / 2 ^ width % 2 = 1) :: bits width value

/-- The bits of octets. -/
def octetBits (octets : List UInt8) : List Bool := octets.flatMap fun octet => bits 8 octet.toNat

/-- The bits of six-bit values. -/
def sextetBits (values : List Nat) : List Bool := values.flatMap (bits 6)

/-- The bits of a number are those in front and those behind. -/
private theorem bits_add (front behind value : Nat) :
    bits (front + behind) value = bits front (value / 2 ^ behind) ++ bits behind value := by
  induction front with
  | zero => rw [Nat.zero_add, bits, List.nil_append]
  | succ front ih =>
    rw [Nat.succ_add, bits, ih, bits, List.cons_append, Nat.div_div_eq_div_mul, ← Nat.pow_add,
      Nat.add_comm behind front]

/-- The last bits of a number are those of its remainder. -/
private theorem bits_congr {width a b : Nat} (h : a % 2 ^ width = b % 2 ^ width) :
    bits width a = bits width b := by
  induction width with
  | zero => rfl
  | succ width ih =>
    have hbehind : a % 2 ^ width = b % 2 ^ width := by
      rw [← Nat.mod_mul_right_mod a (2 ^ width) 2, ← Nat.mod_mul_right_mod b (2 ^ width) 2,
        ← Nat.pow_succ, h]
    have hfront : a / 2 ^ width % 2 = b / 2 ^ width % 2 := by
      rw [← Nat.mod_mul_right_div_self, ← Nat.mod_mul_right_div_self, ← Nat.pow_succ, h]
    rw [bits, bits, hfront, ih hbehind]

/-- A number put together from two has the bits of both. -/
private theorem bits_join (front behind : Nat) {a b : Nat} (hb : b < 2 ^ behind) :
    bits (front + behind) ((a * 2 ^ behind + b) % 2 ^ (front + behind)) =
      bits front a ++ bits behind b := by
  have hdiv : (a * 2 ^ behind + b) / 2 ^ behind = a := by
    rw [Nat.add_comm, Nat.add_mul_div_right _ _ (Nat.two_pow_pos behind), Nat.div_eq_of_lt hb,
      Nat.zero_add]
  have hmod : (a * 2 ^ behind + b) % 2 ^ behind = b % 2 ^ behind := by
    rw [Nat.add_comm, Nat.add_mul_mod_self_right]
  rw [bits_congr (Nat.mod_mod _ _), bits_add, hdiv, bits_congr hmod]

/-- The second value of a group is split between the first two octets. -/
private theorem bits_second (q : Nat) : bits 6 q = bits 2 (q / 16) ++ bits 4 q := bits_add 2 4 q

/-- The third value of a group is split between the last two octets. -/
private theorem bits_third (r : Nat) : bits 6 r = bits 4 (r / 4) ++ bits 2 r := bits_add 4 2 r

section Group

variable {p q r s : Nat}

/-- The first octet of a group. -/
private theorem bits_octet_first (hq : q < 64) :
    bits 8 (UInt8.ofNat (p * 4 + q / 16)).toNat = bits 6 p ++ bits 2 (q / 16) := by
  rw [UInt8.toNat_ofNat']
  exact bits_join 6 2 (by omega)

/-- The second octet of a group. -/
private theorem bits_octet_second (hr : r < 64) :
    bits 8 (UInt8.ofNat (q % 16 * 16 + r / 4)).toNat = bits 4 q ++ bits 4 (r / 4) := by
  have hq : bits 4 (q % 16) = bits 4 q := bits_congr (Nat.mod_mod _ _)
  rw [UInt8.toNat_ofNat', ← hq]
  exact bits_join 4 4 (by omega)

/-- The third octet of a group. -/
private theorem bits_octet_third (hs : s < 64) :
    bits 8 (UInt8.ofNat (r % 4 * 64 + s)).toNat = bits 2 r ++ bits 6 s := by
  have hr : bits 2 (r % 4) = bits 2 r := bits_congr (Nat.mod_mod _ _)
  rw [UInt8.toNat_ofNat', ← hr]
  exact bits_join 2 6 (by omega)

end Group

/-- Six-bit values make up octets unless there is one value too many. -/
theorem exists_octets?_iff {values : List Nat} :
    (∃ octets unused, octets? values = some (octets, unused)) ↔ values.length % 4 ≠ 1 := by
  fun_induction octets? values with
  | case1 => simp
  | case2 => simp
  | case3 => simp
  | case4 => simp
  | case5 p q r s rest ih =>
    simp only [Option.map_eq_some_iff, Prod.mk.injEq, Prod.exists, List.length_cons]
    constructor
    · rintro ⟨_, _, octets, unused, ho, _⟩
      have hlength := ih.mp ⟨octets, unused, ho⟩
      omega
    · intro hlength
      obtain ⟨octets, unused, ho⟩ := ih.mpr (by omega)
      exact ⟨_, _, octets, unused, ho, rfl, rfl⟩

/-- The octets of six-bit values have their bits in order, and as many as make up whole octets. -/
theorem bits_of_octets? {values : List Nat} {octets : List UInt8} {unused : Nat}
    (hv : ∀ value ∈ values, value < 64) (h : octets? values = some (octets, unused)) :
    octetBits octets <+: sextetBits values ∧ octets.length = values.length * 3 / 4 := by
  fun_induction octets? values generalizing octets with
  | case1 =>
    cases h
    exact ⟨List.prefix_refl _, rfl⟩
  | case2 p => cases h
  | case3 p q =>
    simp only [List.forall_mem_cons] at hv
    obtain ⟨_, hq, _⟩ := hv
    cases h
    refine ⟨?_, by simp⟩
    simp only [octetBits, sextetBits, List.flatMap_cons, List.flatMap_nil, List.append_nil,
      bits_octet_first hq, bits_second q]
    rw [← List.append_assoc]
    exact List.prefix_append _ _
  | case4 p q r =>
    simp only [List.forall_mem_cons] at hv
    obtain ⟨_, hq, hr, _⟩ := hv
    cases h
    refine ⟨?_, by simp⟩
    simp only [octetBits, sextetBits, List.flatMap_cons, List.flatMap_nil, List.append_nil,
      bits_octet_first hq, bits_octet_second hr, bits_second q, bits_third r, List.append_assoc]
    simp only [List.prefix_append_right_inj, List.prefix_append]
  | case5 p q r s rest ih =>
    simp only [List.forall_mem_cons] at hv
    obtain ⟨_, hq, hr, hs, hrest⟩ := hv
    simp only [Option.map_eq_some_iff, Prod.mk.injEq, Prod.exists] at h
    obtain ⟨others, _, ho, rfl, rfl⟩ := h
    obtain ⟨hbits, hlength⟩ := ih hrest ho
    constructor
    · simp only [octetBits, sextetBits, List.flatMap_cons, bits_octet_first hq,
        bits_octet_second hr, bits_octet_third hs, bits_second q, bits_third r, List.append_assoc,
        List.prefix_append_right_inj]
      exact hbits
    · simp only [List.length_cons, hlength]
      omega

/-! ## Pads -/

/-- Digits with pads behind them. -/
def withPads (digits : List Char) (pads : Nat) : List Char := digits ++ List.replicate pads pad

/-- Whether pads complete the last group of digits, of which there are at most two. -/
structure IsPadded (digits : List Char) (pads : Nat) : Prop where
  /-- The digits are in the table. -/
  mem_figures : ∀ c ∈ digits, c ∈ figures
  /-- There are at most two pads. -/
  pads_le : pads ≤ 2
  /-- There are whole groups of four. -/
  complete : (digits.length + pads) % 4 = 0

/-- Whether there are pads behind complete groups of digits. -/
structure IsOverpadded (digits : List Char) (pads : Nat) : Prop where
  /-- The digits are in the table. -/
  mem_figures : ∀ c ∈ digits, c ∈ figures
  /-- There is a digit. -/
  nonempty : digits ≠ []
  /-- The digits are whole groups of four. -/
  complete : digits.length % 4 = 0
  /-- There is a pad. -/
  pads_pos : 0 < pads

/-- The digits of the table are taken apart from the pads behind them. -/
theorem split?_withPads {digits : List Char} (h : ∀ c ∈ digits, c ∈ figures) (pads : Nat) :
    split? (withPads digits pads) = some (digits, pads) := by
  refine split?_append_pads ?_ pads
  rintro c hc rfl
  exact pad_notMem_figures (h pad hc)

/-- No text is digits of the table with pads behind them in two ways. -/
theorem withPads_inj {digits digits' : List Char} {pads pads' : Nat}
    (h : ∀ c ∈ digits, c ∈ figures) (h' : ∀ c ∈ digits', c ∈ figures)
    (he : withPads digits pads = withPads digits' pads') : digits = digits' ∧ pads = pads' := by
  have hsplit := split?_withPads h pads
  rw [he, split?_withPads h' pads', Option.some.injEq, Prod.mk.injEq] at hsplit
  exact ⟨hsplit.1.symm, hsplit.2.symm⟩

/-- Pads do not both complete the last group and follow complete groups. -/
theorem IsPadded.not_isOverpadded {digits digits' : List Char} {pads pads' : Nat}
    (h : IsPadded digits pads) (he : withPads digits pads = withPads digits' pads') :
    ¬IsOverpadded digits' pads' := by
  intro ho
  obtain ⟨rfl, rfl⟩ := withPads_inj h.mem_figures ho.mem_figures he
  have hle := h.pads_le
  have hc := h.complete
  have hoc := ho.complete
  have hpos := ho.pads_pos
  omega

/-- Digits stand for octets exactly if they are in the table, by their places. -/
theorem digits?_standard_eq_some_iff {digits : List Char} {found : List UInt8 × Nat} :
    digits? .standard digits = some found ↔
      (∀ c ∈ digits, c ∈ figures) ∧ octets? (digits.map figures.idxOf) = some found := by
  simp only [digits?, Option.bind_eq_some_iff, mapM_value?_standard_eq_some_iff]
  constructor
  · rintro ⟨_, ⟨hmem, rfl⟩, ho⟩
    exact ⟨hmem, ho⟩
  · rintro ⟨hmem, ho⟩
    exact ⟨_, ⟨hmem, rfl⟩, ho⟩

/-- The strict reader accepts pads behind digits that make up octets exactly if they complete the
last group or follow complete groups. -/
private theorem strictPadding_iff_isPadded {digits : List Char} {pads : Nat}
    (hmem : ∀ c ∈ digits, c ∈ figures) (hlength : digits.length % 4 ≠ 1) :
    strictPadding digits.length pads = true ↔ IsPadded digits pads ∨ IsOverpadded digits pads := by
  have hiff : strictPadding digits.length pads = true ↔
      (pads ≤ 2 ∧ (digits.length + pads) % 4 = 0) ∨
        (digits.length ≠ 0 ∧ digits.length % 4 = 0 ∧ 0 < pads) := by
    unfold strictPadding padding
    by_cases hz : digits.length % 4 = 0
    · rw [if_pos hz]
      simp only [Bool.or_eq_true, decide_eq_true_eq]
      omega
    · rw [if_neg hz, decide_eq_true_eq]
      omega
  rw [hiff]
  constructor
  · rintro (⟨hle, hc⟩ | ⟨hne, hc, hpos⟩)
    · exact .inl ⟨hmem, hle, hc⟩
    · exact .inr ⟨hmem, mt List.length_eq_zero_iff.mpr hne, hc, hpos⟩
  · rintro (h | h)
    · exact .inl ⟨h.pads_le, h.complete⟩
    · exact .inr ⟨mt List.length_eq_zero_iff.mp h.nonempty, h.complete, h.pads_pos⟩

/-- The strict reader reads digits whose pads complete the last group or follow complete groups, as
the octets that their places make up. -/
theorem decodeStrict?_eq_some_iff_withPads {cs : List Char} {octets : List UInt8} :
    decodeStrict? cs = some octets ↔ ∃ digits pads, cs = withPads digits pads ∧
      (IsPadded digits pads ∨ IsOverpadded digits pads) ∧
        ∃ unused, octets? (digits.map figures.idxOf) = some (octets, unused) := by
  rw [decodeStrict?_eq_some_iff]
  simp only [digits?_standard_eq_some_iff]
  constructor
  · rintro ⟨digits, pads, hs, hp, unused, hmem, ho⟩
    have hlength := exists_octets?_iff.mp ⟨octets, unused, ho⟩
    rw [List.length_map] at hlength
    exact ⟨digits, pads, of_split?_eq_some hs, (strictPadding_iff_isPadded hmem hlength).mp hp,
      unused, ho⟩
  · rintro ⟨digits, pads, rfl, hp, unused, ho⟩
    have hlength := exists_octets?_iff.mp ⟨octets, unused, ho⟩
    rw [List.length_map] at hlength
    have hmem : ∀ c ∈ digits, c ∈ figures := hp.elim IsPadded.mem_figures IsOverpadded.mem_figures
    exact ⟨digits, pads, split?_withPads hmem pads,
      (strictPadding_iff_isPadded hmem hlength).mpr hp, unused, hmem, ho⟩

/-- Digits with the pads of their last group are read as octets with the bits of the digits, three
for each group but for one less with every pad. -/
theorem exists_decodeStrict?_of_isPadded {digits : List Char} {pads : Nat}
    (h : IsPadded digits pads) : ∃ octets, decodeStrict? (withPads digits pads) = some octets ∧
      octets.length + pads = 3 * ((withPads digits pads).length / 4) ∧
        octetBits octets <+: sextetBits (digits.map figures.idxOf) := by
  have hle := h.pads_le
  have hc := h.complete
  obtain ⟨octets, unused, ho⟩ := exists_octets?_iff.mpr
    (show (digits.map figures.idxOf).length % 4 ≠ 1 by rw [List.length_map]; omega)
  have hv : ∀ value ∈ digits.map figures.idxOf, value < 64 := by
    intro value hvalue
    obtain ⟨c, hmem, rfl⟩ := List.mem_map.mp hvalue
    exact List.idxOf_lt_length_of_mem (h.mem_figures c hmem)
  obtain ⟨hbits, hlength⟩ := bits_of_octets? hv ho
  refine ⟨octets, decodeStrict?_eq_some_iff_withPads.mpr
    ⟨digits, pads, rfl, .inl h, unused, ho⟩, ?_, hbits⟩
  rw [hlength, List.length_map, withPads, List.length_append, List.length_replicate]
  omega

/-- Pads behind complete groups are read over. -/
theorem decodeStrict?_of_isOverpadded {digits : List Char} {pads : Nat}
    (h : IsOverpadded digits pads) :
    decodeStrict? (withPads digits pads) = decodeStrict? digits := by
  have hread : ∀ pads, decodeStrict? (withPads digits pads) =
      (digits? .standard digits).map Prod.fst := by
    intro pads
    have hpadding : strictPadding digits.length pads = true := by
      rw [strictPadding, if_pos h.complete, Bool.or_eq_true]
      exact .inl (decide_eq_true (mt List.length_eq_zero_iff.mp h.nonempty))
    rw [decodeStrict?, split?_withPads h.mem_figures, Option.bind_some]
    exact if_pos hpadding
  rw [hread pads, ← hread 0, withPads, List.replicate_zero, List.append_nil]

/-- The strict reader rejects everything else. -/
theorem decodeStrict?_eq_none_iff {cs : List Char} :
    decodeStrict? cs = none ↔ ∀ digits pads, cs = withPads digits pads →
      ¬IsPadded digits pads ∧ ¬IsOverpadded digits pads := by
  constructor
  · rintro hnone digits pads rfl
    constructor
    · intro hp
      obtain ⟨octets, ho, _⟩ := exists_decodeStrict?_of_isPadded hp
      rw [hnone] at ho
      cases ho
    · intro hp
      have hdigits : IsPadded digits 0 := ⟨hp.mem_figures, Nat.zero_le 2, hp.complete⟩
      obtain ⟨octets, ho, _⟩ := exists_decodeStrict?_of_isPadded hdigits
      rw [withPads, List.replicate_zero, List.append_nil, ← decodeStrict?_of_isOverpadded hp,
        hnone] at ho
      cases ho
  · intro h
    refine Option.eq_none_iff_forall_ne_some.mpr ?_
    intro octets ho
    obtain ⟨digits, pads, hcs, hp, _⟩ := decodeStrict?_eq_some_iff_withPads.mp ho
    obtain ⟨hpadded, hover⟩ := h digits pads hcs
    exact hp.elim hpadded hover

end AccessPolicy.Base64
