import AccessPolicy.Base64
import Mathlib.Data.List.TakeWhile

/-!
# Reading what was encoded

Encoded octets are digits followed by the padding of a whole number of groups. Both readers take
such a text apart at the first pad, read the digits back as the six-bit values they stand for, and
find no unused bit set. The lenient reader tries two alphabets, which never disagree about the
value of a digit that both have.
-/

namespace AccessPolicy.Base64

/-- Octets are split into values of at most six bits. -/
theorem lt_of_mem_sextets {octets : List UInt8} {value : Nat} (h : value ∈ sextets octets) :
    value < 64 := by
  fun_induction sextets octets with
  | case1 => cases h
  | case2 a =>
    have ha := a.toNat_lt
    simp only [List.mem_cons, List.not_mem_nil, or_false] at h
    omega
  | case3 a b =>
    have ha := a.toNat_lt
    have hb := b.toNat_lt
    simp only [List.mem_cons, List.not_mem_nil, or_false] at h
    omega
  | case4 a b c rest ih =>
    have ha := a.toNat_lt
    have hb := b.toNat_lt
    have hc := c.toNat_lt
    simp only [List.mem_cons] at h
    rcases h with rfl | rfl | rfl | rfl | h
    · omega
    · omega
    · omega
    · omega
    · exact ih h

/-- A written digit is no pad. -/
theorem Alphabet.digit_ne_pad (alphabet : Alphabet) {value : Nat} (h : value < 64) :
    alphabet.digit value ≠ pad := by
  intro he
  have hv := alphabet.value?_digit value h
  rw [he, alphabet.value?_pad] at hv
  cases hv

/-- No written digit is a pad. -/
theorem Alphabet.ne_pad_of_mem_map_digit (alphabet : Alphabet) {values : List Nat}
    (h : ∀ value ∈ values, value < 64) : ∀ c ∈ values.map alphabet.digit, c ≠ pad := by
  intro c hc
  obtain ⟨value, hv, rfl⟩ := List.mem_map.mp hc
  exact alphabet.digit_ne_pad (h value hv)

/-- Written digits are read back as their values. -/
theorem mapM_value?_digit (alphabet : Alphabet) {values : List Nat}
    (h : ∀ value ∈ values, value < 64) :
    (values.map alphabet.digit).mapM alphabet.value? = some values := by
  induction values with
  | nil => rfl
  | cons value rest ih =>
    rw [List.forall_mem_cons] at h
    rw [List.map_cons, List.mapM_cons, alphabet.value?_digit value h.1, ih h.2]
    rfl

/-- The digits of octets are read back as these octets, and no bit is left over. -/
theorem digits?_sextets (alphabet : Alphabet) (octets : List UInt8) :
    digits? alphabet ((sextets octets).map alphabet.digit) = some (octets, 0) := by
  rw [digits?, mapM_value?_digit alphabet fun _ => lt_of_mem_sextets, Option.bind_some,
    octets?_sextets]

/-- A text without a pad is taken apart in front of pads that follow it. -/
theorem split?_append_pads {digits : List Char} (hd : ∀ c ∈ digits, c ≠ pad) (pads : Nat) :
    split? (digits ++ List.replicate pads pad) = some (digits, pads) := by
  have hall : ∀ c ∈ digits, decide (c ≠ pad) = true := fun c hc => decide_eq_true (hd c hc)
  have htake : (List.replicate pads pad).takeWhile (· ≠ pad) = [] := by
    cases pads with
    | zero => rfl
    | succ pads => exact List.takeWhile_cons_of_neg (by decide)
  have hdrop : (List.replicate pads pad).dropWhile (· ≠ pad) = List.replicate pads pad := by
    cases pads with
    | zero => rfl
    | succ pads => exact List.dropWhile_cons_of_neg (by decide)
  have hpads : (List.replicate pads pad).all (· = pad) = true := by
    rw [List.all_eq_true]
    intro c hc
    exact decide_eq_true (List.eq_of_mem_replicate hc)
  simp only [split?, List.dropWhile_append_of_pos hall, List.takeWhile_append_of_pos hall, htake,
    hdrop, hpads, if_true, List.append_nil, List.length_replicate]

/-- Encoded octets are taken apart into their digits and exactly the padding that completes the
last group. -/
theorem split?_encode (alphabet : Alphabet) (octets : List UInt8) :
    split? (encode alphabet octets) =
      some ((sextets octets).map alphabet.digit, padding (sextets octets).length) := by
  rw [encode, split?_append_pads (alphabet.ne_pad_of_mem_map_digit fun _ => lt_of_mem_sextets),
    List.length_map]

/-- The strict reader accepts the padding that completes the last group. -/
theorem strictPadding_padding (digits : Nat) : strictPadding digits (padding digits) = true := by
  unfold strictPadding
  split
  · rename_i hz
    have hp : padding digits = 0 := by rw [padding, hz]
    simp only [hp, decide_true, Bool.or_true]
  · exact decide_eq_true rfl

/-- The strict reader reads octets back from their standard text. -/
@[simp] theorem decodeStrict?_encode (octets : List UInt8) :
    decodeStrict? (encode .standard octets) = some octets := by
  rw [decodeStrict?, split?_encode, Option.bind_some]
  simp only [List.length_map, strictPadding_padding, if_true, digits?_sextets, Option.map_some]

/-- Reading in the alphabet of the text gives the encoded octets back. -/
theorem decodeIn?_encode (alphabet : Alphabet) (octets : List UInt8) :
    decodeIn? alphabet (encode alphabet octets) = some octets := by
  rw [decodeIn?, split?_encode, Option.bind_some]
  simp only [digits?_sextets, Option.bind_some, List.length_map, le_refl, and_self, if_true]

/-- A digit of both alphabets has one value. -/
private theorem value?_unique {a b : Alphabet} {c : Char} {v w : Nat} (hv : a.value? c = some v)
    (hw : b.value? c = some w) : v = w := by
  have hp : a.plus ≠ b.slash := by cases a <;> cases b <;> decide
  have hs : a.slash ≠ b.plus := by cases a <;> cases b <;> decide
  unfold Alphabet.value? at hv hw
  grind

/-- Digits of both alphabets have one list of values. -/
theorem mapM_value?_unique {a b : Alphabet} {cs : List Char} {vs ws : List Nat}
    (hv : cs.mapM a.value? = some vs) (hw : cs.mapM b.value? = some ws) : vs = ws := by
  induction cs generalizing vs ws with
  | nil =>
    cases hv
    cases hw
    rfl
  | cons c cs ih =>
    simp only [List.mapM_cons, Option.bind_eq_bind, Option.bind_eq_some_iff, Option.pure_def,
      Option.some.injEq] at hv hw
    obtain ⟨v, hv, vs, hvs, rfl⟩ := hv
    obtain ⟨w, hw, ws, hws, rfl⟩ := hw
    rw [value?_unique hv hw, ih hvs hws]

/-- Digits of both alphabets stand for the same octets and leave the same bits over. -/
theorem digits?_unique {a b : Alphabet} {cs : List Char} {left right : List UInt8 × Nat}
    (ha : digits? a cs = some left) (hb : digits? b cs = some right) : left = right := by
  simp only [digits?, Option.bind_eq_some_iff] at ha hb
  obtain ⟨values, hv, ho⟩ := ha
  obtain ⟨values', hv', ho'⟩ := hb
  rw [mapM_value?_unique hv hv', ho'] at ho
  exact (Option.some.inj ho).symm

/-- Reading in one alphabet finds digits that leave no bit over, followed by some part of their
padding. -/
theorem decodeIn?_eq_some_iff {alphabet : Alphabet} {cs : List Char} {octets : List UInt8} :
    decodeIn? alphabet cs = some octets ↔ ∃ digits pads, split? cs = some (digits, pads) ∧
      digits? alphabet digits = some (octets, 0) ∧ pads ≤ padding digits.length := by
  simp only [decodeIn?, Option.bind_eq_some_iff, Prod.exists, Option.ite_none_right_eq_some,
    Option.some.injEq]
  constructor
  · rintro ⟨digits, pads, hs, octets, unused, hd, ⟨hp, rfl⟩, rfl⟩
    exact ⟨digits, pads, hs, hd, hp⟩
  · rintro ⟨digits, pads, hs, hd, hp⟩
    exact ⟨digits, pads, hs, octets, 0, hd, ⟨hp, rfl⟩, rfl⟩

/-- A text that can be read in two alphabets stands for the same octets in both. -/
theorem decodeIn?_unique {a b : Alphabet} {cs : List Char} {left right : List UInt8}
    (ha : decodeIn? a cs = some left) (hb : decodeIn? b cs = some right) : left = right := by
  obtain ⟨digits, pads, hs, hd, _⟩ := decodeIn?_eq_some_iff.mp ha
  obtain ⟨digits', pads', hs', hd', _⟩ := decodeIn?_eq_some_iff.mp hb
  rw [hs, Option.some.injEq, Prod.mk.injEq] at hs'
  rw [← hs'.1] at hd'
  exact congrArg Prod.fst (digits?_unique hd hd')

/-- What is read in one of the alphabets is what the lenient reader reads. -/
theorem decodeLenient?_of_decodeIn? {alphabet : Alphabet} {cs : List Char} {octets : List UInt8}
    (h : decodeIn? alphabet cs = some octets) : decodeLenient? cs = some octets := by
  cases hs : decodeIn? .standard cs with
  | some read => rw [decodeLenient?, hs, Option.some_or, decodeIn?_unique hs h]
  | none =>
    cases alphabet with
    | standard => rw [hs] at h; cases h
    | urlSafe => rw [decodeLenient?, hs, Option.none_or, h]

/-- The lenient reader reads octets back from their text in either alphabet. -/
@[simp] theorem decodeLenient?_encode (alphabet : Alphabet) (octets : List UInt8) :
    decodeLenient? (encode alphabet octets) = some octets :=
  decodeLenient?_of_decodeIn? (decodeIn?_encode alphabet octets)

/-- Encoded octets make up complete groups. -/
theorem length_encode_mod (alphabet : Alphabet) (octets : List UInt8) :
    (encode alphabet octets).length % 4 = 0 := by
  simp only [encode, padding, List.length_append, List.length_map, List.length_replicate]
  omega

@[simp] theorem encode_nil (alphabet : Alphabet) : encode alphabet [] = [] := by
  simp only [encode, sextets, List.map_nil, List.length_nil, padding, Nat.zero_mod, Nat.sub_zero,
    Nat.mod_self, List.replicate_zero, List.append_nil]

/-- Only no octets have an empty text. -/
theorem encode_eq_nil_iff {alphabet : Alphabet} {octets : List UInt8} :
    encode alphabet octets = [] ↔ octets = [] := by
  constructor
  · intro h
    have hin := decodeIn?_encode alphabet octets
    have hnil := decodeIn?_encode alphabet []
    rw [h] at hin
    rw [encode_nil, hin, Option.some.injEq] at hnil
    exact hnil
  · rintro rfl
    exact encode_nil alphabet

end AccessPolicy.Base64
