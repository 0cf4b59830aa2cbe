import AccessPolicy.Proofs.Base64.Readers

/-!
# Spellings of octets

The lenient reader reads octets from what they are written as in either alphabet, with any of the
pads at the end left out, and from nothing else. So octets have several spellings, and no text
spells two of them.
-/

namespace AccessPolicy.Base64

variable {alphabet : Alphabet} {cs : List Char} {octets : List UInt8}

/-- Whether a text is what octets are written as in an alphabet but for pads that are left out at
the end. -/
def SpellsIn (alphabet : Alphabet) (octets : List UInt8) (cs : List Char) : Prop :=
  ∃ dropped, cs ++ List.replicate dropped pad = encode alphabet octets

/-- Whether a text spells octets in one of the alphabets. -/
def Spells (octets : List UInt8) (cs : List Char) : Prop :=
  ∃ alphabet, SpellsIn alphabet octets cs

/-! ## What is read -/

/-- The digits of octets are not pads. -/
private theorem ne_pad_of_mem_digits (alphabet : Alphabet) (octets : List UInt8) :
    ∀ c ∈ (sextets octets).map alphabet.digit, c ≠ pad :=
  alphabet.ne_pad_of_mem_map_digit fun _ => lt_of_mem_sextets

/-- Digits that leave no bit over are what their octets are written with. -/
theorem encode_of_digits? {digits : List Char} (h : digits? alphabet digits = some (octets, 0)) :
    encode alphabet octets = digits ++ List.replicate (padding digits.length) pad := by
  obtain ⟨values, hv, ho⟩ := Option.bind_eq_some_iff.mp h
  obtain ⟨hlt, rfl⟩ := map_digit_of_mapM_value? hv
  obtain ⟨hsplit, hclear⟩ := sextets_of_octets? hlt ho
  rw [encode, hsplit, hclear.mpr rfl]

/-- If pads can be added to make digits with pads behind them, then there are only digits and pads
to begin with, and not more pads. -/
private theorem exists_pads_of_append {digits : List Char} {dropped pads : Nat}
    (hd : ∀ c ∈ digits, c ≠ pad)
    (h : cs ++ List.replicate dropped pad = digits ++ List.replicate pads pad) :
    ∃ kept ≤ pads, cs = digits ++ List.replicate kept pad := by
  rcases List.append_eq_append_iff.mp h with ⟨front, rfl, hpads⟩ | ⟨behind, rfl, hpads⟩
  · -- what is left of the digits would be pads
    have hnil : front = [] := by
      refine List.eq_nil_iff_forall_not_mem.mpr fun c hc => ?_
      have hpad : c ∈ List.replicate dropped pad := hpads ▸ List.mem_append_left _ hc
      exact hd c (List.mem_append_right _ hc) (List.eq_of_mem_replicate hpad)
    subst hnil
    exact ⟨0, Nat.zero_le _, by simp⟩
  · have hall : behind = List.replicate behind.length pad := by
      refine List.eq_replicate_of_mem fun c hc => ?_
      have hpad : c ∈ List.replicate pads pad := hpads ▸ List.mem_append_left _ hc
      exact List.eq_of_mem_replicate hpad
    have hlength := congrArg List.length hpads
    rw [List.length_replicate, List.length_append] at hlength
    exact ⟨behind.length, by omega, by rw [← hall]⟩

/-- A text is read in an alphabet as the octets that it spells in it. -/
theorem decodeIn?_eq_some_iff_spellsIn :
    decodeIn? alphabet cs = some octets ↔ SpellsIn alphabet octets cs := by
  rw [decodeIn?_eq_some_iff]
  constructor
  · rintro ⟨digits, pads, hs, hd, hp⟩
    refine ⟨padding digits.length - pads, ?_⟩
    rw [encode_of_digits? hd, of_split?_eq_some hs, List.append_assoc,
      List.replicate_append_replicate, Nat.add_sub_cancel' hp]
  · rintro ⟨dropped, h⟩
    have hne := ne_pad_of_mem_digits alphabet octets
    obtain ⟨kept, hle, rfl⟩ := exists_pads_of_append hne h
    exact ⟨_, kept, split?_append_pads hne kept, digits?_sextets alphabet octets, hle⟩

/-- The lenient reader reads a text as the octets that it spells. -/
theorem decodeLenient?_eq_some_iff_spells : decodeLenient? cs = some octets ↔ Spells octets cs := by
  constructor
  · intro h
    obtain ⟨alphabet, hin⟩ := exists_of_decodeLenient? h
    exact ⟨alphabet, decodeIn?_eq_some_iff_spellsIn.mp hin⟩
  · rintro ⟨alphabet, h⟩
    exact decodeLenient?_of_decodeIn? (decodeIn?_eq_some_iff_spellsIn.mpr h)

/-- The lenient reader rejects a text that spells no octets. -/
theorem decodeLenient?_eq_none_iff_spells :
    decodeLenient? cs = none ↔ ∀ octets, ¬Spells octets cs := by
  rw [Option.eq_none_iff_forall_ne_some]
  exact forall_congr' fun _ => not_congr decodeLenient?_eq_some_iff_spells

/-- No text spells two octet sequences. -/
theorem Spells.unique {other : List UInt8} (h : Spells octets cs) (hother : Spells other cs) :
    octets = other := by
  rw [← decodeLenient?_eq_some_iff_spells] at h hother
  rw [h, Option.some.injEq] at hother
  exact hother

/-- Octets are spelled by what they are written as. -/
theorem spells_encode (alphabet : Alphabet) (octets : List UInt8) :
    Spells octets (encode alphabet octets) :=
  ⟨alphabet, 0, List.append_nil _⟩

/-! ## What is not read -/

/-- Whether digits of a text are each in one alphabet only, and not in the same. -/
def IsMixed (cs : List Char) : Prop :=
  (∃ c ∈ cs, c = '+' ∨ c = '/') ∧ ∃ c ∈ cs, c = '-' ∨ c = '_'

/-- Whether more follows in a text from the first pad on than completes the last group. -/
def HasExcess (cs : List Char) : Prop :=
  padding (unpadded cs).length < cs.length - (unpadded cs).length

/-- Whether the last digit of a text, in whichever alphabet, has bits set that belong to no octet:
some of the last four if it is the second of its group, or of the last two if it is the third. -/
def HasStrayBits (cs : List Char) : Prop :=
  ∃ alphabet : Alphabet, ∃ last value, (unpadded cs).getLast? = some last ∧
    alphabet.value? last = some value ∧
    ((unpadded cs).length % 4 = 2 ∧ value % 16 ≠ 0 ∨ (unpadded cs).length % 4 = 3 ∧ value % 4 ≠ 0)

/-- A spelling is the digits of its octets and at most the pads of the last group. -/
theorem SpellsIn.exists_kept (h : SpellsIn alphabet octets cs) :
    unpadded cs = (sextets octets).map alphabet.digit ∧
      ∃ kept ≤ padding (unpadded cs).length, cs = unpadded cs ++ List.replicate kept pad := by
  obtain ⟨dropped, h⟩ := h
  have hne := ne_pad_of_mem_digits alphabet octets
  obtain ⟨kept, hle, rfl⟩ := exists_pads_of_append hne h
  rw [unpadded_append hne]
  exact ⟨rfl, kept, hle, rfl⟩

/-- Every character of a spelling is a pad or a digit of its alphabet. -/
private theorem SpellsIn.exists_value? (h : SpellsIn alphabet octets cs) {c : Char} (hc : c ∈ cs)
    (hpad : c ≠ pad) : ∃ value, alphabet.value? c = some value := by
  obtain ⟨hfront, kept, _, hcs⟩ := h.exists_kept
  rw [hcs, hfront, List.mem_append] at hc
  rcases hc with hc | hc
  · obtain ⟨value, hvalue, rfl⟩ := List.mem_map.mp hc
    exact ⟨value, alphabet.value?_digit value (lt_of_mem_sextets hvalue)⟩
  · exact absurd (List.eq_of_mem_replicate hc) hpad

/-- A text whose digits are in different alphabets spells nothing. -/
theorem Spells.not_isMixed (h : Spells octets cs) : ¬IsMixed cs := by
  rintro ⟨⟨c, hc, hstandard⟩, d, hd, hurlSafe⟩
  obtain ⟨alphabet, h⟩ := h
  cases alphabet with
  | standard =>
    have hpad : d ≠ pad := by rcases hurlSafe with rfl | rfl <;> decide
    obtain ⟨value, hvalue⟩ := h.exists_value? hd hpad
    rcases hurlSafe with rfl | rfl <;> cases hvalue
  | urlSafe =>
    have hpad : c ≠ pad := by rcases hstandard with rfl | rfl <;> decide
    obtain ⟨value, hvalue⟩ := h.exists_value? hc hpad
    rcases hstandard with rfl | rfl <;> cases hvalue

/-- A text with more behind its digits than completes the last group spells nothing. -/
theorem Spells.not_hasExcess (h : Spells octets cs) : ¬HasExcess cs := by
  obtain ⟨alphabet, h⟩ := h
  obtain ⟨_, kept, hle, hcs⟩ := h.exists_kept
  have hlength := congrArg List.length hcs
  rw [List.length_append, List.length_replicate] at hlength
  rw [HasExcess]
  omega

/-- The six-bit values of octets have no bits that belong to no octet. -/
private theorem cleared_sextets (octets : List UInt8) : cleared (sextets octets) = sextets octets :=
  ((sextets_of_octets? (fun _ => lt_of_mem_sextets) (octets?_sextets octets)).2.mpr rfl)

/-- A text whose last digit has bits set that belong to no octet spells nothing. -/
theorem Spells.not_hasStrayBits (h : Spells octets cs) : ¬HasStrayBits cs := by
  rintro ⟨other, last, value, hlast, hvalue, hbits⟩
  obtain ⟨alphabet, h⟩ := h
  obtain ⟨hfront, _⟩ := h.exists_kept
  rw [hfront, List.getLast?_map, Option.map_eq_some_iff] at hlast
  rw [hfront, List.length_map] at hbits
  obtain ⟨found, hfound, rfl⟩ := hlast
  have hlt := lt_of_mem_sextets (List.mem_of_getLast? hfound)
  -- a digit that is in both alphabets has the same value in them
  have hother : [alphabet.digit found].mapM other.value? = some [value] := by simp [hvalue]
  have hsame : [alphabet.digit found].mapM alphabet.value? = some [found] := by
    simp [alphabet.value?_digit found hlt]
  cases mapM_value?_unique hother hsame
  have hclear := cleared_eq_self_iff.mp (cleared_sextets octets) value hfound
  omega

end AccessPolicy.Base64
