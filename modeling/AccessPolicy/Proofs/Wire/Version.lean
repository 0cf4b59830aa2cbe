import AccessPolicy.Proofs.Json.Magnitude
import AccessPolicy.Proofs.Outcome
import AccessPolicy.Wire.Text

/-!
# The length of accepted versions

Every form in which a version may be given limits its length: integers by the reader, numerals in
texts by a limit of their own, and all other numbers by their kind. So the version of a message
that was read can be written and read again.
-/

namespace AccessPolicy.Wire

open Json (Value)

/-! ## Numerals -/

/-- An integer with a plain numeral is written with at most as many characters. -/
private theorem length_integer_le_of_plain? {cs : List Char} {version : Int}
    (h : Numeral.plain? cs = some version) :
    (Json.Writer.integer version).length ≤ Numeral.longest := by
  have hrun : ∀ {run : List Char} {n : Nat}, Numeral.unsigned? run = some n →
      Json.Grammar.Run run ∧ n = Json.Reader.natural run := by
    intro run n hn
    rw [Numeral.unsigned?] at hn
    split at hn
    · rename_i hp
      cases hn
      simp only [Numeral.isPlain, Bool.and_eq_true, Bool.not_eq_true', List.all_eq_true] at hp
      exact ⟨⟨List.isEmpty_eq_false_iff.mp hp.1.1, hp.1.2⟩, rfl⟩
    · cases hn
  rw [Numeral.plain?] at h
  split at h
  · cases h
  rename_i hshort
  unfold Numeral.integer? at h
  split at h
  · obtain ⟨n, hn, rfl⟩ := Option.map_eq_some_iff.mp h
    obtain ⟨hr, rfl⟩ := hrun hn
    have hlength := Json.length_integer_signed_le hr true
    rw [Json.Reader.signed, if_pos rfl, if_pos rfl] at hlength
    rw [List.length_cons] at hshort
    omega
  · obtain ⟨n, hn, rfl⟩ := Option.map_eq_some_iff.mp h
    obtain ⟨hr, rfl⟩ := hrun hn
    have hlength := Json.length_integer_signed_le hr false
    rw [Json.Reader.signed, if_neg Bool.false_ne_true, if_neg Bool.false_ne_true] at hlength
    omega

/-- An integer that a text gives as a version is written with at most as many characters as a
numeral may have. -/
private theorem length_integer_le_of_ofText {text : String} {version : Int}
    (h : Version.ofText text = .ok version) :
    (Json.Writer.integer version).length ≤ Numeral.longest := by
  rw [Version.ofText] at h
  split at h
  · cases h
  split at h
  · rename_i hloose
    cases h
    obtain ⟨cs, _, hplain⟩ := Option.bind_eq_some_iff.mp hloose
    exact length_integer_le_of_plain? hplain
  · cases h

/-! ## Other forms -/

/-- An integer that a decimal number gives as a version has at most nineteen digits. -/
private theorem length_integer_le_of_ofDecimal {number : Json.Decimal} {version : Int}
    (h : Version.ofDecimal number = .ok version) :
    (Json.Writer.integer version).length ≤ limits.digits := by
  rw [Version.ofDecimal] at h
  split at h
  · cases h
  · cases h
  split at h
  · rename_i hrange
    cases h
    have hbound : Int.pow 2 63 = 9223372036854775808 := rfl
    rw [hbound] at hrange
    have hdigits : (Nat.toDigits 10 version.natAbs).length ≤ 19 := by
      rw [Nat.length_toDigits_le_iff (by decide) (by decide)]
      omega
    have hdefault : limits.digits = 4300 := rfl
    rw [Json.length_integer, hdefault]
    split <;> omega
  · cases h

/-- The version of a document that holds no integer beyond the limit is written within it. -/
theorem length_integer_le_of_ofValue {value : Value} {version : Int}
    (hv : ∀ k, value = .integer k → (Json.Writer.integer k).length ≤ limits.digits)
    (h : Version.ofValue value = .ok version) :
    (Json.Writer.integer version).length ≤ limits.digits := by
  cases value with
  | integer k =>
    cases h
    exact hv version rfl
  | bool truth =>
    cases h
    cases truth <;> decide
  | decimal number => exact length_integer_le_of_ofDecimal h
  | text text => exact length_integer_le_of_ofText h
  | octets octets =>
    rw [Version.ofValue] at h
    split at h
    · exact length_integer_le_of_ofText h
    · cases h
  | _ => cases h

/-! ## Messages -/

/-- Two checks together pass exactly when both do. -/
theorem Checked.both_eq_ok_iff {α β : Type} {first : Checked α} {second : Checked β} {a : α}
    {b : β} : first.both second = .ok (a, b) ↔ first = .ok a ∧ second = .ok b := by
  constructor
  · intro h
    cases first with
    | error details => cases second <;> cases h
    | ok value =>
      cases second with
      | error more => cases h
      | ok other =>
        cases h
        exact ⟨rfl, rfl⟩
  · intro h
    rw [h.1, h.2]
    rfl

/-- The last member of a name is a member. -/
theorem mem_of_lastMember? {name : String} {members : List (String × Value)} {value : Value}
    (h : Json.lastMember? name members = some value) : (name, value) ∈ members := by
  obtain ⟨before, after, hmembers, _⟩ := List.lookup_eq_some_iff.mp h
  rw [← List.mem_reverse, hmembers]
  exact List.mem_append_right before List.mem_cons_self

/-- The version of an accepted message is acceptable in its document, or it is the default. -/
private theorem Message.version_of_ofValue {document : Value} {message : Message}
    (h : ofValue document = .ok message) :
    message.version = 0 ∨ ∃ members value, document = .object members ∧
      ("version", value) ∈ members ∧ Version.ofValue value = .ok message.version := by
  cases document with
  | object members =>
    obtain ⟨⟨⟨⟨version, bindings⟩, etag⟩, declared⟩, hfields, rfl⟩ := map_eq_ok_iff.mp h
    obtain ⟨hthree, _⟩ := Checked.both_eq_ok_iff.mp hfields
    obtain ⟨htwo, _⟩ := Checked.both_eq_ok_iff.mp hthree
    obtain ⟨hversion, _⟩ := Checked.both_eq_ok_iff.mp htwo
    rw [member] at hversion
    split at hversion
    · cases hversion
      exact Or.inl rfl
    · rename_i value hlast
      have hvalue := mapError_eq_ok_iff.mp (mapError_eq_ok_iff.mp hversion)
      exact Or.inr ⟨members, value, rfl, mem_of_lastMember? hlast, hvalue⟩
  | _ => cases h

/-- The version of a message that was read is written within the limit. -/
theorem Message.length_integer_version_le {payload : Payload} {message : Message}
    (h : ofPayload payload = .ok message) :
    (Json.Writer.integer message.version).length ≤ limits.digits := by
  rw [ofPayload] at h
  split at h
  · cases h
  rw [ofJson] at h
  split at h
  · cases h
  rename_i json _ document hread
  -- The default is short; a version in the document was read under the limit or is short by itself.
  rcases version_of_ofValue h with hdefault | ⟨members, value, rfl, hmem, hversion⟩
  · rw [hdefault]
    decide
  · refine length_integer_le_of_ofValue ?_ hversion
    rintro k rfl
    exact Json.length_integer_le_of_ofText? hread hmem

end AccessPolicy.Wire
