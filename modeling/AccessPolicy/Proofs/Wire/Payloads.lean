import AccessPolicy.Proofs.Json.Recognition
import AccessPolicy.Proofs.Json.Written
import AccessPolicy.Proofs.Text.Decimal
import AccessPolicy.Proofs.Wire.Exactness
import AccessPolicy.Wire.Text

/-!
# Payloads

A payload is validated as the document that it is a text of. It is reported as no document exactly
if it is not in the language of documents, wherever in it the defect lies, or if it is not UTF-8:
validation itself never reports this. The limits of the language count the arrays and objects that
are not empty, and the characters of an integer part with its sign.
-/

namespace AccessPolicy.Wire

open Json (Value)
open Json.Grammar (Document)

/-! ## What validation never reports -/

/-- The shape of a document is never a reason to report a text that is no document. -/
theorem Schema.Violates.cause_ne {schema : Schema} {value : Value} {detail : Detail}
    (h : schema.Violates value detail) (hrules : schema.Each
      (fun fault? => ∀ value, fault? value ≠ some .jsonInvalid) (fun _ => True)) :
    detail.cause ≠ .jsonInvalid := by
  induction h with
  | plain hfault =>
    rintro rfl
    cases hrules with
    | plain hnone => exact hnone _ hfault
  | noArray _ | noObject _ | undeclared _ _ => exact Cause.noConfusion
  | item _ _ ih =>
    cases hrules with
    | list hitem => exact ih hitem
  | nullable _ _ ih =>
    cases hrules with
    | nullable hinner => exact ih hinner
  | field hfield _ _ ih =>
    cases hrules with
    | model _ hfields => exact ih (hfields _ hfield)

/-- A check of a plain value that never fails for a cause is never at fault for it. -/
private theorem fault?_ne {α : Type} {check : Value → Except Cause α} {cause : Cause}
    (h : ∀ value, check value ≠ .error cause) (value : Value) :
    fault? check value ≠ some cause := by
  intro hvalue
  unfold fault? at hvalue
  split at hvalue
  · cases hvalue
  · rename_i hcheck
    cases hvalue
    exact h value hcheck

/-- A text is never reported as no document. -/
private theorem textOf_ne (value : Value) : textOf value ≠ .error .jsonInvalid := by
  unfold textOf
  split
  · rintro ⟨⟩
  · split <;> rintro ⟨⟩
  · rintro ⟨⟩

/-- An etag is never reported as no document. -/
private theorem octetsOf_ne (value : Value) : octetsOf value ≠ .error .jsonInvalid := by
  unfold octetsOf
  split
  · rintro ⟨⟩
  · split <;> rintro ⟨⟩
  · rintro ⟨⟩

/-- A version is never reported as no document. -/
private theorem version_ne (value : Value) : Version.ofValue value ≠ .error .jsonInvalid := by
  have htext : ∀ text, Version.ofText text ≠ .error .jsonInvalid := by
    intro text
    unfold Version.ofText
    split
    · rintro ⟨⟩
    · split <;> rintro ⟨⟩
  have hdecimal : ∀ number, Version.ofDecimal number ≠ .error .jsonInvalid := by
    intro number
    unfold Version.ofDecimal
    split
    · rintro ⟨⟩
    · rintro ⟨⟩
    · split <;> rintro ⟨⟩
  cases value with
  | decimal number => exact hdecimal number
  | text text => exact htext text
  | octets octets =>
    rw [Version.ofValue]
    split
    · exact htext _
    · rintro ⟨⟩
  | _ => rintro ⟨⟩

/-- No document is reported as being none. -/
theorem Message.cause_ne_of_violates {value : Value} {detail : Detail}
    (h : Message.schema.Violates value detail) : detail.cause ≠ .jsonInvalid :=
  h.cause_ne (Message.each_schema (fault?_ne textOf_ne) (fault?_ne version_ne)
    (fault?_ne octetsOf_ne) trivial trivial trivial)

/-! ## Octets -/

/-- Octets are a text exactly if they are its encoding. -/
theorem utf8Text?_eq_some_iff {octets : List UInt8} {text : String} :
    Json.utf8Text? octets = some text ↔ octets = text.toUTF8.data.toList := by
  unfold Json.utf8Text? String.fromUTF8?
  constructor
  · intro h
    split at h
    · cases h
      rfl
    · cases h
  · rintro rfl
    exact dif_pos text.isValidUTF8

/-! ## Payloads of messages -/

namespace Message

variable {text : String} {value : Value}

/-- A text that is read as a document is validated as the document. -/
theorem ofPayload_of_ofText? (h : Value.ofText? limits text = some value) :
    ofPayload (.text text) = ofValue value := by
  rw [ofPayload, Payload.text?]
  dsimp only
  rw [ofJson, h]

/-- A text that is not read is reported as no document. -/
theorem ofPayload_of_ofText?_eq_none (h : Value.ofText? limits text = none) :
    ofPayload (.text text) = .error notJson := by
  rw [ofPayload, Payload.text?]
  dsimp only
  rw [ofJson, h]

/-- A text of a document is validated as the document. -/
theorem ofPayload_of_document (h : Document limits value text.toList) :
    ofPayload (.text text) = ofValue value :=
  ofPayload_of_ofText? (Value.ofChars?_eq_some_iff.mpr h)

/-- A text that is not in the language is reported as no document. -/
theorem ofPayload_of_not_mem (h : text.toList ∉ Json.Strict.document limits) :
    ofPayload (.text text) = .error notJson :=
  ofPayload_of_ofText?_eq_none (Value.ofChars?_eq_none_iff.mpr h)

/-- The details of a document never report it as none. -/
theorem cause_ne_of_ofValue {details : List Detail}
    (h : ofValue value = .error details) : ∀ detail ∈ details, detail.cause ≠ .jsonInvalid := by
  obtain ⟨_, rfl⟩ := (enforces_ofValue value).eq_error_iff details |>.mp h
  exact fun detail hdetail => cause_ne_of_violates (Schema.violates_of_mem hdetail)

/-- The texts in the language are those of documents. Each is validated as its document and never
reported as none, and every other text is reported as no document and nothing else. Octets count as
the text that they encode, and are no document either if they encode none. -/
theorem ofPayload_strict (text : String) (octets : List UInt8) :
    (text.toList ∈ Json.Strict.document ⟨200, 4300⟩ ↔
      ∃ value, Document ⟨200, 4300⟩ value text.toList) ∧
    (∀ value, Document ⟨200, 4300⟩ value text.toList → ofPayload (.text text) = ofValue value) ∧
    (text.toList ∈ Json.Strict.document ⟨200, 4300⟩ → ∀ details,
      ofPayload (.text text) = .error details → ∀ detail ∈ details, detail.cause ≠ .jsonInvalid) ∧
    (text.toList ∉ Json.Strict.document ⟨200, 4300⟩ →
      ofPayload (.text text) = .error [⟨.jsonInvalid, []⟩]) ∧
    ofPayload (.octets text.toUTF8.data.toList) = ofPayload (.text text) ∧
    ((∀ encoded : String, octets ≠ encoded.toUTF8.data.toList) →
      ofPayload (.octets octets) = .error [⟨.jsonInvalid, []⟩]) := by
  refine ⟨Json.Strict.mem_document_iff, fun _ => ofPayload_of_document, ?_, ofPayload_of_not_mem,
    ?_, ?_⟩
  · intro hmem details hdetails
    obtain ⟨value, hvalue⟩ := Json.Strict.mem_document_iff.mp hmem
    rw [ofPayload_of_document hvalue] at hdetails
    exact cause_ne_of_ofValue hdetails
  · have htext : Json.utf8Text? text.toUTF8.data.toList = some text := utf8Text?_eq_some_iff.mpr rfl
    rw [ofPayload, Payload.text?, htext]
    rfl
  · intro hnone
    have htext : Json.utf8Text? octets = none :=
      Option.eq_none_iff_forall_ne_some.mpr fun encoded =>
        mt utf8Text?_eq_some_iff.mp (hnone encoded)
    rw [ofPayload, Payload.text?, htext]
    rfl

/-- An object with an undeclared member, an escape in its name and blanks around its tokens. -/
private def spaced : String := " \x7b \"\\u006bind\" : [ -0.5e+1 ] \x7d\n"

/-- The same with a sign that no number may have, although nobody asks for the number. -/
private def signed : String := " \x7b \"\\u006bind\" : [ +0.5e+1 ] \x7d\n"

/-- The strict texts are validated as documents, and the others are not documents. -/
theorem ofPayload_strict_spaced :
    (Document ⟨200, 4300⟩ (.object []) "\x7b\t\x7d".toList ∧
      ofPayload (.text "\x7b\t\x7d") = ofValue (.object [])) ∧
    (spaced.toList ∈ Json.Strict.document ⟨200, 4300⟩ ∧
      ofPayload (.text spaced) = .error [⟨.extraForbidden, [.key "kind"]⟩] ∧
      ∀ detail ∈ [(⟨.extraForbidden, [.key "kind"]⟩ : Detail)], detail.cause ≠ .jsonInvalid) ∧
    (signed.toList ∉ Json.Strict.document ⟨200, 4300⟩ ∧
      ofPayload (.text signed) = .error [⟨.jsonInvalid, []⟩]) ∧
    (∀ encoded : String, [0x7b, 0xff, 0x7d] ≠ encoded.toUTF8.data.toList) ∧
    ofPayload (.octets [0x7b, 0xff, 0x7d]) = .error [⟨.jsonInvalid, []⟩] := by
  have hempty : Document ⟨200, 4300⟩ (.object []) "\x7b\t\x7d".toList :=
    .intro (List.forall_mem_nil _) (.emptyObject (List.forall_mem_singleton.mpr rfl))
      (List.forall_mem_nil _)
  obtain ⟨_, hread, _⟩ := ofPayload_strict "\x7b\t\x7d" []
  obtain ⟨_, _, hinside, houtside, _⟩ := ofPayload_strict spaced []
  obtain ⟨_, _, hsigned, _, _⟩ := ofPayload_strict signed []
  obtain ⟨_, _, _, _, _, hoctets⟩ := ofPayload_strict "" [0x7b, 0xff, 0x7d]
  have hspaced : ofPayload (.text spaced) = .error [⟨.extraForbidden, [.key "kind"]⟩] := by
    decide +kernel
  have hinvalid : ofPayload (.text signed) = .error [⟨.jsonInvalid, []⟩] := by decide +kernel
  have hmem : spaced.toList ∈ Json.Strict.document ⟨200, 4300⟩ := by
    by_contra hmem
    rw [houtside hmem] at hspaced
    cases hspaced
  have hnone : ∀ encoded : String, [0x7b, 0xff, 0x7d] ≠ encoded.toUTF8.data.toList := by
    intro encoded hencoded
    have htext : Json.utf8Text? [0x7b, 0xff, 0x7d] = none := by decide +kernel
    rw [utf8Text?_eq_some_iff.mpr hencoded] at htext
    cases htext
  refine ⟨⟨hempty, hread _ hempty⟩, ⟨hmem, hspaced, hinside hmem _ hspaced⟩, ⟨?_, hinvalid⟩, hnone,
    hoctets hnone⟩
  intro hmem
  exact hsigned hmem _ hinvalid _ (List.mem_singleton_self _) rfl

end Message

/-! ## How the limits count -/

mutual

/-- How many arrays and objects are nested in a document, empty ones included. -/
def nesting : Value → Nat
  | .array items => itemsNesting items + 1
  | .object members => membersNesting members + 1
  | _ => 0

/-- How many arrays and objects are nested in the items of an array. -/
def itemsNesting : List Value → Nat
  | [] => 0
  | item :: rest => max (nesting item) (itemsNesting rest)

/-- How many arrays and objects are nested in the members of an object. -/
def membersNesting : List (String × Value) → Nat
  | [] => 0
  | (_, value) :: rest => max (nesting value) (membersNesting rest)

end

/-- An object whose only member is not declared. -/
private def holding (value : Value) : Value := .object [("x", value)]

/-- Arrays one inside the other, around an empty object. -/
private def nested : (depth : Nat) → Value
  | 0 => .object []
  | depth + 1 => .array [nested depth]

/-- The empty object counts for the nesting. -/
private theorem nesting_nested (depth : Nat) : nesting (nested depth) = depth + 1 := by
  induction depth with
  | zero => rfl
  | succ depth ih => rw [nested, nesting, itemsNesting, itemsNesting, ih, Nat.max_zero]

/-- The empty object does not count for the limit. -/
private theorem fits_nested (depth : Nat) : (nested depth).Fits limits depth := by
  induction depth with
  | zero => exact .inl rfl
  | succ depth ih => exact .inr ⟨Nat.succ_pos depth, ih, trivial⟩

/-- The sign of an integer counts for the limit. -/
private theorem length_integer_neg_pow {exponent : Nat} (h : 0 < exponent) :
    (Json.Writer.integer (-(10 ^ exponent : Nat))).length = exponent + 2 := by
  have hneg : (-(10 ^ exponent : Nat) : Int) < 0 :=
    Int.neg_neg_of_pos (Int.natCast_pos.mpr (Nat.pow_pos (by decide)))
  rw [Json.length_integer, Int.natAbs_neg, Int.natAbs_natCast, Text.length_toDigits_pow h,
    if_pos (decide_eq_true hneg)]

/-- An integer with a sign and one digit less than the limit is beyond it. -/
private theorem not_fits_neg_pow {exponent : Nat} (h : exponent + 1 = limits.digits) :
    ¬(holding (.integer (-(10 ^ exponent : Nat)))).Fits limits limits.depth := by
  have hpos : 0 < exponent := by
    have hlimit : limits.digits = 4300 := rfl
    omega
  rintro (hnil | ⟨_, hinteger, _⟩)
  · cases hnil
  · rw [Value.Fits, length_integer_neg_pow hpos] at hinteger
    omega

/-- The digits of a decimal number in front of its exponent count for the limit. -/
private theorem not_fits_decimal_pow {exponent : Nat} (h : exponent = limits.digits) :
    ¬(holding (.decimal ⟨false, 10 ^ exponent, 0⟩)).Fits limits limits.depth := by
  have hpos : 0 < exponent := by
    have hlimit : limits.digits = 4300 := rfl
    omega
  rintro (hnil | ⟨_, hdecimal, _⟩)
  · cases hnil
  · rw [Value.Fits, Text.length_toDigits_pow hpos] at hdecimal
    omega

/-- Two hundred and one arrays and objects are accepted if the innermost is empty. An integer of
4300 digits is no document if it has a sign, and neither is a decimal number of 4301 digits. -/
theorem Message.ofPayload_limits :
    (nesting (holding (nested 199)) = 201 ∧
      Message.ofPayload (.text (holding (nested 199)).toText) =
        .error [⟨.extraForbidden, [.key "x"]⟩]) ∧
    ((Nat.toDigits 10 (10 ^ 4299)).length = 4300 ∧
      Message.ofPayload (.text (holding (.integer (-(10 ^ 4299 : Nat)))).toText) =
        .error [⟨.jsonInvalid, []⟩]) ∧
    Message.ofPayload (.text (holding (.decimal ⟨false, 10 ^ 4300, 0⟩)).toText) =
      .error [⟨.jsonInvalid, []⟩] := by
  have hundeclared : ∀ value, Message.ofValue (holding value) =
      .error [⟨.extraForbidden, [.key "x"]⟩] := fun _ => rfl
  have hfits : (holding (nested 199)).Fits limits limits.depth :=
    .inr ⟨by decide, fits_nested 199, trivial⟩
  refine ⟨⟨?_, ?_⟩, ⟨Text.length_toDigits_pow (by decide), ?_⟩, ?_⟩
  · rw [holding, nesting, membersNesting, membersNesting, nesting_nested, Nat.max_zero]
  · rw [ofPayload_of_ofText? (Value.ofText?_toText hfits)]
    exact hundeclared _
  · exact ofPayload_of_ofText?_eq_none (Value.ofText?_toText_eq_none (not_fits_neg_pow rfl))
  · exact ofPayload_of_ofText?_eq_none (Value.ofText?_toText_eq_none (not_fits_decimal_pow rfl))

end AccessPolicy.Wire
