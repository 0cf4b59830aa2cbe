import AccessPolicy.Proofs.Base64.Encoding
import AccessPolicy.Proofs.Json.Recognition
import AccessPolicy.Proofs.Text.Decimal
import AccessPolicy.Proofs.Wire.Version
import Mathlib.Algebra.Group.Int.Defs

/-!
# Messages are read back

The document of a message, as it is read from its text, is accepted as this message. Its text goes
beyond the limits only in the length of the version, and never in depth, so this length alone
decides whether a message is read back.
-/

namespace AccessPolicy.Wire

open Json (Value)
open Json.Grammar (Document)

/-! ## Documents of messages -/

/-- Items that are accepted as what they are documents of are accepted together. -/
private theorem items_map {α : Type} {check : Value → Checked α} {document : α → Value}
    (h : ∀ item, check (document item) = .ok item) (index : Nat) (items : List α) :
    Checked.items check index (items.map document) = .ok items := by
  induction items generalizing index with
  | nil => rfl
  | cons item rest ih =>
    rw [List.map_cons, Checked.items, h, ih]
    rfl

/-- The items of an array are read one by one. -/
private theorem rereadItems_map {α : Type} (document : α → Value) (items : List α) :
    Json.rereadItems (items.map document) = items.map fun item => (document item).reread := by
  induction items with
  | nil => rfl
  | cons item rest ih => rw [List.map_cons, Json.rereadItems, ih, List.map_cons]

/-- Items that are each within the limits are within them together. -/
private theorem itemsFit_map {α : Type} {limits : Json.Limits} {depth : Nat}
    {document : α → Value} (h : ∀ item, (document item).Fits limits depth) (items : List α) :
    Json.ItemsFit limits depth (items.map document) := by
  induction items with
  | nil => trivial
  | cons item rest ih => exact ⟨h item, ih⟩

/-- The document of a binding is read as it is. -/
theorem Binding.reread_toValue (binding : Binding) : binding.toValue.reread = binding.toValue := by
  obtain ⟨role, texts, condition⟩ := binding
  have htexts : Json.rereadItems (texts.map .text) = texts.map .text := rereadItems_map _ texts
  cases condition with
  | none => simp only [toValue, Value.reread, Json.rereadMembers, htexts, Option.toList_none,
      List.map_nil, List.append_nil]
  | some condition =>
    simp only [toValue, Value.reread, Json.rereadMembers, htexts, Option.toList_some,
      List.map_cons, List.map_nil, List.cons_append, List.nil_append, Condition.toValue]

/-- The document of a binding is read back. -/
theorem Binding.ofValue_reread (binding : Binding) :
    Binding.ofValue binding.toValue.reread = .ok binding := by
  obtain ⟨role, texts, condition⟩ := binding
  have htexts : array checkText (.array (Json.rereadItems (texts.map .text))) = .ok texts := by
    have htext : ∀ text, checkText (Value.text text).reread = .ok text := fun _ => rfl
    rw [rereadItems_map]
    exact items_map htext 0 texts
  have hfields : ∀ condition : Checked (Option Condition),
      (((((Checked.ofCause (.ok role)).both
        (Checked.under (.key "members")
          (array checkText (.array (Json.rereadItems (texts.map .text)))))).both
        condition).both (.ok ())).map fun fields =>
          (⟨fields.1.1.1, fields.1.1.2, fields.1.2⟩ : Binding)) =
      condition.map fun condition => ⟨role, texts, condition⟩ := by
    intro condition
    rw [htexts]
    cases condition <;> rfl
  cases condition with
  | none => exact hfields (.ok none)
  | some condition => exact hfields (.ok (some condition))

/-- The document of a message is read back. -/
theorem Message.ofValue_reread (message : Message) :
    Message.ofValue message.toValue.reread = .ok message := by
  obtain ⟨version, bindings, etag⟩ := message
  have hbindings : array Binding.ofValue
      (.array (Json.rereadItems (bindings.map Binding.toValue))) = .ok bindings := by
    rw [rereadItems_map]
    exact items_map Binding.ofValue_reread 0 bindings
  have hetag : octetsOf (.text (String.ofList (Base64.encode .urlSafe etag))) = .ok etag := by
    rw [octetsOf, String.toList_ofList, Base64.decodeLenient?_encode]
  have hfields :
      ((((((Checked.ofCause (.ok version)).both
        (Checked.under (.key "bindings")
          (array Binding.ofValue (.array (Json.rereadItems (bindings.map Binding.toValue)))))).both
        (Checked.under (.key "etag")
          (Checked.ofCause (octetsOf (.text (String.ofList (Base64.encode .urlSafe etag))))))).both
        (.ok ())).map fun fields => ⟨fields.1.1.1, fields.1.1.2, fields.1.2⟩ :
          Checked Message)) = .ok ⟨version, bindings, etag⟩ := by
    rw [hbindings, hetag]
    rfl
  exact hfields

/-! ## Limits -/

section Limits

variable {bounds : Json.Limits} {depth : Nat}

/-- The document of a condition is within the limits. -/
private theorem fits_condition (hd : 1 ≤ depth) (condition : Condition) :
    condition.toValue.Fits bounds depth :=
  Or.inr ⟨hd, trivial, trivial, trivial, trivial, trivial⟩

/-- The document of a binding is within the limits. -/
private theorem fits_binding (hd : 2 ≤ depth) (binding : Binding) :
    binding.toValue.Fits bounds depth := by
  obtain ⟨role, texts, condition⟩ := binding
  have htext : ∀ text, (Value.text text).Fits bounds (depth - 1 - 1) := fun _ => trivial
  have htexts : (Value.array (texts.map .text)).Fits bounds (depth - 1) :=
    Or.inr ⟨by omega, itemsFit_map htext texts⟩
  cases condition with
  | none => exact Or.inr ⟨by omega, trivial, htexts, trivial⟩
  | some condition =>
    exact Or.inr ⟨by omega, trivial, htexts, fits_condition (by omega) condition, trivial⟩

/-- The document of a message is within the limits exactly when its version is not too long. -/
theorem Message.fits_toValue_iff (hd : 4 ≤ depth) (message : Message) :
    message.toValue.Fits bounds depth ↔
      (Json.Writer.integer message.version).length ≤ bounds.digits := by
  have hbindings : (Value.array (message.bindings.map Binding.toValue)).Fits bounds (depth - 1) :=
    Or.inr ⟨by omega, itemsFit_map (fits_binding (by omega)) message.bindings⟩
  constructor
  · intro h
    rcases h with hnil | ⟨_, hversion, _⟩
    · cases hnil
    · exact hversion
  · intro hversion
    exact Or.inr ⟨by omega, hversion, hbindings, trivial, trivial⟩

end Limits

/-! ## Texts of messages -/

namespace Message

/-- The members of the object in the text of a message. -/
def written (message : Message) : List (String × Value) :=
  [("version", .integer message.version), ("bindings", .array (message.bindings.map Binding.toValue)),
    ("etag", .text (String.ofList (Base64.encode .urlSafe message.etag)))]

/-- The document of a message is read as this object. -/
theorem reread_toValue (message : Message) : message.toValue.reread = .object message.written := by
  have hbindings : Json.rereadItems (message.bindings.map Binding.toValue) =
      message.bindings.map Binding.toValue := by
    rw [rereadItems_map]
    exact List.map_congr_left fun binding _ => binding.reread_toValue
  simp only [toValue, Value.reread, Json.rereadMembers, hbindings, written]

/-- The text of a message is a text of this object, for everyone who takes integers of the length of
its version. -/
theorem document_toJson {message : Message} {digits : Nat}
    (h : (toString message.version).length ≤ digits) :
    Document ⟨200, digits⟩ (.object message.written) message.toJson.toList := by
  rw [← String.length_toList, Json.toList_toString] at h
  have hfits : message.toValue.Fits ⟨200, digits⟩ 200 :=
    (message.fits_toValue_iff (by decide)).mpr h
  rw [← reread_toValue, ← Value.ofChars?_eq_some_iff]
  exact Value.ofText?_toText hfits

/-- The text of a message with a short version is read back. -/
theorem ofJson_toJson_of_short {message : Message}
    (h : (Json.Writer.integer message.version).length ≤ limits.digits) :
    ofJson message.toJson = .ok message := by
  have hread := Value.ofText?_toText ((message.fits_toValue_iff (by decide)).mpr h)
  rw [ofJson, toJson, hread]
  exact message.ofValue_reread

/-- The text of a message with a version that is too long is no document for the reader. -/
theorem ofJson_toJson_of_long {message : Message}
    (h : limits.digits < (Json.Writer.integer message.version).length) :
    ofJson message.toJson = .error notJson := by
  have hfits : ¬message.toValue.Fits limits limits.depth :=
    mt (message.fits_toValue_iff (by decide)).mp (Nat.not_le.mpr h)
  rw [ofJson, toJson, Value.ofText?_toText_eq_none hfits]

/-- A message is read back from its text exactly when the decimal text of its version, the sign
included, has at most 4300 characters, as every version has that was read. Otherwise the text is
reported as no document. -/
theorem ofPayload_toJson (message : Message) :
    (ofPayload (.text message.toJson) =
      if (toString message.version).length ≤ 4300 then .ok message
      else .error [⟨.jsonInvalid, []⟩]) ∧
    (4300 < (toString message.version.natAbs).length →
      ofPayload (.text message.toJson) = .error [⟨.jsonInvalid, []⟩]) ∧
    (∀ payload, ofPayload payload = .ok message →
      ofPayload (.text message.toJson) = .ok message) := by
  have hlength : (toString message.version).length =
      (Json.Writer.integer message.version).length := by
    rw [← String.length_toList, Json.toList_toString]
  refine ⟨?_, ?_, ?_⟩
  · by_cases hshort : (toString message.version).length ≤ 4300
    · rw [if_pos hshort]
      rw [hlength] at hshort
      exact ofJson_toJson_of_short hshort
    · rw [if_neg hshort]
      rw [hlength, Nat.not_le] at hshort
      exact ofJson_toJson_of_long hshort
  · intro hdigits
    refine ofJson_toJson_of_long (Nat.lt_of_lt_of_le hdigits ?_)
    rw [Json.length_integer, ← String.length_toList, Nat.toString_eq_repr, Nat.toList_repr]
    exact Nat.le_add_right _ _
  · intro payload h
    exact ofJson_toJson_of_short (length_integer_version_le h)

/-- A message whose texts need escapes. -/
private def escaped : Message :=
  ⟨-7, [⟨"roles/\"a\\b\n\x7f😀", ["user:é"], some ⟨"\t", "", "\x00", ""⟩⟩], [0xfb, 0xff, 0xfe, 0x00]⟩

/-- A message whose version is a power of ten. -/
private def power (exponent : Nat) : Message := ⟨10 ^ exponent, [], []⟩

/-- Its version has one digit more than its exponent counts. -/
private theorem lt_length_power {exponent : Nat} (h : 0 < exponent) :
    exponent < (toString (power exponent).version.natAbs).length := by
  have habs : (power exponent).version.natAbs = 10 ^ exponent := Int.natAbs_pow 10 exponent
  rw [habs, ← String.length_toList, Nat.toString_eq_repr, Nat.toList_repr,
    Text.length_toDigits_pow h]
  exact Nat.lt_succ_self exponent

/-- A message with escapes is read back, one that came from a payload is, and one with a version
of 4301 digits is not. -/
theorem ofPayload_toJson_escaped :
    ofPayload (.text escaped.toJson) = .ok escaped ∧
    (ofPayload (.text "\x7b \"version\": \"0_7.0\" \x7d") = .ok ⟨7, [], []⟩ ∧
      ofPayload (.text (toJson ⟨7, [], []⟩)) = .ok ⟨7, [], []⟩) ∧
    (4300 < (toString (power 4300).version.natAbs).length ∧
      ofPayload (.text (power 4300).toJson) = .error [⟨.jsonInvalid, []⟩]) := by
  have hpayload : ofPayload (.text "\x7b \"version\": \"0_7.0\" \x7d") = .ok ⟨7, [], []⟩ := by
    decide +kernel
  have hlong : 4300 < (toString (power 4300).version.natAbs).length := lt_length_power (by decide)
  refine ⟨?_, ⟨hpayload, ?_⟩, hlong, ?_⟩
  · rw [(ofPayload_toJson escaped).1]
    exact if_pos (by decide)
  · exact (ofPayload_toJson ⟨7, [], []⟩).2.2 _ hpayload
  · exact (ofPayload_toJson (power 4300)).2.1 hlong

end Message

end AccessPolicy.Wire
