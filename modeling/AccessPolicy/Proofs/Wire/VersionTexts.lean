import AccessPolicy.Proofs.Text.Blank
import AccessPolicy.Proofs.Wire.Numerals
import AccessPolicy.Proofs.Wire.Payloads
import AccessPolicy.Proofs.Wire.Reported

/-!
# Texts of versions

The version of a document may be any spelling of its integer with blanks around it. What is read is
said of every document in which a text that is not too long is the last member of the name, whatever
else there is in it.
-/

namespace AccessPolicy.Wire

open Json (Value)
open Json.Grammar (Document Sign)
open Numeral (Grouped Spells SpellsLate ZeroFraction)

/-! ## Numerals in texts -/

/-- Whether a text spells an integer, with blanks around the numeral. -/
def SpellsVersion (version : Int) (text : String) : Prop :=
  ∃ cs, Text.IsAround cs text.toList ∧ Spells version cs

/-- Whether a text spells an integer with its minus sign behind zeros, with blanks around the
numeral. -/
def SpellsVersionLate (version : Int) (text : String) : Prop :=
  ∃ cs, Text.IsAround cs text.toList ∧ SpellsLate version cs

/-- What occurs in numerals is not blank. -/
private theorem isBlank_of_isMark {c : Char} (h : Numeral.isMark c = true) :
    Text.isBlank c = false := by
  by_cases hdigit : c.isDigit = true
  · have hrange := Char.isDigit_iff_toNat.mp hdigit
    have hzero : '0'.toNat = 48 := rfl
    have hnine : '9'.toNat = 57 := rfl
    simp only [Text.isBlank, Text.blankCodes, List.contains_eq_mem, List.mem_cons, List.not_mem_nil,
      decide_eq_false_iff_not, or_false, not_or]
    omega
  · simp only [Numeral.isMark, hdigit, Bool.false_or, Bool.or_eq_true, decide_eq_true_eq] at h
    rcases h with ((rfl | rfl) | rfl) | rfl <;> rfl

/-- A text spells an integer exactly if what is left of it without blanks does. -/
theorem spellsVersion_iff {version : Int} {text : String} :
    SpellsVersion version text ↔ Spells version (Text.trim text.toList) :=
  Text.exists_isAround_iff fun _ h c hc => isBlank_of_isMark (h.isMark c hc)

/-- The same with the minus sign behind zeros. -/
theorem spellsVersionLate_iff {version : Int} {text : String} :
    SpellsVersionLate version text ↔ SpellsLate version (Text.trim text.toList) :=
  Text.exists_isAround_iff fun _ h c hc => isBlank_of_isMark (h.isMark c hc)

/-- If one text without its blanks is a minus sign in front of another without them, which has no
sign, then it spells the negated integers. -/
theorem spellsVersion_negated_iff {text negated : String} {version : Int}
    (hplus : '+' ∉ text.toList) (hminus : '-' ∉ text.toList)
    (htrim : Text.trim negated.toList = '-' :: Text.trim text.toList) :
    SpellsVersion (-version) negated ∨ SpellsVersionLate (-version) negated ↔
      SpellsVersion version text ∨ SpellsVersionLate version text := by
  have hsubset := (Text.trim_sublist text.toList).subset
  have hlate : ∀ version, ¬SpellsLate version ('-' :: Text.trim text.toList) :=
    fun _ h => hminus (hsubset h.minus_mem_tail)
  have hlateText : ∀ version, ¬SpellsLate version (Text.trim text.toList) :=
    fun _ h => hminus (hsubset (List.mem_of_mem_tail h.minus_mem_tail))
  rw [spellsVersion_iff, spellsVersion_iff, spellsVersionLate_iff, spellsVersionLate_iff, htrim,
    or_iff_left (hlate _), or_iff_left (hlateText _)]
  exact Numeral.spells_minus_iff (fun h => hplus (hsubset h)) fun h => hminus (hsubset h)

/-- A text that is not too long holds no numeral that is too long. -/
private theorem not_isOversized {text : String} (hshort : text.length ≤ 4300) :
    ¬Numeral.isOversized text.toList = true := by
  have hexceeds : ∀ {limit : Nat} {cs : List Char}, cs.length ≤ limit →
      ¬Numeral.exceeds limit cs = true := by
    intro limit cs hle h
    have hlt := of_decide_eq_true (Bool.and_eq_true_iff.mp h).2
    have htake := (List.takeWhile_sublist Char.isDigit (l := cs)).length_le
    omega
  rw [← String.length_toList] at hshort
  have hlongest : Numeral.longest = 4300 := rfl
  unfold Numeral.isOversized
  split
  · rename_i rest heq
    rw [heq, List.length_cons] at hshort
    exact hexceeds (by omega)
  · exact hexceeds (by omega)

namespace Version

/-- A text that is not too long gives the integers that it spells. -/
theorem ofText_eq_ok_iff {text : String} (hshort : text.length ≤ 4300) {version : Int} :
    ofText text = .ok version ↔ SpellsVersion version text ∨ SpellsVersionLate version text := by
  have hloose : Numeral.loose? (Text.trim text.toList) = some version ↔ _ :=
    Numeral.loose?_eq_some_iff
      ((Text.trim_sublist text.toList).length_le.trans (String.length_toList ▸ hshort))
  rw [spellsVersion_iff, spellsVersionLate_iff, ← hloose, ofText, if_neg (not_isOversized hshort)]
  cases Numeral.loose? (Text.trim text.toList) with
  | none => simp
  | some found => simp

/-- A text that is not too long and spells no integer is no numeral. -/
theorem ofText_of_not_spells {text : String} (hshort : text.length ≤ 4300)
    (h : ∀ version, ¬SpellsVersion version text ∧ ¬SpellsVersionLate version text) :
    ofText text = .error .intParsing := by
  have hnone : ∀ version, ofText text ≠ .ok version :=
    fun version hread => not_or.mpr (h version) ((ofText_eq_ok_iff hshort).mp hread)
  rw [ofText, if_neg (not_isOversized hshort)] at hnone ⊢
  cases hloose : Numeral.loose? (Text.trim text.toList) with
  | none => rfl
  | some found =>
    rw [hloose] at hnone
    exact absurd rfl (hnone found)

end Version

namespace Message

variable {members : List (String × Value)}

/-- Validation reports on the version at most the cause for which its last value gives none. -/
theorem reportedOn_version {value : Value}
    (hlast : Json.lastMember? "version" members = some value) :
    (ofValue (.object members)).reportedOn "version" =
      (fault? Version.ofValue value).toList.map fun cause => ⟨cause, [.key "version"]⟩ :=
  enforces_ofValue.reportedOn_plain (by decide) (by simp) hlast

/-- A message that is validated has the version that the last value for it gives. -/
theorem ofValue_version_of_last {message : Message} {value : Value}
    (h : ofValue (.object members) = .ok message)
    (hlast : Json.lastMember? "version" members = some value) :
    Version.ofValue value = .ok message.version := by
  obtain ⟨hgiven⟩ := ((enforces_ofValue _).eq_ok_iff message).mp h
  exact hgiven.version.gives hlast

/-- A document that has nothing but a version gives it and has the defaults otherwise. -/
theorem ofValue_version (value : Value) :
    ofValue (.object [("version", value)]) =
      match Version.ofValue value with
      | .ok version => .ok ⟨version, [], []⟩
      | .error cause => .error [⟨cause, [.key "version"]⟩] := by
  change (((((Checked.under (.key "version") (Checked.ofCause (Version.ofValue value))).both
    (.ok [])).both (.ok [])).both (.ok ())).map _ : Checked Message) = _
  cases Version.ofValue value with
  | ok version => rfl
  | error cause => rfl

/-- Such a document is a message with the version that its member gives. -/
theorem ofValue_version_eq_ok_iff {value : Value} {version : Int} :
    ofValue (.object [("version", value)]) = .ok ⟨version, [], []⟩ ↔
      Version.ofValue value = .ok version := by
  rw [ofValue_version]
  cases Version.ofValue value with
  | ok found => simp
  | error cause => simp

/-- A document with nothing but the text of a version is a message with the integers that the text
spells. -/
private theorem ofValue_versionText_iff {text : String} (hshort : text.length ≤ 4300)
    {version : Int} : ofValue (.object [("version", .text text)]) = .ok ⟨version, [], []⟩ ↔
      SpellsVersion version text ∨ SpellsVersionLate version text :=
  ofValue_version_eq_ok_iff.trans (Version.ofText_eq_ok_iff hshort)

/-- Validation reads the version of a document, if it is given as a text that is not too long, as
the integer that the text spells: then nothing is reported on it, a message has this version, and a
document with nothing else is a message with it. A text that spells no integer is reported once, and
nothing else is reported on the version. The text of an integer is read as the integer, and a minus
sign in front of a text without a sign negates what is read. -/
theorem version_texts {text : String}
    (hlast : Json.lastMember? "version" members = some (.text text))
    (hshort : text.length ≤ 4300) :
    let validated := ofValue (.object members)
    let alone (text : String) := ofValue (.object [("version", .text text)])
    let spells (version : Int) := SpellsVersion version text ∨ SpellsVersionLate version text
    (∀ json : String, Document ⟨200, 4300⟩ (.object members) json.toList →
      ofPayload (.text json) = validated) ∧
    (∀ version, spells version → validated.reportedOn "version" = [] ∧
      ∀ message, validated = .ok message → message.version = version) ∧
    (∀ version, alone text = .ok ⟨version, [], []⟩ ↔ spells version) ∧
    ((∀ version, ¬spells version) →
      validated.reportedOn "version" = [⟨.intParsing, [.key "version"]⟩] ∧
        alone text = .error [⟨.intParsing, [.key "version"]⟩]) ∧
    (∀ version : Int, (toString version).length ≤ 4300 →
      alone (toString version) = .ok ⟨version, [], []⟩) ∧
    ('+' ∉ text.toList → '-' ∉ text.toList → ∀ negated : String, negated.length ≤ 4300 →
      Text.trim negated.toList = '-' :: Text.trim text.toList → ∀ version,
        alone negated = .ok ⟨-version, [], []⟩ ↔ alone text = .ok ⟨version, [], []⟩) := by
  intro validated alone spells
  refine ⟨fun _ => ofPayload_of_document, ?_, fun _ => ofValue_versionText_iff hshort, ?_, ?_, ?_⟩
  · intro version hspells
    have hread : Version.ofValue (.text text) = .ok version :=
      (Version.ofText_eq_ok_iff hshort).mpr hspells
    constructor
    · rw [reportedOn_version hlast, fault?, hread]
      rfl
    · intro message hmessage
      have hgiven := ofValue_version_of_last hmessage hlast
      rw [hread, Except.ok.injEq] at hgiven
      exact hgiven.symm
  · intro hnone
    have hread : Version.ofValue (.text text) = .error .intParsing :=
      Version.ofText_of_not_spells hshort fun version => not_or.mp (hnone version)
    constructor
    · rw [reportedOn_version hlast, fault?, hread]
      rfl
    · exact (ofValue_version _).trans (by rw [hread])
  · intro version hlength
    have haround : Text.IsAround (Json.Writer.integer version) (toString version).toList :=
      Json.toList_toString version ▸ Text.isAround_self _
    exact (ofValue_versionText_iff hlength).mpr (.inl ⟨_, haround, Numeral.spells_integer version⟩)
  · intro hplus hminus negated hnegated htrim version
    rw [ofValue_versionText_iff hnegated, ofValue_versionText_iff hshort]
    exact spellsVersion_negated_iff hplus hminus htrim

/-- The members of an object with a version, an earlier one of the same name and no bindings. -/
private def dated (version : String) : List (String × Value) :=
  [("version", .null), ("bindings", .null), ("version", .text version)]

/-- A numeral with everything that may be in one is read in a document with another fault, and it is
the negated one without the sign. Two underscores between digits are reported. -/
theorem version_texts_dated :
    (Json.lastMember? "version" (dated " -00__1_7.0 ") = some (.text " -00__1_7.0 ") ∧
      " -00__1_7.0 ".length ≤ 4300 ∧ SpellsVersion (-17) " -00__1_7.0 " ∧
      (ofValue (.object (dated " -00__1_7.0 "))).reportedOn "version" = []) ∧
    (ofValue (.object [("version", .text "00__1_7.0")]) = .ok ⟨17, [], []⟩ ∧
      ofValue (.object [("version", .text " -00__1_7.0 ")]) = .ok ⟨-17, [], []⟩) ∧
    ((∀ version, ¬(SpellsVersion version "1__7" ∨ SpellsVersionLate version "1__7")) ∧
      (ofValue (.object (dated "1__7"))).reportedOn "version" = [⟨.intParsing, [.key "version"]⟩]) ∧
    (toString (-17 : Int)).length ≤ 4300 ∧
      ofValue (.object [("version", .text (toString (-17 : Int)))]) = .ok ⟨-17, [], []⟩ := by
  have hlast (text : String) : Json.lastMember? "version" (dated text) = some (.text text) := rfl
  have hread : ofValue (.object [("version", .text "00__1_7.0")]) = .ok ⟨17, [], []⟩ := by
    decide +kernel
  have hnone : ∀ version, ¬(SpellsVersion version "1__7" ∨ SpellsVersionLate version "1__7") := by
    intro version hspells
    have hrejected : ofValue (.object [("version", .text "1__7")]) =
        .error [⟨.intParsing, [.key "version"]⟩] := by decide +kernel
    rw [(ofValue_versionText_iff (by decide)).mpr hspells] at hrejected
    cases hrejected
  have hnumeral : Spells (Json.Reader.signed true ['1', '7'])
      (['-'] ++ (['0', '0', '_', '_'] ++ (['1', '_', '7'] ++ ['.', '0']))) :=
    .intro .minus (.zeros (by simp)) (.apart rfl (.single rfl)) (.zeros 0)
  have hspells : SpellsVersion (-17) " -00__1_7.0 " :=
    ⟨_, ⟨[' '], [' '], List.forall_mem_singleton.mpr rfl, List.forall_mem_singleton.mpr rfl, rfl⟩,
      hnumeral⟩
  obtain ⟨_, haccepted, _⟩ := version_texts (hlast " -00__1_7.0 ") (by decide)
  obtain ⟨_, _, _, _, hdecimal, hnegated⟩ := version_texts (hlast "00__1_7.0") (by decide)
  obtain ⟨_, _, _, hrejected, _⟩ := version_texts (hlast "1__7") (by decide)
  exact ⟨⟨hlast _, by decide, hspells, (haccepted _ (.inl hspells)).1⟩,
    ⟨hread, (hnegated (by decide) (by decide) _ (by decide) (by decide) 17).mpr hread⟩,
    ⟨hnone, (hrejected hnone).1⟩, by decide, hdecimal _ (by decide)⟩

/-- Whether a text is a sign, digits in groups and a fraction of zeros, with blanks around them. -/
private def IsSimple (text : String) : Prop :=
  ∃ negative sign run digits fraction, Sign negative sign ∧ Grouped run digits ∧
    ZeroFraction fraction ∧ Text.IsAround (sign ++ (digits ++ fraction)) text.toList

/-- A text is no such text if it starts with a zero and behind that there is neither a digit, nor an
underscore and a digit, nor a fraction of zeros. -/
private theorem not_isSimple_zero {text : String} {cs : List Char}
    (htrim : Text.trim text.toList = '0' :: cs) (hnext : ∀ c ∈ cs.head?, c.isDigit = false)
    (hapart : ∀ c rest, cs = '_' :: c :: rest → c.isDigit = false) (hfraction : ¬ZeroFraction cs) :
    ¬IsSimple text := by
  rintro ⟨negative, sign, run, digits, fraction, hs, hd, hf, haround⟩
  have hmarks := (Spells.intro hs .absent hd hf).isMark
  rw [List.nil_append] at hmarks
  rw [Text.isAround_iff_trim fun c hc => isBlank_of_isMark (hmarks c hc), htrim] at haround
  cases hs with
  | none =>
    cases hd with
    | single _ =>
      cases haround
      exact hfraction hf
    | next _ hd =>
      obtain ⟨c, run', cs', hc, rfl, rfl⟩ := hd.exists_head
      cases haround
      exact Bool.eq_false_iff.mp (hnext c rfl) hc
    | apart _ hd =>
      obtain ⟨c, run', cs', hc, rfl, rfl⟩ := hd.exists_head
      cases haround
      exact Bool.eq_false_iff.mp (hapart c _ rfl) hc
  | plus => cases haround
  | minus => cases haround

/-- Texts are read as versions in which underscores stand side by side or a minus sign stands
between digits, if all that is in front of these is zeros. -/
theorem version_texts_zeros :
    (ofValue (.object [("version", .text "0__1")]) = .ok ⟨1, [], []⟩ ∧ ¬IsSimple "0__1") ∧
    (ofValue (.object [("version", .text "0-1")]) = .ok ⟨-1, [], []⟩ ∧ ¬IsSimple "0-1") := by
  have hunderscores : ¬IsSimple "0__1" := by
    have htrim : Text.trim "0__1".toList = '0' :: ['_', '_', '1'] := rfl
    refine not_isSimple_zero htrim ?_ ?_ ?_
    · rintro _ ⟨⟩
      rfl
    · rintro _ _ ⟨⟩
      rfl
    · rintro ⟨⟩
  have hminus : ¬IsSimple "0-1" := by
    have htrim : Text.trim "0-1".toList = '0' :: ['-', '1'] := rfl
    refine not_isSimple_zero htrim ?_ ?_ ?_
    · rintro _ ⟨⟩
      rfl
    · rintro _ _ ⟨⟩
    · rintro ⟨⟩
  exact ⟨⟨by decide +kernel, hunderscores⟩, ⟨by decide +kernel, hminus⟩⟩

end Message

end AccessPolicy.Wire
