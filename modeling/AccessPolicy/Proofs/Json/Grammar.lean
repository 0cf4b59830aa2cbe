import AccessPolicy.Json.Reader

/-!
# The grammar of documents

The grammar says which lists of characters spell a document, without saying how they are read.
Blanks may stand between any two tokens, and a character may be spelled in several ways. The two
limits are part of the grammar: the depth counts down with every array or object that holds
something, and the integer part of a number is bounded with its sign.
-/

namespace AccessPolicy.Json.Grammar

open Reader

/-- Characters that may stand between two tokens. -/
def Blanks (cs : List Char) : Prop := ∀ c ∈ cs, isBlank c = true

/-- The spellings of a character of a text: as it is, by a letter behind a backslash, or by the
number of its code unit or of the two halves of a surrogate pair. -/
inductive Character : Char → List Char → Prop where
  | plain {c : Char} (hp : isPlain c = true) : Character c [c]
  | named {letter c : Char} (hn : namedCharacter? letter = some c) : Character c ['\\', letter]
  | numbered {cs : List Char} {code : Nat} (hu : codeUnit cs = some (code, []))
      (hh : isHighSurrogate code = false) (hl : isLowSurrogate code = false) :
      Character (Char.ofNat code) ('\\' :: 'u' :: cs)
  | paired {cs ds : List Char} {high low : Nat} (hc : codeUnit cs = some (high, []))
      (hh : isHighSurrogate high = true) (hd : codeUnit ds = some (low, []))
      (hl : isLowSurrogate low = true) :
      Character (Char.ofNat (pairedCode high low)) ('\\' :: 'u' :: (cs ++ '\\' :: 'u' :: ds))

/-- The spellings of the characters of a text, one after another. -/
inductive Characters : List Char → List Char → Prop where
  | nil : Characters [] []
  | cons {c : Char} {text cs ds : List Char} (hc : Character c cs) (ht : Characters text ds) :
      Characters (c :: text) (cs ++ ds)

/-- A nonempty run of digits. -/
def Run (cs : List Char) : Prop := cs ≠ [] ∧ ∀ c ∈ cs, c.isDigit = true

/-- The spellings of the part of a number behind its point. -/
inductive Fraction : Option (List Char) → List Char → Prop where
  | absent : Fraction none []
  | present {run : List Char} (hr : Run run) : Fraction (some run) ('.' :: run)

/-- The spellings of a sign, true for minus, in front of an exponent. -/
inductive Sign : Bool → List Char → Prop where
  | none : Sign false []
  | plus : Sign false ['+']
  | minus : Sign true ['-']

/-- The spellings of the exponent of a number. -/
inductive Exponent : Option Int → List Char → Prop where
  | absent : Exponent none []
  | present {mark : Char} {negative : Bool} {cs run : List Char} (hm : mark = 'e' ∨ mark = 'E')
      (hs : Sign negative cs) (hr : Run run) :
      Exponent (some (signed negative run)) (mark :: (cs ++ run))

/-- The spellings of numbers and of the words for what is not finite. -/
inductive Number (limits : Limits) : Value → List Char → Prop where
  | notANumber : Number limits .notANumber ['N', 'a', 'N']
  | infinity : Number limits (.infinity false) ['I', 'n', 'f', 'i', 'n', 'i', 't', 'y']
  | negativeInfinity :
      Number limits (.infinity true) ['-', 'I', 'n', 'f', 'i', 'n', 'i', 't', 'y']
  | numeral {negative : Bool} {whole fs es : List Char} {fraction : Option (List Char)}
      {exponent : Option Int} (hw : Run whole) (hi : isIntegerPart limits negative whole = true)
      (hf : Fraction fraction fs) (he : Exponent exponent es) :
      Number limits (numberOf negative whole fraction exponent)
        ((if negative then ['-'] else []) ++ (whole ++ (fs ++ es)))

/-- The spellings of the name of a member with the colon and the blanks behind it. -/
inductive Name : String → List Char → Prop where
  | intro {name : String} {cs before after : List Char} (hc : Characters name.toList cs)
      (hb : Blanks before) (ha : Blanks after) :
      Name name ('"' :: (cs ++ '"' :: (before ++ ':' :: after)))

/-- What is spelled: a document, or what follows an opening bracket or brace up to the closing
one. -/
inductive Part where
  /-- A document. -/
  | value (value : Value)
  /-- The items of an array, of which there is at least one. -/
  | items (items : List Value)
  /-- The members of an object, of which there is at least one. -/
  | members (members : List (String × Value))

/-- The spellings of a part in which at most `depth` nonempty arrays and objects are nested. -/
inductive Spells (limits : Limits) : (depth : Nat) → Part → List Char → Prop where
  | nullWord {depth : Nat} : Spells limits depth (.value .null) ['n', 'u', 'l', 'l']
  | trueWord {depth : Nat} : Spells limits depth (.value (.bool true)) ['t', 'r', 'u', 'e']
  | falseWord {depth : Nat} : Spells limits depth (.value (.bool false)) ['f', 'a', 'l', 's', 'e']
  | number {depth : Nat} {value : Value} {cs : List Char} (hn : Number limits value cs) :
      Spells limits depth (.value value) cs
  | text {depth : Nat} {text : String} {cs : List Char} (hc : Characters text.toList cs) :
      Spells limits depth (.value (.text text)) ('"' :: (cs ++ ['"']))
  | emptyArray {depth : Nat} {blanks : List Char} (hb : Blanks blanks) :
      Spells limits depth (.value (.array [])) ('[' :: (blanks ++ [']']))
  | array {depth : Nat} {blanks cs : List Char} {items : List Value} (hb : Blanks blanks)
      (hi : Spells limits depth (.items items) cs) :
      Spells limits (depth + 1) (.value (.array items)) ('[' :: (blanks ++ cs))
  | emptyObject {depth : Nat} {blanks : List Char} (hb : Blanks blanks) :
      Spells limits depth (.value (.object [])) ('{' :: (blanks ++ ['}']))
  | object {depth : Nat} {blanks cs : List Char} {members : List (String × Value)}
      (hb : Blanks blanks) (hm : Spells limits depth (.members members) cs) :
      Spells limits (depth + 1) (.value (.object members)) ('{' :: (blanks ++ cs))
  | lastItem {depth : Nat} {value : Value} {cs blanks : List Char}
      (hv : Spells limits depth (.value value) cs) (hb : Blanks blanks) :
      Spells limits depth (.items [value]) (cs ++ (blanks ++ [']']))
  | item {depth : Nat} {value : Value} {rest : List Value} {cs before after ds : List Char}
      (hv : Spells limits depth (.value value) cs) (hb : Blanks before) (ha : Blanks after)
      (hr : Spells limits depth (.items rest) ds) :
      Spells limits depth (.items (value :: rest)) (cs ++ (before ++ ',' :: (after ++ ds)))
  | lastMember {depth : Nat} {name : String} {value : Value} {ns cs blanks : List Char}
      (hn : Name name ns) (hv : Spells limits depth (.value value) cs) (hb : Blanks blanks) :
      Spells limits depth (.members [(name, value)]) (ns ++ (cs ++ (blanks ++ ['}'])))
  | member {depth : Nat} {name : String} {value : Value} {rest : List (String × Value)}
      {ns cs before after ds : List Char} (hn : Name name ns)
      (hv : Spells limits depth (.value value) cs) (hb : Blanks before) (ha : Blanks after)
      (hr : Spells limits depth (.members rest) ds) :
      Spells limits depth (.members ((name, value) :: rest))
        (ns ++ (cs ++ (before ++ ',' :: (after ++ ds))))

end AccessPolicy.Json.Grammar
