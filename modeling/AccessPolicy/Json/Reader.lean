import AccessPolicy.Json.Value
import AccessPolicy.Text.Hex

/-!
# Reading documents

The reader takes strict JSON, and beyond it the three words for numbers that are not finite.
Every scanner takes the characters from where it starts and gives what it read with the characters
that follow. Two limits apply: how deep arrays and objects that hold something may nest, and how
many characters the integer part of a number may have, its sign included.
-/

namespace AccessPolicy.Json

/-- The limits of a reader. -/
structure Limits where
  /-- How many nonempty arrays and objects may surround a value. -/
  depth : Nat
  /-- How many characters the integer part of a number may have. -/
  digits : Nat
  deriving DecidableEq, Repr

namespace Reader

/-- Whether a character may stand between two tokens. -/
def isBlank (c : Char) : Bool := c = ' ' || c = '\t' || c = '\n' || c = '\r'

/-- The characters from the next token on. -/
def skipBlanks (cs : List Char) : List Char := cs.dropWhile isBlank

/-! ## Texts -/

/-- Four hexadecimal digits. -/
def codeUnit : List Char → Option (Nat × List Char)
  | a :: b :: c :: d :: rest => (Text.Hex.value? 0 [a, b, c, d]).map (·, rest)
  | _ => none

/-- Whether a code unit is the first half of a surrogate pair. -/
def isHighSurrogate (unit : Nat) : Bool := 0xD800 ≤ unit && unit < 0xDC00

/-- Whether a code unit is the second half of a surrogate pair. -/
def isLowSurrogate (unit : Nat) : Bool := 0xDC00 ≤ unit && unit < 0xE000

/-- The code point of a surrogate pair. -/
def pairedCode (high low : Nat) : Nat := 0x10000 + (high - 0xD800) * 0x400 + (low - 0xDC00)

/-- The second half of a surrogate pair, which must follow as an escape of its own. -/
def lowSurrogate : List Char → Option (Nat × List Char)
  | '\\' :: 'u' :: rest => (codeUnit rest).filter fun (unit, _) => isLowSurrogate unit
  | _ => none

/-- The character that code units stand for, from behind the first `\u` on. -/
def numberedCharacter (cs : List Char) : Option (Char × List Char) :=
  (codeUnit cs).bind fun (unit, rest) =>
    if isHighSurrogate unit then
      (lowSurrogate rest).map fun (low, rest) => (Char.ofNat (pairedCode unit low), rest)
    else if isLowSurrogate unit then none
    else some (Char.ofNat unit, rest)

/-- The character that a letter stands for behind a backslash. -/
def namedCharacter? (c : Char) : Option Char :=
  if c = '"' ∨ c = '\\' ∨ c = '/' then some c
  else if c = 'b' then some '\x08'
  else if c = 'f' then some '\x0c'
  else if c = 'n' then some '\n'
  else if c = 'r' then some '\r'
  else if c = 't' then some '\t'
  else none

/-- An escaped character, from behind the backslash on. -/
def escaped : List Char → Option (Char × List Char)
  | [] => none
  | c :: rest =>
    if c = 'u' then numberedCharacter rest else (namedCharacter? c).map (·, rest)

/-- Whether a character may stand unescaped in a text. -/
def isPlain (c : Char) : Bool := 0x20 ≤ c.toNat && c ≠ '"' && c ≠ '\\'

/-- One character of a text, plain or escaped. -/
def character : List Char → Option (Char × List Char)
  | [] => none
  | c :: rest =>
    if c = '\\' then escaped rest else if isPlain c then some (c, rest) else none

/-- The characters of a text up to its closing mark, of which there are fewer than `fuel`. -/
def characters : (fuel : Nat) → List Char → Option (List Char × List Char)
  | 0, _ => none
  | fuel + 1, cs =>
    match cs with
    | '"' :: rest => some ([], rest)
    | cs =>
      (character cs).bind fun (c, rest) =>
        (characters fuel rest).map fun (text, rest) => (c :: text, rest)

/-- A text of fewer than `fuel` characters, from behind its opening mark on. -/
def text (fuel : Nat) (cs : List Char) : Option (String × List Char) :=
  (characters fuel cs).map fun (text, rest) => (String.ofList text, rest)

/-! ## Numbers -/

/-- A nonempty run of digits. -/
def digits (cs : List Char) : Option (List Char × List Char) :=
  let run := cs.takeWhile Char.isDigit
  if run.isEmpty then none else some (run, cs.dropWhile Char.isDigit)

/-- The digits behind a point, if there is a point. -/
def fraction : List Char → Option (Option (List Char) × List Char)
  | '.' :: rest => (digits rest).map fun (run, rest) => (some run, rest)
  | cs => some (none, cs)

/-- A sign, true for minus, and what follows it. -/
def sign : List Char → Bool × List Char
  | '-' :: rest => (true, rest)
  | '+' :: rest => (false, rest)
  | cs => (false, cs)

/-- The number with the given digits. -/
def natural (run : List Char) : Nat := Nat.ofDigitChars 10 run 0

/-- The number with the given digits and sign. -/
def signed (negative : Bool) (run : List Char) : Int :=
  if negative then -(natural run : Int) else natural run

/-- The power of ten behind the exponent mark, if there is one. -/
def exponent : List Char → Option (Option Int × List Char)
  | c :: rest =>
    if c = 'e' ∨ c = 'E' then
      let (negative, rest) := sign rest
      (digits rest).map fun (run, rest) => (some (signed negative run), rest)
    else some (none, c :: rest)
  | [] => some (none, [])

/-- Whether digits may be the integer part of a number: no zero leads, and with a sign in front
they stay within the limit. -/
def isIntegerPart (limits : Limits) (negative : Bool) (run : List Char) : Bool :=
  (run.length = 1 || run.head? ≠ some '0') &&
    decide (run.length + (if negative then 1 else 0) ≤ limits.digits)

/-- The value of a number from its parts. -/
def numberOf (negative : Bool) (whole : List Char) (fraction : Option (List Char))
    (exponent : Option Int) : Value :=
  match fraction, exponent with
  | none, none => .integer (signed negative whole)
  | _, _ =>
    let fraction := fraction.getD []
    .decimal ⟨negative, natural (whole ++ fraction), exponent.getD 0 - fraction.length⟩

/-- A number, from behind its minus sign on if it has one. -/
def unsignedNumber (limits : Limits) (negative : Bool) (cs : List Char) :
    Option (Value × List Char) :=
  (digits cs).bind fun (whole, rest) =>
    if isIntegerPart limits negative whole then
      (fraction rest).bind fun (fraction, rest) =>
        (exponent rest).map fun (exponent, rest) =>
          (numberOf negative whole fraction exponent, rest)
    else none

/-- A number, or one of the words for what is not finite. -/
def number (limits : Limits) : List Char → Option (Value × List Char)
  | 'N' :: 'a' :: 'N' :: rest => some (.notANumber, rest)
  | 'I' :: 'n' :: 'f' :: 'i' :: 'n' :: 'i' :: 't' :: 'y' :: rest => some (.infinity false, rest)
  | '-' :: 'I' :: 'n' :: 'f' :: 'i' :: 'n' :: 'i' :: 't' :: 'y' :: rest =>
    some (.infinity true, rest)
  | '-' :: rest => unsignedNumber limits true rest
  | cs => unsignedNumber limits false cs

/-! ## Values -/

/-- A value that holds no other. -/
def scalar (limits : Limits) (fuel : Nat) : List Char → Option (Value × List Char)
  | '"' :: rest => (text fuel rest).map fun (text, rest) => (.text text, rest)
  | 'n' :: 'u' :: 'l' :: 'l' :: rest => some (.null, rest)
  | 't' :: 'r' :: 'u' :: 'e' :: rest => some (.bool true, rest)
  | 'f' :: 'a' :: 'l' :: 's' :: 'e' :: rest => some (.bool false, rest)
  | cs => number limits cs

/-- The name of a member and the colon behind it. -/
def memberName (fuel : Nat) : List Char → Option (String × List Char)
  | '"' :: rest =>
    (text fuel rest).bind fun (name, rest) =>
      match skipBlanks rest with
      | ':' :: rest => some (name, skipBlanks rest)
      | _ => none
  | _ => none

mutual

/-- A value inside at most `depth` more nonempty arrays and objects. Every call hands on less
fuel, texts included, and two units for each character are enough. -/
def value (limits : Limits) : (fuel depth : Nat) → List Char → Option (Value × List Char)
  | 0, _, _ => none
  | fuel + 1, depth, cs =>
    match cs with
    | '[' :: rest =>
      match skipBlanks rest, depth with
      | ']' :: rest, _ => some (.array [], rest)
      | _, 0 => none
      | rest, depth + 1 =>
        (items limits fuel depth rest).map fun (items, rest) => (.array items, rest)
    | '{' :: rest =>
      match skipBlanks rest, depth with
      | '}' :: rest, _ => some (.object [], rest)
      | _, 0 => none
      | rest, depth + 1 =>
        (members limits fuel depth rest).map fun (members, rest) => (.object members, rest)
    | cs => scalar limits fuel cs

/-- The items of an array from a first one on, up to the closing bracket. -/
def items (limits : Limits) : (fuel depth : Nat) → List Char → Option (List Value × List Char)
  | 0, _, _ => none
  | fuel + 1, depth, cs =>
    (value limits fuel depth cs).bind fun (first, rest) =>
      match skipBlanks rest with
      | ']' :: rest => some ([first], rest)
      | ',' :: rest =>
        (items limits fuel depth (skipBlanks rest)).map fun (others, rest) =>
          (first :: others, rest)
      | _ => none

/-- The members of an object from a first one on, up to the closing brace. -/
def members (limits : Limits) :
    (fuel depth : Nat) → List Char → Option (List (String × Value) × List Char)
  | 0, _, _ => none
  | fuel + 1, depth, cs =>
    (memberName fuel cs).bind fun (name, rest) =>
      (value limits fuel depth rest).bind fun (first, rest) =>
        match skipBlanks rest with
        | '}' :: rest => some ([(name, first)], rest)
        | ',' :: rest =>
          (members limits fuel depth (skipBlanks rest)).map fun (others, rest) =>
            ((name, first) :: others, rest)
        | _ => none

end

end Reader

/-- The document that a list of characters is, blanks around it aside. -/
def Value.ofChars? (limits : Limits) (cs : List Char) : Option Value :=
  (Reader.value limits (2 * cs.length + 1) limits.depth (Reader.skipBlanks cs)).bind
    fun (value, rest) => if (Reader.skipBlanks rest).isEmpty then some value else none

/-- The document that a text is. -/
def Value.ofText? (limits : Limits) (text : String) : Option Value :=
  Value.ofChars? limits text.toList

end AccessPolicy.Json
