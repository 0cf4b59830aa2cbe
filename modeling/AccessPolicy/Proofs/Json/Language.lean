import AccessPolicy.Proofs.Json.Grammar
import Mathlib.Computability.Language

/-!
# The language of documents

The texts of documents as a language over characters: regular expressions for the tokens, and one
step of nesting at a time for arrays and objects. Nothing in it refers to a reader or to what is
read. Token by token, its words are those that the grammar spells something with: `mem_text_iff`
for texts and `mem_number_iff` for numbers, both built from classes of characters.
-/

namespace AccessPolicy.Json.Strict

open Grammar
open scoped Computability

/-! ## Tokens -/

/-- The words of a single character that meets a condition. -/
def one (p : Char → Prop) : Language Char := {cs | ∃ c, p c ∧ cs = [c]}

/-- The only word of a language. -/
def word (cs : List Char) : Language Char := {ds | ds = cs}

/-- The words of a list. -/
def oneOf (words : List (List Char)) : Language Char := {cs | cs ∈ words}

/-- Blanks between tokens. -/
def blanks : Language Char := (one (· ∈ [' ', '\t', '\n', '\r']))∗

/-- A decimal digit. -/
def digit : Language Char := one fun c => '0' ≤ c ∧ c ≤ '9'

/-- A decimal digit that may lead. -/
def leadingDigit : Language Char := one fun c => '1' ≤ c ∧ c ≤ '9'

/-- The hexadecimal digits in either case. -/
def hexDigits : List Char := "0123456789abcdefABCDEF".toList

/-- A hexadecimal digit. -/
def hexDigit : Language Char := one (· ∈ hexDigits)

/-- The code unit of a character that needs no other: it lies below or above the surrogates. -/
def wholeUnit : Language Char :=
  one (· ∈ "0123456789abcefABCEF".toList) * hexDigit * hexDigit * hexDigit +
    one (· ∈ "dD".toList) * one (· ∈ "01234567".toList) * hexDigit * hexDigit

/-- The first half of a surrogate pair. -/
def highUnit : Language Char :=
  one (· ∈ "dD".toList) * one (· ∈ "89abAB".toList) * hexDigit * hexDigit

/-- The second half of a surrogate pair. -/
def lowUnit : Language Char :=
  one (· ∈ "dD".toList) * one (· ∈ "cdefCDEF".toList) * hexDigit * hexDigit

/-- A character of a text: no control character, and the quotation mark and the backslash only
behind a backslash. -/
def character : Language Char :=
  one (fun c => 0x20 ≤ c.toNat ∧ c ≠ '"' ∧ c ≠ '\\') +
    word ['\\'] * one (· ∈ "\"\\/bfnrt".toList) +
    word ['\\', 'u'] * wholeUnit + word ['\\', 'u'] * highUnit * word ['\\', 'u'] * lowUnit

/-- A text in quotation marks. -/
def text : Language Char := word ['"'] * character∗ * word ['"']

/-- An integer part: no zero leads. -/
def whole : Language Char := word ['0'] + leadingDigit * digit∗

/-- An integer part with its sign, if both together are not too long. -/
def signedWhole (limits : Limits) : Language Char :=
  {cs | cs ∈ (1 + word ['-']) * whole ∧ cs.length ≤ limits.digits}

/-- A number. -/
def number (limits : Limits) : Language Char :=
  signedWhole limits * (1 + word ['.'] * digit * digit∗) *
    (1 + one (· ∈ ['e', 'E']) * (1 + word ['+'] + word ['-']) * digit * digit∗)

/-! ## Documents -/

/-- The words that are documents, those for numbers that are not finite among them. -/
def literals : List (List Char) :=
  ["null".toList, "true".toList, "false".toList, "NaN".toList, "Infinity".toList,
    "-Infinity".toList]

/-- A document that holds no other. -/
def flat (limits : Limits) : Language Char :=
  oneOf literals + number limits + text + word ['['] * blanks * word [']'] +
    word ['{'] * blanks * word ['}']

/-- At least one item, with commas between them, up to the closing character. -/
def sequence (item : Language Char) (close : Char) : Language Char :=
  item * (blanks * word [','] * blanks * item)∗ * (blanks * word [close])

/-- A member of an object. -/
def member (value : Language Char) : Language Char :=
  text * blanks * word [':'] * blanks * value

/-- A document in which at most `depth` arrays and objects that are not empty surround a value. -/
def value (limits : Limits) : (depth : Nat) → Language Char
  | 0 => flat limits
  | depth + 1 =>
    flat limits + word ['['] * blanks * sequence (value limits depth) ']' +
      word ['{'] * blanks * sequence (member (value limits depth)) '}'

/-- A document with blanks around it. -/
def document (limits : Limits) : Language Char := blanks * value limits limits.depth * blanks

/-! ## Words of characters -/

variable {p : Char → Prop} {cs : List Char}

/-- A word is in its own language. -/
theorem mem_word (cs : List Char) : cs ∈ word cs := rfl

/-- A word is repeated from a class of characters exactly if all its characters are in it. -/
theorem mem_kstar_one_iff : cs ∈ (one p)∗ ↔ ∀ c ∈ cs, p c := by
  constructor
  · rintro ⟨parts, rfl, hparts⟩ c hc
    obtain ⟨part, hpart, hc⟩ := List.mem_flatten.mp hc
    obtain ⟨d, hd, rfl⟩ := hparts part hpart
    rw [List.mem_singleton.mp hc]
    exact hd
  · intro h
    refine ⟨cs.map ([·]), ?_, ?_⟩
    · rw [← List.flatMap_def, List.flatMap_singleton']
    · intro part hpart
      obtain ⟨c, hc, rfl⟩ := List.mem_map.mp hpart
      exact ⟨c, h c hc, rfl⟩

/-- A word in front of a repetition makes a longer one. -/
theorem append_mem_kstar {l : Language Char} {ds : List Char} (hc : cs ∈ l) (hd : ds ∈ l∗) :
    cs ++ ds ∈ l∗ := by
  have hle : l * l∗ ≤ l∗ := mul_kstar_le_kstar
  exact hle (Language.append_mem_mul hc hd)

/-- The blanks are those of the grammar. -/
theorem mem_blanks_iff : cs ∈ blanks ↔ Blanks cs := by
  rw [blanks, mem_kstar_one_iff]
  simp [Blanks, Reader.isBlank, or_assoc]

/-- The decimal digits are those of the grammar. -/
private theorem isDigit_iff {c : Char} : c.isDigit = true ↔ '0' ≤ c ∧ c ≤ '9' := by
  simp [Char.isDigit, Char.le_def]

/-- The runs of digits are those of the grammar. -/
theorem mem_digits_iff : cs ∈ digit * digit∗ ↔ Run cs := by
  simp only [Language.mem_mul, digit, mem_kstar_one_iff, ← isDigit_iff]
  constructor
  · rintro ⟨_, ⟨c, hc, rfl⟩, rest, hrest, rfl⟩
    exact ⟨List.cons_ne_nil _ _, List.forall_mem_cons.mpr ⟨hc, hrest⟩⟩
  · rintro ⟨hne, hall⟩
    obtain ⟨c, rest, rfl⟩ := List.exists_cons_of_ne_nil hne
    obtain ⟨hc, hrest⟩ := List.forall_mem_cons.mp hall
    exact ⟨[c], ⟨c, hc, rfl⟩, rest, hrest, rfl⟩

/-! ## Code units -/

/-- The characters with a value as a hexadecimal digit. -/
private theorem mem_hexDigits_of_digit? {c : Char} {n : Nat} (h : n ∈ Text.Hex.digit? c) :
    c ∈ hexDigits := by
  have hcodes : ∀ code < 103, (Text.Hex.digit? (Char.ofNat code)).isSome = true →
      Char.ofNat code ∈ hexDigits := by decide
  have hsmall : c.toNat < 103 := by
    by_contra hlarge
    have hfar : ∀ d : Char, d.toNat < 103 → ¬c ≤ d :=
      fun d hd hc => hlarge (Nat.lt_of_le_of_lt hc hd)
    simp [Text.Hex.digit?, hfar] at h
  have hc := hcodes c.toNat hsmall
  rw [Char.ofNat_toNat, Option.mem_def.mp h] at hc
  exact hc rfl

/-- A class of hexadecimal digits is known from their values. -/
private theorem mem_iff_digit? {chars : List Char} {p : Nat → Bool}
    (hsub : (chars.all fun c => hexDigits.contains c) = true)
    (h : (hexDigits.all fun c => chars.contains c == (Text.Hex.digit? c).any p) = true) (c : Char) :
    c ∈ chars ↔ ∃ n ∈ Text.Hex.digit? c, p n = true := by
  simp only [List.all_eq_true, List.contains_iff_mem, beq_iff_eq] at hsub h
  have hvalue : c ∈ hexDigits → (c ∈ chars ↔ ∃ n ∈ Text.Hex.digit? c, p n = true) := by
    intro hc
    have heq := h c hc
    rw [← List.contains_iff_mem, heq, Option.any_eq_true]
    rfl
  constructor
  · intro hc
    exact (hvalue (hsub c hc)).mp hc
  · rintro ⟨n, hn, hp⟩
    exact (hvalue (mem_hexDigits_of_digit? hn)).mpr ⟨n, hn, hp⟩

/-- A code unit is given by four hexadecimal digits. -/
private theorem codeUnit_eq_some_iff {code : Nat} :
    Reader.codeUnit cs = some (code, []) ↔ ∃ a b c d x y z w, cs = [a, b, c, d] ∧
      x ∈ Text.Hex.digit? a ∧ y ∈ Text.Hex.digit? b ∧ z ∈ Text.Hex.digit? c ∧
      w ∈ Text.Hex.digit? d ∧ code = 16 * (16 * (16 * x + y) + z) + w := by
  simp only [Option.mem_def]
  constructor
  · intro h
    unfold Reader.codeUnit at h
    split at h
    · rename_i a b c d rest
      simp only [Text.Hex.value?, Option.map_eq_some_iff, Option.bind_eq_some_iff,
        Option.some.injEq, Prod.mk.injEq, Nat.mul_zero, Nat.zero_add] at h
      obtain ⟨_, ⟨x, hx, y, hy, z, hz, w, hw, rfl⟩, rfl, rfl⟩ := h
      exact ⟨a, b, c, d, x, y, z, w, rfl, hx, hy, hz, hw, rfl⟩
    · cases h
  · rintro ⟨a, b, c, d, x, y, z, w, rfl, hx, hy, hz, hw, rfl⟩
    simp only [Reader.codeUnit, Text.Hex.value?, hx, hy, hz, hw, Option.bind_some,
      Option.map_some, Nat.mul_zero, Nat.zero_add]

/-- The first two of four hexadecimal digits. -/
private theorem leading_of_code {x y z w : Nat} (hy : y < 16) (hz : z < 16) (hw : w < 16) :
    (16 * (16 * (16 * x + y) + z) + w) / 4096 = x ∧
      (16 * (16 * (16 * x + y) + z) + w) / 256 % 16 = y := by
  omega

/-- Four hexadecimal digits, the first two of certain classes, are a code unit in certain bounds. -/
private theorem mem_unit_iff {first second : List Char} {p q : Nat → Bool}
    (hfirst : ∀ c, c ∈ first ↔ ∃ n ∈ Text.Hex.digit? c, p n = true)
    (hsecond : ∀ c, c ∈ second ↔ ∃ n ∈ Text.Hex.digit? c, q n = true) :
    cs ∈ one (· ∈ first) * one (· ∈ second) * hexDigit * hexDigit ↔
      ∃ code, Reader.codeUnit cs = some (code, []) ∧ p (code / 4096) = true ∧
        q (code / 256 % 16) = true := by
  have hdigit : ∀ c, c ∈ hexDigits ↔ ∃ n ∈ Text.Hex.digit? c, decide (n < 16) = true :=
    mem_iff_digit? (by decide) (by decide)
  have hlt : ∀ {c : Char} {n : Nat}, n ∈ Text.Hex.digit? c → n < 16 := by
    intro c n hn
    obtain ⟨m, hm, hlt⟩ := (hdigit c).mp (mem_hexDigits_of_digit? hn)
    rw [Option.mem_unique hn hm]
    exact of_decide_eq_true hlt
  constructor
  · rintro ⟨_, ⟨_, ⟨_, ⟨a, ha, rfl⟩, _, ⟨b, hb, rfl⟩, rfl⟩, _, ⟨c, hc, rfl⟩, rfl⟩, _, ⟨d, hd, rfl⟩,
      rfl⟩
    obtain ⟨x, hx, hp⟩ := (hfirst a).mp ha
    obtain ⟨y, hy, hq⟩ := (hsecond b).mp hb
    obtain ⟨z, hz, _⟩ := (hdigit c).mp hc
    obtain ⟨w, hw, _⟩ := (hdigit d).mp hd
    obtain ⟨hthousands, hhundreds⟩ := leading_of_code (x := x) (hlt hy) (hlt hz) (hlt hw)
    refine ⟨_, codeUnit_eq_some_iff.mpr ⟨a, b, c, d, x, y, z, w, rfl, hx, hy, hz, hw, rfl⟩, ?_, ?_⟩
    · rwa [hthousands]
    · rwa [hhundreds]
  · rintro ⟨code, hcode, hp, hq⟩
    obtain ⟨a, b, c, d, x, y, z, w, rfl, hx, hy, hz, hw, rfl⟩ := codeUnit_eq_some_iff.mp hcode
    obtain ⟨hthousands, hhundreds⟩ := leading_of_code (x := x) (hlt hy) (hlt hz) (hlt hw)
    rw [hthousands] at hp
    rw [hhundreds] at hq
    have ha : [a] ∈ one (· ∈ first) := ⟨a, (hfirst a).mpr ⟨x, hx, hp⟩, rfl⟩
    have hb : [b] ∈ one (· ∈ second) := ⟨b, (hsecond b).mpr ⟨y, hy, hq⟩, rfl⟩
    have hc : [c] ∈ hexDigit := ⟨c, mem_hexDigits_of_digit? hz, rfl⟩
    have hd : [d] ∈ hexDigit := ⟨d, mem_hexDigits_of_digit? hw, rfl⟩
    exact Language.append_mem_mul (Language.append_mem_mul (Language.append_mem_mul ha hb) hc) hd

/-- The first halves of surrogate pairs are those of the grammar. -/
private theorem mem_highUnit_iff : cs ∈ highUnit ↔
    ∃ code, Reader.codeUnit cs = some (code, []) ∧ Reader.isHighSurrogate code = true := by
  have hfirst : ∀ c, c ∈ "dD".toList ↔ ∃ n ∈ Text.Hex.digit? c, decide (n = 13) = true :=
    mem_iff_digit? (by decide) (by decide)
  have hsecond : ∀ c, c ∈ "89abAB".toList ↔
      ∃ n ∈ Text.Hex.digit? c, decide (8 ≤ n ∧ n < 12) = true :=
    mem_iff_digit? (by decide) (by decide)
  rw [highUnit, mem_unit_iff hfirst hsecond]
  refine exists_congr fun code => and_congr_right fun _ => ?_
  simp only [Reader.isHighSurrogate, Bool.and_eq_true, decide_eq_true_eq]
  omega

/-- The second halves of surrogate pairs are those of the grammar. -/
private theorem mem_lowUnit_iff : cs ∈ lowUnit ↔
    ∃ code, Reader.codeUnit cs = some (code, []) ∧ Reader.isLowSurrogate code = true := by
  have hfirst : ∀ c, c ∈ "dD".toList ↔ ∃ n ∈ Text.Hex.digit? c, decide (n = 13) = true :=
    mem_iff_digit? (by decide) (by decide)
  have hsecond : ∀ c, c ∈ "cdefCDEF".toList ↔ ∃ n ∈ Text.Hex.digit? c, decide (12 ≤ n) = true :=
    mem_iff_digit? (by decide) (by decide)
  rw [lowUnit, mem_unit_iff hfirst hsecond]
  refine exists_congr fun code => and_congr_right fun _ => ?_
  simp only [Reader.isLowSurrogate, Bool.and_eq_true, decide_eq_true_eq]
  omega

/-- The other code units are those of the grammar. -/
private theorem mem_wholeUnit_iff : cs ∈ wholeUnit ↔
    ∃ code, Reader.codeUnit cs = some (code, []) ∧ Reader.isHighSurrogate code = false ∧
      Reader.isLowSurrogate code = false := by
  have hother : ∀ c, c ∈ "0123456789abcefABCEF".toList ↔
      ∃ n ∈ Text.Hex.digit? c, decide (n ≠ 13) = true :=
    mem_iff_digit? (by decide) (by decide)
  have hany : ∀ c, c ∈ hexDigits ↔ ∃ n ∈ Text.Hex.digit? c, true = true :=
    mem_iff_digit? (by decide) (by decide)
  have hfirst : ∀ c, c ∈ "dD".toList ↔ ∃ n ∈ Text.Hex.digit? c, decide (n = 13) = true :=
    mem_iff_digit? (by decide) (by decide)
  have hsecond : ∀ c, c ∈ "01234567".toList ↔ ∃ n ∈ Text.Hex.digit? c, decide (n < 8) = true :=
    mem_iff_digit? (by decide) (by decide)
  have hunits := @mem_unit_iff cs _ _ _ _ hother hany
  change cs ∈ _ * hexDigit * hexDigit * hexDigit ↔ _ at hunits
  rw [wholeUnit, Language.mem_add, hunits, mem_unit_iff hfirst hsecond, ← exists_or]
  refine exists_congr fun code => ?_
  rw [← and_or_left]
  refine and_congr_right fun _ => ?_
  simp only [Reader.isHighSurrogate, Reader.isLowSurrogate, Bool.and_eq_false_iff,
    decide_eq_false_iff_not, decide_eq_true_eq, and_true]
  omega

/-! ## Texts -/

/-- The characters of texts are those of the grammar. -/
private theorem mem_character_iff : cs ∈ character ↔ ∃ c, Character c cs := by
  constructor
  · intro h
    simp only [character, Language.mem_add, Language.mem_mul] at h
    rcases h with ((⟨c, hc, rfl⟩ | ⟨_, rfl, _, ⟨c, hc, rfl⟩, rfl⟩) | ⟨_, rfl, us, hus, rfl⟩) |
      ⟨_, ⟨_, ⟨_, rfl, hs, hhs, rfl⟩, _, rfl, rfl⟩, ls, hls, rfl⟩
    · refine ⟨c, .plain ?_⟩
      simpa [Reader.isPlain, and_assoc] using hc
    · have hnamed : ∀ c ∈ "\"\\/bfnrt".toList, ∃ d, Reader.namedCharacter? c = some d := by
        simp [Reader.namedCharacter?]
      obtain ⟨d, hd⟩ := hnamed c hc
      exact ⟨d, .named hd⟩
    · obtain ⟨code, hcode, hh, hl⟩ := mem_wholeUnit_iff.mp hus
      exact ⟨_, .numbered hcode hh hl⟩
    · obtain ⟨high, hhigh, hh⟩ := mem_highUnit_iff.mp hhs
      obtain ⟨low, hlow, hl⟩ := mem_lowUnit_iff.mp hls
      refine ⟨Char.ofNat (Reader.pairedCode high low), ?_⟩
      simpa using Character.paired hhigh hh hlow hl
  · rintro ⟨c, h⟩
    simp only [character, Language.mem_add, Language.mem_mul]
    cases h with
    | plain hp =>
      refine .inl (.inl (.inl ⟨c, ?_, rfl⟩))
      simpa [Reader.isPlain, and_assoc] using hp
    | @named letter _ hn =>
      refine .inl (.inl (.inr ⟨_, rfl, _, ⟨letter, ?_, rfl⟩, rfl⟩))
      by_contra hletter
      simp only [String.reduceToList, List.mem_cons, List.not_mem_nil, or_false, not_or] at hletter
      simp [Reader.namedCharacter?, hletter] at hn
    | numbered hu hh hl =>
      exact .inl (.inr ⟨_, rfl, _, mem_wholeUnit_iff.mpr ⟨_, hu, hh, hl⟩, rfl⟩)
    | @paired cs ds high low hc hh hd hl =>
      refine .inr ⟨_, ⟨_, ⟨_, rfl, cs, mem_highUnit_iff.mpr ⟨_, hc, hh⟩, rfl⟩, _, rfl, rfl⟩, ds,
        mem_lowUnit_iff.mpr ⟨_, hd, hl⟩, ?_⟩
      simp

/-- The words of several characters are those of the grammar. -/
private theorem mem_kstar_character_iff : cs ∈ character∗ ↔ ∃ text, Characters text cs := by
  constructor
  · rintro ⟨parts, rfl, hparts⟩
    induction parts with
    | nil => exact ⟨[], .nil⟩
    | cons part rest ih =>
      obtain ⟨hpart, hrest⟩ := List.forall_mem_cons.mp hparts
      obtain ⟨c, hc⟩ := mem_character_iff.mp hpart
      obtain ⟨text, ht⟩ := ih hrest
      exact ⟨c :: text, .cons hc ht⟩
  · rintro ⟨text, h⟩
    induction h with
    | nil => exact Language.nil_mem_kstar _
    | cons hc _ ih =>
      exact append_mem_kstar (mem_character_iff.mpr ⟨_, hc⟩) ih

/-- The texts in quotation marks are those of the grammar. -/
theorem mem_text_iff :
    cs ∈ text ↔ ∃ (t : String) (ds : List Char), Characters t.toList ds ∧
      cs = '"' :: (ds ++ ['"']) := by
  simp only [text, Language.mem_mul, mem_kstar_character_iff]
  constructor
  · rintro ⟨_, ⟨_, rfl, ds, ⟨t, ht⟩, rfl⟩, _, rfl, rfl⟩
    refine ⟨String.ofList t, ds, ?_, rfl⟩
    rwa [String.toList_ofList]
  · rintro ⟨t, ds, ht, rfl⟩
    exact ⟨_, ⟨_, rfl, ds, ⟨_, ht⟩, rfl⟩, _, rfl, rfl⟩

/-! ## Numbers -/

/-- The fractions are those of the grammar. -/
private theorem mem_fraction_iff :
    cs ∈ 1 + word ['.'] * digit * digit∗ ↔ ∃ fraction, Fraction fraction cs := by
  rw [mul_assoc, Language.mem_add, Language.mem_one, Language.mem_mul]
  simp only [mem_digits_iff]
  constructor
  · rintro (rfl | ⟨_, rfl, run, hrun, rfl⟩)
    · exact ⟨none, .absent⟩
    · exact ⟨some run, .present hrun⟩
  · rintro ⟨_, h⟩
    cases h with
    | absent => exact .inl rfl
    | present hr => exact .inr ⟨_, rfl, _, hr, rfl⟩

/-- The exponents are those of the grammar. -/
private theorem mem_exponent_iff :
    cs ∈ 1 + one (· ∈ ['e', 'E']) * (1 + word ['+'] + word ['-']) * digit * digit∗ ↔
      ∃ exponent, Exponent exponent cs := by
  have hmark : ∀ mark : Char, mark ∈ ['e', 'E'] ↔ mark = 'e' ∨ mark = 'E' := by simp
  have hsign : ∀ {ss : List Char},
      ss ∈ 1 + word ['+'] + word ['-'] ↔ ∃ negative, Sign negative ss := by
    intro ss
    simp only [Language.mem_add, Language.mem_one]
    constructor
    · rintro ((rfl | rfl) | rfl)
      · exact ⟨_, .none⟩
      · exact ⟨_, .plus⟩
      · exact ⟨_, .minus⟩
    · rintro ⟨_, ⟨⟩⟩
      · exact .inl (.inl rfl)
      · exact .inl (.inr rfl)
      · exact .inr rfl
  rw [mul_assoc, Language.mem_add, Language.mem_one, Language.mem_mul]
  simp only [mem_digits_iff]
  simp only [Language.mem_mul, hsign]
  constructor
  · rintro (rfl | ⟨_, ⟨_, ⟨mark, hm, rfl⟩, ss, ⟨negative, hs⟩, rfl⟩, run, hrun, rfl⟩)
    · exact ⟨none, .absent⟩
    · exact ⟨_, .present ((hmark mark).mp hm) hs hrun⟩
  · rintro ⟨_, h⟩
    cases h with
    | absent => exact .inl rfl
    | present hm hs hr =>
      exact .inr ⟨_, ⟨_, ⟨_, (hmark _).mpr hm, rfl⟩, _, ⟨_, hs⟩, rfl⟩, _, hr, rfl⟩

/-- The integer parts are the runs of digits in which no zero leads. -/
private theorem mem_whole_iff {run : List Char} :
    run ∈ whole ↔ Run run ∧ (run.length = 1 ∨ run.head? ≠ some '0') := by
  have hleading : ∀ c : Char, ('1' ≤ c ∧ c ≤ '9') ↔ c.isDigit = true ∧ c ≠ '0' := by
    intro c
    have hle : ∀ d : Char, (c ≤ d ↔ c.toNat ≤ d.toNat) ∧ (d ≤ c ↔ d.toNat ≤ c.toNat) :=
      fun d => ⟨Iff.rfl, Iff.rfl⟩
    simp only [isDigit_iff, hle, ne_eq, ← Char.toNat_inj, Char.reduceToNat]
    omega
  simp only [whole, Language.mem_add, Language.mem_mul, leadingDigit, digit, mem_kstar_one_iff,
    ← isDigit_iff]
  constructor
  · rintro (rfl | ⟨_, ⟨c, hc, rfl⟩, rest, hrest, rfl⟩)
    · exact ⟨⟨List.cons_ne_nil _ _, List.forall_mem_singleton.mpr rfl⟩, .inl rfl⟩
    · obtain ⟨hdigit, hne⟩ := (hleading c).mp hc
      refine ⟨⟨List.cons_ne_nil _ _, List.forall_mem_cons.mpr ⟨hdigit, hrest⟩⟩, .inr ?_⟩
      exact mt Option.some.inj hne
  · rintro ⟨⟨hne, hall⟩, hlead⟩
    obtain ⟨c, rest, rfl⟩ := List.exists_cons_of_ne_nil hne
    obtain ⟨hdigit, hrest⟩ := List.forall_mem_cons.mp hall
    by_cases hzero : c = '0'
    · have hnil : rest = [] := by
        rcases hlead with hlength | hhead
        · exact List.length_eq_zero_iff.mp (Nat.succ.inj hlength)
        · exact absurd (congrArg some hzero) hhead
      rw [hzero, hnil]
      exact .inl rfl
    · exact .inr ⟨[c], ⟨c, (hleading c).mpr ⟨hdigit, hzero⟩, rfl⟩, rest, hrest, rfl⟩

/-- The integer parts with their signs are those of the grammar. -/
private theorem mem_signedWhole_iff {limits : Limits} :
    cs ∈ signedWhole limits ↔ ∃ (negative : Bool) (run : List Char), Run run ∧
      Reader.isIntegerPart limits negative run = true ∧
        cs = (if negative then ['-'] else []) ++ run := by
  have hsign : ∀ ss,
      ss ∈ 1 + word ['-'] ↔ ∃ negative : Bool, ss = if negative then ['-'] else [] := by
    intro ss
    rw [Bool.exists_bool]
    exact Iff.rfl
  have hpart : ∀ (negative : Bool) (run : List Char),
      run ∈ whole ∧ ((if negative then ['-'] else []) ++ run).length ≤ limits.digits ↔
        Run run ∧ Reader.isIntegerPart limits negative run = true := by
    intro negative run
    have hlength : ((if negative then ['-'] else []) ++ run).length =
        run.length + if negative then 1 else 0 := by
      cases negative <;> simp
    rw [mem_whole_iff, hlength]
    simp [Reader.isIntegerPart, and_assoc]
  change (cs ∈ (1 + word ['-']) * whole ∧ cs.length ≤ limits.digits) ↔ _
  simp only [Language.mem_mul, hsign]
  constructor
  · rintro ⟨⟨_, ⟨negative, rfl⟩, run, hrun, rfl⟩, hshort⟩
    obtain ⟨hr, hi⟩ := (hpart negative run).mp ⟨hrun, hshort⟩
    exact ⟨negative, run, hr, hi, rfl⟩
  · rintro ⟨negative, run, hr, hi, rfl⟩
    obtain ⟨hrun, hshort⟩ := (hpart negative run).mpr ⟨hr, hi⟩
    exact ⟨⟨_, ⟨negative, rfl⟩, run, hrun, rfl⟩, hshort⟩

/-- The numbers are those of the grammar. -/
theorem mem_number_iff {limits : Limits} :
    cs ∈ number limits ↔ ∃ (negative : Bool) (run fs es : List Char)
      (fraction : Option (List Char)) (exponent : Option Int), Run run ∧
        Reader.isIntegerPart limits negative run = true ∧ Fraction fraction fs ∧
        Exponent exponent es ∧ cs = (if negative then ['-'] else []) ++ (run ++ (fs ++ es)) := by
  simp only [number, mem_fraction_iff, mem_exponent_iff, Language.mem_mul, mem_signedWhole_iff]
  constructor
  · rintro ⟨_, ⟨_, ⟨negative, run, hr, hi, rfl⟩, fs, ⟨fraction, hf⟩, rfl⟩, es, ⟨exponent, he⟩, rfl⟩
    exact ⟨negative, run, fs, es, fraction, exponent, hr, hi, hf, he, by simp⟩
  · rintro ⟨negative, run, fs, es, fraction, exponent, hr, hi, hf, he, rfl⟩
    exact ⟨_, ⟨_, ⟨negative, run, hr, hi, rfl⟩, fs, ⟨fraction, hf⟩, rfl⟩, es, ⟨exponent, he⟩,
      by simp⟩

end AccessPolicy.Json.Strict
