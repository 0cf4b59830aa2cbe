import AccessPolicy.Proofs.Json.Grammar
import Mathlib.Data.List.TakeWhile

/-!
# Everything spelled is read

The reader reads every spelling of a document as this document and stops right behind it. Each
scanner is met by a spelling of its own: a text ends at its closing mark, and a number ends where
no character follows that could continue it. The fuel of the reader is never the reason for a
failure, since every call uses up at least half as many characters as units of fuel.
-/

namespace AccessPolicy.Json.Grammar

open Reader

/-! ## Texts -/

/-- A spelled character is read, whatever follows it. -/
theorem Character.read {c : Char} {cs : List Char} (h : Character c cs) (rest : List Char) :
    character (cs ++ rest) = some (c, rest) := by
  have hunit : ∀ {cs : List Char} {code : Nat}, codeUnit cs = some (code, []) →
      ∀ rest, codeUnit (cs ++ rest) = some (code, rest) := by
    intro cs code hc rest
    match cs, hc with
    | [a, b, c, d], hc =>
      simp only [codeUnit, Option.map_eq_some_iff, Prod.mk.injEq, and_true] at hc
      obtain ⟨_, hv, rfl⟩ := hc
      simp only [List.cons_append, List.nil_append, codeUnit, hv, Option.map_some]
    | a :: b :: c :: d :: e :: ds, hc =>
      simp only [codeUnit, Option.map_eq_some_iff, Prod.mk.injEq, reduceCtorEq, and_false,
        exists_false] at hc
  cases h with
  | plain hp =>
    have hb : c ≠ '\\' := by
      rintro rfl
      exact absurd hp (by decide)
    simp only [List.cons_append, List.nil_append, character, hb, if_false, hp, if_true]
  | @named letter _ hn =>
    have hu : letter ≠ 'u' := by
      rintro rfl
      have hnone : namedCharacter? 'u' = none := by decide
      rw [hnone] at hn
      cases hn
    simp only [List.cons_append, List.nil_append, character, if_true, escaped, hu, if_false, hn,
      Option.map_some]
  | numbered hu hh hl =>
    simp only [List.cons_append, character, if_true, escaped, numberedCharacter, hunit hu,
      Option.bind_some, hh, hl, Bool.false_eq_true, if_false]
  | @paired cs ds high low hc hh hd hl =>
    have hlow : lowSurrogate ('\\' :: 'u' :: (ds ++ rest)) = some (low, rest) := by
      simp only [lowSurrogate, hunit hd, Option.filter_some, hl, if_true]
    simp only [List.cons_append, List.append_assoc, character, if_true, escaped, numberedCharacter,
      hunit hc, Option.bind_some, hh, hlow, Option.map_some]

/-- A spelled character does not start with the mark that closes a text. -/
theorem Character.head_ne {c : Char} {cs : List Char} (h : Character c cs) :
    ∃ d ds, cs = d :: ds ∧ d ≠ '"' := by
  cases h with
  | plain hp =>
    refine ⟨c, [], rfl, ?_⟩
    rintro rfl
    exact absurd hp (by decide)
  | named hn => exact ⟨'\\', _, rfl, by decide⟩
  | numbered hu hh hl => exact ⟨'\\', _, rfl, by decide⟩
  | paired hc hh hd hl => exact ⟨'\\', _, rfl, by decide⟩

/-- Spelled characters are read up to the closing mark. -/
theorem Characters.read {text cs : List Char} (h : Characters text cs) {fuel : Nat}
    (hf : text.length < fuel) (rest : List Char) :
    characters fuel (cs ++ '"' :: rest) = some (text, rest) := by
  induction h generalizing fuel with
  | nil =>
    obtain ⟨fuel, rfl⟩ := Nat.exists_eq_succ_of_ne_zero (Nat.ne_of_gt hf)
    rfl
  | @cons c text cs ds hc _ ih =>
    obtain ⟨fuel, rfl⟩ := Nat.exists_eq_succ_of_ne_zero (Nat.ne_of_gt (Nat.zero_lt_of_lt hf))
    obtain ⟨d, es, rfl, hd⟩ := hc.head_ne
    have hread := hc.read (ds ++ '"' :: rest)
    have htail := ih (by simpa using hf : text.length < fuel)
    simp only [List.append_assoc, List.cons_append] at hread ⊢
    rw [characters]
    · simp only [hread, Option.bind_some, htail, Option.map_some]
    · intro _ he
      exact hd (List.cons.inj he).1

/-- A text is no longer than its spelling. -/
theorem Characters.length_le {text cs : List Char} (h : Characters text cs) :
    text.length ≤ cs.length := by
  induction h with
  | nil => exact Nat.le_refl 0
  | @cons c text cs ds hc _ ih =>
    obtain ⟨d, es, rfl, _⟩ := hc.head_ne
    simp only [List.length_cons, List.length_append]
    omega

/-! ## Numbers -/

/-- Whether a number may end in front of these characters. -/
def EndsNumber (rest : List Char) : Prop :=
  ∀ c ∈ rest.head?, c.isDigit = false ∧ c ≠ '.' ∧ c ≠ 'e' ∧ c ≠ 'E'

instance : (rest : List Char) → Decidable (EndsNumber rest)
  | [] => isTrue fun _ hc => nomatch hc
  | c :: _ => decidable_of_iff (c.isDigit = false ∧ c ≠ '.' ∧ c ≠ 'e' ∧ c ≠ 'E')
    ⟨fun h _ hd => Option.some.inj hd ▸ h, fun h => h c rfl⟩

/-- A digit is different from every character that is none. -/
private theorem ne_of_isDigit {c d : Char} (hc : c.isDigit = true) (hd : d.isDigit = false) :
    c ≠ d := by
  rintro rfl
  rw [hc] at hd
  cases hd

/-- A run of digits is read up to a character that is none. -/
theorem Run.read {run : List Char} (hr : Run run) {rest : List Char}
    (hn : ∀ c ∈ rest.head?, c.isDigit = false) : digits (run ++ rest) = some (run, rest) := by
  have hstop : rest.takeWhile Char.isDigit = [] ∧ rest.dropWhile Char.isDigit = rest := by
    cases rest with
    | nil => exact ⟨rfl, rfl⟩
    | cons c rest =>
      have hc : ¬c.isDigit = true := by
        rw [hn c rfl]
        exact Bool.false_ne_true
      exact ⟨List.takeWhile_cons_of_neg hc, List.dropWhile_cons_of_neg hc⟩
  have hempty : run.isEmpty = false := List.isEmpty_eq_false_iff.mpr hr.1
  simp only [digits, List.takeWhile_append_of_pos hr.2, List.dropWhile_append_of_pos hr.2, hstop,
    List.append_nil, hempty, Bool.false_eq_true, if_false]

/-- A run of digits starts with a digit. -/
theorem Run.head {run : List Char} (hr : Run run) :
    ∃ c cs, run = c :: cs ∧ c.isDigit = true := by
  obtain ⟨hne, hd⟩ := hr
  obtain ⟨c, cs, rfl⟩ := List.exists_cons_of_ne_nil hne
  exact ⟨c, cs, rfl, hd c List.mem_cons_self⟩

/-- The part of a number behind its point is read up to a character that is no digit. -/
theorem Fraction.read {fraction : Option (List Char)} {cs : List Char} (h : Fraction fraction cs)
    {rest : List Char} (hn : ∀ c ∈ rest.head?, c.isDigit = false ∧ c ≠ '.') :
    Reader.fraction (cs ++ rest) = some (fraction, rest) := by
  cases h with
  | absent =>
    rw [List.nil_append, Reader.fraction]
    rintro rest' rfl
    exact (hn '.' rfl).2 rfl
  | present hr =>
    rw [List.cons_append, Reader.fraction, hr.read fun c hc => (hn c hc).1]
    rfl

/-- A sign is read in front of a digit. -/
theorem Sign.read {negative : Bool} {cs : List Char} (h : Sign negative cs) {rest : List Char}
    (hd : ∃ c ds, rest = c :: ds ∧ c.isDigit = true) : sign (cs ++ rest) = (negative, rest) := by
  obtain ⟨c, ds, rfl, hc⟩ := hd
  cases h with
  | none =>
    rw [List.nil_append, sign]
    · intro _ he
      exact ne_of_isDigit hc (by decide) (List.cons.inj he).1
    · intro _ he
      exact ne_of_isDigit hc (by decide) (List.cons.inj he).1
  | plus => rfl
  | minus => rfl

/-- The exponent of a number is read up to where the number may end. -/
theorem Exponent.read {exponent : Option Int} {cs : List Char} (h : Exponent exponent cs)
    {rest : List Char} (hn : EndsNumber rest) :
    Reader.exponent (cs ++ rest) = some (exponent, rest) := by
  cases h with
  | absent =>
    rw [List.nil_append]
    cases rest with
    | nil => rfl
    | cons c rest =>
      obtain ⟨_, _, he, hE⟩ := hn c rfl
      simp only [Reader.exponent, he, hE, or_self, if_false]
  | @present mark negative cs run hm hs hr =>
    obtain ⟨c, ds, hrun, hc⟩ := hr.head
    have hsign : sign (cs ++ run ++ rest) = (negative, run ++ rest) := by
      rw [List.append_assoc]
      exact hs.read ⟨c, ds ++ rest, by rw [hrun, List.cons_append], hc⟩
    simp only [List.cons_append, Reader.exponent, hm, if_true, hsign,
      hr.read fun c hc => (hn c hc).1, Option.map_some]

/-- Where a number may end, no exponent or what follows it continues a fraction. -/
private theorem Exponent.follow {exponent : Option Int} {es : List Char}
    (h : Exponent exponent es) {rest : List Char} (hn : EndsNumber rest) :
    ∀ c ∈ (es ++ rest).head?, c.isDigit = false ∧ c ≠ '.' := by
  cases h with
  | absent =>
    intro c hc
    obtain ⟨hd, hp, _⟩ := hn c hc
    exact ⟨hd, hp⟩
  | present hm hs hr =>
    rintro c hc
    cases hc
    rcases hm with rfl | rfl <;> decide

/-- What stands behind the integer part of a number does not continue it. -/
private theorem Fraction.follow {fraction : Option (List Char)} {fs : List Char}
    (h : Fraction fraction fs) {rest : List Char}
    (hn : ∀ c ∈ rest.head?, c.isDigit = false ∧ c ≠ '.') :
    ∀ c ∈ (fs ++ rest).head?, c.isDigit = false := by
  cases h with
  | absent => exact fun c hc => (hn c hc).1
  | present hr =>
    intro c hc
    cases hc
    decide

/-- A number without its sign is read up to where it may end. -/
private theorem unsignedNumber_eq {limits : Limits} {negative : Bool} {whole fs es : List Char}
    {fraction : Option (List Char)} {exponent : Option Int} (hw : Run whole)
    (hi : isIntegerPart limits negative whole = true) (hf : Fraction fraction fs)
    (he : Exponent exponent es) {rest : List Char} (hn : EndsNumber rest) :
    unsignedNumber limits negative (whole ++ (fs ++ (es ++ rest))) =
      some (numberOf negative whole fraction exponent, rest) := by
  have hfollow := he.follow hn
  simp only [unsignedNumber, hw.read (hf.follow hfollow), Option.bind_some, hi, if_true,
    hf.read hfollow, he.read hn, Option.map_some]

/-- Digits, with a minus sign in front of them or without, are the start of a number. -/
theorem number_eq_unsignedNumber {limits : Limits} {negative : Bool} {whole : List Char}
    (hw : Run whole) (rest : List Char) :
    number limits ((if negative then ['-'] else []) ++ (whole ++ rest)) =
      unsignedNumber limits negative (whole ++ rest) := by
  obtain ⟨c, ds, rfl, hc⟩ := hw.head
  have hne : ∀ d : Char, d.isDigit = false → ∀ cs, c :: (ds ++ rest) = d :: cs → False := by
    intro d hd cs h
    exact ne_of_isDigit hc hd (List.cons.inj h).1
  rw [List.cons_append]
  cases negative with
  | true =>
    rw [if_pos rfl, List.singleton_append, number]
    exact fun cs => hne 'I' (by decide) _
  | false =>
    rw [if_neg Bool.false_ne_true, List.nil_append, number]
    · exact fun cs => hne 'N' (by decide) _
    · exact fun cs => hne 'I' (by decide) _
    · exact fun cs => hne '-' (by decide) _
    · exact fun cs => hne '-' (by decide) _

/-- A number is read up to where it may end. -/
theorem Number.read {limits : Limits} {value : Value} {cs : List Char}
    (h : Number limits value cs) {rest : List Char} (hn : EndsNumber rest) :
    number limits (cs ++ rest) = some (value, rest) := by
  cases h with
  | notANumber => rfl
  | infinity => rfl
  | negativeInfinity => rfl
  | numeral hw hi hf he =>
    simp only [List.append_assoc, number_eq_unsignedNumber hw, unsignedNumber_eq hw hi hf he hn]

/-! ## Documents -/

/-- Blanks in front of a token are skipped. -/
theorem Blanks.skip {blanks : List Char} (hb : Blanks blanks) {c : Char} (hc : isBlank c = false)
    (rest : List Char) : skipBlanks (blanks ++ c :: rest) = c :: rest := by
  rw [skipBlanks, List.dropWhile_append_of_pos hb,
    List.dropWhile_cons_of_neg (by rw [hc]; exact Bool.false_ne_true)]

/-- How a part starts: with a character that is neither blank nor closes anything. -/
def Starts (cs : List Char) : Prop :=
  ∃ c ds, cs = c :: ds ∧ isBlank c = false ∧ c ≠ ']' ∧ c ≠ '}'

/-- Blanks in front of a part are skipped. -/
theorem Blanks.skip_starts {blanks cs : List Char} (hb : Blanks blanks) (hs : Starts cs)
    (rest : List Char) : skipBlanks (blanks ++ (cs ++ rest)) = cs ++ rest := by
  obtain ⟨c, ds, rfl, hc, _⟩ := hs
  exact hb.skip hc (ds ++ rest)

/-- Nothing is skipped where a part starts. -/
theorem Starts.skip {cs : List Char} (hs : Starts cs) (rest : List Char) :
    skipBlanks (cs ++ rest) = cs ++ rest :=
  Blanks.skip_starts (List.forall_mem_nil _) hs rest

/-- The name of a member is read with its colon, up to where a part starts. -/
theorem Name.read {name : String} {ns cs : List Char} (h : Name name ns) {fuel : Nat}
    (hf : ns.length ≤ fuel) (hs : Starts cs) (rest : List Char) :
    memberName fuel (ns ++ (cs ++ rest)) = some (name, cs ++ rest) := by
  cases h with
  | @intro spelled before after hn hb ha =>
    have hlength := hn.length_le
    have hfuel : name.toList.length < fuel := by
      simp only [List.length_cons, List.length_append] at hf
      omega
    have hread := hn.read hfuel (before ++ ':' :: (after ++ (cs ++ rest)))
    have hcolon := hb.skip (by decide : isBlank ':' = false) (after ++ (cs ++ rest))
    simp only [List.cons_append, List.append_assoc, memberName, text, hread, Option.map_some,
      Option.bind_some, hcolon, ha.skip_starts hs, String.ofList_toList]

/-- A number starts with a digit, a minus sign or the first letter of a word. -/
theorem Number.head {limits : Limits} {value : Value} {cs : List Char}
    (h : Number limits value cs) :
    ∃ c ds, cs = c :: ds ∧ (c.isDigit = true ∨ c = '-' ∨ c = 'N' ∨ c = 'I') := by
  cases h with
  | notANumber => exact ⟨'N', _, rfl, by decide⟩
  | infinity => exact ⟨'I', _, rfl, by decide⟩
  | negativeInfinity => exact ⟨'-', _, rfl, by decide⟩
  | @numeral negative whole fs es fraction exponent hw hi hf he =>
    obtain ⟨c, ds, rfl, hc⟩ := hw.head
    cases negative with
    | true => exact ⟨'-', _, rfl, by decide⟩
    | false => exact ⟨c, _, rfl, Or.inl hc⟩

/-- Every part starts with a character that is neither blank nor closes anything. -/
theorem Spells.starts {limits : Limits} {depth : Nat} {part : Part} {cs : List Char}
    (h : Spells limits depth part cs) : Starts cs := by
  have happend : ∀ {cs ds : List Char}, Starts cs → Starts (cs ++ ds) := by
    rintro _ ds ⟨c, cs, rfl, hc⟩
    exact ⟨c, cs ++ ds, rfl, hc⟩
  induction h with
  | nullWord => exact ⟨'n', _, rfl, by decide⟩
  | trueWord => exact ⟨'t', _, rfl, by decide⟩
  | falseWord => exact ⟨'f', _, rfl, by decide⟩
  | number hn =>
    obtain ⟨c, ds, rfl, hc⟩ := hn.head
    refine ⟨c, ds, rfl, ?_⟩
    rcases hc with hc | rfl | rfl | rfl
    · have hne : ∀ d : Char, d.isDigit = false → c ≠ d := fun d => ne_of_isDigit hc
      simp only [isBlank, hne ' ' (by decide), hne '\t' (by decide), hne '\n' (by decide),
        hne '\r' (by decide), decide_false, Bool.or_self, ne_eq, hne ']' (by decide),
        hne '}' (by decide), not_false_eq_true, and_self]
    · decide
    · decide
    · decide
  | text hc => exact ⟨'"', _, rfl, by decide⟩
  | emptyArray hb => exact ⟨'[', _, rfl, by decide⟩
  | array hb hi ih => exact ⟨'[', _, rfl, by decide⟩
  | emptyObject hb => exact ⟨'{', _, rfl, by decide⟩
  | object hb hm ih => exact ⟨'{', _, rfl, by decide⟩
  | lastItem hv hb ih => exact happend ih
  | item hv hb ha hr ihv ihr => exact happend ihv
  | lastMember hn hv hb ih =>
    cases hn
    exact ⟨'"', _, rfl, by decide⟩
  | member hn hv hb ha hr ihv ihr =>
    cases hn
    exact ⟨'"', _, rfl, by decide⟩

section Dispatch

variable {limits : Limits} {fuel depth : Nat} {c : Char} {blanks cs ds rest : List Char}

/-- What starts like a number is read as a number. -/
theorem value_eq_number {text : List Char}
    (hc : c.isDigit = true ∨ c = '-' ∨ c = 'N' ∨ c = 'I') (h : text = c :: cs) :
    value limits (fuel + 1) depth text = number limits text := by
  subst h
  have hne : ∀ d : Char, d.isDigit = false ∧ d ≠ '-' ∧ d ≠ 'N' ∧ d ≠ 'I' →
      ∀ ds, c :: cs = d :: ds → False := by
    intro d ⟨hd, hm, hN, hI⟩ ds he
    obtain ⟨rfl, _⟩ := List.cons.inj he
    rcases hc with hc | rfl | rfl | rfl
    · exact ne_of_isDigit hc hd rfl
    · exact hm rfl
    · exact hN rfl
    · exact hI rfl
  rw [value, scalar]
  · exact hne '"' (by decide)
  · exact fun ds => hne 'n' (by decide) _
  · exact fun ds => hne 't' (by decide) _
  · exact fun ds => hne 'f' (by decide) _
  · exact hne '[' (by decide)
  · exact hne '{' (by decide)

/-- An array that holds something is read item by item, if it may be there. -/
theorem value_array (hb : Blanks blanks) (hs : Starts ds) :
    value limits (fuel + 1) depth ('[' :: (blanks ++ (ds ++ rest))) =
      if 0 < depth then
        (items limits fuel (depth - 1) (ds ++ rest)).map fun (items, rest) => (.array items, rest)
      else none := by
  have hskip := hb.skip_starts hs rest
  obtain ⟨d, es, rfl, _, hd, _⟩ := hs
  rw [List.cons_append] at hskip ⊢
  simp only [value, hskip]
  split
  · rename_i he
    exact absurd (List.cons.inj he).1 hd
  · rfl
  · rfl

/-- An object that holds something is read member by member, if it may be there. -/
theorem value_object (hb : Blanks blanks) (hs : Starts ds) :
    value limits (fuel + 1) depth ('{' :: (blanks ++ (ds ++ rest))) =
      if 0 < depth then
        (members limits fuel (depth - 1) (ds ++ rest)).map fun (members, rest) =>
          (.object members, rest)
      else none := by
  have hskip := hb.skip_starts hs rest
  obtain ⟨d, es, rfl, _, _, hd⟩ := hs
  rw [List.cons_append] at hskip ⊢
  simp only [value, hskip]
  split
  · rename_i he
    exact absurd (List.cons.inj he).1 hd
  · rfl
  · rfl

end Dispatch

/-- A number that may end somewhere may also end in front of blanks there. -/
theorem Blanks.endsNumber {blanks : List Char} (hb : Blanks blanks) {rest : List Char}
    (hr : EndsNumber rest) : EndsNumber (blanks ++ rest) := by
  intro d hd
  cases blanks with
  | nil => exact hr d hd
  | cons b bs =>
    cases hd
    have hblank := hb d List.mem_cons_self
    simp only [isBlank, Bool.or_eq_true, decide_eq_true_eq] at hblank
    rcases hblank with ((rfl | rfl) | rfl) | rfl <;> decide

/-- How the reader takes a part in front of any characters, with two units of fuel for each of its
own. -/
def Part.IsRead (limits : Limits) (depth : Nat) (cs : List Char) : Part → Prop
  | .value v => ∀ (fuel : Nat) (rest : List Char), 2 * cs.length + 1 ≤ fuel → EndsNumber rest →
      Reader.value limits fuel depth (cs ++ rest) = some (v, rest)
  | .items vs => ∀ (fuel : Nat) (rest : List Char), 2 * cs.length ≤ fuel →
      Reader.items limits fuel depth (cs ++ rest) = some (vs, rest)
  | .members ms => ∀ (fuel : Nat) (rest : List Char), 2 * cs.length ≤ fuel →
      Reader.members limits fuel depth (cs ++ rest) = some (ms, rest)

section Steps

variable {limits : Limits} {depth : Nat} {ns cs ds before after : List Char} {v : Value}

/-- The last item of an array is read with the closing bracket. -/
private theorem isRead_lastItem (hv : Part.IsRead limits depth cs (.value v))
    (hb : Blanks before) : Part.IsRead limits depth (cs ++ (before ++ [']'])) (.items [v]) := by
  intro fuel rest hf
  simp only [List.length_append, List.length_singleton] at hf
  obtain ⟨fuel, rfl⟩ := Nat.exists_eq_succ_of_ne_zero (by omega : fuel ≠ 0)
  have hclose : EndsNumber (']' :: rest) := (by decide : EndsNumber [']'])
  have hread := hv fuel _ (by omega) (hb.endsNumber hclose)
  have hskip := hb.skip (by decide : isBlank ']' = false) rest
  simp only [List.append_assoc, List.singleton_append, items, hread, Option.bind_some, hskip]

/-- An item of an array is read with the comma and the items behind it. -/
private theorem isRead_item {vs : List Value} (hv : Part.IsRead limits depth cs (.value v))
    (hb : Blanks before) (ha : Blanks after) (hs : Starts ds)
    (hr : Part.IsRead limits depth ds (.items vs)) :
    Part.IsRead limits depth (cs ++ (before ++ ',' :: (after ++ ds))) (.items (v :: vs)) := by
  intro fuel rest hf
  simp only [List.length_append, List.length_cons] at hf
  obtain ⟨fuel, rfl⟩ := Nat.exists_eq_succ_of_ne_zero (by omega : fuel ≠ 0)
  have hcomma : EndsNumber (',' :: (after ++ (ds ++ rest))) := (by decide : EndsNumber [','])
  have hread := hv fuel _ (by omega) (hb.endsNumber hcomma)
  have hskip := hb.skip (by decide : isBlank ',' = false) (after ++ (ds ++ rest))
  have hothers := hr fuel rest (by omega)
  simp only [List.append_assoc, List.cons_append, items, hread, Option.bind_some, hskip,
    ha.skip_starts hs, hothers, Option.map_some]

/-- The last member of an object is read with the closing brace. -/
private theorem isRead_lastMember {name : String} (hn : Name name ns) (hs : Starts cs)
    (hv : Part.IsRead limits depth cs (.value v)) (hb : Blanks before) :
    Part.IsRead limits depth (ns ++ (cs ++ (before ++ ['}']))) (.members [(name, v)]) := by
  intro fuel rest hf
  simp only [List.length_append, List.length_singleton] at hf
  obtain ⟨fuel, rfl⟩ := Nat.exists_eq_succ_of_ne_zero (by omega : fuel ≠ 0)
  have hname := hn.read (by omega : ns.length ≤ fuel) hs (before ++ '}' :: rest)
  have hclose : EndsNumber ('}' :: rest) := (by decide : EndsNumber ['}'])
  have hread := hv fuel _ (by omega) (hb.endsNumber hclose)
  have hskip := hb.skip (by decide : isBlank '}' = false) rest
  simp only [List.append_assoc, List.singleton_append, members, hname, Option.bind_some, hread,
    hskip]

/-- A member of an object is read with the comma and the members behind it. -/
private theorem isRead_member {name : String} {ms : List (String × Value)} (hn : Name name ns)
    (hs : Starts cs) (hv : Part.IsRead limits depth cs (.value v)) (hb : Blanks before)
    (ha : Blanks after) (ht : Starts ds) (hr : Part.IsRead limits depth ds (.members ms)) :
    Part.IsRead limits depth (ns ++ (cs ++ (before ++ ',' :: (after ++ ds))))
      (.members ((name, v) :: ms)) := by
  intro fuel rest hf
  simp only [List.length_append, List.length_cons] at hf
  obtain ⟨fuel, rfl⟩ := Nat.exists_eq_succ_of_ne_zero (by omega : fuel ≠ 0)
  have hname := hn.read (by omega : ns.length ≤ fuel) hs
    (before ++ ',' :: (after ++ (ds ++ rest)))
  have hcomma : EndsNumber (',' :: (after ++ (ds ++ rest))) := (by decide : EndsNumber [','])
  have hread := hv fuel _ (by omega) (hb.endsNumber hcomma)
  have hskip := hb.skip (by decide : isBlank ',' = false) (after ++ (ds ++ rest))
  have hothers := hr fuel rest (by omega)
  simp only [List.append_assoc, List.cons_append, members, hname, Option.bind_some, hread, hskip,
    ha.skip_starts ht, hothers, Option.map_some]

end Steps

/-- Every spelled part is read. -/
theorem Spells.isRead {limits : Limits} {depth : Nat} {part : Part} {cs : List Char}
    (h : Spells limits depth part cs) : part.IsRead limits depth cs := by
  -- Only a value that is no part of another one needs the odd unit of fuel.
  have hfuel : ∀ {n fuel : Nat}, n + 1 ≤ fuel → ∃ left, fuel = left + 1 ∧ n ≤ left := by
    intro n fuel hf
    exact ⟨fuel - 1, by omega, by omega⟩
  induction h with
  | nullWord =>
    intro fuel rest hf _
    obtain ⟨fuel, rfl, _⟩ := hfuel hf
    rfl
  | trueWord =>
    intro fuel rest hf _
    obtain ⟨fuel, rfl, _⟩ := hfuel hf
    rfl
  | falseWord =>
    intro fuel rest hf _
    obtain ⟨fuel, rfl, _⟩ := hfuel hf
    rfl
  | @number depth v cs hn =>
    intro fuel rest hf hrest
    obtain ⟨fuel, rfl, _⟩ := hfuel hf
    obtain ⟨c, ds, hcs, hc⟩ := hn.head
    rw [value_eq_number hc (by rw [hcs, List.cons_append] : cs ++ rest = c :: (ds ++ rest))]
    exact hn.read hrest
  | @text depth t cs hc =>
    intro fuel rest hf _
    obtain ⟨fuel, rfl, hleft⟩ := hfuel hf
    have hlength := hc.length_le
    simp only [List.length_cons, List.length_append] at hleft
    have hread := hc.read (by omega : t.toList.length < fuel) rest
    have hvalue : ∀ cs, value limits (fuel + 1) depth ('"' :: cs) =
        (Reader.text fuel cs).map fun read => (.text read.1, read.2) := fun _ => rfl
    simp only [List.cons_append, List.append_assoc, List.nil_append, hvalue, Reader.text, hread,
      Option.map_some, String.ofList_toList]
  | emptyArray hb =>
    intro fuel rest hf _
    obtain ⟨fuel, rfl, _⟩ := hfuel hf
    have hskip := hb.skip (by decide : isBlank ']' = false) rest
    simp only [List.cons_append, List.append_assoc, List.nil_append, value, hskip]
  | @array depth blanks cs vs hb hi ih =>
    intro fuel rest hf _
    obtain ⟨fuel, rfl, hleft⟩ := hfuel hf
    simp only [List.length_cons, List.length_append] at hleft
    have hread := ih fuel rest (by omega)
    rw [List.cons_append, List.append_assoc, value_array hb hi.starts, if_pos (Nat.succ_pos depth),
      Nat.add_sub_cancel, hread, Option.map_some]
  | emptyObject hb =>
    intro fuel rest hf _
    obtain ⟨fuel, rfl, _⟩ := hfuel hf
    have hskip := hb.skip (by decide : isBlank '}' = false) rest
    simp only [List.cons_append, List.append_assoc, List.nil_append, value, hskip]
  | @object depth blanks cs ms hb hm ih =>
    intro fuel rest hf _
    obtain ⟨fuel, rfl, hleft⟩ := hfuel hf
    simp only [List.length_cons, List.length_append] at hleft
    have hread := ih fuel rest (by omega)
    rw [List.cons_append, List.append_assoc, value_object hb hm.starts, if_pos (Nat.succ_pos depth),
      Nat.add_sub_cancel, hread, Option.map_some]
  | lastItem hv hb ih => exact isRead_lastItem ih hb
  | item hv hb ha hr ihv ihr => exact isRead_item ihv hb ha hr.starts ihr
  | lastMember hn hv hb ih => exact isRead_lastMember hn hv.starts ih hb
  | member hn hv hb ha hr ihv ihr => exact isRead_member hn hv.starts ihv hb ha hr.starts ihr

/-- Every spelling of a document is read as this document, with blanks around it or without. -/
theorem Spells.ofChars? {limits : Limits} {v : Value} {cs before after : List Char}
    (h : Spells limits limits.depth (.value v) cs) (hb : Blanks before) (ha : Blanks after) :
    Value.ofChars? limits (before ++ (cs ++ after)) = some v := by
  have hstop : EndsNumber (after ++ []) := ha.endsNumber (by decide)
  rw [List.append_nil] at hstop
  have hread := h.isRead (2 * (before ++ (cs ++ after)).length + 1) after
    (by simp only [List.length_append]; omega) hstop
  have hskip : skipBlanks after = [] := List.dropWhile_eq_nil_iff.mpr ha
  simp only [Value.ofChars?, hb.skip_starts h.starts, hread, Option.bind_some, hskip,
    List.isEmpty_nil, if_true]

end AccessPolicy.Json.Grammar
