import AccessPolicy.Json.Writer
import AccessPolicy.Proofs.Json.Completeness
import AccessPolicy.Proofs.Text.Hex

/-!
# Everything written is spelled

What the writer writes for a document is a spelling of it, except that octets come back as the
text they were written as. The writer knows no limits, so a document can be too deep or hold too
long a number for the reader; nothing else is in the way of reading it back.
-/

namespace AccessPolicy.Json

open Reader Grammar

/-! ## Texts -/

/-- Every character is spelled when it is written in a text. -/
theorem Grammar.Character.escape (c : Char) : Character c (Writer.escape c) := by
  -- The cases are those of the writer: five named characters stand between the marks and the
  -- characters that are numbered, and everything else is plain.
  unfold Writer.escape
  split
  · rename_i h
    exact .named (if_pos (h.imp_right Or.inl))
  split
  · subst c
    exact .named rfl
  split
  · subst c
    exact .named rfl
  split
  · subst c
    exact .named rfl
  split
  · subst c
    exact .named rfl
  split
  · subst c
    exact .named rfl
  split
  · rename_i hlow
    have hunit : codeUnit (Text.Hex.fixed 4 c.toNat) = some (c.toNat, []) := by
      have hvalue := Text.Hex.value?_fixed 0 4 c.toNat
      rw [Nat.zero_mul, Nat.zero_add, Nat.mod_eq_of_lt (by omega)] at hvalue
      have hlength := Text.Hex.length_fixed 4 c.toNat
      match hf : Text.Hex.fixed 4 c.toNat, hlength with
      | [_, _, _, _], _ => rw [codeUnit, ← hf, hvalue, Option.map_some]
    have hh : isHighSurrogate c.toNat = false := by
      simp only [isHighSurrogate, Bool.and_eq_false_iff, decide_eq_false_iff_not]
      omega
    have hl : isLowSurrogate c.toNat = false := by
      simp only [isLowSurrogate, Bool.and_eq_false_iff, decide_eq_false_iff_not]
      omega
    have hc := Character.numbered hunit hh hl
    rwa [Char.ofNat_toNat] at hc
  · rename_i hquote _ _ _ _ _ hlow
    have hmarks := not_or.mp hquote
    refine .plain ?_
    simp only [isPlain, Bool.and_eq_true, decide_eq_true_eq, ne_eq]
    exact ⟨⟨Nat.not_lt.mp hlow, hmarks.1⟩, hmarks.2⟩

/-- The characters of a text are spelled when they are written. -/
theorem Grammar.Characters.escape (cs : List Char) : Characters cs (cs.flatMap Writer.escape) := by
  induction cs with
  | nil => exact .nil
  | cons c cs ih =>
    rw [List.flatMap_cons]
    exact .cons (.escape c) ih

/-! ## Numbers -/

/-- A written natural number is a run of digits. -/
theorem Grammar.Run.toDigits (n : Nat) : Run (Nat.toDigits 10 n) :=
  ⟨Nat.toDigits_ne_nil, fun _ hc => Nat.isDigit_of_mem_toDigits (by decide) (by decide) hc⟩

/-- No zero leads in a written number but zero. -/
theorem head?_toDigits {n : Nat} (hn : 0 < n) : (Nat.toDigits 10 n).head? ≠ some '0' := by
  induction n using Nat.strongRecOn with
  | _ n ih =>
    by_cases hlt : n < 10
    · have hdigit : ∀ d < 10, 0 < d → [Nat.digitChar d].head? ≠ some '0' := by decide
      rw [Nat.toDigits_of_lt_base hlt]
      exact hdigit n hlt hn
    · have hhead := ih (n / 10) (by omega) (by omega)
      have hne : Nat.toDigits 10 (n / 10) ≠ [] := Nat.toDigits_ne_nil
      obtain ⟨c, cs, hcs⟩ := List.exists_cons_of_ne_nil hne
      -- The first digit is that of the number without its last digit.
      rw [Nat.toDigits_of_base_le (by decide) (by omega), hcs, List.cons_append]
      rwa [hcs] at hhead

/-- The digits of a written number are the integer part of a number if there are not too many. -/
theorem isIntegerPart_toDigits {limits : Limits} {negative : Bool} {n : Nat} :
    isIntegerPart limits negative (Nat.toDigits 10 n) = true ↔
      (Nat.toDigits 10 n).length + (if negative then 1 else 0) ≤ limits.digits := by
  have hzero : ((Nat.toDigits 10 n).length = 1 || (Nat.toDigits 10 n).head? ≠ some '0') = true := by
    by_cases hn : n = 0
    · subst n
      rfl
    · simp only [ne_eq, head?_toDigits (Nat.pos_of_ne_zero hn), not_false_eq_true, decide_true,
        Bool.or_true]
  rw [isIntegerPart, hzero, Bool.true_and, decide_eq_true_eq]

/-- An integer is written as its digits behind its sign. -/
theorem integer_eq (value : Int) : Writer.integer value =
    (if decide (value < 0) then ['-'] else []) ++ Nat.toDigits 10 value.natAbs := by
  by_cases hv : value < 0
  · rw [Writer.integer, if_pos hv, if_pos (decide_eq_true hv), List.singleton_append]
  · rw [Writer.integer, if_neg hv, if_neg (by simpa using hv), List.nil_append]

/-- An integer is written as its decimal text. -/
theorem toList_toString (value : Int) : (toString value).toList = Writer.integer value := by
  cases value with
  | ofNat n =>
    have hn : ¬Int.ofNat n < 0 := Int.not_lt.mpr (Int.natCast_nonneg n)
    rw [Writer.integer, if_neg hn]
    exact Nat.toList_repr
  | negSucc n =>
    have htext : toString (Int.negSucc n) = "-" ++ Nat.repr (n + 1) := rfl
    rw [Writer.integer, if_pos (Int.negSucc_lt_zero n), htext, String.toList_append,
      Nat.toList_repr]
    rfl

/-- The length of a written integer. -/
theorem length_integer (value : Int) : (Writer.integer value).length =
    (Nat.toDigits 10 value.natAbs).length + (if decide (value < 0) then 1 else 0) := by
  rw [integer_eq, List.length_append, Nat.add_comm]
  by_cases hv : value < 0
  · simp only [hv, decide_true, if_true, List.length_singleton]
  · simp only [hv, decide_false, Bool.false_eq_true, if_false, List.length_nil]

/-- Digits and sign of an integer stand for it. -/
theorem signed_toDigits (value : Int) :
    signed (decide (value < 0)) (Nat.toDigits 10 value.natAbs) = value := by
  rw [signed, natural, Nat.ofDigitChars_ten_toDigits]
  by_cases hv : value < 0
  · rw [if_pos (decide_eq_true hv)]
    omega
  · rw [if_neg (by simpa using hv)]
    omega

/-- A written integer is spelled if it is not too long. -/
theorem Grammar.Number.integer {limits : Limits} {value : Int}
    (h : (Writer.integer value).length ≤ limits.digits) :
    Number limits (.integer value) (Writer.integer value) := by
  have hi : isIntegerPart limits (decide (value < 0)) (Nat.toDigits 10 value.natAbs) = true := by
    rw [isIntegerPart_toDigits, ← length_integer]
    exact h
  have hn := Number.numeral (Run.toDigits value.natAbs) hi .absent .absent
  rw [List.append_nil, List.append_nil, ← integer_eq, numberOf, signed_toDigits] at hn
  exact hn

/-- A written decimal number is spelled if it does not have too many digits. -/
theorem Grammar.Number.decimal {limits : Limits} {value : Decimal}
    (h : (Nat.toDigits 10 value.coefficient).length + (if value.negative then 1 else 0) ≤
      limits.digits) :
    Number limits (.decimal value) (Writer.decimal value) := by
  have hs : Sign (decide (value.exponent < 0))
      (if decide (value.exponent < 0) then ['-'] else []) := by
    by_cases hv : value.exponent < 0
    · rw [decide_eq_true hv, if_pos rfl]
      exact .minus
    · rw [decide_eq_false hv, if_neg Bool.false_ne_true]
      exact .none
  have he := Exponent.present (Or.inl rfl) hs (Run.toDigits value.exponent.natAbs)
  rw [signed_toDigits, ← integer_eq] at he
  have hn := Number.numeral (Run.toDigits value.coefficient) (isIntegerPart_toDigits.mpr h)
    .absent he
  simp only [numberOf, Option.getD_none, Option.getD_some, List.append_nil, List.length_nil,
    Int.natCast_zero, Int.sub_zero, natural, Nat.ofDigitChars_ten_toDigits, List.nil_append] at hn
  rwa [Writer.decimal, List.append_assoc]

/-! ## Documents -/

mutual

/-- What a document is read as when it was written. -/
def Value.reread : Value → Value
  | .octets octets => .text (String.ofList (Base64.encode .urlSafe octets))
  | .array items => .array (rereadItems items)
  | .object members => .object (rereadMembers members)
  | value => value

/-- What the items of an array are read as. -/
def rereadItems : List Value → List Value
  | [] => []
  | item :: rest => item.reread :: rereadItems rest

/-- What the members of an object are read as. -/
def rereadMembers : List (String × Value) → List (String × Value)
  | [] => []
  | (name, value) :: rest => (name, value.reread) :: rereadMembers rest

end

mutual

/-- Whether a document stays within the limits of a reader where at most `depth` more nonempty
arrays and objects may surround a value. -/
def Value.Fits (limits : Limits) : (depth : Nat) → Value → Prop
  | _, .integer value => (Writer.integer value).length ≤ limits.digits
  | _, .decimal value =>
    (Nat.toDigits 10 value.coefficient).length + (if value.negative then 1 else 0) ≤ limits.digits
  | depth, .array items => items = [] ∨ 0 < depth ∧ ItemsFit limits (depth - 1) items
  | depth, .object members => members = [] ∨ 0 < depth ∧ MembersFit limits (depth - 1) members
  | _, _ => True

/-- Whether the items of an array stay within the limits. -/
def ItemsFit (limits : Limits) : (depth : Nat) → List Value → Prop
  | _, [] => True
  | depth, item :: rest => item.Fits limits depth ∧ ItemsFit limits depth rest

/-- Whether the members of an object stay within the limits. -/
def MembersFit (limits : Limits) : (depth : Nat) → List (String × Value) → Prop
  | _, [] => True
  | depth, (_, value) :: rest => value.Fits limits depth ∧ MembersFit limits depth rest

end

/-- A text is spelled when it is written. -/
theorem Grammar.Spells.writtenText {limits : Limits} {depth : Nat} (cs : List Char) :
    Spells limits depth (.value (.text (String.ofList cs))) (Writer.text cs) := by
  refine .text ?_
  rw [String.toList_ofList]
  exact .escape cs

/-- The name of a member is spelled when it is written. -/
theorem Grammar.Name.written (name : String) : Name name (Writer.text name.toList ++ [':']) := by
  have hn := Name.intro (.escape name.toList) (List.forall_mem_nil _) (List.forall_mem_nil _)
  simp only [Writer.text, List.cons_append, List.append_assoc]
  exact hn

variable {limits : Limits}

mutual

/-- A written document is a spelling of what it is read as, if it stays within the limits. -/
theorem Value.spells_render : ∀ (depth : Nat) (v : Value), v.Fits limits depth →
    Spells limits depth (.value v.reread) v.render
  | _, .null, _ => .nullWord
  | _, .bool true, _ => .trueWord
  | _, .bool false, _ => .falseWord
  | _, .integer _, h => .number (.integer h)
  | _, .decimal _, h => .number (.decimal h)
  | _, .notANumber, _ => .number .notANumber
  | _, .infinity true, _ => .number .negativeInfinity
  | _, .infinity false, _ => .number .infinity
  | depth, .text text, _ => by
    have hs : Spells limits depth _ _ := .writtenText text.toList
    rwa [String.ofList_toList] at hs
  | _, .octets octets, _ => Spells.writtenText (Base64.encode .urlSafe octets)
  | _, .array [], _ => .emptyArray (List.forall_mem_nil _)
  | 0, .array (_ :: _), h => by
    rcases h with hnil | ⟨hpos, _⟩
    · cases hnil
    · cases hpos
  | depth + 1, .array (item :: rest), h => by
    rcases h with hnil | ⟨_, hfit⟩
    · cases hnil
    · exact .array (List.forall_mem_nil _)
        (spells_renderItems depth (item :: rest) (List.cons_ne_nil _ _) hfit)
  | _, .object [], _ => .emptyObject (List.forall_mem_nil _)
  | 0, .object (_ :: _), h => by
    rcases h with hnil | ⟨hpos, _⟩
    · cases hnil
    · cases hpos
  | depth + 1, .object ((name, value) :: rest), h => by
    rcases h with hnil | ⟨_, hfit⟩
    · cases hnil
    · exact .object (List.forall_mem_nil _)
        (spells_renderMembers depth ((name, value) :: rest) (List.cons_ne_nil _ _) hfit)

/-- The written items of an array are a spelling of what they are read as. -/
theorem spells_renderItems : ∀ (depth : Nat) (items : List Value), items ≠ [] →
    ItemsFit limits depth items →
      Spells limits depth (.items (rereadItems items)) (renderItems items)
  | _, [], hne, _ => absurd rfl hne
  | depth, [item], _, h => .lastItem (item.spells_render depth h.1) (List.forall_mem_nil _)
  | depth, item :: next :: rest, _, h =>
    .item (item.spells_render depth h.1) (List.forall_mem_nil _) (List.forall_mem_nil _)
      (spells_renderItems depth (next :: rest) (List.cons_ne_nil _ _) h.2)

/-- The written members of an object are a spelling of what they are read as. -/
theorem spells_renderMembers : ∀ (depth : Nat) (members : List (String × Value)), members ≠ [] →
    MembersFit limits depth members →
      Spells limits depth (.members (rereadMembers members)) (renderMembers members)
  | _, [], hne, _ => absurd rfl hne
  | depth, [(name, value)], _, h => by
    have hs := Spells.lastMember (.written name) (value.spells_render depth h.1)
      (List.forall_mem_nil _)
    simp only [List.append_assoc, List.cons_append, List.nil_append] at hs
    simp only [rereadMembers, renderMembers, List.append_assoc, List.cons_append]
    exact hs
  | depth, (name, value) :: (next, other) :: rest, _, h => by
    have hrest := spells_renderMembers depth ((next, other) :: rest) (List.cons_ne_nil _ _) h.2
    have hs := Spells.member (.written name) (value.spells_render depth h.1)
      (List.forall_mem_nil _) (List.forall_mem_nil _) hrest
    simp only [List.append_assoc, List.cons_append, List.nil_append] at hs
    rw [rereadMembers, renderMembers]
    · simp only [List.append_assoc, List.cons_append]
      exact hs
    · exact List.cons_ne_nil _ _

end

/-- A written document starts with a character that is neither blank nor closes anything. -/
theorem Value.starts_render (v : Value) : Starts v.render := by
  cases v with
  | null => exact ⟨'n', _, rfl, by decide⟩
  | bool value =>
    cases value with
    | true => exact ⟨'t', _, rfl, by decide⟩
    | false => exact ⟨'f', _, rfl, by decide⟩
  | integer value =>
    have hn : Number ⟨0, _⟩ _ _ := .integer (Nat.le_refl (Writer.integer value).length)
    have hs : Spells _ 0 _ _ := .number hn
    exact hs.starts
  | decimal value =>
    have hn : Number ⟨0, _⟩ (.decimal value) _ := .decimal (Nat.le_refl _)
    have hs : Spells _ 0 _ _ := .number hn
    exact hs.starts
  | notANumber => exact ⟨'N', _, rfl, by decide⟩
  | infinity negative =>
    cases negative with
    | true => exact ⟨'-', _, rfl, by decide⟩
    | false => exact ⟨'I', _, rfl, by decide⟩
  | text text => exact ⟨'"', _, rfl, by decide⟩
  | octets octets => exact ⟨'"', _, rfl, by decide⟩
  | array items => exact ⟨'[', _, rfl, by decide⟩
  | object members => exact ⟨'{', _, rfl, by decide⟩

/-- The written items of an array start like a document. -/
theorem starts_renderItems (item : Value) (rest : List Value) :
    Starts (renderItems (item :: rest)) := by
  obtain ⟨c, cs, hcs, hc⟩ := item.starts_render
  cases rest with
  | nil => exact ⟨c, _, by rw [renderItems, hcs, List.cons_append], hc⟩
  | cons next rest =>
    refine ⟨c, cs ++ ',' :: renderItems (next :: rest), ?_, hc⟩
    rw [renderItems, hcs, List.cons_append]
    exact List.cons_ne_nil _ _

/-- The written members of an object start with a quotation mark. -/
theorem starts_renderMembers (name : String) (v : Value) (rest : List (String × Value)) :
    Starts (renderMembers ((name, v) :: rest)) := by
  cases rest with
  | nil => exact ⟨'"', _, rfl, by decide⟩
  | cons next rest => exact ⟨'"', _, rfl, by decide⟩

/-- The written name of a member is read with its colon. -/
theorem memberName_written (name : String) (v : Value) {fuel : Nat}
    (hf : (Writer.text name.toList).length < fuel) (rest : List Char) :
    memberName fuel (Writer.text name.toList ++ ':' :: (v.render ++ rest)) =
      some (name, v.render ++ rest) := by
  have hlength : (Writer.text name.toList ++ [':']).length ≤ fuel := by
    rw [List.length_append, List.length_singleton]
    omega
  have hread := (Name.written name).read hlength v.starts_render rest
  rwa [List.append_assoc, List.singleton_append] at hread

/-- A number with too many digits is not read. -/
theorem number_toDigits_eq_none {negative : Bool} {n : Nat}
    (h : ¬(Nat.toDigits 10 n).length + (if negative then 1 else 0) ≤ limits.digits)
    {rest : List Char} (hr : ∀ c ∈ rest.head?, c.isDigit = false) :
    number limits ((if negative then ['-'] else []) ++ (Nat.toDigits 10 n ++ rest)) = none := by
  rw [number_eq_unsignedNumber (Run.toDigits n), unsignedNumber, (Run.toDigits n).read hr,
    Option.bind_some]
  exact if_neg (mt isIntegerPart_toDigits.mp h)

mutual

/-- A written document beyond the limits is not read. -/
theorem Value.value_render_eq_none : ∀ (v : Value) {depth fuel : Nat} {rest : List Char},
    ¬v.Fits limits depth → 2 * v.render.length + 1 ≤ fuel → EndsNumber rest →
      value limits fuel depth (v.render ++ rest) = none
  | _, _, 0, _, _, hf, _ => absurd hf (Nat.not_succ_le_zero _)
  | .null, _, _, _, h, _, _ | .bool _, _, _, _, h, _, _ | .notANumber, _, _, _, h, _, _
  | .infinity _, _, _, _, h, _, _ | .text _, _, _, _, h, _, _ | .octets _, _, _, _, h, _, _ =>
    absurd trivial h
  | .array [], _, _, _, h, _, _ | .object [], _, _, _, h, _, _ => absurd (Or.inl rfl) h
  | .integer v, depth, fuel + 1, rest, h, _, hr => by
    have hn : Number ⟨0, _⟩ _ _ := .integer (Nat.le_refl (Writer.integer v).length)
    obtain ⟨c, cs, hcs, hc⟩ := hn.head
    rw [Value.render, value_eq_number hc (by rw [hcs, List.cons_append] : _ = c :: (cs ++ rest)),
      integer_eq, List.append_assoc]
    refine number_toDigits_eq_none ?_ fun d hd => (hr d hd).1
    rw [← length_integer]
    exact h
  | .decimal v, depth, fuel + 1, rest, h, _, hr => by
    have hn : Number ⟨0, _⟩ (.decimal v) _ := .decimal (Nat.le_refl _)
    obtain ⟨c, cs, hcs, hc⟩ := hn.head
    rw [Value.render, value_eq_number hc (by rw [hcs, List.cons_append] : _ = c :: (cs ++ rest)),
      Writer.decimal, List.append_assoc, List.append_assoc]
    refine number_toDigits_eq_none h fun d hd => ?_
    cases hd
    decide
  | .array (item :: items), depth, fuel + 1, rest, h, hf, _ => by
    have hnil : Blanks [] := List.forall_mem_nil _
    have hlength : 2 * (renderItems (item :: items)).length ≤ fuel := by
      simp only [Value.render, List.length_cons] at hf
      omega
    rw [Value.render, List.cons_append, ← List.nil_append (renderItems (item :: items) ++ rest),
      value_array hnil (starts_renderItems item items)]
    by_cases hpos : 0 < depth
    · have hunfit : ¬ItemsFit limits (depth - 1) (item :: items) :=
        fun hfit => h (Or.inr ⟨hpos, hfit⟩)
      rw [if_pos hpos, items_renderItems_eq_none (item :: items) hunfit hlength, Option.map_none]
    · rw [if_neg hpos]
  | .object ((name, v) :: members), depth, fuel + 1, rest, h, hf, _ => by
    have hnil : Blanks [] := List.forall_mem_nil _
    have hlength : 2 * (renderMembers ((name, v) :: members)).length ≤ fuel := by
      simp only [Value.render, List.length_cons] at hf
      omega
    rw [Value.render, List.cons_append,
      ← List.nil_append (renderMembers ((name, v) :: members) ++ rest),
      value_object hnil (starts_renderMembers name v members)]
    by_cases hpos : 0 < depth
    · have hunfit : ¬MembersFit limits (depth - 1) ((name, v) :: members) :=
        fun hfit => h (Or.inr ⟨hpos, hfit⟩)
      rw [if_pos hpos, members_renderMembers_eq_none ((name, v) :: members) hunfit hlength,
        Option.map_none]
    · rw [if_neg hpos]

/-- The written items of an array beyond the limits are not read. -/
theorem items_renderItems_eq_none : ∀ (items : List Value) {depth fuel : Nat} {rest : List Char},
    ¬ItemsFit limits depth items → 2 * (renderItems items).length ≤ fuel →
      Reader.items limits fuel depth (renderItems items ++ rest) = none
  | [], _, _, _, h, _ => absurd trivial h
  | [item], depth, fuel, rest, h, hf => by
    simp only [renderItems, List.length_append, List.length_singleton] at hf
    obtain ⟨fuel, rfl⟩ := Nat.exists_eq_succ_of_ne_zero (by omega : fuel ≠ 0)
    have hclose : EndsNumber (']' :: rest) := (by decide : EndsNumber [']'])
    have hnone : value limits fuel depth (item.render ++ ']' :: rest) = none :=
      item.value_render_eq_none (fun hfit => h ⟨hfit, trivial⟩) (by omega) hclose
    simp only [renderItems, List.append_assoc, List.singleton_append, Reader.items, hnone,
      Option.bind_none]
  | item :: next :: items, depth, fuel, rest, h, hf => by
    simp only [renderItems, List.length_append, List.length_cons] at hf
    obtain ⟨fuel, rfl⟩ := Nat.exists_eq_succ_of_ne_zero (by omega : fuel ≠ 0)
    have hcomma : EndsNumber (',' :: (renderItems (next :: items) ++ rest)) :=
      (by decide : EndsNumber [','])
    simp only [renderItems, List.append_assoc, List.cons_append, Reader.items]
    -- What fits in front of the first unfit item is read, and the reader gets to that item.
    by_cases hfit : item.Fits limits depth
    · have hread := (item.spells_render depth hfit).isRead fuel _ (by omega) hcomma
      have hothers : Reader.items limits fuel depth (renderItems (next :: items) ++ rest) = none :=
        items_renderItems_eq_none (next :: items) (fun hrest => h ⟨hfit, hrest⟩) (by omega)
      have hskip := (starts_renderItems next items).skip rest
      have hhead : ∀ cs, skipBlanks (',' :: cs) = ',' :: cs := fun _ => rfl
      simp only [hread, Option.bind_some, hhead, hskip, hothers, Option.map_none]
    · rw [item.value_render_eq_none hfit (by omega) hcomma, Option.bind_none]

/-- The written members of an object beyond the limits are not read. -/
theorem members_renderMembers_eq_none : ∀ (members : List (String × Value)) {depth fuel : Nat}
    {rest : List Char}, ¬MembersFit limits depth members →
      2 * (renderMembers members).length ≤ fuel →
        Reader.members limits fuel depth (renderMembers members ++ rest) = none
  | [], _, _, _, h, _ => absurd trivial h
  | [(name, v)], depth, fuel, rest, h, hf => by
    simp only [renderMembers, List.length_append, List.length_cons, List.length_nil] at hf
    obtain ⟨fuel, rfl⟩ := Nat.exists_eq_succ_of_ne_zero (by omega : fuel ≠ 0)
    have hname := memberName_written name v (by omega : (Writer.text name.toList).length < fuel)
      ('}' :: rest)
    have hclose : EndsNumber ('}' :: rest) := (by decide : EndsNumber ['}'])
    have hnone : value limits fuel depth (v.render ++ '}' :: rest) = none :=
      v.value_render_eq_none (fun hfit => h ⟨hfit, trivial⟩) (by omega) hclose
    simp only [renderMembers, List.append_assoc, List.cons_append, List.nil_append, Reader.members,
      hname, Option.bind_some, hnone, Option.bind_none]
  | (name, v) :: (next, other) :: members, depth, fuel, rest, h, hf => by
    rw [renderMembers] at hf ⊢
    · simp only [List.length_append, List.length_cons] at hf
      obtain ⟨fuel, rfl⟩ := Nat.exists_eq_succ_of_ne_zero (by omega : fuel ≠ 0)
      have hname := memberName_written name v (by omega : (Writer.text name.toList).length < fuel)
        (',' :: (renderMembers ((next, other) :: members) ++ rest))
      have hcomma : EndsNumber (',' :: (renderMembers ((next, other) :: members) ++ rest)) :=
        (by decide : EndsNumber [','])
      simp only [List.append_assoc, List.cons_append, Reader.members, hname, Option.bind_some]
      by_cases hfit : v.Fits limits depth
      · have hread := (v.spells_render depth hfit).isRead fuel _ (by omega) hcomma
        have hothers : Reader.members limits fuel depth
            (renderMembers ((next, other) :: members) ++ rest) = none :=
          members_renderMembers_eq_none ((next, other) :: members)
            (fun hrest => h ⟨hfit, hrest⟩) (by omega)
        have hskip := (starts_renderMembers next other members).skip rest
        have hhead : ∀ cs, skipBlanks (',' :: cs) = ',' :: cs := fun _ => rfl
        simp only [hread, Option.bind_some, hhead, hskip, hothers, Option.map_none]
      · rw [v.value_render_eq_none hfit (by omega) hcomma, Option.bind_none]
    · exact List.cons_ne_nil _ _
    · exact List.cons_ne_nil _ _

end

/-- The text of a document is read as the document, octets as their text, if it stays within the
limits. -/
theorem Value.ofText?_toText {v : Value} (h : v.Fits limits limits.depth) :
    Value.ofText? limits v.toText = some v.reread := by
  have hread := (v.spells_render limits.depth h).ofChars? (List.forall_mem_nil _)
    (List.forall_mem_nil _)
  rw [List.nil_append, List.append_nil] at hread
  rw [Value.ofText?, Value.toText, String.toList_ofList, hread]

/-- The text of a document beyond the limits is not read at all. -/
theorem Value.ofText?_toText_eq_none {v : Value} (h : ¬v.Fits limits limits.depth) :
    Value.ofText? limits v.toText = none := by
  have hskip := v.starts_render.skip []
  rw [List.append_nil] at hskip
  have hnone := v.value_render_eq_none h (Nat.le_refl _) (by decide : EndsNumber [])
  rw [List.append_nil] at hnone
  rw [Value.ofText?, Value.toText, String.toList_ofList, Value.ofChars?, hskip, hnone,
    Option.bind_none]

end AccessPolicy.Json
