import AccessPolicy.Proofs.Json.Grammar
import Mathlib.Data.List.TakeWhile

/-!
# Everything read is spelled

Whenever a scanner reads something, the characters it used up are a spelling of it, whatever fuel
it had. The recursion is the reader's own: a call with more fuel makes its calls with less.
-/

namespace AccessPolicy.Json.Grammar

open Reader

/-! ## Texts -/

/-- A code unit is four characters that are one by themselves. -/
private theorem codeUnit_used {cs rest : List Char} {code : Nat}
    (h : codeUnit cs = some (code, rest)) :
    ∃ used, cs = used ++ rest ∧ codeUnit used = some (code, []) := by
  unfold codeUnit at h
  split at h
  · rename_i a b c d ds
    obtain ⟨value, hv, he⟩ := Option.map_eq_some_iff.mp h
    cases he
    refine ⟨[a, b, c, d], rfl, ?_⟩
    rw [codeUnit, hv, Option.map_some]
  · cases h

/-- A character that is read behind a backslash and a `u` is spelled with these in front. -/
private theorem numberedCharacter_used {cs rest : List Char} {c : Char}
    (h : numberedCharacter cs = some (c, rest)) :
    ∃ used, '\\' :: 'u' :: cs = used ++ rest ∧ Character c used := by
  obtain ⟨⟨high, behind⟩, hu, hread⟩ := Option.bind_eq_some_iff.mp h
  obtain ⟨us, rfl, hus⟩ := codeUnit_used hu
  dsimp only at hread
  split at hread
  · rename_i hh
    obtain ⟨⟨low, left⟩, hlow, he⟩ := Option.map_eq_some_iff.mp hread
    obtain ⟨rfl, rfl⟩ := Prod.mk.inj he
    unfold lowSurrogate at hlow
    split at hlow
    · obtain ⟨hd, hl⟩ := Option.filter_eq_some_iff.mp hlow
      obtain ⟨ds, rfl, hds⟩ := codeUnit_used hd
      refine ⟨'\\' :: 'u' :: (us ++ '\\' :: 'u' :: ds), ?_, .paired hus hh hds hl⟩
      simp only [List.cons_append, List.append_assoc]
    · cases hlow
  · rename_i hh
    split at hread
    · cases hread
    · rename_i hl
      cases hread
      refine ⟨'\\' :: 'u' :: us, rfl, .numbered hus ?_ ?_⟩
      · exact Bool.eq_false_iff.mpr hh
      · exact Bool.eq_false_iff.mpr hl

/-- A character that is read is spelled. -/
theorem Character.of_read {cs rest : List Char} {c : Char} (h : character cs = some (c, rest)) :
    ∃ used, cs = used ++ rest ∧ Character c used := by
  cases cs with
  | nil => cases h
  | cons d ds =>
    rw [character] at h
    split at h
    · subst d
      cases ds with
      | nil => cases h
      | cons e es =>
        rw [escaped] at h
        split at h
        · subst e
          exact numberedCharacter_used h
        · obtain ⟨named, hn, he⟩ := Option.map_eq_some_iff.mp h
          cases he
          exact ⟨['\\', e], rfl, .named hn⟩
    · split at h
      · rename_i hp
        cases h
        exact ⟨[c], rfl, .plain hp⟩
      · cases h

/-- The characters that are read up to a closing mark are spelled. -/
theorem Characters.of_read {fuel : Nat} {cs text rest : List Char}
    (h : characters fuel cs = some (text, rest)) :
    ∃ used, cs = used ++ '"' :: rest ∧ Characters text used := by
  induction fuel generalizing cs text with
  | zero => cases h
  | succ fuel ih =>
    rw [characters.eq_def] at h
    dsimp only at h
    split at h
    · cases h
      exact ⟨[], rfl, .nil⟩
    · obtain ⟨⟨c, behind⟩, hc, h⟩ := Option.bind_eq_some_iff.mp h
      obtain ⟨⟨others, left⟩, ho, he⟩ := Option.map_eq_some_iff.mp h
      cases he
      obtain ⟨us, rfl, hus⟩ := Character.of_read hc
      obtain ⟨vs, rfl, hvs⟩ := ih ho
      refine ⟨us ++ vs, ?_, .cons hus hvs⟩
      rw [List.append_assoc]

/-- A text that is read from behind its opening mark on is spelled. -/
private theorem text_used {fuel : Nat} {cs rest : List Char} {t : String}
    (h : text fuel cs = some (t, rest)) :
    ∃ used, cs = used ++ '"' :: rest ∧ Characters t.toList used := by
  obtain ⟨⟨read, left⟩, hr, he⟩ := Option.map_eq_some_iff.mp h
  cases he
  rw [String.toList_ofList]
  exact Characters.of_read hr

/-! ## Numbers -/

/-- Digits that are read are a run. -/
theorem Run.of_read {cs run rest : List Char} (h : digits cs = some (run, rest)) :
    cs = run ++ rest ∧ Run run := by
  rw [digits] at h
  split at h
  · cases h
  · rename_i hne
    cases h
    refine ⟨List.takeWhile_append_dropWhile.symm, ?_, fun c hc => ?_⟩
    · exact fun he => hne (List.isEmpty_iff.mpr he)
    · exact List.mem_takeWhile_imp hc

/-- The part of a number behind its point is spelled when it is read. -/
theorem Fraction.of_read {cs rest : List Char} {read : Option (List Char)}
    (h : fraction cs = some (read, rest)) : ∃ used, cs = used ++ rest ∧ Fraction read used := by
  unfold fraction at h
  split at h
  · obtain ⟨⟨run, left⟩, hd, he⟩ := Option.map_eq_some_iff.mp h
    cases he
    obtain ⟨rfl, hr⟩ := Run.of_read hd
    exact ⟨'.' :: run, rfl, .present hr⟩
  · cases h
    exact ⟨[], rfl, .absent⟩

/-- A sign is spelled when it is read. -/
theorem Sign.of_read (cs : List Char) :
    ∃ used, cs = used ++ (sign cs).2 ∧ Sign (sign cs).1 used := by
  unfold sign
  split
  · exact ⟨['-'], rfl, .minus⟩
  · exact ⟨['+'], rfl, .plus⟩
  · exact ⟨[], rfl, .none⟩

/-- The exponent of a number is spelled when it is read. -/
theorem Exponent.of_read {cs rest : List Char} {read : Option Int}
    (h : exponent cs = some (read, rest)) : ∃ used, cs = used ++ rest ∧ Exponent read used := by
  cases cs with
  | nil =>
    cases h
    exact ⟨[], rfl, .absent⟩
  | cons c cs =>
    rw [exponent] at h
    split at h
    · rename_i hm
      obtain ⟨us, hus, hs⟩ := Sign.of_read cs
      obtain ⟨⟨run, left⟩, hd, he⟩ := Option.map_eq_some_iff.mp h
      cases he
      obtain ⟨hcs, hr⟩ := Run.of_read hd
      refine ⟨c :: (us ++ run), ?_, .present hm hs hr⟩
      rw [List.cons_append, List.append_assoc, ← hcs]
      exact congrArg _ hus
    · cases h
      exact ⟨[], rfl, .absent⟩

/-- A number is spelled when it is read from behind its sign on. -/
private theorem unsignedNumber_used {limits : Limits} {negative : Bool} {cs rest : List Char}
    {v : Value} (h : unsignedNumber limits negative cs = some (v, rest)) :
    ∃ used, cs = used ++ rest ∧ Number limits v ((if negative then ['-'] else []) ++ used) := by
  obtain ⟨⟨whole, behind⟩, hd, hread⟩ := Option.bind_eq_some_iff.mp h
  obtain ⟨rfl, hw⟩ := Run.of_read hd
  dsimp only at hread
  split at hread
  · rename_i hi
    obtain ⟨⟨fraction, left⟩, hf, hread⟩ := Option.bind_eq_some_iff.mp hread
    obtain ⟨⟨exponent, last⟩, he, hv⟩ := Option.map_eq_some_iff.mp hread
    cases hv
    obtain ⟨fs, rfl, hfs⟩ := Fraction.of_read hf
    obtain ⟨es, rfl, hes⟩ := Exponent.of_read he
    refine ⟨whole ++ (fs ++ es), ?_, .numeral hw hi hfs hes⟩
    simp only [List.append_assoc]
  · cases hread

/-- A number is spelled when it is read. -/
theorem Number.of_read {limits : Limits} {cs rest : List Char} {v : Value}
    (h : number limits cs = some (v, rest)) : ∃ used, cs = used ++ rest ∧ Number limits v used := by
  unfold number at h
  split at h
  · cases h
    exact ⟨_, rfl, .notANumber⟩
  · cases h
    exact ⟨_, rfl, .infinity⟩
  · cases h
    exact ⟨_, rfl, .negativeInfinity⟩
  · obtain ⟨used, rfl, hn⟩ := unsignedNumber_used h
    exact ⟨'-' :: used, rfl, hn⟩
  · obtain ⟨used, rfl, hn⟩ := unsignedNumber_used h
    exact ⟨used, rfl, hn⟩

/-! ## Documents -/

/-- What is skipped in front of a token is blank. -/
theorem Blanks.of_skip (cs : List Char) : ∃ blanks, cs = blanks ++ skipBlanks cs ∧ Blanks blanks :=
  ⟨cs.takeWhile isBlank, List.takeWhile_append_dropWhile.symm, fun _ hc =>
    List.mem_takeWhile_imp hc⟩

/-- The name of a member is spelled when it is read with its colon. -/
theorem Name.of_read {fuel : Nat} {cs rest : List Char} {name : String}
    (h : memberName fuel cs = some (name, rest)) : ∃ used, cs = used ++ rest ∧ Name name used := by
  unfold memberName at h
  split at h
  · rename_i cs
    obtain ⟨⟨read, behind⟩, ht, hread⟩ := Option.bind_eq_some_iff.mp h
    obtain ⟨ns, rfl, hns⟩ := text_used ht
    obtain ⟨before, hbefore, hb⟩ := Blanks.of_skip behind
    dsimp only at hread
    split at hread
    · rename_i left hcolon
      cases hread
      obtain ⟨after, hafter, ha⟩ := Blanks.of_skip left
      refine ⟨'"' :: (ns ++ '"' :: (before ++ ':' :: after)), ?_, .intro hns hb ha⟩
      rw [hcolon] at hbefore
      rw [hbefore]
      simp only [List.cons_append, List.append_assoc]
      rw [← hafter]
    · cases hread
  · cases h

/-- A value that holds no other is spelled when it is read. -/
private theorem scalar_used {limits : Limits} {fuel depth : Nat} {cs rest : List Char} {v : Value}
    (h : scalar limits fuel cs = some (v, rest)) :
    ∃ used, cs = used ++ rest ∧ Spells limits depth (.value v) used := by
  unfold scalar at h
  split at h
  · obtain ⟨⟨read, left⟩, ht, he⟩ := Option.map_eq_some_iff.mp h
    cases he
    obtain ⟨us, rfl, hus⟩ := text_used ht
    refine ⟨'"' :: (us ++ ['"']), ?_, .text hus⟩
    simp only [List.cons_append, List.append_assoc, List.nil_append]
  · cases h
    exact ⟨_, rfl, .nullWord⟩
  · cases h
    exact ⟨_, rfl, .trueWord⟩
  · cases h
    exact ⟨_, rfl, .falseWord⟩
  · obtain ⟨used, hcs, hn⟩ := Number.of_read h
    exact ⟨used, hcs, .number hn⟩

/-- What the reader takes as a part, with some fuel and in front of some characters, is a spelling
of it. -/
def Part.IsSpelled (limits : Limits) (depth : Nat) (cs rest : List Char) (part : Part) : Prop :=
  ∃ used, cs = used ++ rest ∧ Spells limits depth part used

mutual

/-- A document is spelled when it is read. -/
theorem value_used {limits : Limits} : ∀ {fuel depth : Nat} {cs rest : List Char} {v : Value},
    value limits fuel depth cs = some (v, rest) → (Part.value v).IsSpelled limits depth cs rest
  | 0, _, _, _, _, h => by cases h
  | fuel + 1, depth, cs, rest, v, h => by
    rw [value.eq_def] at h
    dsimp only at h
    -- An array, an object or a scalar; the first two are empty, too deep or go on.
    split at h
    · rename_i left
      obtain ⟨blanks, hleft, hb⟩ := Blanks.of_skip left
      split at h
      · rename_i hclose
        cases h
        rw [hclose] at hleft
        refine ⟨'[' :: (blanks ++ [']']), ?_, .emptyArray hb⟩
        rw [hleft, List.cons_append, List.append_assoc, List.singleton_append]
      · cases h
      · obtain ⟨⟨vs, last⟩, hi, he⟩ := Option.map_eq_some_iff.mp h
        cases he
        obtain ⟨used, hused, hs⟩ := items_used hi
        refine ⟨'[' :: (blanks ++ used), ?_, .array hb hs⟩
        rw [hleft, hused, List.cons_append, List.append_assoc]
    · rename_i left
      obtain ⟨blanks, hleft, hb⟩ := Blanks.of_skip left
      split at h
      · rename_i hclose
        cases h
        rw [hclose] at hleft
        refine ⟨'{' :: (blanks ++ ['}']), ?_, .emptyObject hb⟩
        rw [hleft, List.cons_append, List.append_assoc, List.singleton_append]
      · cases h
      · obtain ⟨⟨ms, last⟩, hm, he⟩ := Option.map_eq_some_iff.mp h
        cases he
        obtain ⟨used, hused, hs⟩ := members_used hm
        refine ⟨'{' :: (blanks ++ used), ?_, .object hb hs⟩
        rw [hleft, hused, List.cons_append, List.append_assoc]
    · exact scalar_used h

/-- The items of an array are spelled when they are read. -/
theorem items_used {limits : Limits} : ∀ {fuel depth : Nat} {cs rest : List Char}
    {vs : List Value}, items limits fuel depth cs = some (vs, rest) →
      (Part.items vs).IsSpelled limits depth cs rest
  | 0, _, _, _, _, h => by cases h
  | fuel + 1, depth, cs, rest, vs, h => by
    obtain ⟨⟨first, behind⟩, hv, hread⟩ := Option.bind_eq_some_iff.mp h
    obtain ⟨us, rfl, hus⟩ := value_used hv
    obtain ⟨before, hbefore, hb⟩ := Blanks.of_skip behind
    dsimp only at hread
    split at hread
    · rename_i hclose
      cases hread
      rw [hclose] at hbefore
      refine ⟨us ++ (before ++ [']']), ?_, .lastItem hus hb⟩
      simp only [hbefore, List.append_assoc, List.singleton_append]
    · rename_i left hcomma
      obtain ⟨⟨others, last⟩, ho, he⟩ := Option.map_eq_some_iff.mp hread
      cases he
      obtain ⟨after, hafter, ha⟩ := Blanks.of_skip left
      obtain ⟨ws, hws, hs⟩ := items_used ho
      refine ⟨us ++ (before ++ ',' :: (after ++ ws)), ?_, .item hus hb ha hs⟩
      rw [hcomma, hafter, hws] at hbefore
      simp only [hbefore, List.append_assoc, List.cons_append]
    · cases hread

/-- The members of an object are spelled when they are read. -/
theorem members_used {limits : Limits} : ∀ {fuel depth : Nat} {cs rest : List Char}
    {ms : List (String × Value)}, members limits fuel depth cs = some (ms, rest) →
      (Part.members ms).IsSpelled limits depth cs rest
  | 0, _, _, _, _, h => by cases h
  | fuel + 1, depth, cs, rest, ms, h => by
    obtain ⟨⟨name, colon⟩, hn, hnamed⟩ := Option.bind_eq_some_iff.mp h
    obtain ⟨⟨first, behind⟩, hv, hread⟩ := Option.bind_eq_some_iff.mp hnamed
    obtain ⟨ns, rfl, hns⟩ := Name.of_read hn
    obtain ⟨us, rfl, hus⟩ := value_used hv
    obtain ⟨before, hbefore, hb⟩ := Blanks.of_skip behind
    dsimp only at hread
    split at hread
    · rename_i hclose
      cases hread
      rw [hclose] at hbefore
      refine ⟨ns ++ (us ++ (before ++ ['}'])), ?_, .lastMember hns hus hb⟩
      simp only [hbefore, List.append_assoc, List.singleton_append]
    · rename_i left hcomma
      obtain ⟨⟨others, last⟩, ho, he⟩ := Option.map_eq_some_iff.mp hread
      cases he
      obtain ⟨after, hafter, ha⟩ := Blanks.of_skip left
      obtain ⟨ws, hws, hs⟩ := members_used ho
      refine ⟨ns ++ (us ++ (before ++ ',' :: (after ++ ws))), ?_, .member hns hus hb ha hs⟩
      rw [hcomma, hafter, hws] at hbefore
      simp only [hbefore, List.append_assoc, List.cons_append]
    · cases hread

end

/-- A list of characters that is read as a document is a spelling of it, blanks around it aside. -/
theorem Spells.of_ofChars? {limits : Limits} {cs : List Char} {v : Value}
    (h : Value.ofChars? limits cs = some v) :
    ∃ before used after, cs = before ++ (used ++ after) ∧ Blanks before ∧ Blanks after ∧
      Spells limits limits.depth (.value v) used := by
  obtain ⟨⟨read, left⟩, hv, hread⟩ := Option.bind_eq_some_iff.mp h
  dsimp only at hread
  split at hread
  · rename_i hend
    cases hread
    obtain ⟨before, hbefore, hb⟩ := Blanks.of_skip cs
    obtain ⟨used, hused, hs⟩ := value_used hv
    obtain ⟨after, hafter, ha⟩ := Blanks.of_skip left
    rw [List.isEmpty_iff.mp hend, List.append_nil] at hafter
    refine ⟨before, used, left, ?_, hb, ?_, hs⟩
    · rw [← hused]
      exact hbefore
    · rw [hafter]
      exact ha
  · cases hread

end AccessPolicy.Json.Grammar
