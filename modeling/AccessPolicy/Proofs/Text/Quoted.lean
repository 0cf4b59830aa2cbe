import AccessPolicy.Proofs.Text.Delimited
import AccessPolicy.Proofs.Text.Hex
import AccessPolicy.Text.Quoted

/-!
# Reading quoted texts

Between the marks every character is read back from what is written for it, and the mark itself is
never written there on its own. So a quoted text ends where its mark comes again, and it shows which
text was quoted. All that it consists of is printable.
-/

namespace AccessPolicy.Text.Quoted

/-! ## Reading a character -/

/-- Reads a character by its code point, given in so many digits. -/
def numbered? (width : Nat) (cs : List Char) : Option (Char × List Char) :=
  (Hex.value? 0 (cs.take width)).map fun code => (Char.ofNat code, cs.drop width)

/-- Reads what comes after a backslash. -/
def escaped? : List Char → Option (Char × List Char)
  | [] => none
  | c :: rest =>
    if c = 'n' then some ('\n', rest)
    else if c = 'r' then some ('\r', rest)
    else if c = 't' then some ('\t', rest)
    else if c = 'x' then numbered? 2 rest
    else if c = 'u' then numbered? 4 rest
    else if c = 'U' then numbered? 8 rest
    else some (c, rest)

/-- Reads a character from between the marks, and gives what comes after it. -/
def unescape? : List Char → Option (Char × List Char)
  | [] => none
  | c :: rest => if c = '\\' then escaped? rest else some (c, rest)

/-- A character is read by its code point if the digits are enough for it. -/
theorem numbered?_fixed {width : Nat} {c : Char} (h : c.toNat < 16 ^ width) (rest : List Char) :
    numbered? width (Hex.fixed width c.toNat ++ rest) = some (c, rest) := by
  have hlength := Hex.length_fixed width c.toNat
  rw [numbered?, List.take_left' hlength, List.drop_left' hlength, Hex.value?_fixed, Nat.zero_mul,
    Nat.zero_add, Nat.mod_eq_of_lt h, Option.map_some, Char.ofNat_toNat]

/-- A character is read back from its code point. -/
theorem unescape?_codePoint (c : Char) (rest : List Char) :
    unescape? (codePoint c ++ rest) = some (c, rest) := by
  have hsize : c.toNat < 16 ^ 8 := c.val.toNat_lt
  unfold codePoint
  split
  · rename_i h
    exact numbered?_fixed h rest
  · split
    · rename_i h
      exact numbered?_fixed h rest
    · exact numbered?_fixed hsize rest

/-- The marks that are put around texts. -/
def IsMark (mark : Char) : Prop := mark = apostrophe ∨ mark = '"'

/-- The mark around a text is one of the two. -/
theorem isMark_mark (cs : List Char) : IsMark (mark cs) := by
  unfold mark
  split
  · exact .inr rfl
  · exact .inl rfl

/-- Every character is read back from what is written for it between marks. -/
theorem unescape?_escape {mark : Char} (hm : IsMark mark) (c : Char) (rest : List Char) :
    unescape? (escape mark c ++ rest) = some (c, rest) := by
  unfold escape
  split
  · rename_i h
    rcases hm with rfl | rfl <;> rcases h with rfl | rfl <;> rfl
  · rename_i h
    split
    · rename_i hc
      rw [hc]
      rfl
    · split
      · rename_i hc
        rw [hc]
        rfl
      · split
        · rename_i hc
          rw [hc]
          rfl
        · split
          · exact if_neg fun hc => h (.inr hc)
          · exact unescape?_codePoint c rest

/-- What is written for a character does not begin with the mark. -/
theorem escape_append_ne {mark : Char} (hm : IsMark mark) (c : Char) (rest rest' : List Char) :
    escape mark c ++ rest ≠ mark :: rest' := by
  intro h
  have hmark : '\\' ≠ mark := by
    rcases hm with rfl | rfl <;> decide
  have hread := unescape?_escape hm c rest
  rw [h, unescape?, if_neg hmark.symm, Option.some.injEq, Prod.mk.injEq] at hread
  rw [← hread.1, escape, if_pos (Or.inl rfl)] at h
  exact hmark (List.cons.inj h).1

/-! ## Reading a text -/

/-- What stands between the marks ends where the mark comes again. -/
theorem escapes_append_inj {mark : Char} (hm : IsMark mark) {cs ds rest rest' : List Char}
    (h : cs.flatMap (escape mark) ++ mark :: rest = ds.flatMap (escape mark) ++ mark :: rest') :
    cs = ds ∧ rest = rest' := by
  induction cs generalizing ds with
  | nil =>
    cases ds with
    | nil => exact ⟨rfl, (List.cons.inj h).2⟩
    | cons d ds =>
      rw [List.flatMap_cons, List.append_assoc] at h
      exact absurd h.symm (escape_append_ne hm d _ rest)
  | cons c cs ih =>
    rw [List.flatMap_cons, List.append_assoc] at h
    cases ds with
    | nil => exact absurd h (escape_append_ne hm c _ rest')
    | cons d ds =>
      rw [List.flatMap_cons, List.append_assoc] at h
      have hread := unescape?_escape hm c (cs.flatMap (escape mark) ++ mark :: rest)
      rw [h, unescape?_escape hm, Option.some.injEq, Prod.mk.injEq] at hread
      obtain ⟨hcs, hrest⟩ := ih hread.2.symm
      exact ⟨by rw [hread.1, hcs], hrest⟩

/-- A quoted list of characters shows where it ends and what was quoted. -/
theorem encode_append_inj {cs ds rest rest' : List Char}
    (h : encode cs ++ rest = encode ds ++ rest') : cs = ds ∧ rest = rest' := by
  simp only [encode, List.cons_append, List.append_assoc, List.nil_append, List.cons.injEq] at h
  rw [h.1] at h
  exact escapes_append_inj (isMark_mark ds) h.2

/-! ## Printable characters -/

open Printable (isPrintable)

/-- The characters from the space to the tilde are printable. -/
theorem isPrintable_of_ascii {c : Char} (hlow : 0x20 ≤ c.toNat) (hhigh : c.toNat ≤ 0x7e) :
    isPrintable c = true := by
  have h := Printable.isPrintable_ascii c.toNat (by omega)
  rw [Char.ofNat_toNat] at h
  rw [h, decide_eq_true hlow, decide_eq_true hhigh]
  rfl

/-- Hexadecimal digits are printable. -/
theorem isPrintable_of_mem_fixed {width value : Nat} {c : Char} (h : c ∈ Hex.fixed width value) :
    isPrintable c = true := by
  have hdigits : ∀ digit, digit < 16 →
      0x20 ≤ (Nat.digitChar digit).toNat ∧ (Nat.digitChar digit).toNat ≤ 0x7e := by
    decide
  induction width generalizing value with
  | zero => exact absurd h List.not_mem_nil
  | succ width ih =>
    rcases List.mem_append.mp h with hc | hc
    · exact ih hc
    · obtain ⟨hlow, hhigh⟩ := hdigits (value % 16) (Nat.mod_lt _ (by decide))
      rw [List.mem_singleton.mp hc]
      exact isPrintable_of_ascii hlow hhigh

/-- What follows a backslash and is printable is printable with it. -/
theorem isPrintable_backslash_cons {cs : List Char} (h : ∀ c ∈ cs, isPrintable c = true) :
    ∀ c ∈ '\\' :: cs, isPrintable c = true :=
  List.forall_mem_cons.mpr ⟨isPrintable_of_ascii (by decide) (by decide), h⟩

/-- A backslash and a letter from the space to the tilde are printable. -/
theorem isPrintable_named {letter : Char} (hlow : 0x20 ≤ letter.toNat)
    (hhigh : letter.toNat ≤ 0x7e) : ∀ c ∈ ['\\', letter], isPrintable c = true :=
  isPrintable_backslash_cons (List.forall_mem_singleton.mpr (isPrintable_of_ascii hlow hhigh))

/-- A backslash, a letter from the space to the tilde and digits are printable. -/
theorem isPrintable_numbered {letter : Char} (hlow : 0x20 ≤ letter.toNat)
    (hhigh : letter.toNat ≤ 0x7e) (width value : Nat) :
    ∀ c ∈ '\\' :: letter :: Hex.fixed width value, isPrintable c = true :=
  isPrintable_backslash_cons (List.forall_mem_cons.mpr
    ⟨isPrintable_of_ascii hlow hhigh, fun _ => isPrintable_of_mem_fixed⟩)

/-- A character is given by its code point in printable characters. -/
theorem isPrintable_codePoint (c : Char) : ∀ d ∈ codePoint c, isPrintable d = true := by
  unfold codePoint
  split
  · exact isPrintable_numbered (by decide) (by decide) 2 c.toNat
  · split
    · exact isPrintable_numbered (by decide) (by decide) 4 c.toNat
    · exact isPrintable_numbered (by decide) (by decide) 8 c.toNat

/-- The marks are printable. -/
theorem IsMark.isPrintable {mark : Char} (hm : IsMark mark) : isPrintable mark = true := by
  rcases hm with rfl | rfl <;> exact isPrintable_of_ascii (by decide) (by decide)

/-- What is written for a character between marks is printable. -/
theorem isPrintable_escape {mark : Char} (hm : IsMark mark) (c : Char) :
    ∀ d ∈ escape mark c, isPrintable d = true := by
  unfold escape
  split
  · rename_i h
    rcases h with rfl | rfl
    · exact isPrintable_backslash_cons (List.forall_mem_singleton.mpr hm.isPrintable)
    · exact isPrintable_named (by decide) (by decide)
  · split
    · exact isPrintable_named (by decide) (by decide)
    · split
      · exact isPrintable_named (by decide) (by decide)
      · split
        · exact isPrintable_named (by decide) (by decide)
        · split
          · rename_i h
            exact List.forall_mem_singleton.mpr h
          · exact isPrintable_codePoint c

/-- A quoted list of characters is printable, whatever the characters are. -/
theorem isPrintable_encode (cs : List Char) : ∀ c ∈ encode cs, isPrintable c = true := by
  have hm := isMark_mark cs
  simp only [encode, List.cons_append, List.mem_cons, List.mem_append, List.mem_flatMap,
    List.not_mem_nil, or_false]
  rintro d (rfl | ⟨c, _, hd⟩ | rfl)
  · exact hm.isPrintable
  · exact isPrintable_escape hm c d hd
  · exact hm.isPrintable

end AccessPolicy.Text.Quoted

namespace AccessPolicy.Text

/-- Quoted texts are delimited. -/
theorem isDelimited_quoted : IsDelimited quoted := by
  intro s t rest rest' h
  have hchars := congrArg String.toList h
  simp only [quoted, String.toList_append, String.toList_ofList] at hchars
  obtain ⟨hs, hrest⟩ := Quoted.encode_append_inj hchars
  exact ⟨String.toList_inj.mp hs, String.toList_inj.mp hrest⟩

/-- A quoted text is printable, whatever the text is. -/
theorem isPrintable_quoted (s : String) :
    ∀ c ∈ (quoted s).toList, Printable.isPrintable c = true := by
  rw [quoted, String.toList_ofList]
  exact Quoted.isPrintable_encode s.toList

end AccessPolicy.Text
