import AccessPolicy.Proofs.Json.Completeness
import AccessPolicy.Proofs.Json.Language
import AccessPolicy.Proofs.Json.Soundness

/-!
# The reader recognizes the language

A word of the language is a spelling of a document and the other way round, by induction on the
depth and on the spelling. As the reader reads exactly the spellings, it reads exactly the words of
the language, each as the only document that it spells.
-/

namespace AccessPolicy.Json.Strict

open Grammar
open scoped Computability

variable {cs : List Char} {limits : Limits} {depth : Nat}

/-! ## From the language to the grammar -/

/-- The documents that hold no other are spelled at any depth. -/
private theorem exists_spells_of_mem_flat (h : cs ∈ flat limits) (depth : Nat) :
    ∃ v, Spells limits depth (.value v) cs := by
  rcases h with (((hliteral | hnumber) | htext) | harray) | hobject
  · have hall : ∀ cs ∈ literals, ∃ v, Spells limits depth (.value v) cs := by
      simp only [literals, List.forall_mem_cons]
      exact ⟨⟨_, .nullWord⟩, ⟨_, .trueWord⟩, ⟨_, .falseWord⟩, ⟨_, .number .notANumber⟩,
        ⟨_, .number .infinity⟩, ⟨_, .number .negativeInfinity⟩, List.forall_mem_nil _⟩
    exact hall cs hliteral
  · obtain ⟨negative, run, fs, es, fraction, exponent, hr, hi, hf, he, rfl⟩ :=
      mem_number_iff.mp hnumber
    exact ⟨_, .number (.numeral hr hi hf he)⟩
  · obtain ⟨t, ds, ht, rfl⟩ := mem_text_iff.mp htext
    exact ⟨_, .text ht⟩
  · obtain ⟨_, ⟨_, rfl, bs, hbs, rfl⟩, _, rfl, rfl⟩ := harray
    exact ⟨_, .emptyArray (mem_blanks_iff.mp hbs)⟩
  · obtain ⟨_, ⟨_, rfl, bs, hbs, rfl⟩, _, rfl, rfl⟩ := hobject
    exact ⟨_, .emptyObject (mem_blanks_iff.mp hbs)⟩

/-- The names of members with the colon behind them are those of the grammar. -/
private theorem mem_member_iff {l : Language Char} :
    cs ∈ member l ↔
      ∃ (name : String) (ns ds : List Char), Name name ns ∧ ds ∈ l ∧ cs = ns ++ ds := by
  simp only [member, Language.mem_mul, mem_text_iff, mem_blanks_iff]
  constructor
  · rintro ⟨_, ⟨_, ⟨_, ⟨_, ⟨name, ns, hname, rfl⟩, before, hb, rfl⟩, _, rfl, rfl⟩, after, ha, rfl⟩,
      ds, hds, rfl⟩
    refine ⟨name, _, ds, .intro hname hb ha, hds, ?_⟩
    simp
  · rintro ⟨name, _, ds, ⟨hname, hb, ha⟩, hds, rfl⟩
    refine ⟨_, ⟨_, ⟨_, ⟨_, ⟨name, _, hname, rfl⟩, _, hb, rfl⟩, _, rfl, rfl⟩, _, ha, rfl⟩, ds, hds,
      ?_⟩
    simp

/-- A sequence is spelled if its items are, whatever a single item and the ones before others
make up. -/
private theorem exists_of_mem_sequence {l : Language Char} {close : Char} {P : List Char → Prop}
    (hlast : ∀ item blanks, item ∈ l → Blanks blanks → P (item ++ (blanks ++ [close])))
    (hitem : ∀ item before after rest, item ∈ l → Blanks before → Blanks after → P rest →
      P (item ++ (before ++ ',' :: (after ++ rest))))
    (h : cs ∈ sequence l close) : P cs := by
  obtain ⟨_, ⟨first, hfirst, _, ⟨parts, rfl, hparts⟩, rfl⟩, _, ⟨bs, hbs, _, rfl, rfl⟩, rfl⟩ := h
  induction parts generalizing first with
  | nil =>
    have hp := hlast first bs hfirst (mem_blanks_iff.mp hbs)
    simpa using hp
  | cons part rest ih =>
    obtain ⟨hpart, hrest⟩ := List.forall_mem_cons.mp hparts
    obtain ⟨_, ⟨_, ⟨before, hb, _, rfl, rfl⟩, after, ha, rfl⟩, item, hi, rfl⟩ := hpart
    have hp := hitem first before after _ hfirst (mem_blanks_iff.mp hb) (mem_blanks_iff.mp ha)
      (ih item hi hrest)
    simpa using hp

/-- Every document of the language is spelled. -/
private theorem exists_spells_of_mem_value (h : cs ∈ value limits depth) :
    ∃ v, Spells limits depth (.value v) cs := by
  induction depth generalizing cs with
  | zero => exact exists_spells_of_mem_flat h 0
  | succ depth ih =>
    rcases h with (hflat | harray) | hobject
    · exact exists_spells_of_mem_flat hflat (depth + 1)
    · obtain ⟨_, ⟨_, rfl, bs, hbs, rfl⟩, ds, hds, rfl⟩ := harray
      have hitems : ∃ vs, Spells limits depth (.items vs) ds := by
        refine exists_of_mem_sequence (P := fun ds => ∃ vs, Spells limits depth (.items vs) ds)
          ?_ ?_ hds
        · intro item blanks hitem hb
          obtain ⟨v, hv⟩ := ih hitem
          exact ⟨_, .lastItem hv hb⟩
        · rintro item before after rest hitem hb ha ⟨vs, hvs⟩
          obtain ⟨v, hv⟩ := ih hitem
          exact ⟨_, .item hv hb ha hvs⟩
      obtain ⟨vs, hvs⟩ := hitems
      exact ⟨_, .array (mem_blanks_iff.mp hbs) hvs⟩
    · obtain ⟨_, ⟨_, rfl, bs, hbs, rfl⟩, ds, hds, rfl⟩ := hobject
      have hmembers : ∃ ms, Spells limits depth (.members ms) ds := by
        refine exists_of_mem_sequence (P := fun ds => ∃ ms, Spells limits depth (.members ms) ds)
          ?_ ?_ hds
        · intro item blanks hitem hb
          obtain ⟨name, ns, vs, hn, hvs, rfl⟩ := mem_member_iff.mp hitem
          obtain ⟨v, hv⟩ := ih hvs
          rw [List.append_assoc]
          exact ⟨_, .lastMember hn hv hb⟩
        · rintro item before after rest hitem hb ha ⟨ms, hms⟩
          obtain ⟨name, ns, vs, hn, hvs, rfl⟩ := mem_member_iff.mp hitem
          obtain ⟨v, hv⟩ := ih hvs
          rw [List.append_assoc]
          exact ⟨_, .member hn hv hb ha hms⟩
      obtain ⟨ms, hms⟩ := hmembers
      exact ⟨_, .object (mem_blanks_iff.mp hbs) hms⟩

/-! ## From the grammar to the language -/

/-- A document that holds no other is one at any depth. -/
private theorem mem_value_of_mem_flat (h : cs ∈ flat limits) : cs ∈ value limits depth := by
  cases depth with
  | zero => exact h
  | succ depth => exact .inl (.inl h)

/-- An item with its closing character is a sequence. -/
private theorem last_mem_sequence {l : Language Char} {close : Char} {item blanks : List Char}
    (hitem : item ∈ l) (hb : Blanks blanks) : item ++ (blanks ++ [close]) ∈ sequence l close := by
  refine Language.append_mem_mul ?_ (Language.append_mem_mul (mem_blanks_iff.mpr hb) (mem_word _))
  rw [← List.append_nil item]
  exact Language.append_mem_mul hitem (Language.nil_mem_kstar _)

/-- An item in front of a sequence makes a longer one. -/
private theorem item_mem_sequence {l : Language Char} {close : Char}
    {item before after rest : List Char} (hitem : item ∈ l) (hb : Blanks before)
    (ha : Blanks after) (hrest : rest ∈ sequence l close) :
    item ++ (before ++ ',' :: (after ++ rest)) ∈ sequence l close := by
  obtain ⟨_, ⟨next, hnext, others, hothers, rfl⟩, last, hlast, rfl⟩ := hrest
  have hpart : before ++ [','] ++ after ++ next ∈ blanks * word [','] * blanks * l :=
    Language.append_mem_mul (Language.append_mem_mul (Language.append_mem_mul
      (mem_blanks_iff.mpr hb) (mem_word _)) (mem_blanks_iff.mpr ha)) hnext
  have hmem : item ++ ((before ++ [','] ++ after ++ next) ++ others) ++ last ∈ sequence l close :=
    Language.append_mem_mul (Language.append_mem_mul hitem (append_mem_kstar hpart hothers)) hlast
  simpa using hmem

/-- The words of a part of a document. -/
private def part (limits : Limits) (depth : Nat) : Part → Language Char
  | .value _ => value limits depth
  | .items _ => sequence (value limits depth) ']'
  | .members _ => sequence (member (value limits depth)) '}'

/-- The words that are documents are such at any depth. -/
private theorem mem_value_of_mem_literals (h : cs ∈ literals) : cs ∈ value limits depth :=
  mem_value_of_mem_flat (.inl (.inl (.inl (.inl h))))

/-- The numbers of the grammar, the words for what is not finite among them, are documents. -/
private theorem mem_value_of_number {v : Value} (h : Number limits v cs) :
    cs ∈ value limits depth := by
  cases h with
  | notANumber => exact mem_value_of_mem_literals (by decide)
  | infinity => exact mem_value_of_mem_literals (by decide)
  | negativeInfinity => exact mem_value_of_mem_literals (by decide)
  | numeral hw hi hf he =>
    have hnumber := mem_number_iff.mpr ⟨_, _, _, _, _, _, hw, hi, hf, he, rfl⟩
    exact mem_value_of_mem_flat (.inl (.inl (.inl (.inr hnumber))))

/-- Every spelled part is in the language. -/
private theorem mem_part_of_spells {parsed : Part} (h : Spells limits depth parsed cs) :
    cs ∈ part limits depth parsed := by
  induction h with
  | nullWord => exact mem_value_of_mem_literals (by decide)
  | trueWord => exact mem_value_of_mem_literals (by decide)
  | falseWord => exact mem_value_of_mem_literals (by decide)
  | number hn => exact mem_value_of_number hn
  | text hc => exact mem_value_of_mem_flat (.inl (.inl (.inr (mem_text_iff.mpr ⟨_, _, hc, rfl⟩))))
  | emptyArray hb =>
    exact mem_value_of_mem_flat (.inl (.inr (Language.append_mem_mul
      (Language.append_mem_mul (mem_word ['[']) (mem_blanks_iff.mpr hb)) (mem_word [']']))))
  | emptyObject hb =>
    exact mem_value_of_mem_flat (.inr (Language.append_mem_mul
      (Language.append_mem_mul (mem_word ['{']) (mem_blanks_iff.mpr hb)) (mem_word ['}'])))
  | array hb hi ih =>
    exact .inl (.inr (Language.append_mem_mul
      (Language.append_mem_mul (mem_word ['[']) (mem_blanks_iff.mpr hb)) ih))
  | object hb hm ih =>
    exact .inr (Language.append_mem_mul
      (Language.append_mem_mul (mem_word ['{']) (mem_blanks_iff.mpr hb)) ih)
  | lastItem hv hb ih => exact last_mem_sequence ih hb
  | item hv hb ha hr ihv ihr => exact item_mem_sequence ihv hb ha ihr
  | lastMember hn hv hb ih =>
    rw [← List.append_assoc]
    exact last_mem_sequence (mem_member_iff.mpr ⟨_, _, _, hn, ih, rfl⟩) hb
  | member hn hv hb ha hr ihv ihr =>
    rw [← List.append_assoc]
    exact item_mem_sequence (mem_member_iff.mpr ⟨_, _, _, hn, ihv, rfl⟩) hb ha ihr

/-- The documents of the language are those that are spelled. -/
theorem mem_value_iff : cs ∈ value limits depth ↔ ∃ v, Spells limits depth (.value v) cs :=
  ⟨exists_spells_of_mem_value, fun ⟨_, h⟩ => mem_part_of_spells h⟩

end AccessPolicy.Json.Strict

namespace AccessPolicy.Json

open Grammar

variable {cs : List Char} {limits : Limits} {v w : Value}

/-! ## The reader -/

/-- Whether characters are a text of a document: a spelling of it, with blanks around it. -/
inductive Grammar.Document (limits : Limits) (v : Value) : List Char → Prop where
  | intro {before used after : List Char} (hb : Blanks before)
      (hs : Spells limits limits.depth (.value v) used) (ha : Blanks after) :
      Document limits v (before ++ (used ++ after))

/-- The reader reads a document exactly from its texts. -/
theorem Value.ofChars?_eq_some_iff : Value.ofChars? limits cs = some v ↔ Document limits v cs := by
  constructor
  · intro h
    obtain ⟨before, used, after, rfl, hb, ha, hs⟩ := Spells.of_ofChars? h
    exact .intro hb hs ha
  · rintro ⟨hb, hs, ha⟩
    exact hs.ofChars? hb ha

/-- No characters are texts of two documents. -/
theorem Grammar.Document.unique (hv : Document limits v cs) (hw : Document limits w cs) : v = w :=
  Option.some.inj ((Value.ofChars?_eq_some_iff.mpr hv).symm.trans
    (Value.ofChars?_eq_some_iff.mpr hw))

/-- The language consists of the texts of documents. -/
theorem Strict.mem_document_iff : cs ∈ Strict.document limits ↔ ∃ v, Document limits v cs := by
  simp only [Strict.document, mul_assoc, Language.mem_mul, mem_blanks_iff, mem_value_iff]
  constructor
  · rintro ⟨_, hb, _, ⟨_, ⟨v, hs⟩, _, ha, rfl⟩, rfl⟩
    exact ⟨v, .intro hb hs ha⟩
  · rintro ⟨v, ⟨hb, hs, ha⟩⟩
    exact ⟨_, hb, _, ⟨_, ⟨v, hs⟩, _, ha, rfl⟩, rfl⟩

/-- The reader reads nothing exactly from what is not in the language. -/
theorem Value.ofChars?_eq_none_iff :
    Value.ofChars? limits cs = none ↔ cs ∉ Strict.document limits := by
  rw [Strict.mem_document_iff, Option.eq_none_iff_forall_ne_some, not_exists]
  exact forall_congr' fun _ => not_congr Value.ofChars?_eq_some_iff

end AccessPolicy.Json
