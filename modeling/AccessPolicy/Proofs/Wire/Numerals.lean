import AccessPolicy.Proofs.Json.Written
import AccessPolicy.Wire.Numeral

/-!
# Spellings of loose numerals

A loose numeral is spelled with a sign, zeros that lead, digits in groups and a fraction of zeros,
of which only the digits must be there. Any underscores may stand among the zeros that lead, but in
the digits at most one between two of them. There is one other spelling that is read, in which a
minus sign stands behind the zeros.
-/

namespace AccessPolicy.Wire.Numeral

open Json.Grammar (Run Sign)
open Json.Reader (natural signed)

/-! ## Spellings -/

/-- The ways to write digits with at most one underscore between two of them. -/
inductive Grouped : List Char → List Char → Prop where
  | single {c : Char} (hc : c.isDigit = true) : Grouped [c] [c]
  | next {c : Char} {run cs : List Char} (hc : c.isDigit = true) (h : Grouped run cs) :
      Grouped (c :: run) (c :: cs)
  | apart {c : Char} {run cs : List Char} (hc : c.isDigit = true) (h : Grouped run cs) :
      Grouped (c :: run) (c :: '_' :: cs)

/-- Zeros that lead, with any underscores among them and behind them. -/
inductive Leading : List Char → Prop where
  | absent : Leading []
  | zeros {cs : List Char} (h : ∀ c ∈ cs, c = '0' ∨ c = '_') : Leading ('0' :: cs)

/-- A fraction of zeros, which may be absent. -/
inductive ZeroFraction : List Char → Prop where
  | absent : ZeroFraction []
  | zeros (count : Nat) : ZeroFraction ('.' :: List.replicate (count + 1) '0')

/-- The spellings of an integer: a sign, zeros that lead, digits and a fraction of zeros. -/
inductive Spells : Int → List Char → Prop where
  | intro {negative : Bool} {sign zeros run digits fraction : List Char} (hs : Sign negative sign)
      (hz : Leading zeros) (hd : Grouped run digits) (hf : ZeroFraction fraction) :
      Spells (signed negative run) (sign ++ (zeros ++ (digits ++ fraction)))

/-- The spellings of an integer with its minus sign behind zeros. There is no other minus sign in
front of these, and no zero leads behind it. -/
inductive SpellsLate : Int → List Char → Prop where
  | intro {sign zeros gap run digits fraction : List Char} (hs : Sign false sign)
      (hz : Leading zeros) (hne : zeros ≠ []) (hg : gap = [] ∨ gap = ['_'])
      (hd : Grouped run digits) (hp : isPlain run = true) (hf : ZeroFraction fraction) :
      SpellsLate (signed true run) (sign ++ (zeros ++ '-' :: (gap ++ (digits ++ fraction))))

/-! ## Digits in groups -/

/-- A digit is not an underscore. -/
private theorem ne_underscore {c : Char} (h : c.isDigit = true) : c ≠ '_' := by
  rintro rfl
  exact absurd h (by decide)

/-- Digits in groups start with a digit. -/
theorem Grouped.exists_head {run cs : List Char} (h : Grouped run cs) :
    ∃ c run' cs', c.isDigit = true ∧ run = c :: run' ∧ cs = c :: cs' := by
  cases h with
  | single hc | next hc _ | apart hc _ => exact ⟨_, _, _, hc, rfl, rfl⟩

/-- What remains without the underscores if they are where they may be. -/
private theorem ungrouped?_eq_some_iff {run cs : List Char} :
    ungrouped? cs = some run ↔ isGrouped cs = true ∧ cs.filter (· ≠ '_') = run := by
  rw [ungrouped?, Option.ite_none_right_eq_some, Option.some.injEq]

/-- What is not an underscore remains. -/
private theorem filter_cons {c : Char} (h : c ≠ '_') (cs : List Char) :
    (c :: cs).filter (· ≠ '_') = c :: cs.filter (· ≠ '_') := by
  simp [h]

/-- An underscore does not remain. -/
private theorem filter_underscore (cs : List Char) :
    ('_' :: cs).filter (· ≠ '_') = cs.filter (· ≠ '_') := by
  simp

/-- In front of digits in groups there may be anything but an underscore. -/
private theorem isGrouped_cons {c : Char} (hc : c ≠ '_') {run cs : List Char} (h : Grouped run cs) :
    isGrouped (c :: cs) = isGrouped cs := by
  obtain ⟨d, run', cs', hd, rfl, rfl⟩ := h.exists_head
  rw [isGrouped, decide_eq_true hc, Bool.true_and]
  · exact List.cons_ne_nil d cs'
  · rintro _ ⟨⟩
    exact absurd hd (by decide)

/-- An underscore may follow anything else. -/
private theorem isGrouped_underscore {c : Char} (hc : c ≠ '_') (cs : List Char) :
    isGrouped (c :: '_' :: cs) = isGrouped cs := by
  rw [isGrouped, decide_eq_true hc, Bool.true_and]

/-- Digits in groups have their underscores where they may be. -/
private theorem Grouped.isGrouped {run cs : List Char} (h : Grouped run cs) :
    isGrouped cs = true := by
  induction h with
  | single hc => exact decide_eq_true (ne_underscore hc)
  | next hc h ih => rw [isGrouped_cons (ne_underscore hc) h, ih]
  | apart hc _ ih => rw [isGrouped_underscore (ne_underscore hc), ih]

/-- The digits of digits in groups. -/
private theorem Grouped.filter_eq {run cs : List Char} (h : Grouped run cs) :
    cs.filter (· ≠ '_') = run ∧ ∀ c ∈ run, c.isDigit = true := by
  induction h with
  | single hc =>
    rw [filter_cons (ne_underscore hc)]
    exact ⟨rfl, List.forall_mem_singleton.mpr hc⟩
  | next hc _ ih =>
    rw [filter_cons (ne_underscore hc), ih.1]
    exact ⟨rfl, List.forall_mem_cons.mpr ⟨hc, ih.2⟩⟩
  | apart hc _ ih =>
    rw [filter_cons (ne_underscore hc), filter_underscore, ih.1]
    exact ⟨rfl, List.forall_mem_cons.mpr ⟨hc, ih.2⟩⟩

/-- If what remains without the underscores is digits, then these are in groups. -/
private theorem grouped_of_isGrouped {cs : List Char} (h : isGrouped cs = true)
    (hdigits : ∀ c ∈ cs.filter (· ≠ '_'), c.isDigit = true) :
    Grouped (cs.filter (· ≠ '_')) cs := by
  fun_induction isGrouped cs with
  | case1 => cases h
  | case2 c =>
    have hne : c ≠ '_' := of_decide_eq_true h
    rw [filter_cons hne] at hdigits ⊢
    exact .single (hdigits c List.mem_cons_self)
  | case3 c rest ih =>
    obtain ⟨hne, hrest⟩ := Bool.and_eq_true_iff.mp h
    rw [filter_cons (of_decide_eq_true hne), filter_underscore] at hdigits ⊢
    rw [List.forall_mem_cons] at hdigits
    exact .apart hdigits.1 (ih hrest hdigits.2)
  | case4 c rest _ _ ih =>
    obtain ⟨hne, hrest⟩ := Bool.and_eq_true_iff.mp h
    rw [filter_cons (of_decide_eq_true hne)] at hdigits ⊢
    rw [List.forall_mem_cons] at hdigits
    exact .next hdigits.1 (ih hrest hdigits.2)

/-- Digits in groups are what leaves digits without the underscores. -/
theorem grouped_iff {run cs : List Char} :
    Grouped run cs ↔ ungrouped? cs = some run ∧ ∀ c ∈ run, c.isDigit = true := by
  rw [ungrouped?_eq_some_iff]
  constructor
  · intro h
    exact ⟨⟨h.isGrouped, h.filter_eq.1⟩, h.filter_eq.2⟩
  · rintro ⟨⟨hgrouped, rfl⟩, hdigits⟩
    exact grouped_of_isGrouped hgrouped hdigits

/-- Digits without underscores are digits in groups. -/
theorem Grouped.of_run {run : List Char} (h : Run run) : Grouped run run :=
  grouped_iff.mpr ⟨ungrouped?_of_digits h.1 h.2, h.2⟩

/-! ## Zeros that lead -/

/-- What leads stands among zeros that lead. -/
private theorem Leading.isPadding {zeros : List Char} (h : Leading zeros) :
    ∀ c ∈ zeros, isPadding c = true := by
  cases h with
  | absent => exact List.forall_mem_nil _
  | zeros h =>
    refine List.forall_mem_cons.mpr ⟨rfl, fun c hc => ?_⟩
    rcases h c hc with rfl | rfl <;> rfl

/-- The front of characters that start with a zero leads if all of it may stand among zeros that
lead. -/
private theorem leading_of_prefix {front cs : List Char} (hfront : front <+: cs)
    (hzero : cs.head? = some '0') (h : ∀ c ∈ front, isPadding c = true) : Leading front := by
  cases front with
  | nil => exact .absent
  | cons c front =>
    obtain ⟨behind, rfl⟩ := hfront
    cases hzero
    refine .zeros fun d hd => ?_
    simpa [isPadding] using h d (List.mem_cons_of_mem _ hd)

/-- A zero in front of digits does not count. -/
private theorem natural_zero (run : List Char) : natural ('0' :: run) = natural run := by
  rw [natural, Nat.ofDigitChars_cons]
  rfl

/-- A plain run of digits is a single one or starts with another than zero. -/
private theorem isPlain_iff {run : List Char} : isPlain run = true ↔
    Run run ∧ (run.length = 1 ∨ run.head? ≠ some '0') := by
  simp [isPlain, Run, and_assoc]

/-- Digits in groups of which the first is not zero have no zeros that lead. -/
private theorem Grouped.exists_kept {run cs : List Char} (h : Grouped run cs)
    (hzero : run.head? ≠ some '0') : ∃ kept, Grouped kept (cs.dropWhile isPadding) ∧
      kept.head? ≠ some '0' ∧ natural kept = natural run := by
  obtain ⟨c, run', cs', hc, rfl, rfl⟩ := h.exists_head
  have hne : c ≠ '0' := mt (congrArg some) hzero
  rw [List.dropWhile_cons_of_neg (by simp [isPadding, hne, ne_underscore hc])]
  exact ⟨c :: run', h, hzero, rfl⟩

/-- Without the zeros that lead and their underscores, digits in groups are nothing if all of them
are zeros, and else still digits in groups, of which the first is not zero. -/
private theorem Grouped.dropWhile {run cs : List Char} (h : Grouped run cs) :
    (cs.dropWhile isPadding = [] ∧ cs.getLast? = some '0' ∧ natural run = 0) ∨
      ∃ kept, Grouped kept (cs.dropWhile isPadding) ∧ kept.head? ≠ some '0' ∧
        natural kept = natural run := by
  induction h with
  | @single c hc =>
    by_cases hzero : c = '0'
    · subst hzero
      exact .inl ⟨rfl, rfl, rfl⟩
    · exact .inr ((Grouped.single hc).exists_kept (by simpa using hzero))
  | @next c run cs hc h ih =>
    by_cases hzero : c = '0'
    · subst hzero
      obtain ⟨d, run', cs', _, rfl, rfl⟩ := h.exists_head
      rw [List.dropWhile_cons_of_pos rfl, natural_zero, List.getLast?_cons_cons]
      exact ih
    · exact .inr ((Grouped.next hc h).exists_kept (by simpa using hzero))
  | @apart c run cs hc h ih =>
    by_cases hzero : c = '0'
    · subst hzero
      obtain ⟨d, run', cs', _, rfl, rfl⟩ := h.exists_head
      rw [List.dropWhile_cons_of_pos rfl, List.dropWhile_cons_of_pos rfl, natural_zero,
        List.getLast?_cons_cons, List.getLast?_cons_cons]
      exact ih
    · exact .inr ((Grouped.apart hc h).exists_kept (by simpa using hzero))

/-- Digits in groups of which the first is not zero are plain without the underscores. -/
private theorem Grouped.isPlain {run cs : List Char} (h : Grouped run cs)
    (hzero : run.head? ≠ some '0') : isPlain run = true := by
  obtain ⟨c, run', cs', _, hrun, _⟩ := h.exists_head
  have hne : run ≠ [] := hrun ▸ List.cons_ne_nil c run'
  exact isPlain_iff.mpr ⟨⟨hne, h.filter_eq.2⟩, .inr hzero⟩

/-- Without the zeros that lead, zeros and digits in groups behind them are a plain run of digits in
groups for the same number. -/
theorem withoutLeadingZeros_append {zeros run digits : List Char} (hz : Leading zeros)
    (hd : Grouped run digits) : ∃ kept, Grouped kept (withoutLeadingZeros (zeros ++ digits)) ∧
      isPlain kept = true ∧ natural kept = natural run := by
  rw [withoutLeadingZeros]
  by_cases hhead : (zeros ++ digits).head? = some '0'
  · rw [if_pos hhead, List.dropWhile_append_of_pos hz.isPadding]
    rcases hd.dropWhile with ⟨hnil, hlast, hvalue⟩ | ⟨kept, hkept, hzero, hvalue⟩
    · -- the last zero stays
      rw [hnil, List.getLast?_append, hlast]
      exact ⟨['0'], .single rfl, rfl, hvalue.symm⟩
    · obtain ⟨c, run', cs', _, _, hcs⟩ := hkept.exists_head
      rw [hcs] at hkept ⊢
      exact ⟨kept, hkept, hkept.isPlain hzero, hvalue⟩
  · cases hz with
    | absent =>
      obtain ⟨c, run', cs', _, rfl, rfl⟩ := hd.exists_head
      rw [if_neg hhead]
      exact ⟨c :: run', hd, hd.isPlain hhead, rfl⟩
    | zeros _ => exact absurd rfl hhead

/-- What the zeros that lead are dropped from is zeros that lead and the rest. -/
theorem exists_leading (cs : List Char) :
    ∃ zeros, Leading zeros ∧ cs = zeros ++ withoutLeadingZeros cs := by
  rw [withoutLeadingZeros]
  by_cases hzero : cs.head? = some '0'
  · rw [if_pos hzero]
    split
    · rename_i hnil
      have hne : cs ≠ [] := by
        rintro rfl
        cases hzero
      refine ⟨cs.dropLast, leading_of_prefix (List.dropLast_prefix cs) hzero ?_, ?_⟩
      · exact fun c hc => List.dropWhile_eq_nil_iff.mp hnil c (List.dropLast_subset cs hc)
      · rw [List.getLast?_eq_some_getLast hne, Option.toList_some, List.dropLast_concat_getLast hne]
    · exact ⟨cs.takeWhile isPadding, leading_of_prefix (List.takeWhile_prefix isPadding) hzero
        fun c => List.mem_takeWhile_imp, List.takeWhile_append_dropWhile.symm⟩
  · rw [if_neg hzero]
    exact ⟨[], .absent, rfl⟩

/-- Zeros that lead in front of a minus sign are dropped. -/
theorem withoutLeadingZeros_minus {zeros : List Char} (hz : Leading zeros) (cs : List Char) :
    withoutLeadingZeros (zeros ++ '-' :: cs) = '-' :: cs := by
  cases hz with
  | absent => rfl
  | zeros h =>
    rw [withoutLeadingZeros, List.cons_append, List.head?_cons, if_pos rfl, ← List.cons_append,
      List.dropWhile_append_of_pos (Leading.zeros h).isPadding,
      List.dropWhile_cons_of_neg (by decide)]

/-! ## Fractions of zeros -/

/-- Characters without a point lose only the fraction of zeros behind them. -/
theorem withoutZeroFraction_append {front fraction : List Char} (hpoint : '.' ∉ front)
    (hf : ZeroFraction fraction) : withoutZeroFraction (front ++ fraction) = front := by
  have hfront : ∀ c ∈ front, decide (c ≠ '.') = true := by
    intro c hc
    refine decide_eq_true ?_
    rintro rfl
    exact hpoint hc
  rw [withoutZeroFraction, List.dropWhile_append_of_pos hfront, List.takeWhile_append_of_pos hfront]
  cases hf with
  | absent => simp [isZeroFraction]
  | zeros count =>
    rw [List.dropWhile_cons_of_neg (by decide), List.takeWhile_cons_of_neg (by decide), if_pos,
      List.append_nil]
    simp [isZeroFraction, List.replicate_succ]

/-- A fraction of zeros is found from the first point on. -/
private theorem zeroFraction_dropWhile {cs : List Char}
    (h : isZeroFraction (cs.dropWhile (· ≠ '.')) = true) :
    ZeroFraction (cs.dropWhile (· ≠ '.')) := by
  have hpoint := List.head?_dropWhile_not (fun c => decide (c ≠ '.')) cs
  cases hcs : cs.dropWhile (· ≠ '.') with
  | nil => exact .absent
  | cons c zeros =>
    rw [hcs] at hpoint h
    have hc : c = '.' := by simpa using hpoint
    obtain ⟨hne, hzeros⟩ := Bool.and_eq_true_iff.mp h
    have hall : zeros = List.replicate zeros.length '0' := by
      refine List.eq_replicate_of_mem fun d hd => ?_
      exact of_decide_eq_true (List.all_eq_true.mp hzeros d hd)
    have hpos : zeros.length = zeros.length - 1 + 1 := by
      have hlength : 0 < zeros.length := List.length_pos_iff.mpr (by simpa using hne)
      omega
    rw [hc, hall, hpos]
    exact .zeros _

/-- What characters lose is a fraction of zeros. -/
theorem exists_zeroFraction (cs : List Char) :
    ∃ fraction, ZeroFraction fraction ∧ cs = withoutZeroFraction cs ++ fraction := by
  rw [withoutZeroFraction]
  split
  · rename_i hzeros
    exact ⟨_, zeroFraction_dropWhile hzeros, List.takeWhile_append_dropWhile.symm⟩
  · exact ⟨[], .absent, (List.append_nil cs).symm⟩

/-! ## Unsigned numerals -/

/-- There is no point in zeros that lead. -/
private theorem Leading.point_notMem {zeros : List Char} (h : Leading zeros) : '.' ∉ zeros :=
  fun hmem => absurd (h.isPadding '.' hmem) (by decide)

/-- There is no point in digits in groups. -/
private theorem Grouped.point_notMem {run cs : List Char} (h : Grouped run cs) : '.' ∉ cs := by
  intro hmem
  have hrun : '.' ∈ run := h.filter_eq.1 ▸ List.mem_filter.mpr ⟨hmem, by decide⟩
  exact absurd (h.filter_eq.2 '.' hrun) (by decide)

/-- An unsigned numeral loses its zeros and underscores, and keeps its number. -/
theorem exists_reduced? {zeros run digits fraction : List Char} (hz : Leading zeros)
    (hd : Grouped run digits) (hf : ZeroFraction fraction) :
    ∃ kept, reduced? (zeros ++ (digits ++ fraction)) = some kept ∧ isPlain kept = true ∧
      natural kept = natural run := by
  have hpoint : '.' ∉ zeros ++ digits := by
    rw [List.mem_append, not_or]
    exact ⟨hz.point_notMem, hd.point_notMem⟩
  obtain ⟨kept, hkept, hplain, hvalue⟩ := withoutLeadingZeros_append hz hd
  refine ⟨kept, ?_, hplain, hvalue⟩
  rw [reduced?, ← List.append_assoc, withoutZeroFraction_append hpoint hf]
  exact (grouped_iff.mp hkept).1

/-- What is left of characters was between zeros that lead and a fraction of zeros. -/
theorem of_reduced? {cs kept : List Char} (h : reduced? cs = some kept) :
    ∃ zeros inner fraction, Leading zeros ∧ ZeroFraction fraction ∧
      cs = zeros ++ (inner ++ fraction) ∧ ungrouped? inner = some kept := by
  obtain ⟨fraction, hf, hcs⟩ := exists_zeroFraction cs
  obtain ⟨zeros, hz, hfront⟩ := exists_leading (withoutZeroFraction cs)
  refine ⟨zeros, withoutLeadingZeros (withoutZeroFraction cs), fraction, hz, hf, ?_, h⟩
  rw [← List.append_assoc, ← hfront]
  exact hcs

/-- A minus sign with a plain run of digits is left of these in groups behind the sign, or behind an
underscore that follows it. -/
private theorem ungrouped?_minus_iff {run cs : List Char} (hr : Run run) :
    ungrouped? cs = some ('-' :: run) ↔ ∃ gap digits, (gap = [] ∨ gap = ['_']) ∧
      Grouped run digits ∧ cs = '-' :: (gap ++ digits) := by
  rw [ungrouped?_eq_some_iff]
  constructor
  · rintro ⟨hgrouped, hfilter⟩
    unfold isGrouped at hgrouped
    split at hgrouped
    · cases hgrouped
    · rw [filter_cons (of_decide_eq_true hgrouped)] at hfilter
      cases hfilter
      exact absurd rfl hr.1
    · obtain ⟨hne, hrest⟩ := Bool.and_eq_true_iff.mp hgrouped
      rw [filter_cons (of_decide_eq_true hne), filter_underscore] at hfilter
      cases hfilter
      exact ⟨['_'], _, .inr rfl, grouped_of_isGrouped hrest hr.2, rfl⟩
    · obtain ⟨hne, hrest⟩ := Bool.and_eq_true_iff.mp hgrouped
      rw [filter_cons (of_decide_eq_true hne)] at hfilter
      cases hfilter
      exact ⟨[], _, .inl rfl, grouped_of_isGrouped hrest hr.2, rfl⟩
  · rintro ⟨gap, digits, hgap, hd, rfl⟩
    have hminus : '-' ≠ '_' := by decide
    rcases hgap with rfl | rfl
    · rw [List.nil_append, isGrouped_cons hminus hd, filter_cons hminus, hd.filter_eq.1]
      exact ⟨hd.isGrouped, rfl⟩
    · rw [List.singleton_append, isGrouped_underscore hminus, filter_cons hminus, filter_underscore,
        hd.filter_eq.1]
      exact ⟨hd.isGrouped, rfl⟩

/-- An unsigned numeral with a minus sign behind its zeros becomes one with the sign in front. -/
theorem reduced?_minus {zeros gap run digits fraction : List Char} (hz : Leading zeros)
    (hg : gap = [] ∨ gap = ['_']) (hd : Grouped run digits) (hp : isPlain run = true)
    (hf : ZeroFraction fraction) :
    reduced? (zeros ++ '-' :: (gap ++ (digits ++ fraction))) = some ('-' :: run) := by
  have hgap : '.' ∉ gap := by rcases hg with rfl | rfl <;> decide
  have hpoint : '.' ∉ zeros ++ '-' :: (gap ++ digits) := by
    simp [hz.point_notMem, hgap, hd.point_notMem]
  have hcs : zeros ++ '-' :: (gap ++ (digits ++ fraction)) =
      (zeros ++ '-' :: (gap ++ digits)) ++ fraction := by
    simp only [List.append_assoc, List.cons_append]
  rw [reduced?, hcs, withoutZeroFraction_append hpoint hf, withoutLeadingZeros_minus hz,
    ungrouped?_minus_iff (isPlain_iff.mp hp).1]
  exact ⟨gap, digits, hg, hd, rfl⟩

/-! ## Signs -/

/-- A numeral is plain if it is a plain run of digits, with a minus sign in front or without. -/
theorem integer?_eq_some_iff {cs : List Char} {value : Int} :
    integer? cs = some value ↔ ∃ run, isPlain run = true ∧
      ((cs = run ∧ value = signed false run) ∨ (cs = '-' :: run ∧ value = signed true run)) := by
  have hunsigned : ∀ run n, unsigned? run = some n ↔ isPlain run = true ∧ n = natural run := by
    intro run n
    rw [unsigned?, Option.ite_none_right_eq_some, Option.some.injEq, eq_comm (a := n), natural]
  constructor
  · intro h
    unfold integer? at h
    split at h
    · obtain ⟨n, hn, rfl⟩ := Option.map_eq_some_iff.mp h
      obtain ⟨hp, rfl⟩ := (hunsigned _ _).mp hn
      exact ⟨_, hp, .inr ⟨rfl, rfl⟩⟩
    · obtain ⟨n, hn, rfl⟩ := Option.map_eq_some_iff.mp h
      obtain ⟨hp, rfl⟩ := (hunsigned _ _).mp hn
      exact ⟨_, hp, .inl ⟨rfl, rfl⟩⟩
  · rintro ⟨run, hp, ⟨rfl, rfl⟩ | ⟨rfl, rfl⟩⟩
    · unfold integer?
      split
      · exact absurd ((isPlain_iff.mp hp).1.2 '-' List.mem_cons_self) (by decide)
      · rw [(hunsigned _ _).mpr ⟨hp, rfl⟩]
        rfl
    · rw [integer?, (hunsigned _ _).mpr ⟨hp, rfl⟩]
      rfl

/-- Behind no sign or a plus sign, what starts with a digit is an unsigned numeral. -/
private theorem signed?_append {sign cs : List Char} (hs : Sign false sign)
    (h : ∃ c ∈ cs.head?, c.isDigit = true) : signed? (sign ++ cs) = reduced? cs := by
  obtain ⟨c, hc, hdigit⟩ := h
  obtain ⟨rest, rfl⟩ := List.head?_eq_some_iff.mp hc
  have hminus : '-' ≠ c := by
    rintro rfl
    exact absurd hdigit (by decide)
  have hplus : '+' ≠ c := by
    rintro rfl
    exact absurd hdigit (by decide)
  cases hs with
  | none =>
    rw [List.nil_append, signed?]
    · rintro _ ⟨⟩
      exact hminus rfl
    · rintro _ ⟨⟩
      exact hplus rfl
    · rintro _ ⟨⟩
      exact hplus rfl
  | plus =>
    rw [List.singleton_append, signed?]
    rintro _ ⟨⟩
    exact hminus rfl

/-- An unsigned numeral starts with a digit. -/
private theorem exists_digit {zeros run digits : List Char} (hz : Leading zeros)
    (hd : Grouped run digits) (fraction : List Char) :
    ∃ c ∈ (zeros ++ (digits ++ fraction)).head?, c.isDigit = true := by
  cases hz with
  | absent =>
    obtain ⟨c, run', cs', hc, rfl, rfl⟩ := hd.exists_head
    exact ⟨c, rfl, hc⟩
  | zeros _ => exact ⟨'0', rfl, rfl⟩

/-- What a numeral stands for is not longer than the numeral. -/
private theorem length_le_of_signed? {cs kept : List Char} (h : signed? cs = some kept) :
    kept.length ≤ cs.length := by
  have hreduced : ∀ {cs kept : List Char}, reduced? cs = some kept → kept.length ≤ cs.length := by
    intro cs kept h
    obtain ⟨zeros, inner, fraction, _, _, rfl, hinner⟩ := of_reduced? h
    obtain ⟨_, rfl⟩ := ungrouped?_eq_some_iff.mp hinner
    have hfilter := List.length_filter_le (· ≠ '_') inner
    simp only [List.length_append]
    omega
  unfold signed? at h
  split at h
  · obtain ⟨rest, hrest, rfl⟩ := Option.map_eq_some_iff.mp h
    exact Nat.succ_le_succ (hreduced hrest)
  · cases h
  · exact Nat.le_succ_of_le (hreduced h)
  · exact hreduced h

/-- The limit on plain numerals does not concern what a numeral within the limit stands for. -/
private theorem loose?_eq_bind {cs : List Char} (hshort : cs.length ≤ longest) :
    loose? cs = (signed? cs).bind integer? := by
  rw [loose?]
  cases h : signed? cs with
  | none => rfl
  | some kept =>
    have hlength := length_le_of_signed? h
    rw [Option.bind_some, Option.bind_some, plain?, if_neg (by omega)]

/-- What is read as an unsigned numeral behind no sign or a plus sign is spelled in one of the two
ways. -/
private theorem spells_of_reduced? {sign cs kept : List Char} {value : Int} (hs : Sign false sign)
    (hminus : cs.head? ≠ some '-') (h : reduced? cs = some kept)
    (hvalue : integer? kept = some value) :
    Spells value (sign ++ cs) ∨ SpellsLate value (sign ++ cs) := by
  obtain ⟨zeros, inner, fraction, hz, hf, rfl, hinner⟩ := of_reduced? h
  obtain ⟨run, hp, ⟨rfl, rfl⟩ | ⟨rfl, rfl⟩⟩ := integer?_eq_some_iff.mp hvalue
  · exact .inl (.intro hs hz (grouped_iff.mpr ⟨hinner, (isPlain_iff.mp hp).1.2⟩) hf)
  · obtain ⟨gap, digits, hg, hd, rfl⟩ := (ungrouped?_minus_iff (isPlain_iff.mp hp).1).mp hinner
    have hne : zeros ≠ [] := by
      rintro rfl
      exact hminus rfl
    rw [List.cons_append, List.append_assoc]
    exact .inr (.intro hs hz hne hg hd hp hf)

/-- A text that is not too long is a loose numeral of the integers that it spells in one of the two
ways. -/
theorem loose?_eq_some_iff {cs : List Char} (hshort : cs.length ≤ longest) {value : Int} :
    loose? cs = some value ↔ Spells value cs ∨ SpellsLate value cs := by
  rw [loose?_eq_bind hshort, Option.bind_eq_some_iff]
  constructor
  · rintro ⟨kept, hkept, hvalue⟩
    unfold signed? at hkept
    split at hkept
    · obtain ⟨rest, hrest, rfl⟩ := Option.map_eq_some_iff.mp hkept
      obtain ⟨run, hp, ⟨rfl, _⟩ | ⟨heq, rfl⟩⟩ := integer?_eq_some_iff.mp hvalue
      · exact absurd ((isPlain_iff.mp hp).1.2 '-' List.mem_cons_self) (by decide)
      · cases heq
        obtain ⟨zeros, inner, fraction, hz, hf, rfl, hinner⟩ := of_reduced? hrest
        have hd := grouped_iff.mpr ⟨hinner, (isPlain_iff.mp hp).1.2⟩
        exact .inl (.intro .minus hz hd hf)
    · cases hkept
    · rename_i rest hminus
      refine spells_of_reduced? .plus ?_ hkept hvalue
      intro hhead
      obtain ⟨behind, rfl⟩ := List.head?_eq_some_iff.mp hhead
      exact hminus _ rfl
    · rename_i hminus _ _
      refine spells_of_reduced? .none ?_ hkept hvalue
      intro hhead
      obtain ⟨behind, rfl⟩ := List.head?_eq_some_iff.mp hhead
      exact hminus _ rfl
  · rintro (@⟨negative, sign, zeros, run, digits, fraction, hs, hz, hd, hf⟩ |
      @⟨sign, zeros, gap, run, digits, fraction, hs, hz, hne, hg, hd, hp, hf⟩)
    · obtain ⟨kept, hkept, hplain, hvalue⟩ := exists_reduced? hz hd hf
      have hsame : ∀ negative, signed negative kept = signed negative run := by
        intro negative
        rw [signed, signed, hvalue]
      rw [← hsame]
      cases negative with
      | false =>
        rw [signed?_append hs (exists_digit hz hd fraction)]
        exact ⟨kept, hkept, integer?_eq_some_iff.mpr ⟨kept, hplain, .inl ⟨rfl, rfl⟩⟩⟩
      | true =>
        cases hs
        rw [List.singleton_append, signed?, hkept]
        exact ⟨_, rfl, integer?_eq_some_iff.mpr ⟨kept, hplain, .inr ⟨rfl, rfl⟩⟩⟩
    · have hdigit : ∃ c ∈ (zeros ++ '-' :: (gap ++ (digits ++ fraction))).head?,
          c.isDigit = true := by
        cases hz with
        | absent => exact absurd rfl hne
        | zeros _ => exact ⟨'0', rfl, rfl⟩
      rw [signed?_append hs hdigit]
      exact ⟨_, reduced?_minus hz hg hd hp hf, integer?_eq_some_iff.mpr ⟨run, hp, .inr ⟨rfl, rfl⟩⟩⟩

/-! ## Written integers and signs -/

/-- A written integer spells itself. -/
theorem spells_integer (value : Int) : Spells value (Json.Writer.integer value) := by
  have hsign : Sign (decide (value < 0)) (if decide (value < 0) then ['-'] else []) := by
    cases decide (value < 0) with
    | false => exact .none
    | true => exact .minus
  have hspells := Spells.intro hsign .absent (Grouped.of_run (Run.toDigits value.natAbs)) .absent
  rwa [Json.signed_toDigits, List.nil_append, List.append_nil, ← Json.integer_eq] at hspells

/-- A minus sign in front of a numeral without a sign negates it. -/
theorem spells_minus_iff {cs : List Char} {value : Int} (hplus : '+' ∉ cs) (hminus : '-' ∉ cs) :
    Spells (-value) ('-' :: cs) ↔ Spells value cs := by
  constructor
  · intro h
    generalize hvalue : -value = negated at h
    generalize htext : '-' :: cs = text at h
    obtain ⟨hs, hz, hd, hf⟩ := h
    cases hs with
    | none =>
      obtain ⟨c, hc, hdigit⟩ := exists_digit hz hd _
      rw [← List.nil_append (_ ++ (_ ++ _)), ← htext] at hc
      cases hc
      exact absurd hdigit (by decide)
    | plus => cases htext
    | minus =>
      cases htext
      have hpositive : value = signed false _ := Int.neg_inj.mp hvalue
      rw [hpositive]
      exact .intro .none hz hd hf
  · rintro ⟨hs, hz, hd, hf⟩
    cases hs with
    | none => exact .intro .minus hz hd hf
    | plus => exact absurd List.mem_cons_self hplus
    | minus => exact absurd List.mem_cons_self hminus

/-- A minus sign behind zeros is not in front. -/
theorem SpellsLate.minus_mem_tail {cs : List Char} {value : Int} (h : SpellsLate value cs) :
    '-' ∈ cs.tail := by
  obtain ⟨hs, hz, hne, _⟩ := h
  cases hs with
  | none =>
    cases hz with
    | absent => exact absurd rfl hne
    | zeros _ => simp
  | plus => simp

/-! ## Characters -/

/-- Whether a character occurs in numerals. -/
def isMark (c : Char) : Bool := c.isDigit || c = '_' || c = '.' || c = '+' || c = '-'

/-- A sign consists of marks. -/
private theorem isMark_of_sign {negative : Bool} {sign : List Char} (h : Sign negative sign) :
    ∀ c ∈ sign, isMark c = true := by
  cases h with
  | none => exact List.forall_mem_nil _
  | plus | minus => exact List.forall_mem_singleton.mpr rfl

/-- Zeros that lead consist of marks. -/
private theorem Leading.isMark {zeros : List Char} (h : Leading zeros) :
    ∀ c ∈ zeros, isMark c = true := by
  intro c hc
  have hpadding : c = '0' ∨ c = '_' := by
    simpa [Numeral.isPadding] using h.isPadding c hc
  rcases hpadding with rfl | rfl <;> rfl

/-- Digits in groups consist of marks. -/
private theorem Grouped.isMark {run digits : List Char} (h : Grouped run digits) :
    ∀ c ∈ digits, isMark c = true := by
  intro c hc
  by_cases hunderscore : c = '_'
  · rw [hunderscore]
    rfl
  · have hrun : c ∈ run := h.filter_eq.1 ▸ List.mem_filter.mpr ⟨hc, decide_eq_true hunderscore⟩
    simp [Numeral.isMark, h.filter_eq.2 c hrun]

/-- A fraction of zeros consists of marks. -/
private theorem ZeroFraction.isMark {fraction : List Char} (h : ZeroFraction fraction) :
    ∀ c ∈ fraction, isMark c = true := by
  cases h with
  | absent => exact List.forall_mem_nil _
  | zeros count =>
    refine List.forall_mem_cons.mpr ⟨rfl, fun c hc => ?_⟩
    rw [List.eq_of_mem_replicate hc]
    rfl

/-- A spelling consists of marks. -/
theorem Spells.isMark {cs : List Char} {value : Int} (h : Spells value cs) :
    ∀ c ∈ cs, isMark c = true := by
  obtain ⟨hs, hz, hd, hf⟩ := h
  simp only [List.forall_mem_append]
  exact ⟨isMark_of_sign hs, hz.isMark, hd.isMark, hf.isMark⟩

/-- A spelling with a minus sign behind zeros consists of marks. -/
theorem SpellsLate.isMark {cs : List Char} {value : Int} (h : SpellsLate value cs) :
    ∀ c ∈ cs, isMark c = true := by
  obtain @⟨_, _, gap, _, _, _, hs, hz, _, hg, hd, _, hf⟩ := h
  have hgap : ∀ c ∈ gap, Numeral.isMark c = true := by
    rcases hg with rfl | rfl <;> simp [Numeral.isMark]
  simp only [List.forall_mem_append, List.forall_mem_cons]
  exact ⟨isMark_of_sign hs, hz.isMark, rfl, hgap, hd.isMark, hf.isMark⟩

end AccessPolicy.Wire.Numeral
