import AccessPolicy.Proofs.Conversion.ReadBack
import AccessPolicy.Proofs.Session.Completeness
import AccessPolicy.Proofs.Session.Logging

/-!
# What comes of encoding

Encoding goes through the bindings of a policy one by one. It warns of a condition before it writes
the members, and it stops at the first binding with a member that has no text, so conditions after
this are not warned of. The etag is read after all bindings were written, and the record of success
is made last.
-/

namespace AccessPolicy

namespace Binding

/-- Whether every member of a binding has a text. -/
def IsWritable (format : Format) (binding : Binding) : Prop :=
  ∀ identity ∈ binding.members, (format identity).isSome = true

instance (format : Format) (binding : Binding) : Decidable (binding.IsWritable format) :=
  inferInstanceAs (Decidable (∀ identity ∈ binding.members, (format identity).isSome = true))

/-- The details on the members of a binding that have no text, one for each, by the order in which
the members come. -/
def unwritten (format : Format) (listing : Listing) (binding : Binding) : List Wire.Detail :=
  ((binding.listed listing).findIdxs fun identity => (format identity).isNone).map fun index =>
    ⟨.stringType, [.key "members", .index index]⟩

/-- There are details exactly on what is not writable. -/
theorem unwritten_eq_nil_iff {format : Format} {listing : Listing} {binding : Binding} :
    binding.unwritten format listing = [] ↔ binding.IsWritable format := by
  rw [unwritten, List.map_eq_nil_iff, List.findIdxs_eq_nil_iff]
  simp only [IsWritable, Option.isNone_eq_false_iff, (binding.listed_perm listing).mem_iff]

end Binding

namespace Conversion

variable {format : Format} {listing : Listing} {binding : Binding} {bindings before : List Binding}

/-- What is logged of bindings: those of their conditions that are not converted. -/
def dropped (bindings : List Binding) : List Entry :=
  (bindings.filter fun binding => binding.condition.isSome).map fun binding =>
    .dropped binding.roleName

/-- The warnings of the conditions of bindings. -/
def warnings (bindings : List Binding) : List Record :=
  (bindings.filter fun binding => binding.condition.isSome).map fun binding =>
    ⟨.warning, "condition on " ++ binding.roleName ++ " is not encoded; dropping it"⟩

/-- What is logged of bindings is what is logged of the first ones and then of the others. -/
theorem dropped_append (bindings others : List Binding) :
    dropped (bindings ++ others) = dropped bindings ++ dropped others := by
  simp only [dropped, List.filter_append, List.map_append]

/-- What is logged of a binding and of the bindings after it. -/
theorem dropped_cons (binding : Binding) (rest : List Binding) :
    dropped (binding :: rest) = warning binding ++ dropped rest := by
  simp only [dropped, warning, List.filter_cons]
  split <;> rfl

/-- With logging on, the warnings are seen. -/
theorem seen_dropped {logger : Logger} (hon : logger.on = true) (bindings : List Binding) :
    logger.seen (dropped bindings) = warnings bindings := by
  rw [Logger.seen, if_pos hon, dropped, warnings]
  induction bindings.filter fun binding => binding.condition.isSome with
  | nil => rfl
  | cons binding rest ih =>
    rw [List.map_cons, List.map_cons, Logger.records, ← ih]
    rfl

/-- Items that pass a test are picked out with their indices as the indices alone are. -/
private theorem map_filter_zipIdx {α β : Type} (p : α → Bool) (f : Nat → β) (items : List α)
    (start : Nat) :
    ((items.zipIdx start).filter fun (item, _) => p item).map (fun (_, index) => f index) =
      (items.findIdxs p start).map f := by
  induction items generalizing start with
  | nil => rfl
  | cons item rest ih =>
    rw [List.zipIdx_cons, List.filter_cons, List.findIdxs_cons]
    by_cases hp : p item = true
    · simp only [hp, if_true, List.map_cons, ih]
    · simp only [hp, Bool.false_eq_true, if_false, ih]

/-- The members without a text are those that there are details on. -/
theorem missingTexts_listed (format : Format) (listing : Listing) (binding : Binding) :
    missingTexts ((binding.listed listing).map format) = binding.unwritten format listing := by
  have hpicked := map_filter_zipIdx Option.isNone
    (fun index => (⟨.stringType, [.key "members", .index index]⟩ : Wire.Detail))
    ((binding.listed listing).map format) 0
  rw [List.findIdxs_map] at hpicked
  exact hpicked

/-- The text that a member of a writable binding has. -/
def textOf (format : Format) (identity : Identity) : String := (format identity).getD ""

/-- A binding whose members all have a text is encoded. -/
theorem encodeBinding_of_writable (h : binding.IsWritable format) (listing : Listing) :
    encodeBinding format binding listing = .ok (binding.written (textOf format)) := by
  have htexts : (binding.listed listing).map format =
      (binding.listed listing).map fun identity => some (textOf format identity) := by
    refine List.map_congr_left fun identity hm => ?_
    obtain ⟨text, ht⟩ :=
      Option.isSome_iff_exists.mp (h identity ((binding.listed_perm listing).mem_iff.mp hm))
    rw [textOf, ht]
    rfl
  rw [← encodeBinding_of_total (textOf format) binding listing]
  simp only [encodeBinding, htexts]

/-- Any other binding is refused with the details on its members without a text. -/
theorem encodeBinding_of_unwritable (h : ¬binding.IsWritable format) (listing : Listing) :
    encodeBinding format binding listing =
      .error (.invalid (binding.unwritten format listing)) := by
  rw [encodeBinding, missingTexts_listed]
  cases hdetails : binding.unwritten format listing with
  | nil => exact absurd (Binding.unwritten_eq_nil_iff.mp hdetails) h
  | cons detail rest => rfl

/-- Writable bindings are encoded, and then encoding goes on with what comes after them. -/
theorem encodeBindings_append (h : ∀ binding ∈ before, binding.IsWritable format)
    (rest : List Binding) (listing : Listing) :
    encodeBindings format (before ++ rest) listing =
      ⟨(encodeBindings format rest listing).result.map
          (before.map (Binding.written (textOf format)) ++ ·),
        dropped before ++ (encodeBindings format rest listing).log⟩ := by
  induction before with
  | nil =>
    cases hrest : encodeBindings format rest listing with
    | mk result log => cases result <;> simp [hrest, dropped, Except.map]
  | cons binding before ih =>
    rw [List.forall_mem_cons] at h
    rw [List.cons_append, encodeBindings, encodeBinding_of_writable h.1]
    simp only [ih h.2, dropped_cons, List.map_cons, List.append_assoc]
    cases (encodeBindings format rest listing).result <;> rfl

/-- Encoding writable bindings succeeds, and each condition is logged. -/
theorem encodeBindings_of_writable (h : ∀ binding ∈ bindings, binding.IsWritable format)
    (listing : Listing) :
    encodeBindings format bindings listing =
      ⟨.ok (bindings.map (Binding.written (textOf format))), dropped bindings⟩ := by
  have happend := encodeBindings_append h [] listing
  rw [List.append_nil] at happend
  rw [happend, encodeBindings, Except.map, List.append_nil, List.append_nil]

/-- Encoding stops at the first binding that is not writable, after its own condition is logged. -/
theorem encodeBindings_of_unwritable (h : ∀ earlier ∈ before, earlier.IsWritable format)
    (hb : ¬binding.IsWritable format) (after : List Binding) (listing : Listing) :
    encodeBindings format (before ++ binding :: after) listing =
      ⟨.error (.invalid (binding.unwritten format listing)), dropped (before ++ [binding])⟩ := by
  rw [encodeBindings_append h, encodeBindings, encodeBinding_of_unwritable hb, dropped_append,
    dropped_cons]
  simp only [Except.map, dropped, List.filter_nil, List.map_nil, List.append_nil]

/-- Encoding a policy stops at the first binding that is not writable as well. -/
theorem shown_encode_of_unwritable {policy : Policy} {after : List Binding}
    (hsplit : policy.bindings = before ++ binding :: after)
    (h : ∀ earlier ∈ before, earlier.IsWritable format) (hb : ¬binding.IsWritable format)
    {logger : Logger} (hon : logger.on = true) (listing : Listing) :
    logger.shown (encode format policy listing) =
      ⟨.error (.invalid (binding.unwritten format listing)), warnings (before ++ [binding])⟩ := by
  simp only [shown_encode, hsplit, encodeBindings_of_unwritable h hb, seen_dropped hon]

/-- Encoding writable bindings goes on with the etag, and then the entry is logged. -/
theorem shown_encode_of_writable {policy : Policy}
    (h : ∀ binding ∈ policy.bindings, binding.IsWritable format) {logger : Logger}
    (hon : logger.on = true) (listing : Listing) :
    logger.shown (encode format policy listing) =
      match encodeEtag policy.etag with
      | .error fault => ⟨.error fault, warnings policy.bindings⟩
      | .ok octets =>
        let entry : Entry := .encoded policy.version policy.bindings.length
        ⟨(logger.ending [entry]).bind fun _ =>
            .ok ⟨policy.version, policy.bindings.map (Binding.written (textOf format)), octets⟩,
          warnings policy.bindings ++ logger.seen [entry]⟩ := by
  simp only [shown_encode, encodeBindings_of_writable h, seen_dropped hon]
  cases encodeEtag policy.etag with
  | error fault => rfl
  | ok octets => simp only [List.length_map]

/-- With the texts of the identities, encoding fails only with an etag that is not Base64, or with a
version that cannot be written out. -/
theorem exists_etag_of_shown_encode_text {policy : Policy} {logger : Logger}
    (hon : logger.on = true) {fault : Fault}
    (h : (logger.shown (encode .text policy listing)).result = .error fault) :
    (∃ etag, policy.etag = some etag ∧ Base64.decodeStrict? etag.toList = none ∧
      fault = .etag etag) ∨
    ∃ most, Text.decimal logger.digits policy.version = .error most ∧ fault = .unwritable most := by
  rw [shown_encode_of_writable (fun _ _ _ _ => rfl) hon] at h
  cases hetag : encodeEtag policy.etag with
  | error refused =>
    rw [hetag] at h
    rw [Except.error.inj h] at hetag
    exact .inl (encodeEtag_eq_error_iff.mp hetag)
  | ok octets =>
    rw [hetag] at h
    cases hversion : Text.decimal logger.digits policy.version with
    | error most =>
      obtain ⟨hending, _⟩ := Logger.shown_entry_of_error hon
        (Entry.record_of_decimal_error hversion policy.bindings.length).2
      simp only [hending, Except.bind, Except.error.injEq] at h
      exact .inr ⟨most, rfl, h.symm⟩
    | ok text =>
      obtain ⟨hending, _⟩ := Logger.shown_entry_of_ok hon
        (Entry.record_of_decimal hversion policy.bindings.length).2
      simp only [hending, Except.bind, reduceCtorEq] at h

/-- A session in which every binding of a policy has a condition and its etag is not Base64. -/
private def conditional : List Step :=
  [.logging true,
    .construct "stored"
      (.given (some [.binding (.name "viewer") (some [.text "user:ann"]) (some {}),
        .binding (.name "editor") (some [.text "user:ben", .text "allUsers", .text "user:cy"])
          (some {}),
        .binding (.name "owner") (some [.text "allUsers"]) (some {})])) (some "!") 1]

/-- Every set the other way round. -/
private def backwards : Listing := ⟨fun identities => identities.toList.reverse, fun _ =>
  List.reverse_perm _⟩

end Conversion

end AccessPolicy
