import AccessPolicy.Conversion
import AccessPolicy.Proofs.Outcome
import AccessPolicy.Proofs.Text.Decimal

/-!
# Records of conversions

What is seen of a conversion is its result, unless a record cannot be made. This can happen only to
the record of a version with too many digits, and only if there is somebody to see it and a limit.
-/

namespace AccessPolicy

variable {α : Type} {logger : Logger} {outcome : Logged α} {log : List Entry}

/-- Whether no record was in the way of a result because it could not be made. -/
def Shown.isRendered (shown : Shown α) : Bool :=
  match shown.result with
  | .error (.unwritable _) => false
  | _ => true

/-- If a record cannot be made, then because a version cannot be written out. -/
theorem Entry.exists_unwritable_of_record {digits : Option Nat} {fault : Fault} (entry : Entry)
    (h : entry.record digits = .error fault) : ∃ most, fault = .unwritable most := by
  cases entry with
  | dropped role => cases h
  | _ =>
    rw [record, map_eq_error_iff] at h
    obtain ⟨most, _, rfl⟩ := mapError_eq_error_iff.mp h
    exact ⟨most, rfl⟩

/-- The record of a version that can be written out shows its text. -/
theorem Entry.record_of_decimal {digits : Option Nat} {version : Int} {text : String}
    (h : Text.decimal digits version = .ok text) (bindings : Nat) :
    (decoded version bindings).record digits = .ok (converted "decoded" text bindings) ∧
      (encoded version bindings).record digits = .ok (converted "encoded" text bindings) := by
  rw [record, record, h]
  exact ⟨rfl, rfl⟩

/-- There is no record of any other version. -/
theorem Entry.record_of_decimal_error {digits : Option Nat} {version : Int} {most : Nat}
    (h : Text.decimal digits version = .error most) (bindings : Nat) :
    (decoded version bindings).record digits = .error (.unwritable most) ∧
      (encoded version bindings).record digits = .error (.unwritable most) := by
  rw [record, record, h]
  exact ⟨rfl, rfl⟩

namespace Logger

/-- The records of two logs are those of the first one, and then those of the other if all of the
first ones could be made. -/
theorem records_append (logger : Logger) (log more : List Entry) :
    logger.records (log ++ more) =
      match logger.records log with
      | (records, .ok ()) =>
        (records ++ (logger.records more).1, (logger.records more).2)
      | (records, .error fault) => (records, .error fault) := by
  induction log with
  | nil => rfl
  | cons entry rest ih =>
    rw [List.cons_append, records, records, ih]
    cases entry.record logger.digits with
    | error fault => rfl
    | ok record =>
      cases hrest : logger.records rest with
      | mk records ending => cases ending <;> rfl

/-- The records of a log that somebody sees. -/
def seen (logger : Logger) (log : List Entry) : List Record :=
  if logger.on then (logger.records log).1 else []

/-- How it ends to show a log to somebody who wants to see it. -/
def ending (logger : Logger) (log : List Entry) : Except Fault Unit :=
  if logger.on then (logger.records log).2 else .ok ()

/-- What is seen of a conversion are the records of its log, and its result if all of these could be
made. -/
theorem shown_eq (logger : Logger) (outcome : Logged α) :
    logger.shown outcome =
      ⟨(logger.ending outcome.log).bind fun _ => outcome.result, logger.seen outcome.log⟩ := by
  rw [shown, ending, seen]
  cases logger.on <;> rfl

/-- A result that is seen is the result of the conversion. -/
theorem result_of_shown {value : α} (h : (logger.shown outcome).result = .ok value) :
    outcome.result = .ok value := by
  rw [shown_eq] at h
  obtain ⟨_, _, hresult⟩ := bind_eq_ok_iff.mp h
  exact hresult

/-- There is nothing to see of an empty log. -/
@[simp] theorem seen_nil (logger : Logger) : logger.seen [] = [] := by
  rw [seen]
  cases logger.on <;> rfl

@[simp] theorem ending_nil (logger : Logger) : logger.ending [] = .ok () := by
  rw [ending]
  cases logger.on <;> rfl

/-- A conversion that logs nothing is seen as it is. -/
theorem shown_of_log_eq_nil (logger : Logger) (result : Except Fault α) :
    logger.shown ⟨result, []⟩ = ⟨result, []⟩ := by
  rw [shown_eq, ending_nil, seen_nil]
  rfl

/-- The record of an entry is seen if it can be made. -/
theorem shown_entry_of_ok (hon : logger.on = true) {entry : Entry} {record : Record}
    (h : entry.record logger.digits = .ok record) :
    logger.ending [entry] = .ok () ∧ logger.seen [entry] = [record] := by
  simp only [ending, seen, hon, if_true, records, h, and_self]

/-- An entry whose record cannot be made is the end. -/
theorem shown_entry_of_error (hon : logger.on = true) {entry : Entry} {fault : Fault}
    (h : entry.record logger.digits = .error fault) :
    logger.ending [entry] = .error fault ∧ logger.seen [entry] = [] := by
  simp only [ending, seen, hon, if_true, records, h, and_self]

/-- If all records of a log can be made, then the ones after them are seen. -/
theorem seen_append (h : logger.ending log = .ok ()) (more : List Entry) :
    logger.seen (log ++ more) = logger.seen log ++ logger.seen more := by
  simp only [seen, ending] at h ⊢
  split at h
  · rename_i hon
    cases hrecords : logger.records log with
    | mk records ending =>
      rw [hrecords] at h
      cases h
      simp only [records_append, hrecords, hon, if_true]
  · rename_i hoff
    simp only [hoff, Bool.false_eq_true, if_false, List.append_nil]

/-- If all records of a log can be made, then those after them decide. -/
theorem ending_append (h : logger.ending log = .ok ()) (more : List Entry) :
    logger.ending (log ++ more) = logger.ending more := by
  simp only [ending] at h ⊢
  split at h
  · rename_i hon
    cases hrecords : logger.records log with
    | mk records ending =>
      rw [hrecords] at h
      cases h
      simp only [records_append, hrecords, hon, if_true]
  · rename_i hoff
    simp only [hoff, Bool.false_eq_true, if_false]

/-- The records of conditions that are not converted can be made. -/
theorem ending_of_dropped (h : ∀ entry ∈ log, ∃ role, entry = .dropped role) :
    logger.ending log = .ok () := by
  suffices hrecords : (logger.records log).2 = .ok () by
    rw [ending, hrecords, ite_self]
  induction log with
  | nil => rfl
  | cons entry rest ih =>
    rw [List.forall_mem_cons] at h
    obtain ⟨role, rfl⟩ := h.1
    exact ih h.2

/-- A record that cannot be made is one whose version cannot be written out, and then the log ends
with this. -/
theorem exists_unwritable_of_ending {fault : Fault} (h : logger.ending log = .error fault) :
    ∃ most, fault = .unwritable most := by
  rw [ending] at h
  split at h
  · induction log with
    | nil => cases h
    | cons entry rest ih =>
      rw [records] at h
      cases hentry : entry.record logger.digits with
      | error failed =>
        rw [hentry] at h
        cases h
        exact entry.exists_unwritable_of_record hentry
      | ok record =>
        rw [hentry] at h
        exact ih h
  · cases h

/-- What it means that records are those of a log, of which nothing is to be seen without
logging. -/
def Tells (logger : Logger) (log : List Entry) (records : List Record) : Prop :=
  if logger.on then log.mapM (Entry.record logger.digits) = .ok records else records = []

/-- If all records of a log can be made, then they are seen by somebody who wants to see them. -/
theorem mapM_record_of_ending (hon : logger.on = true) (h : logger.ending log = .ok ()) :
    log.mapM (Entry.record logger.digits) = .ok (logger.seen log) := by
  simp only [ending, seen, hon, if_true] at h ⊢
  induction log with
  | nil => rfl
  | cons entry rest ih =>
    rw [records] at h ⊢
    rw [List.mapM_cons]
    cases hentry : entry.record logger.digits with
    | error failed =>
      rw [hentry] at h
      cases h
    | ok record =>
      rw [hentry] at h
      exact congrArg (Except.map (record :: ·)) (ih h)

/-- Unless a record is in the way, what is seen of a conversion is its result, with the records of
its log if there is somebody to see them. -/
theorem shown_of_isRendered (h : (logger.shown outcome).isRendered = true) :
    ∃ records, logger.shown outcome = ⟨outcome.result, records⟩ ∧
      logger.Tells outcome.log records := by
  rw [shown_eq] at h ⊢
  cases hending : logger.ending outcome.log with
  | error fault =>
    obtain ⟨most, rfl⟩ := exists_unwritable_of_ending hending
    rw [hending] at h
    cases h
  | ok _ =>
    refine ⟨_, rfl, ?_⟩
    rw [Tells]
    split
    · rename_i hon
      exact mapM_record_of_ending hon hending
    · rename_i hoff
      exact if_neg hoff

/-- Without a limit all records can be made. -/
theorem ending_of_unlimited (h : logger.digits = none) (log : List Entry) :
    logger.ending log = .ok () := by
  suffices hrecords : (logger.records log).2 = .ok () by
    rw [ending, hrecords, ite_self]
  induction log with
  | nil => rfl
  | cons entry rest ih =>
    rw [records, h]
    cases entry <;> exact ih

end Logger

namespace Conversion

/-- What is logged of a binding is a condition that is not converted. -/
theorem exists_dropped_of_warning {binding : Binding} {entry : Entry}
    (h : entry ∈ warning binding) : ∃ role, entry = .dropped role := by
  rw [warning] at h
  split at h
  · exact ⟨_, List.mem_singleton.mp h⟩
  · exact absurd h List.not_mem_nil

/-- What is logged of bindings are conditions that are not converted. -/
theorem exists_dropped_of_encodeBindings {format : Format} {bindings : List Binding}
    {listing : Listing} {entry : Entry} (h : entry ∈ (encodeBindings format bindings listing).log) :
    ∃ role, entry = .dropped role := by
  induction bindings with
  | nil => exact absurd h List.not_mem_nil
  | cons binding rest ih =>
    rw [encodeBindings] at h
    split at h
    · exact exists_dropped_of_warning h
    · exact (List.mem_append.mp h).elim exists_dropped_of_warning ih

/-- What is seen of decoding: nothing but the failure if a member cannot be read, else one entry and
then the outcome of putting the policy together. -/
theorem shown_decode (logger : Logger) (parse : Parse) (message : Wire.Message) :
    logger.shown (decode parse message) =
      match message.bindings.mapM (decodeBinding parse) with
      | .error unreadable => ⟨.error (.unreadable unreadable), []⟩
      | .ok bindings =>
        let entry : Entry := .decoded message.version bindings.length
        ⟨(logger.ending [entry]).bind fun _ =>
          (Policy.construct (some (bindings.map some)) (decodeEtag message.etag)
            message.version).mapError .defect, logger.seen [entry]⟩ := by
  rw [decode]
  cases message.bindings.mapM (decodeBinding parse) with
  | error unreadable => exact logger.shown_of_log_eq_nil _
  | ok bindings => exact logger.shown_eq _

/-- What is seen of encoding: the warnings of the bindings that were gone through, and one entry
more if the bindings and the etag could be written. -/
theorem shown_encode (logger : Logger) (format : Format) (policy : Policy) (listing : Listing) :
    let bindings := encodeBindings format policy.bindings listing
    logger.shown (encode format policy listing) =
      match bindings.result, encodeEtag policy.etag with
      | .error fault, _ => ⟨.error fault, logger.seen bindings.log⟩
      | .ok _, .error fault => ⟨.error fault, logger.seen bindings.log⟩
      | .ok encoded, .ok etag =>
        let entry : Entry := .encoded policy.version encoded.length
        ⟨(logger.ending [entry]).bind fun _ => .ok ⟨policy.version, encoded, etag⟩,
          logger.seen bindings.log ++ logger.seen [entry]⟩ := by
  intro bindings
  have hwarned : logger.ending bindings.log = .ok () :=
    Logger.ending_of_dropped fun _ => exists_dropped_of_encodeBindings
  have hbindings : encodeBindings format policy.bindings listing = bindings := rfl
  rw [Logger.shown_eq, encode, hbindings]
  clear_value bindings
  obtain ⟨result, log⟩ := bindings
  cases result with
  | error fault => simp only [hwarned, Except.bind]
  | ok encoded =>
    cases encodeEtag policy.etag with
    | error fault => simp only [hwarned, Except.bind]
    | ok etag => simp only [Logger.ending_append hwarned, Logger.seen_append hwarned]

/-- No record is in the way of decoding if all of them can be made. -/
theorem isRendered_decode (h : ∀ log, logger.ending log = .ok ()) (parse : Parse)
    (message : Wire.Message) : (logger.shown (decode parse message)).isRendered = true := by
  rw [shown_decode]
  cases message.bindings.mapM (decodeBinding parse) with
  | error unreadable => rfl
  | ok bindings =>
    simp only [h]
    cases Policy.construct (some (bindings.map some)) (decodeEtag message.etag) message.version <;>
      rfl

/-- Bindings fail to be encoded with details. -/
theorem exists_invalid_of_encodeBindings {format : Format} {bindings : List Binding}
    {listing : Listing} {fault : Fault}
    (h : (encodeBindings format bindings listing).result = .error fault) :
    ∃ details, fault = .invalid details := by
  induction bindings with
  | nil => cases h
  | cons binding rest ih =>
    rw [encodeBindings] at h
    cases hfirst : encodeBinding format binding listing with
    | ok first =>
      rw [hfirst] at h
      exact ih (map_eq_error_iff.mp h)
    | error failed =>
      rw [hfirst] at h
      cases h
      rw [encodeBinding] at hfirst
      split at hfirst
      · cases hfirst
      · exact ⟨_, (Except.error.inj hfirst).symm⟩

/-- No record is in the way of encoding if all of them can be made. -/
theorem isRendered_encode (h : ∀ log, logger.ending log = .ok ()) (format : Format)
    (policy : Policy) (listing : Listing) :
    (logger.shown (encode format policy listing)).isRendered = true := by
  rw [shown_encode]
  cases hbindings : (encodeBindings format policy.bindings listing).result with
  | error fault =>
    obtain ⟨details, rfl⟩ := exists_invalid_of_encodeBindings hbindings
    rfl
  | ok encoded =>
    cases policy.etag with
    | none => simp only [encodeEtag, h]; rfl
    | some etag =>
      rw [encodeEtag]
      cases Base64.decodeStrict? etag.toList with
      | none => rfl
      | some octets => simp only [h]; rfl

end Conversion

end AccessPolicy
