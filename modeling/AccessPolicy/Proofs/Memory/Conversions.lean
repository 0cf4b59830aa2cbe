import AccessPolicy.Proofs.Conversion.Records
import AccessPolicy.Proofs.Memory.Copies

/-!
# Conversion in memory

Decoding makes bindings and sequences of them, and then it may still fail. Whatever was made by then
is new, so nothing that was there before is different. Encoding only looks. In both cases the
records are those of the conversion as it is done with values.
-/

namespace AccessPolicy

variable {m : Memory}

/-! ## Benches -/

namespace Bench

/-- Work on the memory of a bench makes no records. -/
theorem inMemory_carries {ε α β : Type} {R : α → Memory → β → Prop} {E : Memory → Prop}
    {action : Action ε Memory α} {y : Except ε β} (h : Carries R E (action m) y)
    (fault : ε → Fault) (records : List Record) :
    Carries (fun a bench b => bench.records = records ∧ R a bench.memory b)
      (fun bench => bench.records = records ∧ E bench.memory)
      (inMemory fault action ⟨m, records⟩) (y.mapError fault) := by
  refine Carries.adapt (Carries.imp (.within _ h) ?_ ?_) fault
  · rintro a _ b ⟨m', rfl, hr⟩
    exact ⟨rfl, hr⟩
  · rintro _ ⟨m', rfl, he⟩
    exact ⟨rfl, he⟩

/-- Telling an entry makes the records that are seen of it, or fails as showing it does. -/
theorem tell_carries (logger : Logger) (entry : Entry) (records : List Record) :
    let next : Bench := ⟨m, records ++ logger.seen [entry]⟩
    Carries (fun _ bench _ => bench = next) (· = next) (tell logger entry ⟨m, records⟩)
      (logger.ending [entry]) := by
  intro next
  unfold tell
  simp only [next, Logger.seen, Logger.ending, Logger.records]
  cases hon : logger.on with
  | false => exact .value (by rw [if_neg Bool.false_ne_true, List.append_nil])
  | true =>
    cases entry.record logger.digits with
    | error fault => exact .error fault (by rw [if_pos rfl, List.append_nil])
    | ok record => exact .value rfl

/-- The warning of a condition can always be made. -/
theorem warn_carries (logger : Logger) (binding : Binding) (records : List Record) :
    let next : Bench := ⟨m, records ++ logger.seen (Conversion.warning binding)⟩
    Carries (fun _ bench _ => bench = next) (· = next) (warn logger binding ⟨m, records⟩)
      (.ok ()) := by
  intro next
  have htell := tell_carries (m := m) logger (.dropped binding.roleName) records
  rw [Logger.ending_of_dropped fun _ he => ⟨_, List.mem_singleton.mp he⟩] at htell
  simp only [next, Conversion.warning, warn]
  split
  · exact htell
  · exact .value (by rw [Logger.seen_nil, List.append_nil])

end Bench

namespace Memory

/-! ## Decoding -/

/-- Making objects of the bindings of a message carries decoding them. What was made before a member
that cannot be read is in no sequence. -/
theorem decodeBindings_carries (hm : m.Tidy) (parse : Parse) (wires : List Wire.Binding) :
    Carries (fun objects m' bindings => Made true m m' objects (bindings.map some)) (Grows m)
      (decodeBindings parse wires m) (wires.mapM (Conversion.decodeBinding parse)) := by
  induction wires generalizing m with
  | nil => exact .value (.of_places_eq_nil rfl)
  | cons wire rest ih =>
    rw [List.mapM_cons]
    refine Carries.bind (.ofExcept (.refl _) hm.grows) ?_
    rintro binding start _ ⟨rfl, rfl⟩
    have hfirst := made_newBinding true start binding
    have hgrows := hfirst.grows hm
    have hrest := (ih hgrows.tidy).imp (fun _ _ _ h => h) fun _ => hgrows.trans
    refine Carries.modifyGet (hrest.bind ?_)
    exact fun objects m' bindings hrest => .value (hfirst.append hrest)

/-- Decoding a message in memory carries what is seen of decoding it, and makes the same records. -/
theorem decode_carries (hm : m.Tidy) (logger : Logger) (parse : Parse) (message : Wire.Message) :
    let shown := logger.shown (Conversion.decode parse message)
    Carries (fun made bench policy => bench.records = shown.records ∧
        NewAt m bench.memory made.bindings ∧ bench.memory.IsPolicy made policy)
      (fun bench => bench.records = shown.records ∧ Grows m bench.memory)
      (decode logger parse message { memory := m }) shown.result := by
  intro shown
  have hread := Bench.inMemory_carries (decodeBindings_carries hm parse message.bindings)
    Fault.unreadable []
  have hshown : shown = _ := Conversion.shown_decode logger parse message
  unfold decode
  cases hbindings : message.bindings.mapM (Conversion.decodeBinding parse) with
  | error unreadable =>
    rw [hbindings] at hread hshown
    rw [hshown]
    exact hread.stop _
  | ok bindings =>
    let entry : Entry := .decoded message.version bindings.length
    rw [hbindings] at hread hshown
    rw [hshown]
    refine hread.goOn ?_
    rintro objects ⟨m', _⟩ ⟨rfl, hmade⟩
    have hgrows := hmade.grows hm
    have htell : Carries (fun _ bench _ => bench = ⟨m', logger.seen [entry]⟩)
        (fun bench => bench.records = logger.seen [entry] ∧ Grows m bench.memory)
        (Bench.tell logger (.decoded message.version objects.length) { memory := m' })
        (logger.ending [entry]) := by
      rw [hmade.length_eq, List.length_map]
      refine (Bench.tell_carries logger entry []).imp (fun _ _ _ h => h) ?_
      rintro _ rfl
      exact ⟨rfl, hgrows⟩
    refine htell.bind ?_
    rintro _ _ _ rfl
    have hmake := assemble_carries hgrows.tidy hmade.present (Conversion.decodeEtag message.etag)
      message.version
    rw [Option.map_some, hmade.values] at hmake
    refine (Bench.inMemory_carries hmake .defect _).imp ?_ ?_
    · rintro made bench policy ⟨hrecords, hn, hp⟩
      exact ⟨hrecords, hn.after hgrows, hp⟩
    · rintro bench ⟨hrecords, hg⟩
      exact ⟨hrecords, hgrows.trans hg⟩

/-! ## Encoding -/

/-- The wire bindings of objects are those of the bindings that the objects are. -/
theorem encodeBindings_carries (logger : Logger) (format : Format) (listing : Listing)
    (objects : List (Option BindingObject)) (records : List Record) :
    let outcome := Conversion.encodeBindings format ((m.values objects).filterMap id) listing
    let next : Bench := ⟨m, records ++ logger.seen outcome.log⟩
    Carries (fun wires bench wires' => wires = wires' ∧ bench = next) (· = next)
      (encodeBindings logger format listing objects ⟨m, records⟩) outcome.result := by
  induction objects generalizing records with
  | nil =>
    have hseen : records ++ logger.seen [] = records := by rw [Logger.seen_nil, List.append_nil]
    exact .value ⟨rfl, congrArg (Bench.mk m) hseen.symm⟩
  | cons entry rest ih =>
    cases entry with
    | none => exact ih records
    | some object =>
      intro outcome next
      let binding := m.binding object
      let others := Conversion.encodeBindings format ((m.values rest).filterMap id) listing
      have hencode : outcome =
          Conversion.encodeBindings format (binding :: (m.values rest).filterMap id) listing := rfl
      rw [Conversion.encodeBindings] at hencode
      unfold encodeBindings
      refine Carries.get ((Bench.warn_carries logger binding records).goOn ?_)
      rintro _ _ rfl
      cases hfirst : Conversion.encodeBinding format binding listing with
      | error fault =>
        have houtcome : outcome = ⟨.error fault, Conversion.warning binding⟩ := by
          rw [hencode, hfirst]
        simp only [next, houtcome]
        exact .error fault rfl
      | ok first =>
        have houtcome : outcome = ⟨others.result.map (first :: ·),
            Conversion.warning binding ++ others.log⟩ := by
          rw [hencode, hfirst]
        have hwarned : logger.ending (Conversion.warning binding) = .ok () :=
          Logger.ending_of_dropped fun _ => Conversion.exists_dropped_of_warning
        have hnext : next = ⟨m, records ++ logger.seen (Conversion.warning binding) ++
            logger.seen others.log⟩ := by
          simp only [next, houtcome, Logger.seen_append hwarned, List.append_assoc]
        rw [hnext, houtcome]
        refine (ih _).map ?_
        rintro wires _ _ ⟨rfl, rfl⟩
        exact .value ⟨rfl, rfl⟩

/-- Encoding a policy in memory carries what is seen of encoding it, makes the same records and
changes nothing. -/
theorem encode_carries (logger : Logger) (format : Format) (listing : Listing)
    (object : PolicyObject) :
    let shown := logger.shown (Conversion.encode format (m.policy object) listing)
    let next : Bench := ⟨m, shown.records⟩
    Carries (fun message bench message' => message = message' ∧ bench = next) (· = next)
      (encode logger format listing object { memory := m }) shown.result := by
  intro shown next
  have hshown : shown = _ := Conversion.shown_encode logger format (m.policy object) listing
  let bindings := Conversion.encodeBindings format (m.policy object).bindings listing
  have hbindings : Carries (fun wires bench wires' => wires = wires' ∧
        bench = ⟨m, logger.seen bindings.log⟩) (· = ⟨m, logger.seen bindings.log⟩)
      (encodeBindings logger format listing (m.sequence object.bindings) ⟨m, []⟩) bindings.result :=
    encodeBindings_carries logger format listing (m.sequence object.bindings) []
  rw [show Conversion.encodeBindings format (m.policy object).bindings listing = bindings from rfl]
    at hshown
  clear_value bindings
  obtain ⟨result, log⟩ := bindings
  unfold encode
  refine Carries.get ?_
  cases result with
  | error fault =>
    simp only [next, hshown]
    exact hbindings.stop _
  | ok encoded =>
    refine hbindings.goOn ?_
    rintro _ _ ⟨rfl, rfl⟩
    have hetag : (m.policy object).etag = object.etag := rfl
    rw [hetag] at hshown
    cases hread : Conversion.encodeEtag object.etag with
    | error fault =>
      rw [hread] at hshown
      simp only [next, hshown]
      exact .error fault rfl
    | ok octets =>
      rw [hread] at hshown
      simp only [next, hshown]
      refine (Bench.tell_carries logger _ (logger.seen log)).bind ?_
      rintro _ _ _ rfl
      exact .value ⟨rfl, rfl⟩

end Memory

end AccessPolicy
