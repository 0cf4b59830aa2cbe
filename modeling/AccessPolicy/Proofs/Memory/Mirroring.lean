import AccessPolicy.Memory.Workspace
import AccessPolicy.Proofs.Memory.Copies
import AccessPolicy.Proofs.Memory.Lists
import AccessPolicy.Proofs.Session.Effect

/-!
# Objects and values

A workspace mirrors a session if each of its objects is at present the value that the same name
stands for in the session. It goes on to mirror the session as long as no object can be reached
through two names, because then a change to one of them cannot show under another.
-/

namespace AccessPolicy

open Memory (IsPolicy IsBuilder IsList Grows NewAt ChangedAt Keeps)

/-- Two options are in another relation if this holds for the values that there are. -/
theorem rel_imp_of_mem {α β : Type} {R S : α → β → Prop} {x : Option α} {y : Option β}
    (h : Option.Rel R x y) (hi : ∀ a ∈ x, ∀ b, R a b → S a b) : Option.Rel S x y := by
  cases h with
  | some related => exact .some (hi _ rfl _ related)
  | none => exact .none

/-- What a name of a workspace can stand for. -/
inductive Object where
  | builder (object : BuilderObject)
  | policy (object : PolicyObject)
  | list (place : Place)
  | message (message : Wire.Message)

namespace Object

/-- Where the bindings of an object lie. -/
def place? : Object → Option Place
  | .builder object => some object.bindings
  | .policy object => some object.bindings
  | .list place => some place
  | .message _ => none

/-- The name under which an object goes. -/
def called (name : String) : Object → Name
  | .builder _ => .builder name
  | .policy _ => .policy name
  | .list _ => .list name
  | .message _ => .message name

end Object

/-- Whether an object is a thing. -/
inductive Memory.Is (m : Memory) : Object → Thing → Prop where
  | builder {object : BuilderObject} {builder : Builder} (h : m.IsBuilder object builder) :
      Is m (.builder object) (.builder builder)
  | policy {object : PolicyObject} {policy : Policy} (h : m.IsPolicy object policy) :
      Is m (.policy object) (.policy policy)
  | list {place : Place} {entries : List (Option Binding)} (h : m.IsList place entries) :
      Is m (.list place) (.list entries)
  | message (message : Wire.Message) : Is m (.message message) (.message message)

variable {m m' : Memory} {object : Object} {thing : Thing}

/-- An object and what it is go under the same name. -/
theorem Memory.Is.called_eq (h : m.Is object thing) (name : String) :
    object.called name = thing.called name := by
  cases h <;> rfl

/-- An object that is kept stays what it is. -/
theorem Memory.Is.keep (h : m.Is object thing) (hm : m.Tidy) {changed : Option Place}
    (hk : Keeps changed m m')
    (hp : ∀ place, object.place? = some place → place < m.sequences.length ∧ place ∉ changed) :
    m'.Is object thing := by
  cases h with
  | builder h =>
    obtain ⟨hin, hout⟩ := hp _ rfl
    exact .builder ⟨(hk.entries _ hin hout).trans h.entries, h.etag, h.version⟩
  | policy h =>
    obtain ⟨hin, hout⟩ := hp _ rfl
    exact .policy ⟨(hk.entries _ hin hout).trans h.entries, h.etag, h.version⟩
  | list h =>
    obtain ⟨hin, hout⟩ := hp _ rfl
    refine .list ⟨(hk.entries _ hin hout).trans h.entries, fun set hset => ?_⟩
    rw [hk.sequence _ hin hout] at hset
    rw [hk.frozen? set (hm.present _ set hset), h.free set hset]
  | message message => exact .message message

namespace Workspace

/-- What a name stands for. -/
def object? (workspace : Workspace) : Name → Option Object
  | .builder name => (workspace.builders.get? name).map .builder
  | .policy name => (workspace.policies.get? name).map .policy
  | .list name => (workspace.lists.get? name).map .list
  | .message name => (workspace.messages.get? name).map .message

/-- A name stands for a builder if it does so among the builders. -/
theorem object?_builder_eq_iff {workspace : Workspace} {name : String} {object : BuilderObject} :
    workspace.object? (.builder name) = some (.builder object) ↔
      workspace.builders.get? name = some object := by
  simp only [object?, Option.map_eq_some_iff, Object.builder.injEq, exists_eq_right]

/-- Lets a name stand for an object. -/
def put (workspace : Workspace) (name : String) : Object → Workspace
  | .builder object => { workspace with builders := workspace.builders.set name object }
  | .policy object => { workspace with policies := workspace.policies.set name object }
  | .list place => { workspace with lists := workspace.lists.set name place }
  | .message message => { workspace with messages := workspace.messages.set name message }

/-- A name stands for the object it was set to, and all other names for what they stood for. -/
theorem object?_put (workspace : Workspace) (name : String) (object : Object) (other : Name) :
    (workspace.put name object).object? other =
      if other = object.called name then some object else workspace.object? other := by
  cases object <;> cases other <;>
    simp only [put, object?, Object.called, Table.get?_set, Name.builder.injEq, Name.policy.injEq,
      Name.list.injEq, Name.message.injEq, reduceCtorEq, if_false] <;>
    split <;> rfl

/-- Naming an object does not change it. -/
theorem memory_put (workspace : Workspace) (name : String) (object : Object) :
    (workspace.put name object).memory = workspace.memory := by
  cases object <;> rfl

/-- Naming an object does not change what becomes of logs. -/
theorem logger_put (workspace : Workspace) (name : String) (object : Object) :
    (workspace.put name object).logger = workspace.logger := by
  cases object <;> rfl

/-- Whether a workspace mirrors a session. -/
structure Mirrors (w : Workspace) (s : Session) : Prop where
  /-- The same becomes of the logs of both. -/
  logger : w.logger = s.logger
  /-- Each name stands for an object that is what the name stands for in the session. -/
  things : ∀ name, Option.Rel w.memory.Is (w.object? name) (s.thing? name)
  /-- Bindings share frozen sets only. -/
  tidy : w.memory.Tidy
  /-- The bindings of an object are there. -/
  inside : ∀ {name object place}, w.object? name = some object → object.place? = some place →
    place < w.memory.sequences.length
  /-- Objects under different names have different sequences of bindings. -/
  alone : ∀ {name other object object' place}, w.object? name = some object →
    w.object? other = some object' → object.place? = some place → object'.place? = some place →
      name = other

variable {w w' : Workspace} {s s' : Session}

/-- An empty workspace mirrors an empty session. -/
theorem mirrors_empty (digits : Option Nat) : Mirrors { digits } { digits } := by
  have hnone (name : Name) : ({ digits } : Workspace).object? name = none := by cases name <;> rfl
  refine ⟨rfl, fun name => ?_, Memory.tidy_empty, fun {name _ _} h => ?_, fun {name _ _ _ _} h => ?_⟩
  · cases name <;> exact .none
  · rw [hnone] at h
    cases h
  · rw [hnone] at h
    cases h

/-- The place of an object that goes under a name, if there is one. -/
def Owns (w : Workspace) (name : Name) (place : Place) : Prop :=
  ∃ object, w.object? name = some object ∧ object.place? = some place

/-- A workspace goes on to mirror a session if a name is set in both of them to the same, and apart
from the sequence of this name everything is kept. -/
theorem Mirrors.write (h : w.Mirrors s) (name : String) (object : Object) {thing : Thing}
    (changed : Option Place) (hlog : w'.logger = w.logger)
    (hobject : ∀ other, w'.object? other =
      if other = object.called name then some object else w.object? other)
    (ht : w'.memory.Tidy) (hk : Keeps changed w.memory w'.memory)
    (his : w'.memory.Is object thing)
    (hin : ∀ place, object.place? = some place → place < w'.memory.sequences.length)
    (hown : ∀ place, object.place? = some place →
      w.memory.sequences.length ≤ place ∨ w.Owns (object.called name) place)
    (hchanged : ∀ place, changed = some place → w.Owns (object.called name) place) :
    w'.Mirrors (s.put name thing) := by
  -- Under other names are the objects that were there, and their sequences are kept.
  have hother {other : Name} {found : Object} (hne : other ≠ object.called name)
      (hf : w.object? other = some found) {place : Place} (hp : found.place? = some place) :
      place < w.memory.sequences.length ∧ object.place? ≠ some place ∧ place ∉ changed := by
    have hlt := h.inside hf hp
    have hforeign : ¬ w.Owns (object.called name) place := fun ⟨_, hobj, hplace⟩ =>
      hne (h.alone hf hobj hp hplace)
    refine ⟨hlt, fun hmem => ?_, fun hmem => hforeign (hchanged place hmem)⟩
    rcases hown place hmem with hnew | ho
    · exact absurd hlt hnew.not_gt
    · exact hforeign ho
  refine ⟨?_, fun other => ?_, ht, fun {other found place} hf hp => ?_,
    fun {one other found found' place} hone hoth hp hp' => ?_⟩
  · cases his <;> exact hlog.trans h.logger
  · rw [hobject, Session.thing?_put, ← his.called_eq name]
    split
    · exact .some his
    · rename_i hne
      refine rel_imp_of_mem (h.things other) fun found hf _ hfound =>
        hfound.keep h.tidy hk fun place hp => ?_
      obtain ⟨hlt, _, hout⟩ := hother hne hf hp
      exact ⟨hlt, hout⟩
  · rw [hobject] at hf
    split at hf
    · cases hf
      exact hin place hp
    · exact (h.inside hf hp).trans_le hk.grown
  · rw [hobject] at hone hoth
    split at hone <;> split at hoth <;> rename_i h₁ h₂
    · exact h₁.trans h₂.symm
    · cases hone
      exact absurd hp (hother h₂ hoth hp').2.1
    · cases hoth
      exact absurd hp' (hother h₁ hone hp).2.1
    · exact h.alone hone hoth hp hp'

/-- What it means that all names stand for the objects that they stood for, and that everything is
kept in memory. There may be more in it. -/
structure Grown (w w' : Workspace) : Prop where
  /-- The same becomes of logs. -/
  logger : w'.logger = w.logger
  /-- Each name stands for the same object. -/
  object? : ∀ name, w'.object? name = w.object? name
  /-- Everything is kept in memory. -/
  memory : Grows w.memory w'.memory

/-- Two changes that leave all names alone are one. -/
theorem Grown.trans {w'' : Workspace} (h : w.Grown w') (h' : w'.Grown w'') : w.Grown w'' :=
  ⟨h'.logger.trans h.logger, fun name => (h'.object? name).trans (h.object? name),
    h.memory.trans h'.memory⟩

/-- What grows in memory leaves all names alone. -/
theorem grown_of_grows (w : Workspace) {m : Memory} (h : Grows w.memory m) :
    w.Grown { w with memory := m } :=
  ⟨rfl, fun name => by cases name <;> rfl, h⟩

/-- Nothing changes if a builder is put back under its name. -/
theorem grown_of_refused {name : String} {object : BuilderObject} {m : Memory}
    (hobject : w.object? (.builder name) = some (.builder object)) (h : Grows w.memory m) :
    w.Grown { w with memory := m, builders := w.builders.set name object } := by
  refine ⟨rfl, fun other => ?_, h⟩
  have hput := { w with memory := m }.object?_put name (.builder object) other
  refine hput.trans ?_
  split
  · rename_i heq
    rw [heq]
    exact hobject.symm
  · cases other <;> rfl

/-- A workspace whose memory is tidy has grown by nothing. -/
theorem grown_of_tidy (w : Workspace) (h : w.memory.Tidy) : w.Grown w := ⟨rfl, fun _ => rfl, h.grows⟩

/-- So has a workspace that mirrors a session. -/
theorem Mirrors.grown (h : w.Mirrors s) : w.Grown w := w.grown_of_tidy h.tidy

/-- A workspace goes on to mirror a session if nothing but new things come to it. -/
theorem Mirrors.grow (h : w.Mirrors s) (hg : w.Grown w') : w'.Mirrors s := by
  refine ⟨hg.logger.trans h.logger, fun name => ?_, hg.memory.tidy,
    fun {name object place} hf hp => ?_, fun {one other found found' place} hone hoth hp hp' => ?_⟩
  · rw [hg.object?]
    refine rel_imp_of_mem (h.things name) fun found hf _ hfound =>
      hfound.keep h.tidy hg.memory.keeps fun place hp => ⟨h.inside hf hp, nofun⟩
  · rw [hg.object?] at hf
    exact (h.inside hf hp).trans_le hg.memory.keeps.grown
  · rw [hg.object?] at hone hoth
    exact h.alone hone hoth hp hp'

/-- A workspace goes on to mirror a session if a name is set to a new object in both of them. -/
theorem Mirrors.put_new (h : w.Mirrors s) (hg : w.Grown w') (name : String) {place : Place}
    (hn : w.memory.sequences.length ≤ place) (hin : place < w'.memory.sequences.length)
    (his : w'.memory.Is object thing) (hp : object.place? = some place) :
    (w'.put name object).Mirrors (s.put name thing) := by
  have hmemory : (w'.put name object).memory = w'.memory := memory_put _ _ _
  have hplace {found : Place} (hf : object.place? = some found) : found = place :=
    Option.some.inj (hf.symm.trans hp)
  refine h.write name object none ((logger_put _ _ _).trans hg.logger) (fun other => ?_) ?_ ?_ ?_
    (fun found hf => ?_) (fun found hf => ?_) nofun
  · rw [object?_put, hg.object?]
  · rw [hmemory]
    exact hg.memory.tidy
  · rw [hmemory]
    exact hg.memory.keeps
  · rw [hmemory]
    exact his
  · rw [hmemory, hplace hf]
    exact hin
  · rw [hplace hf]
    exact .inl hn

/-- A workspace goes on to mirror a session if a list is changed in the same way in both of them. -/
theorem Mirrors.change_list (h : w.Mirrors s) {name : String} {place : Place}
    {entries : List (Option Binding)} (hobject : w.object? (.list name) = some (.list place))
    (hc : ChangedAt w.memory m place) (hl : m.IsList place entries) :
    { w with memory := m }.Mirrors (s.put name (.list entries)) := by
  have hown (found : Place) (hf : some place = some found) : w.Owns (.list name) found :=
    ⟨.list place, hobject, hf⟩
  refine h.write name (.list place) (some place) rfl (fun other => ?_) hc.tidy hc.keeps (.list hl)
    (fun found hf => ?_) (fun found hf => .inr (hown found hf)) hown
  · split
    · rename_i heq
      rw [heq]
      exact hobject
    · rfl
  · exact (h.inside hobject hf).trans_le hc.keeps.grown

/-- A workspace goes on to mirror a session if a builder is changed in the same way in both of them
and its bindings are left where they are. -/
theorem Mirrors.change_builder (h : w.Mirrors s) {name : String}
    {current object : BuilderObject} {builder : Builder}
    (hobject : w.object? (.builder name) = some (.builder current))
    (hbindings : object.bindings = current.bindings) (hb : w.memory.IsBuilder object builder) :
    (w.put name (.builder object)).Mirrors (s.put name (.builder builder)) := by
  have hplace (found : Place) (hf : some object.bindings = some found) :
      (Object.builder current).place? = some found := by
    rw [← hf, hbindings]
    rfl
  exact h.write name (.builder object) none rfl (w.object?_put name _) h.tidy
    (.refl w.memory) (.builder hb) (fun found hf => h.inside hobject (hplace found hf))
    (fun found hf => .inr ⟨_, hobject, hplace found hf⟩) nofun

/-- A workspace goes on to mirror a session if a message is set to the same in both of them. -/
theorem Mirrors.put_message (h : w.Mirrors s) (name : String) (message : Wire.Message) :
    (w.put name (.message message)).Mirrors (s.put name (.message message)) :=
  h.write name (.message message) none rfl
    (w.object?_put name (.message message)) h.tidy (.refl w.memory) (.message message)
    nofun nofun nofun

end Workspace

end AccessPolicy
