import ThreadPool.Foundation.Lanes

namespace ThreadPool.Foundation

/-! # Executors

What a pool of threads is for, without the threads: items wait in lanes, are taken from the
front of the highest lane in use, started and finished, and the front of a lane may be
raised to the front of a higher one. Every event is one step. A trace lists the events of
a run with the latest one first. Which lane an item is taken from and what is raised cannot
be seen from outside.
-/

/-- The items that an executor has accepted, by what has become of them. -/
structure Executor (ι α : Type*) where
  waiting : Lanes ι α
  taken : Multiset α
  running : Multiset α
  finished : Multiset α

namespace Executor

variable {ι α : Type*}

inductive Event (ι α : Type*) where
  | accept (level : ι) (item : α)
  | take (level : ι) (item : α)
  | start (item : α)
  | finish (item : α)
  | raise (source target : ι) (items : List α)

namespace Event

def accepted : Event ι α → Option α
  | accept _ item => some item
  | _ => none

def taken : Event ι α → Option α
  | take _ item => some item
  | _ => none

def started : Event ι α → Option α
  | start item => some item
  | _ => none

def finished : Event ι α → Option α
  | finish item => some item
  | _ => none

def acceptedAt [DecidableEq ι] (level : ι) : Event ι α → Option α
  | accept own item => if own = level then some item else none
  | _ => none

def takenAt [DecidableEq ι] (level : ι) : Event ι α → Option α
  | take own item => if own = level then some item else none
  | _ => none

def raises : Event ι α → Bool
  | raise .. => true
  | _ => false

end Event

/-- What can be seen of an event. -/
inductive Sight (ι α : Type*) where
  | accept (level : ι) (item : α)
  | take (item : α)
  | start (item : α)
  | finish (item : α)
deriving DecidableEq

def Event.sight : Event ι α → Option (Sight ι α)
  | accept level item => some (.accept level item)
  | take _ item => some (.take item)
  | start item => some (.start item)
  | finish item => some (.finish item)
  | raise .. => none

def Sight.acceptedAt [DecidableEq ι] (level : ι) : Sight ι α → Option α
  | accept own item => if own = level then some item else none
  | _ => none

def Sight.taken : Sight ι α → Option α
  | take item => some item
  | _ => none

theorem sight_acceptedAt [DecidableEq ι] (level : ι) (trace : List (Event ι α)) :
    (trace.filterMap Event.sight).filterMap (Sight.acceptedAt level) =
      trace.filterMap (Event.acceptedAt level) := by
  rw [List.filterMap_filterMap]
  congr 1
  funext event
  cases event <;> rfl

theorem sight_taken (trace : List (Event ι α)) :
    (trace.filterMap Event.sight).filterMap Sight.taken = trace.filterMap Event.taken := by
  rw [List.filterMap_filterMap]
  congr 1
  funext event
  cases event <;> rfl

theorem mem_acceptedAt [DecidableEq ι] {level : ι} {item : α} {trace : List (Event ι α)} :
    item ∈ trace.filterMap (Event.acceptedAt level) ↔ .accept level item ∈ trace := by
  rw [List.mem_filterMap]
  constructor
  · rintro ⟨_ | _, member, accepted⟩ <;> simp_all [Event.acceptedAt]
  · intro member
    exact ⟨_, member, by simp [Event.acceptedAt]⟩

/-- The items accepted, started and finished so far, the latest first. -/
structure History (α : Type*) where
  accepted : List α
  started : List α
  finished : List α

def Event.record : Event ι α → History α → History α
  | accept _ item, history => { history with accepted := item :: history.accepted }
  | start item, history => { history with started := item :: history.started }
  | finish item, history => { history with finished := item :: history.finished }
  | _, history => history

def history (trace : List (Event ι α)) : History α where
  accepted := trace.filterMap Event.accepted
  started := trace.filterMap Event.started
  finished := trace.filterMap Event.finished

theorem history_cons (event : Event ι α) (trace : List (Event ι α)) :
    history (event :: trace) = event.record (history trace) := by
  cases event <;> rfl

section Steps

variable [LT ι] [DecidableEq ι]

/-- The steps of an executor. -/
inductive Does (executor : Executor ι α) : Event ι α → Executor ι α → Prop
  | accept {level item} : ¬ executor.waiting.Queued item →
      item ∉ executor.taken + executor.running + executor.finished →
      Does executor (.accept level item) { executor with waiting := executor.waiting.push level item }
  | take {level item rest} : executor.waiting.Top level → executor.waiting level = item :: rest →
      Does executor (.take level item)
        { executor with waiting := executor.waiting.dropHead level, taken := item ::ₘ executor.taken }
  | start {item rest} : executor.taken = item ::ₘ rest →
      Does executor (.start item) { executor with taken := rest, running := item ::ₘ executor.running }
  | finish {item rest} : executor.running = item ::ₘ rest →
      Does executor (.finish item)
        { executor with running := rest, finished := item ::ₘ executor.finished }
  | raise {source target items rest} : source < target → executor.waiting source = items ++ rest →
      Does executor (.raise source target items)
        { executor with
          waiting := Function.update (Function.update executor.waiting source rest) target
            (items ++ executor.waiting target) }

/-- The runs of an executor that begins without items. -/
inductive Runs : List (Event ι α) → Executor ι α → Prop
  | nil : Runs [] ⟨Lanes.empty, 0, 0, 0⟩
  | cons {trace executor event after} : Runs trace executor → Does executor event after →
      Runs (event :: trace) after

/-- A run of the executor that has the given history. -/
structure Explains (trace : List (Event ι α)) (executor : Executor ι α) (notes : History α) : Prop where
  runs : Runs trace executor
  history : history trace = notes

/-- What one step of another system is to the executor: an event that the history notes, or
nothing. -/
inductive Emits (before after : Executor ι α) (old new : History α) : Option (Event ι α) → Prop
  | none : after = before → new = old → Emits before after old new none
  | one {event} : Does before event after → new = event.record old → Emits before after old new (some event)

variable {trace : List (Event ι α)} {executor before after : Executor ι α} {old new : History α}
  {event : Option (Event ι α)}

theorem explains_nil : Explains ([] : List (Event ι α)) ⟨Lanes.empty, 0, 0, 0⟩ ⟨[], [], []⟩ :=
  ⟨.nil, rfl⟩

theorem Explains.emits (explains : Explains trace before old) (emits : Emits before after old new event) :
    Explains (event.toList ++ trace) after new := by
  cases emits with
  | none same notes =>
      rw [same, notes]
      exact explains
  | one does notes =>
      refine ⟨.cons explains.runs does, ?_⟩
      rw [Option.toList_some, List.singleton_append, history_cons, explains.history, notes]

theorem Does.emits {own : Event ι α} (does : Does before own executor) (same : after = executor)
    (notes : new = own.record old) : Emits before after old new (some own) :=
  .one (same ▸ does) notes

/-- With a single level nothing is raised. -/
theorem Runs.flat (runs : Runs trace executor) (single : ∀ source target : ι, ¬ source < target) :
    ∀ event ∈ trace, event.raises = false := by
  induction runs with
  | nil => simp
  | cons _ does ih =>
      refine List.forall_mem_cons.mpr ⟨?_, ih⟩
      cases does with
      | raise rises => exact absurd rises (single _ _)
      | _ => rfl

/-- Where nothing is raised, each lane is a queue: what was accepted into it was taken in the
same order, up to what still waits there. -/
theorem Runs.in_order (runs : Runs trace executor) (level : ι)
    (flat : ∀ event ∈ trace, event.raises = false) :
    trace.filterMap (Event.acceptedAt level) =
      (executor.waiting level).reverse ++ trace.filterMap (Event.takenAt level) := by
  induction runs with
  | nil => rfl
  | cons runs does ih =>
      have before := ih fun event member => flat event (List.mem_cons_of_mem _ member)
      cases does with
      | @accept own item _ _ =>
          by_cases same : own = level
          · subst same
            simp [List.filterMap_cons, Event.acceptedAt, Event.takenAt, before]
          · simp [List.filterMap_cons, Event.acceptedAt, Event.takenAt, before, same, Lanes.push_of_ne (Ne.symm same)]
      | @take own item rest _ lane =>
          by_cases same : own = level
          · subst same
            simp [List.filterMap_cons, Event.acceptedAt, Event.takenAt, before, lane]
          · simp [List.filterMap_cons, Event.acceptedAt, Event.takenAt, before, same, Lanes.dropHead_of_ne (Ne.symm same)]
      | start | finish => exact before
      | raise => cases flat _ List.mem_cons_self

/-- The item is somewhere in the executor. -/
def Has (executor : Executor ι α) (item : α) : Prop :=
  executor.waiting.Queued item ∨ item ∈ executor.taken + executor.running + executor.finished

/-- An executor keeps what it has. -/
theorem Does.has {own : Event ι α} {item : α} (does : Does before own after) (has : before.Has item) :
    after.Has item := by
  cases does with
  | accept =>
      refine has.imp_left fun ⟨level, member⟩ => ⟨level, Lanes.mem_push.mpr (.inl member)⟩
  | @take level first rest top lane =>
      by_cases same : item = first
      · exact .inr (by simp [same])
      · refine has.imp (fun ⟨own, member⟩ => ⟨own, Lanes.mem_dropHead_of_ne lane same member⟩) fun member => ?_
        simp only [Multiset.mem_add, Multiset.mem_cons] at member ⊢
        tauto
  | start taken =>
      refine has.imp_right fun member => ?_
      simp only [taken, Multiset.mem_add, Multiset.mem_cons] at member ⊢
      tauto
  | finish running =>
      refine has.imp_right fun member => ?_
      simp only [running, Multiset.mem_add, Multiset.mem_cons] at member ⊢
      tauto
  | @raise source target items rest rises lane =>
      refine has.imp_left fun ⟨level, member⟩ => ?_
      by_cases atTarget : level = target
      · exact ⟨target, by simp [← atTarget, member]⟩
      · by_cases atSource : level = source
        · rw [atSource, lane] at member
          rcases List.mem_append.mp member with moved | stays
          · exact ⟨target, by simp [moved]⟩
          · exact ⟨source, by simp [← atSource, atTarget, stays]⟩
        · exact ⟨level, by simp [atTarget, atSource, member]⟩

/-- What an executor has accepted stays with it. -/
theorem Runs.accepted_has {level : ι} {item : α} (runs : Runs trace executor)
    (accepted : .accept level item ∈ trace) : executor.Has item := by
  induction runs with
  | nil => cases accepted
  | cons runs does ih =>
      rcases List.mem_cons.mp accepted with rfl | earlier
      · cases does
        exact .inl ⟨level, by simp⟩
      · exact does.has (ih earlier)

/-- No item is accepted twice. -/
theorem Runs.accepted_once {first second : ι} {item : α} (runs : Runs trace executor)
    (here : .accept first item ∈ trace) (there : .accept second item ∈ trace) : first = second := by
  induction runs with
  | nil => cases here
  | @cons trace executor event after runs does ih =>
      have new : ∀ {level other}, event = .accept level item → .accept other item ∉ trace := by
        rintro level other rfl earlier
        cases does with
        | accept unqueued unknown => exact (runs.accepted_has earlier).elim unqueued unknown
      rcases List.mem_cons.mp here with rfl | before
      · rcases List.mem_cons.mp there with same | earlier
        · cases same
          rfl
        · exact absurd earlier (new rfl)
      · rcases List.mem_cons.mp there with rfl | earlier
        · exact absurd before (new rfl)
        · exact ih before earlier

/-- Where nothing is raised, the items accepted with a level are taken in the order in which
they were accepted. -/
theorem Runs.taken_in_order [DecidableEq α] (runs : Runs trace executor) (level : ι)
    (flat : ∀ event ∈ trace, event.raises = false) :
    trace.filterMap (Event.acceptedAt level) = (executor.waiting level).reverse ++
      (trace.filterMap Event.taken).filter (· ∈ trace.filterMap (Event.acceptedAt level)) := by
  have accepted : ∀ {own item}, .take own item ∈ trace → .accept own item ∈ trace := by
    intro own item taken
    have served : item ∈ trace.filterMap (Event.takenAt own) :=
      List.mem_filterMap.mpr ⟨_, taken, by simp [Event.takenAt]⟩
    rw [← mem_acceptedAt, runs.in_order own flat]
    exact List.mem_append_right _ served
  refine (runs.in_order level flat).trans (congrArg _ ?_)
  rw [List.filter_filterMap]
  refine List.filterMap_congr fun event member => ?_
  cases event with
  | take own item =>
      have same : item ∈ trace.filterMap (Event.acceptedAt level) ↔ own = level := by
        rw [mem_acceptedAt]
        constructor
        · exact runs.accepted_once (accepted member)
        · rintro rfl
          exact accepted member
      simp only [Event.takenAt, Event.taken, Option.filter_some, same, decide_eq_true_eq]
  | _ => rfl

end Steps

end Executor

end ThreadPool.Foundation
