import ThreadPool.Pool.Capacity
import ThreadPool.Pool.Pausing

namespace ThreadPool.Pool

open Foundation

/-! # One submit call

An observer follows one application thread and takes notes on its last submit call: the
block that the call created, how often that block entered the queue, what the steps of the
thread added to the two counters, and whether the queue was full at some instant.
-/

/-- The `int64_t` that `thread_pool_submit` returns. -/
def SubmitResult.value : SubmitResult → Int
  | .id taskId => taskId
  | .error _ => -1

structure CallNote where
  task : Option Addr := none
  insertions : Nat := 0
  total : BitVec 32 := 0#32
  inFlight : BitVec 32 := 0#32
  /-- The cap at the start of the call, and whether it has been in force ever since. -/
  cap : Nat := 0
  steady : Bool := true
  full : Bool := false

section Notes

variable {ι : Type} [DecidableEq ι]

def ownStep (i : ι) : Label ι Input → Bool
  | .run j _ => decide (j = i)
  | .pick j _ => decide (j = i)
  | .wake _ => false

def Memory.full (memory : Memory ι) : Bool :=
  decide (0 < memory.pq.maxTasks ∧ memory.pq.maxTasks ≤ memory.pq.lanes.contents.card)

def Memory.totalWord (memory : Memory ι) : BitVec 32 := BitVec.ofInt 32 memory.totalTaskInSystem

/-- How often a block enters the queue in a step. -/
def entered (before after : Memory ι) : Option Addr → Nat
  | some task => after.pq.lanes.contents.count task - before.pq.lanes.contents.count task
  | none => 0

/-- The block that `task_create` has just returned. -/
def Pc.createdTask : Pc → Option Addr
  | .submit (.count ticket) => some ticket.task
  | _ => none

def CallNote.next (note : CallNote) (own : Bool) (task : Option Addr) (before after : Memory ι) :
    CallNote where
  task := task
  insertions := note.insertions + entered before after task
  total := note.total + if own then after.totalWord - before.totalWord else 0#32
  inFlight := note.inFlight + if own then after.inFlightSubmits - before.inFlightSubmits else 0#32
  cap := note.cap
  steady := note.steady && decide (after.pq.maxTasks = note.cap)
  full := note.full || after.full

/-- The notes on thread `i`: a submit call starts them afresh, and they are complete when
the call has returned. -/
def followSubmit (i : ι) (note : CallNote) (config : PoolConfig ι) (label : Label ι Input)
    (after : PoolConfig ι) : CallNote :=
  match config.point i, label with
  | .submit _, _ =>
      note.next (ownStep i label) ((after.point i).createdTask.or note.task) config.memory after.memory
  | .client _, .run j (.call (.submit _)) =>
      if j = i then { cap := after.memory.pq.maxTasks, full := after.memory.full } else note
  | _, _ => note

end Notes

section Turns

variable {ι : Type} [DecidableEq ι] [Fintype ι] {config after : PoolConfig ι} {label : Label ι Input}
  {i : ι}

/-- A step as thread `i` sees it from inside a submit call. -/
inductive CallTurn (i : ι) (config : PoolConfig ι) (label : Label ι Input) (after : PoolConfig ι) : Prop
  | others : after.point i = config.point i →
      (ownStep i label = false ∨ after.memory = config.memory) → CallTurn i config label after
  | sync : Syncs (config.point i) (after.point i) → after.memory = config.memory →
      CallTurn i config label after
  | read {access} : Behind (config.point i) access → Reads config.memory access (after.point i) →
      after.memory = config.memory → CallTurn i config label after
  | write {access} : Behind (config.point i) access →
      Writes i config.memory access after.memory (after.point i) → ownStep i label = true →
      CallTurn i config label after

theorem submit_turn {pc : SubmitPc} (here : config.point i = .submit pc)
    (moves : Moves pool config label after) : CallTurn i config label after := by
  have elsewhere : ∀ {k next}, after.point = Function.update config.point k next → i ≠ k →
      after.point i = config.point i := by
    intro k next points other
    rw [points, Function.update_of_ne other]
  cases moves_step moves with
  | still memory points => exact .others (congrFun points i) (.inr memory)
  | @sync _ k next _ syncs memory points =>
      by_cases mine : i = k
      · subst mine
        refine .sync ?_ memory
        rwa [points, Function.update_self]
      · exact .others (elsewhere points mine) (.inr memory)
  | @read k access _ next _ _ arrives reads _ memory points =>
      by_cases mine : i = k
      · subst mine
        refine .read (arrives_behind arrives) ?_ memory
        rwa [points, Function.update_self]
      · exact .others (elsewhere points mine) (.inr memory)
  | @write k access _ next _ _ arrives writes points =>
      by_cases mine : i = k
      · subst mine
        refine .write (arrives_behind arrives) ?_ (by simp [ownStep])
        rwa [points, Function.update_self]
      · exact .others (elsewhere points mine) (.inl (by simp [ownStep, Ne.symm mine]))
  | @create k tid _ there dormant _ memory points =>
      have mover : i ≠ k := by
        rintro rfl
        simp [here] at there
      have child : i ≠ tid := by
        rintro rfl
        simp [here] at dormant
      refine .others ?_ (.inl (by simp [ownStep, Ne.symm mover]))
      rw [points, Function.update_of_ne mover, Function.update_of_ne child]
  | @createFails k _ there memory points =>
      have mover : i ≠ k := by
        rintro rfl
        simp [here] at there
      exact .others (elsewhere points mover) (.inr memory)

omit [Fintype ι] in
theorem arrives_client {last : Option SubmitResult} {middle : PoolConfig ι}
    (arrives : Arrives pool config i (.client last) middle) : config.point i = .client last := by
  cases arrives with
  | here ready => exact point_ready ready
  | entering ready code => cases code_syncs (congrArg Instr.sync code) <;> cases code
  | resuming woken => rw [Config.point, woken]; rfl

end Turns

section Queue

variable {ι : Type} [DecidableEq ι] {me : ι} {memory after : Memory ι} {pc next : Pc}

/-- A push has just been accepted. -/
def Pc.pushed : Pc → Nat
  | .submit (.unlockInserted _) => 1
  | _ => 0

theorem writes_accepted (writes : Writes me memory pc after next) :
    (after.journal.accepted = memory.journal.accepted ∧ next.pushed = 0) ∨
      ∃ ticket max, pc = .submit (.insert ticket max) ∧ next = .submit (.unlockInserted ticket) ∧
        after.journal.accepted = ticket.task :: memory.journal.accepted := by
  cases writes with
  | insert ticket max => exact .inr ⟨ticket, max, rfl, rfl, rfl⟩
  | _ => exact .inl ⟨rfl, rfl⟩

theorem writes_refused (writes : Writes me memory pc after next) :
    memory.journal.refused ⊆ after.journal.refused := by
  cases writes with
  | full => exact List.subset_cons_self ..
  | _ => exact List.Subset.refl _

/-- A task that has left the queue does not come back. -/
theorem writes_gone (writes : Writes me memory pc after next) :
    memory.journal.destroyed + pc.phase.share .taken + memory.journal.called ≤
      (after.journal.destroyed + next.phase.share .taken + after.journal.called : Multiset Addr) := by
  cases writes with
  | pop task =>
      simp only [Pc.phase, WorkerPc.phase, Phase.share, add_zero]
      gcongr
      exact Multiset.le_add_right _ _
  | call task =>
      simp only [Pc.phase, WorkerPc.phase, Phase.share, add_zero, ← Multiset.cons_coe,
        ← Multiset.singleton_add, add_assoc, le_refl]
  | destroyQueue tasks =>
      simp only [Pc.phase, Phase.share, add_zero, ← Multiset.coe_add]
      gcongr
      exact Multiset.le_add_left _ _
  | _ => exact le_refl _

variable [Fintype ι] {config final : PoolConfig ι} {label : Label ι Input} {i : ι} {task : Addr}

def gone (config : PoolConfig ι) : Multiset Addr :=
  config.memory.journal.destroyed + holding config Phase.share .taken + config.memory.journal.called

theorem moves_gone (moves : Moves pool config label final) : gone config ≤ gone final := by
  unfold gone
  rcases moves_holding Phase.share moves with ⟨memory, held⟩ | ⟨k, pc, next, rest, _, writes, old, new⟩ |
    ⟨tid, memory, held⟩
  · rw [memory, held]
  · rw [old, new]
    have grows := add_le_add_right (writes_gone writes) (rest .taken)
    simpa only [Pi.add_apply, add_assoc, add_comm (rest .taken), add_left_comm (rest .taken)] using grows
  · rw [memory, held]

theorem moves_journal (moves : Moves pool config label final) :
    config.memory.journal.accepted ⊆ final.memory.journal.accepted ∧
      config.memory.journal.refused ⊆ final.memory.journal.refused := by
  cases moves_step moves with
  | write _ writes =>
      refine ⟨?_, writes_refused writes⟩
      rcases writes_accepted writes with ⟨same, _⟩ | ⟨ticket, _, _, _, more⟩
      · rw [same]
        exact List.Subset.refl _
      · rw [more]
        exact List.subset_cons_self ..
  | still memory | sync _ memory | read _ _ _ memory | create _ _ _ memory | createFails _ memory =>
      rw [memory]
      exact ⟨List.Subset.refl _, List.Subset.refl _⟩

/-- No block enters the queue that was accepted before the step or is not accepted behind it. -/
theorem entered_zero (balanced : config.memory.Balanced (holding config Phase.share))
    (moves : Moves pool config label final) {tasks : Option Addr}
    (decided : ∀ task ∈ tasks, task ∈ config.memory.journal.accepted ∨
      task ∉ final.memory.journal.accepted) : entered config.memory final.memory tasks = 0 := by
  cases tasks with
  | none => rfl
  | some task =>
      obtain ⟨lanes, books⟩ := balanced
      obtain ⟨lanes', books'⟩ := moves_balanced moves ⟨lanes, books⟩
      have left := Multiset.count_le_of_le task (moves_gone moves)
      have before := congrArg (Multiset.count task) books.accepted
      have behind := congrArg (Multiset.count task) books'.accepted
      rw [entered, books.represents.lanes_eq, books'.represents.lanes_eq]
      simp only [gone, Multiset.count_add] at left before behind
      rcases decided task rfl with accepted | unaccepted
      · have kept := (moves_journal moves).1 accepted
        rw [Multiset.count_eq_one_of_mem books.accepted_nodup accepted] at before
        rw [Multiset.count_eq_one_of_mem books'.accepted_nodup kept] at behind
        omega
      · rw [Multiset.count_eq_zero_of_notMem unaccepted] at behind
        omega

omit [DecidableEq ι] in
theorem share_held (config : PoolConfig ι) (i : ι) {account : Account}
    (held : task ∈ (config.point i).phase.share account) :
    task ∈ holding config Phase.share account := by
  simp only [holding, Config.total, Finset.sum_apply, Multiset.mem_sum]
  exact ⟨i, Finset.mem_univ i, held⟩

end Queue

section Phases

variable {ι : Type} [DecidableEq ι] [Fintype ι] {config final : PoolConfig ι} {label : Label ι Input}
  {i : ι} {note : CallNote} {memory after : Memory ι} {pc : SubmitPc} {next : Pc}

def CallNote.Stands (note : CallNote) (insertions : Nat) (total inFlight : BitVec 32) : Prop :=
  note.insertions = insertions ∧ note.total = total ∧ note.inFlight = inFlight

/-- What a phase of the call says about the notes. -/
def Phase.Noted (memory : Memory ι) (note : CallNote) : Phase → Prop
  | .idle => note.task = none ∧ note.Stands 0 0#32 0#32
  | .announced => (∀ task ∈ note.task, task ∈ memory.journal.refused) ∧ note.Stands 0 0#32 1#32
  | .created task => note.task = some task ∧ note.Stands 0 0#32 1#32
  | .counted task => note.task = some task ∧ note.Stands 0 1#32 1#32
  | .inserted task => note.task = some task ∧ note.Stands 1 1#32 1#32
  | .refused task => note.task = some task ∧ note.Stands 0 1#32 1#32
  | .uncounted task => note.task = some task ∧ note.Stands 0 0#32 1#32
  | _ => True

def Pc.Noted (memory : Memory ι) (note : CallNote) : Pc → Prop
  | .submit pc => pc.phase.Noted memory note
  | .client (some (.id _)) => note.insertions = 1
  | .client (some (.error _)) =>
      (∀ task ∈ note.task, task ∈ memory.journal.refused) ∧ note.Stands 0 0#32 0#32
  | _ => True

/-- The block of a call that does not move is decided: accepted before the step, or not
accepted behind it. -/
theorem phase_decided (balanced : config.memory.Balanced (holding config Phase.share))
    (moves : Moves pool config label final) (here : config.point i = .submit pc)
    (same : final.point i = config.point i) (noted : pc.phase.Noted config.memory note) :
    ∀ task ∈ note.task, task ∈ config.memory.journal.accepted ∨
      task ∉ final.memory.journal.accepted := by
  obtain ⟨lanes, books⟩ := balanced
  obtain ⟨lanes', books'⟩ := moves_balanced moves ⟨lanes, books⟩
  have phase : (config.point i).phase = pc.phase := by rw [here]; rfl
  have pending : ∀ task, task ∈ pc.phase.share .pending → task ∉ final.memory.journal.accepted := by
    intro task held
    rw [← phase, ← same] at held
    exact books'.pending_not_accepted (share_held final i held)
  have refused : ∀ task, task ∈ pc.phase.share .rejected → task ∉ final.memory.journal.accepted := by
    intro task held
    rw [← phase, ← same] at held
    exact books'.refused_not_accepted (books'.rejected task (share_held final i held))
  have returning : ∀ task, task ∈ pc.phase.share .returning → task ∈ config.memory.journal.accepted := by
    intro task held
    rw [← phase] at held
    rw [← Multiset.mem_coe, books.returned]
    exact Multiset.mem_add.mpr (.inr (share_held config i held))
  intro task known
  have mine : ∀ {held account}, note.task = some held → pc.phase.share account = {held} →
      task ∈ pc.phase.share account := by
    intro held account noted share
    rw [share, Option.some.inj (noted.symm.trans known)]
    exact Multiset.mem_singleton_self task
  cases stage : pc.phase with
  | idle =>
      rw [stage] at noted
      cases noted.1.symm.trans known
  | announced =>
      rw [stage] at noted
      exact .inr (books'.refused_not_accepted ((moves_journal moves).2 (noted.1 task known)))
  | created held | counted held =>
      rw [stage] at noted
      exact .inr (pending task (mine noted.1 (by rw [stage]; rfl)))
  | inserted held =>
      rw [stage] at noted
      exact .inl (returning task (mine noted.1 (by rw [stage]; rfl)))
  | refused held | uncounted held =>
      rw [stage] at noted
      exact .inr (refused task (mine noted.1 (by rw [stage]; rfl)))
  | _ => cases pc <;> cases stage

omit [DecidableEq ι] [Fintype ι] in
theorem addTotal_word (memory : Memory ι) (delta : Int) :
    (memory.addTotal delta).totalWord = memory.totalWord + BitVec.ofInt 32 delta := by
  rw [Memory.totalWord, Memory.totalWord, ← BitVec.ofInt_add, ← BitVec.toInt_inj, BitVec.toInt_ofInt,
    BitVec.toInt_ofInt]
  exact Int.bmod_bmod

omit [DecidableEq ι] [Fintype ι] in
theorem created_or (noted : pc.phase.Noted memory note) :
    (Pc.submit pc).createdTask.or note.task = note.task := by
  cases pc with
  | count ticket => exact noted.1.symm
  | _ => rfl

omit [DecidableEq ι] [Fintype ι] in
theorem Phase.Noted.transfer {phase : Phase} {other : CallNote} (noted : phase.Noted memory note)
    (task : other.task = note.task) (stands : other.Stands note.insertions note.total note.inFlight)
    (refused : memory.journal.refused ⊆ after.journal.refused) : phase.Noted after other := by
  obtain ⟨insertions, total, inFlight⟩ := stands
  cases phase with
  | announced =>
      simp only [Phase.Noted, CallNote.Stands, task, insertions, total, inFlight] at noted ⊢
      exact ⟨fun task known => refused (noted.1 task known), noted.2⟩
  | taken | running | finished | retiring => exact trivial
  | _ => simpa only [Phase.Noted, CallNote.Stands, task, insertions, total, inFlight] using noted

omit [DecidableEq ι] [Fintype ι] in
/-- A step that leaves the phase and the counters alone. -/
theorem noted_quiet {there : SubmitPc} {own : Bool} (noted : pc.phase.Noted memory note)
    (same : there.phase = pc.phase) (none : entered memory after note.task = 0)
    (quiet : own = false ∨ (after.totalWord = memory.totalWord ∧
      after.inFlightSubmits = memory.inFlightSubmits))
    (refused : memory.journal.refused ⊆ after.journal.refused) :
    there.phase.Noted after
      (note.next own ((Pc.submit there).createdTask.or note.task) memory after) := by
  have unchanged : (Pc.submit there).createdTask.or note.task = note.task :=
    created_or (show there.phase.Noted memory note by rwa [same])
  rw [unchanged, same]
  refine noted.transfer rfl ⟨?_, ?_, ?_⟩ refused
  · rw [CallNote.next, none, Nat.add_zero]
  · rcases quiet with rfl | ⟨total, _⟩
    · simp [CallNote.next]
    · simp [CallNote.next, total]
  · rcases quiet with rfl | ⟨_, inFlight⟩
    · simp [CallNote.next]
    · simp [CallNote.next, inFlight]

omit [DecidableEq ι] [Fintype ι] in
theorem CallNote.Stands.advance {insertions entries : Nat} {total inFlight more calls : BitVec 32}
    {task : Option Addr} (stands : note.Stands insertions total inFlight)
    (enters : entered memory after task = entries) (totals : after.totalWord = memory.totalWord + more)
    (submits : after.inFlightSubmits = memory.inFlightSubmits + calls) :
    (note.next true task memory after).Stands (insertions + entries) (total + more)
      (inFlight + calls) := by
  obtain ⟨rfl, rfl, rfl⟩ := stands
  refine ⟨by rw [← enters]; rfl, ?_, ?_⟩
  · change note.total + (after.totalWord - memory.totalWord) = _
    rw [totals, BitVec.add_comm memory.totalWord, BitVec.add_sub_cancel]
  · change note.inFlight + (after.inFlightSubmits - memory.inFlightSubmits) = _
    rw [submits, BitVec.add_comm memory.inFlightSubmits, BitVec.add_sub_cancel]

omit [Fintype ι] in
/-- What the writes of the call itself do to the notes. -/
theorem noted_write (writes : Writes i memory (.submit pc) after next)
    (noted : pc.phase.Noted memory note)
    (rejected : ∀ task ∈ pc.phase.share .rejected, task ∈ memory.journal.refused)
    (entries : entered memory after (next.createdTask.or note.task) = next.pushed) :
    next.Noted after (note.next true (next.createdTask.or note.task) memory after) := by
  have kept : ∀ {memory : Memory ι}, memory.totalWord = memory.totalWord + 0#32 ∧
      memory.inFlightSubmits = memory.inFlightSubmits + 0#32 := by
    intro memory
    simp
  cases writes with
  | announce args =>
      obtain ⟨none, stands⟩ := noted
      refine ⟨fun task known => ?_, stands.advance entries kept.1 rfl⟩
      cases none.symm.trans known
  | create args => exact ⟨rfl, noted.2.advance entries kept.1 kept.2⟩
  | createFails | stamp | full | insert => exact ⟨noted.1, noted.2.advance entries kept.1 kept.2⟩
  | count | uncount => exact ⟨noted.1, noted.2.advance entries (addTotal_word ..) kept.2⟩
  | leave ticket => exact (noted.2.advance entries kept.1 (BitVec.sub_eq_add_neg ..)).1
  | discard ticket =>
      obtain ⟨mine, stands⟩ := noted
      refine ⟨fun task known => rejected task ?_, stands.advance entries kept.1 kept.2⟩
      rw [← Option.some.inj (mine.symm.trans known)]
      exact Multiset.mem_singleton_self _
  | fail errno => exact ⟨noted.1, noted.2.advance entries kept.1 (BitVec.sub_eq_add_neg ..)⟩

/-- The insertion puts the block of the call into the queue once. -/
theorem insert_enters (balanced : config.memory.Balanced (holding config Phase.share)) {ticket : Ticket}
    {max : Nat} (here : config.point i = .submit (.insert ticket max))
    (writes : Writes i config.memory (.submit (.insert ticket max)) after
      (.submit (.unlockInserted ticket))) :
    entered config.memory after (some ticket.task) = 1 := by
  obtain ⟨lanes, books⟩ := balanced
  have mine : ticket.task ∈ holding config Phase.share .pending :=
    share_held config i (by rw [here]; exact Multiset.mem_singleton_self _)
  have unqueued := books.pending_not_queued mine
  cases writes with
  | insert _ _ pq room inserted =>
      obtain ⟨record, found⟩ : ∃ record, config.memory.pq.heap ticket.task = some record :=
        Option.isSome_iff_exists.mp (books.allocated _ (Multiset.mem_add.mpr (.inl mine)))
      obtain ⟨grown, result, represents, _⟩ :=
        PriorityQueue.insert_spec books.represents found unqueued
      obtain rfl : grown = pq := Option.some.inj (result.symm.trans inserted)
      rw [entered, represents.lanes_eq, books.represents.lanes_eq, Lanes.contents_push,
        Multiset.count_cons_self, Nat.add_sub_cancel_left]

omit [DecidableEq ι] [Fintype ι] in
theorem reads_submit (reads : Reads memory (.submit pc) next) :
    ∃ there, next = .submit there ∧ there.phase = pc.phase := by
  cases reads <;> exact ⟨_, rfl, rfl⟩

omit [DecidableEq ι] [Fintype ι] in
theorem syncs_submit (syncs : Syncs (.submit pc) next) :
    ∃ there, next = .submit there ∧ there.phase = pc.phase := by
  cases syncs <;> exact ⟨_, rfl, rfl⟩

omit [DecidableEq ι] [Fintype ι] in
theorem behind_submit {access : Pc} (behind : Behind (.submit pc) access) :
    ∃ there, access = .submit there ∧ there.phase = pc.phase := by
  rcases behind with rfl | syncs
  · exact ⟨pc, rfl, rfl⟩
  · exact syncs_submit syncs

/-- A step during the call keeps the notes in line with the program point. -/
theorem noted_step (balanced : config.memory.Balanced (holding config Phase.share))
    (here : config.point i = .submit pc) (moves : Moves pool config label final)
    (noted : pc.phase.Noted config.memory note) :
    (final.point i).Noted final.memory
      (note.next (ownStep i label) ((final.point i).createdTask.or note.task) config.memory
        final.memory) := by
  have refused := (moves_journal moves).2
  have idle : final.memory = config.memory → entered config.memory final.memory note.task = 0 := by
    intro same
    cases task : note.task <;> simp [entered, same]
  cases submit_turn here moves with
  | others same quiet =>
      have none := entered_zero balanced moves (phase_decided balanced moves here same noted)
      rw [same, here]
      refine noted_quiet noted rfl none (quiet.imp_right fun memory => ?_) refused
      rw [memory]
      exact ⟨rfl, rfl⟩
  | sync syncs memory =>
      rw [here] at syncs
      obtain ⟨there, arrives, phase⟩ := syncs_submit syncs
      rw [arrives]
      exact noted_quiet noted phase (idle memory) (.inr (by rw [memory]; exact ⟨rfl, rfl⟩)) refused
  | read behind reads memory =>
      rw [here] at behind
      obtain ⟨middle, rfl, first⟩ := behind_submit behind
      obtain ⟨there, arrives, second⟩ := reads_submit reads
      rw [arrives]
      exact noted_quiet noted (second.trans first) (idle memory)
        (.inr (by rw [memory]; exact ⟨rfl, rfl⟩)) refused
  | @write access behind writes own =>
      have stage : ∀ {account}, (config.point i).phase.share account = pc.phase.share account := by
        rw [here]
        exact rfl
      obtain ⟨middle, rfl, first⟩ := behind_submit (by rwa [here] at behind)
      rw [own]
      rw [← first] at noted
      refine noted_write writes noted ?_ ?_
      · intro task held
        obtain ⟨lanes, books⟩ := balanced
        rw [first, ← stage] at held
        exact books.rejected task (share_held config i held)
      · rcases writes_accepted writes with ⟨same, none⟩ | ⟨ticket, max, access, arrives, _⟩
        · rw [none]
          apply entered_zero balanced moves
          intro task _
          rw [same]
          exact Decidable.em _
        · cases access
          rw [arrives] at writes ⊢
          have mine : note.task = some ticket.task := noted.1
          change entered config.memory final.memory note.task = 1
          rw [mine]
          exact insert_enters balanced (behind_insert behind) writes

end Phases

end ThreadPool.Pool
