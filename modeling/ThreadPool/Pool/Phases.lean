import ThreadPool.Pool.Transitions

namespace ThreadPool.Pool

open Foundation

/-! # Phases of a task

The program points of a submit call and of a worker, seen as phases in the life of
the task they handle. Reads and synchronisation never change a phase, so a quantity
that depends on phases is balanced by looking at the writes alone.
-/

/-- What a thread is doing with a task. -/
inductive Phase where
  | idle
  /-- A submit call that holds no task. -/
  | announced
  /-- The task is created, and counted in `total_task_in_system` from `counted` on. -/
  | created (task : Addr)
  | counted (task : Addr)
  /-- The task was pushed; the call has not returned yet. -/
  | inserted (task : Addr)
  /-- The push was refused; the task is no longer counted from `uncounted` on. -/
  | refused (task : Addr)
  | uncounted (task : Addr)
  /-- A worker has popped the task. -/
  | taken (task : Addr)
  | running (task : Addr)
  | finished (task : Addr)
  /-- A worker has freed the task, which is still counted. -/
  | retiring

def SubmitPc.phase : SubmitPc → Phase
  | .announce _ => .idle
  | .checkShutdown _ => .announced
  | .loadMax _ => .announced
  | .loadDepth .. => .announced
  | .create _ => .announced
  | .count ticket => .created ticket.task
  | .checkAging ticket => .counted ticket.task
  | .stamp ticket => .counted ticket.task
  | .lockQueue ticket => .counted ticket.task
  | .loadCap ticket => .counted ticket.task
  | .insert ticket _ => .counted ticket.task
  | .unlockInserted ticket => .inserted ticket.task
  | .signal ticket => .inserted ticket.task
  | .leave ticket => .inserted ticket.task
  | .unlockFull ticket => .refused ticket.task
  | .uncount ticket => .refused ticket.task
  | .discard ticket => .uncounted ticket.task
  | .fail _ => .announced

def WorkerPc.phase : WorkerPc → Phase
  | .unlockPopped task => .taken task
  | .setBusy task => .taken task
  | .call task => .taken task
  | .running task => .running task
  | .destroy task => .finished task
  | .clearBusy => .retiring
  | .decrement => .retiring
  | _ => .idle

def Pc.phase : Pc → Phase
  | .submit pc => pc.phase
  | .worker pc => pc.phase
  | _ => .idle

/-- Only writes change the phase of a thread. -/
theorem reads_phase {ι : Type} {memory : Memory ι} {pc next : Pc} (reads : Reads memory pc next) :
    next.phase = pc.phase := by
  cases reads with
  | call last next entry => cases entry <;> rfl
  | _ => rfl

theorem syncs_phase {pc next : Pc} (syncs : Syncs pc next) : next.phase = pc.phase := by
  cases syncs <;> rfl

section Ledger

variable {ι : Type} [DecidableEq ι] [Fintype ι] {M : Type} [AddCommMonoid M] {share : Phase → M}
  {config after : PoolConfig ι} {label : Label ι Input}

omit [Fintype ι] [AddCommMonoid M] in
theorem phase_steady (share : Phase → M) :
    Steady (pool : Program ι Mutex Cond (Memory ι) Pc Input) fun pc => share pc.phase where
  sync sync := congrArg share (syncs_phase (code_syncs sync))
  read read result := congrArg share (reads_phase (code_reads read result))
  created fork dormant := by
    obtain ⟨_, rfl, _⟩ := code_fork fork
    rw [of_decide_eq_true dormant]
    rfl

/-- What the threads hold in their phases. -/
def holding (config : PoolConfig ι) (share : Phase → M) : M :=
  config.total fun pc => share pc.phase

/-- A step changes what the threads hold by what one write changes. -/
theorem moves_holding (share : Phase → M) (moves : Moves pool config label after) :
    (after.memory = config.memory ∧ holding after share = holding config share) ∨
      (∃ i pc next rest, Behind (config.point i) pc ∧ Writes i config.memory pc after.memory next ∧
        holding config share = share pc.phase + rest ∧
        holding after share = share next.phase + rest) ∨
      ∃ tid, after.memory = { config.memory with agingTid := some tid } ∧
        holding after share = holding config share := by
  cases moves.transfer (phase_steady share) with
  | still memory total => exact .inl ⟨memory, total⟩
  | act arrives code result old new =>
      have behind := arrives_behind arrives
      exact .inr (.inl ⟨_, _, _, _, behind, code_writes code result, old, new⟩)
  | fork code result old new =>
      obtain ⟨rfl, _, ⟨tid, _, memory, rfl⟩ | ⟨_, memory, rfl⟩⟩ := fork_result code result
      · exact .inr (.inr ⟨tid, memory, new.trans old.symm⟩)
      · exact .inl ⟨memory, new.trans old.symm⟩

omit [DecidableEq ι] in
theorem holding_init (share : Phase → M) (idle : share .idle = 0) (roles : ι → Role) (idCount : Nat) :
    holding (threadPoolInit roles idCount) share = 0 := by
  have start : ∀ role : Role, role.start.phase = .idle := by intro role; cases role <;> rfl
  simp [holding, Config.total, threadPoolInit, Status.point, start, idle]

end Ledger

end ThreadPool.Pool
