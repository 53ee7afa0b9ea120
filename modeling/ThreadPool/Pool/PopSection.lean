import ThreadPool.Pool.Mutexes

namespace ThreadPool.Pool

open Foundation

/-! # Inside `pq_pop_until_shutdown`

A worker that has found the queue empty still finds it empty when it goes to sleep or
gives up: it holds `pq_mutex` all the time, and only its holder moves tasks.
-/

/-- The points of `pq_pop_until_shutdown` behind a failed test of the mask. -/
def Pc.seesEmpty : Pc → Bool
  | .worker .popShutdown => true
  | .worker .popWait => true
  | .worker .unlockNull => true
  | _ => false

section Transitions

variable {ι : Type} [DecidableEq ι] {me : ι} {memory after : Memory ι} {pc next : Pc}

omit [DecidableEq ι] in
theorem reads_seesEmpty (reads : Reads memory pc next) (sees : next.seesEmpty = true) :
    pc.seesEmpty = true := by
  cases reads with
  | popNull | popSleep => rfl
  | call _ _ entry => cases entry <;> cases sees
  | _ => cases sees

theorem syncs_seesEmpty (syncs : Syncs pc next) : next.seesEmpty = false := by
  cases syncs <;> rfl

theorem writes_seesEmpty (writes : Writes me memory pc after next) (sees : next.seesEmpty = true) :
    after.pq.readyMask = 0 := by
  cases writes with
  | popEmpty empty => exact empty
  | _ => cases sees

theorem seesEmpty_holds (sees : pc.seesEmpty = true) : pc.holds .pqMutex = true := by
  cases pc with
  | worker pc => cases pc <;> first | rfl | cases sees
  | _ => cases sees

/-- Only the holder of `pq_mutex` changes the mask. -/
theorem writes_mask (writes : Writes me memory pc after next) (outside : pc.holds .pqMutex ≠ true) :
    after.pq.readyMask = memory.pq.readyMask := by
  cases writes with
  | insert | pop | promote | destroyQueue => exact absurd rfl outside
  | _ => rfl

end Transitions

section Outline

variable {ι : Type} [DecidableEq ι] [Fintype ι]

def seenEmpty (_ : ι) (pc : Pc) (memory : Memory ι) : Prop :=
  pc.seesEmpty = true → memory.pq.readyMask = 0

omit [Fintype ι] in
theorem pop_outline :
    Outline (pool : Program ι Mutex Cond (Memory ι) Pc Input) Pc.holds (fun _ => True) seenEmpty where
  read _ seen read result sees := seen (reads_seesEmpty (code_reads read result) sees)
  act _ _ act result := ⟨trivial, writes_seesEmpty (code_writes act result)⟩
  sync _ sync _ sees := by
    rw [syncs_seesEmpty (code_syncs sync)] at sees
    cases sees
  wait wait _ sees := by
    rw [syncs_seesEmpty (code_syncs (congrArg Instr.sync wait))] at sees
    cases sees
  fork _ fork result _ := by
    obtain ⟨_, rfl, ⟨_, _, _, rfl⟩ | ⟨_, _, rfl⟩⟩ := fork_result fork result
    · exact ⟨trivial, nofun, nofun⟩
    · exact ⟨trivial, nofun, nofun⟩
  stable _ _ _ seen apart act result sees := by
    rw [writes_mask (code_writes act result), seen sees]
    intro held
    exact apart .pqMutex ⟨held, seesEmpty_holds sees⟩
  stableFork _ _ seen fork result sees := by
    obtain ⟨_, _, ⟨_, _, rfl, _⟩ | ⟨_, rfl, _⟩⟩ := fork_result fork result
    · exact seen sees
    · exact seen sees

theorem reachable_owned {allowed : PoolConfig ι → Label ι Input → Prop} {roles : ι → Role}
    {idCount : Nat} {config : PoolConfig ι}
    (reaches : Reaches pool allowed (threadPoolInit roles idCount) config) :
    Owned Pc.holds config :=
  reaches.owned pool_disciplined (init_owned roles idCount)

/-- A worker behind its test of the mask faces an empty queue. -/
theorem reachable_seenEmpty {allowed : PoolConfig ι → Label ι Input → Prop} {roles : ι → Role}
    {idCount : Nat} {config : PoolConfig ι} {i : ι}
    (reaches : Reaches pool allowed (threadPoolInit roles idCount) config)
    (sees : (config.point i).seesEmpty = true) : config.memory.pq.readyMask = 0 := by
  have initial : Outlined (fun _ => True) seenEmpty (threadPoolInit roles idCount) := by
    refine ⟨trivial, ?_, nofun⟩
    intro j point ready sees
    cases ready
    cases role : roles j <;> simp [role, Role.start, Pc.seesEmpty] at sees
  have outlined := reaches.outlined pool_disciplined pop_outline (init_owned roles idCount) initial
  exact outlined.assertion i sees

end Outline

end ThreadPool.Pool
