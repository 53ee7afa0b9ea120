import Mathlib.Algebra.Group.Nat.Defs
import Mathlib.Data.List.Basic

namespace ThreadPool.Server

/-! # The stats snapshot

`format_stats_json` reads the gauges one after the other while other threads change them,
and the flags of the workers twice. A snapshot whose gauges do not change in the meantime
is the one of `Gauges.snapshot`.
-/

/-- What the stats are read from: the `busy` flags that `worker_capacity_busy` visits (those
of the first `num_workers` modulo 2^16 workers), the counter of the pool and the two
counters of the server. -/
structure Gauges where
  busy : List Bool
  totalTaskInSystem : Int
  activeConnections : Nat
  totalServed : Nat
deriving DecidableEq

/-- The fields of `server_ctx_t` that never change: whether there is a pool, and the number
of workers asked for. -/
structure Context where
  pool : Bool
  workers : Int

/-- The loop body of `worker_capacity_busy`, on a `uint16_t`. -/
def countBusy (count : Nat) (flag : Bool) : Nat :=
  if flag then (count + 1) % 2 ^ 16 else count

def workerCapacityBusy (flags : List Bool) : Nat := flags.foldl countBusy 0

/-- `thread_pool_queue_depth`, behind its loads. -/
def queueDepth (total : Int) (busy : Nat) : Nat :=
  if total ≤ busy then 0 else (total - busy).toNat

/-- The text that `format_stats_json` prints. -/
def statsJson (workers : Int) (busy depth active served : Nat) : String :=
  "\x7b\"workers\":" ++ toString workers ++ ",\"busy\":" ++ toString busy ++
    ",\"queue_depth\":" ++ toString depth ++ ",\"active_connections\":" ++ toString active ++
    ",\"total_served\":" ++ toString served ++ "\x7d"

/-- The loads of `format_stats_json` with the values read before: the flag of worker `k`,
`total_task_in_system`, the flags again, and the counters of the server. -/
inductive SnapshotPc where
  | busy (k count : Nat)
  | total (busy : Nat)
  | busyAgain (busy : Nat) (total : Int) (k count : Nat)
  | active (busy depth : Nat)
  | served (busy depth active : Nat)
deriving DecidableEq

variable {context : Context} {gauges : Gauges}

/-- Without a pool both queries return 0. -/
def Context.startSnapshot (context : Context) : SnapshotPc :=
  if context.pool then .busy 0 0 else .active 0 0

/-- The next load, or the printed text. -/
def formatStatsJson (context : Context) (gauges : Gauges) : SnapshotPc → SnapshotPc ⊕ String
  | .busy k count => .inl (match gauges.busy[k]? with
      | some flag => .busy (k + 1) (countBusy count flag)
      | none => .total count)
  | .total busy => .inl (.busyAgain busy gauges.totalTaskInSystem 0 0)
  | .busyAgain busy total k count => .inl (match gauges.busy[k]? with
      | some flag => .busyAgain busy total (k + 1) (countBusy count flag)
      | none => .active busy (queueDepth total count))
  | .active busy depth => .inl (.served busy depth gauges.activeConnections)
  | .served busy depth active => .inr
      (statsJson (if context.pool then context.workers else 0) busy depth active gauges.totalServed)

/-- The text of a snapshot that is taken in one instant. -/
def Gauges.snapshot (gauges : Gauges) (context : Context) : String :=
  let busy := workerCapacityBusy gauges.busy
  if context.pool then
    statsJson context.workers busy (queueDepth gauges.totalTaskInSystem busy)
      gauges.activeConnections gauges.totalServed
  else statsJson 0 0 0 gauges.activeConnections gauges.totalServed

/-- The values of `busy` and `queue_depth` in such a snapshot. -/
def Gauges.load (gauges : Gauges) (context : Context) : Nat × Nat :=
  let busy := workerCapacityBusy gauges.busy
  if context.pool then (busy, queueDepth gauges.totalTaskInSystem busy) else (0, 0)

/-- The values that were read so far are those of the gauges. -/
def SnapshotPc.Agrees (context : Context) (gauges : Gauges) : SnapshotPc → Prop
  | .busy k count => context.pool = true ∧ count = workerCapacityBusy (gauges.busy.take k)
  | .total working => context.pool = true ∧ working = workerCapacityBusy gauges.busy
  | .busyAgain working tasks k count =>
      context.pool = true ∧ working = workerCapacityBusy gauges.busy ∧
        tasks = gauges.totalTaskInSystem ∧ count = workerCapacityBusy (gauges.busy.take k)
  | .active working depth => (working, depth) = gauges.load context
  | .served working depth connections =>
      (working, depth) = gauges.load context ∧ connections = gauges.activeConnections

theorem capacity_succ {flags : List Bool} {k count : Nat} {flag : Bool} (here : flags[k]? = some flag)
    (counted : count = workerCapacityBusy (flags.take k)) :
    countBusy count flag = workerCapacityBusy (flags.take (k + 1)) := by
  rw [workerCapacityBusy, List.take_add_one, here, List.foldl_append, counted]
  rfl

theorem capacity_end {flags : List Bool} {k count : Nat} (here : flags[k]? = none)
    (counted : count = workerCapacityBusy (flags.take k)) : count = workerCapacityBusy flags := by
  rw [counted, List.take_of_length_le (List.getElem?_eq_none_iff.mp here)]

theorem startSnapshot_agrees : context.startSnapshot.Agrees context gauges := by
  cases pool : context.pool with
  | true => simp [Context.startSnapshot, pool, SnapshotPc.Agrees, workerCapacityBusy]
  | false => simp [Context.startSnapshot, pool, SnapshotPc.Agrees, Gauges.load]

/-- While the gauges stay as they are, a snapshot keeps agreeing with them. -/
theorem formatStatsJson_agrees {pc next : SnapshotPc} (agrees : pc.Agrees context gauges)
    (read : formatStatsJson context gauges pc = .inl next) : next.Agrees context gauges := by
  cases pc with
  | busy k count =>
      obtain ⟨pool, counted⟩ := agrees
      cases read
      split
      case h_1 flag here => exact ⟨pool, capacity_succ here counted⟩
      case h_2 here => exact ⟨pool, capacity_end here counted⟩
  | total busy =>
      obtain ⟨pool, counted⟩ := agrees
      cases read
      exact ⟨pool, counted, rfl, rfl⟩
  | busyAgain busy total k count =>
      obtain ⟨pool, counted, loaded, again⟩ := agrees
      cases read
      split
      case h_1 flag here => exact ⟨pool, counted, loaded, capacity_succ here again⟩
      case h_2 here =>
        simp only [SnapshotPc.Agrees, Gauges.load, if_pos pool]
        rw [counted, loaded, capacity_end here again]
  | active busy depth =>
      cases read
      exact ⟨agrees, rfl⟩
  | served => cases read

theorem formatStatsJson_snapshot {pc : SnapshotPc} {payload : String}
    (agrees : pc.Agrees context gauges) (printed : formatStatsJson context gauges pc = .inr payload) :
    payload = gauges.snapshot context := by
  cases pc with
  | served busy depth active =>
      obtain ⟨loaded, rfl⟩ := agrees
      cases printed
      cases pool : context.pool with
      | true =>
          simp only [Gauges.load, pool, if_true, Prod.mk.injEq] at loaded
          simp [Gauges.snapshot, pool, loaded]
      | false =>
          simp only [Gauges.load, pool, Bool.false_eq_true, if_false, Prod.mk.injEq] at loaded
          simp [Gauges.snapshot, pool, loaded]
  | _ => cases printed

end ThreadPool.Server
