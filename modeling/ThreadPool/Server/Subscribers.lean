import Mathlib.Algebra.Order.Group.Multiset
import ThreadPool.Foundation.Buffers
import ThreadPool.Foundation.Handles
import ThreadPool.Server.Events

namespace ThreadPool.Server.Subscribers

open Foundation

/-! # The table of subscribers

`sse_register`, `sse_send_all` and `sse_close_all` on the array of descriptors, each as one
call under the mutex of the table. The kernel reuses the number of a closed descriptor, so
a descriptor is a handle. A write or a close through a handle that has been closed would
reach nobody or another connection: there is no such step here, and the results say that
none is needed.
-/

abbrev Descriptors := Store (List Frame)

/-- `sse_clients`, with the open descriptors and the frames written to each of them. -/
structure SseClients where
  fds : Buffer Handle
  count : Nat
  descriptors : Descriptors

namespace SseClients

def start : SseClients := ⟨⟨maxSseClients, fun _ => ⟨0, 0⟩⟩, 0, {}⟩

def table (clients : SseClients) : List Handle := (List.range clients.count).map clients.fds.cell

end SseClients

def writeAll (descriptors : Descriptors) (fd : Handle) (frame : Frame) (success : Bool) :
    Option Descriptors :=
  if descriptors.Owns fd then
    some (if success then descriptors.modify fd (frame :: ·) else descriptors)
  else none

def close (descriptors : Descriptors) (fd : Handle) : Option Descriptors :=
  if descriptors.Owns fd then some (descriptors.release fd) else none

/-- The body of the loop of `sse_send_all`: whether the client is kept. -/
def sendTo (frame : Frame) (wrote : Handle → Bool) (descriptors : Descriptors) (cfd : Handle) :
    Option (Bool × Descriptors) := do
  let descriptors ← writeAll descriptors cfd frame (wrote cfd)
  if wrote cfd then return (true, descriptors)
  else return (false, ← close descriptors cfd)

def sseSendAll (clients : SseClients) (frame : Frame) (wrote : Handle → Bool) :
    Option SseClients := do
  let (n, descriptors, fds) ←
    Buffer.compact (sendTo frame wrote) clients.count 0 0 clients.descriptors clients.fds
  return { fds, count := n, descriptors }

def sseRegister (clients : SseClients) (fd : Handle) : Option (Int × SseClients) :=
  if clients.count < maxSseClients then do
    let fds ← clients.fds.store clients.count fd
    return (0, { clients with fds, count := clients.count + 1 })
  else return (-1, clients)

def sseCloseAll (clients : SseClients) : Option SseClients := do
  let descriptors ← clients.fds.visitAll close clients.count 0 clients.descriptors
  return { clients with descriptors, count := 0 }

/-- The calls on the table, and what their callers do between them: `accept` returns a
descriptor, a write or a `close` on one that is not in the table. -/
inductive Op where
  | accept (slot : Nat)
  | write (fd : Handle) (frame : Frame) (success : Bool)
  | close (fd : Handle)
  | register (fd : Handle)
  | sendAll (frame : Frame) (wrote : Handle → Bool)
  | closeAll

inductive Reply where
  | done
  | registered (rc : Int)

abbrev Event := Op × Reply

def exec (clients : SseClients) : Op → Option (Reply × SseClients)
  | .accept slot => do
      let (_, descriptors) ← clients.descriptors.acquire slot []
      return (.done, { clients with descriptors })
  | .write fd frame success => do
      let descriptors ← writeAll clients.descriptors fd frame success
      return (.done, { clients with descriptors })
  | .close fd => do
      let descriptors ← close clients.descriptors fd
      return (.done, { clients with descriptors })
  | .register fd => do
      let (rc, clients) ← sseRegister clients fd
      return (.registered rc, clients)
  | .sendAll frame wrote => do
      let clients ← sseSendAll clients frame wrote
      return (.done, clients)
  | .closeAll => do
      let clients ← sseCloseAll clients
      return (.done, clients)

/-- A caller has the open descriptors that are not in the table, and `accept` returns a
number that is not in use. -/
def Allowed (clients : SseClients) : Op → Prop
  | .accept slot => clients.descriptors.slots slot = none
  | .write fd _ _ => clients.descriptors.Owns fd ∧ fd ∉ clients.table
  | .close fd => clients.descriptors.Owns fd ∧ fd ∉ clients.table
  | .register fd => clients.descriptors.Owns fd ∧ fd ∉ clients.table
  | .sendAll .. => True
  | .closeAll => True

inductive Run : List Event → SseClients → Prop
  | start : Run [] .start
  | step {events clients op reply after} :
      Run events clients → Allowed clients op → exec clients op = some (reply, after) →
      Run (events ++ [(op, reply)]) after

/-- The descriptor that a call hands over to the table. -/
def registers : Event → Option Handle
  | (.register fd, .registered 0) => some fd
  | _ => none

def registeredFds (events : List Event) : List Handle := events.filterMap registers

section Invariant

variable {clients after : SseClients} {others : Multiset Handle} {fd : Handle} {frame : Frame}
  {wrote : Handle → Bool}

/-- The descriptors in use are those in the table and those of the callers. -/
structure Owned (clients : SseClients) (others : Multiset Handle) : Prop where
  size : clients.fds.size = maxSseClients
  count : clients.count ≤ maxSseClients
  exact : clients.descriptors.Exact (clients.table + others)

theorem owned_start : Owned .start 0 := ⟨rfl, Nat.zero_le _, .empty⟩

theorem holds_table (clients : SseClients) : clients.fds.Holds 0 clients.table := by
  intro i handle found
  simp only [SseClients.table, List.getElem?_map, Option.map_eq_some_iff] at found
  obtain ⟨k, inside, rfl⟩ := found
  obtain ⟨_, rfl⟩ := List.getElem?_eq_some_iff.mp inside
  simp

theorem table_of_holds {fds : Buffer Handle} {handles : List Handle} (held : fds.Holds 0 handles)
    (descriptors : Descriptors) : SseClients.table ⟨fds, handles.length, descriptors⟩ = handles := by
  refine List.ext_getElem (by simp [SseClients.table]) fun i short inside => ?_
  have here := held i handles[i] (by simp)
  simpa [SseClients.table] using here

theorem length_table (clients : SseClients) : clients.table.length = clients.count := by
  simp [SseClients.table]

theorem Owned.owns (owned : Owned clients others) :
    clients.descriptors.Owns fd ↔ fd ∈ clients.table ∨ fd ∈ others := by
  rw [owned.exact.owns_iff, Multiset.mem_add, Multiset.mem_coe]

/-- An open descriptor that is not in the table is with a caller. -/
theorem Owned.caller (owned : Owned clients others)
    (outside : clients.descriptors.Owns fd ∧ fd ∉ clients.table) : ∃ rest, others = fd ::ₘ rest :=
  Multiset.exists_cons_of_mem ((owned.owns.mp outside.1).resolve_left outside.2)

theorem Owned.fits (owned : Owned clients others) : 0 + clients.table.length ≤ clients.fds.size := by
  rw [Nat.zero_add, length_table, owned.size]
  exact owned.count

theorem writeAll_spec {descriptors : Descriptors} {held : Multiset Handle}
    (exact : descriptors.Exact held) (owns : descriptors.Owns fd) (frame : Frame) (success : Bool) :
    ∃ next, writeAll descriptors fd frame success = some next ∧ next.Exact held ∧
      next.released = descriptors.released ∧ next.acquired = descriptors.acquired := by
  refine ⟨_, if_pos owns, ?_⟩
  cases success with
  | false => exact ⟨exact, rfl, rfl⟩
  | true => exact ⟨exact.modify fd (frame :: ·), rfl, rfl⟩

/-- Between two iterations of `sse_send_all`: the clients that were kept and those to come. -/
structure Sending (clients : SseClients) (others : Multiset Handle) (wrote : Handle → Bool)
    (kept rest : List Handle) (descriptors : Descriptors) : Prop where
  order : kept ++ rest.filter wrote = clients.table.filter wrote
  exact : descriptors.Exact (↑(kept ++ rest) + others)
  acquired : descriptors.acquired = clients.descriptors.acquired

theorem sending_step {kept rest : List Handle} {cfd : Handle} {descriptors : Descriptors}
    (frame : Frame) (sending : Sending clients others wrote kept (cfd :: rest) descriptors) :
    ∃ keep next, sendTo frame wrote descriptors cfd = some (keep, next) ∧
      Sending clients others wrote (if keep then kept ++ [cfd] else kept) rest next := by
  obtain ⟨order, exact, acquired⟩ := sending
  have owns : descriptors.Owns cfd := exact.owns_iff.mpr (by simp)
  obtain ⟨next, written, exact, _, same⟩ := writeAll_spec exact owns frame (wrote cfd)
  have acquired := same.trans acquired
  cases success : wrote cfd with
  | true =>
      rw [success] at written
      refine ⟨true, next, by simp [sendTo, written, success], ?_, ?_, acquired⟩
      · simpa [success] using order
      · simpa using exact
  | false =>
      have first : (↑(kept ++ cfd :: rest) + others : Multiset Handle) =
          cfd ::ₘ (↑(kept ++ rest) + others) := by
        rw [← Multiset.cons_add, Multiset.cons_coe]
        exact congrArg (· + others) (Multiset.coe_eq_coe.mpr List.perm_middle)
      have owns : next.Owns cfd := exact.owns_iff.mpr (by simp)
      rw [success] at written
      rw [first] at exact
      refine ⟨false, next.release cfd, by simp [sendTo, written, close, owns, success], ?_,
        exact.release, acquired⟩
      simpa [success] using order

/-- `sse_send_all` keeps the clients whose write succeeds, in their order. -/
theorem sendAll_spec (owned : Owned clients others) (frame : Frame) (wrote : Handle → Bool) :
    ∃ after, sseSendAll clients frame wrote = some after ∧
      after.table = clients.table.filter wrote ∧ Owned after others ∧
      after.descriptors.acquired = clients.descriptors.acquired := by
  have begins : Sending clients others wrote [] clients.table clients.descriptors :=
    ⟨rfl, owned.exact, rfl⟩
  obtain ⟨kept, descriptors, fds, looped, size, held, order, exact, acquired⟩ :=
    Buffer.compact_spec (Sending clients others wrote) (sending_step frame) begins nofun
      (holds_table clients) (Nat.zero_le _) owned.fits
  rw [List.filter_nil, List.append_nil] at order
  rw [List.append_nil] at exact
  rw [length_table, List.length_nil] at looped
  have table := table_of_holds held descriptors
  refine ⟨⟨fds, kept.length, descriptors⟩, by simp [sseSendAll, looped], table.trans order,
    ⟨size.trans owned.size, ?_, by rwa [table]⟩, acquired⟩
  have shorter := List.length_filter_le wrote clients.table
  rw [← order, length_table] at shorter
  exact shorter.trans owned.count

theorem closing_step {rest : List Handle} {cfd : Handle} {descriptors : Descriptors}
    (closing : descriptors.Exact (↑(cfd :: rest) + others)) :
    close descriptors cfd = some (descriptors.release cfd) ∧
      (descriptors.release cfd).Exact (↑rest + others) := by
  have owns : descriptors.Owns cfd := closing.owns_iff.mpr (by simp)
  rw [← Multiset.cons_coe, Multiset.cons_add] at closing
  exact ⟨if_pos owns, closing.release⟩

theorem closeAll_spec (owned : Owned clients others) :
    ∃ after, sseCloseAll clients = some after ∧ after.table = [] ∧ Owned after others ∧
      after.descriptors.acquired = clients.descriptors.acquired := by
  obtain ⟨descriptors, looped, exact, acquired⟩ := Buffer.visitAll_spec
    (fun (rest : List Handle) (descriptors : Descriptors) =>
      descriptors.Exact (↑rest + others) ∧ descriptors.acquired = clients.descriptors.acquired)
    (fun ⟨closing, acquired⟩ => ⟨_, (closing_step closing).1, (closing_step closing).2, acquired⟩)
    ⟨owned.exact, rfl⟩ (holds_table clients) owned.fits
  rw [length_table] at looped
  exact ⟨{ clients with descriptors, count := 0 }, by rw [sseCloseAll, looped]; rfl, rfl,
    ⟨owned.size, Nat.zero_le _, exact⟩, acquired⟩

/-- What a call does to the descriptors: those in the table stay there or are closed, and
one that it hands over is in the table. -/
structure Passes (clients : SseClients) (event : Event) (after : SseClients) : Prop where
  owned : ∃ others, Owned after others
  handed : ∀ fd, registers event = some fd → fd ∈ after.table
  kept : ∀ fd ∈ clients.table, fd ∈ after.table ∨ fd.origin ∈ after.descriptors.released
  released : clients.descriptors.released ⊆ after.descriptors.released

theorem Passes.of_same_table {event : Event} {descriptors : Descriptors} {held : Multiset Handle}
    (owned : Owned clients others) (exact : descriptors.Exact (clients.table + held))
    (released : descriptors.released = clients.descriptors.released)
    (handed : registers event = none) : Passes clients event { clients with descriptors } := by
  refine ⟨⟨held, owned.size, owned.count, exact⟩, fun fd some => ?_, fun fd member => .inl member,
    released.symm ▸ List.Subset.refl _⟩
  cases handed.symm.trans some

/-- What is neither in the table nor with a caller any more has been closed. -/
theorem Passes.of_dropped {event : Event} {others' : Multiset Handle} (dropped : Multiset Handle)
    (before : Owned clients others) (later : Owned after others')
    (acquired : after.descriptors.acquired = clients.descriptors.acquired)
    (held : ↑clients.table + others = ↑after.table + others' + dropped)
    (kept : ∀ fd ∈ clients.table, fd ∈ after.table ∨ fd ∈ dropped)
    (handed : ∀ fd, registers event = some fd → fd ∈ after.table) :
    Passes clients event after := by
  have exact := before.exact
  rw [held] at exact
  have released := exact.released_eq later.exact acquired
  have closed : ∀ origin, origin ∈ after.descriptors.released ↔
      origin ∈ dropped.map Handle.origin ∨ origin ∈ clients.descriptors.released := by
    intro origin
    rw [← Multiset.mem_coe, released, Multiset.mem_add, Multiset.mem_coe]
  refine ⟨⟨others', later⟩, handed, fun fd member => ?_,
    fun origin old => (closed origin).mpr (.inr old)⟩
  rcases kept fd member with stays | leaves
  · exact .inl stays
  · exact .inr ((closed _).mpr (.inl (Multiset.mem_map_of_mem _ leaves)))

theorem sendAll_passes (owned : Owned clients others) (frame : Frame) (wrote : Handle → Bool) :
    ∃ after, sseSendAll clients frame wrote = some after ∧
      Passes clients (.sendAll frame wrote, .done) after := by
  obtain ⟨after, sent, table, later, acquired⟩ := sendAll_spec owned frame wrote
  have split : (↑clients.table : Multiset Handle) =
      ↑after.table + ↑(clients.table.filter fun fd => !wrote fd) := by
    rw [table, Multiset.coe_add, Multiset.coe_eq_coe]
    exact (List.filter_append_perm wrote clients.table).symm
  refine ⟨after, sent, .of_dropped ↑(clients.table.filter fun fd => !wrote fd) owned later acquired
    ?_ ?_ nofun⟩
  · rw [split, add_right_comm]
  · intro fd member
    cases success : wrote fd <;> simp [table, member, success]

theorem closeAll_passes (owned : Owned clients others) :
    ∃ after, sseCloseAll clients = some after ∧ Passes clients (.closeAll, .done) after := by
  obtain ⟨after, closed, table, later, acquired⟩ := closeAll_spec owned
  refine ⟨after, closed, .of_dropped ↑clients.table owned later acquired ?_ ?_ nofun⟩
  · rw [table, Multiset.coe_nil, Multiset.zero_add, Multiset.add_comm]
  · exact fun fd member => .inr member

theorem register_passes (owned : Owned clients (fd ::ₘ others)) :
    ∃ rc after, sseRegister clients fd = some (rc, after) ∧
      Passes clients (.register fd, .registered rc) after := by
  by_cases room : clients.count < maxSseClients
  · have stored : clients.fds.store clients.count fd = some (clients.fds.put clients.count fd) :=
      Buffer.store_eq_some.mpr ⟨by rwa [owned.size], rfl⟩
    have table := table_of_holds ((holds_table clients).push fd) clients.descriptors
    rw [List.length_append, List.length_singleton, length_table] at table
    have held : (↑clients.table + fd ::ₘ others : Multiset Handle) =
        ↑(clients.table ++ [fd]) + others := by
      rw [← Multiset.coe_add, Multiset.coe_singleton, Multiset.add_assoc, Multiset.singleton_add]
    refine ⟨0, ⟨clients.fds.put clients.count fd, clients.count + 1, clients.descriptors⟩,
      by rw [sseRegister, if_pos room, stored]; rfl, ?_⟩
    have later : Owned ⟨clients.fds.put clients.count fd, clients.count + 1, clients.descriptors⟩
        others := by
      refine ⟨owned.size, room, ?_⟩
      rw [table, ← held]
      exact owned.exact
    refine .of_dropped 0 owned later rfl ?_ ?_ ?_
    · rw [table, held, Multiset.add_zero]
    · rw [table]
      exact fun fd member => .inl (List.mem_append_left _ member)
    · rw [table]
      rintro other ⟨⟩
      simp
  · exact ⟨-1, clients, if_neg room, .of_same_table owned owned.exact rfl rfl⟩

/-- A caller closes its own descriptor. -/
theorem close_passes (owned : Owned clients (fd ::ₘ others)) :
    ∃ descriptors, close clients.descriptors fd = some descriptors ∧
      Passes clients (.close fd, .done) { clients with descriptors } := by
  have exact := owned.exact
  rw [Multiset.add_cons] at exact
  refine ⟨_, if_pos (owned.owns.mpr (.inr (Multiset.mem_cons_self ..))), ?_⟩
  refine .of_dropped {fd} owned ⟨owned.size, owned.count, exact.release⟩ rfl ?_ ?_ nofun
  · change (↑clients.table + fd ::ₘ others : Multiset Handle) = ↑clients.table + others + {fd}
    rw [← Multiset.singleton_add, Multiset.add_comm {fd}, Multiset.add_assoc]
  · exact fun fd member => .inl member

/-- Every call that its caller may make returns. -/
theorem exec_passes {op : Op} (owned : Owned clients others) (allowed : Allowed clients op) :
    ∃ reply after, exec clients op = some (reply, after) ∧ Passes clients (op, reply) after := by
  cases op with
  | accept slot =>
      obtain ⟨fd, descriptors, acquired⟩ := Store.acquire_free allowed []
      have exact := owned.exact.acquire acquired
      have released := congrArg Store.released (Store.acquire_some acquired).2.2
      rw [← Multiset.add_cons] at exact
      exact ⟨.done, { clients with descriptors }, by rw [exec, acquired]; rfl,
        .of_same_table owned exact released rfl⟩
  | write fd frame success =>
      obtain ⟨descriptors, written, exact, released, _⟩ :=
        writeAll_spec owned.exact allowed.1 frame success
      exact ⟨.done, { clients with descriptors }, by rw [exec, written]; rfl,
        .of_same_table owned exact released rfl⟩
  | close fd =>
      obtain ⟨rest, rfl⟩ := owned.caller allowed
      obtain ⟨descriptors, closed, passes⟩ := close_passes owned
      exact ⟨.done, _, by rw [exec, closed]; rfl, passes⟩
  | register fd =>
      obtain ⟨rest, rfl⟩ := owned.caller allowed
      obtain ⟨rc, after, registered, passes⟩ := register_passes owned
      exact ⟨.registered rc, after, by rw [exec, registered]; rfl, passes⟩
  | sendAll frame wrote =>
      obtain ⟨after, sent, passes⟩ := sendAll_passes owned frame wrote
      exact ⟨.done, after, by rw [exec, sent]; rfl, passes⟩
  | closeAll =>
      obtain ⟨after, closed, passes⟩ := closeAll_passes owned
      exact ⟨.done, after, by rw [exec, closed]; rfl, passes⟩

end Invariant

section Runs

variable {events : List Event} {clients : SseClients}

theorem run_owned (run : Run events clients) :
    (∃ others, Owned clients others) ∧
      ∀ fd ∈ registeredFds events, fd ∈ clients.table ∨ fd.origin ∈ clients.descriptors.released := by
  induction run with
  | start => exact ⟨⟨0, owned_start⟩, nofun⟩
  | @step events clients op reply after run allowed executed ih =>
      obtain ⟨⟨others, owned⟩, registered⟩ := ih
      obtain ⟨reply', after', again, passes⟩ := exec_passes owned allowed
      cases executed.symm.trans again
      refine ⟨passes.owned, fun fd member => ?_⟩
      rw [registeredFds, List.filterMap_append, List.mem_append] at member
      rcases member with old | new
      · rcases registered fd old with inTable | closed
        · exact passes.kept fd inTable
        · exact .inr (passes.released closed)
      · refine .inl (passes.handed fd ?_)
        simpa using new

/-- Who owns the descriptors after a sequence of calls. -/
structure Ownership (events : List Event) (clients : SseClients) : Prop where
  count : clients.count ≤ maxSseClients
  distinct : (clients.table.map Handle.slot).Nodup
  registered : ∀ fd ∈ registeredFds events,
    (fd ∈ clients.table ∧ clients.descriptors.Owns fd ∧
        clients.descriptors.released.count fd.origin = 0) ∨
      (fd ∉ clients.table ∧ ¬ clients.descriptors.Owns fd ∧
        clients.descriptors.released.count fd.origin = 1)
  sends : ∀ frame wrote, ∃ after, sseSendAll clients frame wrote = some after ∧
    after.table = clients.table.filter wrote
  /-- A call that wrote to a closed descriptor or closed it again would not return. -/
  returns : ∀ op, Allowed clients op → ∃ reply after, exec clients op = some (reply, after)

theorem table_owns_its_clients (run : Run events clients) : Ownership events clients := by
  obtain ⟨⟨others, owned⟩, registered⟩ := run_owned run
  constructor
  case count => exact owned.count
  case distinct =>
    have apart := owned.exact.apart
    rw [Multiset.map_add, Multiset.nodup_add] at apart
    exact apart.1
  case registered =>
    intro fd member
    by_cases inTable : fd ∈ clients.table
    · have owns := owned.owns.mpr (.inl inTable)
      exact .inl ⟨inTable, owns, owned.exact.released_of_owns owns⟩
    · have closed := (registered fd member).resolve_left inTable
      have once := owned.exact.released_le fd.origin
      have some := List.count_pos_iff.mpr closed
      refine .inr ⟨inTable, fun owns => ?_, by omega⟩
      have never := owned.exact.released_of_owns owns
      omega
  case sends =>
    intro frame wrote
    obtain ⟨after, sent, table, _⟩ := sendAll_spec owned frame wrote
    exact ⟨after, sent, table⟩
  case returns =>
    intro op allowed
    obtain ⟨reply, after, executed, _⟩ := exec_passes owned allowed
    exact ⟨reply, after, executed⟩

/-- A client whose write fails is dropped, and the next connection gets its number. -/
theorem table_owns_its_clients_reusedNumber :
    ∃ events clients, registeredFds events = [⟨5, 0⟩, ⟨5, 1⟩] ∧ clients.table = [⟨5, 1⟩] ∧
      Ownership events clients := by
  have accepted : Run [(.accept 5, _)] _ := Run.start.step rfl rfl
  have registered : Run (_ ++ [(.register ⟨5, 0⟩, _)]) _ := accepted.step ⟨rfl, by decide⟩ rfl
  have dropped : Run (_ ++ [(.sendAll .ping fun _ => false, _)]) _ := registered.step trivial rfl
  have again : Run (_ ++ [(.accept 5, _)]) _ := dropped.step rfl rfl
  have run : Run (_ ++ [(.register ⟨5, 1⟩, _)]) _ := again.step ⟨rfl, by decide⟩ rfl
  exact ⟨_, _, rfl, rfl, table_owns_its_clients run⟩

end Runs

end ThreadPool.Server.Subscribers
