import ThreadPool.Foundation.EventStream
import ThreadPool.Foundation.Messages
import ThreadPool.Foundation.Records
import ThreadPool.Server.Delivery

namespace ThreadPool.Server

open Foundation

/-! # What a subscriber reads

The frames as they are on the wire, read by a client that knows the head of a response, the
format of an event stream and the one of a record. Writes may fail here, and the number
of a closed descriptor comes back with the next connection, also while `sse_send_all` is still
going through a table that contains it.
-/

/-! ## The stats -/

def statsMembers (workers : Int) (busy depth active served : Nat) : List Member :=
  [("workers".toList, workers), ("busy".toList, busy), ("queue_depth".toList, depth),
    ("active_connections".toList, active), ("total_served".toList, served)]

/-- The text of a payload, as the members of one record. -/
def readStats (text : List Char) : Option (List Member) :=
  match readRecord text with
  | some (members, []) => some members
  | _ => none

theorem toString_cast (value : Nat) : toString (value : Int) = toString value := rfl

theorem statsJson_text (workers : Int) (busy depth active served : Nat) :
    (statsJson workers busy depth active served).toList = recordText
      [("workers".toList, workers), ("busy".toList, (busy : Int)), ("queue_depth".toList, (depth : Int)),
        ("active_connections".toList, (active : Int))] ("total_served".toList, (served : Int)) := by
  have first : "\x7b\"workers\":".toList = ['\x7b'] ++ (['"'] ++ ("workers".toList ++ (['"'] ++ [':']))) := by
    decide
  have second : ",\"busy\":".toList = [','] ++ (['"'] ++ ("busy".toList ++ (['"'] ++ [':']))) := by decide
  have third : ",\"queue_depth\":".toList =
      [','] ++ (['"'] ++ ("queue_depth".toList ++ (['"'] ++ [':']))) := by decide
  have fourth : ",\"active_connections\":".toList =
      [','] ++ (['"'] ++ ("active_connections".toList ++ (['"'] ++ [':']))) := by decide
  have fifth : ",\"total_served\":".toList =
      [','] ++ (['"'] ++ ("total_served".toList ++ (['"'] ++ [':']))) := by decide
  have last : "\x7d".toList = ['\x7d'] := by decide
  show ("\x7b\"workers\":" ++ toString workers ++ ",\"busy\":" ++ toString busy ++
    ",\"queue_depth\":" ++ toString depth ++ ",\"active_connections\":" ++ toString active ++
    ",\"total_served\":" ++ toString served ++ "\x7d").toList = _
  simp only [String.toList_append, first, second, third, fourth, fifth, last, recordText,
    Member.text, toString_cast, List.flatMap_cons, List.flatMap_nil, List.append_assoc,
    List.nil_append]

theorem readStats_statsJson (workers : Int) (busy depth active served : Nat) :
    readStats (statsJson workers busy depth active served).toList =
      some (statsMembers workers busy depth active served) := by
  have spells := @readRecord_spells
    [("workers".toList, workers), ("busy".toList, (busy : Int)), ("queue_depth".toList, (depth : Int)),
      ("active_connections".toList, (active : Int))] ("total_served".toList, (served : Int))
    (by simp) (by simp)
  rw [readStats, statsJson_text, spells.whole]
  rfl

/-- The text is a snapshot of some gauges. -/
def IsStats (text : String) : Prop :=
  ∃ workers busy depth active served, text = statsJson workers busy depth active served

theorem IsStats.plain {text : String} (stats : IsStats text) : '\n' ∉ text.toList := by
  obtain ⟨workers, busy, depth, active, served, rfl⟩ := stats
  rw [statsJson_text]
  exact recordText_avoids (by decide) (by decide) (by simp) (by simp)

theorem formatStatsJson_stats {context : Context} {gauges : Gauges} {pc : SnapshotPc} {text : String}
    (printed : formatStatsJson context gauges pc = .inr text) : IsStats text := by
  cases pc with
  | served busy depth active =>
      cases printed
      exact ⟨_, _, _, _, _, rfl⟩
  | _ => cases printed

/-! ## Frames -/

def streamHeader : List Char :=
  ("HTTP/1.1 200 OK\r\n" ++ "Content-Type: text/event-stream\r\n" ++ "Cache-Control: no-cache\r\n" ++
    "Connection: keep-alive\r\n" ++ "X-Accel-Buffering: no\r\n" ++ "\r\n").toList

def pingText : List Char := ": ping\n\n".toList

namespace Frame

def text : Frame → List Char
  | header => streamHeader
  | data payload => ['d', 'a', 't', 'a', ':', ' '] ++ payload.toList ++ ['\n', '\n']
  | ping => pingText

def payload : Frame → Option String
  | data payload => some payload
  | _ => none

/-- A frame behind the header. -/
def Event : Frame → Prop
  | header => False
  | data payload => IsStats payload
  | ping => True

def entry : Frame → Entry
  | data payload => .data payload.toList
  | _ => .comment " ping".toList

theorem Event.text {frame : Frame} (event : frame.Event) : frame.text = frame.entry.text := by
  cases frame with
  | header => cases event
  | data payload => rfl
  | ping => decide

theorem Event.plain {frame : Frame} (event : frame.Event) : '\n' ∉ frame.entry.line := by
  cases frame with
  | header => cases event
  | data payload => simp [entry, Entry.line, IsStats.plain event]
  | ping => decide

theorem entry_payload (frame : Frame) : frame.entry.payload = frame.payload.map String.toList := by
  cases frame <;> rfl

end Frame

/-- The bytes of some frames; the newest frame comes first. -/
def stream (frames : List Frame) : List Char := frames.reverse.flatMap Frame.text

def payloads (frames : List Frame) : List String := frames.reverse.filterMap Frame.payload

/-- The stream has begun: the header is its oldest frame and the only one of its kind. -/
def Begun (frames : List Frame) : Prop :=
  ∃ later, frames = later ++ [.header] ∧ ∀ frame ∈ later, frame.Event

theorem Begun.push {frames : List Frame} {frame : Frame} (begun : Begun frames) (event : frame.Event) :
    Begun (frame :: frames) := by
  obtain ⟨later, rfl, events⟩ := begun
  refine ⟨frame :: later, rfl, fun other member => ?_⟩
  rcases List.mem_cons.mp member with rfl | inside
  · exact event
  · exact events other inside

theorem begun_header : Begun [.header] := ⟨[], rfl, by simp⟩

def streamHead : Head where
  start := "HTTP/1.1 200 OK".toList
  fields := [("Content-Type".toList, "text/event-stream".toList),
    ("Cache-Control".toList, "no-cache".toList), ("Connection".toList, "keep-alive".toList),
    ("X-Accel-Buffering".toList, "no".toList)]

theorem streamHead_plain : streamHead.Plain where
  start := by decide
  fields := List.forall_mem_cons.mpr ⟨⟨by decide, by decide⟩, List.forall_mem_cons.mpr
    ⟨⟨by decide, by decide⟩, List.forall_mem_cons.mpr ⟨⟨by decide, by decide⟩,
      List.forall_mem_singleton.mpr ⟨by decide, by decide⟩⟩⟩⟩

theorem streamHeader_text : streamHeader = streamHead.text := by decide +kernel

/-- What a client makes of a connection: nothing before the head of a stream of events is
complete, and then the events. -/
def readStream (text : List Char) : Option (List (List Char)) := do
  let (head, rest) ← readHead text
  if head.value "Content-Type".toList = some "text/event-stream".toList then some (readEvents rest)
  else none

theorem readStream_header (rest : List Char) :
    readStream (streamHeader ++ rest) = some (readEvents rest) := by
  have type : streamHead.value "Content-Type".toList = some "text/event-stream".toList := by decide
  rw [readStream, streamHeader_text, readHead_spells streamHead_plain rest, Option.bind_eq_bind,
    Option.bind_some]
  exact if_pos type

theorem readStream_part {part : List Char} (front : part <+: streamHeader) (short : part ≠ streamHeader) :
    readStream part = none := by
  rw [streamHeader_text] at front short
  rw [readStream, readHead_firm.truncated (readHead_spells streamHead_plain) front short]
  rfl

/-- A stream that has begun is read as its payloads, in the order of the writes. -/
theorem Begun.read {frames : List Frame} (begun : Begun frames) (part : List Char) :
    readStream (stream frames ++ part) =
      some ((payloads frames).map String.toList ++ readEvents part) := by
  obtain ⟨later, rfl, events⟩ := begun
  have text : later.reverse.flatMap Frame.text = (later.reverse.map Frame.entry).flatMap Entry.text := by
    rw [List.flatMap_map]
    exact List.flatMap_congr fun frame member => (events frame (List.mem_reverse.mp member)).text
  have spelled : stream (later ++ [.header]) =
      streamHeader ++ (later.reverse.map Frame.entry).flatMap Entry.text := by
    rw [← text, stream, List.reverse_append]
    rfl
  have plain : ∀ entry ∈ later.reverse.map Frame.entry, '\n' ∉ entry.line := by
    intro entry member
    obtain ⟨frame, inside, rfl⟩ := List.mem_map.mp member
    exact (events frame (List.mem_reverse.mp inside)).plain
  have read : (payloads (later ++ [.header])).map String.toList =
      (later.reverse.map Frame.entry).filterMap Entry.payload := by
    rw [payloads, List.reverse_append, List.filterMap_map]
    simp [List.map_filterMap, Frame.payload, Function.comp_def, Frame.entry_payload]
  rw [spelled, List.append_assoc, readStream_header, Entry.readEvents_entries plain, read]

/-! ## The table while writes fail

A client whose write fails is closed at once and leaves the table when the loop ends. Its
number may then belong to a new connection already, so that the table itself says less
than the part of it that counts.
-/

/-- The clients that are kept or still to be visited. -/
def Pc.live (clients : List Fd) : Pc → List Fd
  | .broadcaster (.send _ _ _ (.write _ i n)) => clients.take n ++ clients.drop i
  | _ => clients

/-- What a thread knows about the frames of its connection and about its payload. -/
def Pc.Staged (received : Fd → List Frame) : Pc → Prop
  | .admin (.snapshot fd _) => received fd = []
  | .admin (.writeHeader fd body) => received fd = [] ∧ IsStats body
  | .admin (.writeFrame fd body) => received fd = [.header] ∧ IsStats body
  | .admin (.lock fd _) => Begun (received fd)
  | .admin (.register fd _) => Begun (received fd)
  | .broadcaster (.compare _ _ _ payload) => IsStats payload
  | .broadcaster (.send _ _ payload (.write _ i n)) => (sentFrame payload).Event ∧ n ≤ i
  | .broadcaster (.send _ _ payload _) => (sentFrame payload).Event
  | _ => True

section Streams

variable {κ : Type} [DecidableEq κ] {memory after : Memory} {points : κ → Pc} {k : κ} {pc next : Pc}
  {live rest : List Fd}

theorem Pc.Staged.congr {received other : Fd → List Frame} (staged : pc.Staged received)
    (same : ∀ fd, pc.fd = some fd → other fd = received fd) : pc.Staged other := by
  cases pc with
  | admin pc =>
      cases pc with
      | snapshot fd | writeHeader fd | writeFrame fd | lock fd | register fd =>
          simpa only [Pc.Staged, same fd rfl] using staged
      | _ => trivial
  | broadcaster pc =>
      cases pc with
      | send b since payload pc => cases pc <;> exact staged
      | _ => exact staged
  | _ => trivial

structure Streaming (memory : Memory) (points : κ → Pc) (live : List Fd) : Prop where
  distinct : live.Nodup
  opened : ∀ fd ∈ live, memory.opened fd = true
  begun : ∀ fd ∈ live, Begun (memory.received fd)
  owned : ∀ {j fd}, (points j).fd = some fd → memory.opened fd = true ∧ fd ∉ live
  single : ∀ {i j fd}, (points i).fd = some fd → (points j).fd = some fd → i = j
  staged : ∀ j, (points j).Staged memory.received
  whole : ∀ fd, memory.received fd = [] ∨ Begun (memory.received fd)

/-- A step of thread `k`: what it must leave to the others. -/
theorem Streaming.update (streaming : Streaming memory points live) (distinct : rest.Nodup)
    (opened : ∀ fd ∈ rest, after.opened fd = true ∧ Begun (after.received fd))
    (mine : ∀ {fd}, next.fd = some fd → after.opened fd = true ∧ fd ∉ rest ∧
      ∀ j, j ≠ k → (points j).fd ≠ some fd)
    (others : ∀ {j fd}, j ≠ k → (points j).fd = some fd → after.opened fd = true ∧ fd ∉ rest ∧
      after.received fd = memory.received fd)
    (staged : next.Staged after.received)
    (whole : ∀ fd, after.received fd = [] ∨ Begun (after.received fd)) :
    Streaming after (Function.update points k next) rest where
  distinct := distinct
  opened fd member := (opened fd member).1
  begun fd member := (opened fd member).2
  owned {j fd} has := by
    by_cases same : j = k
    · subst same
      rw [Function.update_self] at has
      exact ⟨(mine has).1, (mine has).2.1⟩
    · rw [Function.update_of_ne same] at has
      exact ⟨(others same has).1, (others same has).2.1⟩
  single {i j fd} first second := by
    by_cases left : i = k <;> by_cases right : j = k
    · rw [left, right]
    · subst left
      rw [Function.update_self] at first
      rw [Function.update_of_ne right] at second
      exact absurd second ((mine first).2.2 j right)
    · subst right
      rw [Function.update_self] at second
      rw [Function.update_of_ne left] at first
      exact absurd first ((mine second).2.2 i left)
    · rw [Function.update_of_ne left] at first
      rw [Function.update_of_ne right] at second
      exact streaming.single first second
  staged j := by
    by_cases same : j = k
    · subst same
      rw [Function.update_self]
      exact staged
    · rw [Function.update_of_ne same]
      exact (streaming.staged j).congr fun fd has => (others same has).2.2
  whole := whole

/-- A step that leaves the descriptors and their frames alone. -/
theorem Streaming.quiet (streaming : Streaming memory points live) (here : points k = pc)
    (opened : after.opened = memory.opened) (received : after.received = memory.received)
    (keeps : next.fd = none ∨ next.fd = pc.fd) (staged : next.Staged memory.received) :
    Streaming after (Function.update points k next) live := by
  refine streaming.update streaming.distinct ?_ ?_ ?_ (by rw [received]; exact staged)
    (by rw [received]; exact streaming.whole)
  · intro fd member
    rw [opened, received]
    exact ⟨streaming.opened fd member, streaming.begun fd member⟩
  · intro fd has
    have mine : (points k).fd = some fd := by
      rcases keeps with none | same
      · rw [none] at has
        cases has
      · rw [here, ← same, has]
    rw [opened]
    exact ⟨(streaming.owned mine).1, (streaming.owned mine).2,
      fun j different has => different (streaming.single has mine)⟩
  · intro j fd _ has
    rw [opened, received]
    exact ⟨(streaming.owned has).1, (streaming.owned has).2, rfl⟩

omit [DecidableEq κ] in
/-- A frame that ends up in front of the others leaves every stream whole. -/
theorem Streaming.whole_write {fd : Fd} {frame : Frame} (streaming : Streaming memory points live)
    (begun : Begun (frame :: memory.received fd)) (other : Fd) :
    (memory.write fd frame).received other = [] ∨ Begun ((memory.write fd frame).received other) := by
  by_cases same : other = fd
  · subst same
    exact .inr (by simpa [Memory.write] using begun)
  · simpa [Memory.write, same] using streaming.whole other

/-- A handler writes to its connection. -/
theorem Streaming.write {fd : Fd} {frame : Frame} (streaming : Streaming memory points live)
    (here : (points k).fd = some fd) (keeps : next.fd = some fd)
    (begun : Begun (frame :: memory.received fd))
    (staged : next.Staged (memory.write fd frame).received) :
    Streaming (memory.write fd frame) (Function.update points k next) live := by
  obtain ⟨isOpen, outside⟩ := streaming.owned here
  refine streaming.update streaming.distinct ?_ ?_ ?_ staged (streaming.whole_write begun)
  · intro other member
    have different : other ≠ fd := by
      rintro rfl
      exact outside member
    simpa [Memory.write, different] using And.intro (streaming.opened other member)
      (streaming.begun other member)
  · intro other has
    cases keeps.symm.trans has
    exact ⟨isOpen, outside, fun j different has => different (streaming.single has here)⟩
  · intro j other different has
    refine ⟨(streaming.owned has).1, (streaming.owned has).2, Function.update_of_ne ?_ ..⟩
    rintro rfl
    exact different (streaming.single has here)

/-- The broadcaster writes to a client. -/
theorem Streaming.keep {fd : Fd} {frame : Frame} (streaming : Streaming memory points live)
    (member : fd ∈ live) (event : frame.Event) (free : next.fd = none)
    (staged : next.Staged memory.received) (received : after.received = (memory.write fd frame).received)
    (opened : after.opened = memory.opened) : Streaming after (Function.update points k next) live := by
  have begun := (streaming.begun fd member).push event
  refine streaming.update streaming.distinct ?_ (fun has => ?_) ?_
    (staged.congr fun other has => ?_) ?_
  · intro other inside
    rw [received, opened]
    refine ⟨streaming.opened other inside, ?_⟩
    by_cases same : other = fd
    · subst same
      simpa [Memory.write] using begun
    · simpa [Memory.write, same] using streaming.begun other inside
  · rw [free] at has
    cases has
  · intro j other _ has
    rw [received, opened]
    refine ⟨(streaming.owned has).1, (streaming.owned has).2, Function.update_of_ne ?_ ..⟩
    rintro rfl
    exact (streaming.owned has).2 member
  · rw [free] at has
    cases has
  · rw [received]
    exact streaming.whole_write begun

/-- The broadcaster closes a client whose write has failed. -/
theorem Streaming.drop {fd : Fd} {front back : List Fd}
    (streaming : Streaming memory points (front ++ fd :: back)) (free : next.fd = none)
    (staged : next.Staged memory.received) :
    Streaming (memory.close fd) (Function.update points k next) (front ++ back) := by
  have remaining : (front ++ back).Sublist (front ++ fd :: back) :=
    (List.Sublist.refl _).append (List.sublist_cons_self _ _)
  have gone : fd ∉ front ++ back := by
    have moved := (List.perm_middle.nodup_iff).mp streaming.distinct
    exact (List.nodup_cons.mp moved).1
  refine streaming.update (streaming.distinct.sublist remaining) ?_ (fun has => ?_) ?_ staged
    streaming.whole
  · intro other inside
    have different : other ≠ fd := by
      rintro rfl
      exact gone inside
    simpa [Memory.close, different] using And.intro (streaming.opened other (remaining.subset inside))
      (streaming.begun other (remaining.subset inside))
  · rw [free] at has
    cases has
  · intro j other _ has
    obtain ⟨isOpen, outside⟩ := streaming.owned has
    have different : other ≠ fd := by
      rintro rfl
      simp at outside
    exact ⟨by simpa [Memory.close, different] using isOpen,
      fun inside => outside (remaining.subset inside), rfl⟩

/-- A new connection has a number that nobody uses. -/
theorem Streaming.accept {fd : Fd} (streaming : Streaming memory points live)
    (closed : memory.opened fd = false) (gets : next.fd = some fd)
    (staged : next.Staged (memory.accept fd).received) :
    Streaming (memory.accept fd) (Function.update points k next) live := by
  have unused : ∀ {other}, memory.opened other = true → other ≠ fd := by
    rintro other isOpen rfl
    rw [closed] at isOpen
    cases isOpen
  refine streaming.update streaming.distinct ?_ ?_ ?_ staged ?_
  · intro other inside
    have different := unused (streaming.opened other inside)
    simpa [Memory.accept, different] using And.intro (streaming.opened other inside)
      (streaming.begun other inside)
  · intro other has
    cases gets.symm.trans has
    refine ⟨by simp [Memory.accept], fun inside => unused (streaming.opened fd inside) rfl, ?_⟩
    intro j _ has
    exact unused (streaming.owned has).1 rfl
  · intro j other _ has
    have different := unused (streaming.owned has).1
    simpa [Memory.accept, different] using streaming.owned has
  · intro other
    by_cases same : other = fd
    · exact .inl (by simp [Memory.accept, same])
    · simpa [Memory.accept, same] using streaming.whole other

theorem Streaming.register {fd : Fd} (streaming : Streaming memory points live)
    (here : (points k).fd = some fd) (begun : Begun (memory.received fd)) (free : next.fd = none)
    (staged : next.Staged memory.received) (clients : List Fd) :
    Streaming { memory with clients } (Function.update points k next) (live ++ [fd]) := by
  obtain ⟨isOpen, outside⟩ := streaming.owned here
  have distinct : (live ++ [fd]).Nodup := by
    simp only [List.nodup_append, List.nodup_singleton, List.mem_singleton, forall_eq, true_and]
    exact ⟨streaming.distinct, fun other inside same => outside (same ▸ inside)⟩
  refine streaming.update distinct ?_ (fun has => ?_) ?_ staged streaming.whole
  · intro other inside
    rcases List.mem_append.mp inside with old | new
    · exact ⟨streaming.opened other old, streaming.begun other old⟩
    · rw [List.mem_singleton.mp new]
      exact ⟨isOpen, begun⟩
  · rw [free] at has
    cases has
  · intro j other different has
    refine ⟨(streaming.owned has).1, fun inside => ?_, rfl⟩
    rcases List.mem_append.mp inside with old | new
    · exact (streaming.owned has).2 old
    · cases List.mem_singleton.mp new
      exact different (streaming.single has here)

theorem Streaming.close {fd : Fd} (streaming : Streaming memory points live)
    (here : (points k).fd = some fd) (free : next.fd = none) (staged : next.Staged memory.received) :
    Streaming (memory.close fd) (Function.update points k next) live := by
  refine streaming.update streaming.distinct ?_ (fun has => ?_) ?_ staged streaming.whole
  · intro other inside
    have different : other ≠ fd := by
      rintro rfl
      exact (streaming.owned here).2 inside
    simpa [Memory.close, different] using And.intro (streaming.opened other inside)
      (streaming.begun other inside)
  · rw [free] at has
    cases has
  · intro j other different has
    have another : other ≠ fd := by
      rintro rfl
      exact different (streaming.single has here)
    simpa [Memory.close, another] using streaming.owned has

theorem Streaming.closeAll (streaming : Streaming memory points memory.clients) (free : next.fd = none)
    (staged : next.Staged memory.received) :
    Streaming { memory with
        opened := fun fd => memory.opened fd && !memory.clients.contains fd
        clients := [] } (Function.update points k next) [] := by
  refine streaming.update List.nodup_nil (by simp) (fun has => ?_) ?_ staged streaming.whole
  · rw [free] at has
    cases has
  · intro j other _ has
    obtain ⟨isOpen, outside⟩ := streaming.owned has
    exact ⟨by simp [isOpen, outside], List.not_mem_nil, rfl⟩

/-! The part of the table that counts. -/

omit [DecidableEq κ] in
theorem live_outside (outside : pc.holds .clientsMutex = false) (clients : List Fd) :
    pc.live clients = clients := by
  cases pc with
  | broadcaster pc =>
      cases pc with
      | send b since payload pc =>
          cases pc with
          | write => cases outside
          | _ => rfl
      | _ => rfl
  | _ => rfl

/-- A step that leaves the table alone does not change which part of it counts. -/
theorem Streaming.same_live {b : κ} (here : points k = pc)
    (lives : ∀ clients, next.live clients = pc.live clients) (clients : after.clients = memory.clients)
    (streaming : Streaming after (Function.update points k next) ((points b).live memory.clients)) :
    Streaming after (Function.update points k next)
      ((Function.update points k next b).live after.clients) := by
  rw [clients]
  by_cases same : b = k
  · subst same
    rwa [Function.update_self, lives, ← here]
  · rwa [Function.update_of_ne same]

theorem live_keep {clients : List Fd} {i n : Nat} {fd : Fd} (found : clients[i]? = some fd)
    (bound : n ≤ i) :
    (clients.set n fd).take (n + 1) ++ (clients.set n fd).drop (i + 1) =
      clients.take n ++ clients.drop i := by
  obtain ⟨inside, value⟩ := List.getElem?_eq_some_iff.mp found
  have place : n < clients.length := by omega
  rw [List.drop_set_of_lt (by omega), List.drop_eq_getElem_cons inside, value, List.take_add_one,
    List.take_set_of_le (Nat.le_refl n), List.getElem?_set_self place]
  simp

/-- What one step of any thread keeps, failing writes included. -/
theorem streaming_step {fails : Bool} {b : κ} (steps : Steps memory fails (points k) after next)
    (streaming : Streaming memory points ((points b).live memory.clients))
    (caster : (points k).isBroadcaster = true → k = b)
    (exclusive : (points k).holds .clientsMutex = true → (points b).holds .clientsMutex = true → k = b) :
    Streaming after (Function.update points k next)
      ((Function.update points k next b).live after.clients) := by
  have staged := streaming.staged k
  -- A thread other than the broadcaster that has the mutex sees the table as it counts.
  have settled : (points k).isBroadcaster = false → (points k).holds .clientsMutex = true →
      ∀ clients, (points b).live clients = clients := by
    intro other holds clients
    by_cases held : (points b).holds .clientsMutex = true
    · have same := exclusive holds held
      subst same
      cases pc : points k with
      | broadcaster pc => rw [pc] at other; cases other
      | _ => rfl
    · exact live_outside (Bool.eq_false_of_not_eq_true held) clients
  generalize here : points k = pc at steps staged caster settled
  cases steps with
  | accept fd closed =>
      refine .same_live here (fun _ => rfl) rfl ?_
      exact streaming.accept closed rfl (by simp [Pc.Staged, Memory.accept])
  | adminPrints fd pc body printed =>
      refine .same_live here (fun _ => rfl) rfl ?_
      exact streaming.quiet here rfl rfl (.inr rfl) ⟨staged, formatStatsJson_stats printed⟩
  | writeHeader fd body =>
      refine .same_live here (fun _ => rfl) rfl ?_
      have fresh : memory.received fd = [] := staged.1
      refine streaming.write (by rw [here]; rfl) rfl (by rw [fresh]; exact begun_header) ?_
      exact ⟨by simp [Memory.write, fresh], staged.2⟩
  | writeFrame fd body =>
      refine .same_live here (fun _ => rfl) rfl ?_
      have headed : memory.received fd = [.header] := staged.1
      have begun : Begun (.data body :: memory.received fd) := by
        rw [headed]
        exact begun_header.push staged.2
      refine streaming.write (by rw [here]; rfl) rfl begun ?_
      simpa [Pc.Staged, Memory.write] using begun
  | register fd body room =>
      have table := settled rfl rfl
      have live : (Function.update points k (.admin (.unlock fd true)) b).live
          (memory.clients ++ [fd]) = (points b).live memory.clients ++ [fd] := by
        rw [table]
        by_cases same : b = k
        · subst same
          rw [Function.update_self]
          rfl
        · rw [Function.update_of_ne same, table]
      rw [live]
      refine streaming.register (by rw [here]; rfl) staged rfl ?_ _
      trivial
  | close fd =>
      refine .same_live here (fun _ => rfl) rfl ?_
      exact streaming.close (by rw [here]; rfl) rfl trivial
  | closeAll =>
      have table := settled rfl rfl
      have live : (Function.update points k (.main .closeUnlock) b).live [] = [] := by
        by_cases same : b = k
        · subst same
          rw [Function.update_self]
          rfl
        · rw [Function.update_of_ne same, table]
      rw [table] at streaming
      rw [live]
      exact streaming.closeAll rfl trivial
  | prints c timedOut since pc payload printed =>
      refine .same_live here (fun _ => rfl) rfl ?_
      exact streaming.quiet here rfl rfl (.inl rfl) (formatStatsJson_stats printed)
  | differs c timedOut since payload different =>
      refine .same_live here (fun _ => rfl) rfl ?_
      exact streaming.quiet here rfl rfl (.inl rfl) staged
  | sendLock c since payload =>
      refine .same_live here (fun _ => rfl) rfl ?_
      exact streaming.quiet here rfl rfl (.inl rfl) staged
  | sendBegin c since payload =>
      refine .same_live here (fun _ => rfl) rfl ?_
      exact streaming.quiet here rfl rfl (.inl rfl) ⟨staged, Nat.le_refl 0⟩
  | keep c since payload visits i n cfd found =>
      obtain ⟨event, bound⟩ := staged
      cases caster rfl
      have live : (Function.update points k
          (.broadcaster (.send c since payload (.write visits (i + 1) (n + 1)))) k).live
          (memory.keep cfd n (sentFrame payload)).clients = (points k).live memory.clients := by
        rw [Function.update_self, here]
        exact live_keep found bound
      rw [live]
      have member : cfd ∈ (points k).live memory.clients := by
        rw [here]
        obtain ⟨inside, value⟩ := List.getElem?_eq_some_iff.mp found
        refine List.mem_append_right _ ?_
        rw [List.drop_eq_getElem_cons inside, value]
        exact List.mem_cons_self
      exact streaming.keep member event rfl ⟨event, Nat.succ_le_succ bound⟩ rfl rfl
  | drop c since payload visits i n cfd fails found =>
      obtain ⟨event, bound⟩ := staged
      cases caster rfl
      obtain ⟨inside, value⟩ := List.getElem?_eq_some_iff.mp found
      have live : (points k).live memory.clients =
          memory.clients.take n ++ cfd :: memory.clients.drop (i + 1) := by
        rw [here, Pc.live, List.drop_eq_getElem_cons inside, value]
      rw [live] at streaming
      rw [Function.update_self]
      exact streaming.drop rfl ⟨event, Nat.le_succ_of_le bound⟩
  | sendEnd c since payload visits i n found =>
      cases caster rfl
      have live : (points k).live memory.clients = memory.clients.take n := by
        rw [here, Pc.live, List.drop_eq_nil_of_le (List.getElem?_eq_none_iff.mp found), List.append_nil]
      rw [live] at streaming
      rw [Function.update_self]
      exact streaming.quiet here rfl rfl (.inl rfl) staged.1
  | adminReads | registerLock =>
      refine .same_live here (fun _ => rfl) rfl ?_
      exact streaming.quiet here rfl rfl (.inr rfl) staged
  | headerFails | frameFails | full | unregistered =>
      refine .same_live here (fun _ => rfl) rfl ?_
      exact streaming.quiet here rfl rfl (.inr rfl) trivial
  | _ =>
      refine .same_live here (fun _ => rfl) rfl ?_
      exact streaming.quiet here rfl rfl (.inl rfl) trivial

end Streams

section Runs

variable {ι : Type} [DecidableEq ι] [Fintype ι] {context : Context} {gauges : Gauges} {roles : ι → Role}
  {config after : EventConfig ι} {label : Label (Option ι) Input}
  {allowed : EventConfig ι → Label (Option ι) Input → Prop}

/-- The invariant of the runs with failing writes. -/
structure Streamed (config : EventConfig ι) : Prop where
  others : ∀ i, (config.point (some i)).isBroadcaster = false
  streaming : Streaming config.memory config.point ((config.point none).live config.memory.clients)

omit [DecidableEq ι] [Fintype ι] in
theorem streamed_start (context : Context) (gauges : Gauges) (roles : ι → Role) :
    Streamed (eventsStart context gauges roles) where
  others i := by
    rw [start_point]
    cases roles i <;> rfl
  streaming := by
    have free : ∀ j, ((eventsStart context gauges roles).point j).fd = none ∧
        ((eventsStart context gauges roles).point j).Staged fun _ => [] := by
      intro j
      cases j with
      | none => exact ⟨rfl, trivial⟩
      | some i =>
          rw [start_point]
          cases roles i <;> exact ⟨rfl, trivial⟩
    change Streaming _ _ []
    refine ⟨List.nodup_nil, by simp, by simp, ?_, ?_, fun j => (free j).2, fun _ => .inl rfl⟩
    · intro j fd has
      rw [(free j).1] at has
      cases has
    · intro i j fd has
      rw [(free i).1] at has
      cases has

theorem streamed_step (reaches : Reaches events allowed (eventsStart context gauges roles) config)
    (streamed : Streamed config) (moves : Moves events config label after) : Streamed after := by
  rcases moves_steps moves with ⟨memory, points⟩ | ⟨next, steps, points⟩
  · exact ⟨by rw [points]; exact streamed.others, by rw [memory, points]; exact streamed.streaming⟩
  have caster : (config.point label.thread).isBroadcaster = true → label.thread = none := by
    intro broadcaster
    cases who : label.thread with
    | none => rfl
    | some i =>
        rw [who, streamed.others i] at broadcaster
        cases broadcaster
  have streaming := streaming_step steps streamed.streaming caster fun first second =>
    table_exclusive reaches first second
  rw [← points] at streaming
  refine ⟨fun i => ?_, streaming⟩
  rw [points]
  by_cases same : some i = label.thread
  · rw [← same, Function.update_self, steps_isBroadcaster steps, ← same]
    exact streamed.others i
  · rw [Function.update_of_ne same]
    exact streamed.others i

theorem reachable_streamed
    (reaches : Reaches events allowed (eventsStart context gauges roles) config) : Streamed config :=
  reaches.invariant Streamed (streamed_start context gauges roles)
    fun reached streamed _ moves => streamed_step reached streamed moves

/-- The frame that a thread is about to write, and where to. -/
def Pc.writing (memory : Memory) : Pc → Option (Fd × Frame)
  | .broadcaster (.send _ _ payload (.write _ i _)) => memory.clients[i]?.map (·, sentFrame payload)
  | .admin (.writeHeader fd _) => some (fd, .header)
  | .admin (.writeFrame fd body) => some (fd, .data body)
  | _ => none

omit [DecidableEq ι] [Fintype ι] in
/-- The header goes to a connection that has nothing yet, every other frame to a stream that has begun. -/
theorem Streamed.writing (streamed : Streamed config) {i : Option ι} {fd : Fd} {frame : Frame}
    (writes : (config.point i).writing config.memory = some (fd, frame)) :
    (config.memory.received fd = [] ∧ frame = .header) ∨
      (Begun (config.memory.received fd) ∧ frame.Event) := by
  have staged := streamed.streaming.staged i
  cases here : config.point i with
  | admin pc =>
      rw [here] at writes staged
      cases pc with
      | writeHeader fd body =>
          cases writes
          exact .inl ⟨staged.1, rfl⟩
      | writeFrame fd body =>
          cases writes
          have headed : config.memory.received fd = [.header] := staged.1
          exact .inr ⟨by rw [headed]; exact begun_header, staged.2⟩
      | _ => cases writes
  | broadcaster pc =>
      have who : i = none := by
        cases i with
        | none => rfl
        | some i =>
            have other := streamed.others i
            rw [here] at other
            cases other
      subst who
      rw [here] at writes staged
      have begun := streamed.streaming.begun
      rw [here] at begun
      cases pc with
      | send b since payload pc =>
          cases pc with
          | write visits i n =>
              obtain ⟨client, found, made⟩ := Option.map_eq_some_iff.mp writes
              cases made
              obtain ⟨inside, value⟩ := List.getElem?_eq_some_iff.mp found
              refine .inr ⟨begun _ (List.mem_append_right _ ?_), staged.1⟩
              rw [List.drop_eq_getElem_cons inside, value]
              exact List.mem_cons_self
          | _ => cases writes
      | _ => cases writes
  | _ =>
      rw [here] at writes
      cases writes

theorem Begun.ne_nil {frames : List Frame} (begun : Begun frames) : frames ≠ [] := by
  obtain ⟨later, rfl, _⟩ := begun
  simp

theorem Begun.stats {frames : List Frame} (begun : Begun frames) {payload : String}
    (member : payload ∈ payloads frames) : IsStats payload := by
  obtain ⟨later, rfl, events⟩ := begun
  obtain ⟨frame, inside, found⟩ := List.mem_filterMap.mp member
  cases frame with
  | data text =>
      cases found
      exact events _ (by simpa using inside)
  | _ => cases found

theorem readStream_whole {frames : List Frame} (whole : frames = [] ∨ Begun frames) :
    readStream (stream frames) =
      if frames = [] then none else some ((payloads frames).map String.toList) := by
  rcases whole with rfl | begun
  · refine readStream_part List.nil_prefix ?_
    rw [streamHeader_text]
    simp [stream, Head.text, lineEnd]
  · rw [if_neg begun.ne_nil]
    simpa [readEvents, completeLines, eventsOf] using begun.read []

/-- Whatever fails and whichever descriptor comes back, each connection carries one header and
behind it snapshots and pings: a client reads exactly the snapshots that were written, each
as the five numbers of one record, and nothing of a frame that was broken off. -/
theorem streams_read_back (reaches : Reaches events allowed (eventsStart context gauges roles) config)
    (fd : Fd) :
    readStream (stream (config.memory.received fd)) =
        (if config.memory.received fd = [] then none
        else some ((payloads (config.memory.received fd)).map String.toList)) ∧
      (∀ payload ∈ payloads (config.memory.received fd), ∃ workers busy depth active served,
        readStats payload.toList = some (statsMembers workers busy depth active served)) ∧
      ∀ i frame part, (config.point i).writing config.memory = some (fd, frame) →
        part <+: frame.text → part ≠ frame.text →
        readStream (stream (config.memory.received fd) ++ part) =
          readStream (stream (config.memory.received fd)) := by
  have streamed := reachable_streamed reaches
  have whole := streamed.streaming.whole fd
  refine ⟨readStream_whole whole, fun payload member => ?_, fun i frame part writes front short => ?_⟩
  · rcases whole with nothing | begun
    · rw [nothing] at member
      cases member
    · obtain ⟨workers, busy, depth, active, served, rfl⟩ := begun.stats member
      exact ⟨workers, busy, depth, active, served, readStats_statsJson ..⟩
  · rw [readStream_whole whole]
    rcases streamed.writing writes with ⟨nothing, rfl⟩ | ⟨begun, event⟩
    · rw [if_pos nothing, nothing]
      exact readStream_part front short
    · rw [event.text] at front short
      rw [if_neg begun.ne_nil, begun.read, Entry.readEvents_part event.plain front short, List.append_nil]

/-- The members of a snapshot that is taken in one instant. -/
def Gauges.members (gauges : Gauges) (context : Context) : List Member :=
  statsMembers (if context.pool then context.workers else 0) (gauges.load context).1
    (gauges.load context).2 gauges.activeConnections gauges.totalServed

theorem readStats_snapshot (gauges : Gauges) (context : Context) :
    readStats (gauges.snapshot context).toList = some (gauges.members context) := by
  cases pool : context.pool with
  | true => simpa [Gauges.snapshot, Gauges.members, Gauges.load, pool] using readStats_statsJson ..
  | false => simpa [Gauges.snapshot, Gauges.members, Gauges.load, pool] using readStats_statsJson ..

theorem payloads_getLast (frames : List Frame) : (payloads frames).getLast? = lastData frames := by
  rw [payloads, List.filterMap_reverse, List.getLast?_reverse]
  induction frames with
  | nil => rfl
  | cons frame frames ih =>
      cases frame with
      | data payload => rfl
      | header | ping => exact ih

/-- From the counters of the server to the numbers of a dashboard: once an iteration has begun
behind the latest change, the last event that a registered client has read gives the gauges. -/
theorem dashboards_up_to_date
    (reaches : Reaches events Undisturbed (eventsStart context gauges roles) config)
    (covered : config.memory.journal.covered = some config.memory.journal.version)
    {fd : Fd} (registered : fd ∈ config.memory.clients) :
    ∃ read last, readStream (stream (config.memory.received fd)) = some read ∧
      read.getLast? = some last ∧
      readStats last = some (config.memory.gauges.members config.memory.context) := by
  obtain ⟨cast, _, delivered⟩ := (reachable_served reaches).delivered
  have current := delivered.settled covered
  have shown : lastData (config.memory.received fd) = some config.memory.snapshot := by
    rw [current.shown fd registered, current.snapshot]
  have nonempty : config.memory.received fd ≠ [] := by
    intro nothing
    rw [nothing] at shown
    cases shown
  have read := readStream_whole ((reachable_streamed reaches).streaming.whole fd)
  rw [if_neg nonempty] at read
  refine ⟨_, config.memory.snapshot.toList, read, ?_, readStats_snapshot _ _⟩
  rw [List.getLast?_map, payloads_getLast, shown]
  rfl

end Runs

/-- A write to client 5 fails while a snapshot is sent. The next connection gets the number 5
before the loop has taken the client off the table, and has a stream of its own. -/
theorem streams_read_back_reused : ∃ config : EventConfig (Fin 2),
    Reaches events (fun _ _ => True) (eventsStart ⟨false, 0⟩ idle oneHandler) config ∧
      config.memory.clients = [5] ∧ (config.point (some 1)).fd = some 5 ∧
      readStream (stream (config.memory.received 5)) =
        some [(connected.snapshot ⟨false, 0⟩).toList] := by
  obtain ⟨config, reaches, clients, handler, received⟩ := Reaches.of_schedule events (fun _ _ => True)
    (eventsStart ⟨false, 0⟩ idle oneHandler)
    (greetSteps 1 5 ++ registerSteps 1 ++ changeSteps 0 connected ++ compareSteps ++
      [go none, go none, .run none (.write false)] ++ greetSteps 1 5)
    (fun config => config.memory.clients = [5] ∧ (config.point (some 1)).fd = some 5 ∧
      config.memory.received 5 = [.data (connected.snapshot ⟨false, 0⟩), .header]) (by decide)
  have read := (streams_read_back reaches 5).1
  rw [received, if_neg (by simp)] at read
  exact ⟨config, reaches, clients, handler, by rw [received, read]; rfl⟩

theorem dashboards_up_to_date_single : ∃ config : EventConfig (Fin 2),
    Reaches events Undisturbed (eventsStart ⟨false, 0⟩ idle oneHandler) config ∧
      ∃ read last, readStream (stream (config.memory.received 5)) = some read ∧
        read.getLast? = some last ∧ readStats last = some (statsMembers 0 0 0 1 0) := by
  obtain ⟨config, reaches, covered, clients, gauges, context⟩ := Reaches.of_schedule events Undisturbed
    (eventsStart ⟨false, 0⟩ idle oneHandler)
    (greetSteps 1 5 ++ registerSteps 1 ++ changeSteps 0 connected ++ compareSteps ++ sendSteps 1)
    (fun config => config.memory.journal.covered = some config.memory.journal.version ∧
      config.memory.clients = [5] ∧ config.memory.gauges = connected ∧
      config.memory.context.pool = false) (by decide)
  obtain ⟨read, last, whole, final, stats⟩ := dashboards_up_to_date reaches covered
    (by simp [clients] : 5 ∈ config.memory.clients)
  refine ⟨config, reaches, read, last, whole, final, ?_⟩
  rw [stats, gauges, Gauges.members, Gauges.load, context]
  rfl

end ThreadPool.Server
