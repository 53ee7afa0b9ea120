import ThreadPool.Pool.SubmitNotes

namespace ThreadPool.Pool

open Foundation

/-! # What a submit call leaves behind

The ids that the calls return, the reasons for which they give up, and the result: a call
either inserts its task once or leaves nothing behind.
-/

section Ids

variable {ι : Type} [DecidableEq ι] {me : ι} {memory after : Memory ι} {pc next : Pc} {idCount : Nat}

def SubmitPc.ticket : SubmitPc → Option Ticket
  | .count ticket => some ticket
  | .checkAging ticket => some ticket
  | .stamp ticket => some ticket
  | .lockQueue ticket => some ticket
  | .loadCap ticket => some ticket
  | .insert ticket _ => some ticket
  | .unlockInserted ticket => some ticket
  | .signal ticket => some ticket
  | .leave ticket => some ticket
  | _ => none

/-- The id that a thread will return, or has returned last. -/
def Pc.issued : Pc → Option Int
  | .submit pc => pc.ticket.map Ticket.id
  | .client (some (.id taskId)) => some taskId
  | _ => none

/-- The id of one of the tasks created so far. -/
def Memory.Issued (memory : Memory ι) (idCount : Nat) (taskId : Int) : Prop :=
  ∃ task < memory.fresh, taskId = wrap 64 (idCount + task)

structure Numbered (idCount : Nat) (config : PoolConfig ι) : Prop where
  counter : wrap 64 config.memory.gTaskIdCount = wrap 64 (idCount + config.memory.fresh)
  issued : ∀ i, ∀ taskId ∈ (config.point i).issued, config.memory.Issued idCount taskId

theorem syncs_issued (syncs : Syncs pc next) : ∀ taskId ∈ next.issued, taskId ∈ pc.issued := by
  intro taskId
  cases syncs <;> exact id

omit [DecidableEq ι] in
theorem reads_issued (reads : Reads memory pc next) : ∀ taskId ∈ next.issued, taskId ∈ pc.issued := by
  intro taskId
  cases reads with
  | call _ _ entry => cases entry <;> nofun
  | _ => exact id

omit [DecidableEq ι] in
theorem createTask_id (memory : Memory ι) (args : SubmitArgs) :
    (memory.createTask args).2.id = wrap 64 memory.gTaskIdCount := by
  rw [Memory.createTask]

theorem writes_issued (writes : Writes me memory pc after next) :
    (after.fresh = memory.fresh ∧ after.gTaskIdCount = memory.gTaskIdCount ∧
        ∀ taskId ∈ next.issued, taskId ∈ pc.issued) ∨
      ∃ args, after = (memory.createTask args).1 ∧
        next.issued = some (wrap 64 memory.gTaskIdCount) := by
  cases writes with
  | create args => exact .inr ⟨args, rfl, congrArg some (createTask_id memory args)⟩
  | full | uncount | discard | fail => exact .inl ⟨rfl, rfl, nofun⟩
  | _ => exact .inl ⟨rfl, rfl, fun _ => id⟩

omit [DecidableEq ι] in
theorem Memory.Issued.grows {taskId : Int} (issued : memory.Issued idCount taskId)
    (more : memory.fresh ≤ after.fresh) : after.Issued idCount taskId := by
  obtain ⟨task, created, same⟩ := issued
  exact ⟨task, created.trans_le more, same⟩

theorem numbered_next (count fresh : Nat) (same : wrap 64 count = wrap 64 (idCount + fresh)) :
    wrap 64 ((count + 1) % 2 ^ 64 : Nat) = wrap 64 (idCount + (fresh + 1 : Nat)) := by
  have reduced : wrap 64 ((count + 1) % 2 ^ 64 : Nat) = wrap 64 (count + 1) := by
    rw [wrap, wrap]
    push_cast
    exact Int.emod_bmod ..
  rw [reduced, ← wrap_add_left, same, wrap_add_left]
  push_cast
  rw [add_assoc]

variable [Fintype ι] {config final : PoolConfig ι} {label : Label ι Input}
  {allowed : PoolConfig ι → Label ι Input → Prop} {roles : ι → Role}

omit [DecidableEq ι] [Fintype ι] in
/-- A step that leaves the id counter alone. -/
theorem numbered_keep (numbered : Numbered idCount config)
    (fresh : final.memory.fresh = config.memory.fresh)
    (counter : final.memory.gTaskIdCount = config.memory.gTaskIdCount)
    (issued : ∀ i, ∀ taskId ∈ (final.point i).issued, ∃ j, taskId ∈ (config.point j).issued) :
    Numbered idCount final := by
  refine ⟨by rw [counter, fresh]; exact numbered.counter, fun i taskId here => ?_⟩
  obtain ⟨j, there⟩ := issued i taskId here
  exact (numbered.issued j taskId there).grows fresh.ge

theorem moves_numbered (moves : Moves pool config label final) (numbered : Numbered idCount config) :
    Numbered idCount final := by
  have mover : ∀ {k next}, final.point = Function.update config.point k next →
      (∀ taskId ∈ next.issued, taskId ∈ (config.point k).issued) →
      ∀ i, ∀ taskId ∈ (final.point i).issued, ∃ j, taskId ∈ (config.point j).issued := by
    intro k next points kept i taskId here
    by_cases mine : i = k
    · subst mine
      rw [points, Function.update_self] at here
      exact ⟨i, kept taskId here⟩
    · rw [points, Function.update_of_ne mine] at here
      exact ⟨i, here⟩
  have behind : ∀ {pc access : Pc}, Behind pc access → ∀ taskId ∈ access.issued, taskId ∈ pc.issued := by
    intro pc access arrives taskId
    exact arrives.reflects fun syncs => syncs_issued syncs taskId
  cases moves_step moves with
  | still memory points =>
      refine numbered_keep numbered (by rw [memory]) (by rw [memory]) fun i taskId here => ⟨i, ?_⟩
      rwa [points] at here
  | sync syncs memory points =>
      exact numbered_keep numbered (by rw [memory]) (by rw [memory]) (mover points (syncs_issued syncs))
  | read arrives reads _ memory points =>
      have issued := mover points fun taskId here =>
        behind (arrives_behind arrives) taskId (reads_issued reads taskId here)
      exact numbered_keep numbered (by rw [memory]) (by rw [memory]) issued
  | @write k _ _ _ _ _ arrives writes points =>
      rcases writes_issued writes with ⟨fresh, counter, issued⟩ | ⟨args, created, issued⟩
      · refine numbered_keep numbered fresh counter (mover points fun taskId here => ?_)
        exact behind (arrives_behind arrives) taskId (issued taskId here)
      · have fresh : final.memory.fresh = config.memory.fresh + 1 := by
          rw [created]
          rfl
        have counter : final.memory.gTaskIdCount = (config.memory.gTaskIdCount + 1) % 2 ^ 64 := by
          rw [created, Memory.createTask]
        refine ⟨?_, fun i taskId here => ?_⟩
        · rw [counter, fresh]
          exact numbered_next _ _ numbered.counter
        · by_cases mine : i = k
          · subst mine
            rw [points, Function.update_self, issued] at here
            refine ⟨config.memory.fresh, by rw [fresh]; exact Nat.lt_succ_self _, ?_⟩
            rw [← Option.some.inj here, numbered.counter]
          · rw [points, Function.update_of_ne mine] at here
            exact (numbered.issued i taskId here).grows (by rw [fresh]; exact Nat.le_succ _)
  | create here dormant _ memory points =>
      refine numbered_keep numbered (by rw [memory]) (by rw [memory]) fun i taskId here => ⟨i, ?_⟩
      rw [points, Function.update_apply, Function.update_apply] at here
      split at here
      · cases here
      · split at here
        · cases here
        · exact here
  | createFails here memory points =>
      exact numbered_keep numbered (by rw [memory]) (by rw [memory]) (mover points nofun)

theorem reachable_numbered (reaches : Reaches pool allowed (threadPoolInit roles idCount) config) :
    Numbered idCount config := by
  apply reaches.invariant (Numbered idCount)
  · refine ⟨?_, fun i taskId here => ?_⟩
    · change wrap 64 idCount = wrap 64 (idCount + (0 : Nat))
      rw [Nat.cast_zero, add_zero]
    · change taskId ∈ (roles i).start.issued at here
      cases role : roles i <;> rw [role] at here <;> cases here
  · intro config label after _ numbered _ moves
    exact moves_numbered moves numbered

end Ids

section Capacity

variable {ι : Type} [DecidableEq ι] [Fintype ι] {config final : PoolConfig ι} {label : Label ι Input}
  {i : ι} {note other : CallNote} {memory after : Memory ι} {pc : SubmitPc} {next : Pc}

/-- Under a constant cap the call knows the cap, and the queue was full when it gives up. -/
def SubmitPc.Justified (note : CallNote) : SubmitPc → Prop
  | .loadDepth _ max => max = note.cap ∧ max ≠ 0
  | .insert _ max => max = note.cap
  | .unlockFull _ => note.full = true
  | .uncount _ => note.full = true
  | .discard _ => note.full = true
  | .fail .eagain => note.full = true
  | _ => True

def Pc.Justified (memory : Memory ι) (note : CallNote) : Pc → Prop
  | .submit pc => note.steady = true → memory.pq.maxTasks = note.cap ∧ pc.Justified note
  | .client (some (.error .eagain)) => note.steady = true → note.full = true
  | _ => True

theorem SubmitPc.Justified.transfer (justified : pc.Justified note) (cap : other.cap = note.cap)
    (full : note.full = true → other.full = true) : pc.Justified other := by
  cases pc with
  | loadDepth | insert => simpa only [SubmitPc.Justified, cap] using justified
  | unlockFull | uncount | discard => exact full justified
  | fail errno =>
      cases errno with
      | eagain => exact full justified
      | _ => trivial
  | _ => trivial

theorem syncs_justified {there : SubmitPc} (syncs : Syncs (.submit pc) (.submit there))
    (justified : pc.Justified note) : there.Justified note := by
  cases syncs with
  | submitFull => exact justified
  | _ => trivial

theorem behind_justified {there : SubmitPc} (behind : Behind (.submit pc) (.submit there))
    (justified : pc.Justified note) : there.Justified note := by
  rcases behind with same | syncs
  · cases same
    exact justified
  · exact syncs_justified syncs justified

omit [DecidableEq ι] [Fintype ι] in
theorem full_of_bound {lanes : Lanes Priority Addr} (represents : memory.pq.Represents lanes)
    (positive : memory.pq.maxTasks ≠ 0) (bound : memory.pq.maxTasks ≤ lanes.contents.card) :
    memory.full = true := by
  rw [Memory.full, represents.lanes_eq, decide_eq_true_eq]
  exact ⟨Nat.pos_of_ne_zero positive, bound⟩

omit [DecidableEq ι] [Fintype ι] in
/-- The loads of the call under the cap that it began with. -/
theorem reads_justified {lanes : Lanes Priority Addr} {there : SubmitPc}
    (represents : memory.pq.Represents lanes) (constant : memory.pq.maxTasks = note.cap)
    (full : memory.full = true → note.full = true) (justified : pc.Justified note)
    (reads : Reads memory (.submit pc) (.submit there)) : there.Justified note := by
  cases reads with
  | bounded args positive => exact ⟨constant, positive⟩
  | deep args max deep =>
      obtain ⟨rfl, positive⟩ := justified
      rw [← constant] at positive deep
      exact full (full_of_bound represents positive (by rwa [represents.depth] at deep))
  | loadCap => exact constant
  | _ => trivial

omit [Fintype ι] in
theorem writes_justified {lanes : Lanes Priority Addr} (represents : memory.pq.Represents lanes)
    (constant : memory.pq.maxTasks = note.cap) (full : after.full = true → note.full = true)
    (kept : after.pq.maxTasks = note.cap) (justified : pc.Justified note)
    (writes : Writes i memory (.submit pc) after next) : next.Justified after note := by
  cases writes with
  | full ticket max refused =>
      obtain rfl : max = note.cap := justified
      rw [← constant] at refused
      simp only [PriorityQueue.atCapacity, represents.size, bne_iff_ne, Bool.and_eq_true,
        decide_eq_true_eq] at refused
      exact fun _ => ⟨kept, full (full_of_bound represents refused.1 refused.2)⟩
  | uncount | discard => exact fun _ => ⟨kept, justified⟩
  | fail errno =>
      cases errno with
      | eagain => exact fun _ => justified
      | _ => trivial
  | leave => trivial
  | _ => exact fun _ => ⟨kept, trivial⟩

/-- A step during the call keeps its reasons for giving up. -/
theorem justified_step {tasks : Option Addr} {own : Bool}
    (balanced : config.memory.Balanced (holding config Phase.share))
    (here : config.point i = .submit pc) (moves : Moves pool config label final)
    (justified : (Pc.submit pc).Justified config.memory note) :
    (final.point i).Justified final.memory (note.next own tasks config.memory final.memory) := by
  obtain ⟨lanes, books⟩ := balanced
  by_cases steady : (note.next own tasks config.memory final.memory).steady = true
  case neg =>
    cases point : final.point i with
    | submit => exact fun holds => absurd holds steady
    | client last =>
        rcases last with _ | _ | errno
        · trivial
        · trivial
        · cases errno with
          | eagain => exact fun holds => absurd holds steady
          | _ => trivial
    | _ => trivial
  case pos =>
    have parts := steady
    simp only [CallNote.next, Bool.and_eq_true, decide_eq_true_eq] at parts
    obtain ⟨constant, reason⟩ := justified parts.1
    have kept : final.memory.pq.maxTasks = note.cap := parts.2
    have full : final.memory.full = true →
        (note.next own tasks config.memory final.memory).full = true := by
      intro now
      simp [CallNote.next, now]
    replace reason : pc.Justified (note.next own tasks config.memory final.memory) := by
      refine reason.transfer rfl fun before => ?_
      simp [CallNote.next, before]
    cases submit_turn here moves with
    | others same =>
        rw [same, here]
        exact fun _ => ⟨kept, reason⟩
    | sync syncs =>
        rw [here] at syncs
        obtain ⟨there, arrives, _⟩ := syncs_submit syncs
        rw [arrives] at syncs ⊢
        exact fun _ => ⟨kept, syncs_justified syncs reason⟩
    | read behind reads memory =>
        rw [here] at behind
        obtain ⟨middle, rfl, _⟩ := behind_submit behind
        obtain ⟨there, arrives, _⟩ := reads_submit reads
        rw [arrives] at reads ⊢
        refine fun _ => ⟨kept, reads_justified books.represents constant (fun now => full ?_) ?_ reads⟩
        · rwa [memory]
        · exact behind_justified behind reason
    | write behind writes =>
        rw [here] at behind
        obtain ⟨middle, rfl, _⟩ := behind_submit behind
        have there := behind_justified behind reason
        exact writes_justified books.represents constant full kept there writes

end Capacity

section Outside

variable {ι : Type} [DecidableEq ι] [Fintype ι] {config final : PoolConfig ι} {label : Label ι Input}
  {i : ι} {note : CallNote} {me : ι} {memory after : Memory ι} {pc next : Pc}

/-- A thread in a submit call, or behind one that was its last call. -/
def Pc.followed : Pc → Bool
  | .submit _ => true
  | .client (some _) => true
  | _ => false

theorem syncs_followed (syncs : Syncs pc next) (outside : pc.submits = false) :
    next.submits = false ∧ next.followed = false := by
  cases syncs <;> first | exact ⟨rfl, rfl⟩ | cases outside

omit [DecidableEq ι] [Fintype ι] in
theorem reads_followed (reads : Reads memory pc next) (outside : pc.submits = false)
    (inside : ∀ last, pc ≠ .client last) : next.followed = false := by
  cases reads with
  | call last => exact absurd rfl (inside last)
  | _ => first | rfl | cases outside

omit [Fintype ι] in
theorem writes_followed (writes : Writes me memory pc after next) (outside : pc.submits = false) :
    next.followed = false := by
  cases writes <;> first | rfl | cases outside

/-- A step in which thread `i` does not begin a submit call. -/
theorem outside_step (outside : (config.point i).submits = false) (moves : Moves pool config label final)
    (other : ∀ last args, config.point i = .client last → label ≠ .run i (.call (.submit args))) :
    final.point i = config.point i ∨ (final.point i).followed = false := by
  have mover : ∀ {k next}, final.point = Function.update config.point k next →
      (i = k → next.followed = false) →
      final.point i = config.point i ∨ (final.point i).followed = false := by
    intro k next points leaves
    by_cases mine : i = k
    · right
      rw [points, mine, Function.update_self]
      exact leaves mine
    · left
      rw [points, Function.update_of_ne mine]
  have behind : ∀ {access : Pc}, Behind (config.point i) access → access.submits = false := by
    intro access arrives
    rcases arrives with rfl | syncs
    · exact outside
    · exact (syncs_followed syncs outside).1
  cases moves_step moves with
  | still _ points => exact .inl (congrFun points i)
  | sync syncs _ points =>
      refine mover points ?_
      rintro rfl
      exact (syncs_followed syncs outside).2
  | @read k access _ _ _ _ arrives reads calls _ points =>
      refine mover points ?_
      rintro rfl
      by_cases client : ∃ last, access = .client last
      · obtain ⟨last, rfl⟩ := client
        obtain ⟨call, rfl, rfl⟩ := calls last rfl
        cases call with
        | submit args => exact absurd rfl (other last args (arrives_client arrives))
        | enableAging =>
            simp only [Call.entry]
            split <;> rfl
        | _ => rfl
      · exact reads_followed reads (behind (arrives_behind arrives)) fun last same => client ⟨last, same⟩
  | write arrives writes points =>
      refine mover points ?_
      rintro rfl
      exact writes_followed writes (behind (arrives_behind arrives))
  | create _ _ _ _ points =>
      rw [points, Function.update_apply, Function.update_apply]
      split
      · exact .inr rfl
      · split
        · exact .inr rfl
        · exact .inl rfl
  | createFails _ _ points => exact mover points fun _ => rfl

/-- The step by which a submit call begins. -/
theorem call_step {last : Option SubmitResult} {call : Call} (here : config.point i = .client last)
    (moves : Moves pool config (.run i (.call call)) final) :
    final.point i = call.entry ∧ final.memory = config.memory := by
  obtain ⟨next, result, points⟩ := moves.performed (by rw [here]; rfl)
  rw [here] at result
  obtain ⟨memory, arrives⟩ := Prod.mk.inj (Option.some.inj result)
  rw [points, Function.update_self]
  exact ⟨arrives.symm, memory.symm⟩

omit [Fintype ι] in
theorem follow_outside (outside : (config.point i).submits = false)
    (other : ∀ last args, config.point i = .client last → label ≠ .run i (.call (.submit args))) :
    followSubmit i note config label final = note := by
  unfold followSubmit
  split
  case h_1 here =>
    rw [here] at outside
    cases outside
  case h_2 last j args here =>
    split
    case isTrue same => exact absurd (by rw [same]) (other last args here)
    case isFalse => rfl
  case h_3 => rfl

end Outside

section Runs

variable {ι : Type} [DecidableEq ι] [Fintype ι] {config final : PoolConfig ι} {label : Label ι Input}
  {i : ι} {note : CallNote} {allowed : CallNote → PoolConfig ι → Label ι Input → Prop} {roles : ι → Role}
  {idCount : Nat} {result : SubmitResult}

structure Followed (i : ι) (config : PoolConfig ι) (note : CallNote) : Prop where
  noted : (config.point i).Noted config.memory note
  justified : (config.point i).Justified config.memory note

omit [DecidableEq ι] [Fintype ι] in
theorem followed_of_outside (outside : (config.point i).followed = false) : Followed i config note := by
  constructor
  all_goals
    cases point : config.point i with
    | submit pc =>
        rw [point] at outside
        cases outside
    | client last =>
        rw [point] at outside
        cases last with
        | some => cases outside
        | none => trivial
    | _ => trivial

omit [DecidableEq ι] [Fintype ι] in
/-- Behind the call its notes stand, whatever other threads do. -/
theorem Followed.stay (followed : Followed i config note) (outside : (config.point i).submits = false)
    (same : final.point i = config.point i)
    (refused : config.memory.journal.refused ⊆ final.memory.journal.refused) :
    Followed i final note := by
  obtain ⟨noted, justified⟩ := followed
  cases point : config.point i with
  | submit =>
      rw [point] at outside
      cases outside
  | client last =>
      rw [point] at noted justified same
      rcases last with _ | taskId | errno
      · exact followed_of_outside (by rw [same]; rfl)
      · exact ⟨by rw [same]; exact noted, by rw [same]; trivial⟩
      · constructor <;> rw [same]
        · exact ⟨fun task known => refused (noted.1 task known), noted.2⟩
        · cases errno with
          | eagain => exact justified
          | _ => trivial
  | _ => exact followed_of_outside (by rw [same, point]; rfl)

/-- The notes of a call that has just begun. -/
theorem followed_begin {last : Option SubmitResult} {args : SubmitArgs}
    (here : config.point i = .client last)
    (moves : Moves pool config (.run i (.call (.submit args))) final) :
    Followed i final (followSubmit i note config (.run i (.call (.submit args))) final) := by
  obtain ⟨arrives, memory⟩ := call_step here moves
  have begins : followSubmit i note config (.run i (.call (.submit args))) final =
      { cap := final.memory.pq.maxTasks, full := final.memory.full } := by
    simp [followSubmit, here]
  rw [begins]
  constructor <;> rw [arrives, Call.entry] <;> split
  · exact ⟨fun id failed => (by cases failed), rfl, rfl, rfl⟩
  · exact ⟨rfl, rfl, rfl, rfl⟩
  · trivial
  · exact fun _ => ⟨rfl, trivial⟩

theorem followed_step (balanced : config.memory.Balanced (holding config Phase.share))
    (moves : Moves pool config label final) (followed : Followed i config note) :
    Followed i final (followSubmit i note config label final) := by
  cases inside : (config.point i).submits with
  | true =>
      obtain ⟨pc, here⟩ : ∃ pc, config.point i = .submit pc := by
        cases point : config.point i <;> rw [point] at inside <;> cases inside
        exact ⟨_, rfl⟩
      obtain ⟨noted, justified⟩ := followed
      rw [here] at noted justified
      have during : followSubmit i note config label final = note.next (ownStep i label)
          ((final.point i).createdTask.or note.task) config.memory final.memory := by
        simp [followSubmit, here]
      rw [during]
      exact ⟨noted_step balanced here moves noted, justified_step balanced here moves justified⟩
  | false =>
      by_cases begins : ∃ last args, config.point i = .client last ∧
          label = .run i (.call (.submit args))
      · obtain ⟨last, args, here, rfl⟩ := begins
        exact followed_begin here moves
      · have other : ∀ last args, config.point i = .client last →
            label ≠ .run i (.call (.submit args)) :=
          fun last args here same => begins ⟨last, args, here, same⟩
        rw [follow_outside inside other]
        rcases outside_step inside moves other with same | leaves
        · exact followed.stay inside same (moves_journal moves).2
        · exact followed_of_outside leaves

theorem observed_followed
    (observed : Observed pool (followSubmit i) allowed (threadPoolInit roles idCount) {} config note) :
    Followed i config note := by
  apply observed.invariant (Followed i)
  · apply followed_of_outside
    change (roles i).start.followed = false
    cases roles i <;> rfl
  · intro config note label after reaches followed _ moves
    exact followed_step (reachable_balanced reaches) moves followed

/-- With fewer than 2^63 tasks ever created, a submit call returns an id exactly when its
task was inserted once. When it returns -1 its task is not queued and it has left both
counters as they were. Under a constant cap it reports `EAGAIN` only when the queue was
full at some instant of the call. -/
theorem submit_all_or_nothing
    (observed : Observed pool (followSubmit i) allowed (threadPoolInit roles idCount) {} config note)
    (returned : config.point i = .client (some result))
    (few : idCount + config.memory.fresh < 2 ^ 63) :
    (0 ≤ result.value ↔ note.insertions = 1) ∧
      (result.value = -1 → note.insertions = 0 ∧
        (∀ task ∈ note.task, task ∉ config.memory.pq.lanes.contents) ∧
        note.total = 0#32 ∧ note.inFlight = 0#32) ∧
      (result = .error .eagain → note.steady = true → note.full = true) := by
  obtain ⟨noted, justified⟩ := observed_followed observed
  obtain ⟨lanes, books⟩ := reachable_balanced observed.reaches
  rw [returned] at noted justified
  cases result with
  | id taskId =>
      have positive : 0 ≤ taskId := by
        have known : taskId ∈ (config.point i).issued := by
          rw [returned]
          rfl
        obtain ⟨task, created, same⟩ := (reachable_numbered observed.reaches).issued i taskId known
        have below : (idCount + task : Nat) < 2 ^ 63 := (Nat.add_lt_add_left created _).trans few
        rw [same, wrap_of_range_64] <;> omega
      refine ⟨⟨fun _ => noted, fun _ => positive⟩, fun negative => ?_, nofun⟩
      change taskId = -1 at negative
      omega
  | error errno =>
      obtain ⟨refused, insertions, total, inFlight⟩ := noted
      refine ⟨⟨fun positive => ?_, fun once => ?_⟩, fun _ => ⟨insertions, ?_, total, inFlight⟩, ?_⟩
      · change (0 : Int) ≤ -1 at positive
        omega
      · omega
      · intro task known queued
        rw [books.represents.lanes_eq, Lanes.mem_contents] at queued
        exact books.refused_not_accepted (refused task known) (books.queued_accepted queued)
      · rintro ⟨⟩
        exact justified

end Runs

/-- Under the cap 1 thread 1 has passed the approximate check when thread 2 fills the queue. -/
theorem submit_all_or_nothing_lateRefusal : ∃ (config : PoolConfig (Fin 3)) (note : CallNote),
    Observed pool (followSubmit 1) (fun _ _ _ => True) (threadPoolInit oneWorker 0) {} config note ∧
      config.point 1 = .client (some (.error .eagain)) ∧ note.task = some 0 ∧
      0 + config.memory.fresh < 2 ^ 63 ∧ 0 ∉ config.memory.pq.lanes.contents ∧
      note.steady = true ∧ note.full = true := by
  obtain ⟨config, note, observed, returned, known, fresh, steady⟩ := Observed.of_schedule pool
    (followSubmit 1) (fun _ _ _ => True) (threadPoolInit oneWorker 0) {}
    ([.run 2 (.call (.setMaxTasks 1)), go 2, .run 1 (.call (.submit ⟨1, 0, .low⟩))] ++
      List.replicate 4 (go 1) ++ [.run 1 (.alloc true), .run 2 (.call (.submit ⟨1, 0, .low⟩))] ++
      List.replicate 4 (go 2) ++ [.run 2 (.alloc true)] ++ List.replicate 5 (go 2) ++
      List.replicate 8 (go 1))
    (fun config note => config.point 1 = .client (some (.error .eagain)) ∧ note.task = some 0 ∧
      config.memory.fresh = 2 ∧ note.steady = true)
    (by decide)
  have few : 0 + config.memory.fresh < 2 ^ 63 := by
    rw [fresh]
    decide
  obtain ⟨_, nothing, full⟩ := submit_all_or_nothing observed returned few
  have unqueued := (nothing rfl).2.1 0 known
  exact ⟨config, note, observed, returned, known, few, unqueued, steady, full rfl steady⟩

end ThreadPool.Pool
