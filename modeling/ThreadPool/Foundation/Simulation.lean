import ThreadPool.Foundation.Reachability

namespace ThreadPool.Foundation

/-! # Programs inside larger programs

A concrete program refines an abstract one if it runs the abstract instructions on a
part of its memory, beside steps of its own that the abstract program does not see. Its
runs are then runs of the abstract program, and what holds of those holds of it.
-/

variable {ι μ χ σ π α σ' π' α' : Type}

def Status.map (point : π' → π) : Status μ χ π' → Status μ χ π
  | .ready p => .ready (point p)
  | .asleep cond mutex p => .asleep cond mutex (point p)
  | .woken mutex p => .woken mutex (point p)

def Config.map (memory : σ' → σ) (point : π' → π) (config : Config ι μ χ σ' π') : Config ι μ χ σ π where
  memory := memory config.memory
  owner := config.owner
  threads i := (config.threads i).map point

/-- Steps of the same thread and of the same kind. -/
def Label.Agrees : Label ι α' → Label ι α → Prop
  | .run i _, .run j _ => i = j
  | .pick i target, .pick j other => i = j ∧ target = other
  | .wake i, .wake j => i = j
  | _, _ => False

/-- The concrete instruction at `p` is the abstract one; an access at a point of the
concrete program's `own` may leave the abstract part as it is. -/
structure Follows (memory : σ' → σ) (point : π' → π) (own : π' → Bool) (p : π')
    (concrete : Instr ι μ χ σ' π' α') (abstract : Instr ι μ χ σ π α) : Prop where
  access : ∀ {state input after next}, concrete.body state input = some (after, next) →
    (own p = true ∧ memory after = memory state ∧ point next = point p) ∨
      ∃ choice, abstract.body (memory state) choice = some (memory after, point next)
  lock : ∀ {mutex next}, concrete = .lock mutex next → abstract = .lock mutex (point next)
  enter : ∀ {mutex next}, concrete = .enter mutex next →
    abstract = .enter mutex (point next) ∧ own next = false
  unlock : ∀ {mutex next}, concrete = .unlock mutex next → abstract = .unlock mutex (point next)
  wait : ∀ {cond mutex next}, concrete = .wait cond mutex next →
    abstract = .wait cond mutex (point next) ∧ own next = false
  signal : ∀ {cond next}, concrete = .signal cond next → abstract = .signal cond (point next)
  broadcast : ∀ {cond next}, concrete = .broadcast cond next → abstract = .broadcast cond (point next)
  fork : ∀ {start next}, concrete = .fork start next →
    ∃ create, abstract = .fork (point start) create ∧ ∀ state target,
      create (memory state) target = (memory (next state target).1, point (next state target).2)
  join : ∀ {awaits next}, concrete = .join awaits next → point next = point p ∨
    ∃ await, abstract = .join await (point next) ∧ ∀ state j q,
      awaits state j q = false → await (memory state) j (point q) = false

structure Refines (concrete : Program ι μ χ σ' π' α') (abstract : Program ι μ χ σ π α)
    (memory : σ' → σ) (point : π' → π) (own : π' → Bool) : Prop where
  follows : ∀ i p, Follows memory point own p (concrete.code i p) (abstract.code i (point p))
  dormant : ∀ {p}, concrete.dormant p = true → abstract.dormant (point p) = true

section Lifting

/-- An instruction on a part of a larger memory, between points of the larger program. -/
def Instr.lift (get : σ' → σ) (put : σ' → σ → σ') (embed start : π → π') (point : π' → π)
    (decode : α' → Option α) : Instr ι μ χ σ π α → Instr ι μ χ σ' π' α'
  | .read next => .read fun state input => do
      let input ← decode input
      let p ← next (get state) input
      return embed p
  | .act run => .act fun state input => do
      let input ← decode input
      let (part, p) ← run (get state) input
      return (put state part, embed p)
  | .lock mutex next => .lock mutex (embed next)
  | .enter mutex next => .enter mutex (embed next)
  | .unlock mutex next => .unlock mutex (embed next)
  | .wait cond mutex next => .wait cond mutex (embed next)
  | .signal cond next => .signal cond (embed next)
  | .broadcast cond next => .broadcast cond (embed next)
  | .fork first next => .fork (start first) fun state target =>
      let (part, p) := next (get state) target
      (put state part, embed p)
  | .join awaits next => .join (fun state j q => awaits (get state) j (point q)) (embed next)
  | .halt => .halt

variable {get : σ' → σ} {put : σ' → σ → σ'} {embed start : π → π'} {point : π' → π}
  {decode : α' → Option α} {own : π' → Bool} {p : π'} {instr : Instr ι μ χ σ π α}

theorem follows_lift (getPut : ∀ state part, get (put state part) = part)
    (embedded : ∀ q, point (embed q) = q) (started : ∀ q, point (start q) = q)
    (entered : ∀ {mutex next}, instr = .enter mutex next → own (embed next) = false)
    (waited : ∀ {cond mutex next}, instr = .wait cond mutex next → own (embed next) = false) :
    Follows get point own p (instr.lift get put embed start point decode) instr := by
  constructor
  case access =>
    intro state input after next body
    right
    cases instr with
    | read choose =>
        simp only [Instr.lift, Instr.body, Option.map_eq_some_iff, Option.bind_eq_bind,
          Option.bind_eq_some_iff, Option.pure_def, Option.some.injEq, Prod.mk.injEq] at body
        obtain ⟨_, ⟨choice, _, q, result, rfl⟩, rfl, rfl⟩ := body
        refine ⟨choice, ?_⟩
        simp [Instr.body, result, embedded]
    | act run =>
        simp only [Instr.lift, Instr.body, Option.bind_eq_bind, Option.bind_eq_some_iff,
          Option.pure_def, Option.some.injEq, Prod.mk.injEq] at body
        obtain ⟨choice, _, ⟨part, q⟩, result, rfl, rfl⟩ := body
        refine ⟨choice, ?_⟩
        simp [Instr.body, result, embedded, getPut]
    | _ => cases body
  case lock =>
    intro mutex next lifted
    cases instr with
    | lock => cases lifted; rw [embedded]
    | _ => cases lifted
  case enter =>
    intro mutex next lifted
    cases instr with
    | enter => cases lifted; exact ⟨by rw [embedded], entered rfl⟩
    | _ => cases lifted
  case unlock =>
    intro mutex next lifted
    cases instr with
    | unlock => cases lifted; rw [embedded]
    | _ => cases lifted
  case wait =>
    intro cond mutex next lifted
    cases instr with
    | wait => cases lifted; exact ⟨by rw [embedded], waited rfl⟩
    | _ => cases lifted
  case signal =>
    intro cond next lifted
    cases instr with
    | signal => cases lifted; rw [embedded]
    | _ => cases lifted
  case broadcast =>
    intro cond next lifted
    cases instr with
    | broadcast => cases lifted; rw [embedded]
    | _ => cases lifted
  case fork =>
    intro first next lifted
    cases instr with
    | fork =>
        cases lifted
        refine ⟨_, by rw [started], fun state target => ?_⟩
        simp [getPut, embedded]
    | _ => cases lifted
  case join =>
    intro awaits next lifted
    cases instr with
    | join =>
        cases lifted
        exact .inr ⟨_, by rw [embedded], fun state j q waited => waited⟩
    | _ => cases lifted

/-- An access that the abstract program performs too, or does not see. -/
theorem Follows.of_read {memory : σ' → σ} {choose : σ' → α' → Option π'}
    (seen : ∀ {state input next}, choose state input = some next →
      (own p = true ∧ point next = point p) ∨
        ∃ choice, instr.body (memory state) choice = some (memory state, point next)) :
    Follows memory point own p (.read choose) instr := by
  constructor
  case access =>
    intro state input after next body
    simp only [Instr.body, Option.map_eq_some_iff, Prod.mk.injEq] at body
    obtain ⟨_, result, rfl, rfl⟩ := body
    rcases seen result with ⟨mine, stays⟩ | step
    · exact .inl ⟨mine, rfl, stays⟩
    · exact .inr step
  all_goals (intros; contradiction)

/-- A write that the abstract program does not see. -/
theorem Follows.of_act {memory : σ' → σ} {run : σ' → α' → Option (σ' × π')} (mine : own p = true)
    (unseen : ∀ {state input after next}, run state input = some (after, next) →
      memory after = memory state ∧ point next = point p) :
    Follows memory point own p (.act run) instr := by
  constructor
  case access => exact fun body => .inl ⟨mine, unseen body⟩
  all_goals (intros; contradiction)

theorem Follows.of_join {memory : σ' → σ} {awaits : σ' → ι → π' → Bool} {next : π'}
    (stays : point next = point p) :
    Follows memory point own p (.join awaits next : Instr ι μ χ σ' π' α') instr := by
  constructor
  case join =>
    intro awaits next same
    cases same
    exact .inl stays
  all_goals (intros; contradiction)

theorem Follows.of_halt {memory : σ' → σ} :
    Follows memory point own p (.halt : Instr ι μ χ σ' π' α') instr := by
  constructor <;> (intros; contradiction)

end Lifting

section Statuses

variable {memory : σ' → σ} {point : π' → π}

theorem map_point (status : Status μ χ π') : (status.map point).point = point status.point := by
  cases status <;> rfl

theorem map_sleepsOn [DecidableEq χ] (cond : χ) (status : Status μ χ π') :
    (status.map point).sleepsOn cond = status.sleepsOn cond := by
  cases status <;> rfl

theorem map_rouse [DecidableEq χ] (cond : χ) (status : Status μ χ π') :
    (status.rouse cond).map point = (status.map point).rouse cond := by
  rcases status.rouse_cases cond with same | ⟨mutex, p, rfl, woken⟩
  · cases status with
    | asleep other mutex p =>
        by_cases here : other = cond
        · simp [Status.rouse, here] at same
        · simp [Status.rouse, Status.map, here]
    | _ => rfl
  · rw [woken]
    simp [Status.map, Status.rouse]

variable [DecidableEq ι]

theorem map_update (threads : ι → Status μ χ π') (i : ι) (status : Status μ χ π') :
    (fun j => (Function.update threads i status j).map point) =
      Function.update (fun j => (threads j).map point) i (status.map point) := by
  funext j
  exact Function.apply_update (fun _ => Status.map point) threads i status j

theorem map_set (config : Config ι μ χ σ' π') (i : ι) (status : Status μ χ π') :
    (config.set i status).map memory point = (config.map memory point).set i (status.map point) := by
  simp only [Config.map, Config.set, map_update]

theorem map_write (config : Config ι μ χ σ' π') (i : ι) (status : Status μ χ π') (written : σ') :
    Config.map memory point { config.set i status with memory := written } =
      { (config.map memory point).set i (status.map point) with memory := memory written } := by
  simp only [Config.map, Config.set, map_update]

omit [DecidableEq ι] in
theorem map_rouseAll [DecidableEq χ] (config : Config ι μ χ σ' π') (cond : χ) :
    (config.rouseAll cond).map memory point = (config.map memory point).rouseAll cond := by
  simp only [Config.map, Config.rouseAll, map_rouse]

end Statuses

section Completeness

variable [DecidableEq ι] [DecidableEq μ] [DecidableEq χ] [Fintype ι] {program : Program ι μ χ σ π α}
  {config middle after : Config ι μ χ σ π} {label : Label ι α} {i : ι} {p : π} {input : α}

omit [DecidableEq χ] [Fintype ι] in
theorem Arrives.performs {written : σ} {next : π} (arrives : Arrives program config i p middle)
    (body : (program.code i p).body config.memory input = some (written, next)) :
    program.perform middle i p input = some { middle.set i (.ready next) with memory := written } := by
  simp [Program.perform, arrives.memory_eq, body]

theorem Arrives.step (arrives : Arrives program config i p middle)
    (performed : program.perform middle i p input = some after) :
    program.step config (.run i input) = some after := by
  cases arrives with
  | here ready =>
      simp only [Program.step, ready, Program.runStep]
      split
      case h_7 => exact performed
      all_goals simp_all [Program.perform, Instr.body]
  | entering ready code free => simpa [Program.step, ready, Program.runStep, code, free] using performed
  | resuming woken free => simpa [Program.step, woken, free] using performed

/-- Every move is a step of the program. -/
theorem Moves.step (moves : Moves program config label after) : program.step config label = some after := by
  cases moves with
  | @read i p middle input choose next arrives code result =>
      have body : (program.code i p).body config.memory input = some (middle.memory, next) := by
        simp [code, Instr.body, result, arrives.memory_eq]
      exact arrives.step (arrives.performs body)
  | act arrives code result =>
      refine arrives.step (arrives.performs ?_)
      rw [code]
      exact result
  | lock ready code free => simp [Program.step, ready, Program.runStep, code, free]
  | unlock ready code => simp [Program.step, ready, Program.runStep, code]
  | wait ready code => simp [Program.step, ready, Program.runStep, code]
  | broadcast ready code => simp [Program.step, ready, Program.runStep, code]
  | join ready code finished => simp [Program.step, ready, Program.runStep, code, finished]
  | signal ready code sleeper =>
      simp [Program.step, ready, Program.pickStep, code, sleeper, Status.sleepsOn, Status.rouse]
  | signalNone ready code nobody => simp [Program.step, ready, Program.pickStep, code, nobody]
  | create ready code dormant isDormant different result =>
      simp [Program.step, ready, Program.pickStep, code, dormant, isDormant, different, result]
  | createFails ready code result => simp [Program.step, ready, Program.pickStep, code, result]
  | spurious sleeper => simp [Program.step, sleeper]

end Completeness

section Refinement

variable [DecidableEq ι] [DecidableEq μ] [DecidableEq χ] {concrete : Program ι μ χ σ' π' α'}
  {abstract : Program ι μ χ σ π α} {memory : σ' → σ} {point : π' → π} {own : π' → Bool}
  {config middle after : Config ι μ χ σ' π'} {label : Label ι α'} {i : ι} {p : π'}

omit [DecidableEq ι] [DecidableEq μ] [DecidableEq χ] in
theorem map_ready (ready : config.threads i = .ready p) :
    (config.map memory point).threads i = .ready (point p) := by
  simp [Config.map, ready, Status.map]

omit [DecidableEq ι] [DecidableEq μ] [DecidableEq χ] in
theorem map_asleep {cond : χ} {mutex : μ} (sleeper : config.threads i = .asleep cond mutex p) :
    (config.map memory point).threads i = .asleep cond mutex (point p) := by
  simp [Config.map, sleeper, Status.map]

omit [DecidableEq ι] [DecidableEq χ] in
theorem Arrives.refines (arrives : Arrives concrete config i p middle)
    (refines : Refines concrete abstract memory point own) :
    Arrives abstract (config.map memory point) i (point p) (middle.map memory point) := by
  cases arrives with
  | here ready => exact .here (map_ready ready)
  | entering ready code free => exact .entering (map_ready ready) ((refines.follows _ _).enter code).1 free
  | resuming woken free =>
      refine .resuming ?_ free
      simp [Config.map, woken, Status.map]

omit [DecidableEq ι] [DecidableEq χ] in
/-- A thread performs an access of the larger program only where it holds no new mutex. -/
theorem Arrives.alone (arrives : Arrives concrete config i p middle)
    (refines : Refines concrete abstract memory point own)
    (waits : (config.threads i).Waits concrete i) (mine : own p = true) :
    middle = config ∧ config.threads i = .ready p := by
  cases arrives with
  | here ready => exact ⟨rfl, ready⟩
  | entering ready code free =>
      rw [((refines.follows _ _).enter code).2] at mine
      cases mine
  | resuming woken free =>
      rw [woken] at waits
      obtain ⟨cond, before, code⟩ := waits
      rw [((refines.follows _ _).wait code).2] at mine
      cases mine

omit [DecidableEq μ] [DecidableEq χ] in
theorem map_stutter (config : Config ι μ χ σ' π') {next : π'} (ready : config.threads i = .ready p)
    (same : point next = point p) :
    (config.set i (.ready next)).map memory point = config.map memory point := by
  rw [map_set, Status.map, same]
  simp only [Config.set]
  rw [Function.update_eq_self_iff.mpr (map_ready ready).symm]

/-- A step of the concrete program is one of the abstract program, or none. -/
theorem Moves.refines [Fintype ι] [Inhabited α] (moves : Moves concrete config label after)
    (refines : Refines concrete abstract memory point own)
    (waits : ∀ i, (config.threads i).Waits concrete i) :
    after.map memory point = config.map memory point ∨ ∃ choice, label.Agrees choice ∧
      Moves abstract (config.map memory point) choice (after.map memory point) := by
  -- an access, at a point of the concrete program alone or at a point of both
  have access : ∀ {i p middle input written next}, Arrives concrete config i p middle →
      (concrete.code i p).body config.memory input = some (written, next) →
      Config.map memory point { middle.set i (.ready next) with memory := written } =
          config.map memory point ∨
        ∃ choice, (Label.run i input).Agrees choice ∧ Moves abstract (config.map memory point) choice
          (Config.map memory point { middle.set i (.ready next) with memory := written }) := by
    intro i p middle input written next arrives body
    rcases (refines.follows _ _).access body with ⟨mine, same, stays⟩ | ⟨choice, seen⟩
    case inl =>
        obtain ⟨rfl, ready⟩ := arrives.alone refines (waits i) mine
        have unseen : (middle.set i (.ready next)).map memory point = middle.map memory point :=
          map_stutter middle ready stays
        left
        rw [map_write, same, ← map_set, unseen]
        rfl
    case inr =>
        have arrived := arrives.refines refines
        refine .inr ⟨.run i choice, rfl, ?_⟩
        rw [map_write]
        exact perform_moves arrived (arrived.performs seen)
  cases moves with
  | @read i p middle input choose next arrives code result =>
      have body : (concrete.code i p).body config.memory input = some (middle.memory, next) := by
        simp [code, Instr.body, result, arrives.memory_eq]
      exact access arrives body
  | act arrives code result =>
      refine access arrives ?_
      rw [code]
      exact result
  | @lock i p input mutex next ready code free =>
      refine .inr ⟨.run i default, rfl, ?_⟩
      rw [map_set]
      exact .lock (map_ready ready) ((refines.follows _ _).lock code) free
  | @unlock i p input mutex next ready code =>
      refine .inr ⟨.run i default, rfl, ?_⟩
      rw [map_set]
      exact .unlock (map_ready ready) ((refines.follows _ _).unlock code)
  | @wait i p input cond mutex next ready code =>
      refine .inr ⟨.run i default, rfl, ?_⟩
      rw [map_set]
      exact .wait (map_ready ready) ((refines.follows _ _).wait code).1
  | @broadcast i p input cond next ready code =>
      refine .inr ⟨.run i default, rfl, ?_⟩
      rw [map_set, map_rouseAll]
      exact .broadcast (map_ready ready) ((refines.follows _ _).broadcast code)
  | @join i p input awaits next ready code finished =>
      rcases (refines.follows _ _).join code with stays | ⟨await, seen, weaker⟩
      · exact .inl (map_stutter config ready stays)
      · refine .inr ⟨.run i default, rfl, ?_⟩
        rw [map_set]
        refine .join (map_ready ready) seen fun j => ?_
        change await _ j ((config.threads j).map point).point = false
        rw [map_point]
        exact weaker _ _ _ (finished j)
  | @signal i p cond next j mutex resume ready code sleeper =>
      refine .inr ⟨.pick i (some j), ⟨rfl, rfl⟩, ?_⟩
      rw [map_set, map_set]
      exact .signal (map_ready ready) ((refines.follows _ _).signal code) (map_asleep sleeper)
  | @signalNone i p cond next ready code nobody =>
      refine .inr ⟨.pick i none, ⟨rfl, rfl⟩, ?_⟩
      rw [map_set]
      refine .signalNone (map_ready ready) ((refines.follows _ _).signal code) fun j => ?_
      exact (map_sleepsOn cond _).trans (nobody j)
  | @create i p start next child idle written final ready code dormant isDormant different result =>
      obtain ⟨create, seen, same⟩ := (refines.follows _ _).fork code
      refine .inr ⟨.pick i (some child), ⟨rfl, rfl⟩, ?_⟩
      rw [map_write, map_set]
      refine .create (map_ready ready) seen (map_ready dormant) (refines.dormant isDormant) different ?_
      exact (same _ _).trans (by rw [result])
  | @createFails i p start next written final ready code result =>
      obtain ⟨create, seen, same⟩ := (refines.follows _ _).fork code
      refine .inr ⟨.pick i none, ⟨rfl, rfl⟩, ?_⟩
      rw [map_write]
      refine .createFails (map_ready ready) seen ?_
      exact (same _ _).trans (by rw [result])
  | @spurious j cond mutex p sleeper =>
      refine .inr ⟨.wake j, rfl, ?_⟩
      rw [map_set]
      exact .spurious (map_asleep sleeper)

/-- The runs of the concrete program are runs of the abstract one. -/
theorem Reaches.refines [Fintype ι] [Inhabited α] {allowed : Config ι μ χ σ' π' → Label ι α' → Prop}
    {permitted : Config ι μ χ σ π → Label ι α → Prop} {start : Config ι μ χ σ' π'}
    (reaches : Reaches concrete allowed start config)
    (refines : Refines concrete abstract memory point own)
    (awake : ∀ i, (start.threads i).Waits concrete i)
    (weaker : ∀ {config label choice}, allowed config label → label.Agrees choice →
      permitted (config.map memory point) choice) :
    Reaches abstract permitted (start.map memory point) (config.map memory point) := by
  induction reaches with
  | refl => exact .refl
  | step reaches may stepped ih =>
      rcases (step_moves stepped).refines refines (reaches.waits awake) with same | ⟨choice, agrees, moves⟩
      · rwa [same]
      · exact .step ih (weaker may agrees) moves.step

end Refinement

end ThreadPool.Foundation
