import ThreadPool.Foundation.Launch
import ThreadPool.Foundation.Observation
import ThreadPool.Foundation.Word

namespace ThreadPool.BakeryLock

open Foundation

/-! # The bakery lock

`bakery-lock/main.c` for any number `N` of threads in place of `N_THREAD`. Every read and
every write of a shared variable is one step, so `max_label` and the comparisons of
`check_k_i` read labels that may change in between. Labels are never reset: they only grow,
as long as none reaches `INT_MAX`.
-/

variable {N : Nat}

def iter : Int := 15

def intMax : Int := 2147483647

structure Memory (N : Nat) where
  flag : Fin N → Bool
  label : Fin N → Int
  count : Int
  shutdown : Bool

/-- `routine` with `max_label`, `check_waiting` and `check_k_i` in place; `i` is the index in
`max_label`, `k` the one in `check_waiting`, and `value` what was read from `label[k]`. -/
inductive RoutinePc (N : Nat) where
  | setFlag
  | maxTest (i : Nat) (max : Int)
  | maxRead (i : Fin N) (max : Int)
  | writeLabel (max : Int)
  | checkFlag (k : Nat)
  | lessOther (k : Fin N)
  | lessOwn (k : Fin N) (value : Int)
  | equalOther (k : Fin N)
  | equalOwn (k : Fin N) (value : Int)
  | readCount
  | writeCount (temp : Int)
  | testCount
  | setShutdown
  | unlock
  | testShutdown
  | exited
deriving DecidableEq

def routine (id : Fin N) :
    RoutinePc N → (Fin N → Fin N) → Memory N → Option (Memory N × RoutinePc N)
  | .setFlag, _, memory =>
      some ({ memory with flag := Function.update memory.flag id true }, .maxTest 0 (-1))
  | .maxTest i max, _, memory =>
      if below : i < N then
        if memory.label ⟨i, below⟩ > max then some (memory, .maxRead ⟨i, below⟩ max)
        else some (memory, .maxTest (i + 1) max)
      else some (memory, .writeLabel max)
  | .maxRead i _, _, memory => some (memory, .maxTest (i + 1) (memory.label i))
  | .writeLabel max, _, memory =>
      some ({ memory with label := Function.update memory.label id (wrap 32 (max + 1)) }, .checkFlag 0)
  | .checkFlag k, _, memory =>
      if below : k < N then
        if k = id then some (memory, .checkFlag (k + 1))
        else if memory.flag ⟨k, below⟩ then some (memory, .lessOther ⟨k, below⟩)
        else some (memory, .checkFlag (k + 1))
      else some (memory, .readCount)
  | .lessOther k, _, memory => some (memory, .lessOwn k (memory.label k))
  | .lessOwn k value, _, memory =>
      if value < memory.label id then some (memory, .checkFlag 0) else some (memory, .equalOther k)
  | .equalOther k, _, memory => some (memory, .equalOwn k (memory.label k))
  | .equalOwn k value, _, memory =>
      if value = memory.label id ∧ k < id then some (memory, .checkFlag 0)
      else some (memory, .checkFlag (k + 1))
  | .readCount, _, memory => some (memory, .writeCount memory.count)
  | .writeCount temp, _, memory => some ({ memory with count := wrap 32 (temp + 1) }, .testCount)
  | .testCount, _, memory =>
      if memory.count > iter then some (memory, .setShutdown) else some (memory, .unlock)
  | .setShutdown, _, memory => some ({ memory with shutdown := true }, .unlock)
  | .unlock, _, memory =>
      some ({ memory with flag := Function.update memory.flag id false }, .testShutdown)
  | .testShutdown, _, memory =>
      if memory.shutdown then some (memory, .exited) else some (memory, .setFlag)
  | .exited, _, _ => none

def bakeryLock (N : Nat) : Launcher N (Memory N) (RoutinePc N) where
  clear i memory :=
    { memory with flag := Function.update memory.flag i false, label := Function.update memory.label i 0 }
  first := .setFlag
  access := routine

/-- The global variables are zero when the program starts. -/
def start (N : Nat) [NeZero N] : LaunchConfig N (Memory N) (RoutinePc N) :=
  (bakeryLock N).start { flag := fun _ => false, label := fun _ => 0, count := 0, shutdown := false }

/-! ## Steps -/

/-- What a thread does in its routine: memory and point before and after. -/
inductive Steps (id : Fin N) (memory : Memory N) : RoutinePc N → Memory N → RoutinePc N → Prop
  | setFlag : Steps id memory .setFlag { memory with flag := Function.update memory.flag id true }
      (.maxTest 0 (-1))
  | larger {max} (i : Fin N) : max < memory.label i →
      Steps id memory (.maxTest i max) memory (.maxRead i max)
  | smaller {max} (i : Fin N) : memory.label i ≤ max →
      Steps id memory (.maxTest i max) memory (.maxTest (i + 1) max)
  | scanned {i max} : N ≤ i → Steps id memory (.maxTest i max) memory (.writeLabel max)
  | maxRead {i max} : Steps id memory (.maxRead i max) memory (.maxTest (i + 1) (memory.label i))
  | writeLabel {max} : Steps id memory (.writeLabel max)
      { memory with label := Function.update memory.label id (wrap 32 (max + 1)) } (.checkFlag 0)
  | skip : Steps id memory (.checkFlag id) memory (.checkFlag (id + 1))
  | up (k : Fin N) : k ≠ id → memory.flag k = true → Steps id memory (.checkFlag k) memory (.lessOther k)
  | down (k : Fin N) : k ≠ id → memory.flag k = false →
      Steps id memory (.checkFlag k) memory (.checkFlag (k + 1))
  | pass {k} : N ≤ k → Steps id memory (.checkFlag k) memory .readCount
  | lessOther {k} : Steps id memory (.lessOther k) memory (.lessOwn k (memory.label k))
  | less {k value} : value < memory.label id → Steps id memory (.lessOwn k value) memory (.checkFlag 0)
  | notLess {k value} : memory.label id ≤ value →
      Steps id memory (.lessOwn k value) memory (.equalOther k)
  | equalOther {k} : Steps id memory (.equalOther k) memory (.equalOwn k (memory.label k))
  | tie {k value} : value = memory.label id → k < id →
      Steps id memory (.equalOwn k value) memory (.checkFlag 0)
  | first {k value} : (value = memory.label id → id ≤ k) →
      Steps id memory (.equalOwn k value) memory (.checkFlag (k + 1))
  | readCount : Steps id memory .readCount memory (.writeCount memory.count)
  | writeCount {temp} : Steps id memory (.writeCount temp) { memory with count := wrap 32 (temp + 1) }
      .testCount
  | finish : Steps id memory .testCount memory .setShutdown
  | goOn : Steps id memory .testCount memory .unlock
  | setShutdown : Steps id memory .setShutdown { memory with shutdown := true } .unlock
  | unlock : Steps id memory .unlock { memory with flag := Function.update memory.flag id false }
      .testShutdown
  | exit : Steps id memory .testShutdown memory .exited
  | round : Steps id memory .testShutdown memory .setFlag

theorem routine_steps {id : Fin N} {tId : Fin N → Fin N} {memory after : Memory N} {pc next : RoutinePc N}
    (result : routine id pc tId memory = some (after, next)) : Steps id memory pc after next := by
  cases pc with
  | setFlag => cases result; exact .setFlag
  | maxTest i max =>
      simp only [routine] at result
      split at result
      case isTrue below =>
        split at result
        case isTrue larger => cases result; exact .larger ⟨i, below⟩ larger
        case isFalse smaller => cases result; exact .smaller ⟨i, below⟩ (not_lt.mp smaller)
      case isFalse past => cases result; exact .scanned (not_lt.mp past)
  | maxRead i max => cases result; exact .maxRead
  | writeLabel max => cases result; exact .writeLabel
  | checkFlag k =>
      simp only [routine] at result
      split at result
      case isTrue below =>
        split at result
        case isTrue same => cases result; subst same; exact .skip
        case isFalse other =>
          have different : (⟨k, below⟩ : Fin N) ≠ id := fun same => other (congrArg Fin.val same)
          split at result
          case isTrue up => cases result; exact .up ⟨k, below⟩ different up
          case isFalse down => cases result; exact .down ⟨k, below⟩ different (by simpa using down)
      case isFalse past => cases result; exact .pass (not_lt.mp past)
  | lessOther k => cases result; exact .lessOther
  | lessOwn k value =>
      simp only [routine] at result
      split at result
      case isTrue less => cases result; exact .less less
      case isFalse more => cases result; exact .notLess (not_lt.mp more)
  | equalOther k => cases result; exact .equalOther
  | equalOwn k value =>
      simp only [routine] at result
      split at result
      case isTrue tie => cases result; exact .tie tie.1 tie.2
      case isFalse other =>
        cases result
        exact .first fun same => not_lt.mp fun lower => other ⟨same, lower⟩
  | readCount => cases result; exact .readCount
  | writeCount temp => cases result; exact .writeCount
  | testCount =>
      simp only [routine] at result
      split at result
      case isTrue => cases result; exact .finish
      case isFalse => cases result; exact .goOn
  | setShutdown => cases result; exact .setShutdown
  | unlock => cases result; exact .unlock
  | testShutdown =>
      simp only [routine] at result
      split at result
      case isTrue => cases result; exact .exit
      case isFalse => cases result; exact .round
  | exited => cases result

/-! ## Order -/

/-- The flag of a thread at this point. -/
def RoutinePc.up : RoutinePc N → Bool
  | .setFlag | .testShutdown | .exited => false
  | _ => true

/-- Behind the write of the label, in front of the critical section. -/
def RoutinePc.waiting : RoutinePc N → Bool
  | .checkFlag _ | .lessOther _ | .lessOwn _ _ | .equalOther _ | .equalOwn _ _ => true
  | _ => false

def RoutinePc.critical : RoutinePc N → Bool
  | .readCount | .writeCount _ | .testCount | .setShutdown | .unlock => true
  | _ => false

/-- The thread has found that it need not wait for `a`. -/
def RoutinePc.cleared (a : Fin N) : RoutinePc N → Bool
  | .checkFlag k => decide (a < k)
  | .lessOther k | .lessOwn k _ | .equalOther k | .equalOwn k _ => decide (a < k)
  | pc => pc.critical

/-- The label that is being chosen will exceed `value`, the label of `b`. -/
def RoutinePc.Exceeds (b : Fin N) (value : Int) : RoutinePc N → Prop
  | .maxTest i max => i ≤ b ∨ value ≤ max
  | .maxRead i max => i ≤ b ∨ value ≤ max
  | .writeLabel max => value ≤ max
  | _ => False

/-- What thread `id` knows of the labels from what it has read. -/
def RoutinePc.Knows (id : Fin N) (label : Fin N → Int) : RoutinePc N → Prop
  | .maxTest i max => -1 ≤ max ∧ (RoutinePc.maxTest i max).Exceeds id (label id)
  | .maxRead i max => -1 ≤ max ∧ max < label i ∧ (RoutinePc.maxRead i max).Exceeds id (label id)
  | .writeLabel max => -1 ≤ max ∧ label id ≤ max
  | .lessOwn k value => value ≤ label k
  | .equalOther k => label id ≤ label k
  | .equalOwn k value => label id ≤ value ∧ value ≤ label k
  | _ => True

/-- The label a thread is about to write does not reach `INT_MAX`. -/
def RoutinePc.bounded : RoutinePc N → Bool
  | .writeLabel max => decide (max + 1 < intMax)
  | _ => true

/-- The order of service: by label, then by index. -/
def Before (label : Fin N → Int) (b a : Fin N) : Prop := label b < label a ∨ label b = label a ∧ b < a

section Routine

variable {id : Fin N} {memory after : Memory N} {pc next : RoutinePc N}

theorem label_exact {max : Int} (floor : -1 ≤ max) (below : max + 1 < intMax) :
    wrap 32 (max + 1) = max + 1 := by
  simp only [intMax] at below
  exact wrap_of_range_32 (by omega) (by omega)

theorem steps_label (steps : Steps id memory pc after next) (knows : pc.Knows id memory.label)
    (bounded : pc.bounded = true) : after.label = memory.label ∨ ∃ max, pc = .writeLabel max ∧
      next = .checkFlag 0 ∧ after.label = Function.update memory.label id (max + 1) := by
  cases steps with
  | @writeLabel max =>
      exact .inr ⟨max, rfl, rfl, by rw [label_exact knows.1 (of_decide_eq_true bounded)]⟩
  | _ => exact .inl rfl

theorem steps_label_other (steps : Steps id memory pc after next) {j : Fin N} (other : j ≠ id) :
    after.label j = memory.label j := by
  cases steps with
  | writeLabel => exact Function.update_of_ne other ..
  | _ => rfl

/-- Labels only grow. -/
theorem label_mono (steps : Steps id memory pc after next) (knows : pc.Knows id memory.label)
    (bounded : pc.bounded = true) (j : Fin N) : memory.label j ≤ after.label j := by
  rcases steps_label steps knows bounded with same | ⟨max, rfl, _, written⟩
  · rw [same]
  · rw [written]
    by_cases here : j = id
    · subst here
      have own := knows.2
      rw [Function.update_self]
      omega
    · rw [Function.update_of_ne here]

/-- Choosing goes on until the label is written, and then it exceeds the labels seen. -/
theorem exceeds_step (steps : Steps id memory pc after next) (knows : pc.Knows id memory.label)
    (bounded : pc.bounded = true) {b : Fin N} (exceeds : pc.Exceeds b (memory.label b)) :
    next.Exceeds b (memory.label b) ∨ next = .checkFlag 0 ∧ memory.label b < after.label id := by
  cases steps with
  | larger i => exact .inl exceeds
  | @smaller max i smaller =>
      left
      rcases exceeds with ahead | seen
      · by_cases here : i = b
        · subst here
          exact .inr smaller
        · have different := Fin.val_ne_of_ne here
          exact .inl (by omega)
      · exact .inr seen
  | scanned past =>
      left
      rcases exceeds with ahead | seen
      · exact absurd b.isLt (by omega)
      · exact seen
  | @maxRead i max =>
      left
      obtain ⟨_, larger, _⟩ := knows
      rcases exceeds with ahead | seen
      · by_cases here : i = b
        · subst here
          exact .inr le_rfl
        · have different := Fin.val_ne_of_ne here
          exact .inl (by have := Fin.le_def.mp ahead; omega)
      · exact .inr (seen.trans larger.le)
  | @writeLabel max =>
      refine .inr ⟨rfl, ?_⟩
      simp only [Function.update_self, label_exact knows.1 (of_decide_eq_true bounded)]
      exact Int.lt_add_one_iff.mpr exceeds
  | _ => exact exceeds.elim

theorem knows_mono {k : Fin N} {label larger : Fin N → Int} (own : larger k = label k)
    (mono : ∀ j, label j ≤ larger j) (knows : pc.Knows k label) : pc.Knows k larger := by
  cases pc with
  | maxTest i max =>
      rw [RoutinePc.Knows, own]
      exact knows
  | maxRead i max =>
      obtain ⟨floor, below, exceeds⟩ := knows
      refine ⟨floor, below.trans_le (mono i), ?_⟩
      rw [own]
      exact exceeds
  | writeLabel max =>
      rw [RoutinePc.Knows, own]
      exact knows
  | lessOwn j value => exact knows.trans (mono j)
  | equalOther j =>
      rw [RoutinePc.Knows, own]
      exact knows.trans (mono j)
  | equalOwn j value =>
      rw [RoutinePc.Knows, own]
      exact ⟨knows.1, knows.2.trans (mono j)⟩
  | _ => trivial

theorem knows_step (steps : Steps id memory pc after next) (knows : pc.Knows id memory.label)
    (bounded : pc.bounded = true) : next.Knows id after.label := by
  have chosen := exceeds_step steps knows bounded (b := id)
  cases steps with
  | setFlag => exact ⟨le_rfl, .inl (Nat.zero_le _)⟩
  | larger i larger => exact ⟨knows.1, larger, knows.2⟩
  | smaller i smaller => exact ⟨knows.1, (chosen knows.2).resolve_right nofun⟩
  | scanned past => exact ⟨knows.1, (chosen knows.2).resolve_right nofun⟩
  | maxRead =>
      have floor := knows.1.trans knows.2.1.le
      exact ⟨floor, (chosen knows.2.2).resolve_right nofun⟩
  | lessOther => exact le_rfl
  | notLess more => exact more.trans knows
  | equalOther => exact ⟨knows, le_rfl⟩
  | _ => trivial

theorem flag_step (steps : Steps id memory pc after next) (flag : memory.flag id = pc.up) :
    after.flag = Function.update memory.flag id next.up := by
  cases steps with
  | setFlag | unlock => rfl
  | _ =>
      symm
      exact Function.update_eq_self_iff.mpr flag.symm

/-- A thread goes past another one whose flag is down or whose turn comes later. -/
theorem cleared_step (steps : Steps id memory pc after next) (knows : pc.Knows id memory.label)
    {a : Fin N} (other : a ≠ id) (cleared : next.cleared a = true) :
    after.label = memory.label ∧
      (pc.cleared a = true ∨ memory.flag a = false ∨ Before memory.label id a) := by
  have different := Fin.val_ne_of_ne other
  cases steps with
  | writeLabel | less | tie => simp [RoutinePc.cleared] at cleared
  | skip =>
      simp only [RoutinePc.cleared, decide_eq_true_eq] at cleared ⊢
      exact ⟨trivial, .inl (by omega)⟩
  | down k _ down =>
      simp only [RoutinePc.cleared, decide_eq_true_eq] at cleared ⊢
      refine ⟨trivial, ?_⟩
      by_cases here : a = k
      · subst here
        exact .inr (.inl down)
      · have := Fin.val_ne_of_ne here
        exact .inl (by omega)
  | pass past =>
      simp only [RoutinePc.cleared, decide_eq_true_eq]
      exact ⟨trivial, .inl (a.isLt.trans_le past)⟩
  | @first k value order =>
      simp only [RoutinePc.cleared, decide_eq_true_eq] at cleared ⊢
      refine ⟨trivial, ?_⟩
      by_cases here : a = k
      · subst here
        obtain ⟨least, most⟩ := knows
        refine .inr (.inr ?_)
        by_cases later : memory.label id < memory.label a
        · exact .inl later
        · have same : memory.label id = memory.label a := by omega
          have index := order (by omega)
          exact .inr ⟨same, lt_of_le_of_ne index other.symm⟩
      · have := Fin.val_ne_of_ne here
        exact .inl (Fin.lt_def.mpr (by omega))
  | up | lessOther | notLess | equalOther => exact ⟨rfl, .inl cleared⟩
  | readCount | writeCount | finish | goOn | setShutdown => exact ⟨rfl, .inl rfl⟩
  | _ => cases cleared

end Routine

abbrev State (N : Nat) := LaunchView N (Memory N) (RoutinePc N)

/-- Thread `a` is idle, or will be served behind `b`. -/
def Precedes (state : State N) (b a : Fin N) : Prop :=
  ∀ pc, state.point a = some pc → pc.up = true →
    pc.Exceeds b (state.shared.label b) ∨ Before state.shared.label b a

structure Ordered (state : State N) : Prop where
  flag : ∀ k, state.shared.flag k = (state.point k).any RoutinePc.up
  knows : ∀ k pc, state.point k = some pc → pc.Knows k state.shared.label
  precedes : ∀ b a pc, state.point b = some pc → pc.cleared a = true → a ≠ b → Precedes state b a

section Order

variable {state : State N} {k : Fin N} {after : Memory N} {pc next : RoutinePc N}

/-- A thread that moves does not get in front of another one. -/
theorem precedes_mover (ordered : Ordered state) (here : state.point k = some pc)
    (bounded : pc.bounded = true) (steps : Steps k state.shared pc after next) {b : Fin N} (other : b ≠ k)
    (precedes : Precedes state b k) : Precedes (state.move k after next) b k := by
  have knows := ordered.knows k pc here
  have same : after.label b = state.shared.label b := steps_label_other steps other
  intro point there up
  rw [move_point, if_pos rfl] at there
  cases there
  change next.Exceeds b (after.label b) ∨ Before after.label b k
  rw [Before, same]
  cases flag : pc.up with
  | true =>
      rcases precedes pc here flag with exceeds | before
      · rcases exceeds_step steps knows bounded exceeds with exceeds | ⟨_, later⟩
        · exact .inl exceeds
        · exact .inr (.inl later)
      · have grows := label_mono steps knows bounded k
        rcases before with less | ⟨equal, index⟩
        · exact .inr (.inl (less.trans_le grows))
        · by_cases kept : after.label k = state.shared.label k
          · exact .inr (.inr ⟨by rw [kept, equal], index⟩)
          · exact .inr (.inl (by omega))
  | false =>
      -- only the store of the flag raises it, and then the scan is to come
      left
      cases steps with
      | setFlag => exact .inl (Nat.zero_le _)
      | exit | round => cases up
      | _ => cases flag

theorem Ordered.access (ordered : Ordered state) (here : state.point k = some pc)
    (bounded : pc.bounded = true) (steps : Steps k state.shared pc after next) :
    Ordered (state.move k after next) := by
  have knows := ordered.knows k pc here
  constructor
  case flag =>
    intro j
    have mine : state.shared.flag k = pc.up := by rw [ordered.flag k, here]; rfl
    change after.flag j = _
    rw [flag_step steps mine, move_point]
    by_cases mover : j = k
    · subst mover
      simp
    · simp [mover, ordered.flag j]
  case knows =>
    intro j point there
    rw [move_point] at there
    split at there
    case isTrue same => cases there; subst same; exact knows_step steps knows bounded
    case isFalse other =>
      exact knows_mono (steps_label_other steps other) (label_mono steps knows bounded)
        (ordered.knows j point there)
  case precedes =>
    intro b a point there cleared different
    rw [move_point] at there
    split at there
    case isTrue same =>
      cases there
      subst same
      obtain ⟨labels, reason⟩ := cleared_step steps knows different cleared
      intro other waits up
      rw [move_point, if_neg different] at waits
      change other.Exceeds b (after.label b) ∨ Before after.label b a
      rw [labels]
      rcases reason with before | down | order
      · exact ordered.precedes b a pc here before different other waits up
      · rw [ordered.flag a, waits] at down
        simp [up] at down
      · exact .inr order
    case isFalse other =>
      have precedes := ordered.precedes b a point there cleared different
      by_cases mover : a = k
      · subst mover
        exact precedes_mover ordered here bounded steps other precedes
      · intro pc waits up
        rw [move_point, if_neg mover] at waits
        change pc.Exceeds b (after.label b) ∨ Before after.label b a
        rw [Before, steps_label_other steps other, steps_label_other steps mover]
        exact precedes pc waits up

theorem Ordered.begin (ordered : Ordered state) (idle : state.point k = none) :
    Ordered (state.move k state.shared .setFlag) := by
  constructor
  case flag =>
    intro j
    change state.shared.flag j = _
    rw [ordered.flag j, move_point]
    split
    case isTrue same => subst same; rw [idle]; rfl
    case isFalse => rfl
  case knows =>
    intro j point there
    rw [move_point] at there
    split at there
    case isTrue => cases there; trivial
    case isFalse => exact ordered.knows j point there
  case precedes =>
    intro b a point there cleared different other waits up
    rw [move_point] at there waits
    split at there
    case isTrue => cases there; cases cleared
    case isFalse =>
      split at waits
      case isTrue => cases waits; cases up
      case isFalse => exact ordered.precedes b a point there cleared different other waits up

theorem Ordered.step {label : Label (LaunchThread N) Bool} {final : State N} (ordered : Ordered state)
    (bounded : ∀ k input pc, label = .run (some k) input → state.point k = some pc → pc.bounded = true)
    (steps : state.Step (bakeryLock N) label final) : Ordered final := by
  cases steps with
  | still => exact ordered
  | store => exact ⟨ordered.flag, ordered.knows, ordered.precedes⟩
  | clear i idle =>
      have nobody : ∀ k pc, state.point k ≠ some pc := by simp [idle]
      refine ⟨fun k => ?_, fun k pc there => absurd there (nobody k pc),
        fun b a pc there => absurd there (nobody b pc)⟩
      have down : state.shared.flag k = false := by rw [ordered.flag k, idle k]; rfl
      change Function.update state.shared.flag i false k = _
      rw [idle k, Function.update_apply]
      split <;> first | rfl | exact down
  | begin k idle => exact ordered.begin idle
  | access k here result => exact ordered.access here (bounded _ _ _ rfl here) (routine_steps result)

def critical (state : State N) (k : Fin N) : Bool := (state.point k).any RoutinePc.critical

theorem critical_alone (ordered : Ordered state) {p q : Fin N} (first : critical state p = true)
    (second : critical state q = true) : p = q := by
  have before : ∀ {b a}, critical state b = true → critical state a = true → a ≠ b →
      Before state.shared.label b a := by
    intro b a inside waits different
    obtain ⟨pc, here, critical⟩ := (Option.any_eq_true ..).mp inside
    obtain ⟨other, there, served⟩ := (Option.any_eq_true ..).mp waits
    have cleared : pc.cleared a = true := by cases pc <;> first | rfl | cases critical
    have up : other.up = true := by cases other <;> first | rfl | cases served
    rcases ordered.precedes b a pc here cleared different other there up with choosing | before
    · cases other <;> first | exact choosing.elim | cases served
    · exact before
  by_contra different
  have forth := before first second (Ne.symm different)
  have back := before second first different
  simp only [Before] at forth back
  omega

end Order

/-! ## First come, first served -/

def waiting (state : State N) (k : Fin N) : Bool := (state.point k).any RoutinePc.waiting

/-- Thread `i` has written its label before thread `j` sets its flag, and has not entered its
critical section yet. -/
def arrivals (ahead : Fin N → Fin N → Bool) (state final : State N) (i j : Fin N) : Bool :=
  waiting final i && (ahead i j || waiting state i && decide (state.point j = some .setFlag) &&
    (final.point j).any RoutinePc.up)

def watchArrivals (ahead : Fin N → Fin N → Bool) (config : LaunchConfig N (Memory N) (RoutinePc N))
    (_ : Label (LaunchThread N) Bool) (after : LaunchConfig N (Memory N) (RoutinePc N)) :
    Fin N → Fin N → Bool :=
  arrivals ahead (launchView config) (launchView after)

/-- A thread that has to wait for `i`, whose label is `value`: it will choose a larger label, or
has one and does not get past `i` in its check. -/
def RoutinePc.Stuck (i : Fin N) (value own : Int) : RoutinePc N → Prop
  | .checkFlag k => value < own ∧ k ≤ i
  | .lessOther k => value < own ∧ k ≤ i
  | .lessOwn k read => value < own ∧ k ≤ i ∧ (k = i → read = value)
  | .equalOther k | .equalOwn k _ => value < own ∧ k < i
  | pc => pc.Exceeds i value

structure Queued (state : State N) (i j : Fin N) : Prop where
  waits : waiting state i = true
  stuck : ∃ pc, state.point j = some pc ∧ pc.Stuck i (state.shared.label i) (state.shared.label j)

section Arrivals

variable {state : State N} {k i j : Fin N} {after : Memory N} {pc next : RoutinePc N}

theorem stuck_of_exceeds {value own : Int} (exceeds : pc.Exceeds i value) : pc.Stuck i value own := by
  cases pc <;> first | exact exceeds | exact exceeds.elim

theorem Queued.different (queued : Queued state i j) : i ≠ j := by
  rintro rfl
  obtain ⟨pc, here, stuck⟩ := queued.stuck
  have waits := queued.waits
  rw [waiting, here] at waits
  cases pc <;> first | exact lt_irrefl _ stuck.1 | cases waits

/-- A thread that is stuck stays so as long as the one it waits for does. -/
theorem stuck_step (ordered : Ordered state) (here : state.point j = some pc) (bounded : pc.bounded = true)
    (steps : Steps j state.shared pc after next) (different : i ≠ j) (up : state.shared.flag i = true)
    (stuck : pc.Stuck i (state.shared.label i) (state.shared.label j)) :
    next.Stuck i (after.label i) (after.label j) := by
  have kept : after.label i = state.shared.label i := steps_label_other steps different
  have apart := Fin.val_ne_of_ne different
  have choosing : pc.Exceeds i (state.shared.label i) →
      next.Stuck i (after.label i) (after.label j) := by
    intro exceeds
    rw [kept]
    rcases exceeds_step steps (ordered.knows j pc here) bounded exceeds with goes | ⟨rfl, larger⟩
    · exact stuck_of_exceeds goes
    · exact ⟨larger, Nat.zero_le _⟩
  cases steps with
  | larger | smaller | scanned | maxRead | writeLabel => exact choosing stuck
  | skip => exact ⟨stuck.1, by have := stuck.2; omega⟩
  | up k => exact stuck
  | down k _ down =>
      have other : k ≠ i := by
        rintro rfl
        rw [up] at down
        cases down
      have := Fin.val_ne_of_ne other
      exact ⟨stuck.1, by have := stuck.2; omega⟩
  | pass past => exact absurd i.isLt (by have := stuck.2; omega)
  | lessOther => exact ⟨stuck.1, stuck.2, fun same => by rw [same]⟩
  | less | tie => exact ⟨stuck.1, Nat.zero_le _⟩
  | notLess more =>
      obtain ⟨larger, index, read⟩ := stuck
      refine ⟨larger, lt_of_le_of_ne index fun same => ?_⟩
      have := read same
      omega
  | equalOther => exact stuck
  | first => exact ⟨stuck.1, stuck.2⟩
  | _ => exact stuck.elim

/-- Threads in the queue stay in it while the first of them waits. -/
theorem Queued.access (queued : Queued state i j) (ordered : Ordered state) (here : state.point k = some pc)
    (bounded : pc.bounded = true) (steps : Steps k state.shared pc after next)
    (still : waiting (state.move k after next) i = true) : Queued (state.move k after next) i j := by
  obtain ⟨point, there, stuck⟩ := queued.stuck
  have different := queued.different
  refine ⟨still, ?_⟩
  by_cases mover : j = k
  · subst mover
    rw [here] at there
    cases there
    refine ⟨next, by rw [move_point, if_pos rfl], ?_⟩
    have up : state.shared.flag i = true := by
      obtain ⟨first, at_first, waits⟩ := (Option.any_eq_true ..).mp queued.waits
      rw [ordered.flag i, at_first]
      cases first <;> first | rfl | cases waits
    exact stuck_step ordered here bounded steps different up stuck
  · refine ⟨point, by rw [move_point, if_neg mover, there], ?_⟩
    change point.Stuck i (after.label i) (after.label j)
    have own : after.label i = state.shared.label i := by
      by_cases first : i = k
      · subst first
        have waits := queued.waits
        rw [waiting, here] at waits
        cases steps with
        | writeLabel => cases waits
        | _ => rfl
      · exact steps_label_other steps first
    rw [own, steps_label_other steps mover]
    exact stuck

/-- A thread that sets its flag queues behind those that wait. -/
theorem queued_arrival (waits : waiting state i = true) (here : state.point j = some .setFlag) :
    Queued (state.move j { state.shared with flag := Function.update state.shared.flag j true }
      (.maxTest 0 (-1))) i j := by
  have different : i ≠ j := by
    rintro rfl
    rw [waiting, here] at waits
    cases waits
  constructor
  case waits => rwa [waiting, move_point, if_neg different]
  case stuck => exact ⟨.maxTest 0 (-1), by rw [move_point, if_pos rfl], Or.inl (Nat.zero_le _)⟩

theorem Queued.begin (queued : Queued state i j) (idle : state.point k = none) :
    Queued (state.move k state.shared .setFlag) i j := by
  obtain ⟨point, there, stuck⟩ := queued.stuck
  obtain ⟨first, here, waits⟩ := (Option.any_eq_true ..).mp queued.waits
  have runs : ∀ {l pc}, state.point l = some pc → l ≠ k := by
    rintro l pc running rfl
    rw [idle] at running
    cases running
  constructor
  case waits => rw [waiting, move_point, if_neg (runs here)]; exact queued.waits
  case stuck => exact ⟨point, by rw [move_point, if_neg (runs there), there], stuck⟩

theorem arrivals_step {ahead : Fin N → Fin N → Bool} {label : Label (LaunchThread N) Bool} {final : State N}
    (ordered : Ordered state) (queued : ∀ i j, ahead i j = true → Queued state i j)
    (bounded : ∀ k input pc, label = .run (some k) input → state.point k = some pc → pc.bounded = true)
    (steps : state.Step (bakeryLock N) label final) (i j : Fin N)
    (ahead_after : arrivals ahead state final i j = true) : Queued final i j := by
  simp only [arrivals, Bool.and_eq_true, Bool.or_eq_true, decide_eq_true_eq] at ahead_after
  obtain ⟨still, before | ⟨⟨waits, here⟩, up⟩⟩ := ahead_after
  · have old := queued i j before
    cases steps with
    | still => exact old
    | store => exact ⟨old.waits, old.stuck⟩
    | clear _ idle =>
        rw [waiting] at still
        simp [idle] at still
    | begin k idle => exact old.begin idle
    | access k there result =>
        exact old.access ordered there (bounded _ _ _ rfl there) (routine_steps result) still
  · -- thread j is the one that moves: it sets its flag
    have unmoved : final.point j = state.point j → Queued final i j := by
      intro same
      rw [same, here] at up
      cases up
    cases steps with
    | still | store | clear => exact unmoved rfl
    | begin k idle =>
        refine unmoved ?_
        rw [move_point, if_neg]
        rintro rfl
        rw [idle] at here
        cases here
    | access k there result =>
        by_cases mover : j = k
        · subst mover
          rw [here] at there
          cases there
          change routine j .setFlag state.table state.shared = some _ at result
          cases result
          exact queued_arrival waits here
        · exact unmoved (by rw [move_point, if_neg mover])

end Arrivals

section Reachable

variable [NeZero N] {config : LaunchConfig N (Memory N) (RoutinePc N)}

/-- No label reaches `INT_MAX`. -/
def LabelsBelowMax (config : LaunchConfig N (Memory N) (RoutinePc N)) :
    Label (LaunchThread N) Bool → Prop
  | .run (some k) _ => ((launchView config).point k).all RoutinePc.bounded = true
  | _ => True

instance : ∀ label, Decidable (LabelsBelowMax config label)
  | .run (some k) _ =>
      inferInstanceAs (Decidable (((launchView config).point k).all RoutinePc.bounded = true))
  | .run none _ => isTrue trivial
  | .pick _ _ => isTrue trivial
  | .wake _ => isTrue trivial

/-- At most one thread is in its critical section; a thread that has written its label before
another one sets its flag enters before it. -/
theorem bakery_lock_serves_in_order {ahead : Fin N → Fin N → Bool}
    (observed : Observed (bakeryLock N).program watchArrivals (fun _ => LabelsBelowMax) (start N)
      (fun _ _ => false) config ahead) :
    (∀ p q, critical (launchView config) p = true → critical (launchView config) q = true → p = q) ∧
      ∀ i j, ahead i j = true → critical (launchView config) j = false := by
  have inOrder : Ordered (launchView config) ∧ ∀ i j, ahead i j = true → Queued (launchView config) i j := by
    refine observed.invariant (fun config ahead => Ordered (launchView config) ∧
      ∀ i j, ahead i j = true → Queued (launchView config) i j) ?_ ?_
    · exact ⟨⟨fun _ => rfl, nofun, nofun⟩, nofun⟩
    · intro config ahead label after reached ⟨ordered, queued⟩ permitted moves
      have steps := Launcher.moves_view (Launcher.reachable_control reached) moves
      have bounded : ∀ k input pc, label = .run (some k) input →
          (launchView config).point k = some pc → pc.bounded = true := by
        rintro k input pc rfl here
        rw [LabelsBelowMax, here] at permitted
        exact permitted
      exact ⟨ordered.step bounded steps, arrivals_step ordered queued bounded steps⟩
  refine ⟨fun p q => critical_alone inOrder.1, fun i j first => ?_⟩
  obtain ⟨pc, here, stuck⟩ := (inOrder.2 i j first).stuck
  rw [critical, here]
  cases pc <;> first | rfl | exact stuck.elim

end Reachable

def go (t : LaunchThread 2) : Label (LaunchThread 2) Bool := .run t true

/-- Thread 0 waits with its label when thread 1 sets its flag and chooses a larger one. -/
theorem bakery_lock_serves_in_order_second : ∃ config ahead,
    Observed (bakeryLock 2).program watchArrivals (fun _ => LabelsBelowMax) (start 2) (fun _ _ => false)
        config ahead ∧
      ahead 0 1 = true ∧ (launchView config).point 1 = some (.checkFlag 0) ∧
      critical (launchView config) 1 = false := by
  obtain ⟨config, ahead, observed, first, waits⟩ := Observed.of_schedule (bakeryLock 2).program
    watchArrivals (fun _ => LabelsBelowMax) (start 2) (fun _ _ => false)
    (List.replicate 8 (go none) ++ List.replicate 8 (go (some 0)) ++ List.replicate 8 (go (some 1)))
    (fun config ahead => ahead 0 1 = true ∧ (launchView config).point 1 = some (.checkFlag 0)) (by decide)
  exact ⟨config, ahead, observed, first, waits, (bakery_lock_serves_in_order observed).2 0 1 first⟩

end ThreadPool.BakeryLock
