import Mathlib.Algebra.Order.Group.Multiset
import Mathlib.Order.Cover
import ThreadPool.Foundation.Census

namespace ThreadPool.Foundation

/-! # Levelled queues

One first-in first-out lane per level, served from the highest non-empty
level. `promote` lifts the due prefix of one lane to the front of another;
`Ahead` is the service order these operations induce.
-/

/-- A lane of items for every level. -/
abbrev Lanes (ι α : Type*) := ι → List α

namespace Lanes

variable {ι α : Type*} {lanes : Lanes ι α} {level source target : ι} {item x y : α}
  {due : α → Bool}

def empty : Lanes ι α := fun _ => []

def Queued (lanes : Lanes ι α) (item : α) : Prop := ∃ level, item ∈ lanes level

/-- The level that is served next. -/
def Top [LT ι] (lanes : Lanes ι α) (level : ι) : Prop :=
  lanes level ≠ [] ∧ ∀ higher, level < higher → lanes higher = []

/-- No item stands twice, neither within a lane nor in two of them. -/
structure Separate (lanes : Lanes ι α) : Prop where
  nodup : ∀ level, (lanes level).Nodup
  disjoint : ∀ {left right}, left ≠ right → List.Disjoint (lanes left) (lanes right)

/-- `x` is served before `y`: from a higher lane, or earlier in the same one. -/
def Ahead [LT ι] (lanes : Lanes ι α) (x y : α) : Prop :=
  (∃ high low, low < high ∧ x ∈ lanes high ∧ y ∈ lanes low) ∨
    ∃ level, [x, y].Sublist (lanes level)

theorem Separate.level_unique (separate : lanes.Separate) {left right : ι}
    (first : item ∈ lanes left) (second : item ∈ lanes right) : left = right := by
  by_contra different
  exact separate.disjoint different first second

theorem Separate.level_of_moved (separate : lanes.Separate) (member : x ∈ lanes level)
    (moved : x ∈ (lanes source).takeWhile due) : level = source :=
  separate.level_unique member ((List.takeWhile_prefix due).subset moved)

section Operations

variable [DecidableEq ι]

def push (lanes : Lanes ι α) (level : ι) (item : α) : Lanes ι α :=
  Function.update lanes level (lanes level ++ [item])

def dropHead (lanes : Lanes ι α) (level : ι) : Lanes ι α :=
  Function.update lanes level (lanes level).tail

/-- The longest due prefix of `source` moves to the front of `target`. -/
def promote (lanes : Lanes ι α) (due : α → Bool) (source target : ι) : Lanes ι α :=
  Function.update (Function.update lanes source ((lanes source).dropWhile due))
    target ((lanes source).takeWhile due ++ lanes target)

@[simp] theorem push_self : lanes.push level item level = lanes level ++ [item] := by
  simp [push]

theorem push_of_ne {other : ι} (different : other ≠ level) :
    lanes.push level item other = lanes other := by
  simp [push, different]

@[simp] theorem dropHead_self : lanes.dropHead level level = (lanes level).tail := by
  simp [dropHead]

theorem dropHead_of_ne {other : ι} (different : other ≠ level) :
    lanes.dropHead level other = lanes other := by
  simp [dropHead, different]

@[simp] theorem promote_target :
    lanes.promote due source target target = (lanes source).takeWhile due ++ lanes target := by
  simp [promote]

theorem promote_source (different : source ≠ target) :
    lanes.promote due source target source = (lanes source).dropWhile due := by
  simp [promote, different]

theorem promote_of_ne {other : ι} (notSource : other ≠ source) (notTarget : other ≠ target) :
    lanes.promote due source target other = lanes other := by
  simp [promote, notSource, notTarget]

theorem promote_eq_self (none : (lanes source).takeWhile due = []) :
    lanes.promote due source target = lanes := by
  have whole : (lanes source).dropWhile due = lanes source := by
    have parts := List.takeWhile_append_dropWhile (p := due) (l := lanes source)
    rwa [none, List.nil_append] at parts
  rw [promote, none, whole, List.nil_append, Function.update_eq_self, Function.update_eq_self]

theorem mem_push {other : ι} {a : α} :
    a ∈ lanes.push level item other ↔ a ∈ lanes other ∨ (other = level ∧ a = item) := by
  by_cases same : other = level
  · subst same; simp
  · simp [push_of_ne same, same]

theorem push_ne_nil {other : ι} : lanes.push level item other ≠ [] ↔ lanes other ≠ [] ∨ other = level := by
  by_cases same : other = level
  · subst same; simp
  · simp [push_of_ne same, same]

theorem mem_dropHead {other : ι} {a : α} (member : a ∈ lanes.dropHead level other) :
    a ∈ lanes other := by
  by_cases same : other = level
  · subst same
    exact List.mem_of_mem_tail (by simpa using member)
  · rwa [dropHead_of_ne same] at member

theorem mem_dropHead_of_ne {rest : List α} (head : lanes level = item :: rest) {other : ι}
    (different : x ≠ item) (member : x ∈ lanes other) : x ∈ lanes.dropHead level other := by
  by_cases same : other = level
  · subst same
    rw [head] at member
    rw [dropHead_self, head]
    exact (List.mem_cons.mp member).resolve_left different
  · rwa [dropHead_of_ne same]

theorem separate_push (separate : lanes.Separate) (fresh : ¬ lanes.Queued item) :
    (lanes.push level item).Separate := by
  constructor
  · intro other
    by_cases same : other = level
    · subst same
      rw [push_self]
      refine List.nodup_append.mpr ⟨separate.nodup _, List.nodup_singleton _, ?_⟩
      rintro a member b single rfl
      exact fresh ⟨_, List.mem_singleton.mp single ▸ member⟩
    · rw [push_of_ne same]; exact separate.nodup _
  · intro left right different a first second
    rcases mem_push.mp first with inLeft | ⟨atLeft, same⟩
    · rcases mem_push.mp second with inRight | ⟨_, same⟩
      · exact separate.disjoint different inLeft inRight
      · exact fresh ⟨_, same ▸ inLeft⟩
    · rcases mem_push.mp second with inRight | ⟨atRight, _⟩
      · exact fresh ⟨_, same ▸ inRight⟩
      · exact different (atLeft.trans atRight.symm)

theorem separate_dropHead (separate : lanes.Separate) : (lanes.dropHead level).Separate := by
  constructor
  · intro other
    by_cases same : other = level
    · subst same
      rw [dropHead_self]
      exact (separate.nodup _).sublist (List.tail_sublist _)
    · rw [dropHead_of_ne same]; exact separate.nodup _
  · intro left right different a first second
    exact separate.disjoint different (mem_dropHead first) (mem_dropHead second)

theorem ne_of_mem_dropHead {rest : List α} (separate : lanes.Separate)
    (head : lanes level = item :: rest) {other : ι} (member : x ∈ lanes.dropHead level other) :
    x ≠ item := by
  rintro rfl
  by_cases here : other = level
  · subst here
    have nodup := separate.nodup other
    rw [dropHead_self, head] at member
    rw [head] at nodup
    exact (List.nodup_cons.mp nodup).1 member
  · exact separate.disjoint here (mem_dropHead member) (by simp [head])

/-- Where an item stands after a promotion. -/
theorem mem_promote {other : ι} {a : α} (different : source ≠ target) :
    a ∈ lanes.promote due source target other ↔
      (a ∈ lanes other ∧ (other = source → a ∈ (lanes source).dropWhile due)) ∨
        (other = target ∧ a ∈ (lanes source).takeWhile due) := by
  by_cases atTarget : other = target
  · subst atTarget
    simp [different.symm, or_comm]
  · by_cases atSource : other = source
    · subst atSource
      rw [promote_source different]
      constructor
      · intro member
        exact .inl ⟨(List.dropWhile_suffix due).subset member, fun _ => member⟩
      · rintro (⟨_, kept⟩ | ⟨same, _⟩)
        · exact kept rfl
        · exact absurd same atTarget
    · simp [promote_of_ne atSource atTarget, atSource, atTarget]

theorem mem_promote_of_moved (different : source ≠ target)
    (moved : x ∈ (lanes source).takeWhile due) : x ∈ lanes.promote due source target target :=
  (mem_promote different).mpr (.inr ⟨rfl, moved⟩)

/-- An item stays where it is, unless it is in the prefix of its own lane that moves. -/
theorem mem_promote_of_stays (different : source ≠ target) (member : x ∈ lanes level)
    (stays : level = source → x ∉ (lanes source).takeWhile due) :
    x ∈ lanes.promote due source target level := by
  refine (mem_promote different).mpr (.inl ⟨member, fun same => ?_⟩)
  rw [same, ← List.takeWhile_append_dropWhile (p := due) (l := lanes source)] at member
  exact (List.mem_append.mp member).resolve_left (stays same)

theorem mem_promote_of_kept (different : source ≠ target) (member : x ∈ lanes level)
    (kept : x ∉ (lanes source).takeWhile due) : x ∈ lanes.promote due source target level :=
  mem_promote_of_stays different member fun _ => kept

theorem separate_promote (separate : lanes.Separate) (different : source ≠ target) :
    (lanes.promote due source target).Separate := by
  have parts : ((lanes source).takeWhile due ++ (lanes source).dropWhile due).Nodup := by
    rw [List.takeWhile_append_dropWhile]
    exact separate.nodup source
  have apart : List.Disjoint ((lanes source).takeWhile due) ((lanes source).dropWhile due) :=
    List.disjoint_of_nodup_append parts
  have moved : ∀ {a}, a ∈ (lanes source).takeWhile due → a ∈ lanes source :=
    fun member => (List.takeWhile_prefix due).subset member
  constructor
  · intro other
    by_cases atTarget : other = target
    · subst atTarget
      rw [promote_target]
      refine List.nodup_append.mpr
        ⟨(separate.nodup source).sublist (List.takeWhile_sublist _), separate.nodup _, ?_⟩
      rintro a first b second rfl
      exact separate.disjoint different (moved first) second
    · by_cases atSource : other = source
      · subst atSource
        rw [promote_source different]
        exact (separate.nodup _).sublist (List.dropWhile_sublist _)
      · rw [promote_of_ne atSource atTarget]; exact separate.nodup _
  · intro left right apartLevels a first second
    rcases (mem_promote different).mp first with ⟨inLeft, keptLeft⟩ | ⟨atLeft, liftedLeft⟩
    · rcases (mem_promote different).mp second with ⟨inRight, _⟩ | ⟨_, liftedRight⟩
      · exact separate.disjoint apartLevels inLeft inRight
      · by_cases atSource : left = source
        · exact apart liftedRight (keptLeft atSource)
        · exact separate.disjoint atSource inLeft (moved liftedRight)
    · rcases (mem_promote different).mp second with ⟨inRight, keptRight⟩ | ⟨atRight, _⟩
      · by_cases atSource : right = source
        · exact apart liftedLeft (keptRight atSource)
        · exact separate.disjoint atSource inRight (moved liftedLeft)
      · exact apartLevels (atLeft.trans atRight.symm)

end Operations

section Contents

variable [Fintype ι]

/-- Everything queued, at any level. -/
def contents (lanes : Lanes ι α) : Multiset α := ∑ level, (lanes level : Multiset α)

@[simp] theorem contents_empty : (empty : Lanes ι α).contents = 0 := by
  simp [contents, empty]

theorem mem_contents : item ∈ lanes.contents ↔ lanes.Queued item := by
  simp [contents, Queued, Multiset.mem_sum]

theorem card_contents : lanes.contents.card = ∑ level, (lanes level).length := by
  simp [contents]

theorem contents_eq_zero : lanes.contents = 0 ↔ ∀ level, lanes level = [] := by
  simp [contents]

variable [DecidableEq ι]

theorem contents_push : (lanes.push level item).contents = item ::ₘ lanes.contents := by
  rw [contents, contents, push, sum_update (fun lane : List α => (lane : Multiset α)),
    sum_split (fun lane : List α => (lane : Multiset α)) lanes level]
  rw [← Multiset.coe_add, Multiset.coe_singleton, add_comm (lanes level : Multiset α), add_assoc,
    Multiset.singleton_add]

theorem contents_dropHead {rest : List α} (head : lanes level = item :: rest) :
    lanes.contents = item ::ₘ (lanes.dropHead level).contents := by
  rw [contents, contents, dropHead, sum_update (fun lane : List α => (lane : Multiset α)),
    sum_split (fun lane : List α => (lane : Multiset α)) lanes level, head, ← Multiset.cons_coe,
    Multiset.cons_add, List.tail_cons]

theorem contents_promote (different : source ≠ target) :
    (lanes.promote due source target).contents = lanes.contents := by
  have kept : Function.update lanes source ((lanes source).dropWhile due) target = lanes target := by
    simp [different.symm]
  have parts : (((lanes source).takeWhile due : List α) : Multiset α) +
      ((lanes source).dropWhile due : List α) = (lanes source : Multiset α) := by
    rw [Multiset.coe_add, List.takeWhile_append_dropWhile]
  have inner := sum_split (fun lane : List α => (lane : Multiset α))
    (Function.update lanes source ((lanes source).dropWhile due)) target
  rw [sum_update (fun lane : List α => (lane : Multiset α)), kept] at inner
  rw [contents, contents, promote, sum_update (fun lane : List α => (lane : Multiset α)),
    ← Multiset.coe_add, add_assoc, ← inner, ← add_assoc, parts,
    sum_split (fun lane : List α => (lane : Multiset α)) lanes source]

end Contents

section Order

variable [LinearOrder ι]

/-- Nothing stands ahead of the item that is served next. -/
theorem not_ahead_of_top {rest : List α} (separate : lanes.Separate) (top : lanes.Top level)
    (head : lanes level = item :: rest) : ¬ lanes.Ahead x item := by
  have here : item ∈ lanes level := by simp [head]
  rintro (⟨high, low, order, first, second⟩ | ⟨lane, both⟩)
  · have same := separate.level_unique second here
    subst same
    rw [top.2 high order] at first
    exact absurd first (by simp)
  · have same := separate.level_unique (both.subset (by simp)) here
    subst same
    have nodup := separate.nodup lane
    rw [head] at both nodup
    rcases List.sublist_cons_iff.mp both with both | ⟨tail, split, tailIn⟩
    · exact (List.nodup_cons.mp nodup).1 (both.subset (by simp))
    · have member : item ∈ tail := by
        rw [← (List.cons.inj split).2]
        simp
      exact (List.nodup_cons.mp nodup).1 (tailIn.subset member)

variable [DecidableEq ι]

theorem ahead_push (ahead : lanes.Ahead x y) : (lanes.push level item).Ahead x y := by
  rcases ahead with ⟨high, low, order, first, second⟩ | ⟨lane, both⟩
  · exact .inl ⟨high, low, order, mem_push.mpr (.inl first), mem_push.mpr (.inl second)⟩
  · refine .inr ⟨lane, ?_⟩
    by_cases same : lane = level
    · subst same
      rw [push_self]
      exact both.trans (List.sublist_append_left _ _)
    · rwa [push_of_ne same]

/-- A new item stands behind everything queued at its level or above. -/
theorem ahead_of_push {other : ι} (above : level ≤ other) (member : x ∈ lanes other) :
    (lanes.push level item).Ahead x item := by
  rcases above.lt_or_eq with strict | rfl
  · exact .inl ⟨other, level, strict, mem_push.mpr (.inl member), mem_push.mpr (.inr ⟨rfl, rfl⟩)⟩
  · refine .inr ⟨level, ?_⟩
    rw [push_self]
    exact (List.singleton_sublist.mpr member).append (List.Sublist.refl [item])

theorem ahead_dropHead {rest : List α} (head : lanes level = item :: rest)
    (notFirst : x ≠ item) (notSecond : y ≠ item) (ahead : lanes.Ahead x y) :
    (lanes.dropHead level).Ahead x y := by
  rcases ahead with ⟨high, low, order, first, second⟩ | ⟨lane, both⟩
  · exact .inl ⟨high, low, order, mem_dropHead_of_ne head notFirst first,
      mem_dropHead_of_ne head notSecond second⟩
  · refine .inr ⟨lane, ?_⟩
    by_cases same : lane = level
    · subst same
      rw [head] at both
      rw [dropHead_self, head]
      exact (List.sublist_cons_iff.mp both).resolve_right (by
        rintro ⟨tail, same, _⟩
        exact notFirst (List.cons.inj same).1)
    · rwa [dropHead_of_ne same]

/-- Promotion never moves an item down. -/
theorem mem_promote_rises (upward : source < target) (member : x ∈ lanes level) :
    ∃ other, level ≤ other ∧ x ∈ lanes.promote due source target other := by
  by_cases moved : level = source ∧ x ∈ (lanes source).takeWhile due
  · obtain ⟨rfl, inFront⟩ := moved
    exact ⟨target, upward.le, mem_promote_of_moved upward.ne inFront⟩
  · refine ⟨level, le_rfl, mem_promote_of_stays upward.ne member fun same inFront => ?_⟩
    exact moved ⟨same, inFront⟩

theorem pair_sublist_takeWhile {lane : List α} (nodup : lane.Nodup)
    (both : [x, y].Sublist lane) (second : y ∈ lane.takeWhile due) :
    [x, y].Sublist (lane.takeWhile due) := by
  have split := List.takeWhile_append_dropWhile (p := due) (l := lane)
  rw [← split] at both nodup
  obtain ⟨front, back, parts, inFront, inBack⟩ := List.sublist_append_iff.mp both
  have notBack : y ∉ back := fun member =>
    List.disjoint_of_nodup_append nodup second (inBack.subset member)
  have backEmpty : back = [] := by
    rcases List.eq_nil_or_concat back with empty | ⟨init, last, rfl⟩
    · exact empty
    · have same : y = last := by
        have ends := congrArg List.getLast? parts
        simpa [← List.append_assoc] using ends
      exact absurd (by simp [same]) notBack
  rw [backEmpty, List.append_nil] at parts
  rwa [parts]

/-- An item is in the promoted front if everything up to it is due. -/
theorem mem_takeWhile_of_ahead {lane : List α} (member : y ∈ lane) (isDue : due y = true)
    (ahead : ∀ x, [x, y].Sublist lane → due x = true) : y ∈ lane.takeWhile due := by
  induction lane with
  | nil => cases member
  | cons first rest ih =>
      have firstDue : due first = true := by
        rcases List.mem_cons.mp member with rfl | later
        · exact isDue
        · exact ahead first ((List.singleton_sublist.mpr later).cons_cons first)
      rw [List.takeWhile_cons_of_pos firstDue]
      rcases List.mem_cons.mp member with rfl | later
      · exact List.mem_cons_self
      · exact List.mem_cons_of_mem _ (ih later fun x both => ahead x (both.cons first))

theorem pair_sublist_dropWhile {lane : List α} (both : [x, y].Sublist lane)
    (kept : x ∉ lane.takeWhile due) : [x, y].Sublist (lane.dropWhile due) := by
  rw [← List.takeWhile_append_dropWhile (p := due) (l := lane)] at both
  obtain ⟨front, back, parts, inFront, inBack⟩ := List.sublist_append_iff.mp both
  cases front with
  | nil =>
      rw [List.nil_append] at parts
      rwa [parts]
  | cons head tail =>
      have same : x = head := (List.cons.inj parts).1
      exact absurd (inFront.subset (by simp [same])) kept

/-- Promotion of two items from different lanes. -/
theorem ahead_promote_across {high low : ι} (separate : lanes.Separate) (next : source ⋖ target)
    (order : low < high) (first : x ∈ lanes high) (second : y ∈ lanes low)
    (noSplice : ¬ (y ∈ (lanes source).takeWhile due ∧ x ∈ lanes target)) :
    (lanes.promote due source target).Ahead x y := by
  have different : source ≠ target := next.lt.ne
  by_cases secondMoved : y ∈ (lanes source).takeWhile due
  · have lowSource := separate.level_of_moved second secondMoved
    subst lowSource
    have firstKept : x ∉ (lanes low).takeWhile due := fun moved =>
      order.ne' (separate.level_of_moved first moved)
    have beyond : target ≠ high := by
      rintro rfl
      exact noSplice ⟨secondMoved, first⟩
    have above : target < high := lt_of_le_of_ne (not_lt.mp (next.2 order)) beyond
    exact .inl ⟨high, target, above, mem_promote_of_kept different first firstKept,
      mem_promote_of_moved different secondMoved⟩
  · have secondStays := mem_promote_of_kept different second secondMoved
    by_cases firstMoved : x ∈ (lanes source).takeWhile due
    · have highSource := separate.level_of_moved first firstMoved
      subst highSource
      exact .inl ⟨target, low, order.trans next.lt, mem_promote_of_moved different firstMoved,
        secondStays⟩
    · exact .inl ⟨high, low, order, mem_promote_of_kept different first firstMoved, secondStays⟩

/-- Promotion of two items from one lane keeps their order. -/
theorem ahead_promote_within {lane : ι} (separate : lanes.Separate) (upward : source < target)
    (both : [x, y].Sublist (lanes lane)) : (lanes.promote due source target).Ahead x y := by
  have first : x ∈ lanes lane := both.subset (by simp)
  have second : y ∈ lanes lane := both.subset (by simp)
  by_cases secondMoved : y ∈ (lanes source).takeWhile due
  · have laneSource := separate.level_of_moved second secondMoved
    subst laneSource
    refine .inr ⟨target, ?_⟩
    rw [promote_target]
    exact (pair_sublist_takeWhile (separate.nodup _) both secondMoved).trans
      (List.sublist_append_left _ _)
  · by_cases firstMoved : x ∈ (lanes source).takeWhile due
    · have laneSource := separate.level_of_moved first firstMoved
      subst laneSource
      exact .inl ⟨target, lane, upward, mem_promote_of_moved upward.ne firstMoved,
        mem_promote_of_kept upward.ne second secondMoved⟩
    · refine .inr ⟨lane, ?_⟩
      by_cases laneSource : lane = source
      · subst laneSource
        rw [promote_source upward.ne]
        exact pair_sublist_dropWhile both firstMoved
      · by_cases laneTarget : lane = target
        · subst laneTarget
          rw [promote_target]
          exact both.trans (List.sublist_append_right _ _)
        · rwa [promote_of_ne laneSource laneTarget]

/-- Promotion keeps the service order of `x` before `y`, unless it lifts `y`
into the very lane in which `x` is waiting. -/
theorem ahead_promote (separate : lanes.Separate) (next : source ⋖ target)
    (ahead : lanes.Ahead x y)
    (noSplice : ¬ (y ∈ (lanes source).takeWhile due ∧ x ∈ lanes target)) :
    (lanes.promote due source target).Ahead x y := by
  rcases ahead with ⟨high, low, order, first, second⟩ | ⟨lane, both⟩
  · exact ahead_promote_across separate next order first second noSplice
  · exact ahead_promote_within separate next.lt both

end Order

end Lanes

end ThreadPool.Foundation
