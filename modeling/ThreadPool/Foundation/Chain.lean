import Mathlib.Data.List.Nodup
import Mathlib.Logic.Function.Basic

namespace ThreadPool.Foundation

/-! # Linked chains

A memory is seen through its link map: `link a = none` when `a` holds no
record, and `link a = some target` when the record at `a` points to `target`.
`Segment` follows the links and fixes the exact path, so the shape of a linked
structure is stated by plain lists and every update is a list equation.
-/

variable {α : Type*}

/-- Following `link` from `start` visits exactly `path` and arrives at `stop`. -/
def Segment (link : α → Option (Option α)) : Option α → List α → Option α → Prop
  | start, [], stop => start = stop
  | start, node :: rest, stop =>
      start = some node ∧ ∃ target, link node = some target ∧ Segment link target rest stop

/-- A segment that ends at the null link. -/
def Chain (link : α → Option (Option α)) (start : Option α) (path : List α) : Prop :=
  Segment link start path none

variable {link other : α → Option (Option α)} {start middle stop : Option α} {path rest : List α}
  {node : α}

theorem segment_append :
    Segment link start (path ++ rest) stop ↔
      ∃ middle, Segment link start path middle ∧ Segment link middle rest stop := by
  induction path generalizing start with
  | nil => simp [Segment]
  | cons head tail ih =>
      simp only [List.cons_append, Segment, ih]
      constructor
      · rintro ⟨same, target, found, middle, first, second⟩
        exact ⟨middle, ⟨same, target, found, first⟩, second⟩
      · rintro ⟨middle, ⟨same, target, found, first⟩, second⟩
        exact ⟨same, target, found, middle, first, second⟩

theorem segment_congr (agree : ∀ a ∈ path, other a = link a)
    (segment : Segment link start path stop) : Segment other start path stop := by
  induction path generalizing start with
  | nil => exact segment
  | cons head tail ih =>
      obtain ⟨same, target, found, remaining⟩ := segment
      exact ⟨same, target, (agree head (by simp)).trans found,
        ih (fun a member => agree a (by simp [member])) remaining⟩

/-- The last node of a segment carries the link to its end. -/
theorem Segment.link_last (segment : Segment link start (path ++ [node]) stop) :
    link node = some stop := by
  obtain ⟨middle, _, _, target, found, reached⟩ := segment_append.mp segment
  rw [found, ← reached]

/-- The end of a segment moves when the link of its last node is overwritten. -/
theorem Segment.relink_last [DecidableEq α] {target : Option α}
    (segment : Segment link start (path ++ [node]) stop) (fresh : node ∉ path) :
    Segment (Function.update link node (some target)) start (path ++ [node]) target := by
  obtain ⟨middle, before, same, _⟩ := segment_append.mp segment
  refine segment_append.mpr ⟨middle, ?_, same, target, Function.update_self .., rfl⟩
  refine segment_congr (fun a member => Function.update_of_ne ?_ ..) before
  rintro rfl
  exact fresh member

/-- Linking a fresh node behind the last one appends it to the chain. -/
theorem Chain.append_node [DecidableEq α] {last : α} (chain : Chain link start (path ++ [last]))
    (fresh : node ∉ path ++ [last]) (single : last ∉ path) :
    Chain (Function.update (Function.update link node (some none)) last (some (some node)))
      start (path ++ [last] ++ [node]) := by
  have different : node ≠ last := fun same => fresh (by simp [same])
  have kept : Segment (Function.update link node (some none)) start (path ++ [last]) none := by
    refine segment_congr (fun a member => Function.update_of_ne (fun same => ?_) ..) chain
    exact fresh (same ▸ member)
  refine segment_append.mpr ⟨some node, kept.relink_last single, rfl, none, ?_, rfl⟩
  rw [Function.update_of_ne different, Function.update_self]

theorem Chain.start_eq (chain : Chain link start path) : start = path.head? := by
  cases path with
  | nil => exact chain
  | cons head tail => exact chain.1

theorem Chain.tail (chain : Chain link start (node :: rest)) :
    ∃ target, link node = some target ∧ Chain link target rest :=
  chain.2

theorem Chain.unique {first second : List α}
    (left : Chain link start first) (right : Chain link start second) : first = second := by
  induction first generalizing start second with
  | nil =>
      cases second with
      | nil => rfl
      | cons head tail => exact absurd (left.symm.trans right.1) (by simp)
  | cons head tail ih =>
      cases second with
      | nil => exact absurd (right.symm.trans left.1) (by simp)
      | cons head' tail' =>
          obtain ⟨same, target, found, remaining⟩ := left
          obtain ⟨same', target', found', remaining'⟩ := right
          have heads : head = head' := Option.some.inj (same.symm.trans same')
          subst heads
          have targets : target = target' := Option.some.inj (found.symm.trans found')
          subst targets
          rw [ih remaining remaining']

/-- A chain that reaches the null link never visits a node twice. -/
theorem Chain.nodup (chain : Chain link start path) : path.Nodup := by
  induction path generalizing start with
  | nil => exact List.nodup_nil
  | cons head tail ih =>
      obtain ⟨target, found, remaining⟩ := chain.tail
      refine List.nodup_cons.mpr ⟨?_, ih remaining⟩
      intro member
      obtain ⟨before, after, split⟩ := List.append_of_mem member
      obtain ⟨middle, _, again⟩ := segment_append.mp (split ▸ remaining)
      have again : Chain link (some head) (head :: after) := ⟨rfl, again.2⟩
      have whole : Chain link (some head) (head :: tail) := ⟨rfl, target, found, remaining⟩
      have lengths := congrArg List.length (Chain.unique whole again)
      rw [split] at lengths
      simp at lengths
      omega

/-- The nodes met by following at most `fuel` links. -/
def walk (link : α → Option (Option α)) : Nat → Option α → List α
  | 0, _ => []
  | _ + 1, none => []
  | fuel + 1, some node => node :: walk link fuel ((link node).getD none)

theorem walk_eq_of_chain {fuel : Nat} (chain : Chain link start path) (enough : path.length ≤ fuel) :
    walk link fuel start = path := by
  induction path generalizing start fuel with
  | nil =>
      have empty : start = none := chain
      subst empty
      cases fuel <;> rfl
  | cons head tail ih =>
      obtain ⟨same, target, found, remaining⟩ := chain
      subst same
      cases fuel with
      | zero => simp at enough
      | succ fuel =>
          simp only [walk, found, Option.getD_some]
          rw [ih remaining (by simpa using enough)]

end ThreadPool.Foundation
