import Mathlib.Algebra.Order.BigOperators.Group.Finset
import ThreadPool.Foundation.Launch

namespace ThreadPool.Foundation

/-! # Counting rounds

Threads count their rounds in a common counter. The thread that finds the counter above a
limit closes the game, and every thread stops at the end of its round once it is closed.
Where a thread counts only while no other one is between its own count and the decision,
each thread counts at most once more than the limit.
-/

/-- Where a thread is in its round: it has not counted yet, it looks at the counter, it is
about to close the game, it leaves, and it looks whether the game is closed. -/
inductive Round where
  | working
  | checking
  | closing
  | leaving
  | testing
  | ended
deriving DecidableEq

/-- The counts that may still follow when the game is closed. -/
def Round.pending : Round → Nat
  | .working => 1
  | _ => 0

structure Rounds (κ : Type) where
  count : Int
  closed : Bool
  stage : κ → Round

namespace Rounds

variable {κ : Type} [DecidableEq κ] {limit : Int} {rounds after : Rounds κ}

def move (rounds : Rounds κ) (k : κ) (count : Int) (closed : Bool) (stage : Round) : Rounds κ :=
  ⟨count, closed, Function.update rounds.stage k stage⟩

theorem move_stage (rounds : Rounds κ) (k j : κ) (count : Int) (closed : Bool) (stage : Round) :
    (rounds.move k count closed stage).stage j = if j = k then stage else rounds.stage j :=
  Function.update_apply ..

/-- What the threads do; the decision counts only until the game is closed. -/
inductive Step (limit : Int) (rounds : Rounds κ) : Rounds κ → Prop
  | still : Step limit rounds rounds
  | count (k) : rounds.stage k = .working →
      (∀ j, rounds.stage j ≠ .checking ∧ rounds.stage j ≠ .closing) →
      Step limit rounds (rounds.move k (rounds.count + 1) rounds.closed .checking)
  | exceed (k) : rounds.stage k = .checking → (rounds.closed = false → limit < rounds.count) →
      Step limit rounds (rounds.move k rounds.count rounds.closed .closing)
  | stay (k) : rounds.stage k = .checking → (rounds.closed = false → rounds.count ≤ limit) →
      Step limit rounds (rounds.move k rounds.count rounds.closed .leaving)
  | close (k) : rounds.stage k = .closing → Step limit rounds (rounds.move k rounds.count true .leaving)
  | leave (k) : rounds.stage k = .leaving →
      Step limit rounds (rounds.move k rounds.count rounds.closed .testing)
  | stop (k) : rounds.stage k = .testing → rounds.closed = true →
      Step limit rounds (rounds.move k rounds.count rounds.closed .ended)
  | again (k) : rounds.stage k = .testing → rounds.closed = false →
      Step limit rounds (rounds.move k rounds.count rounds.closed .working)

structure Limited [Fintype κ] (limit : Int) (rounds : Rounds κ) : Prop where
  opened : rounds.closed = false → rounds.count ≤ limit ∨
    rounds.count = limit + 1 ∧ ∃ k, rounds.stage k = .checking ∨ rounds.stage k = .closing
  closed : rounds.closed = true → limit < rounds.count ∧
    rounds.count + (∑ k, (rounds.stage k).pending : Nat) ≤ limit + Fintype.card κ
  closing : ∀ k, rounds.stage k = .closing → limit < rounds.count
  ended : ∀ k, rounds.stage k = .ended → rounds.closed = true

variable [Fintype κ]

/-- The thread that closes the game has counted. -/
theorem pending_lt (stage : κ → Round) (k : κ) :
    ∑ j, (Function.update stage k .leaving j).pending < Fintype.card κ := by
  have few : others Round.pending stage k ≤ (Finset.univ.erase k).card := by
    refine (Finset.sum_le_card_nsmul _ _ 1 fun j _ => ?_).trans_eq (Nat.mul_one _)
    cases stage j <;> decide
  rw [sum_update]
  rw [Finset.card_erase_of_mem (Finset.mem_univ k), Finset.card_univ] at few
  have some : 0 < Fintype.card κ := Fintype.card_pos_iff.mpr ⟨k⟩
  simp only [Round.pending]
  omega

variable {k : κ} {stage : Round}

theorem pending_move (less : stage.pending ≤ (rounds.stage k).pending) :
    ∑ j, (Function.update rounds.stage k stage j).pending ≤ ∑ j, (rounds.stage j).pending := by
  rw [sum_update Round.pending, sum_split Round.pending rounds.stage k]
  exact Nat.add_le_add_right less _

/-- A step that neither counts nor closes the game. -/
theorem Limited.passes (limited : Limited limit rounds)
    (decides : rounds.closed = false → rounds.stage k = .checking →
      stage = .closing ∨ rounds.count ≤ limit)
    (before : rounds.stage k ≠ .closing) (closing : stage = .closing → limit < rounds.count)
    (ended : stage = .ended → rounds.closed = true)
    (pending : rounds.closed = true → stage.pending ≤ (rounds.stage k).pending) :
    Limited limit (rounds.move k rounds.count rounds.closed stage) where
  opened opened := by
    rcases limited.opened opened with few | ⟨last, j, witness⟩
    · exact .inl few
    · by_cases same : j = k
      · subst same
        rcases decides opened (witness.resolve_right before) with stays | few
        · exact .inr ⟨last, j, .inr ((Function.update_self ..).trans stays)⟩
        · exact .inl few
      · refine .inr ⟨last, j, ?_⟩
        rwa [move_stage, if_neg same]
  closed closed := by
    obtain ⟨above, few⟩ := limited.closed closed
    have less := pending_move (pending closed)
    refine ⟨above, ?_⟩
    simp only [move]
    omega
  closing j there := by
    rw [move_stage] at there
    split at there
    · exact closing there
    · exact limited.closing j there
  ended j there := by
    rw [move_stage] at there
    split at there
    · exact ended there
    · exact limited.ended j there

theorem Limited.counts (limited : Limited limit rounds) (working : rounds.stage k = .working)
    (alone : ∀ j, rounds.stage j ≠ .checking ∧ rounds.stage j ≠ .closing) :
    Limited limit (rounds.move k (rounds.count + 1) rounds.closed .checking) where
  opened opened := by
    rcases limited.opened opened with few | ⟨_, j, witness⟩
    · rcases few.lt_or_eq with less | equal
      · exact .inl less
      · exact .inr ⟨congrArg (· + 1) equal, k, .inl (Function.update_self ..)⟩
    · exact absurd witness (not_or.mpr (alone j))
  closed closed := by
    obtain ⟨above, few⟩ := limited.closed closed
    have before := sum_split Round.pending rounds.stage k
    have moved := sum_update Round.pending rounds.stage k .checking
    rw [working] at before
    change _ = 1 + _ at before
    change _ = 0 + _ at moved
    refine ⟨above.trans (Int.lt_succ _), ?_⟩
    simp only [move]
    omega
  closing j there := by
    rw [move_stage] at there
    split at there
    · cases there
    · exact absurd there (alone j).2
  ended j there := by
    rw [move_stage] at there
    split at there
    · cases there
    · exact limited.ended j there

theorem Limited.closes (limited : Limited limit rounds) (closing : rounds.stage k = .closing) :
    Limited limit (rounds.move k rounds.count true .leaving) where
  opened opened := by cases opened
  closed _ := by
    have above := limited.closing k closing
    refine ⟨above, ?_⟩
    cases closed : rounds.closed with
    | true =>
        have few := (limited.closed closed).2
        have none : Round.leaving.pending ≤ (rounds.stage k).pending := Nat.zero_le _
        have less := pending_move none
        simp only [move]
        omega
    | false =>
        have few := pending_lt rounds.stage k
        have last : rounds.count ≤ limit + 1 := by
          rcases limited.opened closed with few | ⟨last, _⟩ <;> omega
        simp only [move]
        omega
  closing _ _ := limited.closing k closing
  ended _ _ := rfl

theorem Step.limited (step : Step limit rounds after) (limited : Limited limit rounds) :
    Limited limit after := by
  cases step with
  | still => exact limited
  | count k working alone => exact limited.counts working alone
  | close k closing => exact limited.closes closing
  | exceed k checking above =>
      have passed : limit < rounds.count := by
        cases closed : rounds.closed with
        | true => exact (limited.closed closed).1
        | false => exact above closed
      exact limited.passes (fun _ _ => .inl rfl) (by simp [checking]) (fun _ => passed) (by simp)
        fun _ => Nat.zero_le _
  | stay k checking few =>
      exact limited.passes (fun opened _ => .inr (few opened)) (by simp [checking]) (by simp) (by simp)
        fun _ => Nat.zero_le _
  | leave k leaving =>
      exact limited.passes (by simp [leaving]) (by simp [leaving]) (by simp) (by simp)
        fun _ => Nat.zero_le _
  | stop k testing closed =>
      exact limited.passes (by simp [testing]) (by simp [testing]) (by simp) (fun _ => closed)
        fun _ => Nat.zero_le _
  | again k testing opened =>
      exact limited.passes (by simp [testing]) (by simp [testing]) (by simp) (by simp) (by simp [opened])

omit [DecidableEq κ] in
theorem Limited.bound [Nonempty κ] (limited : Limited limit rounds) :
    rounds.count ≤ limit + Fintype.card κ := by
  have some : 0 < Fintype.card κ := Fintype.card_pos
  cases closed : rounds.closed with
  | true =>
      have few := (limited.closed closed).2
      omega
  | false => rcases limited.opened closed with few | ⟨last, _⟩ <;> omega

end Rounds

/-! ## Routines that count -/

variable {N : Nat} {σ π : Type}

/-- The rounds of the routines, which have not begun while a thread is being created. -/
def LaunchView.rounds (view : LaunchView N σ π) (round : π → Round) (count : σ → Int) (closed : σ → Bool) :
    Rounds (Fin N) where
  count := count view.shared
  closed := closed view.shared
  stage k := (view.point k).elim .working round

section Views

variable {view : LaunchView N σ π} {round : π → Round} {count : σ → Int} {closed : σ → Bool} {k : Fin N}
  {shared : σ} {pc next : π}

theorem rounds_stage (here : view.point k = some pc) :
    (view.rounds round count closed).stage k = round pc := by
  simp [LaunchView.rounds, here]

theorem rounds_move : (view.move k shared next).rounds round count closed =
    (view.rounds round count closed).move k (count shared) (closed shared) (round next) := by
  unfold LaunchView.rounds Rounds.move
  congr 1
  funext j
  rw [move_point, Function.update_apply]
  split <;> rfl

theorem rounds_still (stage : (view.rounds round count closed).stage k = round next)
    (counts : count shared = count view.shared) (closes : closed shared = closed view.shared) :
    (view.move k shared next).rounds round count closed = view.rounds round count closed := by
  rw [rounds_move, Rounds.move, ← stage, Function.update_eq_self, counts, closes]
  rfl

end Views

end ThreadPool.Foundation
