import Mathlib.Data.Prod.Lex
import VrpRouting.Problem.Solution

/-! # The comparison of solutions

`operator<` compares the first five components of `cost()` one after the other; the travel time is
not compared. -/

namespace VrpRouting

/-- The tuple that `cost()` returns. -/
structure Cost where
  twvTot : ℕ
  cvTot : ℕ
  fleetSize : ℕ
  waitTime : ℤ
  duration : ℤ
  travelTime : ℤ
deriving DecidableEq

namespace Solution

variable (s sRhs : Solution)

/-- `cost()`: one pass over the fleet. -/
def cost : Cost :=
  s.fleet.foldl (fun c v =>
    { c with
      duration := c.duration + v.duration
      waitTime := c.waitTime + v.totalWaitTime
      twvTot := c.twvTot + v.twvTot
      cvTot := c.cvTot + v.cvTot
      travelTime := c.travelTime + v.totalTravelTime })
    ⟨0, 0, s.fleet.length, 0, 0, 0⟩

/-- `operator<`. -/
def lt : Bool :=
  let lhs := s.cost
  let rhs := sRhs.cost
  if lhs.twvTot < rhs.twvTot then true
  else if lhs.twvTot > rhs.twvTot then false
  else if lhs.cvTot < rhs.cvTot then true
  else if lhs.cvTot > rhs.cvTot then false
  else if lhs.fleetSize < rhs.fleetSize then true
  else if lhs.fleetSize > rhs.fleetSize then false
  else if lhs.waitTime < rhs.waitTime then true
  else if lhs.waitTime > rhs.waitTime then false
  else if lhs.duration < rhs.duration then true
  else if lhs.duration > rhs.duration then false
  else false

theorem cost_eq : s.cost =
    ⟨s.twvTot, s.cvTot, s.fleet.length, s.waitTime, s.duration, s.totalTravelTime⟩ := by
  have hfold : ∀ (fleet : List Vehicle) (c : Cost), fleet.foldl (fun c v =>
      { c with
        duration := c.duration + v.duration
        waitTime := c.waitTime + v.totalWaitTime
        twvTot := c.twvTot + v.twvTot
        cvTot := c.cvTot + v.cvTot
        travelTime := c.travelTime + v.totalTravelTime }) c =
      ⟨c.twvTot + (fleet.map Vehicle.twvTot).sum, c.cvTot + (fleet.map Vehicle.cvTot).sum,
        c.fleetSize, c.waitTime + (fleet.map Vehicle.totalWaitTime).sum,
        c.duration + (fleet.map Vehicle.duration).sum,
        c.travelTime + (fleet.map Vehicle.totalTravelTime).sum⟩ := by
    intro fleet
    induction fleet with
    | nil =>
      intro c
      simp
    | cons v fleet ih =>
      intro c
      rw [List.foldl_cons, ih]
      simp [add_assoc]
  unfold cost
  rw [hfold]
  simp [twvTot, cvTot, waitTime, duration, totalTravelTime]

/-- Violations of the time windows, of the capacity, vehicles, wait and duration, in lexicographic
order. -/
def costKey : ℕ ×ₗ ℕ ×ₗ ℕ ×ₗ ℤ ×ₗ ℤ :=
  toLex (s.twvTot, toLex (s.cvTot, toLex (s.fleet.length, toLex (s.waitTime, s.duration))))

/-- One component of a comparison that goes on only when the components are equal. -/
theorem ite_lex {α : Type} [LinearOrder α] (a b : α) (rest : Bool) :
    (if a < b then true else if a > b then false else rest) = true ↔ a < b ∨ a = b ∧ rest = true := by
  rcases lt_trichotomy a b with h | rfl | h
  · simp [h]
  · simp
  · simp [h, h.not_gt, h.ne']

/-- **`operator<` is the lexicographic order** of violations, vehicles, wait and duration. -/
theorem lt_iff : s.lt sRhs = true ↔ s.costKey < sRhs.costKey := by
  unfold lt costKey
  simp only [cost_eq, Prod.Lex.toLex_lt_toLex, ite_lex, Bool.false_eq_true, and_false, or_false]

/-- A solution that is not behind one without violations has none and no more vehicles. -/
theorem of_costKey_le {s s' : Solution} (h : s.costKey ≤ s'.costKey) (ht : s'.twvTot = 0)
    (hc : s'.cvTot = 0) : s.twvTot = 0 ∧ s.cvTot = 0 ∧ s.fleet.length ≤ s'.fleet.length := by
  unfold costKey at h
  rw [ht, hc] at h
  simp only [Prod.Lex.toLex_le_toLex] at h
  omega

end Solution

end VrpRouting
