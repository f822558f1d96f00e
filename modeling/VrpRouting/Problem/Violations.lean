import VrpRouting.Problem.Schedule

/-! # Violations

The totals that `twv_tot` and `cv_tot` carry along a path count the stops with a violation
(`twvTot_eq_countP`, `cvTot_eq_countP`), so a vehicle of which the user gave no violations is feasible
exactly when no stop of its path has one (`isFeasible_iff`). -/

namespace VrpRouting

/-- No stop is late or has a bad load. -/
def NoViolation (cap : ℕ) (path : List VehicleNode) : Prop :=
  ∀ s ∈ path, s.hasTwv = false ∧ s.hasCv cap = false

instance (cap : ℕ) (path : List VehicleNode) : Decidable (NoViolation cap path) := by
  unfold NoViolation
  infer_instance

section Count
variable (M : Matrix) (cap : ℕ) (speed : ℚ)

theorem hasTwv_evaluate (n pred : VehicleNode) : (n.evaluate M pred cap speed).twvTot =
    pred.twvTot + if (n.evaluate M pred cap speed).hasTwv then 1 else 0 := by
  have h : (n.evaluate M pred cap speed).twvTot =
      if (n.evaluate M pred cap speed).hasTwv then pred.twvTot + 1 else pred.twvTot := rfl
  rw [h]
  split_ifs <;> rfl

theorem hasCv_evaluate (n pred : VehicleNode) : (n.evaluate M pred cap speed).cvTot =
    pred.cvTot + if (n.evaluate M pred cap speed).hasCv cap then 1 else 0 := by
  have h : (n.evaluate M pred cap speed).cvTot =
      if (n.evaluate M pred cap speed).hasCv cap then pred.cvTot + 1 else pred.cvTot := rfl
  rw [h]
  split_ifs <;> rfl

variable {M cap speed}

/-- A total that grows by one at the stops with a property counts them. -/
theorem counted_getLastD {tot : VehicleNode → ℕ} {p : VehicleNode → Bool}
    (h : ∀ n pred : VehicleNode, tot (n.evaluate M pred cap speed) =
      tot pred + if p (n.evaluate M pred cap speed) then 1 else 0) :
    ∀ (ns : List VehicleNode) (pred : VehicleNode),
      tot ((evaluateAfter M cap speed pred ns).getLastD pred) =
        tot pred + (evaluateAfter M cap speed pred ns).countP p
  | [], _ => rfl
  | n :: ns, pred => by
    rw [evaluateAfter, List.getLastD_cons, counted_getLastD h ns, h, List.countP_cons]
    omega

theorem Settled.counted {tot : VehicleNode → ℕ} {p : VehicleNode → Bool}
    (h : ∀ n pred : VehicleNode, tot (n.evaluate M pred cap speed) =
      tot pred + if p (n.evaluate M pred cap speed) then 1 else 0) {n : VehicleNode}
    {ns : List VehicleNode} (hs : Settled M cap speed 0 (n :: ns)) :
    n.evaluateStart cap = n ∧ tot ((n :: ns).getLastD default) = tot n + ns.countP p := by
  obtain ⟨hn, hns⟩ := List.cons.inj hs
  rw [hn] at hns
  have hcount := counted_getLastD h ns n
  rw [hns] at hcount
  exact ⟨hn, by rw [List.getLastD_cons, hcount]⟩

end Count

section Vehicle
variable {M : Matrix} {v : Vehicle} (hs : Settled M v.capacity v.speed 0 v.path)
include hs

/-- Lateness at the first stop is not counted. -/
theorem twvTot_eq_countP_tail : v.twvTot = v.path.tail.countP VehicleNode.hasTwv := by
  unfold Vehicle.twvTot Vehicle.back
  generalize v.path = path at hs
  cases path with
  | nil => rfl
  | cons n ns =>
    obtain ⟨hn, hcount⟩ := hs.counted (hasTwv_evaluate M v.capacity v.speed)
    have hzero : n.twvTot = 0 := by
      rw [← hn]
      rfl
    rw [hcount, hzero, List.tail_cons, zero_add]

/-- The first stop is never late in an evaluated path: it is left at its opening time. -/
theorem twvTot_eq_countP (hopen : v.front.opens ≤ v.front.closes) :
    v.twvTot = v.path.countP VehicleNode.hasTwv := by
  rw [twvTot_eq_countP_tail hs]
  unfold Settled at hs
  unfold Vehicle.front Vehicle.stop at hopen
  generalize v.path = path at hs hopen
  cases path with
  | nil => rfl
  | cons n ns =>
    have hopen : n.opens ≤ n.closes := hopen
    have hstart : n.hasTwv = false := by
      rw [← (List.cons.inj hs).1]
      exact decide_eq_false (not_lt.mpr hopen)
    rw [List.tail_cons, List.countP_cons, hstart]
    rfl

theorem cvTot_eq_countP : v.cvTot = v.path.countP (VehicleNode.hasCv · v.capacity) := by
  unfold Vehicle.cvTot Vehicle.back
  generalize v.path = path at hs
  cases path with
  | nil => rfl
  | cons n ns =>
    obtain ⟨hn, hcount⟩ := hs.counted (p := (VehicleNode.hasCv · v.capacity))
      (hasCv_evaluate M v.capacity v.speed)
    have hcv : n.cvTot = if n.hasCv v.capacity then 1 else 0 := by
      rw [← hn]
      rfl
    rw [hcount, hcv, List.countP_cons, Nat.add_comm]

/-- **A vehicle is feasible when no stop has a violation**, if the user gave none. -/
theorem isFeasible_iff (hopen : v.front.opens ≤ v.front.closes) (htwv : v.userTwv = 0)
    (hcv : v.userCv = 0) : v.isFeasible = true ↔ NoViolation v.capacity v.path := by
  unfold Vehicle.isFeasible Vehicle.hasTwv Vehicle.hasCv NoViolation
  rw [htwv, hcv, twvTot_eq_countP hs hopen, cvTot_eq_countP hs]
  simp only [Bool.not_eq_true', Bool.or_eq_false_iff, decide_eq_false_iff_not, gt_iff_lt, not_lt,
    Nat.le_zero, List.countP_eq_zero, Bool.not_eq_true, forall_and]

end Vehicle

end VrpRouting
