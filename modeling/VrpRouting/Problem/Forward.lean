import Mathlib.Data.List.Chain
import VrpRouting.Problem.Cells
import VrpRouting.Problem.Schedule

/-! # Schedules that move forward

A stop is evaluated with sums of 64 bits and a quotient of doubles. When the travel times of the matrix are
not negative, the speed is positive and the numbers of the step fit (`StepFits`), no time of the stop
is negative and it is reached after the departure of its predecessor, whatever the predecessor is
(`evaluateBy_forward`). So the times increase along every evaluated path (`evaluatePathBy_forward`). -/

namespace VrpRouting

/-! ### Evaluation with any arithmetic -/

section EvaluateBy
variable (A : Arithmetic) (M : Matrix) (cap : ℕ) (speed : ℚ)

/-- Evaluation of the stops behind `pred`. -/
def evaluateAfterBy (pred : VehicleNode) : List VehicleNode → List VehicleNode
  | [] => []
  | n :: ns => n.evaluateBy M A pred cap speed :: evaluateAfterBy (n.evaluateBy M A pred cap speed) ns

/-- `evaluate(0)` on a path. -/
def evaluatePathBy : List VehicleNode → List VehicleNode
  | [] => []
  | n :: ns =>
    n.evaluateStartBy A cap :: evaluateAfterBy A M cap speed (n.evaluateStartBy A cap) ns

end EvaluateBy

section Exact
variable (M : Matrix) (cap : ℕ) (speed : ℚ)

theorem evaluateAfterBy_exact (pred : VehicleNode) (path : List VehicleNode) :
    evaluateAfterBy .exact M cap speed pred path = evaluateAfter M cap speed pred path := by
  induction path generalizing pred with
  | nil => rfl
  | cons n path ih =>
    rw [evaluateAfterBy, ih]
    rfl

/-- With exact numbers it is the evaluation of the routes. -/
theorem evaluatePathBy_exact (path : List VehicleNode) :
    evaluatePathBy .exact M cap speed path = evaluatePath M cap speed 0 path := by
  cases path with
  | nil => rfl
  | cons n path =>
    rw [evaluatePathBy, evaluateAfterBy_exact]
    rfl

end Exact

/-! ### Times that fit -/

/-- The departure from the first stop fits. -/
def StartFits (n : VehicleNode) : Prop := Fits (n.opens + n.serviceTime)

instance (n : VehicleNode) : Decidable (StartFits n) := inferInstanceAs (Decidable (Fits _))

section Fit
variable (D : Doubles) (M : Matrix)

/-- The numbers of the evaluation of `n` behind `pred` fit into 64 bits: the quotient by the speed, the
arrival, the wait for the opening and the departure. -/
structure StepFits (pred n : VehicleNode) (speed : ℚ) : Prop where
  quotient : D.round (D.round (M.travelTimeBy (.machine D) pred.id n.id pred.departureTime) / speed) <
    2 ^ 63
  arrival : Fits (pred.departureTime +
    pred.travelTimeToBy M (.machine D) n.toTwNode pred.departureTime speed)
  wait : n.opens - (pred.departureTime +
    pred.travelTimeToBy M (.machine D) n.toTwNode pred.departureTime speed) ≤ infinity
  departure : max (pred.departureTime +
    pred.travelTimeToBy M (.machine D) n.toTwNode pred.departureTime speed) n.opens + n.serviceTime ≤
      infinity

instance (pred n : VehicleNode) (speed : ℚ) : Decidable (StepFits D M pred n speed) :=
  decidable_of_iff
    (D.round (D.round (M.travelTimeBy (.machine D) pred.id n.id pred.departureTime) / speed) < 2 ^ 63 ∧
      Fits (pred.departureTime +
        pred.travelTimeToBy M (.machine D) n.toTwNode pred.departureTime speed) ∧
      n.opens - (pred.departureTime +
        pred.travelTimeToBy M (.machine D) n.toTwNode pred.departureTime speed) ≤ infinity ∧
      max (pred.departureTime +
        pred.travelTimeToBy M (.machine D) n.toTwNode pred.departureTime speed) n.opens + n.serviceTime ≤
          infinity)
    ⟨fun ⟨h1, h2, h3, h4⟩ => ⟨h1, h2, h3, h4⟩, fun ⟨h1, h2, h3, h4⟩ => ⟨h1, h2, h3, h4⟩⟩

/-- Every step fits when the stops behind `pred` are evaluated. -/
def StepsFit (cap : ℕ) (speed : ℚ) (pred : VehicleNode) : List VehicleNode → Prop
  | [] => True
  | n :: ns => StepFits D M pred n speed ∧
      StepsFit cap speed (n.evaluateBy M (.machine D) pred cap speed) ns

def PathFits (cap : ℕ) (speed : ℚ) : List VehicleNode → Prop
  | [] => True
  | n :: ns => StartFits n ∧ StepsFit D M cap speed (n.evaluateStartBy (.machine D) cap) ns

instance decidableStepsFit (cap : ℕ) (speed : ℚ) :
    ∀ (path : List VehicleNode) (pred : VehicleNode), Decidable (StepsFit D M cap speed pred path)
  | [], _ => inferInstanceAs (Decidable True)
  | n :: ns, pred =>
    have := decidableStepsFit cap speed ns (n.evaluateBy M (.machine D) pred cap speed)
    inferInstanceAs (Decidable (StepFits D M pred n speed ∧ _))

instance (cap : ℕ) (speed : ℚ) : ∀ path : List VehicleNode, Decidable (PathFits D M cap speed path)
  | [] => inferInstanceAs (Decidable True)
  | n :: _ => inferInstanceAs (Decidable (StartFits n ∧ StepsFit _ _ _ _ _ _))

end Fit

/-! ### Evaluation moves forward -/

/-- No time of the stop is negative, and it is left after the arrival. -/
structure VehicleNode.Timely (n : VehicleNode) : Prop where
  travel : 0 ≤ n.travelTime
  wait : 0 ≤ n.waitTime
  service : 0 ≤ n.serviceTime
  leaves : n.arrivalTime ≤ n.departureTime

/-- The times increase along the path. -/
structure ForwardPath (path : List VehicleNode) : Prop where
  timely : ∀ n ∈ path, n.Timely
  next : path.IsChain fun pred n => pred.departureTime ≤ n.arrivalTime

theorem ForwardPath.cons {pred n : VehicleNode} {path : List VehicleNode} (hp : pred.Timely)
    (h : ForwardPath (n :: path)) (hn : pred.departureTime ≤ n.arrivalTime) :
    ForwardPath (pred :: n :: path) where
  timely := List.forall_mem_cons.mpr ⟨hp, h.timely⟩
  next := List.isChain_cons_cons.mpr ⟨hn, h.next⟩

section Evaluate
variable {D : Doubles} {M : Matrix} {speed : ℚ} {pred n : VehicleNode}

theorem VehicleNode.evaluateStartBy_timely (hn : 0 ≤ n.serviceTime) (hfit : StartFits n) (cap : ℕ) :
    (n.evaluateStartBy (.machine D) cap).Timely where
  travel := le_rfl
  wait := le_rfl
  service := hn
  leaves := (le_add_of_nonneg_right hn).trans_eq (addIntervals_eq_of_fits hfit).symm

/-- The sums of a step that fits are exact. -/
theorem StepFits.times (hfit : StepFits D M pred n speed) (hn : 0 ≤ n.serviceTime) (cap : ℕ) :
    let arrival := pred.departureTime +
      pred.travelTimeToBy M (.machine D) n.toTwNode pred.departureTime speed
    let e := n.evaluateBy M (.machine D) pred cap speed
    e.arrivalTime = arrival ∧ e.waitTime = max arrival n.opens - arrival ∧
      e.departureTime = max arrival n.opens + n.serviceTime := by
  intro arrival e
  obtain ⟨-, harrival, hwait, hdeparture⟩ := hfit
  have he : e.arrivalTime = arrival := addIntervals_eq_of_fits harrival
  have hmax : Fits (max arrival n.opens) :=
    ⟨harrival.1.trans (le_max_left _ _), (le_add_of_nonneg_right hn).trans hdeparture⟩
  have hw : e.waitTime = max arrival n.opens - arrival := by
    have hdef : e.waitTime = if n.opens > e.arrivalTime then subIntervals n.opens e.arrivalTime else 0 := by
      by_cases h : n.opens > e.arrivalTime
      · rw [if_pos h]
        exact if_pos (decide_eq_true h)
      · rw [if_neg h]
        exact if_neg (by rwa [TwNode.isEarlyArrival, decide_eq_true_eq])
    rw [hdef, he]
    split_ifs with h
    · have hle : Fits (n.opens - arrival) := ⟨by unfold infinity; omega, hwait⟩
      rw [subIntervals_eq_of_fits hle, max_eq_right h.le]
    · rw [max_eq_left (not_lt.mp h), sub_self]
  have hopen : addIntervals e.arrivalTime e.waitTime = max arrival n.opens := by
    have hsum : e.arrivalTime + e.waitTime = max arrival n.opens := by omega
    rw [addIntervals_eq_of_fits (hsum ▸ hmax), hsum]
  refine ⟨he, hw, ?_⟩
  calc e.departureTime = addIntervals (addIntervals e.arrivalTime e.waitTime) n.serviceTime := rfl
    _ = addIntervals (max arrival n.opens) n.serviceTime := by rw [hopen]
    _ = max arrival n.opens + n.serviceTime :=
      addIntervals_eq_of_fits ⟨hmax.1.trans (le_add_of_nonneg_right hn), hdeparture⟩

section Times
variable (hM : ∀ i j time, 0 ≤ M.travelTimeBy (.machine D) i j time) (hs : 0 < speed)
  (hfit : StepFits D M pred n speed)
include hM hs hfit

theorem StepFits.travel_nonneg :
    0 ≤ pred.travelTimeToBy M (.machine D) n.toTwNode pred.departureTime speed :=
  Doubles.divide_nonneg (Int.cast_nonneg (hM _ _ _)) hs.le hfit.quotient

/-- **The evaluation of a stop moves forward in time.** -/
theorem VehicleNode.evaluateBy_forward (hn : 0 ≤ n.serviceTime) (cap : ℕ) :
    (n.evaluateBy M (.machine D) pred cap speed).Timely ∧
      pred.departureTime ≤ (n.evaluateBy M (.machine D) pred cap speed).arrivalTime := by
  have htravel := hfit.travel_nonneg hM hs
  obtain ⟨harrival, hwait, hdeparture⟩ := hfit.times hn cap
  refine ⟨⟨htravel, ?_, hn, ?_⟩, ?_⟩
  · rw [hwait]
    exact sub_nonneg.mpr (le_max_left _ _)
  · rw [harrival, hdeparture]
    exact (le_max_left _ _).trans (le_add_of_nonneg_right hn)
  · rw [harrival]
    exact le_add_of_nonneg_right htravel

end Times

section Path
variable (hM : ∀ i j time, 0 ≤ M.travelTimeBy (.machine D) i j time) (hs : 0 < speed) {cap : ℕ}
include hM hs

/-- The run lemma. -/
theorem evaluateAfterBy_forward (hp : pred.Timely) {path : List VehicleNode}
    (hn : ∀ n ∈ path, 0 ≤ n.serviceTime) (hfit : StepsFit D M cap speed pred path) :
    ForwardPath (pred :: evaluateAfterBy (.machine D) M cap speed pred path) := by
  induction path generalizing pred with
  | nil => exact ⟨List.forall_mem_singleton.mpr hp, List.isChain_singleton _⟩
  | cons n path ih =>
    obtain ⟨hnn, hpath⟩ := List.forall_mem_cons.mp hn
    obtain ⟨htimely, harrival⟩ := VehicleNode.evaluateBy_forward hM hs hfit.1 hnn cap
    exact (ih htimely hpath hfit.2).cons hp harrival

/-- **Along an evaluated path the times increase.** -/
theorem evaluatePathBy_forward {path : List VehicleNode} (hn : ∀ n ∈ path, 0 ≤ n.serviceTime)
    (hfit : PathFits D M cap speed path) :
    ForwardPath (evaluatePathBy (.machine D) M cap speed path) := by
  cases path with
  | nil => exact ⟨fun _ h => absurd h List.not_mem_nil, List.isChain_nil⟩
  | cons n path =>
    obtain ⟨hnn, hpath⟩ := List.forall_mem_cons.mp hn
    exact evaluateAfterBy_forward hM hs (VehicleNode.evaluateStartBy_timely hnn hfit.1 cap) hpath hfit.2

end Path

end Evaluate

end VrpRouting
