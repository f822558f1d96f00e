import VrpRouting.Problem.Schedule
import VrpRouting.Problem.Solution

/-! # The rows of a vehicle

Evaluation gives consistent rows (`rows_evaluateAfter`): a stop is left after the wait and the
service, and reached from the previous one after the travel time. The adjustment that moves the
first wait to the depot sets the departure there to arrival plus wait, and forgets the service at
the depot. -/

namespace VrpRouting

/-- The departure follows from the arrival, the wait and the service. -/
def SolutionRt.Balanced (r : SolutionRt) : Prop :=
  r.departureTime = r.arrivalTime + r.waitDuration + r.serviceDuration

/-- The arrival of a row follows from the departure of the row before it. -/
def Follows (r r' : SolutionRt) : Prop := r'.arrivalTime = r.departureTime + r'.travelTime

/-- What the documentation says about the rows of a vehicle. -/
structure ConsistentRows (rows : List SolutionRt) : Prop where
  balanced : ∀ r ∈ rows, r.Balanced
  chain : rows.IsChain Follows

instance (r : SolutionRt) : Decidable r.Balanced := by unfold SolutionRt.Balanced; infer_instance

instance (r r' : SolutionRt) : Decidable (Follows r r') := by unfold Follows; infer_instance

instance (rows : List SolutionRt) : Decidable (ConsistentRows rows) :=
  decidable_of_iff ((∀ r ∈ rows, r.Balanced) ∧ rows.IsChain Follows)
    ⟨fun h => ⟨h.1, h.2⟩, fun h => ⟨h.balanced, h.chain⟩⟩

section Evaluate
variable (M : Matrix) (cap : ℕ) (speed : ℚ)

theorem balanced_evaluate (n pred : VehicleNode) (vid vId seq : ℤ) :
    ((n.evaluate M pred cap speed).getPostgresResult vid vId seq).Balanced := rfl

/-- The row of a stop follows every row that leaves its predecessor at the same time. -/
theorem follows_evaluate (n pred : VehicleNode) (vid vId seq : ℤ) {r : SolutionRt}
    (hr : r.departureTime = pred.departureTime) :
    Follows r ((n.evaluate M pred cap speed).getPostgresResult vid vId seq) := by
  unfold Follows
  rw [hr]
  rfl

/-- The rows behind a stop are consistent with every row that leaves it at the same time. -/
theorem rows_evaluateAfter (vid vId : ℤ) : ∀ (ns : List VehicleNode) (pred : VehicleNode)
    (seq : ℕ → ℤ) {r : SolutionRt}, r.Balanced → r.departureTime = pred.departureTime →
    ConsistentRows (r :: (evaluateAfter M cap speed pred ns).mapIdx fun i s =>
      s.getPostgresResult vid vId (seq i))
  | [], pred, seq, r, hb, _ => ⟨by simpa [evaluateAfter] using hb, by simp [evaluateAfter]⟩
  | n :: ns, pred, seq, r, hb, hr => by
    have ih := rows_evaluateAfter vid vId ns (n.evaluate M pred cap speed) (fun i => seq (i + 1))
      (balanced_evaluate M cap speed n pred vid vId (seq 0)) rfl
    rw [evaluateAfter, List.mapIdx_cons]
    exact ⟨List.forall_mem_cons.mpr ⟨hb, ih.balanced⟩,
      List.isChain_cons_cons.mpr ⟨follows_evaluate M cap speed n pred vid vId (seq 0) hr, ih.chain⟩⟩

end Evaluate

/-- The adjusted rows are the row of the depot, the row of the first stop and rows that are
consistent behind it. -/
theorem exists_vehicleRows (M : Matrix) (i : ℕ) (v : Vehicle) (hv : 2 ≤ v.path.length) :
    ∃ depot first rest, Solution.vehicleRows M i v = depot :: first :: rest ∧
      depot.arrivalTime = v.front.opens ∧ depot.serviceDuration = v.front.serviceTime ∧
      depot.departureTime = v.front.opens + depot.waitDuration ∧
      first.arrivalTime = v.front.opens + v.front.serviceTime + first.travelTime +
        depot.waitDuration ∧
      ConsistentRows (first :: rest) := by
  obtain ⟨n0, n1, ns, hp⟩ : ∃ n0 n1 ns, v.path = n0 :: n1 :: ns := by
    cases hp : v.path with
    | nil => simp [hp] at hv
    | cons n0 rest => cases rest with
      | nil => simp [hp] at hv
      | cons n1 ns => exact ⟨n0, n1, ns, rfl⟩
  have hf : v.front = n0 := by simp [Vehicle.front, Vehicle.stop, hp]
  have hrows : (v.evaluate M 0).getPostgresResult i =
      (n0.evaluateStart v.capacity).getPostgresResult i v.id 1 ::
      (n1.evaluate M (n0.evaluateStart v.capacity) v.capacity v.speed).getPostgresResult i v.id 2 ::
      (evaluateAfter M v.capacity v.speed
        (n1.evaluate M (n0.evaluateStart v.capacity) v.capacity v.speed) ns).mapIdx
          fun j s => s.getPostgresResult i v.id (j + 3) := by
    simp [Vehicle.getPostgresResult, Vehicle.evaluate, hp, evaluatePath, evaluateAfter,
      add_assoc]
  rw [Solution.vehicleRows, hrows, hf]
  -- the stop behind the depot still leaves at the time that evaluation gave it
  refine ⟨_, _, _, rfl, rfl, rfl, rfl, rfl,
    rows_evaluateAfter M v.capacity v.speed i v.id ns _ (fun j => j + 3) ?_ rfl⟩
  simp only [SolutionRt.Balanced, VehicleNode.getPostgresResult, add_zero]
  rfl

/-- **The printed schedule is consistent exactly when there is no service at the depot.** -/
theorem vehicleRows_consistent_iff (M : Matrix) (i : ℕ) (v : Vehicle) (hv : 2 ≤ v.path.length) :
    ConsistentRows (Solution.vehicleRows M i v) ↔ v.front.serviceTime = 0 := by
  obtain ⟨depot, first, rest, hrows, ha, hs, hd, hf, hc⟩ := exists_vehicleRows M i v hv
  rw [hrows]
  constructor
  · intro h
    have hb : depot.Balanced := h.balanced depot List.mem_cons_self
    unfold SolutionRt.Balanced at hb
    omega
  · intro h0
    have hb : depot.Balanced := by
      unfold SolutionRt.Balanced
      omega
    have hfol : Follows depot first := by
      unfold Follows
      omega
    exact ⟨List.forall_mem_cons.mpr ⟨hb, hc.balanced⟩, List.isChain_cons_cons.mpr ⟨hfol, hc.chain⟩⟩

/-! ### A depot with and without service -/

/-- An empty vehicle from the site 1 to the site 2, which opens at 20. -/
def emptyTrip (service : ℤ) : Vehicle :=
  .construct twoSites 0 1 (.ofTwNode ⟨0, 1, 0, 0, 100, service, 0, .kStart⟩)
    (.ofTwNode ⟨1, 2, 0, 20, 100, 0, 0, .kEnd⟩) [] 1 1 []

theorem vehicleRows_consistent_trip :
    ConsistentRows (Solution.vehicleRows twoSites 1 (emptyTrip 0)) :=
  (vehicleRows_consistent_iff twoSites 1 (emptyTrip 0) (by decide +kernel)).mpr rfl

/-- With a service time of 3 at the starting site the first row leaves too early. -/
theorem vehicleRows_service_fails :
    ¬ ConsistentRows (Solution.vehicleRows twoSites 1 (emptyTrip 3)) := by decide +kernel

end VrpRouting
