import Mathlib.Algebra.Order.BigOperators.Group.List
import Mathlib.Algebra.Order.Ring.Int
import VrpRouting.Problem.Rows

/-! # The summary row

The last row of the result has the totals of the fields that evaluation accumulates, the other rows
have the single values, of evaluated copies. Along an evaluated path the total of a field is the sum so
far (`Settled.total`), so the totals of travel, wait and service are the sums over the rows of the
real vehicles (`SummaryTotals`). The total time is
taken from the end and the start of the routes: it leaves out the service at the sites and the wait
at the ending site (`duration_add_siteTime`), so it is the sum of the other totals exactly when there
are none (`summary_row_iff`). -/

namespace VrpRouting

section Accumulated
variable {M : Matrix} {cap : ℕ} {speed : ℚ}

/-- A field that every evaluation increases has the sum of the increases at the last stop. -/
theorem accumulated_getLastD (tot part : VehicleNode → ℤ)
    (h : ∀ n pred : VehicleNode, tot (n.evaluate M pred cap speed) =
      tot pred + part (n.evaluate M pred cap speed)) :
    ∀ (ns : List VehicleNode) (pred : VehicleNode),
      tot ((evaluateAfter M cap speed pred ns).getLastD pred) =
        tot pred + ((evaluateAfter M cap speed pred ns).map part).sum
  | [], pred => (add_zero _).symm
  | n :: ns, pred => by
    rw [evaluateAfter, List.getLastD_cons, accumulated_getLastD tot part h ns, h, List.map_cons,
      List.sum_cons, add_assoc]

/-- A stop is left after its wait, which is not negative, and its service. -/
theorem departure_of_mem : ∀ {ns : List VehicleNode} {pred : VehicleNode},
    ∀ s ∈ evaluateAfter M cap speed pred ns,
      s.departureTime = s.arrivalTime + s.waitTime + s.serviceTime ∧ 0 ≤ s.waitTime
  | [], _, s, hs => absurd hs List.not_mem_nil
  | n :: ns, pred, s, hs => by
    rcases List.mem_cons.mp hs with rfl | hs
    · refine ⟨rfl, ?_⟩
      rw [VehicleNode.waitTime_evaluate]
      exact sub_nonneg.mpr (le_max_left _ _)
    · exact departure_of_mem s hs

end Accumulated

/-! ### Along the path -/

/-- The stop is left when everything so far is done, from the opening time `opens` on. -/
def LeavesAt (opens : ℤ) (s : VehicleNode) : Prop :=
  s.departureTime = opens + s.totTravelTime + s.totWaitTime + s.totServiceTime

section Along
variable {M : Matrix} {cap : ℕ} {speed : ℚ}

theorem leavesAt_evaluateStart (n : VehicleNode) : LeavesAt n.opens (n.evaluateStart cap) := by
  have hdeparture : (n.evaluateStart cap).departureTime = n.opens + 0 + 0 + n.serviceTime := by
    rw [add_zero, add_zero]
    rfl
  exact hdeparture

theorem LeavesAt.evaluate {opens : ℤ} {pred : VehicleNode} (h : LeavesAt opens pred)
    (n : VehicleNode) : LeavesAt opens (n.evaluate M pred cap speed) := by
  unfold LeavesAt at h ⊢
  unfold VehicleNode.evaluate VehicleNode.evaluateBy
  simp only [Arithmetic.exact_add, Arithmetic.exact_sub]
  omega

/-- What evaluation passes on from stop to stop holds along the path. -/
theorem forall_evaluateAfter {P : VehicleNode → Prop}
    (h : ∀ n pred : VehicleNode, P pred → P (n.evaluate M pred cap speed)) :
    ∀ (ns : List VehicleNode) {pred : VehicleNode}, P pred →
      ∀ s ∈ evaluateAfter M cap speed pred ns, P s
  | [], _, _, s, hs => absurd hs List.not_mem_nil
  | n :: ns, pred, hp, s, hs => by
    have hn := h n pred hp
    rcases List.mem_cons.mp hs with rfl | hs
    · exact hn
    · exact forall_evaluateAfter h ns hn s hs

theorem Settled.leavesAt {n : VehicleNode} {ns : List VehicleNode}
    (hs : Settled M cap speed 0 (n :: ns)) : ∀ s ∈ n :: ns, LeavesAt n.opens s := by
  have hpath : n.evaluateStart cap :: evaluateAfter M cap speed (n.evaluateStart cap) ns = n :: ns := hs
  rw [← hpath]
  exact List.forall_mem_cons.mpr ⟨leavesAt_evaluateStart n,
    forall_evaluateAfter (fun n pred h => h.evaluate n) ns (leavesAt_evaluateStart n)⟩

/-- A field that starts with a single value and grows by one at every stop is the sum so far. -/
theorem Settled.total (tot part : VehicleNode → ℤ)
    (hstart : ∀ n : VehicleNode, tot (n.evaluateStart cap) = part (n.evaluateStart cap))
    (hstep : ∀ n pred : VehicleNode, tot (n.evaluate M pred cap speed) =
      tot pred + part (n.evaluate M pred cap speed)) {pre post : List VehicleNode} {s : VehicleNode}
    (hs : Settled M cap speed 0 (pre ++ s :: post)) : tot s = ((pre ++ [s]).map part).sum := by
  have htake : (pre ++ s :: post).take (pre.length + 1) = pre ++ [s] := by
    rw [List.take_append, List.take_of_length_le (Nat.le_succ _), Nat.add_sub_cancel_left]
    rfl
  have hsofar := hs.take (pre.length + 1)
  rw [htake] at hsofar
  cases pre with
  | nil =>
    have hsite : s.evaluateStart cap = s := (List.cons.inj hsofar).1
    have htot := hstart s
    rw [hsite] at htot
    simpa using htot
  | cons n ns =>
    have hsite : n.evaluateStart cap = n := (List.cons.inj hsofar).1
    have hrest : evaluateAfter M cap speed (n.evaluateStart cap) (ns ++ [s]) = ns ++ [s] :=
      (List.cons.inj hsofar).2
    have htot := hstart n
    have hlast := accumulated_getLastD tot part hstep (ns ++ [s]) (n.evaluateStart cap)
    rw [hrest, List.getLastD_concat, htot, hsite] at hlast
    rw [hlast]
    exact (List.sum_cons (a := part n)).symm

end Along

/-! ### The totals of a vehicle -/

/-- What the duration of a real vehicle leaves out: the service at its sites, and its wait for the
ending site to open. -/
def Vehicle.siteTime (v : Vehicle) : ℤ :=
  if v.isPhony then 0 else v.front.serviceTime + v.back.waitTime + v.back.serviceTime

/-- The route of the vehicle has its two sites, and its fields are up to date. -/
structure Evaluated (M : Matrix) (v : Vehicle) : Prop where
  sites : 2 ≤ v.path.length
  settled : Settled M v.capacity v.speed 0 v.path

section Vehicle
variable {M : Matrix} {v : Vehicle} (h : Evaluated M v)
include h

/-- The path of an evaluated vehicle, with the fields of its first stop. -/
theorem Evaluated.exists_path : ∃ n0 n1 ns, v.path = n0 :: n1 :: ns ∧
    n0.evaluateStart v.capacity = n0 ∧
    evaluateAfter M v.capacity v.speed n0 (n1 :: ns) = n1 :: ns := by
  obtain ⟨hlen, hs⟩ := h
  unfold Settled at hs
  generalize v.path = path at hlen hs
  cases path with
  | nil => simp at hlen
  | cons n0 rest =>
    obtain ⟨h0, hrest⟩ := List.cons.inj hs
    cases rest with
    | nil => simp at hlen
    | cons n1 ns =>
      rw [h0] at hrest
      exact ⟨n0, n1, ns, rfl, h0, hrest⟩

theorem Evaluated.exists_back : ∃ pre, v.path = pre ++ [v.back] := by
  rcases List.eq_nil_or_concat v.path with hnil | ⟨pre, b, hpre⟩
  · obtain ⟨n0, n1, ns, hp, -⟩ := h.exists_path
    rw [hp] at hnil
    cases hnil
  · rw [List.concat_eq_append] at hpre
    exact ⟨pre, by rw [back_of_path hpre, hpre]⟩

theorem Evaluated.leavesAt : ∀ s ∈ v.path, LeavesAt v.front.opens s := by
  obtain ⟨n0, n1, ns, hp, -⟩ := h.exists_path
  have hs := h.settled
  rw [front_of_path hp]
  rw [hp] at hs ⊢
  exact hs.leavesAt

/-- The totals at the ending site are the sums over the path. -/
theorem Evaluated.totals :
    v.back.totTravelTime = (v.path.map VehicleNode.travelTime).sum ∧
    v.back.totWaitTime = (v.path.map VehicleNode.waitTime).sum ∧
    v.back.totServiceTime = (v.path.map fun s => s.serviceTime).sum ∧
    v.back.departureTime = v.front.departureTime - v.front.serviceTime +
      (v.path.map fun s => s.travelTime + s.waitTime + s.serviceTime).sum := by
  have hs := h.settled
  obtain ⟨pre, hlast⟩ := h.exists_back
  have hleave := h.leavesAt v.back (hlast ▸ List.mem_concat_self)
  rw [hlast] at hs
  have htravel := hs.total VehicleNode.totTravelTime VehicleNode.travelTime (fun _ => rfl) fun _ _ => rfl
  have hwait := hs.total VehicleNode.totWaitTime VehicleNode.waitTime (fun _ => rfl) fun _ _ => rfl
  have hservice := hs.total VehicleNode.totServiceTime (fun s => s.serviceTime) (fun _ => rfl)
    fun _ _ => rfl
  rw [← hlast] at htravel hwait hservice
  have hstart : v.front.departureTime = v.front.opens + v.front.serviceTime := by
    obtain ⟨n0, n1, ns, hp, h0, -⟩ := h.exists_path
    rw [front_of_path hp, ← h0]
    rfl
  refine ⟨htravel, hwait, hservice, ?_⟩
  rw [List.sum_map_add, List.sum_map_add, ← htravel, ← hwait, ← hservice]
  unfold LeavesAt at hleave
  omega

/-- The ending site is left after the wait and the service there. -/
theorem Evaluated.back_departure :
    v.back.departureTime = v.back.arrivalTime + v.back.waitTime + v.back.serviceTime ∧
      0 ≤ v.back.waitTime := by
  obtain ⟨n0, n1, ns, hp, -, hrest⟩ := h.exists_path
  have hback : v.back ∈ evaluateAfter M v.capacity v.speed n0 (n1 :: ns) := by
    rw [hrest]
    unfold Vehicle.back
    rw [hp, List.getLastD_cons, List.getLastD_cons]
    exact List.getLastD_mem_cons
  exact departure_of_mem _ hback

/-- **What the duration leaves out.** -/
theorem Evaluated.duration_add_siteTime :
    v.duration + v.siteTime = v.totalTravelTime + v.totalWaitTime + v.totalServiceTime := by
  obtain ⟨htravel, hwait, hservice, hdep⟩ := h.totals
  obtain ⟨hleave, -⟩ := h.back_departure
  unfold Vehicle.duration Vehicle.siteTime Vehicle.totalTravelTime Vehicle.totalWaitTime
    Vehicle.totalServiceTime
  split_ifs
  · rfl
  · rw [List.sum_map_add, List.sum_map_add, ← htravel, ← hwait, ← hservice] at hdep
    omega

end Vehicle

/-! ### The rows of the fleet -/

/-- The rows of real vehicles. -/
def realRows (rows : List SolutionRt) : List SolutionRt :=
  rows.filter fun r => decide (0 ≤ r.vehicleId)

/-- The last row has the sums of the columns. -/
structure SummaryTotals (rows : List SolutionRt) (total : SolutionRt) : Prop where
  travel : total.travelTime = (rows.map SolutionRt.travelTime).sum
  wait : total.waitDuration = (rows.map SolutionRt.waitDuration).sum
  service : total.serviceDuration = (rows.map SolutionRt.serviceDuration).sum

/-- The last row has the total time that the documentation promises. -/
def SolutionRt.TotalTime (total : SolutionRt) : Prop :=
  total.departureTime = total.travelTime + total.waitDuration + total.serviceDuration

instance (total : SolutionRt) : Decidable total.TotalTime := by
  unfold SolutionRt.TotalTime
  infer_instance

section Rows
variable {M : Matrix} {v : Vehicle}

theorem map_getPostgresResult (vid : ℤ) (col : SolutionRt → ℤ) (field : VehicleNode → ℤ)
    (h : ∀ (s : VehicleNode) vid vId seq, col (s.getPostgresResult vid vId seq) = field s) :
    (v.getPostgresResult vid).map col = v.path.map field := by
  unfold Vehicle.getPostgresResult
  refine List.ext_getElem (by simp) fun i _ _ => ?_
  simp [h]

/-- The rows of an evaluated vehicle are its own, and their columns add up to its totals. -/
theorem Evaluated.rows (h : Evaluated M v) (i : ℕ) :
    (∀ r ∈ Solution.vehicleRows M i v, r.vehicleId = v.id) ∧
    ((Solution.vehicleRows M i v).map SolutionRt.travelTime).sum = v.back.totTravelTime ∧
    ((Solution.vehicleRows M i v).map SolutionRt.waitDuration).sum = v.back.totWaitTime ∧
    ((Solution.vehicleRows M i v).map SolutionRt.serviceDuration).sum = v.back.totServiceTime := by
  obtain ⟨htravel, hwait, hservice, -⟩ := h.totals
  have heval : v.evaluate M 0 = v := by
    have hs := h.settled
    unfold Settled at hs
    unfold Vehicle.evaluate
    rw [hs]
  have hid : ∀ r ∈ v.getPostgresResult i, r.vehicleId = v.id := fun r hr => by
    obtain ⟨k, hk, rfl⟩ := List.mem_mapIdx.mp hr
    rfl
  rw [htravel, hwait, hservice,
    ← map_getPostgresResult i SolutionRt.travelTime VehicleNode.travelTime fun _ _ _ _ => rfl,
    ← map_getPostgresResult i SolutionRt.waitDuration VehicleNode.waitTime fun _ _ _ _ => rfl,
    ← map_getPostgresResult i SolutionRt.serviceDuration (fun s => s.serviceTime)
      fun _ _ _ _ => rfl]
  unfold Solution.vehicleRows
  rw [heval]
  have hdepot : ∀ r ∈ (v.getPostgresResult i).head?, r.waitDuration = 0 := by
    obtain ⟨n0, n1, ns, hp, h0, -⟩ := h.exists_path
    intro r hr
    unfold Vehicle.getPostgresResult at hr
    rw [hp, List.mapIdx_cons, List.head?_cons] at hr
    obtain rfl := Option.some.inj hr
    change n0.waitTime = 0
    rw [← h0]
    rfl
  generalize v.getPostgresResult i = rows at *
  -- the adjustment moves a wait from one row to the row before it
  match rows with
  | [] => exact ⟨hid, rfl, rfl, rfl⟩
  | [r] => exact ⟨hid, rfl, rfl, rfl⟩
  | depot :: first :: rest =>
    refine ⟨fun r hr => ?_, rfl, ?_, rfl⟩
    · simp only [Solution.adjustDepot, List.mem_cons] at hr
      rcases hr with rfl | rfl | hr
      · exact hid depot (by simp)
      · exact hid first (by simp)
      · exact hid r (by simp [hr])
    · have h0 := hdepot depot rfl
      simp only [Solution.adjustDepot, List.map_cons, List.sum_cons]
      omega

/-- The sum of a column over the rows of the real vehicles of a fleet. -/
theorem sum_realRows {col : SolutionRt → ℤ} {tot : Vehicle → ℤ} : ∀ (fleet : List Vehicle)
    (rows : ℕ → Vehicle → List SolutionRt),
    (∀ v ∈ fleet, ∀ i, (∀ r ∈ rows i v, r.vehicleId = v.id) ∧ ((rows i v).map col).sum = tot v) →
    ((realRows (fleet.mapIdx rows).flatten).map col).sum =
      (fleet.map fun v => if v.isPhony then 0 else tot v).sum
  | [], _, _ => rfl
  | v :: fleet, rows, h => by
    obtain ⟨hv, hfleet⟩ := List.forall_mem_cons.mp h
    obtain ⟨hid, hsum⟩ := hv 0
    have ih := sum_realRows fleet (fun i => rows (i + 1)) fun w hw i => hfleet w hw (i + 1)
    have hone : realRows (rows 0 v) = if v.isPhony then [] else rows 0 v := by
      unfold realRows Vehicle.isPhony
      split_ifs with hp
      · rw [decide_eq_true_eq] at hp
        exact List.filter_eq_nil_iff.mpr fun r hr => by
          rw [hid r hr, decide_eq_true_eq]
          omega
      · rw [decide_eq_true_eq] at hp
        exact List.filter_eq_self.mpr fun r hr => by
          rw [hid r hr, decide_eq_true_eq]
          omega
    have happend : realRows ((v :: fleet).mapIdx rows).flatten =
        realRows (rows 0 v) ++ realRows (fleet.mapIdx fun i => rows (i + 1)).flatten := by
      unfold realRows
      rw [List.mapIdx_cons, List.flatten_cons, List.filter_append]
    rw [happend, List.map_append, List.sum_append, ih, hone, List.map_cons, List.sum_cons]
    split_ifs
    · rfl
    · rw [hsum]

end Rows

/-- **The columns agree with the summary row; its total time is the sum of the other totals exactly
when the real vehicles have no service at their sites and no wait at the ending ones.** -/
theorem summary_row_iff {M : Matrix} {s : Solution} (hs : ∀ v ∈ s.fleet, Evaluated M v) :
    ∃ rows total, s.getPostgresResult M = rows ++ [total] ∧ SummaryTotals (realRows rows) total ∧
      (total.TotalTime ↔ (s.fleet.map Vehicle.siteTime).sum = 0) := by
  have hrows : ∀ v ∈ s.fleet, ∀ i, _ := fun v hv i => (hs v hv).rows (i + 1)
  refine ⟨_, _, rfl, ⟨?_, ?_, ?_⟩, ?_⟩
  · rw [sum_realRows s.fleet _ fun v hv i => ⟨(hrows v hv i).1, (hrows v hv i).2.1⟩]
    rfl
  · rw [sum_realRows s.fleet _ fun v hv i => ⟨(hrows v hv i).1, (hrows v hv i).2.2.1⟩]
    rfl
  · rw [sum_realRows s.fleet _ fun v hv i => ⟨(hrows v hv i).1, (hrows v hv i).2.2.2⟩]
    rfl
  · have hsum : s.duration + (s.fleet.map Vehicle.siteTime).sum =
        s.totalTravelTime + s.waitTime + s.totalServiceTime := by
      unfold Solution.duration Solution.totalTravelTime Solution.waitTime Solution.totalServiceTime
      rw [← List.sum_map_add, ← List.sum_map_add, ← List.sum_map_add]
      exact congrArg List.sum (List.map_congr_left fun v hv => (hs v hv).duration_add_siteTime)
    change s.duration = s.totalTravelTime + s.waitTime + s.totalServiceTime ↔ _
    omega

/-! ### A vehicle with one order -/

def servedOrders : Orders := .ofData [smallOrderData 10 100]

/-- A vehicle from the site 1, with a service there, to the site 2, which opens at `opens`. -/
def servedTrip (service opens : ℤ) : Vehicle :=
  (Vehicle.construct twoSites 0 7 (.ofTwNode ⟨2, 1, 0, 0, 100, service, 0, .kStart⟩)
    (.ofTwNode ⟨3, 2, 0, opens, 100, 0, 0, .kEnd⟩) [] 1 1 servedOrders).pushBack twoSites
    (servedOrders.get 0)

def servedSolution (service opens : ℤ) : Solution :=
  ⟨[servedTrip service opens], servedOrders, ⟨[], .empty, .empty, .empty⟩⟩

theorem servedTrip_evaluated :
    Evaluated twoSites (servedTrip 0 0) ∧ Evaluated twoSites (servedTrip 3 20) :=
  ⟨⟨by decide +kernel, by unfold Settled; decide +kernel⟩,
    ⟨by decide +kernel, by unfold Settled; decide +kernel⟩⟩

theorem summary_row_small : ∃ rows total,
    (servedSolution 0 0).getPostgresResult twoSites = rows ++ [total] ∧
      SummaryTotals (realRows rows) total ∧ total.TotalTime := by
  obtain ⟨rows, total, hresult, htotals, htime⟩ := summary_row_iff (M := twoSites)
    (s := servedSolution 0 0) fun v hv => by
      rw [List.mem_singleton.mp hv]
      exact servedTrip_evaluated.1
  exact ⟨rows, total, hresult, htotals, htime.mpr (by decide +kernel)⟩

/-- After a service of 3 the vehicle travels for 5 and waits for 12 at its end, 20 in all; the
summary row says 5. -/
theorem summary_row_service : Evaluated twoSites (servedTrip 3 20) ∧ ∃ rows total,
    (servedSolution 3 20).getPostgresResult twoSites = rows ++ [total] ∧
      total.departureTime = 5 ∧ total.travelTime = 5 ∧ total.waitDuration = 12 ∧
      total.serviceDuration = 3 ∧ ¬ total.TotalTime :=
  ⟨servedTrip_evaluated.2, _, _, rfl, by decide +kernel⟩

end VrpRouting
