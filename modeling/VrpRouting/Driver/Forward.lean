import VrpRouting.Driver.TimeMatrix
import VrpRouting.Driver.Validity
import VrpRouting.Problem.Forward

/-! # Schedules of reachable routes

Nothing looks at the sign of a speed or of a multiplier, and nothing at the size of a number: sums of large
cells turn negative where the triangles are fixed, as do products, quotients and times of stops that do
not fit into 64 bits. When the speeds are positive, the matrix input is `Forward` and the multipliers fit,
every evaluation of a node whose numbers fit moves forward in time, and so does every route of such
evaluations (`schedules_forward`); a vehicle of speed -1 goes back (`schedules_backward`). -/

open Sorting

namespace VrpRouting

/-- The node is a site of a vehicle of the problem or a stop of an order. -/
def PickDeliver.HasNode (p : PickDeliver) (t : TwNode) : Prop :=
  (∃ u, p.HasTruck u ∧ t ∈ nodesOf u.path) ∨ ∃ i < p.orders.length, t ∈ (p.orders.get i).stops

/-- The speed is no divisor 0; the vehicle moves forward in time at every evaluation of a node whose
numbers fit, and along every route of such evaluations, of which its own is one. -/
structure Vehicle.MovesForward (D : Doubles) (M : Matrix) (p : PickDeliver) (v : Vehicle) : Prop where
  speed : v.speed ≠ 0
  start : ∀ n : VehicleNode, p.HasNode n.toTwNode → StartFits n → ∀ cap,
    (n.evaluateStartBy (.machine D) cap).Timely
  evaluate : ∀ n : VehicleNode, p.HasNode n.toTwNode → ∀ pred cap, StepFits D M pred n v.speed →
    (n.evaluateBy M (.machine D) pred cap v.speed).Timely ∧
      pred.departureTime ≤ (n.evaluateBy M (.machine D) pred cap v.speed).arrivalTime
  nodes : ∀ n ∈ v.path, p.HasNode n.toTwNode
  route : ∀ path : List VehicleNode, (∀ n ∈ path, p.HasNode n.toTwNode) → ∀ cap,
    PathFits D M cap v.speed path → ForwardPath (evaluatePathBy (.machine D) M cap v.speed path)

namespace PickDeliver.Built

variable {S : Sorter} {M : Matrix} {pOrders : List OrdersT} {pVehicles : List VehicleT}
  {newStops : List ShortVehicle} {p : PickDeliver} (hb : p.Built S M pOrders pVehicles newStops)
include hb

theorem speed_pos (h : ∀ d ∈ pVehicles, 0 < d.speed) {u : Vehicle} (hu : p.HasTruck u) :
    0 < u.speed := by
  obtain ⟨k, d, ⟨n, -, hm⟩, hd⟩ := hb.exists_made hu
  rw [show u.speed = d.speed by rw [hm]; rfl]
  rcases hd with ⟨hd, -⟩ | ⟨first, hfirst, rfl⟩
  · exact h d hd
  · exact h first hfirst

/-- The nodes of accepted rows have no negative service time. -/
theorem serviceTime_nonneg (ho : ∀ o ∈ pOrders, o.Accepted) (hv : ∀ d ∈ pVehicles, d.Accepted)
    {t : TwNode} (ht : p.HasNode t) : 0 ≤ t.serviceTime := by
  rcases ht with ⟨u, hu, ht⟩ | ⟨i, hi, ht⟩
  · obtain ⟨k, d, hm, hd⟩ := hb.exists_made hu
    obtain ⟨n, -, hN⟩ := hm.nodesOf
    have haccepted : d.Accepted := by
      rcases hd with ⟨hd, -⟩ | ⟨first, -, rfl⟩
      · exact hv d hd
      · exact ⟨le_rfl, le_rfl⟩
    rw [hN] at ht
    rcases List.mem_pair.mp ht with rfl | rfl
    · exact haccepted.startService
    · exact haccepted.endService
  · have hi' : i < (S.sort ordersLt pOrders).length := by
      rw [S.length_sort, ← hb.length]
      exact hi
    have haccepted := ho _ ((S.mem_sort _).mp (List.getElem_mem hi'))
    rcases List.mem_pair.mp ht with rfl | rfl
    · rw [← hb.orders.pickup, sortedOrders, Orders.get_ofData hi']
      exact haccepted.pickService
    · rw [← hb.orders.delivery, sortedOrders, Orders.get_ofData hi']
      exact haccepted.deliverService

end PickDeliver.Built

/-- **Schedules move forward in time** when the speeds are positive, there is one multiplier or none
is negative, the products of cells fit, the sums of cells fit where the driver fixes the triangles, and
the numbers of the evaluated stops fit. -/
theorem schedules_forward {S : Sorter} {D : Doubles} {sqrt : ℚ → ℚ} (hsqrt : ∀ q, 0 ≤ q → 0 ≤ sqrt q)
    {ids : Identifiers ℤ} {factor : ℚ} {input : Driver.MatrixInput} {M : Matrix}
    {pOrders : List OrdersT} {pVehicles : List VehicleT} {newStops : List ShortVehicle}
    {p : PickDeliver} (hcells : input.Fetched) (ho : ∀ o ∈ pOrders, o.Fetched)
    (hv : ∀ d ∈ pVehicles, d.Fetched)
    (hM : Driver.prepareMatrix (.machine D) S sqrt ids factor input = .ok M)
    (hp : PickDeliver.build S M pOrders pVehicles newStops = .ok p)
    (hinput : input.Forward D sqrt ids factor) (hfits : Driver.MultipliersFit D M)
    (hspeed : ∀ d ∈ pVehicles, 0 < d.speed) :
    ∀ F, Reachable S M p F → ∀ v ∈ F, v.MovesForward D M p := by
  intro F hF v hmem
  have hb := PickDeliver.build_built hp
  have htravel := Driver.prepareMatrix_nonneg hsqrt hcells hinput hM hfits
  have hservice : ∀ t, p.HasNode t → 0 ≤ t.serviceTime := fun t =>
    hb.serviceTime_nonneg (fun o h => (ho o h).accepted) fun d h => (hv d h).accepted
  obtain ⟨u, hu, hroute⟩ := hF.onTruckRoutes hb v hmem
  have hpos : 0 < v.speed := hroute.speed ▸ hb.speed_pos hspeed hu
  refine ⟨hpos.ne', ?_, ?_, ?_, ?_⟩
  · intro n hn hfit cap
    exact VehicleNode.evaluateStartBy_timely (hservice _ hn) hfit cap
  · intro n hn pred cap hfit
    exact VehicleNode.evaluateBy_forward htravel hpos hfit (hservice _ hn) cap
  · intro n hn
    exact (hroute.nodes n.toTwNode (List.mem_map_of_mem hn)).imp (fun h => ⟨u, hu, h⟩) id
  · intro path hpath cap hfit
    exact evaluatePathBy_forward htravel hpos (fun n hn => hservice _ (hpath n hn)) hfit

/-! ### Small schedules -/

/-- A square root for squares of integers. -/
def natSqrt (q : ℚ) : ℚ := Nat.sqrt q.num.toNat

/-- The row of the cell from the site 1 to the site 2. -/
def smallCellTuple : Tuple :=
  [("start_vid", .int8 (some 1)), ("end_vid", .int8 (some 2)), ("agg_cost", .int8 (some 5))]

/-- The two sites are 5 time units apart; the opposite direction is filled in. -/
def smallMatrixInput : Driver.MatrixInput := .timed [⟨1, 2, 5⟩] [⟨0, 1⟩] true

theorem smallMatrixInput_fetched : smallMatrixInput.Fetched :=
  List.forall_mem_singleton.mpr ⟨fun t => t, false, smallCellTuple, by decide +kernel⟩

/-- The row of a vehicle with the order 1 on its stops. -/
def loadedVehicleTuple (speed : ℚ) : Tuple :=
  ("speed", .float8 (some speed)) :: ("stops", .int8Array (some [some 1, some 1])) ::
    smallVehicleTuple 7 100

theorem smallMatrixInput_forward (ids : Identifiers ℤ) (h : ids.ids = [1, 2]) :
    smallMatrixInput.Forward .nearest natSqrt ids 1 := by
  refine ⟨?_, Or.inl rfl, fun _ _ => ?_⟩
  · intro c hc _ _
    obtain rfl := List.mem_singleton.mp hc
    decide +kernel
  · rw [h]
    decide +kernel

/-- The order is picked up and delivered on its way from 1 to 2 and back. -/
theorem schedules_forward_small : ∃ p,
    Driver.prepareMatrix (.machine .nearest) .insertion natSqrt
      (Driver.nodeIds [smallOrderData 1 100] [smallVehicleData 7 [1, 1]]) 1 smallMatrixInput =
      .ok twoSites ∧
    PickDeliver.build .insertion twoSites [smallOrderData 1 100] [smallVehicleData 7 [1, 1]] [] = .ok p ∧
    (∀ F, Reachable .insertion twoSites p F → ∀ v ∈ F, v.MovesForward .nearest twoSites p) ∧
    ∃ F, Reachable .insertion twoSites p F ∧ ∃ v ∈ F, v.isPhony = false ∧
      PathFits .nearest twoSites v.capacity v.speed v.path ∧
      (evaluatePathBy (.machine .nearest) twoSites v.capacity v.speed v.path).map
        VehicleNode.arrivalTime = [0, 0, 5, 10] := by
  obtain ⟨p, hp, htest⟩ := exists_ok_and (x := PickDeliver.build .insertion twoSites
    [smallOrderData 1 100] [smallVehicleData 7 [1, 1]] []) (fun p =>
      (Initialsol.Tabu.InitialSolution.userFleet twoSites 0 true p).1.vehicles.any fun v => decide (
        v.isPhony = false ∧ PathFits .nearest twoSites v.capacity v.speed v.path ∧
        (evaluatePathBy (.machine .nearest) twoSites v.capacity v.speed v.path).map
          VehicleNode.arrivalTime = [0, 0, 5, 10])) (by decide +kernel)
  obtain ⟨v, hv, htest⟩ := List.any_eq_true.mp htest
  have hM : Driver.prepareMatrix (.machine .nearest) .insertion natSqrt
      (Driver.nodeIds [smallOrderData 1 100] [smallVehicleData 7 [1, 1]]) 1 smallMatrixInput =
      .ok twoSites := by decide +kernel
  have hfetched : (smallVehicleData 7 [1, 1]).Fetched :=
    ⟨fun t => t, false, false, true, loadedVehicleTuple 1, smallVehicleData 7 [1, 1], 1, 1,
      by decide +kernel, rfl⟩
  refine ⟨p, hM, hp, ?_, _, .userSolution 0 true, v, hv, of_decide_eq_true htest⟩
  exact schedules_forward (fun q _ => Nat.cast_nonneg _) smallMatrixInput_fetched
    (List.forall_mem_singleton.mpr smallOrderData_fetched)
    (List.forall_mem_singleton.mpr hfetched) hM hp
    (smallMatrixInput_forward _ (by decide +kernel)) (Or.inl rfl)
    (List.forall_mem_singleton.mpr zero_lt_one)

/-- The vehicle of speed -1 arrives at the delivery 5 time units before it leaves the pickup. -/
theorem schedules_backward : ∃ d p, d.Fetched ∧ d.speed = -1 ∧
    Driver.prepareMatrix (.machine .nearest) .insertion natSqrt
      (Driver.nodeIds [smallOrderData 1 100] [d]) 1 smallMatrixInput = .ok twoSites ∧
    PickDeliver.build .insertion twoSites [smallOrderData 1 100] [d] [] = .ok p ∧
    ∃ F, Reachable .insertion twoSites p F ∧ ∃ v ∈ F, ¬ v.MovesForward .nearest twoSites p ∧
      v.isPhony = false ∧ PathFits .nearest twoSites v.capacity v.speed v.path ∧
      let route := evaluatePathBy (.machine .nearest) twoSites v.capacity v.speed v.path
      route.map VehicleNode.departureTime = [0, 0, 0, 0] ∧
        route.map VehicleNode.arrivalTime = [0, 0, -5, -5] ∧
        route.map VehicleNode.travelTime = [0, 0, -5, -5] := by
  let d := { smallVehicleData 7 [1, 1] with speed := -1 }
  obtain ⟨p, hp, htest⟩ := exists_ok_and (x := PickDeliver.build .insertion twoSites
    [smallOrderData 1 100] [d] []) (fun p =>
      (Initialsol.Tabu.InitialSolution.userFleet twoSites 0 true p).1.vehicles.any fun v => decide (
        v.isPhony = false ∧ PathFits .nearest twoSites v.capacity v.speed v.path ∧
        let route := evaluatePathBy (.machine .nearest) twoSites v.capacity v.speed v.path
        route.map VehicleNode.departureTime = [0, 0, 0, 0] ∧
          route.map VehicleNode.arrivalTime = [0, 0, -5, -5] ∧
          route.map VehicleNode.travelTime = [0, 0, -5, -5])) (by decide +kernel)
  obtain ⟨v, hv, htest⟩ := List.any_eq_true.mp htest
  have hroute := of_decide_eq_true htest
  refine ⟨d, p, ⟨fun t => t, false, false, true, loadedVehicleTuple (-1), d, 1, 1, by decide +kernel,
    rfl⟩, rfl, by decide +kernel, hp, _, .userSolution 0 true, v, hv, fun h => ?_, hroute⟩
  obtain ⟨n, hn, htravel⟩ : ∃ n ∈ evaluatePathBy (.machine .nearest) twoSites v.capacity v.speed v.path,
      n.travelTime = -5 :=
    List.mem_map.mp (hroute.2.2.2.2 ▸ (by simp : (-5 : ℤ) ∈ [0, 0, -5, -5]))
  have := ((h.route v.path h.nodes v.capacity hroute.2.1).timely n hn).travel
  omega

end VrpRouting
