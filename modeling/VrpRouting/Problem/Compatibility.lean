import VrpRouting.Problem.Built
import VrpRouting.Problem.Cells
import VrpRouting.Problem.Feasibility
import VrpRouting.Problem.Violations

/-! # The vehicles in which an order fits

`set_compatibles` of the fleet leaves an order out when the vehicle closes before its pickup opens or
opens after its delivery closes, before it evaluates the route with this order alone. When travel and
service take no negative time, such a route has a late stop (`accepts_of_noViolation`), so the table
is exact (`compatible_vehicles_exact`), for real and phony vehicles. -/

open Sorting

namespace VrpRouting

/-- The route of the vehicle with one order. -/
def Vehicle.soloRoute (M : Matrix) (v : Vehicle) (o : Order) : List VehicleNode :=
  evaluatePath M v.capacity v.speed 0 [v.front, o.pickup, o.delivery, v.back]

/-- No driving time at the speed is negative. -/
def NonnegTravel (M : Matrix) (speed : ℚ) : Prop := ∀ i j t, 0 ≤ drivingTime M speed i j t

theorem nonnegTravel_of_travelTime {M : Matrix} (hM : ∀ i j t, 0 ≤ M.travelTime i j t) {speed : ℚ}
    (hs : 0 ≤ speed) : NonnegTravel M speed := fun i j t =>
  toInterval_nonneg (div_nonneg (Int.cast_nonneg (hM i j t)) hs)

/-- An evaluated vehicle without stops between its sites. -/
structure Vacant (M : Matrix) (v : Vehicle) : Prop where
  nodes : ∃ s e, nodesOf v.path = [s, e] ∧ s.type = .kStart ∧ e.type = .kEnd
  settled : Settled M v.capacity v.speed 0 v.path

namespace Vacant

variable {M : Matrix} {v : Vehicle} {o : Order} (h : Vacant M v)
include h

theorem nodes_eq : nodesOf v.path = [v.front.toTwNode, v.back.toTwNode] := by
  obtain ⟨s, e, hN, -⟩ := h.nodes
  rw [hN, front_of_nodes hN, back_of_nodes (N := [s]) hN]

theorem types : v.front.type = .kStart ∧ v.back.type = .kEnd := by
  obtain ⟨s, e, hN, hs, he⟩ := h.nodes
  rw [front_of_nodes hN, back_of_nodes (N := [s]) hN]
  exact ⟨hs, he⟩

theorem route : IsRoute (nodesOf v.path) := by
  obtain ⟨s, e, hN, hs, he⟩ := h.nodes
  exact ⟨s, [], e, hN, hs, he, by simp⟩

/-- `push_back` on a vacant vehicle makes the route with the order alone. -/
theorem pushBack_path (ho : o.Typed) : (v.pushBack M o).path = v.soloRoute M o := by
  have hi := pushBack_spec (M := M) h.route ho
  obtain ⟨p, d, hp, hpd, hd, hN⟩ := hi.positions
  have hlen : v.path.length = 2 := by rw [← length_nodesOf, h.nodes_eq]; rfl
  obtain rfl : p = 1 := by omega
  obtain rfl : d = 2 := by omega
  have hs := hi.settled h.settled
  unfold Settled at hs
  unfold Vehicle.soloRoute
  rw [← hs]
  refine evaluatePath_congr M _ _ 0 (by simp) ?_
  rw [hN, h.nodes_eq]
  rfl

/-- The order fits when the route with this order alone has no violation. -/
theorem isOrderFeasible_iff (ho : o.Typed) (hopen : v.front.opens ≤ v.front.closes)
    (htwv : v.userTwv = 0) (hcv : v.userCv = 0) :
    v.isOrderFeasible M o = true ↔ NoViolation v.capacity (v.soloRoute M o) := by
  have hi := pushBack_spec (M := M) h.route ho
  have hs := hi.settled h.settled
  have hpath := h.pushBack_path ho
  have hothers := hi.others
  unfold Vehicle.isOrderFeasible
  generalize v.pushBack M o = w at *
  have hcap : w.capacity = v.capacity := by rw [hothers]
  have hspeed : w.speed = v.speed := by rw [hothers]
  have hfront : w.front.toTwNode = v.front.toTwNode := by
    rw [front_of_path hpath]
    rfl
  rw [← hcap, ← hspeed] at hs
  rw [isFeasible_iff hs (by rw [hfront]; exact hopen) (by rw [hothers]; exact htwv)
    (by rw [hothers]; exact hcv), hpath, hcap]

end Vacant

/-! ### The early exits -/

section Exits
variable {M : Matrix} {v : Vehicle} {o : Order} (hM : NonnegTravel M v.speed)
include hM

theorem evaluate_later (n pred : VehicleNode) (hn : 0 ≤ n.serviceTime) (cap : ℕ) :
    pred.departureTime ≤ (n.evaluate M pred cap v.speed).arrivalTime ∧
      (n.evaluate M pred cap v.speed).arrivalTime ≤ (n.evaluate M pred cap v.speed).departureTime ∧
      n.opens ≤ (n.evaluate M pred cap v.speed).departureTime := by
  have ht : 0 ≤ pred.travelTimeTo M n.toTwNode pred.departureTime v.speed :=
    hM pred.id n.id pred.departureTime
  have harrival := n.arrivalTime_evaluate M pred cap v.speed
  rw [VehicleNode.departureTime_evaluate]
  omega

/-- **The early exits discard no order that fits.** -/
theorem accepts_of_noViolation (hs : 0 ≤ v.front.serviceTime) (hp : 0 ≤ o.pickup.serviceTime)
    (hd : 0 ≤ o.delivery.serviceTime) (hnd : o.delivery.type ≠ .kDump) (hnb : v.back.type ≠ .kDump)
    (h : NoViolation v.capacity (v.soloRoute M o)) :
    o.pickup.opens ≤ v.back.closes ∧ v.front.opens ≤ o.delivery.closes := by
  let s := v.front.evaluateStart v.capacity
  let p := o.pickup.evaluate M s v.capacity v.speed
  let d := o.delivery.evaluate M p v.capacity v.speed
  let e := v.back.evaluate M d v.capacity v.speed
  have hroute : v.soloRoute M o = [s, p, d, e] := rfl
  rw [hroute] at h
  obtain ⟨h1, h2, h3⟩ : s.departureTime ≤ p.arrivalTime ∧ p.arrivalTime ≤ p.departureTime ∧
      o.pickup.opens ≤ p.departureTime := evaluate_later hM o.pickup s hp v.capacity
  obtain ⟨h4, h5, -⟩ : p.departureTime ≤ d.arrivalTime ∧ d.arrivalTime ≤ d.departureTime ∧
      o.delivery.opens ≤ d.departureTime := evaluate_later hM o.delivery p hd v.capacity
  have h6 : d.departureTime ≤ e.arrivalTime := le_add_of_nonneg_right (hM d.id v.back.id _)
  have hnode : d.toTwNode = o.delivery.toTwNode := VehicleNode.toTwNode_evaluate M _ _ _ _ hnd
  have hnode' : e.toTwNode = v.back.toTwNode := VehicleNode.toTwNode_evaluate M _ _ _ _ hnb
  have hlate : ¬ d.arrivalTime > o.delivery.closes := by
    rw [← hnode]
    exact of_decide_eq_false (h d (by simp)).1
  have hlate' : ¬ e.arrivalTime > v.back.closes := by
    rw [← hnode']
    exact of_decide_eq_false (h e (by simp)).1
  have h0 : s.departureTime = v.front.opens + v.front.serviceTime := rfl
  omega

end Exits

/-! ### The table of a built problem -/

namespace Made

variable {M : Matrix} {newStops : List ShortVehicle} {orders : Orders} {nodes k : ℕ} {v : Vehicle}
  {d : VehicleT} (h : Made M newStops orders nodes v k d)
include h

theorem vacant : Vacant M v := by
  obtain ⟨n, -, hv⟩ := h
  rw [hv]
  exact ⟨⟨_, _, rfl, rfl, rfl⟩, rfl⟩

/-- The sites of the vehicle are those of its description. -/
theorem sites : v.front.opens = d.startOpenT ∧ v.front.closes = d.startCloseT ∧
    v.front.serviceTime = d.startServiceT ∧ v.userTwv = 0 ∧ v.userCv = 0 := by
  obtain ⟨n, -, hv⟩ := h
  rw [hv]
  exact ⟨rfl, rfl, rfl, rfl, rfl⟩

end Made

namespace PickDeliver.Built

variable {S : Sorter} {M : Matrix} {pOrders : List OrdersT} {pVehicles : List VehicleT}
  {newStops : List ShortVehicle} {p : PickDeliver} (h : p.Built S M pOrders pVehicles newStops)
include h

/-- The nodes of an order are those of its data. -/
theorem exists_orderData {i : ℕ} (hi : i < p.orders.length) : ∃ d ∈ pOrders,
    (p.orders.get i).pickup.toTwNode = .ofOrder (2 * i) d .kPickup ∧
    (p.orders.get i).delivery.toTwNode = .ofOrder (2 * i + 1) d .kDelivery := by
  have hi' : i < (S.sort ordersLt pOrders).length := by
    rw [S.length_sort, ← h.length]
    exact hi
  refine ⟨_, (S.mem_sort _).mp (List.getElem_mem hi'), ?_, ?_⟩
  · rw [← h.orders.pickup, sortedOrders, Orders.get_ofData hi']
    rfl
  · rw [← h.orders.delivery, sortedOrders, Orders.get_ofData hi']
    rfl

/-- A vehicle takes an order when the route with this order alone has no violation. -/
theorem mem_feasibleOrders_iff {v : Vehicle} (hv : v ∈ p.trucks.vehicles)
    (hM : NonnegTravel M v.speed)
    (hservice : ∀ d ∈ pOrders, 0 ≤ d.pickServiceT ∧ 0 ≤ d.deliverServiceT)
    (hstart : ∀ d ∈ pVehicles, 0 ≤ d.startServiceT) {i : ℕ} :
    i ∈ v.feasibleOrders ↔
      i < p.orders.length ∧ NoViolation v.capacity (v.soloRoute M (p.orders.get i)) := by
  obtain ⟨first, rest, -, hf⟩ := h.fleet
  obtain ⟨k, hk, rfl⟩ := List.getElem_of_mem hv
  have hget := List.getElem?_eq_getElem hk
  generalize p.trucks.vehicles[k] = v at *
  obtain ⟨d, hmade, hd⟩ := h.made_at hget
  obtain ⟨hopens, hcloses, hservices, htwv, hcv⟩ := hmade.sites
  have hdesc : d.startOpenT ≤ d.startCloseT ∧ 0 ≤ d.startServiceT := by
    rcases hd with ⟨hd, -⟩ | ⟨first, -, rfl⟩
    · exact ⟨(h.legal d hd).1, hstart d hd⟩
    · exact ⟨show (0 : ℤ) ≤ infinity by decide, le_rfl⟩
  rw [hf.feasible k v hget i]
  refine and_congr_right fun hi => ?_
  have ho := h.wellFormed.typed i hi
  have hiff := hmade.vacant.isOrderFeasible_iff ho (by omega) htwv hcv
  rw [← hiff]
  unfold Vehicle.takes Vehicle.accepts
  constructor
  · intro ht
    rcases Bool.or_eq_true_iff.mp ht with ht | ht
    · exact (Bool.and_eq_true_iff.mp ht).2
    · exact (Bool.and_eq_true_iff.mp ht).2
  · intro hfit
    obtain ⟨data, hdata, hp, hdel⟩ := h.exists_orderData hi
    obtain ⟨h1, h2⟩ := hservice data hdata
    have hp' : (p.orders.get i).pickup.serviceTime = data.pickServiceT := by rw [hp]; rfl
    have hdel' : (p.orders.get i).delivery.serviceTime = data.deliverServiceT := by rw [hdel]; rfl
    obtain ⟨hexit, hexit'⟩ := accepts_of_noViolation hM (by omega) (by omega) (by omega)
      (by rw [ho.delivery]; simp) (by rw [hmade.vacant.types.2]; simp) (hiff.mp hfit)
    rw [hfit, decide_eq_false (by omega), decide_eq_false (by omega)]
    rfl

end PickDeliver.Built

/-- **The vehicle compatibility table is exact.** -/
theorem compatible_vehicles_exact {S : Sorter} {M : Matrix} {pOrders : List OrdersT}
    {pVehicles : List VehicleT} {newStops : List ShortVehicle} {p : PickDeliver}
    (hp : PickDeliver.build S M pOrders pVehicles newStops = .ok p)
    (hM : ∀ v ∈ p.trucks.vehicles, NonnegTravel M v.speed)
    (hservice : ∀ d ∈ pOrders, 0 ≤ d.pickServiceT ∧ 0 ≤ d.deliverServiceT)
    (hstart : ∀ d ∈ pVehicles, 0 ≤ d.startServiceT) :
    (∀ v ∈ p.trucks.vehicles, ∀ i, i ∈ v.feasibleOrders ↔
      i < p.orders.length ∧ NoViolation v.capacity (v.soloRoute M (p.orders.get i))) ∧
    p.getPgCompatibleVehicles = (p.trucks.vehicles.filter fun v => !v.isPhony).flatMap fun v =>
      ((List.range p.orders.length).filter fun i =>
        decide (NoViolation v.capacity (v.soloRoute M (p.orders.get i)))).map fun i =>
          ⟨(p.orders.get i).id, v.id⟩ := by
  have hb := PickDeliver.build_built hp
  have htable : ∀ v ∈ p.trucks.vehicles, ∀ i, i ∈ v.feasibleOrders ↔
      i < p.orders.length ∧ NoViolation v.capacity (v.soloRoute M (p.orders.get i)) :=
    fun v hv i => hb.mem_feasibleOrders_iff hv (hM v hv) hservice hstart
  refine ⟨htable, ?_⟩
  unfold PickDeliver.getPgCompatibleVehicles
  refine List.flatMap_congr fun v hv => ?_
  have hset : v.feasibleOrders = (Identifiers.upTo p.orders.length).filter fun i =>
      decide (NoViolation v.capacity (v.soloRoute M (p.orders.get i))) :=
    Identifiers.ext_iff.mpr fun i => by
      rw [htable v (List.mem_filter.mp hv).1, Identifiers.mem_filter, Identifiers.mem_upTo,
        decide_eq_true_eq]
  rw [hset]
  rfl

/-- One order on one vehicle and on the phony one; a second order closes too early for both. -/
theorem compatible_vehicles_exact_small : ∃ p,
    PickDeliver.build .insertion twoSites [smallOrderData 1 100, smallOrderData 2 3]
      [smallVehicleData 7 []] [] = .ok p ∧
    p.getPgCompatibleVehicles = [⟨1, 7⟩] ∧
    ∀ v ∈ p.trucks.vehicles, ∀ i, i ∈ v.feasibleOrders ↔
      i < p.orders.length ∧ NoViolation v.capacity (v.soloRoute twoSites (p.orders.get i)) := by
  obtain ⟨p, hp, htest⟩ := exists_ok_and (x := PickDeliver.build .insertion twoSites
    [smallOrderData 1 100, smallOrderData 2 3] [smallVehicleData 7 []] [])
    (fun p => decide (p.getPgCompatibleVehicles = [⟨1, 7⟩] ∧ ∀ v ∈ p.trucks.vehicles, v.speed = 1))
    (by decide +kernel)
  obtain ⟨hlist, hspeed⟩ := of_decide_eq_true htest
  have htravel : ∀ i j t, 0 ≤ twoSites.travelTime i j t :=
    Matrix.travelTime_nonneg Matrix.twoSites_nonneg (Or.inl rfl)
  refine ⟨p, hp, hlist, (compatible_vehicles_exact hp (fun v hv => ?_) (by decide) (by decide)).1⟩
  rw [hspeed v hv]
  exact nonnegTravel_of_travelTime htravel zero_le_one

end VrpRouting
