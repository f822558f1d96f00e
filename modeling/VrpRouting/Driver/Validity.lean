import VrpRouting.Driver.Lookups
import VrpRouting.Driver.Reachable
import VrpRouting.Pgdata.Fetchers

/-! # Valid nodes

The tests of the nodes (`isStart`, …) ask for `opens < closes`, the fetchers and `add_vehicle` for
`opens ≤ closes`. So the nodes of accepted rows are valid, every reachable route starts and ends with
a valid site, and the stops that it lists are those of orders, exactly when no window is a single
instant (`accepted_valid_iff`). -/

open Sorting

namespace VrpRouting

/-! ### Nodes of rows -/

/-- No window of the order is a single instant. -/
def OrdersT.StrictWindows (o : OrdersT) : Prop :=
  o.pickOpenT < o.pickCloseT ∧ o.deliverOpenT < o.deliverCloseT

/-- No window of the sites is a single instant. -/
def VehicleT.StrictWindows (d : VehicleT) : Prop :=
  d.startOpenT < d.startCloseT ∧ d.endOpenT < d.endCloseT

theorem OrdersT.Accepted.isValid_iff {o : OrdersT} (h : o.Accepted) (idx : ℕ) :
    ((TwNode.ofOrder idx o .kPickup).isValid = true ∧
      (TwNode.ofOrder idx o .kDelivery).isValid = true) ↔ o.StrictWindows := by
  have h1 := h.demand
  have h2 := h.pickService
  have h3 := h.deliverService
  simp only [TwNode.isValid, TwNode.ofOrder, TwNode.isPickup, TwNode.isDelivery, reduceCtorEq,
    if_true, if_false, true_and, decide_eq_true_eq, OrdersT.StrictWindows]
  omega

theorem VehicleT.Accepted.isValid_iff {d : VehicleT} (h : d.Accepted) (idx : ℕ) :
    ((TwNode.ofVehicle idx d .kStart).isValid = true ∧
      (TwNode.ofVehicle idx d .kEnd).isValid = true) ↔ d.StrictWindows := by
  have h1 := h.startService
  have h2 := h.endService
  simp only [TwNode.isValid, TwNode.ofVehicle, TwNode.isStart, TwNode.isEnd, reduceCtorEq,
    if_true, if_false, true_and, and_true, decide_eq_true_eq, VehicleT.StrictWindows]
  constructor
  · intro hw
    exact ⟨hw.1.1, hw.2.1⟩
  · intro hw
    exact ⟨⟨hw.1, h1⟩, hw.2, h2⟩

theorem VehicleT.StrictWindows.proper {d : VehicleT} (h : d.StrictWindows) (ha : d.Accepted) :
    d.Proper := ⟨⟨h.1, ha.startService⟩, h.2, ha.endService⟩

theorem proper_phonyVehicle (first : VehicleT) : (Fleet.phonyVehicle first).Proper :=
  ⟨⟨by show (0 : ℤ) < infinity; decide, le_rfl⟩, by show (0 : ℤ) < infinity; decide, le_rfl⟩

/-- The nodes that the rows give are valid. -/
structure NodesValid (pOrders : List OrdersT) (pVehicles : List VehicleT) : Prop where
  orders : ∀ o ∈ pOrders, ∀ idx, (TwNode.ofOrder idx o .kPickup).isValid = true ∧
    (TwNode.ofOrder idx o .kDelivery).isValid = true
  vehicles : ∀ d ∈ pVehicles, ∀ idx, (TwNode.ofVehicle idx d .kStart).isValid = true ∧
    (TwNode.ofVehicle idx d .kEnd).isValid = true

/-! ### Vehicles -/

/-- The assertions of `Vehicle::invariant`. -/
def Vehicle.invariant (v : Vehicle) : Bool := decide (2 ≤ v.size) && v.front.isStart && v.back.isEnd

/-- `get_stops` lists stops of orders on the path. -/
def Vehicle.ListsOrders (orders : Orders) (v : Vehicle) : Prop :=
  ∃ stops : List TwNode, stops.Sublist (nodesOf v.path) ∧ v.getStops = stops.map TwNode.order ∧
    ∀ t ∈ stops, ∃ i < orders.length, t ∈ (orders.get i).stops

namespace TruckRoute

variable {M : Matrix} {orders : Orders} {u v : Vehicle} (h : TruckRoute M orders u v)
  (ho : orders.WellFormed) (hu : ∀ t ∈ nodesOf u.path, (t.isStart || t.isEnd) = true)
include h hu

section Sites
include ho

/-- A site of the route is a site of the truck, and recognised. -/
theorem recognised {t : TwNode} (ht : t ∈ nodesOf v.path) (hs : t.type = .kStart ∨ t.type = .kEnd) :
    (t.isStart || t.isEnd) = true := by
  rcases h.nodes t ht with htu | ⟨i, hi, hstop⟩
  · exact hu t htu
  · have htyped := ho.typed i hi
    rcases List.mem_pair.mp hstop with rfl | rfl
    · rw [htyped.pickup] at hs
      simp at hs
    · rw [htyped.delivery] at hs
      simp at hs

theorem invariant : v.invariant = true := by
  obtain ⟨s, mids, e, hN, hs, he, -⟩ := h.route.route
  have hstart := h.recognised ho hu (t := s) (by simp [hN]) (Or.inl hs)
  have hend := h.recognised ho hu (t := e) (by simp [hN]) (Or.inr he)
  obtain ⟨x, path, hp, rfl, hpath⟩ := List.map_eq_cons_iff.mp hN
  obtain ⟨ms, es, rfl, -, hes⟩ := List.map_eq_append_iff.mp hpath
  obtain ⟨y, rest, rfl, rfl, hnil⟩ := List.map_eq_cons_iff.mp hes
  obtain rfl := List.map_eq_nil_iff.mp hnil
  have hfront : v.front = x := front_of_path hp
  have hback : v.back = y := back_of_path (hp.trans (List.cons_append ..).symm)
  have hsize : 2 ≤ v.size := by
    unfold Vehicle.size
    rw [hp]
    simp
  have h1 : x.isEnd = false := by simp [TwNode.isEnd, hs]
  have h2 : y.isStart = false := by simp [TwNode.isStart, he]
  unfold Vehicle.invariant
  rw [hfront, hback]
  simp only [h1, h2, Bool.or_false, Bool.false_or] at hstart hend
  simp [hsize, hstart, hend]

end Sites

theorem listsOrders : v.ListsOrders orders := by
  unfold Vehicle.ListsOrders Vehicle.getStops
  split_ifs
  · exact ⟨[], List.nil_sublist _, rfl, by simp⟩
  · refine ⟨(v.path.filter fun s => !(s.isStart || s.isEnd)).map VehicleNode.toTwNode,
      List.filter_sublist.map _, by rw [List.map_map]; rfl, fun t ht => ?_⟩
    obtain ⟨s, hs, rfl⟩ := List.mem_map.mp ht
    obtain ⟨hs, hsite⟩ := List.mem_filter.mp hs
    rcases h.nodes s.toTwNode (List.mem_map_of_mem hs) with hsu | hstop
    · rw [hu _ hsu] at hsite
      cases hsite
    · exact hstop

end TruckRoute

/-- The sites of the trucks of a problem are recognised. -/
theorem PickDeliver.Built.recognised {S : Sorter} {M : Matrix} {pOrders : List OrdersT}
    {pVehicles : List VehicleT} {newStops : List ShortVehicle} {p : PickDeliver}
    (hb : p.Built S M pOrders pVehicles newStops) (hd : ∀ d ∈ pVehicles, d.Proper) {u : Vehicle}
    (hu : p.HasTruck u) : ∀ t ∈ nodesOf u.path, (t.isStart || t.isEnd) = true := by
  obtain ⟨k, d, hm, hmem | ⟨first, -, rfl⟩⟩ := hb.exists_made hu
  · exact hm.recognised (hd d hmem.1)
  · exact hm.recognised (proper_phonyVehicle first)

/-- **The nodes of accepted rows are valid**, and with them every reachable route, exactly when no
window is a single instant. -/
theorem accepted_valid_iff {S : Sorter} {M : Matrix} {pOrders : List OrdersT}
    {pVehicles : List VehicleT} {newStops : List ShortVehicle} {p : PickDeliver}
    (ho : ∀ o ∈ pOrders, o.Fetched) (hv : ∀ d ∈ pVehicles, d.Fetched)
    (hp : PickDeliver.build S M pOrders pVehicles newStops = .ok p) :
    (NodesValid pOrders pVehicles ∧ ∀ F, Reachable S M p F → ∀ v ∈ F,
      v.invariant = true ∧ v.ListsOrders p.orders) ↔
    (∀ o ∈ pOrders, o.StrictWindows) ∧ ∀ d ∈ pVehicles, d.StrictWindows := by
  constructor
  · rintro ⟨hvalid, -⟩
    exact ⟨fun o hmem => ((ho o hmem).accepted.isValid_iff 0).mp (hvalid.orders o hmem 0),
      fun d hmem => ((hv d hmem).accepted.isValid_iff 0).mp (hvalid.vehicles d hmem 0)⟩
  · rintro ⟨hos, hvs⟩
    have hb := PickDeliver.build_built hp
    refine ⟨⟨fun o hmem idx => ((ho o hmem).accepted.isValid_iff idx).mpr (hos o hmem),
      fun d hmem idx => ((hv d hmem).accepted.isValid_iff idx).mpr (hvs d hmem)⟩, ?_⟩
    intro F hF v hmem
    obtain ⟨u, hu, hroute⟩ := hF.onTruckRoutes hb v hmem
    have hsites := hb.recognised (fun d hd => (hvs d hd).proper (hv d hd).accepted) hu
    exact ⟨hroute.invariant hb.wellFormed hsites, hroute.listsOrders hsites⟩

/-! ### Rows with and without an instant -/

/-- The row of an order from the site 1 to the site 2, both open until `close`. -/
def smallOrderTuple (id close : ℤ) : Tuple :=
  [("id", .int8 (some (.ofInt id))), ("amount", .int4 (some 1)), ("p_id", .int8 (some 1)),
    ("p_open", .int8 (some 0)), ("p_close", .int8 (some (.ofInt close))), ("d_id", .int8 (some 2)),
    ("d_open", .int8 (some 0)), ("d_close", .int8 (some (.ofInt close)))]

/-- The row of a vehicle of capacity 1 at the site 1, which it can leave until `close`. -/
def smallVehicleTuple (id close : ℤ) : Tuple :=
  [("id", .int8 (some (.ofInt id))), ("capacity", .int4 (some 1)), ("s_id", .int8 (some 1)),
    ("s_open", .int8 (some 0)), ("s_close", .int8 (some (.ofInt close))),
    ("e_open", .int8 (some 0)), ("e_close", .int8 (some 100))]

theorem smallOrderData_fetched : (smallOrderData 1 100).Fetched :=
  ⟨fun t => t, false, false, smallOrderTuple 1 100, smallOrderData 1 100, 1, 2, by decide +kernel, rfl⟩

theorem smallVehicleData_fetched : (smallVehicleData 7 []).Fetched :=
  ⟨fun t => t, false, false, false, smallVehicleTuple 7 100, smallVehicleData 7 [], 1, 1,
    by decide +kernel, rfl⟩

theorem accepted_valid_small : ∃ p,
    PickDeliver.build .insertion twoSites [smallOrderData 1 100] [smallVehicleData 7 []] [] = .ok p ∧
    NodesValid [smallOrderData 1 100] [smallVehicleData 7 []] ∧
    ∀ F, Reachable .insertion twoSites p F → ∀ v ∈ F,
      v.invariant = true ∧ v.ListsOrders p.orders := by
  obtain ⟨p, hp⟩ := exists_ok (x := PickDeliver.build .insertion twoSites [smallOrderData 1 100]
    [smallVehicleData 7 []] []) (by decide +kernel)
  have hvalid := (accepted_valid_iff
    (List.forall_mem_singleton.mpr smallOrderData_fetched)
    (List.forall_mem_singleton.mpr smallVehicleData_fetched) hp).mpr
    ⟨List.forall_mem_singleton.mpr (by unfold OrdersT.StrictWindows; decide),
      List.forall_mem_singleton.mpr (by unfold VehicleT.StrictWindows; decide)⟩
  exact ⟨p, hp, hvalid⟩

/-- A vehicle that can leave its site at one instant only: the site is no start, and is listed as a
stop of the order 0, which there is not. -/
theorem accepted_invalid : ∃ d p, d.Fetched ∧
    PickDeliver.build .insertion twoSites [smallOrderData 1 100] [d] [] = .ok p ∧
    ¬ NodesValid [smallOrderData 1 100] [d] ∧
    ∃ F, Reachable .insertion twoSites p F ∧ ∃ v ∈ F,
      v.invariant = false ∧ v.getStops = [0] ∧ 0 ∉ p.orders.map Order.id := by
  let d := { smallVehicleData 7 [] with startCloseT := 0 }
  obtain ⟨p, hp, htest⟩ := exists_ok_and (x := PickDeliver.build .insertion twoSites
    [smallOrderData 1 100] [d] []) (fun p => p.trucks.vehicles.any fun v =>
      !v.invariant && decide (v.getStops = [0] ∧ 0 ∉ p.orders.map Order.id)) (by decide +kernel)
  obtain ⟨v, hv, htest⟩ := List.any_eq_true.mp htest
  obtain ⟨hinv, hlists⟩ := (Bool.and_eq_true _ _).mp htest
  refine ⟨d, p, ⟨fun t => t, false, false, false, smallVehicleTuple 7 0, d, 1, 1,
    by decide +kernel, rfl⟩, hp, fun h => ?_, _, .trucks, v, hv, by simpa using hinv,
    of_decide_eq_true hlists⟩
  have := (h.vehicles d List.mem_cons_self 0).1
  revert this
  decide

end VrpRouting
