import VrpRouting.Driver.InputOrder
import VrpRouting.Driver.Processing
import VrpRouting.InitialSol.Placement
import VrpRouting.Optimizers.Conservation
import VrpRouting.Optimizers.TruckRoutes
import VrpRouting.Problem.OrderRows

/-! # Every order is served once

From the rows of the inner queries to the rows of the reply: in a reply of `vrp_pickDeliver` an order
has the row of its pickup and, behind it on the same vehicle, that of its delivery, or no row at all;
and it has no row exactly when the construction of the initial solution places it nowhere
(`vrpDoPickDeliver_serves`). -/

open Sorting

namespace VrpRouting

open Optimizers.Tabu Initialsol.Tabu.InitialSolution
open Initialsol.Tabu (InitialSolution)

/-! ### The initial solution -/

/-- The construction places the order: it stays on a usable vehicle, or is left over and fits in the
phony one. -/
def PlacesOrder (M : Matrix) (date : ℤ) (optimize : Bool) (p : PickDeliver) (i : ℕ) : Prop :=
  OnTruck M date optimize p i ∨
    LeftOver M p.orders date optimize p.trucks.vehicles p.trucks.feasibleOrders i ∧
      p.trucks.getPhony.isOrderFeasible M (p.orders.get i) = true

section Initial
variable {S : Sorter} {M : Matrix} {pOrders : List OrdersT} {pVehicles : List VehicleT}
  {newStops : List ShortVehicle} {p : PickDeliver} (hb : p.Built S M pOrders pVehicles newStops)
  (hw : WellFormedStops p.trucks.vehicles) (hn : NoPhonyStops newStops) {date : ℤ} {optimize : Bool}
  {s : InitialSolution} (h : construct M date optimize p = .ok s)
include hb hw hn h

theorem carriers_construct_le {i : ℕ} (hi : i < p.orders.length) :
    carriers (p.orders.get i) s.fleet ≤ 1 := by
  obtain ⟨first, rest, -, hf⟩ := hb.fleet
  obtain ⟨-, -, hfleet⟩ := construct_fleet h hf.used
  obtain ⟨-, hphony⟩ := getPhony_userFleet hb date optimize hn
  obtain ⟨hone, hzero⟩ := carriers_getUnusedTrucks hb hw date optimize hi
  obtain ⟨hcopies, -⟩ := carriers_copies hb hn hi _ (placed_lt hb date optimize)
  rw [hphony] at hfleet
  have hsum : carriers (p.orders.get i) s.fleet =
      carriers (p.orders.get i) (userFleet M date optimize p).1.getUnusedTrucks +
        (placedOrders M date optimize p).count i := by
    rw [hfleet, ← hcopies]
    exact List.countP_append
  by_cases ht : OnTruck M date optimize p i
  · have hnot : i ∉ placedOrders M date optimize p := fun hin => by
      obtain ⟨v, hv, -, -, hk⟩ := ht
      have hleft := ((userFleet_sets hb hw date optimize).2 i).mp (List.mem_filter.mp hin).1
      exact not_kept_of_leftOver hb hw hleft v hv hk
    rw [hsum, hone ht, List.count_eq_zero.mpr hnot]
  · have hnodup : (placedOrders M date optimize p).Nodup := (Identifiers.nodup _).filter _
    rw [hsum, hzero ht, Nat.zero_add]
    exact List.nodup_iff_count_le_one.mp hnodup i

/-- The vehicles of the constructed solution. -/
theorem construct_wellPlaced : WellPlaced p.orders s.fleet := by
  obtain ⟨first, rest, -, hf⟩ := hb.fleet
  obtain ⟨horders, -, hfleet⟩ := construct_fleet h hf.used
  have hwhole : ∀ v ∈ s.fleet, ∀ i < p.orders.length,
      Carries (p.orders.get i) v ∨ Free (p.orders.get i) v := fun v hv i hi =>
    (carriers_construct hb hw hn h hi).2 v hv
  refine ⟨hwhole, fun i hi => carriers_construct_le hb hw hn h hi, fun v hv i hi => ?_,
    fun v hv hphony i hi hc => ?_⟩
  · have hlt : i < p.orders.length := horders ▸ ((construct_valid hb h).fleet v hv).movable i hi
    refine ⟨hlt, (hwhole v hv i hlt).resolve_right fun hfree => ?_⟩
    -- a movable order has stops on the path
    have hheld := construct_held hb h v hv i hi
    rw [horders, hfree] at hheld
    simp [Order.stops] at hheld
  · obtain ⟨hlast, heq⟩ := getPhony_userFleet hb date optimize hn
    rw [hfleet, heq] at hv
    rcases List.mem_append.mp hv with hv | hv
    · rw [(mem_getUnusedTrucks hb hv).1] at hphony
      cases hphony
    · obtain ⟨o, ho, rfl⟩ := List.mem_map.mp hv
      have hlt := placed_lt hb date optimize o ho
      have hfresh := hb.fresh _ (List.mem_of_getLast? hlast)
      have hgained := gained_of_inserted hb.wellFormed hlt
        (pushBack_spec (M := M) hfresh.route.route (hb.wellFormed.typed o hlt)) (hfresh.free o hlt)
      rcases (hgained.carries_iff hi).mp hc with rfl | hc
      · exact (hgained.movable i).mpr (Or.inl rfl)
      · exact absurd hc (hfresh.free i hi).not_carries

/-- The order is on one vehicle when it is placed, else on none. -/
theorem carriers_construct_eq {i : ℕ} (hi : i < p.orders.length) :
    (PlacesOrder M date optimize p i → carriers (p.orders.get i) s.fleet = 1) ∧
    (¬ PlacesOrder M date optimize p i → carriers (p.orders.get i) s.fleet = 0) := by
  have hiff : carriers (p.orders.get i) s.fleet = 1 ↔ PlacesOrder M date optimize p i :=
    (carriers_construct hb hw hn h hi).1
  have hle := carriers_construct_le hb hw hn h hi
  refine ⟨hiff.mpr, fun hnot => ?_⟩
  have hne : carriers (p.orders.get i) s.fleet ≠ 1 := fun hone => hnot (hiff.mp hone)
  omega

end Initial

/-- The search conserves the orders. -/
theorem construct_conserves (S : Sorter) (M : Matrix) {sol : Solution} (hv : sol.Valid)
    (hp : WellPlaced sol.orders sol.fleet) (maxCycles : ℕ) (stopOnAllServed optimize : Bool) :
    SameOrders sol.orders sol.fleet
      (Optimize.construct S M sol maxCycles stopOnAllServed optimize).fleet := by
  have hperm := started_perm S sol maxCycles stopOnAllServed optimize
  obtain ⟨-, s, hs, hfleet, -⟩ := hv.run_invariant S M maxCycles stopOnAllServed optimize
    (P := View.Conserves sol.orders sol.fleet) (fun _ _ hr hs hst => hst.conserves hv.orders hr hs)
    ⟨hp.perm hperm.symm, hp, fun i _ => carriers_perm hperm, fun _ _ => rfl⟩
  rw [hfleet]
  exact hs.sameOrders.2

/-! ### The listed stops -/

/-- On the stops that the vehicles get, an order is listed twice on one vehicle, or not at all. -/
structure ListedStops (newStops : List ShortVehicle) (vehicles : List VehicleT) : Prop where
  twice : ∀ d ∈ vehicles, ∀ x, (Fleet.stopsFor newStops d).count x = 0 ∨
    (Fleet.stopsFor newStops d).count x = 2
  apart : vehicles.Pairwise fun d e =>
    ∀ x ∈ Fleet.stopsFor newStops d, x ∉ Fleet.stopsFor newStops e

/-- The copies of the vehicles list their orders apart: a vehicle with several copies has no stops. -/
theorem apart_copies {newStops : List ShortVehicle} {l : List VehicleT}
    (h : l.Pairwise fun d e => ∀ x ∈ Fleet.stopsFor newStops d, x ∉ Fleet.stopsFor newStops e) :
    (copies l).Pairwise fun d e =>
      ∀ x ∈ Fleet.stopsFor newStops d, x ∉ Fleet.stopsFor newStops e := by
  unfold copies
  refine List.pairwise_flatMap.mpr ⟨fun d _ => ?_, h.imp fun {d e} hde d' hd' e' he' => ?_⟩
  · by_cases hone : d.cantV = 1
    · rw [hone]
      exact List.pairwise_singleton _ _
    · refine List.pairwise_replicate.mpr (Or.inr fun x hx => ?_)
      rw [stopsFor_eq, if_neg hone] at hx
      cases hx
  · rw [(List.mem_replicate.mp hd').2, (List.mem_replicate.mp he').2]
    exact hde

section Stops
variable {S : Sorter} {M : Matrix} {pOrders : List OrdersT} {pVehicles : List VehicleT}
  {newStops : List ShortVehicle} {p : PickDeliver} (hb : p.Built S M pOrders pVehicles newStops)
include hb

theorem ListedStops.wellFormed (h : ListedStops newStops pVehicles) (hn : NoPhonyStops newStops) :
    WellFormedStops p.trucks.vehicles := by
  obtain ⟨first, rest, hsort, hf⟩ := hb.fleet
  have hmap : p.trucks.vehicles.map Vehicle.stops =
      (copies (first :: rest) ++ [Fleet.phonyVehicle first]).map (Fleet.stopsFor newStops) :=
    hf.made.map_eq fun v k d _ hm => by
      obtain ⟨n, -, hv⟩ := hm
      rw [hv]
      rfl
  have hnone := hn.stopsFor first
  constructor
  · intro v hv x
    have hmem : v.stops ∈ p.trucks.vehicles.map Vehicle.stops := List.mem_map_of_mem hv
    rw [hmap] at hmem
    obtain ⟨d, hd, hds⟩ := List.mem_map.mp hmem
    rw [← hds]
    rcases List.mem_append.mp hd with hd | hd
    · obtain ⟨e, he, hd⟩ := List.mem_flatMap.mp hd
      rw [(List.mem_replicate.mp hd).2]
      exact h.twice e ((S.mem_sort _).mp (hsort ▸ he)) x
    · rw [List.mem_singleton.mp hd, hnone]
      exact Or.inl rfl
  · have hperm : (first :: rest).Perm pVehicles := hsort ▸ S.perm vehicleLt pVehicles
    have hapart : (first :: rest).Pairwise fun d e =>
        ∀ x ∈ Fleet.stopsFor newStops d, x ∉ Fleet.stopsFor newStops e :=
      (hperm.pairwise_iff fun hab x hx hx' => hab x hx' hx).mpr h.apart
    have hlists : (p.trucks.vehicles.map Vehicle.stops).Pairwise fun a b => ∀ x ∈ a, x ∉ b := by
      rw [hmap]
      refine List.pairwise_map.mpr (List.pairwise_append.mpr ⟨apart_copies hapart,
        List.pairwise_singleton _ _, fun d _ e he x _ hx' => ?_⟩)
      rw [List.mem_singleton.mp he, hnone] at hx'
      cases hx'
    exact List.pairwise_map.mp hlists

/-! ### The reply -/

/-- A truck on a route stops at its sites and at stops of orders. -/
theorem TruckRoute.knownStops {u v : Vehicle} (hu : p.HasTruck u) (h : TruckRoute M p.orders u v) :
    KnownStops p.orders v := by
  intro t ht
  refine (h.nodes t ht).imp_left fun htu => ⟨?_, fun i hi => ?_⟩
  · obtain ⟨k, d, hm, -⟩ := hb.exists_made hu
    obtain ⟨n, -, hN⟩ := hm.nodesOf
    rw [hN] at htu
    rcases List.mem_pair.mp htu with rfl | rfl
    · exact Or.inl rfl
    · exact Or.inr rfl
  · have hfree := (hb.fresh u hu).free i hi
    have hnone := List.filter_eq_nil_iff.mp hfree t htu
    exact Bool.eq_false_iff.mpr hnone

/-- The identifier of a truck is that of a given vehicle, or −1. -/
theorem PickDeliver.HasTruck.id_eq {u : Vehicle} (hu : p.HasTruck u) :
    u.id = -1 ∨ ∃ d ∈ pVehicles, d.id = u.id := by
  obtain ⟨k, d, ⟨n, -, hm⟩, hd⟩ := hb.exists_made hu
  have hid : u.id = d.id := by rw [hm]; rfl
  rcases hd with ⟨hd, -⟩ | ⟨first, -, rfl⟩
  · exact Or.inr ⟨d, hd, hid.symm⟩
  · exact Or.inl hid

/-- An order of the data, with its index. -/
theorem PickDeliver.Built.exists_index {o : OrdersT} (ho : o ∈ pOrders) :
    ∃ i < p.orders.length, (p.orders.get i).id = o.id ∧ (p.orders.get i).pickup.id = o.pickNodeId ∧
      (p.orders.get i).delivery.id = o.deliverNodeId := by
  obtain ⟨i, hi, rfl⟩ := List.getElem_of_mem ((S.mem_sort ordersLt).mpr ho)
  have hlt : i < p.orders.length := by
    rw [hb.length]
    rwa [S.length_sort] at hi
  refine ⟨i, hlt, ?_⟩
  rw [← hb.orders.pickup, ← hb.orders.delivery, ← hb.orders.id, sortedOrders, Orders.get_ofData hi]
  exact ⟨rfl, rfl, rfl⟩

end Stops

namespace Driver

/-- What the rows say about the orders: each one that is placed is served once, with a given vehicle
or a phony one, and no other row is that of a pickup or a delivery. -/
structure ServesOrders (M : Matrix) (date : ℤ) (optimize : Bool) (p : PickDeliver)
    (orders : List OrdersT) (vehicles : List VehicleT) (rows : List SolutionRt) : Prop where
  order : ∀ o ∈ orders, ∃ i < p.orders.length, ((p.orders.get i).id = o.id ∧
    (p.orders.get i).pickup.id = o.pickNodeId ∧ (p.orders.get i).delivery.id = o.deliverNodeId) ∧
    (PlacesOrder M date optimize p i → ∃ vehicleId, (vehicleId = -1 ∨ ∃ d ∈ vehicles, d.id = vehicleId) ∧
      ServesOnce (p.orders.get i) vehicleId rows) ∧
    (¬ PlacesOrder M date optimize p i → orderRows o.id rows = [])
  row : ∀ r ∈ rows, r.stopType = 1 ∨ r.stopType = 2 → ∃ o ∈ orders, r.orderId = o.id

section Reply
variable {S : Sorter} {M : Matrix} {orders : List OrdersT} {vehicles : List VehicleT}
  {p : PickDeliver}

/-- The rows of the solution that the search finds. -/
theorem search_serves (hp : PickDeliver.build S M orders vehicles [] = .ok p)
    (hids : (orders.map OrdersT.id).Nodup) (hstops : ListedStops [] vehicles) {date : ℤ}
    {optimize : Bool} {s : InitialSolution} (h : construct M date optimize p = .ok s) (maxCycles : ℕ)
    (stopOnAllServed : Bool) :
    let sol := (Optimize.construct S M s.toSolution maxCycles stopOnAllServed optimize).toSolution
    ServesOrders M date optimize p orders vehicles (sol.getPostgresResult M) := by
  intro sol
  have hb := PickDeliver.build_built hp
  have hn : NoPhonyStops [] := fun v hv => by simp at hv
  have hw := hstops.wellFormed hb hn
  have hv := construct_valid hb h
  obtain ⟨first, rest, -, hf⟩ := hb.fleet
  obtain ⟨horders, -, -⟩ := construct_fleet h hf.used
  have hplaced := construct_wellPlaced hb hw hn h
  -- the search conserves the orders and keeps the trucks on routes
  obtain ⟨-, hroutes⟩ := run_onTruckRoutes S hv
    (horders.symm ▸ (construct_onTruckRoutes hb h).mono fun _ hu => hu.hasTruck) maxCycles
    stopOnAllServed optimize
  have hsame := construct_conserves S M hv (horders.symm ▸ hplaced) maxCycles stopOnAllServed optimize
  rw [horders] at hroutes hsame
  have hF : ∀ v ∈ sol.fleet, NoDump v.path ∧ KnownStops p.orders v := fun v hv => by
    obtain ⟨u, hu, hroute⟩ := hroutes v hv
    exact ⟨hroute.route.noDump, hroute.knownStops hb hu⟩
  have hd := hb.distinct hids
  constructor
  · intro o ho
    obtain ⟨i, hi, hdata⟩ := hb.exists_index ho
    obtain ⟨hone, hzero⟩ := sol.serves_of_carriers M hb.wellFormed hb.named hd hF hi
      fun v hv => hsame.whole v hv i hi
    obtain ⟨h1, h0⟩ := carriers_construct_eq hb hw hn h hi
    refine ⟨i, hi, hdata, fun hpl => ?_, fun hpl => ?_⟩
    · obtain ⟨v, hv, -, hs⟩ := hone ((hsame.same i hi).trans (h1 hpl))
      obtain ⟨u, hu, hroute⟩ := hroutes v hv
      exact ⟨v.id, hroute.id ▸ PickDeliver.HasTruck.id_eq hb hu, hs⟩
    · rw [← hdata.1]
      exact hzero ((hsame.same i hi).trans (h0 hpl))
  · intro r hr hk
    obtain ⟨i, hi, hid⟩ := sol.exists_order_of_row M hb.named hF hr hk
    obtain ⟨o, ho, hoid⟩ := List.mem_map.mp (hb.mem_ids.mpr ⟨i, hi, rfl⟩)
    exact ⟨o, ho, hid.trans hoid.symm⟩

/-- **A reply of `vrp_pickDeliver` serves every order once, or not at all**, and the latter exactly
when the initial solution does not place it. -/
theorem vrpDoPickDeliver_serves {toUtc : ℤ → ℤ} {q : Queries} {args : Parameters}
    {costs : List MatrixCell} {multipliers : List TimeMultipliersT}
    (hq : q.Fetches toUtc args.isEuclidean args.useTimestamps args.withStops orders vehicles costs
      multipliers) (hids : (orders.map OrdersT.id).Nodup) (hstops : ListedStops [] vehicles)
    {rows : List SolutionRt} (h : vrpDoPickDeliver S toUtc q args = .ok (.tuples rows)) :
    ∃ M p, timedMatrix S orders vehicles costs multipliers args.factor = .ok M ∧
      PickDeliver.build S M orders vehicles [] = .ok p ∧
      ServesOrders M (if args.useTimestamps then toUtc args.executionDate else args.executionDate)
        args.optimize p orders vehicles rows := by
  rw [hq.vrpDoPickDeliver_eq] at h
  obtain ⟨-, M, p, s, hM, hp, hs, rfl⟩ := pickDeliverOn_eq_tuples h
  exact ⟨M, p, hM, hp, search_serves hp hids hstops hs _ _⟩

end Reply

theorem vrpDoPickDeliver_serves_small : ∃ rows M p,
    vrpDoPickDeliver .insertion (fun t => t) smallQueries smallParameters = .ok (.tuples rows) ∧
    ServesOrders M 0 true p [smallOrderData 1 100, smallOrderData 2 100] [smallVehicleData 7 []]
      rows := by
  have hok : ((vrpDoPickDeliver .insertion (fun t => t) smallQueries smallParameters).toOption.any
      fun r => match r with
        | .tuples _ => true
        | _ => false) = true := by decide +kernel
  obtain ⟨r, hr, hrows⟩ := exists_ok_and _ hok
  cases r with
  | notice text => cases hrows
  | err text => cases hrows
  | tuples rows =>
    have hstops : ListedStops [] [smallVehicleData 7 []] :=
      ⟨fun d hd x => Or.inl (by rw [List.mem_singleton.mp hd]; rfl), List.pairwise_singleton _ _⟩
    obtain ⟨M, p, -, -, h⟩ := vrpDoPickDeliver_serves smallQueries_fetches (by decide) hstops hr
    exact ⟨rows, M, p, hr, h⟩

end Driver

end VrpRouting
