import VrpRouting.InitialSol.Passes

/-! # The routes of the trucks

Every vehicle that the programs make is a truck of the problem on some route (`TruckRoute`): an
evaluated path from the starting to the ending site of the truck over nodes of orders. Here this is
shown for the edits of a route, for the user's solution, and for the two initial solutions. -/

open Sorting

namespace VrpRouting

/-- `v` is the truck `u` on another route. -/
structure TruckRoute (M : Matrix) (orders : Orders) (u v : Vehicle) : Prop where
  id : v.id = u.id
  speed : v.speed = u.speed
  knows : v.orders = u.orders
  route : RouteOf orders v
  settled : Settled M v.capacity v.speed 0 v.path
  nodes : ∀ t ∈ nodesOf v.path, t ∈ nodesOf u.path ∨ ∃ i < orders.length, t ∈ (orders.get i).stops

namespace TruckRoute

variable {M : Matrix} {orders : Orders} {u v w : Vehicle} {i : ℕ}

theorem of_fresh (h : Fresh M orders u) : TruckRoute M orders u u where
  id := rfl
  speed := rfl
  knows := rfl
  route := h.route
  settled := h.settled
  nodes _ ht := Or.inl ht

/-- Another path for a vehicle. -/
theorem edit (h : TruckRoute M orders u v) (hw : ∃ path movable,
    w = { v with path := path, ordersInVehicle := movable }) (hr : RouteOf orders w)
    (hs : Settled M v.capacity v.speed 0 w.path)
    (hn : ∀ t ∈ nodesOf w.path, t ∈ nodesOf v.path ∨ ∃ i < orders.length,
      t ∈ (orders.get i).stops) : TruckRoute M orders u w := by
  obtain ⟨path, movable, rfl⟩ := hw
  exact ⟨h.id, h.speed, h.knows, hr, hs, fun t ht => (hn t ht).elim (h.nodes t) Or.inr⟩

theorem loaded (h : TruckRoute M orders u v) (ho : orders.WellFormed) (hi : i < orders.length)
    (hw : Loaded M v (orders.get i) w) : TruckRoute M orders u w := by
  refine h.edit ⟨_, _, hw.others⟩ (h.route.loaded hi ho hw) (hw.settled h.settled) fun t ht => ?_
  obtain ⟨p, d, -, -, -, -, hN⟩ := hw.positions
  rw [hN] at ht
  rcases List.eq_or_mem_of_mem_insertIdx ht with rfl | ht
  · exact Or.inr ⟨i, hi, by simp [Order.stops]⟩
  · rcases List.eq_or_mem_of_mem_insertIdx ht with rfl | ht
    · exact Or.inr ⟨i, hi, by simp [Order.stops]⟩
    · exact Or.inl ht

/-- An evaluated vehicle does not change when it is evaluated again. -/
theorem unchanged (h : TruckRoute M orders u v) (hw : Unchanged M v w) : TruckRoute M orders u w := by
  obtain rfl := hw.settled h.settled
  exact h

theorem eraseOrder (h : TruckRoute M orders u v) (hi : i < orders.length) :
    TruckRoute M orders u (v.eraseOrder M (orders.get i)) := by
  refine h.edit ⟨_, _, eraseOrder_others⟩ (h.route.eraseOrder hi)
    (eraseOrder_settled h.route.noDump h.settled) fun t ht => Or.inl ?_
  rw [eraseOrder_nodes h.route.noDump] at ht
  exact List.mem_of_mem_eraseP (List.mem_of_mem_eraseP ht)

/-- The user's solution on a truck. -/
theorem of_user {sets : Assignment} {date : ℤ} {gone : List ℕ} {r : Vehicle × Assignment}
    (h : UserResult M orders u sets date gone r) : TruckRoute M orders u r.1 := by
  have hroute := h.route
  have hsettled := h.settled
  have hnodes : ∀ t ∈ nodesOf r.1.path, t ∈ nodesOf u.path ∨ ∃ i < orders.length,
      t ∈ (orders.get i).stops := fun t ht => by
    refine (h.nodes t ht).imp_right fun ⟨i, hi, hti⟩ => ⟨i, hi, ?_⟩
    have hmem : t ∈ visits (orders.get i) (nodesOf r.1.path) := List.mem_filter.mpr ⟨ht, hti⟩
    rw [h.visits i hi] at hmem
    obtain ⟨j, -, rfl⟩ := List.mem_map.mp (List.mem_of_mem_drop hmem)
    unfold visitNode Order.stops
    split_ifs <;> simp
  obtain ⟨path, movable, twv, cv, hr⟩ := h.others
  rw [hr] at hroute hsettled hnodes ⊢
  exact ⟨rfl, rfl, rfl, hroute, hsettled, hnodes⟩

/-- A truck whose sites are recognised lists the stops of orders only. -/
theorem mem_getStops (h : TruckRoute M orders u v) (hn : orders.Named)
    (hu : ∀ t ∈ nodesOf u.path, (t.isStart || t.isEnd) = true) {x : ℤ} (hx : x ∈ v.getStops) :
    ∃ i < orders.length, (orders.get i).id = x := by
  unfold Vehicle.getStops at hx
  split_ifs at hx
  · cases hx
  obtain ⟨s, hs, rfl⟩ := List.mem_map.mp hx
  obtain ⟨hs, hsite⟩ := List.mem_filter.mp hs
  rcases h.nodes s.toTwNode (List.mem_map_of_mem hs) with hs | ⟨i, hi, hs⟩
  · rw [hu _ hs] at hsite
    cases hsite
  · refine ⟨i, hi, ?_⟩
    rcases List.mem_pair.mp hs with hs | hs <;> rw [hs]
    · exact (hn i hi).1.symm
    · exact (hn i hi).2.symm

end TruckRoute

/-- The vehicle is one of the trucks on some route. -/
def OnTruckRoute (M : Matrix) (orders : Orders) (truck : Vehicle → Prop) (v : Vehicle) : Prop :=
  ∃ u, truck u ∧ TruckRoute M orders u v

theorem OnTruckRoute.movable {M : Matrix} {orders : Orders} {truck : Vehicle → Prop} {v : Vehicle}
    (h : OnTruckRoute M orders truck v) {i : ℕ} (hi : i ∈ v.ordersInVehicle) : i < orders.length := by
  obtain ⟨u, -, hv⟩ := h
  exact hv.route.movable i hi

/-- Every vehicle is one of the trucks on some route. -/
def OnTruckRoutes (M : Matrix) (orders : Orders) (truck : Vehicle → Prop) (F : List Vehicle) : Prop :=
  ∀ v ∈ F, OnTruckRoute M orders truck v

theorem OnTruckRoutes.mono {M : Matrix} {orders : Orders} {truck truck' : Vehicle → Prop}
    {F : List Vehicle} (h : OnTruckRoutes M orders truck F) (hsub : ∀ u, truck u → truck' u) :
    OnTruckRoutes M orders truck' F := fun v hv => by
  obtain ⟨u, hu, hv⟩ := h v hv
  exact ⟨u, hsub u hu, hv⟩

/-- `u` is a vehicle of the problem. -/
def PickDeliver.HasTruck (p : PickDeliver) (u : Vehicle) : Prop := u ∈ p.trucks.vehicles

section Initial
variable {S : Sorter} {M : Matrix} {pOrders : List OrdersT} {pVehicles : List VehicleT}
  {newStops : List ShortVehicle} {p : PickDeliver} (hb : p.Built S M pOrders pVehicles newStops)
include hb

theorem PickDeliver.Built.onTruckRoutes :
    OnTruckRoutes M p.orders p.HasTruck p.trucks.vehicles := fun v hv =>
  ⟨v, hv, .of_fresh (hb.fresh v hv)⟩

/-! ### The initial solution of the tabu search -/

namespace Initialsol.Tabu.InitialSolution

variable {date : ℤ} {optimize : Bool} {s : InitialSolution}

/-- The trucks that the construction takes: the usable real ones, and the phony one when an order is
left over. -/
def Taken (M : Matrix) (date : ℤ) (optimize : Bool) (p : PickDeliver) (u : Vehicle) : Prop :=
  (u ∈ p.trucks.vehicles ∧ u.isPhony = false ∧ u.isOk = true) ∨
    (p.trucks.vehicles.getLast? = some u ∧ placedOrders M date optimize p ≠ [])

omit hb in
theorem Taken.hasTruck {M : Matrix} {p : PickDeliver} {u : Vehicle} {date : ℤ} {optimize : Bool}
    (h : Taken M date optimize p u) : p.HasTruck u :=
  h.elim And.left fun h => List.mem_of_getLast? h.1

/-- The trucks with the user's solution. -/
theorem userFleet_onTruckRoutes :
    OnTruckRoutes M p.orders p.HasTruck (userFleet M date optimize p).1.vehicles := fun v hv => by
  obtain ⟨u, hu, sets, r, rfl, hr⟩ :=
    ListEdit.exists_mem_of_forall₂ (served_userFleet hb date optimize) hv
  exact ⟨u, hu, .of_user hr⟩

theorem construct_onTruckRoutes (h : construct M date optimize p = .ok s) :
    OnTruckRoutes M p.orders (Taken M date optimize p) s.fleet := fun v hv => by
  rcases mem_construct_fleet hb h v hv with ⟨hreal, u, hu, hok, sets, r, rfl, hr⟩ |
    ⟨u, w, hu, ⟨sets, r, rfl, hr⟩, o, ho, rfl⟩
  · have hroute := TruckRoute.of_user hr
    unfold Vehicle.isPhony at hreal
    rw [hroute.id] at hreal
    exact ⟨u, Or.inl ⟨hu, hreal, hok⟩, hroute⟩
  · have hlt := placed_lt hb date optimize o ho
    exact ⟨u, Or.inr ⟨hu, List.ne_nil_of_mem ho⟩, (TruckRoute.of_user hr).loaded hb.wellFormed hlt
      (pushBack_spec hr.route.route (hb.wellFormed.typed o hlt)).loaded⟩

end Initialsol.Tabu.InitialSolution

/-! ### The simple initial solutions -/

namespace Initialsol.Simple.InitialSolution

omit hb in
/-- Insertions and undone insertions keep the truck on a route. -/
theorem feasibleLoop_truckRoute {s : InitialSolution} (ho : s.orders.WellFormed) (kind : InitialsCode)
    {u : Vehicle} : ∀ (passes : ℕ) {l : FeasibleLoop}, TruckRoute M s.orders u l.vehicle →
    (∀ i ∈ l.currentFeasible, i < s.orders.length) →
    TruckRoute M s.orders u (s.feasibleLoop M kind passes l).vehicle
  | 0, _, h, _ => h
  | passes + 1, l, h, hlt => by
    unfold feasibleLoop
    cases hne : l.currentFeasible.isEmpty with
    | true => exact h
    | false =>
      obtain ⟨o, ho', hnext, -⟩ := exists_nextOrder s kind hne
      have hinsert : TruckRoute M s.orders u (insertByKind M kind l.vehicle (s.orders.get o)) := by
        rcases insertByKind_spec M kind h.route.route (ho.typed o (hlt o ho')) with
          ⟨-, hl, -⟩ | ⟨-, hu⟩
        · exact h.loaded ho (hlt o ho') hl
        · exact h.unchanged hu
      rw [if_neg Bool.false_ne_true]
      split_ifs
      · dsimp only
        rw [hnext]
        exact hinsert
      · refine feasibleLoop_truckRoute ho kind passes ?_ ?_
        · unfold feasibleStep
          dsimp only
          rw [hnext]
          split_ifs
          · exact hinsert.eraseOrder (hlt o ho')
          · exact hinsert
          · exact hinsert
        · unfold feasibleStep
          dsimp only
          intro i hi
          split_ifs at hi
          · exact hlt i (Identifiers.mem_erase.mp hi).1
          · exact hlt i (narrow_subset s kind _ (Identifiers.mem_erase.mp hi).1)
          · exact hlt i (Identifiers.mem_erase.mp hi).1

/-- One pass. -/
theorem Step.onTruckRoutes {kind : InitialsCode} {s s' : InitialSolution} (hs : OfProblem p s)
    (hF : OnTruckRoutes M p.orders p.HasTruck s.fleet) (h : Step M kind s s') :
    OnTruckRoutes M p.orders p.HasTruck s'.fleet := by
  obtain ⟨-, h⟩ := h
  obtain ⟨⟨t, f⟩, hg, h⟩ := bind_eq_ok h
  obtain rfl := Except.ok.inj h
  have ht : t ∈ p.trucks.vehicles := hs.trucks ▸ (getTruck_spec hg).1
  have hroute : TruckRoute M s.orders t t := hs.orders ▸ .of_fresh (hb.fresh t ht)
  intro v hv
  rcases List.mem_append.mp hv with hv | hv
  · exact hF v hv
  · obtain rfl := List.mem_singleton.mp hv
    refine ⟨t, ht, hs.orders ▸ ?_⟩
    exact feasibleLoop_truckRoute (s := { s with trucks := f }) (hs.orders ▸ hb.wellFormed) kind _
      hroute fun i hi => hs.orders ▸ hs.known i (Identifiers.mem_inter.mp hi).2

theorem Reached.onTruckRoutes {kind : InitialsCode} {s : InitialSolution} (h : Reached M kind p s) :
    OnTruckRoutes M p.orders p.HasTruck s.fleet := by
  induction h with
  | refl => exact fun v hv => absurd hv List.not_mem_nil
  | tail hr hst ih => exact hst.onTruckRoutes hb (Reached.ofProblem hb hr) ih

end Initialsol.Simple.InitialSolution

end Initial

end VrpRouting
