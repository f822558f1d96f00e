import VrpRouting.InitialSol.GivenSolution

/-! # The vehicles that no order left over fits in

When the user's solution leaves orders over, the constructor of the tabu `Initial_solution` means to
mark all orders unmovable on the used vehicles where none of them is feasible. At that moment the
fleet consists of the used trucks, and no truck is ever noted as used: the loop visits no vehicle, and
the trucks join the fleet behind it. The documented result is there exactly when such a vehicle has
nothing to move anyway (`freezes_iff`). -/

open Sorting

namespace VrpRouting

section Vehicle
variable (M : Matrix) (orders : Orders) (date : ℤ) (optimize : Bool)

/-- The order is picked up before the execution date. -/
def PickedBefore (i : ℕ) : Prop :=
  (orders.get i).pickup.isPickup = true ∧ (orders.get i).pickup.opens < date

/-- The vehicle carries the order, and not from before the execution date. -/
def MayMove (v : Vehicle) (i : ℕ) : Prop :=
  i < orders.length ∧ Carries (orders.get i) v ∧ ¬ PickedBefore orders date i

/-- The user's solution leaves nothing to move: its route is infeasible and is to be optimized, so that
the movable orders are taken off, or all its orders are picked up before the execution date. -/
def NothingToMove (u : Vehicle) : Prop :=
  (optimize = true ∧ (u.userRoute M orders).isFeasible = false) ∨
    ∀ i, Visited orders u i → PickedBefore orders date i

instance (i : ℕ) : Decidable (PickedBefore orders date i) := inferInstanceAs (Decidable (_ ∧ _))

variable {M orders date optimize}

theorem UserResult.nothing_movable_iff (ho : orders.WellFormed) (hn : orders.Named) {u : Vehicle}
    (hu : Fresh M orders u) (htwice : ∀ oId, u.stops.count oId = 0 ∨ u.stops.count oId = 2)
    {sets : Assignment} {r : Vehicle × Assignment}
    (h : UserResult M orders u sets date (u.lostOrders M orders date optimize) r) :
    (∀ i, i ∉ r.1.ordersInVehicle) ↔ NothingToMove M orders date optimize u := by
  have hfeasible : ((u.userRoute M orders).setUnmovable date).isFeasible =
      (u.userRoute M orders).isFeasible := rfl
  have hlost : u.lostOrders M orders date optimize =
      if ((u.userRoute M orders).isFeasible || !optimize) = true then []
      else ((u.userRoute M orders).setUnmovable date).ordersInVehicle.ids := rfl
  unfold NothingToMove
  by_cases hinf : optimize = true ∧ (u.userRoute M orders).isFeasible = false
  · -- all movable orders are lost
    rw [if_neg (by simp [hinf.1, hinf.2])] at hlost
    refine iff_of_true (fun i hi => ?_) (Or.inl hinf)
    obtain ⟨hmov, hgone⟩ := (h.movable i).mp hi
    exact hgone (hlost ▸ hmov)
  · have hkeep : ((u.userRoute M orders).isFeasible || !optimize) = true := by
      cases optimize
      · simp
      · simpa using hinf
    rw [if_pos hkeep] at hlost
    rw [or_iff_right hinf]
    refine forall_congr' fun i => ?_
    rw [h.movable, hlost, Vehicle.setUnmovable, Identifiers.mem_diff, mem_userRoute ho hu]
    simp only [List.not_mem_nil, not_false_eq_true, and_true, not_and, not_not]
    refine imp_congr_right fun hvis => mem_unmovable ho hu hn ?_
    refine (count_of_twice ho htwice i).resolve_left fun h0 => ?_
    unfold Visited at hvis
    omega

end Vehicle

namespace Initialsol.Tabu.InitialSolution

variable {S : Sorter} {M : Matrix} {pOrders : List OrdersT} {pVehicles : List VehicleT}
  {newStops : List ShortVehicle} {p : PickDeliver} {date : ℤ} {optimize : Bool} {s : InitialSolution}

/-- The orders that are unassigned when the vehicles are to be marked. -/
def unassignedByUser (M : Matrix) (date : ℤ) (optimize : Bool) (p : PickDeliver) : Identifiers ℕ :=
  (processGivenSolutionFromUser M (start p) date optimize).unassigned

/-- A vehicle with stops of the user has nothing to move when none of the unassigned orders is
feasible on it, and keeps its movable orders otherwise. -/
structure FreezesUnaffected (M : Matrix) (date : ℤ) (optimize : Bool) (p : PickDeliver)
    (s : InitialSolution) : Prop where
  frozen : ∀ v ∈ s.fleet, v.isPhony = false → v.stops ≠ [] →
    (∀ o ∈ unassignedByUser M date optimize p, o ∉ v.feasibleOrders) → ∀ i, i ∉ v.ordersInVehicle
  kept : ∀ v ∈ s.fleet, v.isPhony = false → v.stops ≠ [] →
    (∃ o ∈ unassignedByUser M date optimize p, o ∈ v.feasibleOrders) →
    ∀ i, i ∈ v.ordersInVehicle ↔ MayMove p.orders date v i

section Fleet
variable (hb : p.Built S M pOrders pVehicles newStops)

theorem Served.same {u v : Vehicle} (h : Served M p date optimize u v) :
    v.isPhony = u.isPhony ∧ v.stops = u.stops ∧ v.feasibleOrders = u.feasibleOrders := by
  obtain ⟨sets, r, rfl, hr⟩ := h
  obtain ⟨path, movable, twv, cv, hothers⟩ := hr.others
  rw [hothers]
  exact ⟨rfl, rfl, rfl⟩

include hb

/-- A real vehicle of the constructed fleet is a usable truck with the user's solution. -/
theorem served_of_real (h : construct M date optimize p = .ok s) {v : Vehicle} (hv : v ∈ s.fleet)
    (hreal : v.isPhony = false) :
    ∃ u ∈ p.trucks.vehicles, u.isOk = true ∧ Served M p date optimize u v := by
  rcases mem_construct_fleet hb h v hv with ⟨-, hserved⟩ | ⟨u, w, hu, hs, o, -, rfl⟩
  · exact hserved
  · obtain ⟨first, rest, -, n, -, hm⟩ := made_phony hb hu
    have hphony : u.isPhony = true := by
      rw [hm]
      rfl
    have hcopy : (w.pushBack M (p.orders.get o)).isPhony = w.isPhony := rfl
    rw [hcopy, hs.same.1, hphony] at hreal
    cases hreal

/-- Every usable real truck is in the constructed fleet. -/
theorem exists_served (h : construct M date optimize p = .ok s) {u : Vehicle}
    (hu : u ∈ p.trucks.vehicles) (hok : u.isOk = true) (hreal : u.isPhony = false) :
    ∃ v ∈ s.fleet, Served M p date optimize u v := by
  obtain ⟨first, rest, -, hf⟩ := hb.fleet
  obtain ⟨-, -, hfleet⟩ := construct_fleet h hf.used
  have hserved := served_userFleet hb date optimize
  obtain ⟨k, hk, rfl⟩ := List.getElem_of_mem hu
  have hk' : k < (userFleet M date optimize p).1.vehicles.length := hserved.length_eq ▸ hk
  have hs : Served M p date optimize p.trucks.vehicles[k] (userFleet M date optimize p).1.vehicles[k] :=
    hserved.get hk hk'
  refine ⟨_, ?_, hs⟩
  rw [hfleet]
  refine List.mem_append_left _ (List.mem_filter.mpr ⟨List.mem_map.mpr ⟨k, ?_, ?_⟩, ?_⟩)
  · exact (hf.unused k).mpr ⟨_, List.getElem?_eq_getElem hk, hok⟩
  · exact Fleet.vehicle_eq_getElem hk'
  · rw [hs.same.1, hreal]
    rfl

end Fleet

/-- **When unaffected vehicles are frozen**: those that are to be frozen have nothing to move. -/
theorem freezes_iff (hp : PickDeliver.build S M pOrders pVehicles newStops = .ok p)
    (hw : WellFormedStops p.trucks.vehicles) (h : construct M date optimize p = .ok s) :
    ((∃ o, o ∈ unassignedByUser M date optimize p) → FreezesUnaffected M date optimize p s) ↔
      ((∃ o, LeftOver M p.orders date optimize p.trucks.vehicles p.trucks.feasibleOrders o) →
        ∀ u ∈ p.trucks.vehicles, u.isOk = true → u.isPhony = false → u.stops ≠ [] →
          (∀ o, LeftOver M p.orders date optimize p.trucks.vehicles p.trucks.feasibleOrders o →
            o ∉ u.feasibleOrders) →
          NothingToMove M p.orders date optimize u) := by
  have hb := PickDeliver.build_built hp
  have hun : ∀ o, o ∈ unassignedByUser M date optimize p ↔
      LeftOver M p.orders date optimize p.trucks.vehicles p.trucks.feasibleOrders o :=
    (userFleet_sets hb hw date optimize).2
  simp only [← hun]
  refine imp_congr_right fun _ => ?_
  constructor
  · intro hfreezes u hu hok hreal hstops hnone
    obtain ⟨v, hv, hs⟩ := exists_served hb h hu hok hreal
    obtain ⟨h1, h2, h3⟩ := hs.same
    have hempty := hfreezes.frozen v hv (h1.trans hreal) (h2 ▸ hstops) (h3 ▸ hnone)
    obtain ⟨sets, r, rfl, hr⟩ := hs
    exact (hr.nothing_movable_iff hb.wellFormed hb.named (hb.fresh u hu) (hw.twice u hu)).mp hempty
  · intro hnothing
    constructor
    · intro v hv hreal hstops hnone
      obtain ⟨u, hu, hok, hs⟩ := served_of_real hb h hv hreal
      obtain ⟨h1, h2, h3⟩ := hs.same
      have hu' := hnothing u hu hok (h1 ▸ hreal) (h2 ▸ hstops) (h3 ▸ hnone)
      obtain ⟨sets, r, rfl, hr⟩ := hs
      exact (hr.nothing_movable_iff hb.wellFormed hb.named (hb.fresh u hu) (hw.twice u hu)).mpr hu'
    · intro v hv hreal _ _ i
      obtain ⟨u, hu, -, sets, r, rfl, hr⟩ := served_of_real hb h hv hreal
      exact hr.movable_iff hb.wellFormed hb.named (hb.fresh u hu)
        (count_of_twice hb.wellFormed (hw.twice u hu) i)

/-! ### A large order -/

/-- An order for the vehicle of capacity 1, and one that is too large for it. -/
def largeOrders : List OrdersT := [smallOrderData 1 100, { smallOrderData 2 100 with demand := 2 }]

/-- At the date 5 the first order is picked up. -/
theorem freezes_past : ∃ p s, PickDeliver.build .insertion twoSites largeOrders
      [smallVehicleData 7 [1, 1]] [] = .ok p ∧ construct twoSites 5 true p = .ok s ∧
    1 ∈ unassignedByUser twoSites 5 true p ∧ FreezesUnaffected twoSites 5 true p s := by
  obtain ⟨p, hp, h⟩ := exists_ok_and (x := PickDeliver.build .insertion twoSites largeOrders
    [smallVehicleData 7 [1, 1]] [])
    (fun p => decide ((∀ v ∈ p.trucks.vehicles, v.stops = [1, 1] ∨ v.stops = []) ∧
      (p.trucks.vehicles.Pairwise fun (v w : Vehicle) => ∀ oId ∈ v.stops, oId ∉ w.stops) ∧
      (∀ u ∈ p.trucks.vehicles, ∀ i ∈ stopIdxs p.orders u.stops, PickedBefore p.orders 5 i) ∧
      1 ∈ (unassignedByUser twoSites 5 true p).ids) &&
      (construct twoSites 5 true p).isOk) (by decide +kernel)
  obtain ⟨hdata, hok⟩ := Bool.and_eq_true_iff.mp h
  obtain ⟨hlists, hapart, hbefore, hun⟩ := of_decide_eq_true hdata
  obtain ⟨s, hs⟩ := exists_ok hok
  have hw : WellFormedStops p.trucks.vehicles := ⟨fun v hv => twice_of_pair (hlists v hv), hapart⟩
  refine ⟨p, s, hp, hs, hun, (freezes_iff hp hw hs).mpr (fun _ u hu _ _ _ _ => ?_) ⟨1, hun⟩⟩
  exact Or.inr fun i hvis => hbefore u hu i hvis.mem

/-- At the date 0 it can still be moved, although the second order does not fit in the vehicle. -/
theorem not_frozen : ∃ p s, PickDeliver.build .insertion twoSites largeOrders
      [smallVehicleData 7 [1, 1]] [] = .ok p ∧ WellFormedStops p.trucks.vehicles ∧
    construct twoSites 0 true p = .ok s ∧ (unassignedByUser twoSites 0 true p).ids = [1] ∧
    (∃ v ∈ s.fleet, v.isPhony = false ∧ v.stops = [1, 1] ∧ v.feasibleOrders.ids = [0] ∧
      v.ordersInVehicle.ids = [0]) ∧
    ¬ FreezesUnaffected twoSites 0 true p s := by
  obtain ⟨p, hp, h⟩ := exists_ok_and (x := PickDeliver.build .insertion twoSites largeOrders
    [smallVehicleData 7 [1, 1]] [])
    (fun p => decide ((∀ v ∈ p.trucks.vehicles, v.stops = [1, 1] ∨ v.stops = []) ∧
      (p.trucks.vehicles.Pairwise fun (v w : Vehicle) => ∀ oId ∈ v.stops, oId ∉ w.stops) ∧
      (unassignedByUser twoSites 0 true p).ids = [1]) &&
      (construct twoSites 0 true p).toOption.any fun (s : InitialSolution) => decide (∃ v ∈ s.fleet,
        v.isPhony = false ∧ v.stops = [1, 1] ∧ v.feasibleOrders.ids = [0] ∧
        v.ordersInVehicle.ids = [0]))
    (by decide +kernel)
  obtain ⟨hdata, hany⟩ := Bool.and_eq_true_iff.mp h
  obtain ⟨hlists, hapart, hun⟩ := of_decide_eq_true hdata
  obtain ⟨s, hs, hfound⟩ := exists_ok_and _ hany
  obtain ⟨v, hv, hreal, hstops, hfeasible, hmovable⟩ := of_decide_eq_true hfound
  have hw : WellFormedStops p.trucks.vehicles := ⟨fun v hv => twice_of_pair (hlists v hv), hapart⟩
  refine ⟨p, s, hp, hw, hs, hun, ⟨v, hv, hreal, hstops, hfeasible, hmovable⟩, fun hfreezes => ?_⟩
  have hnone : ∀ o ∈ unassignedByUser twoSites 0 true p, o ∉ v.feasibleOrders := by
    intro o ho hmem
    have ho' : o ∈ [1] := hun ▸ ho
    have hmem' : o ∈ [0] := hfeasible ▸ hmem
    simp only [List.mem_singleton] at ho' hmem'
    omega
  have hempty := hfreezes.frozen v hv hreal (by rw [hstops]; exact List.cons_ne_nil _ _) hnone 0
  exact hempty (show 0 ∈ v.ordersInVehicle.ids by rw [hmovable]; exact List.mem_singleton_self 0)

end Initialsol.Tabu.InitialSolution

end VrpRouting
