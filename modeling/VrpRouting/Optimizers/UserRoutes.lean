import Mathlib.Data.List.Forall2
import VrpRouting.InitialSol.Construction
import VrpRouting.Optimizers.Runs

/-! # The user's routes without optimization

With `optimize = false` the search ends after `move_2_real`, which only serves orders of phony
vehicles. So every real vehicle keeps the nodes of the user's stops in their order (`KeepsRoute`),
gets nodes of orders that were on phony vehicles, and has no more violations than the user's stops
had: `set_initial_solution` accepts these, and no insertion exceeds what is accepted. -/

open Sorting

namespace VrpRouting

/-- `w` is the vehicle `u` with the nodes of the user's stops and some of the orders `Z`. -/
structure KeepsRoute (M : Matrix) (orders : Orders) (Z : ℕ → Prop) (u w : Vehicle) : Prop where
  idx : w.idx = u.idx
  id : w.id = u.id
  sublist : (nodesOf (u.userRoute M orders).path).Sublist (nodesOf w.path)
  added : ∃ rest, (nodesOf w.path).Perm (nodesOf (u.userRoute M orders).path ++ rest) ∧
    ∀ t ∈ rest, ∃ i < orders.length, Z i ∧ isNodeOf (orders.get i) t = true
  twvTot : w.twvTot ≤ (u.userRoute M orders).twvTot
  cvTot : w.cvTot ≤ (u.userRoute M orders).cvTot
  userTwv : w.userTwv ≤ (u.userRoute M orders).twvTot
  userCv : w.userCv ≤ (u.userRoute M orders).cvTot

section User
variable {M : Matrix} {orders : Orders} {Z : ℕ → Prop} {u v w : Vehicle} {o : ℕ}

theorem twvTot_le_userTwv (h : w.isFeasible = true) : w.twvTot ≤ w.userTwv ∧ w.cvTot ≤ w.userCv := by
  simpa [Vehicle.isFeasible, Vehicle.hasTwv, Vehicle.hasCv] using h

/-- Without optimization the user's stops stay on the vehicle. -/
theorem setInitialSolution_keepsRoute (ho : orders.WellFormed) (hu : Fresh M orders u)
    (sets : Assignment) (date : ℤ) :
    KeepsRoute M orders Z u (u.setInitialSolution M orders sets date false).1 := by
  obtain ⟨hpath, htwv, hcv⟩ := setInitialSolution_path ho hu sets date
  obtain ⟨path, movable, twv, cv, hothers⟩ :=
    (setInitialSolution_spec ho hu sets date false).others
  refine ⟨by rw [hothers], by rw [hothers], ?_, ⟨[], ?_, by simp⟩, ?_, ?_, htwv, hcv⟩
  · rw [hpath]
  · rw [hpath, List.append_nil]
  · unfold Vehicle.twvTot Vehicle.back
    rw [hpath]
  · unfold Vehicle.cvTot Vehicle.back
    rw [hpath]

/-- An insertion keeps the user's route. -/
theorem KeepsRoute.inserted (h : KeepsRoute M orders Z u v) (hlt : o < orders.length) (hz : Z o)
    (hw : Inserted M v (orders.get o) w) (hf : w.isFeasible = true) :
    KeepsRoute M orders Z u w := by
  obtain ⟨p, d, -, hpd, hd, hN⟩ := hw.positions
  obtain ⟨rest, hperm, hrest⟩ := h.added
  obtain ⟨htwv, hcv⟩ := twvTot_le_userTwv hf
  have hidx : w.idx = v.idx := by rw [hw.others]
  have hid : w.id = v.id := by rw [hw.others]
  have htwv' : w.userTwv = v.userTwv := by rw [hw.others]
  have hcv' : w.userCv = v.userCv := by rw [hw.others]
  have hp : p ≤ (nodesOf v.path).length := by
    rw [length_nodesOf]
    omega
  have hd' : d ≤ ((nodesOf v.path).insertIdx p (orders.get o).pickup.toTwNode).length := by
    rw [List.length_insertIdx_of_le_length hp, length_nodesOf]
    omega
  refine ⟨hidx.trans h.idx, hid.trans h.id, ?_, ⟨(orders.get o).delivery.toTwNode ::
    (orders.get o).pickup.toTwNode :: rest, ?_, ?_⟩, ?_, ?_, htwv' ▸ h.userTwv, hcv' ▸ h.userCv⟩
  · rw [hN]
    exact h.sublist.trans ((List.sublist_insertIdx ..).trans (List.sublist_insertIdx ..))
  · rw [hN]
    refine (List.perm_insertIdx _ _ hd').trans (.trans (.cons _ ?_) List.perm_middle.symm)
    exact (List.perm_insertIdx _ _ hp).trans ((hperm.cons _).trans List.perm_middle.symm)
  · rintro t (_ | ⟨_, _ | ⟨_, ht⟩⟩)
    · exact ⟨o, hlt, hz, by simp [isNodeOf]⟩
    · exact ⟨o, hlt, hz, by simp [isNodeOf]⟩
    · exact hrest t ht
  · exact htwv.trans (htwv' ▸ h.userTwv)
  · exact hcv.trans (hcv' ▸ h.userCv)

end User

/-! ### The fleet of the search -/

/-- The vehicles that are not phony. -/
def realVehicles (F : List Vehicle) : List Vehicle := F.filter fun v => !v.isPhony

namespace Optimizers.Tabu

/-- The invariant of `move_2_real`, for the trucks `us` of the user. -/
structure View.KeepsRoutes (M : Matrix) (orders : Orders) (Z : ℕ → Prop) (us : List Vehicle)
    (s : View) : Prop where
  phony : ∀ v ∈ s.fleet, v.isPhony = true → ∀ i ∈ v.ordersInVehicle, Z i
  fleet : Multiset.Rel (KeepsRoute M orders Z) us (realVehicles s.fleet)
  best : Multiset.Rel (KeepsRoute M orders Z) us (realVehicles s.best)

section Run
variable {M : Matrix} {orders : Orders} {Z : ℕ → Prop} {us : List Vehicle}

/-- **Serving an order keeps the user's routes.** -/
theorem Serving.keepsRoutes {s s' : View} (hr : s.Ready orders)
    (hs : s.KeepsRoutes M orders Z us) (h : Serving M orders s s') :
    s'.KeepsRoutes M orders Z us := by
  obtain @⟨a, b, b', R, F, o, hF, ha, hb, hao, -, hb', hf, hF'⟩ := h
  have ham : a ∈ s.fleet := hF.mem_iff.mpr (by simp)
  have hlt : o < orders.length := (hr.fleet a ham).movable o hao
  have hb'r : b'.isPhony = false := by
    rw [hb'.others]
    exact hb
  have hrel : Multiset.Rel (KeepsRoute M orders Z) us (realVehicles F) := by
    have h1 : (realVehicles s.fleet).Perm (b :: realVehicles R) := by
      refine (hF.filter _).trans (.of_eq ?_)
      simp [realVehicles, ha, hb]
    have h2 : (realVehicles F).Perm (b' :: realVehicles R) := by
      refine (hF'.filter _).trans (.of_eq ?_)
      simp [realVehicles, isPhony_eraseOrder, ha, hb'r]
    have hfleet := hs.fleet
    rw [Multiset.coe_eq_coe.mpr h1, ← Multiset.cons_coe, Multiset.rel_cons_right] at hfleet
    obtain ⟨u, us', hu, hus', hus⟩ := hfleet
    rw [Multiset.coe_eq_coe.mpr h2, ← Multiset.cons_coe, hus]
    exact .cons (hu.inserted hlt (hs.phony a ham ha o hao) hb' hf) hus'
  refine ⟨fun v hv hp i hi => ?_, hrel, hrel⟩
  rcases List.mem_cons.mp (hF'.mem_iff.mp hv) with rfl | hv
  · exact hs.phony a ham ha i (mem_of_mem_eraseOrder hi)
  · rcases List.mem_cons.mp hv with rfl | hv
    · rw [hb'r] at hp
      cases hp
    · exact hs.phony v (hF.mem_iff.mpr (by simp [hv])) hp i hi

theorem Served.keepsRoutes {o o' : Optimize} (hr : o.Ready) (h : Served M o o')
    (hs : o.view.KeepsRoutes M o.orders Z us) : o'.view.KeepsRoutes M o.orders Z us := by
  obtain ⟨-, -, hsteps⟩ := h
  have hrun : o'.view.Ready o.orders ∧ o'.view.KeepsRoutes M o.orders Z us := by
    generalize o'.view = s' at hsteps
    induction hsteps with
    | refl => exact ⟨hr.view, hs⟩
    | tail _ hst ih => exact ⟨hst.step.ready hr.orders ih.1, hst.keepsRoutes ih.1 ih.2⟩
  exact hrun.2

/-- Without optimization the constructor leaves the best fleet of `move_2_real`. -/
theorem construct_served (S : Sorter) {sol : Solution} (hv : sol.Valid) (maxCycles : ℕ)
    (stopOnAllServed : Bool) : ∃ o,
    Served M (started S sol maxCycles stopOnAllServed false) o ∧
      (Optimize.construct S M sol maxCycles stopOnAllServed false).fleet = o.bestSolution.fleet := by
  have h := (started S sol maxCycles stopOnAllServed false).move2Real_served M
    (hv.ready S maxCycles stopOnAllServed false)
  refine ⟨_, h, ?_⟩
  have hsearch : (Optimize.init sol maxCycles stopOnAllServed false).tabuSearch S M =
      ((started S sol maxCycles stopOnAllServed false).move2Real M).2.deleteEmptyTruck := by
    unfold Optimize.tabuSearch
    extract_lets o
    have hopt : o.optimize = false := h.optimize
    rw [hopt]
    rfl
  unfold Optimize.construct
  rw [hsearch]
  rfl

end Run

end Optimizers.Tabu

/-! ### The fleet of the initial solution -/

section Initial
open Initialsol.Tabu Initialsol.Tabu.InitialSolution

variable {S : Sorter} {M : Matrix} {pOrders : List OrdersT} {pVehicles : List VehicleT}
  {newStops : List ShortVehicle} {p : PickDeliver} (hb : p.Built S M pOrders pVehicles newStops)
  {date : ℤ} {optimize : Bool} {s : InitialSolution}
include hb

variable (date optimize) in
theorem isPhony_getPhony : (userFleet M date optimize p).1.getPhony.isPhony = true := by
  obtain ⟨u, hu, sets, r, hr, hres⟩ := served_getPhony hb date optimize
  obtain ⟨first, rest, -, n, -, hm⟩ := made_phony hb hu
  obtain ⟨path, movable, twv, cv, hothers⟩ := hres.others
  have hid : u.id = -1 := by
    rw [hm]
    rfl
  rw [hr, hothers]
  unfold Vehicle.isPhony
  simp [hid]

/-- The real vehicles at the start of the search are the usable trucks. -/
theorem realVehicles_construct (h : construct M date optimize p = .ok s) :
    realVehicles s.fleet = (userFleet M date optimize p).1.getUnusedTrucks := by
  obtain ⟨first, rest, -, hf⟩ := hb.fleet
  obtain ⟨-, -, hfleet⟩ := construct_fleet h hf.used
  have hphony := isPhony_getPhony hb date optimize
  rw [hfleet]
  unfold realVehicles
  rw [List.filter_append, List.filter_eq_self.mpr, List.filter_eq_nil_iff.mpr, List.append_nil]
  · intro v hv
    obtain ⟨o, -, rfl⟩ := List.mem_map.mp hv
    have hsame : ((userFleet M date optimize p).1.getPhony.pushBack M (p.orders.get o)).isPhony =
        (userFleet M date optimize p).1.getPhony.isPhony := rfl
    rw [hsame, hphony]
    decide
  · intro v hv
    exact (List.mem_filter.mp hv).2

/-- Every usable truck starts with the route of the user. -/
theorem keepsRoute_getUnusedTrucks (Z : ℕ → Prop) (date : ℤ) :
    List.Forall₂ (KeepsRoute M p.orders Z) p.trucks.getUnusedTrucks
      (userFleet M date false p).1.getUnusedTrucks := by
  have hall := (List.forall₂_and_left _ _).mpr ⟨hb.fresh, setInitialSolutions_forall₂ M p.orders date
    false p.trucks.vehicles ⟨.empty, p.trucks.feasibleOrders⟩⟩
  obtain ⟨first, rest, -, hf⟩ := hb.fleet
  refine List.rel_filter (fun u w h => ?_) (List.forall₂_map_left_iff.mpr
    (List.forall₂_map_right_iff.mpr (List.forall₂_same.mpr fun k hk => ?_)))
  · show (!u.isPhony) = true ↔ (!w.isPhony) = true
    rw [show w.isPhony = u.isPhony from congrArg (fun i : ℤ => decide (i < 0)) h.id]
  · obtain ⟨v, hv, -⟩ := (hf.unused k).mp hk
    obtain ⟨hlt, rfl⟩ := List.getElem?_eq_some_iff.mp hv
    have hlt' : k < (userFleet M date false p).1.vehicles.length := hall.length_eq ▸ hlt
    rw [Fleet.vehicle_eq_getElem hlt, Fleet.vehicle_eq_getElem hlt']
    obtain ⟨hfresh, sets, hw⟩ := hall.get hlt hlt'
    have hw' : (userFleet M date false p).1.vehicles[k] = _ := hw
    rw [hw']
    exact setInitialSolution_keepsRoute hb.wellFormed hfresh sets date

end Initial

namespace Optimizers.Tabu

open Initialsol.Tabu Initialsol.Tabu.InitialSolution in
/-- **With `optimize = false` nothing the user fixed moves.** -/
theorem user_routes_kept {S : Sorter} {M : Matrix} {pOrders : List OrdersT}
    {pVehicles : List VehicleT} {newStops : List ShortVehicle} {p : PickDeliver}
    (hp : PickDeliver.build S M pOrders pVehicles newStops = .ok p) {date : ℤ} {s : InitialSolution}
    (h : construct M date false p = .ok s) (maxCycles : ℕ) (stopOnAllServed : Bool) :
    let onPhony := fun i => ∃ v ∈ s.fleet, v.isPhony = true ∧ i ∈ v.ordersInVehicle
    let o := Optimize.construct S M s.toSolution maxCycles stopOnAllServed false
    Multiset.Rel (KeepsRoute M p.orders onPhony) p.trucks.getUnusedTrucks (realVehicles o.fleet) := by
  intro onPhony o
  have hb := PickDeliver.build_built hp
  have hv := construct_valid hb h
  obtain ⟨first, rest, -, hf⟩ := hb.fleet
  obtain ⟨horders, -, -⟩ := construct_fleet h hf.used
  obtain ⟨o', hserved, hfleet⟩ := construct_served (M := M) S hv maxCycles stopOnAllServed
  have hperm := started_perm S s.toSolution maxCycles stopOnAllServed false
  have hstart : Multiset.Rel (KeepsRoute M p.orders onPhony) p.trucks.getUnusedTrucks
      (realVehicles s.fleet) := by
    rw [realVehicles_construct hb h]
    exact ListEdit.rel_coe_of_forall₂ (keepsRoute_getUnusedTrucks hb onPhony date)
  have hkeeps : View.KeepsRoutes M s.orders onPhony p.trucks.getUnusedTrucks
      (started S s.toSolution maxCycles stopOnAllServed false).view := by
    rw [horders]
    refine ⟨fun v hv hp i hi => ⟨v, hperm.mem_iff.mp hv, hp, hi⟩, ?_, hstart⟩
    have hreal : (realVehicles (started S s.toSolution maxCycles stopOnAllServed false).fleet).Perm
        (realVehicles s.fleet) := hperm.filter _
    exact (Multiset.coe_eq_coe.mpr hreal) ▸ hstart
  have hend := (hserved.keepsRoutes (hv.ready S maxCycles stopOnAllServed false) hkeeps).best
  rw [show (started S s.toSolution maxCycles stopOnAllServed false).orders = p.orders from horders]
    at hend
  rw [hfleet]
  exact hend

open Initialsol.Tabu Initialsol.Tabu.InitialSolution in
/-- The user's order stays on the vehicle, which also serves the other one. -/
theorem user_routes_kept_small : ∃ p s,
    PickDeliver.build .insertion twoSites [smallOrderData 1 100, smallOrderData 2 100]
      [smallVehicleData 7 [1, 1]] [] = .ok p ∧
    construct twoSites 0 false p = .ok s ∧
    let o := Optimize.construct .insertion twoSites s.toSolution 5 false false
    (∃ w ∈ o.fleet, w.size = 6) ∧
    Multiset.Rel (KeepsRoute twoSites p.orders
      fun i => ∃ v ∈ s.fleet, v.isPhony = true ∧ i ∈ v.ordersInVehicle)
      p.trucks.getUnusedTrucks (realVehicles o.fleet) := by
  obtain ⟨p, hp, h⟩ := exists_ok_and (x := PickDeliver.build .insertion twoSites
    [smallOrderData 1 100, smallOrderData 2 100] [smallVehicleData 7 [1, 1]] [])
    (fun p => (construct twoSites 0 false p).toOption.any fun s =>
      (Optimize.construct .insertion twoSites s.toSolution 5 false false).fleet.any fun w =>
        decide (w.size = 6)) (by decide +kernel)
  obtain ⟨s, hs, hsize⟩ := exists_ok_and _ h
  obtain ⟨w, hw, hsize⟩ := List.any_eq_true.mp hsize
  exact ⟨p, s, hp, hs, ⟨w, hw, of_decide_eq_true hsize⟩, user_routes_kept hp hs 5 false⟩

end Optimizers.Tabu

end VrpRouting
