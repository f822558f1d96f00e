import VrpRouting.Driver.Optimize
import VrpRouting.Optimizers.Unserved

/-! # The bookkeeping of unserved orders

`m_unassignedOrders` is kept beside the fleet. It is the set of orders on the phony vehicles of the
fleet and of the best fleet, as long as no two phony vehicles hold the same order
(`View.Tracks`). The phony vehicles of an initial solution are copies of one truck, so this fails
when that truck already has orders: with `new_stops` it gets the stops of a given vehicle with the
identifier −1. -/

open Sorting

namespace VrpRouting.Optimizers.Tabu

/-- The set beside the fleet is right, for the fleet and for the best fleet. -/
structure Optimize.Tracks (o : Optimize) : Prop where
  fleet : ∀ i, i ∈ o.unassignedOrders ↔ OnPhony o.fleet i
  best : ∀ i, OnPhony o.fleet i ↔ OnPhony o.bestSolution.fleet i

theorem mem_setUnassignedOrders {F : List Vehicle} {i : ℕ} :
    i ∈ setUnassignedOrders F ↔ OnPhony F i := by
  have h : ∀ (F : List Vehicle) (u : Identifiers ℕ),
      i ∈ F.foldl (fun u v => if v.isPhony then u.union v.ordersInVehicle else u) u ↔
        i ∈ u ∨ OnPhony F i := by
    intro F
    induction F with
    | nil => simp [OnPhony]
    | cons v F ih =>
      intro u
      rw [List.foldl_cons, ih]
      unfold OnPhony
      rw [List.exists_mem_cons_iff]
      cases hv : v.isPhony <;> simp [or_assoc]
  unfold setUnassignedOrders
  rw [h]
  simp

/-! ### The invariant -/

/-- No two phony vehicles hold the same order, and the set has the orders on the phony vehicles. -/
structure View.Tracks (s : View) : Prop where
  nodup : (unserved s.fleet).Nodup
  unassigned : ∀ i, i ∈ s.unassigned ↔ i ∈ unserved s.fleet
  best : unserved s.best = unserved s.fleet

theorem Step.tracks {M : Matrix} {orders : Orders} (ho : orders.WellFormed) {s s' : View}
    (hr : s.Ready orders) (hs : s.Tracks) (h : Step M orders s s') : s'.Tracks := by
  have hsame : ∀ {F : List Vehicle}, unserved F = unserved s.fleet →
      View.Tracks { s with fleet := F } := fun hF =>
    ⟨by rw [hF]; exact hs.nodup, by rw [hF]; exact hs.unassigned, by rw [hF]; exact hs.best⟩
  cases h with
  | permute h => exact hsame (unserved_perm h).symm
  | dropEmpty => exact hsame (unserved_withoutEmpty _)
  | @serve a b b' R F o hF ha hb hao hbo hb' hf hF' =>
    have hlt := (hr.fleet a (hF.mem_iff.mpr (by simp))).movable o hao
    obtain ⟨-, hu⟩ := unserved_serve ho hlt hF ha hb hao hb' hF'
    refine ⟨by rw [hu]; exact hs.nodup.erase o, fun i => ?_, rfl⟩
    rw [Identifiers.mem_erase, hs.unassigned, hu, hs.nodup.mem_erase_iff, and_comm]
  | relocate hF ha hb _ hb' _ hF' =>
    exact hsame (unserved_replace hF hF' ha hb (by rw [isPhony_eraseOrder, ha])
      (by rw [hb'.isPhony, hb]))
  | exchange hF ha hb _ _ ha' hb' _ _ hF' =>
    exact hsame (unserved_replace hF hF' ha hb (by rw [ha'.isPhony, isPhony_eraseOrder, ha])
      (by rw [hb'.isPhony, isPhony_eraseOrder, hb]))
  | save _ => exact ⟨hs.nodup, hs.unassigned, rfl⟩
  | reset => exact ⟨by rw [hs.best]; exact hs.nodup, by rw [hs.best]; exact hs.unassigned, rfl⟩

/-! ### Initial solutions -/

section Start
open Initialsol.Tabu InitialSolution

variable {S : Sorter} {M : Matrix} {pOrders : List OrdersT} {pVehicles : List VehicleT}
  {newStops : List ShortVehicle} {p : PickDeliver} {date : ℤ} {userOptimize : Bool}
  {sol : InitialSolution}

/-- **The bookkeeping of unserved orders** is right between any two operations, for every initial
solution whose phony truck has no stops. -/
theorem run_tracks (hp : PickDeliver.build S M pOrders pVehicles newStops = .ok p)
    (hsol : construct M date userOptimize p = .ok sol) (hn : NoPhonyStops newStops)
    (maxCycles : ℕ) (stopOnAllServed optimize : Bool) (ops : List Op) :
    (run S M (started S sol.toSolution maxCycles stopOnAllServed optimize) ops).Tracks := by
  have hb := PickDeliver.build_built hp
  have hv := construct_valid hb hsol
  have hperm := started_perm S sol.toSolution maxCycles stopOnAllServed optimize
  have hnodup : (unserved sol.fleet).Nodup := by
    rw [unserved_construct hb hsol hn, Multiset.coe_nodup]
    exact (Identifiers.nodup _).filter _
  have hstart : (started S sol.toSolution maxCycles stopOnAllServed optimize).view.Tracks := by
    refine ⟨?_, fun i => ?_, (unserved_perm hperm).symm⟩
    · change (unserved (started S sol.toSolution maxCycles stopOnAllServed optimize).fleet).Nodup
      rwa [unserved_perm hperm]
    · exact mem_setUnassignedOrders.trans mem_unserved.symm
  have h := (hv.run_invariant S M maxCycles stopOnAllServed optimize
    (fun _ _ hr hs hst => hst.tracks hv.orders hr hs) hstart).1 ops
  refine ⟨fun i => (h.unassigned i).trans mem_unserved, fun i => ?_⟩
  rw [← mem_unserved, ← mem_unserved]
  exact iff_of_eq (congrArg (i ∈ ·) h.best.symm)

end Start

/-! ### Where it fails, and a small problem -/

open Initialsol.Tabu

/-- A vehicle with the identifier −1 visits the first order, and the other one cannot carry the two
others at the same time. -/
def negativeVehicles : List VehicleT :=
  [smallVehicleData (-1) [1, 1], smallVehicleData 10 [2, 3, 2, 3]]

/-- The first order is on two phony vehicles. Once it is served from one of them, the set does not
have it any more, but the other one still does. -/
theorem run_tracks_fails : ∃ p sol,
    PickDeliver.build .insertion twoSites threeOrders negativeVehicles
      (Driver.getInitialStops negativeVehicles) = .ok p ∧
    InitialSolution.construct twoSites 0 true p = .ok sol ∧
    ¬ (run .insertion twoSites (started .insertion sol.toSolution 1 false true)
      [.move2Real]).Tracks := by
  obtain ⟨p, sol, hp, hsol, h⟩ := exists_ok_bind_and (x := PickDeliver.build .insertion twoSites
    threeOrders negativeVehicles (Driver.getInitialStops negativeVehicles))
    (f := InitialSolution.construct twoSites 0 true)
    (fun sol =>
      let o := run .insertion twoSites (started .insertion sol.toSolution 1 false true) [.move2Real]
      decide (0 ∉ o.unassignedOrders ∧ OnPhony o.fleet 0)) (by decide +kernel)
  obtain ⟨h0, h1⟩ := of_decide_eq_true h
  exact ⟨p, sol, hp, hsol, fun ht => h0 ((ht.fleet 0).mpr h1)⟩

/-- The same vehicles, the first one with the identifier 9. -/
theorem run_tracks_small : ∃ p sol,
    PickDeliver.build .insertion twoSites threeOrders
      [smallVehicleData 9 [1, 1], smallVehicleData 10 [2, 3, 2, 3]]
      [⟨9, [1, 1]⟩, ⟨10, [2, 3, 2, 3]⟩] = .ok p ∧
    InitialSolution.construct twoSites 0 true p = .ok sol ∧
    (run .insertion twoSites (started .insertion sol.toSolution 1 false true)
      [.move2Real, .intensify, .diversify]).Tracks := by
  obtain ⟨p, sol, hp, hsol⟩ := exists_ok_bind (x := PickDeliver.build .insertion twoSites
    threeOrders [smallVehicleData 9 [1, 1], smallVehicleData 10 [2, 3, 2, 3]]
    [⟨9, [1, 1]⟩, ⟨10, [2, 3, 2, 3]⟩]) (f := InitialSolution.construct twoSites 0 true)
    (by decide +kernel)
  exact ⟨p, sol, hp, hsol, run_tracks hp hsol (fun v hv => by simp at hv) 1 false true
    [.move2Real, .intensify, .diversify]⟩

end VrpRouting.Optimizers.Tabu
