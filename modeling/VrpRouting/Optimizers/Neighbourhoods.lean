import VrpRouting.Optimizers.Phases
import VrpRouting.Optimizers.Simulation

/-! # The neighbourhood searches make steps

The loops of `single_pair_insertion` and `swap_between_routes` keep the fleet fixed. A candidate that
they find was tried, with success, on copies of the vehicles that are still at its positions; applying
it repeats the same edits on them. -/

open Sorting

namespace VrpRouting.Optimizers.Tabu.Optimize

variable (S : Sorter) (M : Matrix) (o : Optimize)

/-- Two real vehicles at different positions. -/
structure RealPair (i j : ℕ) : Prop where
  from_lt : i < o.fleet.length
  to_lt : j < o.fleet.length
  ne : i ≠ j
  from_real : (o.vehicle i).isPhony = false
  to_real : (o.vehicle j).isPhony = false

/-! ### `singlePairInsertion` -/

/-- The insertion of `order`, of the vehicle at `i`, into the vehicle at `j` was tried. -/
structure InsertionTried (i j : ℕ) (order : Order) : Prop extends o.RealPair i j where
  mem : ∃ oId ∈ (o.vehicle i).ordersInVehicle, order = o.orders.get oId
  placed : ((o.vehicle j).hillClimb M order).2.hasOrder order = true
  feasible : ((o.vehicle i).eraseOrder M order).isFeasible = true

/-- What the search has found was tried. -/
def InsertionFound (s : SearchState) : Prop :=
  s.found = true → o.InsertionTried M s.bestFrom s.bestTo s.bestFromOrder

variable {M o} in
/-- An admissible insertion was tried with success. -/
theorem insertionTried_of_mem {d : Bool} {c : InsertionMove} (h : c ∈ o.admissibleInsertions M d) :
    o.InsertionTried M c.i c.j (o.orders.get c.oId) := by
  obtain ⟨hscan, hfits, -⟩ := of_mem_admissibleInsertions h
  obtain ⟨hi, hreal, -, hm, hj⟩ := mem_insertionScan.mp hscan
  exact ⟨⟨hi, hj, hfits.ne, hreal, hfits.to_real⟩, ⟨c.oId, hm, rfl⟩, hfits.placed, hfits.feasible⟩

theorem searchInsertion_found (intensify d : Bool) :
    o.InsertionFound M (o.searchInsertion M intensify d) := by
  intro hfound
  obtain ⟨c, hc, hbest⟩ := exists_bestInsertion hfound
  obtain ⟨h1, h2, h3, -⟩ := (o.searchInsertion_shows M intensify d).2.best c (by rw [hbest])
  rw [h1, h2, h3]
  exact insertionTried_of_mem hc

theorem fleet_saveIfBest : o.saveIfBest.fleet = o.fleet := by
  unfold saveIfBest
  split_ifs <;> rfl

theorem fleet_applyInsertion (s : SearchState) (hij : s.bestFrom ≠ s.bestTo) :
    (o.applyInsertion M s).fleet =
      (o.fleet.set s.bestFrom ((o.vehicle s.bestFrom).eraseOrder M s.bestFromOrder)).set s.bestTo
        ((o.vehicle s.bestTo).hillClimb M s.bestFromOrder).2 := by
  unfold applyInsertion
  extract_lets fromV toV order tabuList o1 o2
  have hfrom : o1.vehicle s.bestFrom = o.vehicle s.bestFrom :=
    vehicle_setVehicle_ne _ hij.symm _
  rw [fleet_saveIfBest, List.set_comm _ _ hij, ← hfrom]
  rfl

theorem applyInsertion_sim {s : SearchState} (hr : o.Ready)
    (ht : o.InsertionTried M s.bestFrom s.bestTo s.bestFromOrder) :
    Sim M o (o.applyInsertion M s) := by
  have hfl := o.fleet_applyInsertion M s ht.ne
  obtain ⟨⟨hi, hj, hij, hreal, htoreal⟩, ⟨oId, hm, horder⟩, hplaced, hfeas⟩ := ht
  have hid := (hr.vehicle hi).movable oId hm
  rw [horder] at hplaced hfeas
  simp only [applyInsertion, fleet_saveIfBest] at hfl
  unfold applyInsertion
  extract_lets fromV toV order tabuList o1 o2
  have horder' : order = o.orders.get oId := horder
  obtain ⟨R, hF, hF'⟩ := o.exists_perm_vehicles hi hj hij
    ((o.vehicle s.bestFrom).eraseOrder M order) ((o.vehicle s.bestTo).hillClimb M order).2
  rw [← hfl, horder'] at hF'
  have hpl := placed_of_hillClimb hr.orders hid (hr.vehicle hj) hplaced
  have hU : (if fromV.isPhony = true then o2.unassignedOrders.erase order.idx
      else o2.unassignedOrders) = o.unassignedOrders := by
    rw [if_neg (by rw [show fromV.isPhony = false from hreal]; simp)]
    rfl
  rw [hU]
  have hst : Sim M o { o2 with unassignedOrders := o.unassignedOrders } :=
    .of_step rfl (.relocate (s := o.view) hF hreal htoreal hm hpl hfeas hF')
  exact hst.trans (saveIfBest_sim M _)

theorem singlePairInsertion_sim (intensify d : Bool) (hr : o.Ready) :
    Sim M o (o.singlePairInsertion S M intensify d).2 := by
  unfold singlePairInsertion
  extract_lets o1 s
  have h1 : Sim M o o1 := o.sortBySize_sim S M true
  split_ifs with hs
  · exact h1.andThen hr fun hr1 => o1.applyInsertion_sim M hr1
      (o1.searchInsertion_found M intensify d hs)
  · exact h1.trans (.of_view rfl rfl)

/-! ### `swapBetweenRoutes` -/

/-- The swap of `order1`, of the vehicle at `i`, and `order2`, of the vehicle at `j`, was tried. -/
structure SwapTried (i j : ℕ) (order1 order2 : Order) : Prop extends o.RealPair i j where
  mem1 : ∃ oId ∈ (o.vehicle i).ordersInVehicle, order1 = o.orders.get oId
  mem2 : ∃ oId ∈ (o.vehicle j).ordersInVehicle, order2 = o.orders.get oId
  placed1 : (((o.vehicle j).eraseOrder M order2).hillClimb M order1).2.hasOrder order1 = true
  placed2 : (((o.vehicle i).eraseOrder M order1).hillClimb M order2).2.hasOrder order2 = true
  feasible1 : (((o.vehicle j).eraseOrder M order2).hillClimb M order1).2.isFeasible = true
  feasible2 : (((o.vehicle i).eraseOrder M order1).hillClimb M order2).2.isFeasible = true

/-- What the search has found was tried. -/
def SwapFound (s : SearchState) : Prop :=
  s.found = true → o.SwapTried M s.bestFrom s.bestTo s.bestFromOrder s.bestToOrder

variable {M o} in
/-- An admissible swap was tried with success. -/
theorem swapTried_of_mem {d : Bool} {c : SwapMove} (h : c ∈ o.admissibleSwaps M d) :
    o.SwapTried M c.i c.j (o.orders.get c.oId1) (o.orders.get c.oId2) := by
  obtain ⟨hscan, hfits, -⟩ := of_mem_admissibleSwaps h
  obtain ⟨hij, hj, hreal, -, htoreal, -, hm1, hm2, -⟩ := mem_swapScan.mp hscan
  exact ⟨⟨hij.trans hj, hj, hij.ne, hreal, htoreal⟩, ⟨c.oId1, hm1, rfl⟩, ⟨c.oId2, hm2, rfl⟩,
    hfits.placed1, hfits.placed2, hfits.feasible_to2, hfits.feasible_from2⟩

theorem searchSwap_found (intensify d : Bool) : o.SwapFound M (o.searchSwap M intensify d) := by
  intro hfound
  obtain ⟨c, hc, hbest⟩ := exists_bestSwap hfound
  obtain ⟨h1, h2, h3, h4, -⟩ := (o.searchSwap_shows M intensify d).2.best c (by rw [hbest])
  rw [h1, h2, h3, h4]
  exact swapTried_of_mem hc

theorem fleet_applySwap (s : SearchState) (hp : o.RealPair s.bestFrom s.bestTo) :
    (o.applySwap M s).fleet =
      (o.fleet.set s.bestFrom (((o.vehicle s.bestFrom).eraseOrder M s.bestFromOrder).hillClimb M
        s.bestToOrder).2).set s.bestTo (((o.vehicle s.bestTo).eraseOrder M s.bestToOrder).hillClimb M
        s.bestFromOrder).2 := by
  obtain ⟨hi, hj, hij, -, -⟩ := hp
  unfold applySwap
  extract_lets fromV toV fromOrder toOrder tabuList o1 o2 o3 o4 u u1 u2
  have hl : o1.fleet.length = o.fleet.length := List.length_set ..
  have ht1 : o1.vehicle s.bestTo = o.vehicle s.bestTo := vehicle_setVehicle_ne _ hij _
  have hv2 : o2.vehicle s.bestFrom = (o.vehicle s.bestFrom).eraseOrder M fromOrder := by
    rw [show o2 = o1.setVehicle _ _ from rfl, vehicle_setVehicle_ne _ hij.symm]
    exact vehicle_setVehicle_self _ hi _
  have hv3 : o3.vehicle s.bestTo = (o.vehicle s.bestTo).eraseOrder M toOrder := by
    rw [show o3 = o2.setVehicle _ _ from rfl, vehicle_setVehicle_ne _ hij, ← ht1]
    exact vehicle_setVehicle_self _ (by rw [hl]; exact hj) _
  rw [fleet_saveIfBest, ← hv2, ← hv3]
  show (((o.fleet.set _ _).set _ _).set _ _).set _ _ = _
  rw [List.set_comm _ _ hij.symm, List.set_set, List.set_set]

theorem applySwap_sim {s : SearchState} (hr : o.Ready)
    (ht : o.SwapTried M s.bestFrom s.bestTo s.bestFromOrder s.bestToOrder) :
    Sim M o (o.applySwap M s) := by
  have hfl := o.fleet_applySwap M s ht.toRealPair
  obtain ⟨⟨hi, hj, hij, hreal, htoreal⟩, ⟨oId1, hm1, horder1⟩, ⟨oId2, hm2, horder2⟩, hp1, hp2, hf1,
    hf2⟩ := ht
  have hid1 := (hr.vehicle hi).movable oId1 hm1
  have hid2 := (hr.vehicle hj).movable oId2 hm2
  rw [horder1, horder2] at hp1 hp2 hf1 hf2
  simp only [applySwap, fleet_saveIfBest] at hfl
  unfold applySwap
  extract_lets fromV toV fromOrder toOrder tabuList o1 o2 o3 o4 u u1 u2
  have hord1 : fromOrder = o.orders.get oId1 := horder1
  have hord2 : toOrder = o.orders.get oId2 := horder2
  obtain ⟨R, hF, hF'⟩ := o.exists_perm_vehicles hi hj hij
    (((o.vehicle s.bestFrom).eraseOrder M fromOrder).hillClimb M toOrder).2
    (((o.vehicle s.bestTo).eraseOrder M toOrder).hillClimb M fromOrder).2
  rw [← hfl, hord1, hord2] at hF'
  have hra := (hr.vehicle hi).eraseOrder (M := M) hid1
  have hrb := (hr.vehicle hj).eraseOrder (M := M) hid2
  have hU : u2 = o.unassignedOrders := by
    have h1 : u1 = o.unassignedOrders := if_neg (by rw [show fromV.isPhony = false from hreal]; simp)
    rw [← h1]
    exact if_neg (by rw [show toV.isPhony = false from htoreal]; simp)
  rw [hU]
  have hst : Sim M o { o4 with unassignedOrders := o.unassignedOrders } :=
    .of_step rfl (.exchange (s := o.view) hF hreal htoreal hm1 hm2
      (placed_of_hillClimb hr.orders hid2 hra hp2) (placed_of_hillClimb hr.orders hid1 hrb hp1) hf2
      hf1 hF')
  exact hst.trans (saveIfBest_sim M _)

theorem swapBetweenRoutes_sim (intensify d : Bool) (hr : o.Ready) :
    Sim M o (o.swapBetweenRoutes S M intensify d).2 := by
  unfold swapBetweenRoutes
  extract_lets o1 s
  have h1 : Sim M o o1 := o.sortBySize_sim S M false
  split_ifs with hs
  · exact h1.andThen hr fun hr1 => o1.applySwap_sim M hr1 (o1.searchSwap_found M intensify d hs)
  · exact h1.trans (.of_view rfl rfl)

/-! ### All operations -/

theorem reset_sim : Sim M o { o with fleet := o.bestSolution.fleet } := .of_step rfl .reset

variable {o} in
/-- What is reached by steps, every operation keeps. -/
theorem sim_kept (hr : o.Ready) : Kept S M (Sim M o) where
  move2Real h := h.andThen hr (move2Real_sim M _)
  singlePairInsertion i d h := h.andThen hr (singlePairInsertion_sim S M _ i d)
  swapBetweenRoutes i d h := h.andThen hr (swapBetweenRoutes_sim S M _ i d)
  reset h := h.trans (reset_sim M _)
  deleteEmptyTruck h := h.trans (deleteEmptyTruck_sim M _)
  setTabuListLength h := h.trans (.of_view rfl rfl)

end VrpRouting.Optimizers.Tabu.Optimize
