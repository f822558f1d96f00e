import Mathlib.Algebra.BigOperators.Group.List.Basic
import VrpRouting.Optimizers.PhonyTrucks

/-! # Estimates and the tabu restriction

The objective that a search estimates on copies of two vehicles is the one of the fleet after the
move (`estimates_exact`): the sum over the fleet changes by what the two vehicles change, and phony
vehicles count 0. A move that is made was not in the tabu list when the search began, or it beats the
best solution, or it empties its origin; and it is in the list afterwards (`tabu_respected`). -/

open Sorting BestSoFar

namespace VrpRouting

theorem Vehicle.objective_eq (v : Vehicle) : v.objective = v.totalTravelTime := by
  unfold Vehicle.objective Vehicle.totalTravelTime
  split_ifs <;> rfl

theorem id_of_bare {v w : Vehicle} (h : w.bare = v.bare) : w.id = v.id :=
  show w.bare.id = v.bare.id by rw [h]

theorem totalTravelTime_of_isPhony {v : Vehicle} (h : v.isPhony = true) : v.totalTravelTime = 0 :=
  if_pos h

namespace Optimizers.Tabu

/-! ### The objective of a fleet -/

theorem fleetObjective_perm {F F' : List Vehicle} (h : F.Perm F') :
    fleetObjective F = fleetObjective F' := (h.map _).sum_eq

namespace Optimize

variable {S : Sorter} {M : Matrix} {o : Optimize}

/-- The objective after two vehicles are replaced. -/
theorem fleetObjective_set_set {i j : ℕ} (hi : i < o.fleet.length) (hj : j < o.fleet.length)
    (hij : i ≠ j) (a b : Vehicle) : fleetObjective ((o.fleet.set i a).set j b) =
      o.toSolution.objective + (a.totalTravelTime + b.totalTravelTime -
        ((o.vehicle i).totalTravelTime + (o.vehicle j).totalTravelTime)) := by
  obtain ⟨R, hF, hF'⟩ := o.exists_perm_vehicles hi hj hij a b
  have hold : o.toSolution.objective = fleetObjective (o.vehicle i :: o.vehicle j :: R) :=
    fleetObjective_perm hF
  rw [hold, fleetObjective_perm hF']
  simp only [fleetObjective, List.map_cons, List.sum_cons]
  omega

theorem objective_sortBySize (asc : Bool) :
    (o.sortBySize S asc).toSolution.objective = o.toSolution.objective :=
  fleetObjective_perm (o.sortBySize_perm S asc)

/-! ### The orders that `move_2_real` comes to -/

variable (M o) in
/-- `move_2_real` comes to the order `oId` of the phony vehicle at `phony` in the state `s`. -/
def Considers (phony oId : ℕ) (s : Bool × Optimize) : Prop :=
  areAllServed o.unassignedOrders = false ∧ phony < o.fleet.length ∧
    let start := (List.range phony).foldl (emptyPhony M) (false, o)
    (start.2.vehicle phony).isReal = false ∧ (start.2.vehicle phony).empty = false ∧
      ∃ done rest, (start.2.vehicle phony).ordersInVehicle.ids = done ++ oId :: rest ∧
        s = done.foldl (moveOrder M phony) start

theorem Considers.isPhony {phony oId : ℕ} {s : Bool × Optimize} (h : o.Considers M phony oId s) :
    (s.2.vehicle phony).isPhony = true := by
  obtain ⟨-, -, hreal, -, done, -, -, rfl⟩ := h
  have hstart : (((List.range phony).foldl (emptyPhony M) (false, o)).2.vehicle phony).isPhony =
      true := by simpa [Vehicle.isReal] using hreal
  exact List.foldlRecOn (motive := fun s : Bool × Optimize => (s.2.vehicle phony).isPhony = true)
    done (moveOrder M phony) hstart fun s hs x _ => (isPhony_moveOrder s phony x phony).trans hs

/-- A score other than 0: the order goes to the vehicle that was found. -/
theorem fleet_moveOrder {phony oId : ℕ} {s : Bool × Optimize}
    (h : (s.2.bestReal M phony oId).bestScore ≠ 0) :
    (moveOrder M phony s oId).2.fleet =
      (s.2.fleet.set phony ((s.2.vehicle phony).eraseOrder M (s.2.orders.get oId))).set
        (s.2.bestReal M phony oId).bestVehicleRef
        ((s.2.vehicle (s.2.bestReal M phony oId).bestVehicleRef).hillClimb M (s.2.orders.get oId)).2 := by
  have ht := s.2.bestReal_tried M h
  rw [← vehicle_setVehicle_ne s.2 ht.ne ((s.2.vehicle phony).eraseOrder M (s.2.orders.get oId))]
  unfold moveOrder
  simp only [if_pos h]
  rfl

/-! ### Moves that are made -/

/-- The insertion `c` is made: the two vehicles change as on the copies, and the move is in the
list. -/
structure InsertionMade (M : Matrix) (o : Optimize) (c : InsertionMove) (o' : Optimize) : Prop where
  fleet : o'.fleet = (o.fleet.set c.i (o.insertionFrom M c)).set c.j (o.insertionTo M c)
  objective : o'.toSolution.objective = o.insertionEstimate M c
  listed : o'.tabuList.has (.insertion (o.vehicle c.i) (o.vehicle c.j) (o.orders.get c.oId)) = true

/-- The swap `c` is made. -/
structure SwapMade (M : Matrix) (o : Optimize) (c : SwapMove) (o' : Optimize) : Prop where
  fleet : o'.fleet = (o.fleet.set c.i (o.swapFrom2 M c)).set c.j (o.swapTo2 M c)
  objective : o'.toSolution.objective = o.swapEstimate M c
  listed : o'.tabuList.has (.swap (o.vehicle c.i) (o.vehicle c.j) (o.orders.get c.oId1)
    (o.orders.get c.oId2)) = true

theorem has_add (t : TabuList) (m : Move) : (t.add m).has m = true := by
  unfold TabuList.add
  split_ifs with h
  · exact h
  · simp [TabuList.has]

theorem tabuList_saveIfBest : o.saveIfBest.tabuList = o.tabuList := by
  unfold saveIfBest
  split_ifs <;> rfl

theorem applyInsertion_made {d : Bool} {c : InsertionMove} (hc : c ∈ o.admissibleInsertions M d)
    {s : SearchState} {score : ℤ} (hs : o.ShowsInsertion s (score, some c)) :
    InsertionMade M o c (o.applyInsertion M s) := by
  have ht := insertionTried_of_mem hc
  obtain ⟨h1, h2, h3, -⟩ := hs.best c rfl
  have hfl : (o.applyInsertion M s).fleet =
      (o.fleet.set c.i (o.insertionFrom M c)).set c.j (o.insertionTo M c) := by
    rw [o.fleet_applyInsertion M s (by rw [h1, h2]; exact ht.ne), h1, h2, h3]
    rfl
  refine ⟨hfl, ?_, ?_⟩
  · show fleetObjective (o.applyInsertion M s).fleet = _
    rw [hfl, fleetObjective_set_set ht.from_lt ht.to_lt ht.ne]
    rfl
  · unfold applyInsertion
    rw [tabuList_saveIfBest, ← h1, ← h2, ← h3]
    exact has_add s.tabuList _

theorem applySwap_made {d : Bool} {c : SwapMove} (hc : c ∈ o.admissibleSwaps M d)
    {s : SearchState} {score : ℤ} (hs : o.ShowsSwap M s (score, some c)) :
    SwapMade M o c (o.applySwap M s) := by
  have ht := swapTried_of_mem hc
  obtain ⟨h1, h2, h3, h4, -⟩ := hs.best c rfl
  have hfl : (o.applySwap M s).fleet =
      (o.fleet.set c.i (o.swapFrom2 M c)).set c.j (o.swapTo2 M c) := by
    rw [o.fleet_applySwap M s (by rw [h1, h2]; exact ht.toRealPair), h1, h2, h3, h4]
    rfl
  refine ⟨hfl, ?_, ?_⟩
  · show fleetObjective (o.applySwap M s).fleet = _
    rw [hfl, fleetObjective_set_set ht.from_lt ht.to_lt ht.ne]
    simp only [swapEstimate, Vehicle.objective_eq]
    omega
  · unfold applySwap
    rw [tabuList_saveIfBest, ← h1, ← h2, ← h3, ← h4]
    exact has_add s.tabuList _

/-- **A call that returns true** has made an admissible insertion, the one that its search found. -/
theorem singlePairInsertion_made {intensify d : Bool}
    (h : (o.singlePairInsertion S M intensify d).1 = true) :
    ∃ c ∈ (o.sortBySize S true).admissibleInsertions M d,
      (o.sortBySize S true).bestInsertion M intensify d =
        ((o.sortBySize S true).insertionEstimate M c, some c) ∧
      InsertionMade M (o.sortBySize S true) c (o.singlePairInsertion S M intensify d).2 := by
  obtain ⟨c, hc, hbest⟩ := exists_bestInsertion h
  have hs := ((o.sortBySize S true).searchInsertion_shows M intensify d).2
  rw [hbest] at hs
  refine ⟨c, hc, hbest, ?_⟩
  unfold singlePairInsertion at h ⊢
  simp only [if_pos h]
  exact applyInsertion_made hc hs

/-- **A call that returns true** has made an admissible swap, the one that its search found. -/
theorem swapBetweenRoutes_made {intensify d : Bool}
    (h : (o.swapBetweenRoutes S M intensify d).1 = true) :
    ∃ c ∈ (o.sortBySize S false).admissibleSwaps M d,
      (o.sortBySize S false).bestSwap M intensify d =
        ((o.sortBySize S false).swapEstimate M c, some c) ∧
      SwapMade M (o.sortBySize S false) c (o.swapBetweenRoutes S M intensify d).2 := by
  obtain ⟨c, hc, hbest⟩ := exists_bestSwap h
  have hs := ((o.sortBySize S false).searchSwap_shows M intensify d).2
  rw [hbest] at hs
  refine ⟨c, hc, hbest, ?_⟩
  unfold swapBetweenRoutes at h ⊢
  simp only [if_pos h]
  exact applySwap_made hc hs

/-- A call that returns false leaves the objective as it is. -/
theorem objective_singlePairInsertion {intensify d : Bool}
    (h : (o.singlePairInsertion S M intensify d).1 = false) :
    (o.singlePairInsertion S M intensify d).2.toSolution.objective = o.toSolution.objective := by
  have hne : ¬ ((o.sortBySize S true).searchInsertion M intensify d).found = true :=
    fun htrue => Bool.noConfusion (htrue.symm.trans h)
  unfold singlePairInsertion
  simp only [if_neg hne]
  exact objective_sortBySize true

theorem objective_swapBetweenRoutes {intensify d : Bool}
    (h : (o.swapBetweenRoutes S M intensify d).1 = false) :
    (o.swapBetweenRoutes S M intensify d).2.toSolution.objective = o.toSolution.objective := by
  have hne : ¬ ((o.sortBySize S false).searchSwap M intensify d).found = true :=
    fun htrue => Bool.noConfusion (htrue.symm.trans h)
  unfold swapBetweenRoutes
  simp only [if_neg hne]
  exact objective_sortBySize false

/-- The origin of an insertion, after it. -/
theorem InsertionMade.origin {o' : Optimize} {c : InsertionMove} (h : InsertionMade M o c o')
    (hlt : c.i < o.fleet.length) (hne : c.i ≠ c.j) : o'.vehicle c.i = o.insertionFrom M c := by
  unfold vehicle
  rw [h.fleet, List.getD_eq_getElem?_getD, List.getElem?_set_ne hne.symm]
  simp [hlt]

/-! ### The tabu list asks for the identifiers -/

theorem hasMove_congr (t : TabuList) {v v' w w' : Vehicle} (hv : v'.id = v.id) (hw : w'.id = w.id)
    (order : Order) : t.hasMove v' w' order = t.hasMove v w order := by
  unfold TabuList.hasMove Move.insertion
  rw [hv, hw]

theorem hasSwap_congr (t : TabuList) {v v' w w' : Vehicle} (hv : v'.id = v.id) (hw : w'.id = w.id)
    (order1 order2 : Order) : t.hasSwap v' w' order1 order2 = t.hasSwap v w order1 order2 := by
  unfold TabuList.hasSwap Move.swap
  rw [hv, hw]

/-- An allowed insertion, in terms of the vehicles of the fleet. -/
theorem AllowedInsertion.cases {t : TabuList} {c : InsertionMove} (h : o.AllowedInsertion M t c) :
    ¬ t.hasMove (o.vehicle c.i) (o.vehicle c.j) (o.orders.get c.oId) = true ∨
      o.insertionEstimate M c < o.bestSolution.objective ∨ (o.insertionFrom M c).empty = true := by
  have hfrom : (o.insertionFrom M c).id = (o.vehicle c.i).id := id_of_bare (bare_eraseOrder _ _)
  have hto : (o.insertionTo M c).id = (o.vehicle c.j).id := id_of_bare (bare_hillClimb _ _)
  unfold AllowedInsertion Empties at h
  rw [hasMove_congr t hfrom hto] at h
  by_contra hn
  obtain ⟨h1, h2⟩ := not_or.mp hn
  obtain ⟨h2, h3⟩ := not_or.mp h2
  exact h ⟨not_not.mp h1, not_lt.mp h2, h3⟩

/-- An allowed swap, in terms of the vehicles of the fleet. -/
theorem AllowedSwap.cases {t : TabuList} {c : SwapMove} (h : o.AllowedSwap M t c) :
    ¬ t.hasSwap (o.vehicle c.i) (o.vehicle c.j) (o.orders.get c.oId1) (o.orders.get c.oId2) = true ∨
      o.swapEstimate M c < o.bestSolution.objective := by
  have hfrom : (o.swapFrom2 M c).id = (o.vehicle c.i).id :=
    id_of_bare ((bare_hillClimb _ _).trans (bare_eraseOrder _ _))
  have hto : (o.swapTo2 M c).id = (o.vehicle c.j).id :=
    id_of_bare ((bare_hillClimb _ _).trans (bare_eraseOrder _ _))
  unfold AllowedSwap at h
  rw [hasSwap_congr t hfrom hto] at h
  by_contra hn
  obtain ⟨h1, h2⟩ := not_or.mp hn
  exact h ⟨not_not.mp h1, not_lt.mp h2⟩

end Optimize

open Optimize

/-! ### Main results -/

/-- **The estimated objective is the real one**, for every order that `move_2_real` moves and for
every move of the neighbourhood searches. -/
theorem estimates_exact (S : Sorter) (M : Matrix) (o : Optimize) :
    (∀ phony oId s, o.Considers M phony oId s → (s.2.bestReal M phony oId).bestScore ≠ 0 →
      (s.2.bestReal M phony oId).bestScore =
        s.2.realEstimate M phony oId (s.2.bestReal M phony oId).bestVehicleRef ∧
      (moveOrder M phony s oId).2.toSolution.objective = (s.2.bestReal M phony oId).bestScore) ∧
    (∀ intensify d, (o.singlePairInsertion S M intensify d).1 = true →
      let o₁ := o.sortBySize S true
      ∃ c ∈ o₁.insertionScan,
        (o₁.searchInsertion M intensify d).bestScore = o₁.insertionEstimate M c ∧
        (o.singlePairInsertion S M intensify d).2.fleet =
          (o₁.fleet.set c.i (o₁.insertionFrom M c)).set c.j (o₁.insertionTo M c) ∧
        (o.singlePairInsertion S M intensify d).2.toSolution.objective = o₁.insertionEstimate M c) ∧
    (∀ intensify d, (o.swapBetweenRoutes S M intensify d).1 = true →
      let o₁ := o.sortBySize S false
      ∃ c ∈ o₁.swapScan,
        (o₁.searchSwap M intensify d).bestScore = o₁.swapEstimate M c ∧
        (o.swapBetweenRoutes S M intensify d).2.fleet =
          (o₁.fleet.set c.i (o₁.swapFrom2 M c)).set c.j (o₁.swapTo2 M c) ∧
        (o.swapBetweenRoutes S M intensify d).2.toSolution.objective = o₁.swapEstimate M c) := by
  refine ⟨fun phony oId s hs hscore => ?_, fun intensify d h => ?_, fun intensify d h => ?_⟩
  · have hphony := hs.isPhony
    have ht := s.2.bestReal_tried M hscore
    obtain ⟨i, -, hbest⟩ := bestReal_found hscore
    have hlt : phony < s.2.fleet.length := by
      by_contra hlt
      have hd : s.2.vehicle phony = default := List.getD_eq_default _ _ (by omega)
      rw [hd] at hphony
      exact absurd hphony (by decide)
    refine ⟨by rw [hbest], ?_⟩
    show fleetObjective (moveOrder M phony s oId).2.fleet = _
    rw [fleet_moveOrder hscore, fleetObjective_set_set hlt ht.lt ht.ne, hbest]
    -- the phony vehicle counts 0, before and after
    have h1 := totalTravelTime_of_isPhony hphony
    have h2 := totalTravelTime_of_isPhony
      ((isPhony_eraseOrder (M := M) (s.2.vehicle phony) (s.2.orders.get oId)).trans hphony)
    unfold realEstimate
    rw [h1, h2]
  · obtain ⟨c, hc, hbest, hmade⟩ := singlePairInsertion_made h
    have hscore := ((o.sortBySize S true).searchInsertion_shows M intensify d).2.bestScore
    rw [hbest] at hscore
    exact ⟨c, (of_mem_admissibleInsertions hc).1, hscore, hmade.fleet, hmade.objective⟩
  · obtain ⟨c, hc, hbest, hmade⟩ := swapBetweenRoutes_made h
    have hscore := ((o.sortBySize S false).searchSwap_shows M intensify d).2.bestScore
    rw [hbest] at hscore
    exact ⟨c, (of_mem_admissibleSwaps hc).1, hscore, hmade.fleet, hmade.objective⟩

/-- Two real vehicles of capacity 1, with one order each. -/
def pairSolution : Solution :=
  ⟨[smallVehicle 0 7, smallVehicle 1 8], smallOrders, ⟨[], .empty, .empty, .empty⟩⟩

/-- An order of a phony vehicle is served, and two real vehicles exchange their orders. -/
theorem estimates_exact_small :
    (let o := started .insertion smallSolution 0 false true
    (moveOrder twoSites 0 (false, o) 1).2.toSolution.objective =
      (o.bestReal twoSites 0 1).bestScore) ∧
    let o := started .insertion pairSolution 0 false true
    let o₁ := o.sortBySize .insertion false
    ∃ c ∈ o₁.swapScan,
      (o.swapBetweenRoutes .insertion twoSites false false).2.toSolution.objective =
        o₁.swapEstimate twoSites c := by
  refine ⟨((estimates_exact .insertion twoSites (started .insertion smallSolution 0 false true)).1 0 1
    (false, started .insertion smallSolution 0 false true)
    ⟨by decide +kernel, by decide +kernel, by decide +kernel, by decide +kernel, [], [],
      by decide +kernel, rfl⟩ (by decide +kernel)).2, ?_⟩
  obtain ⟨c, hc, -, -, h⟩ := (estimates_exact .insertion twoSites
    (started .insertion pairSolution 0 false true)).2.2 false false (by decide +kernel)
  exact ⟨c, hc, h⟩

/-- **The tabu restriction and the aspiration are respected**, and the move is then in the list. -/
theorem tabu_respected (S : Sorter) (M : Matrix) (o : Optimize) :
    (∀ intensify d, (o.singlePairInsertion S M intensify d).1 = true →
      let o₁ := o.sortBySize S true
      let o' := (o.singlePairInsertion S M intensify d).2
      ∃ c ∈ o₁.insertionScan,
        o'.fleet = (o₁.fleet.set c.i (o₁.insertionFrom M c)).set c.j (o₁.insertionTo M c) ∧
        (¬ o.tabuList.hasMove (o₁.vehicle c.i) (o₁.vehicle c.j) (o.orders.get c.oId) = true ∨
          o'.toSolution.objective < o.bestSolution.objective ∨ (o'.vehicle c.i).empty = true) ∧
        o'.tabuList.has (.insertion (o₁.vehicle c.i) (o₁.vehicle c.j) (o.orders.get c.oId)) = true) ∧
    (∀ intensify d, (o.swapBetweenRoutes S M intensify d).1 = true →
      let o₁ := o.sortBySize S false
      let o' := (o.swapBetweenRoutes S M intensify d).2
      ∃ c ∈ o₁.swapScan,
        o'.fleet = (o₁.fleet.set c.i (o₁.swapFrom2 M c)).set c.j (o₁.swapTo2 M c) ∧
        (¬ o.tabuList.hasSwap (o₁.vehicle c.i) (o₁.vehicle c.j) (o.orders.get c.oId1)
            (o.orders.get c.oId2) = true ∨
          o'.toSolution.objective < o.bestSolution.objective) ∧
        o'.tabuList.has (.swap (o₁.vehicle c.i) (o₁.vehicle c.j) (o.orders.get c.oId1)
          (o.orders.get c.oId2)) = true) := by
  refine ⟨fun intensify d h => ?_, fun intensify d h => ?_⟩
  · obtain ⟨c, hc, -, hmade⟩ := singlePairInsertion_made h
    obtain ⟨hscan, hfits, hallowed⟩ := of_mem_admissibleInsertions hc
    refine ⟨c, hscan, hmade.fleet, ?_, hmade.listed⟩
    rw [hmade.objective, hmade.origin (mem_insertionScan.mp hscan).1 hfits.ne]
    exact hallowed.cases
  · obtain ⟨c, hc, -, hmade⟩ := swapBetweenRoutes_made h
    obtain ⟨hscan, -, hallowed⟩ := of_mem_admissibleSwaps hc
    refine ⟨c, hscan, hmade.fleet, ?_, hmade.listed⟩
    rw [hmade.objective]
    exact hallowed.cases

/-- A swap of two orders is in the list after it was made. -/
theorem tabu_respected_small :
    let o := started .insertion pairSolution 0 false true
    let o₁ := o.sortBySize .insertion false
    ∃ c ∈ o₁.swapScan, (o.swapBetweenRoutes .insertion twoSites false false).2.tabuList.has
      (.swap (o₁.vehicle c.i) (o₁.vehicle c.j) (o.orders.get c.oId1) (o.orders.get c.oId2)) =
        true := by
  obtain ⟨c, hc, -, -, h⟩ := (tabu_respected .insertion twoSites
    (started .insertion pairSolution 0 false true)).2 false false (by decide +kernel)
  exact ⟨c, hc, h⟩

end Optimizers.Tabu

end VrpRouting
