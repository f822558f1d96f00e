import VrpRouting.Driver.Optimize
import VrpRouting.InitialSol.Construction
import VrpRouting.Optimizers.Estimates

/-! # The swap that is applied

Without diversification `swap_between_routes` applies the best swap that can be made and is allowed,
the first one among equals, exactly when its memory of infeasible insertions does not refuse this swap
and its estimated objective is not 0, unless no other swap comes after it (`best_swap_iff`). -/

open Sorting BestSoFar

namespace VrpRouting.Optimizers.Tabu

namespace Optimize

variable (M : Matrix) (o : Optimize)

/-- The swaps that can be made and are allowed, in the order of the scan. -/
def allSwaps : List SwapMove :=
  o.swapScan.filter fun c =>
    decide (o.testSwap M false .empty c = .fits) && decide (o.AllowedSwap M o.tabuList c)

variable {M o}

theorem mem_allSwaps {c : SwapMove} : c ∈ o.allSwaps M ↔
    c ∈ o.swapScan ∧ o.SwapFits M c ∧ o.AllowedSwap M o.tabuList c := by
  have hempty : ¬ o.SwapRefused M .empty c := by
    simp [SwapRefused, TabuList.hasInfeasible, TabuList.empty]
  simp [allSwaps, testSwap_fits_iff, hempty]

/-- The swaps that the search admits are among them. -/
theorem admissibleSwaps_sublist (d : Bool) : (o.admissibleSwaps M d).Sublist (o.allSwaps M) := by
  have hfilter : (o.admissibleSwaps M d).filter (fun c =>
      decide (o.testSwap M false .empty c = .fits) && decide (o.AllowedSwap M o.tabuList c)) =
      o.admissibleSwaps M d := List.filter_eq_self.mpr fun c hc =>
    (List.mem_filter.mp (mem_allSwaps.mpr (of_mem_admissibleSwaps hc))).2
  rw [← hfilter]
  exact (fitting_sublist _ _ _ _).filter _

end Optimize

open Optimize

/-- **The swap that is applied is the best one** exactly when the search admits the best one, with an
estimate other than 0 or as its last swap. -/
theorem best_swap_iff (S : Sorter) (M : Matrix) (o : Optimize) (intensify : Bool)
    (h : (o.swapBetweenRoutes S M intensify false).1 = true) :
    let o₁ := o.sortBySize S false
    ∃ w, o₁.bestSwap M intensify false = (o₁.swapEstimate M w, some w) ∧
      (o.swapBetweenRoutes S M intensify false).2.fleet =
        (o₁.fleet.set w.i (o₁.swapFrom2 M w)).set w.j (o₁.swapTo2 M w) ∧
      (IsFirstLeast (o₁.swapEstimate M) (o₁.allSwaps M) w ↔
        ∃ x ∈ o₁.admissibleSwaps M false, IsFirstLeast (o₁.swapEstimate M) (o₁.allSwaps M) x ∧
          (o₁.swapEstimate M x ≠ 0 ∨ (o₁.admissibleSwaps M false).getLast? = some x)) := by
  intro o₁
  obtain ⟨w, hmem, hbest, hmade⟩ := swapBetweenRoutes_made h
  change o₁.bestSwap M intensify false = (o₁.swapEstimate M w, some w) at hbest
  have hw : (o₁.bestSwap M intensify false).2 = some w := by rw [hbest]
  refine ⟨w, hbest, hmade.fleet, ?_⟩
  have hsub : (o₁.admissibleSwaps M false).Sublist (o₁.allSwaps M) := admissibleSwaps_sublist false
  have hall : (o₁.allSwaps M).Nodup := o₁.nodup_swapScan.filter _
  constructor
  · intro hleast
    exact ⟨w, hmem, hleast,
      ((hleast.of_sublist hall hsub hmem).kept_iff (hall.sublist hsub) hw).mp rfl⟩
  · rintro ⟨x, hx, hleast, hcond⟩
    rw [((hleast.of_sublist hall hsub hx).kept_iff (hall.sublist hsub) hw).mpr hcond]
    exact hleast

/-! ### Three vehicles with one order each -/

open Initialsol.Tabu

def threeVehicles : List VehicleT :=
  [smallVehicleData 7 [1, 1], smallVehicleData 8 [2, 2], smallVehicleData 9 [3, 3]]

/-- With every stop at the depot all estimates are 0, and the last swap is applied. -/
theorem best_swap_fails : ∃ p sol,
    PickDeliver.build .insertion twoSites [depotOrderData 1, depotOrderData 2, depotOrderData 3]
      threeVehicles (Driver.getInitialStops threeVehicles) = .ok p ∧
    InitialSolution.construct twoSites 0 true p = .ok sol ∧
    let o := started .insertion sol.toSolution 3 false true
    let o₁ := o.sortBySize .insertion false
    (o.swapBetweenRoutes .insertion twoSites false false).1 = true ∧
      ∃ w, (o₁.bestSwap twoSites false false).2 = some w ∧
        ¬ IsFirstLeast (o₁.swapEstimate twoSites) (o₁.allSwaps twoSites) w := by
  obtain ⟨p, sol, hp, hsol, hq⟩ := exists_ok_bind_and (x := PickDeliver.build .insertion twoSites
    [depotOrderData 1, depotOrderData 2, depotOrderData 3] threeVehicles
    (Driver.getInitialStops threeVehicles)) (f := InitialSolution.construct twoSites 0 true)
    (fun sol => let o := started .insertion sol.toSolution 3 false true
      let o₁ := o.sortBySize .insertion false
      decide ((o.swapBetweenRoutes .insertion twoSites false false).1 = true ∧
        (o₁.bestSwap twoSites false false).2 = some ⟨1, 1, 2, 0⟩ ∧
        o₁.allSwaps twoSites = [⟨0, 2, 1, 1⟩, ⟨0, 2, 2, 0⟩, ⟨1, 1, 2, 0⟩] ∧
        (o₁.allSwaps twoSites).map (o₁.swapEstimate twoSites) = [0, 0, 0])) (by decide +kernel)
  obtain ⟨h1, h2, h3, h4⟩ := of_decide_eq_true hq
  refine ⟨p, sol, hp, hsol, h1, _, h2, fun hw => ?_⟩
  rw [h3] at h4 hw
  obtain ⟨e1, e2, e3⟩ : _ ∧ _ ∧ _ := by simpa using h4
  have hfirst := IsFirstLeast.unique hw ⟨[], [⟨0, 2, 2, 0⟩, ⟨1, 1, 2, 0⟩], rfl, by simp,
    by simp [e1, e2, e3]⟩
  exact absurd hfirst (by decide)

/-- With the deliveries at another site the first one of the best swaps is applied. -/
theorem best_swap_small : ∃ p sol,
    PickDeliver.build .insertion twoSites [smallOrderData 1 100, smallOrderData 2 100,
      smallOrderData 3 100] threeVehicles (Driver.getInitialStops threeVehicles) = .ok p ∧
    InitialSolution.construct twoSites 0 true p = .ok sol ∧
    let o₁ := (started .insertion sol.toSolution 3 false true).sortBySize .insertion false
    ∃ w, o₁.bestSwap twoSites false false = (o₁.swapEstimate twoSites w, some w) ∧
      IsFirstLeast (o₁.swapEstimate twoSites) (o₁.allSwaps twoSites) w := by
  obtain ⟨p, sol, hp, hsol, hq⟩ := exists_ok_bind_and (x := PickDeliver.build .insertion twoSites
    [smallOrderData 1 100, smallOrderData 2 100, smallOrderData 3 100] threeVehicles
    (Driver.getInitialStops threeVehicles)) (f := InitialSolution.construct twoSites 0 true)
    (fun sol => let o := started .insertion sol.toSolution 3 false true
      let o₁ := o.sortBySize .insertion false
      decide ((o.swapBetweenRoutes .insertion twoSites false false).1 = true ∧
        (∃ x ∈ o₁.admissibleSwaps twoSites false,
          o₁.allSwaps twoSites = x :: (o₁.allSwaps twoSites).tail ∧
          (∀ y ∈ (o₁.allSwaps twoSites).tail,
            o₁.swapEstimate twoSites x ≤ o₁.swapEstimate twoSites y) ∧
          o₁.swapEstimate twoSites x ≠ 0))) (by decide +kernel)
  obtain ⟨h1, x, hx, h2, h3, h4⟩ := of_decide_eq_true hq
  obtain ⟨w, hw, -, hiff⟩ := best_swap_iff .insertion twoSites
    (started .insertion sol.toSolution 3 false true) false h1
  exact ⟨p, sol, hp, hsol, w, hw,
    hiff.mpr ⟨x, hx, ⟨[], _, h2, by simp, fun y hy => h3 y hy⟩, Or.inl h4⟩⟩

end VrpRouting.Optimizers.Tabu
