import VrpRouting.InitialSol.Construction
import VrpRouting.Optimizers.Estimates

/-! # What `move_2_real` serves

`move_2_real` keeps the score of the best real vehicle for an order in a variable in which 0 stands
for none. So an order that some real vehicle takes goes to one with the least resulting objective,
unless this objective is 0 (`serves_best_iff`): then the order stays behind, or goes to a worse
vehicle that comes later in the fleet. -/

open Sorting BestSoFar

namespace VrpRouting.Optimizers.Tabu

namespace Optimize

variable (M : Matrix) (o : Optimize)

/-- The fleet after the order `oId` went from the vehicle at `phony` to the one at `i`. -/
def servedFleet (phony oId i : ℕ) : List Vehicle :=
  (o.fleet.set phony ((o.vehicle phony).eraseOrder M (o.orders.get oId))).set i
    ((o.vehicle i).hillClimb M (o.orders.get oId)).2

/-- The objective when the vehicle at `i` has the order. -/
def servedObjective (phony oId i : ℕ) : ℤ := fleetObjective (o.servedFleet M phony oId i)

/-- The order goes to a vehicle that takes it, with the least objective among those. -/
def ServesBest (phony oId : ℕ) (F : List Vehicle) : Prop :=
  ∃ i ∈ o.realCandidates M phony oId, F = o.servedFleet M phony oId i ∧
    ∀ j ∈ o.realCandidates M phony oId,
      o.servedObjective M phony oId i ≤ o.servedObjective M phony oId j

variable {M o}

/-- The estimate is the objective after the move. -/
theorem realEstimate_eq {phony oId i : ℕ} (hp : (o.vehicle phony).isPhony = true)
    (hi : i ∈ o.realCandidates M phony oId) :
    o.realEstimate M phony oId i = o.servedObjective M phony oId i := by
  obtain ⟨hlt, hfits⟩ := mem_realCandidates.mp hi
  have hphony : phony < o.fleet.length := by
    by_contra hphony
    have hd : o.vehicle phony = default := List.getD_eq_default _ _ (by omega)
    rw [hd] at hp
    exact absurd hp (by decide)
  unfold servedObjective servedFleet
  rw [fleetObjective_set_set hphony hlt hfits.ne, realEstimate, totalTravelTime_of_isPhony hp,
    totalTravelTime_of_isPhony ((isPhony_eraseOrder (M := M) _ (o.orders.get oId)).trans hp)]

/-- A vehicle that takes the order is another one afterwards. -/
theorem servedFleet_ne {phony oId i : ℕ} (hi : i ∈ o.realCandidates M phony oId) :
    o.fleet ≠ o.servedFleet M phony oId i := by
  obtain ⟨hlt, hfits⟩ := mem_realCandidates.mp hi
  intro heq
  have hv : o.vehicle i = ((o.vehicle i).hillClimb M (o.orders.get oId)).2 := by
    have h := congrArg (fun F : List Vehicle => F.getD i default) heq
    unfold servedFleet at h
    simp only [List.getD_eq_getElem?_getD, List.getElem?_set, List.length_set, if_true, hlt,
      Option.getD_some] at h
    rw [← h]
    exact List.getD_eq_getElem?_getD
  have hfree := hfits.free
  rw [hv, hfits.placed] at hfree
  cases hfree

end Optimize

open Optimize

/-- **An order that some real vehicle takes is served as well as possible** exactly when the least
objective that is possible is not 0. -/
theorem serves_best_iff (M : Matrix) (o : Optimize) (phony oId : ℕ) (s : Bool × Optimize)
    (hs : o.Considers M phony oId s) :
    (s.2.realCandidates M phony oId ≠ [] →
      s.2.ServesBest M phony oId (moveOrder M phony s oId).2.fleet) ↔
    ¬ ∃ i ∈ s.2.realCandidates M phony oId, s.2.servedObjective M phony oId i = 0 ∧
      ∀ j ∈ s.2.realCandidates M phony oId, 0 ≤ s.2.servedObjective M phony oId j := by
  have hest : ∀ i ∈ s.2.realCandidates M phony oId,
      s.2.realEstimate M phony oId i = s.2.servedObjective M phony oId i :=
    fun i hi => realEstimate_eq hs.isPhony hi
  have hbest := s.2.bestReal_eq M phony oId
  dsimp only at hbest
  constructor
  · rintro hserves ⟨i, hi, hzero, hleast⟩
    obtain ⟨w, hw, hfleet, hwleast⟩ := hserves (List.ne_nil_of_mem hi)
    have hw0 : s.2.servedObjective M phony oId w = 0 :=
      le_antisymm (hzero ▸ hwleast i hi) (hleast w hw)
    by_cases hscore : (s.2.bestReal M phony oId).bestScore = 0
    · -- the order stays, but the vehicle would have changed
      have hstay : (moveOrder M phony s oId).2 = s.2 := by
        unfold moveOrder
        dsimp only
        rw [if_neg (not_not.mpr hscore)]
      rw [hstay] at hfleet
      exact servedFleet_ne hw hfleet
    · -- the order goes to a vehicle with another objective
      obtain ⟨x, hx, hfound⟩ := bestReal_found hscore
      have hmoved := fleet_moveOrder hscore
      rw [hfound] at hscore hmoved
      have hobj := congrArg fleetObjective (hmoved.symm.trans hfleet)
      change s.2.servedObjective M phony oId x = s.2.servedObjective M phony oId w at hobj
      exact hscore ((hest x hx).trans (hobj.trans hw0))
  · intro hcond hne
    obtain ⟨x, hx⟩ := exists_isFirstLeast (s.2.realEstimate M phony oId) hne
    have hleast : ∀ j ∈ s.2.realCandidates M phony oId,
        s.2.servedObjective M phony oId x ≤ s.2.servedObjective M phony oId j := fun j hj => by
      rw [← hest x hx.mem, ← hest j hj]
      exact hx.le hj
    have hx0 : s.2.realEstimate M phony oId x ≠ 0 := fun h0 => by
      rw [hest x hx.mem] at h0
      exact hcond ⟨x, hx.mem, h0, fun j hj => h0 ▸ hleast j hj⟩
    have hfound : s.2.bestReal M phony oId = ⟨s.2.realEstimate M phony oId x, x⟩ := by
      rw [hbest, hx.kept (c := 0) hx0 (Or.inl rfl)]
      rfl
    refine ⟨x, hx.mem, ?_, hleast⟩
    rw [fleet_moveOrder (by rw [hfound]; exact hx0), hfound]
    rfl

/-! ### A small problem -/

open Initialsol.Tabu

/-- The only vehicle takes the order with the objective 0, and the order stays behind. -/
theorem serves_best_fails : ∃ p sol,
    PickDeliver.build .insertion twoSites [depotOrderData 10] [smallVehicleData 7 []] [] = .ok p ∧
    InitialSolution.construct twoSites 0 true p = .ok sol ∧
    let o := started .insertion sol.toSolution 3 false true
    o.Considers twoSites 0 0 (false, o) ∧ o.realCandidates twoSites 0 0 ≠ [] ∧
      ¬ o.ServesBest twoSites 0 0 (moveOrder twoSites 0 (false, o) 0).2.fleet := by
  obtain ⟨p, sol, hp, hsol, hq⟩ := exists_ok_bind_and (x := PickDeliver.build .insertion twoSites
    [depotOrderData 10] [smallVehicleData 7 []] []) (f := InitialSolution.construct twoSites 0 true)
    (fun sol => let o := started .insertion sol.toSolution 3 false true
      decide (areAllServed o.unassignedOrders = false ∧ 0 < o.fleet.length ∧
        (o.vehicle 0).isReal = false ∧ (o.vehicle 0).ordersInVehicle.ids = [0] ∧
        (o.vehicle 0).empty = false ∧ o.realCandidates twoSites 0 0 = [1] ∧
        (moveOrder twoSites 0 (false, o) 0).2.fleet = o.fleet)) (by decide +kernel)
  obtain ⟨h1, h2, h3, h4, h5, h6, h7⟩ := of_decide_eq_true hq
  refine ⟨p, sol, hp, hsol, ⟨h1, h2, h3, h5, [], [], h4, rfl⟩, ?_, ?_⟩
  · rw [h6]
    exact List.cons_ne_nil 1 []
  · rintro ⟨i, hi, hfleet, -⟩
    rw [h7] at hfleet
    exact servedFleet_ne hi hfleet

/-- With a delivery at another site the order is served. -/
theorem serves_best_small : ∃ p sol,
    PickDeliver.build .insertion twoSites [smallOrderData 10 100] [smallVehicleData 7 []] [] = .ok p ∧
    InitialSolution.construct twoSites 0 true p = .ok sol ∧
    let o := started .insertion sol.toSolution 3 false true
    o.ServesBest twoSites 0 0 (moveOrder twoSites 0 (false, o) 0).2.fleet := by
  obtain ⟨p, sol, hp, hsol, hq⟩ := exists_ok_bind_and (x := PickDeliver.build .insertion twoSites
    [smallOrderData 10 100] [smallVehicleData 7 []] []) (f := InitialSolution.construct twoSites 0 true)
    (fun sol => let o := started .insertion sol.toSolution 3 false true
      decide (areAllServed o.unassignedOrders = false ∧ 0 < o.fleet.length ∧
        (o.vehicle 0).isReal = false ∧ (o.vehicle 0).ordersInVehicle.ids = [0] ∧
        (o.vehicle 0).empty = false ∧ o.realCandidates twoSites 0 0 = [1] ∧
        o.servedObjective twoSites 0 0 1 = 10)) (by decide +kernel)
  obtain ⟨h1, h2, h3, h4, h5, h6, h7⟩ := of_decide_eq_true hq
  refine ⟨p, sol, hp, hsol, (serves_best_iff twoSites (started .insertion sol.toSolution 3 false true)
    0 0 (false, _) ⟨h1, h2, h3, h5, [], [], h4, rfl⟩).mpr ?_ ?_⟩
  · rintro ⟨i, hi, hzero, -⟩
    change i ∈ (started .insertion sol.toSolution 3 false true).realCandidates twoSites 0 0 at hi
    rw [h6] at hi
    obtain rfl := List.mem_singleton.mp hi
    rw [h7] at hzero
    cases hzero
  · change (started .insertion sol.toSolution 3 false true).realCandidates twoSites 0 0 ≠ []
    rw [h6]
    exact List.cons_ne_nil 1 []

end VrpRouting.Optimizers.Tabu
