import VrpRouting.Optimizers.SimpleRuns

/-! # Orders on phony vehicles

`move_order` and `move_reduce_cost` move no order from a real truck to a phony one;
`decrease_truck` and the swaps of `swap_worse` have no such guard. A run in which they do not meet a
phony truck where they could use it (`CalmRun`) leaves no order on a phony vehicle that was not on
one at the start. Otherwise a served order may end on a phony vehicle, which makes the fleet smaller
and the solution a better one. -/

open Sorting

namespace VrpRouting.Optimizers.Simple

open Optimize
open Tabu (Placed OnPhony)
open Initialsol.Simple (InitialsCode)

/-- The phony vehicles hold orders only that were on phony vehicles of `F₀`. -/
structure View.Serves (F₀ : List Vehicle) (s : View) : Prop where
  fleet : ∀ i, OnPhony s.fleet i → OnPhony F₀ i
  best : ∀ i, OnPhony s.best i → OnPhony F₀ i

/-- **A step that is not unserving puts no order on a phony vehicle.** -/
theorem Step.serves {M : Matrix} {orders : Orders} (ho : orders.WellFormed) {F₀ : List Vehicle}
    {s s' : View} (hr : s.Ready orders) (hs : s.Serves F₀) (h : Step M orders False s s') :
    s'.Serves F₀ := by
  have hlt : ∀ {v : Vehicle} {i : ℕ}, v ∈ s.fleet → i ∈ v.ordersInVehicle → i < orders.length :=
    fun hv => (hr.fleet _ hv).movable _
  cases h with
  | permute h => exact ⟨fun i hi => hs.fleet i (hi.perm h.symm), hs.best⟩
  | refresh h =>
    refine ⟨fun i hi => hs.fleet i (hi.mono fun w hw hp hi => ?_), hs.best⟩
    obtain ⟨v, hv, hvw⟩ := ListEdit.exists_mem_of_forall₂ h hw
    exact ⟨v, hv, hvw.isPhony ▸ hp, hvw.ordersInVehicle ▸ hi⟩
  | dropEmpty =>
    exact ⟨fun i hi => hs.fleet i (hi.mono fun v hv hp hi => ⟨v, (List.mem_filter.mp hv).1, hp, hi⟩),
      hs.best⟩
  | @move a b b' R F o hF hu hao hb' hF' =>
    have hmem : ∀ v ∈ a :: b :: R, v ∈ s.fleet := fun v hv => hF.mem_iff.mpr hv
    have hol := hlt (hmem a (by simp)) hao
    refine ⟨fun i hi => hs.fleet i (OnPhony.perm hF.symm ((hi.perm hF').mono fun w hw hp hi => ?_)),
      hs.best⟩
    rcases List.mem_cons.mp hw with rfl | hw
    · rw [isPhony_eraseOrder] at hp
      exact ⟨a, by simp, hp, mem_of_mem_eraseOrder hi⟩
    · rcases List.mem_cons.mp hw with rfl | hw
      · rw [hb'.isPhony] at hp
        rcases (hb'.mem_iff ho hol).mp hi with rfl | hi
        · -- the giver is phony as well
          have ha : a.isPhony = true := by
            by_contra ha
            exact hu.elim id fun hu => hu ⟨by simpa using ha, hp⟩
          exact ⟨a, by simp, ha, hao⟩
        · exact ⟨b, by simp, hp, hi⟩
      · exact ⟨w, by simp [hw], hp, hi⟩
  | @exchange a b a' b' R F o₁ o₂ hF hu hao hbo ha' hb' hF' =>
    have hmem : ∀ v ∈ a :: b :: R, v ∈ s.fleet := fun v hv => hF.mem_iff.mpr hv
    have hol₁ := hlt (hmem a (by simp)) hao
    have hol₂ := hlt (hmem b (by simp)) hbo
    have hab : a.isPhony = b.isPhony := hu.elim False.elim id
    refine ⟨fun i hi => hs.fleet i (OnPhony.perm hF.symm ((hi.perm hF').mono fun w hw hp hi => ?_)),
      hs.best⟩
    rcases List.mem_cons.mp hw with rfl | hw
    · rw [ha'.isPhony, isPhony_eraseOrder] at hp
      rcases (ha'.mem_iff ho hol₂).mp hi with rfl | hi
      · exact ⟨b, by simp, hab ▸ hp, hbo⟩
      · exact ⟨a, by simp, hp, mem_of_mem_eraseOrder hi⟩
    · rcases List.mem_cons.mp hw with rfl | hw
      · rw [hb'.isPhony, isPhony_eraseOrder] at hp
        rcases (hb'.mem_iff ho hol₁).mp hi with rfl | hi
        · exact ⟨a, by simp, hab.trans hp, hao⟩
        · exact ⟨b, by simp, hp, mem_of_mem_eraseOrder hi⟩
      · exact ⟨w, by simp [hw], hp, hi⟩
  | save => exact ⟨hs.fleet, hs.fleet⟩
  | reset => exact ⟨hs.best, hs.best⟩

/-- **A calm run un-serves no order**: neither its fleet nor its best fleet has an order on a phony
vehicle that was not on one at the start. -/
theorem calm_run_serves (S : Sorter) (M : Matrix) (sol : Solution) (hs : Sound sol)
    (kind : InitialsCode) :
    (∀ acts, CalmRun S M (init sol kind) acts → let o := run S M (init sol kind) acts
      ∀ i, OnPhony o.fleet i ∨ OnPhony o.bestSolution.fleet i → OnPhony sol.fleet i) ∧
    ∀ fuel times o, construct S M fuel sol times kind = some (.ok o) →
      CalmRun S M (init sol kind) o.acts →
      ∀ i, OnPhony o.fleet i ∨ OnPhony o.bestSolution.fleet i → OnPhony sol.fleet i := by
  have hrun : ∀ acts, CalmRun S M (init sol kind) acts →
      (run S M (init sol kind) acts).view.Serves sol.fleet := fun acts hc =>
    hs.run_invariant S M kind (P := View.Serves sol.fleet)
      (fun _ _ hr hs' hst => hst.serves hs.orders hr hs') ⟨fun _ h => h, fun _ h => h⟩ (Or.inr hc)
  refine ⟨fun acts hc i hi => hi.elim ((hrun acts hc).fleet i) ((hrun acts hc).best i),
    fun fuel times o ho hc i hi => ?_⟩
  have h := hrun o.acts hc
  rw [← construct_run ho] at h
  exact hi.elim (h.fleet i) (h.best i)

/-- In the small solution the real vehicle stands before the phony one and takes its order. -/
theorem calm_run_serves_small : ∃ o,
    construct .insertion twoSites 3 Tabu.smallSolution 1 .bestInsert = some (.ok o) ∧
    CalmRun .insertion twoSites (init Tabu.smallSolution .bestInsert) o.acts ∧
    ∀ i, OnPhony o.fleet i ∨ OnPhony o.bestSolution.fleet i →
      OnPhony Tabu.smallSolution.fleet i := by
  obtain ⟨o, ho, hc⟩ := exists_returned
    (x := construct .insertion twoSites 3 Tabu.smallSolution 1 .bestInsert)
    (fun o => decide (CalmRun .insertion twoSites (init Tabu.smallSolution .bestInsert) o.acts))
    (by decide +kernel)
  exact ⟨o, ho, of_decide_eq_true hc, (calm_run_serves .insertion twoSites Tabu.smallSolution
    smallSolution_sound .bestInsert).2 3 1 o ho (of_decide_eq_true hc)⟩

/-! ### A phony vehicle with more orders than the real one -/

def servingOrders : Orders := [Tabu.smallOrder 0, Tabu.smallOrder 1, Tabu.smallOrder 2]

/-- A small vehicle with the orders of `served`, one after the other. -/
def servingVehicle (i : ℕ) (id : ℤ) (served : List ℕ) : Vehicle :=
  vehicleWith twoSites servingOrders i id 10 (Tabu.smallStart (i + 1)) (Tabu.smallEnd (i + 1))
    (served.flatMap fun o => [(servingOrders.get o).pickup, (servingOrders.get o).delivery]) served

/-- The order 0 is served, the orders 1 and 2 are not. -/
def unservedSolution : Solution :=
  ⟨[servingVehicle 0 7 [0], servingVehicle 1 (-1) [1, 2]], servingOrders, ⟨[], .empty, .empty, .empty⟩⟩

theorem servingOrders_wellFormed : servingOrders.WellFormed := Tabu.map_smallOrder_wellFormed 3

theorem unservedSolution_sound : Sound unservedSolution where
  orders := servingOrders_wellFormed
  pickups := by decide +kernel
  fleet v hv := by
    have hmovable : ∀ v ∈ unservedSolution.fleet, ∀ i ∈ v.ordersInVehicle, i < servingOrders.length := by
      decide +kernel
    have hsites : ∀ v ∈ unservedSolution.fleet, ∀ t ∈ nodesOf v.path,
        t.type = .kStart ∨ t.type = .kEnd → ∀ i < servingOrders.length,
          isNodeOf (servingOrders.get i) t = false := by decide +kernel
    have hroute : IsRoute (nodesOf v.path) := by
      simp only [unservedSolution, List.mem_cons, List.not_mem_nil, or_false] at hv
      rcases hv with rfl | rfl
      · exact vehicleWith_route rfl rfl (by decide)
      · exact vehicleWith_route rfl rfl (by decide)
    have hknows : v.orders = servingOrders := by
      simp only [unservedSolution, List.mem_cons, List.not_mem_nil, or_false] at hv
      rcases hv with rfl | rfl <;> rfl
    exact ⟨⟨hroute, hsites v hv, hmovable v hv⟩, by rw [hknows]; rfl⟩

/-- The phony vehicle has more orders, so it comes first: `decrease_truck` moves the served order to
it and deletes the real vehicle. -/
theorem construct_unserves : Sound unservedSolution ∧ ∃ o,
    construct .insertion twoSites 3 unservedSolution 0 .bestInsert = some (.ok o) ∧
    OnPhony o.fleet 0 ∧ ¬ OnPhony unservedSolution.fleet 0 := by
  obtain ⟨o, ho, hp⟩ := exists_returned
    (x := construct .insertion twoSites 3 unservedSolution 0 .bestInsert)
    (fun o => decide (OnPhony o.fleet 0)) (by decide +kernel)
  exact ⟨unservedSolution_sound, o, ho, of_decide_eq_true hp, by decide +kernel⟩

end VrpRouting.Optimizers.Simple
