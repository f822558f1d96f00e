import VrpRouting.Optimizers.Feasibility
import VrpRouting.Optimizers.SimpleCompletion
import VrpRouting.Problem.Cells
import VrpRouting.Problem.Triangles

/-! # Feasibility in the simple optimizer

The operators test the vehicle that gets an order, and not the one that loses it. So a run keeps the
vehicles feasible when removals do: travel times have to satisfy the triangle inequality, as each
vehicle computes them (`StaticTravel`). The driver of the simple optimizer does not check that;
with the check that the other drivers make it holds at speed 1, when no sum of two cells is too large
(`staticTravel_of_obeysTriangleInequality`). -/

open Sorting

namespace VrpRouting

/-! ### The check of the other drivers -/

theorem BaseMatrix.cell_triangle {m : BaseMatrix} (hfit : m.SumsFit)
    (h : m.obeysTriangleInequality = true) {i j k : ℕ} (hi : i < m.timeMatrix.length)
    (hj : j < m.timeMatrix.length) (hk : k < m.timeMatrix.length) :
    m.cell i k ≤ m.cell i j + m.cell j k :=
  (obeysTriangleInequality_iff hfit).mp h i hi j hj k hk

theorem BaseMatrix.getIndex_lt {m : BaseMatrix} {id : ℤ} {i : ℕ} (h : m.getIndex id = some i) :
    i < m.ids.length := by
  unfold BaseMatrix.getIndex at h
  split_ifs at h with hne
  obtain rfl := Option.some.inj h
  exact lt_of_le_of_ne List.findIdx_le_length hne

/-- A square matrix without time dependence that passes the check, at speed 1. -/
theorem staticTravel_of_obeysTriangleInequality {M : Matrix} {c : ℤ × ℚ}
    (hc : M.multipliers = [c]) (hsquare : M.timeMatrix.length = M.ids.length) (hfit : M.SumsFit)
    (h : M.obeysTriangleInequality = true) {ids : List ℤ}
    (hids : ∀ i ∈ ids, (M.getIndex i).isSome = true) : StaticTravel M 1 ids := by
  have htime : ∀ i ∈ ids, ∀ j ∈ ids, ∃ a b, M.getIndex i = some a ∧ M.getIndex j = some b ∧
      ∀ t, drivingTime M 1 i j t = M.cell a b := fun i hi j hj => by
    obtain ⟨a, ha⟩ := Option.isSome_iff_exists.mp (hids i hi)
    obtain ⟨b, hb⟩ := Option.isSome_iff_exists.mp (hids j hj)
    refine ⟨a, b, ha, hb, fun t => ?_⟩
    have ht : M.travelTime i j t = M.cell a b := by
      unfold Matrix.travelTime Matrix.travelTime? Matrix.travelTimeBy?
      rw [hc]
      simp only [ha, hb, Option.getD_some]
    rw [drivingTime, ht, div_one, toInterval_intCast]
  constructor
  · intro i hi j hj t
    obtain ⟨a, b, -, -, hab⟩ := htime i hi j hj
    rw [hab, hab]
  · intro i hi j hj k hk
    obtain ⟨a, b, ha, hb, hab⟩ := htime i hi j hj
    obtain ⟨b', c', hb', hc', hbc⟩ := htime j hj k hk
    obtain ⟨a', c'', ha', hc'', hac⟩ := htime i hi k hk
    obtain rfl := Option.some.inj (hb.symm.trans hb')
    obtain rfl := Option.some.inj (ha.symm.trans ha')
    obtain rfl := Option.some.inj (hc'.symm.trans hc'')
    rw [hab, hbc, hac]
    refine BaseMatrix.cell_triangle hfit h ?_ ?_ ?_ <;> rw [hsquare]
    · exact BaseMatrix.getIndex_lt ha
    · exact BaseMatrix.getIndex_lt hb
    · exact BaseMatrix.getIndex_lt hc'

/-! ### Insertions into whole routes -/

/-- A whole route with an order whose nodes are valid. -/
theorem Whole.inserted {M : Matrix} {orders : Orders} {v w : Vehicle} {i : ℕ}
    (h : Whole orders v) (ho : orders.WellFormed) (hi : i < orders.length)
    (hw : Inserted M v (orders.get i) w) (hf : Free (orders.get i) v)
    (hvalid : ∀ t ∈ (orders.get i).stops, t.isValid = true) : Whole orders w := by
  have hmem : ∀ t ∈ nodesOf w.path, t ∈ (orders.get i).stops ∨ t ∈ nodesOf v.path := fun t ht => by
    obtain ⟨p, d, -, -, -, hN⟩ := hw.positions
    rw [hN] at ht
    rcases List.eq_or_mem_of_mem_insertIdx ht with rfl | ht
    · exact Or.inl (by simp [Order.stops])
    · rcases List.eq_or_mem_of_mem_insertIdx ht with rfl | ht
      · exact Or.inl (by simp [Order.stops])
      · exact Or.inr ht
  refine ⟨fun t ht => (hmem t ht).elim (hvalid t) (h.valid t), fun t ht => ?_, fun j hj => ?_⟩
  · rcases hmem t ht with hs | ht
    · refine Or.inr (Or.inr ⟨i, hi, ?_⟩)
      rcases List.mem_pair.mp hs with rfl | rfl <;> simp [isNodeOf]
    · exact h.known t ht
  · by_cases hji : j = i
    · subst hji
      exact Or.inl (hw.carries hf)
    · unfold Carries Free
      rw [hw.visits_other ho hj hi hji]
      exact h.whole j hj

namespace Optimizers.Simple

open Optimize
open Tabu (Placed settled_congr and_of_perm₂ forall_mem_of_perm₂)
open Initialsol.Simple (InitialsCode)

/-- An evaluated, feasible vehicle, which stays feasible when it loses an order. -/
structure Good (M : Matrix) (orders : Orders) (ids : List ℤ) (v : Vehicle) : Prop where
  settled : Settled M v.capacity v.speed 0 v.path
  feasible : v.isFeasible = true
  travel : StaticTravel M v.speed ids
  ids : ∀ t ∈ nodesOf v.path, t.id ∈ ids
  whole : Whole orders v

section Vehicles
variable {M : Matrix} {orders : Orders} {ids : List ℤ} {v w : Vehicle} {o : ℕ}

theorem Good.unchanged (h : Good M orders ids v) (hw : Unchanged M v w) : Good M orders ids w := by
  obtain rfl := hw.settled h.settled
  exact h

theorem Good.eraseOrder (h : Good M orders ids v) (ho : orders.WellFormed) (hbal : orders.Balanced)
    (hr : RouteOf orders v) (hlt : o < orders.length) :
    Good M orders ids (v.eraseOrder M (orders.get o)) where
  settled := by
    refine settled_congr ?_ ?_ (eraseOrder_settled hr.noDump h.settled)
    · rw [eraseOrder_others]
    · rw [eraseOrder_others]
  feasible := eraseOrder_feasible ho hbal h.travel h.ids hr h.whole h.settled hlt h.feasible
  travel := by
    rw [show (v.eraseOrder M (orders.get o)).speed = v.speed by rw [eraseOrder_others]]
    exact h.travel
  ids t ht := by
    rw [eraseOrder_nodes hr.noDump] at ht
    exact h.ids t (List.mem_of_mem_eraseP (List.mem_of_mem_eraseP ht))
  whole := h.whole.eraseOrder ho hr hlt

/-- The stops of a carried order. -/
theorem Good.stops (h : Good M orders ids v) (hc : Carries (orders.get o) v) :
    ∀ t ∈ (orders.get o).stops, t.isValid = true ∧ t.id ∈ ids := fun t ht => by
  have hmem : t ∈ nodesOf v.path := by
    unfold Carries at hc
    exact List.mem_of_mem_filter (show t ∈ visits (orders.get o) (nodesOf v.path) by rw [hc]; exact ht)
  exact ⟨h.whole.valid t hmem, h.ids t hmem⟩

theorem Good.placed (h : Good M orders ids v) (ho : orders.WellFormed) (hlt : o < orders.length)
    (hw : Placed M v (orders.get o) w) (hf : Free (orders.get o) v) (hn : o ∉ v.ordersInVehicle)
    (hstops : ∀ t ∈ (orders.get o).stops, t.isValid = true ∧ t.id ∈ ids) : Good M orders ids w := by
  rcases hw with ⟨hi, hfeasible⟩ | ⟨-, hmem⟩
  · refine ⟨settled_congr (by rw [hi.others]) (by rw [hi.others]) (hi.settled h.settled), hfeasible,
      ?_, fun t ht => ?_, h.whole.inserted ho hlt hi hf fun t ht => (hstops t ht).1⟩
    · rw [show w.speed = v.speed by rw [hi.others]]
      exact h.travel
    · obtain ⟨p, d, -, -, -, hN⟩ := hi.positions
      rw [hN] at ht
      rcases List.eq_or_mem_of_mem_insertIdx ht with rfl | ht
      · exact (hstops _ (by simp [Order.stops])).2
      · rcases List.eq_or_mem_of_mem_insertIdx ht with rfl | ht
        · exact (hstops _ (by simp [Order.stops])).2
        · exact h.ids t ht
  · rw [hasOrder_get_iff ho hlt] at hmem
    exact absurd hmem hn

end Vehicles

/-- All vehicles are good. -/
structure View.Good (M : Matrix) (orders : Orders) (ids : List ℤ) (s : View) : Prop where
  fleet : ∀ v ∈ s.fleet, Simple.Good M orders ids v
  best : ∀ v ∈ s.best, Simple.Good M orders ids v

/-- **A step keeps the vehicles feasible.** -/
theorem Step.good {M : Matrix} {orders : Orders} {ids : List ℤ} {unserving : Prop}
    (ho : orders.WellFormed) (hbal : orders.Balanced) {F₀ : List Vehicle} {s s' : View}
    (hr : s.Ready orders) (hk : s.Keeps orders F₀) (hs : s.Good M orders ids)
    (h : Step M orders unserving s s') : s'.Good M orders ids := by
  cases h with
  | permute h => exact ⟨fun v hv => hs.fleet v (h.mem_iff.mpr hv), hs.best⟩
  | refresh h =>
    refine ⟨fun w hw => ?_, hs.best⟩
    obtain ⟨v, hv, hvw⟩ := ListEdit.exists_mem_of_forall₂ h hw
    exact (hs.fleet v hv).unchanged hvw
  | dropEmpty => exact ⟨fun v hv => hs.fleet v (List.mem_filter.mp hv).1, hs.best⟩
  | @move a b b' R F o hF hu hao hb' hF' =>
    have hkF := hk.fleet.perm hF
    obtain ⟨hra, -⟩ := and_of_perm₂ hF hr.fleet
    have hlt := hra.movable o hao
    have ha := hkF.tidy a (by simp)
    have hn := hkF.not_mem hao
    exact ⟨forall_mem_of_perm₂ hF hF' hs.fleet fun hga hgb =>
      ⟨hga.eraseOrder ho hbal hra.toRouteOf hlt, hgb.placed ho hlt hb'
        ((hkF.tidy b (by simp)).free hlt hn) hn (hga.stops ((ha.carries_iff hlt).mpr hao))⟩, hs.best⟩
  | @exchange a b a' b' R F o₁ o₂ hF hu hao hbo ha' hb' hF' =>
    have hkF := hk.fleet.perm hF
    obtain ⟨hra, hrb⟩ := and_of_perm₂ hF hr.fleet
    have hlt₁ := hra.movable o₁ hao
    have hlt₂ := hrb.movable o₂ hbo
    have ha := hkF.tidy a (by simp)
    have hb := hkF.tidy b (by simp)
    have hl₁ := ha.eraseOrder (M := M) ho hra.toRouteOf hao
    have hl₂ := hb.eraseOrder (M := M) ho hrb.toRouteOf hbo
    have hn₁ : o₁ ∉ (b.eraseOrder M (orders.get o₂)).ordersInVehicle :=
      fun h => hkF.not_mem hao ((hl₂.movable o₁).mp h).1
    have hn₂ : o₂ ∉ (a.eraseOrder M (orders.get o₁)).ordersInVehicle :=
      fun h => (hkF.perm (.swap ..)).not_mem hbo ((hl₁.movable o₂).mp h).1
    exact ⟨forall_mem_of_perm₂ hF hF' hs.fleet fun hga hgb =>
      ⟨(hga.eraseOrder ho hbal hra.toRouteOf hlt₁).placed ho hlt₂ ha' ((ha.lost hl₁).free hlt₂ hn₂)
          hn₂ (hgb.stops ((hb.carries_iff hlt₂).mpr hbo)),
        (hgb.eraseOrder ho hbal hrb.toRouteOf hlt₂).placed ho hlt₁ hb' ((hb.lost hl₂).free hlt₁ hn₁)
          hn₁ (hga.stops ((ha.carries_iff hlt₁).mpr hao))⟩, hs.best⟩
  | save => exact ⟨hs.fleet, hs.fleet⟩
  | reset => exact ⟨hs.best, hs.best⟩

/-- **The simple optimizer keeps the vehicles feasible** where no detour is shorter than the direct
way. -/
theorem simple_feasible (S : Sorter) (M : Matrix) (sol : Solution) (hs : Sound sol)
    (hk : Keeps sol.orders sol.fleet sol.fleet) (hbal : sol.orders.Balanced)
    (hwhole : ∀ v ∈ sol.fleet, Whole sol.orders v)
    (hsettled : ∀ v ∈ sol.fleet, Settled M v.capacity v.speed 0 v.path)
    (htravel : ∀ v ∈ sol.fleet, StaticTravel M v.speed (pathIds sol.fleet))
    (hfeasible : ∀ v ∈ sol.fleet, v.isFeasible = true) (kind : InitialsCode) :
    (∀ acts, let o := run S M (init sol kind) acts
      (∀ v ∈ o.fleet, v.isFeasible = true) ∧ ∀ v ∈ o.bestSolution.fleet, v.isFeasible = true) ∧
    ∀ fuel times o, construct S M fuel sol times kind = some (.ok o) →
      (∀ v ∈ o.fleet, v.isFeasible = true) ∧ ∀ v ∈ o.bestSolution.fleet, v.isFeasible = true := by
  have hgood : ∀ v ∈ sol.fleet, Good M sol.orders (pathIds sol.fleet) v := fun v hv =>
    ⟨hsettled v hv, hfeasible v hv, htravel v hv, fun t ht =>
      List.mem_flatMap.mpr ⟨v, hv, List.mem_map.mpr ⟨t, ht, rfl⟩⟩, hwhole v hv⟩
  have hstep : ∀ s s' : View, s.Ready sol.orders →
      s.Keeps sol.orders sol.fleet ∧ s.Good M sol.orders (pathIds sol.fleet) →
      Step M sol.orders True s s' →
      s'.Keeps sol.orders sol.fleet ∧ s'.Good M sol.orders (pathIds sol.fleet) :=
    fun _ _ hr h hst => ⟨hst.keeps hs.orders hr h.1, hst.good hs.orders hbal hr h.1 h.2⟩
  have hrun := fun acts : List Act => (hs.run_invariant S M kind hstep
    ⟨⟨hk, hk⟩, ⟨hgood, hgood⟩⟩ (Or.inl trivial : True ∨ CalmRun S M (init sol kind) acts)).2
  have hfeas := fun acts => And.intro (fun v hv => ((hrun acts).fleet v hv).feasible)
    (fun v hv => ((hrun acts).best v hv).feasible)
  refine ⟨hfeas, fun fuel times o ho => ?_⟩
  have h := hfeas o.acts
  rw [← construct_run ho] at h
  exact h

/-- The small solution on the matrix of two sites, which passes the check. -/
theorem simple_feasible_small : ∃ o,
    construct .insertion twoSites 3 Tabu.smallSolution 1 .bestInsert = some (.ok o) ∧
    (∀ v ∈ o.fleet, v.isFeasible = true) ∧ ∀ v ∈ o.bestSolution.fleet, v.isFeasible = true := by
  obtain ⟨o, ho, -⟩ := exists_returned
    (x := construct .insertion twoSites 3 Tabu.smallSolution 1 .bestInsert) (fun _ => true)
    (by decide +kernel)
  have hvalid : ∀ v ∈ Tabu.smallSolution.fleet, ∀ t ∈ nodesOf v.path, t.isValid = true := by
    decide +kernel
  have hknown : ∀ v ∈ Tabu.smallSolution.fleet, ∀ t ∈ nodesOf v.path, t.type = .kStart ∨
      t.type = .kEnd ∨ ∃ i < Tabu.smallSolution.orders.length,
        isNodeOf (Tabu.smallSolution.orders.get i) t = true := by decide +kernel
  have hbal : ∀ i < Tabu.smallSolution.orders.length,
      (Tabu.smallSolution.orders.get i).delivery.demand =
        -(Tabu.smallSolution.orders.get i).pickup.demand := by decide +kernel
  have hsettled : ∀ v ∈ Tabu.smallSolution.fleet,
      evaluatePath twoSites v.capacity v.speed 0 v.path = v.path := by decide +kernel
  have hspeed : ∀ v ∈ Tabu.smallSolution.fleet, v.speed = 1 := by decide +kernel
  have htravel : StaticTravel twoSites 1 (pathIds Tabu.smallSolution.fleet) :=
    staticTravel_of_obeysTriangleInequality rfl rfl (by decide +kernel) (by decide +kernel)
      (by decide +kernel)
  exact ⟨o, ho, (simple_feasible .insertion twoSites Tabu.smallSolution smallSolution_sound
    smallSolution_keeps hbal
    (fun v hv => ⟨hvalid v hv, hknown v hv, Tabu.smallSolution_wellPlaced.whole v hv⟩) hsettled
    (fun v hv => by rw [hspeed v hv]; exact htravel) (by decide +kernel) .bestInsert).2 3 1 o ho⟩

/-! ### A matrix with short detours

The way from site 1 to site 3 takes 10, over site 2 it takes 2. The first vehicle visits site 2 for
the order 0 and is in time for the order 1 at site 3; the second one can take the order 0. -/

def detourMatrix : Matrix :=
  .ofCells [⟨1, 2, 1⟩, ⟨2, 3, 1⟩, ⟨1, 3, 10⟩, ⟨3, 4, 50⟩, ⟨1, 4, 50⟩, ⟨2, 4, 50⟩] [1, 2, 3, 4] 1

def detourOrder (i : ℕ) (pick deliver close : ℤ) : Order :=
  .ofNodes i (10 + i) (.ofTwNode ⟨2 * i, pick, 10 + i, 0, close, 0, 1, .kPickup⟩)
    (.ofTwNode ⟨2 * i + 1, deliver, 10 + i, 0, close, 0, -1, .kDelivery⟩)

def detourOrders : Orders :=
  [detourOrder 0 2 4 1000, detourOrder 1 3 3 5, detourOrder 2 2 4 1000, detourOrder 3 2 4 1000,
    detourOrder 4 2 4 1000]

/-- A vehicle that leaves site 1 at `t`. -/
def detourVehicle (k : ℕ) (t : ℤ) (stops : List VehicleNode) (movable : List ℕ) : Vehicle :=
  vehicleWith detourMatrix detourOrders k (k + 1) 10
    (.ofTwNode ⟨10 + 2 * k, 1, 0, t, 1000, 0, 0, .kStart⟩)
    (.ofTwNode ⟨11 + 2 * k, 1, 0, 0, 1000, 0, 0, .kEnd⟩) stops movable

def detourSolution : Solution where
  fleet :=
    [detourVehicle 0 0 [(detourOrders.get 0).pickup, (detourOrders.get 1).pickup,
        (detourOrders.get 1).delivery, (detourOrders.get 0).delivery] [0, 1],
      detourVehicle 1 6 [(detourOrders.get 2).pickup, (detourOrders.get 3).pickup,
        (detourOrders.get 4).pickup, (detourOrders.get 2).delivery, (detourOrders.get 3).delivery,
        (detourOrders.get 4).delivery] [2, 3, 4]]
  orders := detourOrders
  trucks := ⟨[], .empty, .empty, .empty⟩

/-- `decrease_truck` takes the order 0 off the first vehicle, which is late at site 3 then; the
duration of the fleet is smaller, so this is the best solution. -/
theorem construct_infeasible : detourMatrix.hasNoInfinity = true ∧
    (∀ v ∈ detourSolution.fleet, v.isFeasible = true) ∧ ∃ o,
    construct .insertion detourMatrix 3 detourSolution 0 .bestInsert = some (.ok o) ∧
    ∃ v ∈ o.bestSolution.fleet, v.isFeasible = false ∧ v.twvTot = 2 := by
  obtain ⟨o, ho, hv⟩ := exists_returned
    (x := construct .insertion detourMatrix 3 detourSolution 0 .bestInsert)
    (fun o => decide (∃ v ∈ o.bestSolution.fleet, v.isFeasible = false ∧ v.twvTot = 2))
    (by decide +kernel)
  exact ⟨by decide +kernel, by decide +kernel, o, ho, of_decide_eq_true hv⟩

end Optimizers.Simple

end VrpRouting
