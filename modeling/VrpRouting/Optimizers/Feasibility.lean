import VrpRouting.Optimizers.Conservation
import VrpRouting.Problem.ErasedOrder

/-! # The search keeps every vehicle feasible

Insertions and the vehicles of a move are tested before they are accepted. The one edit that is not
tested is the removal of a served order from its phony vehicle; it keeps the vehicle feasible when
travel times satisfy the triangle inequality (`eraseOrder_feasible`). -/

open Sorting

namespace VrpRouting

/-- The nodes on the paths of a fleet. -/
def pathIds (F : List Vehicle) : List ℤ := F.flatMap fun v => (nodesOf v.path).map TwNode.id

end VrpRouting

namespace VrpRouting.Optimizers.Tabu

/-- An evaluated, feasible vehicle; a phony one has in addition what makes removals safe. -/
structure Good (M : Matrix) (orders : Orders) (ids : List ℤ) (v : Vehicle) : Prop where
  settled : Settled M v.capacity v.speed 0 v.path
  feasible : v.isFeasible = true
  phony : v.isPhony = true → StaticTravel M v.speed ids ∧ (∀ t ∈ nodesOf v.path, t.id ∈ ids) ∧
    Whole orders v

section Vehicles
variable {M : Matrix} {orders : Orders} {ids : List ℤ} {v w : Vehicle} {o : ℕ}

theorem settled_congr (hcap : w.capacity = v.capacity) (hspeed : w.speed = v.speed)
    (h : Settled M v.capacity v.speed 0 w.path) : Settled M w.capacity w.speed 0 w.path := by
  rwa [hcap, hspeed]

theorem Good.of_inserted {o : Order} (h : Good M orders ids v) (hi : Inserted M v o w)
    (hreal : v.isPhony = false) (hf : w.isFeasible = true) : Good M orders ids w where
  settled := settled_congr (by rw [hi.others]) (by rw [hi.others]) (hi.settled h.settled)
  feasible := hf
  phony hp := by
    rw [hi.others] at hp
    exact absurd hp (by simpa [Vehicle.isPhony] using hreal)

/-- A placement on an evaluated vehicle is feasible. -/
theorem Good.of_placed {o : Order} (hs : Settled M v.capacity v.speed 0 v.path)
    (hp : Placed M v o w) (hreal : v.isPhony = false)
    (hv : v.isFeasible = true ∨ w.isFeasible = true) : Good M orders ids w := by
  rcases hp with ⟨h, hf⟩ | ⟨h, -⟩
  · refine ⟨settled_congr (by rw [h.others]) (by rw [h.others]) (h.settled hs), hf, fun hp => ?_⟩
    rw [h.others] at hp
    exact absurd hp (by simpa [Vehicle.isPhony] using hreal)
  · obtain rfl := h.settled hs
    exact ⟨hs, hv.elim id id, fun hp => absurd hp (by simp [hreal])⟩

theorem Good.eraseOrder_settled (h : Good M orders ids v) (hr : RouteOf orders v) (o : Order) :
    Settled M (v.eraseOrder M o).capacity (v.eraseOrder M o).speed 0 (v.eraseOrder M o).path := by
  refine settled_congr ?_ ?_ (VrpRouting.eraseOrder_settled hr.noDump h.settled)
  · rw [eraseOrder_others]
  · rw [eraseOrder_others]

/-- A phony vehicle stays good when it loses an order. -/
theorem Good.eraseOrder (ho : orders.WellFormed) (hbal : orders.Balanced) (h : Good M orders ids v)
    (hr : RouteOf orders v) (hphony : v.isPhony = true) (hlt : o < orders.length) :
    Good M orders ids (v.eraseOrder M (orders.get o)) := by
  obtain ⟨hM, hids, hw⟩ := h.phony hphony
  refine ⟨h.eraseOrder_settled hr _, eraseOrder_feasible ho hbal hM hids hr hw h.settled hlt
    h.feasible, fun _ => ⟨?_, fun t ht => ?_, hw.eraseOrder ho hr hlt⟩⟩
  · rw [show (v.eraseOrder M (orders.get o)).speed = v.speed by rw [eraseOrder_others]]
    exact hM
  · rw [eraseOrder_nodes hr.noDump] at ht
    exact hids t (List.mem_of_mem_eraseP (List.mem_of_mem_eraseP ht))

end Vehicles

/-- All vehicles are good. -/
structure View.Good (M : Matrix) (orders : Orders) (ids : List ℤ) (s : View) : Prop where
  fleet : ∀ v ∈ s.fleet, Tabu.Good M orders ids v
  best : ∀ v ∈ s.best, Tabu.Good M orders ids v

/-- **A step keeps the vehicles feasible.** -/
theorem Step.good {M : Matrix} {orders : Orders} {ids : List ℤ} (ho : orders.WellFormed)
    (hbal : orders.Balanced) {s s' : View} (hr : s.Ready orders) (hs : s.Good M orders ids)
    (h : Step M orders s s') : s'.Good M orders ids := by
  cases h with
  | permute h => exact ⟨fun v hv => hs.fleet v (h.mem_iff.mpr hv), hs.best⟩
  | dropEmpty => exact ⟨fun v hv => hs.fleet v (List.mem_filter.mp hv).1, hs.best⟩
  | serve hF ha hb hao _ hb' hf hF' =>
    obtain ⟨hra, -⟩ := and_of_perm₂ hF hr.fleet
    have := forall_mem_of_perm₂ hF hF' hs.fleet fun hga hgb =>
      ⟨hga.eraseOrder ho hbal hra ha (hra.movable _ hao), hgb.of_inserted hb' hb hf⟩
    exact ⟨this, this⟩
  | @relocate a b b' R F o hF ha hb hao hb' hf hF' =>
    obtain ⟨hra, -⟩ := and_of_perm₂ hF hr.fleet
    refine ⟨forall_mem_of_perm₂ hF hF' hs.fleet fun hga hgb => ⟨⟨hga.eraseOrder_settled hra _, hf,
      fun hp => ?_⟩, .of_placed hgb.settled hb' hb (Or.inl hgb.feasible)⟩, hs.best⟩
    rw [eraseOrder_others] at hp
    exact absurd hp (by simpa [Vehicle.isPhony] using ha)
  | @exchange a b a' b' R F o₁ o₂ hF ha hb hao hbo ha' hb' hfa hfb hF' =>
    obtain ⟨hra, hrb⟩ := and_of_perm₂ hF hr.fleet
    have hreal : ∀ {v : Vehicle} (o : Order), v.isPhony = false →
        (v.eraseOrder M o).isPhony = false := fun o hv => by
      rw [eraseOrder_others]
      exact hv
    exact ⟨forall_mem_of_perm₂ hF hF' hs.fleet fun hga hgb =>
      ⟨.of_placed (hga.eraseOrder_settled hra _) ha' (hreal _ ha) (Or.inr hfa),
        .of_placed (hgb.eraseOrder_settled hrb _) hb' (hreal _ hb) (Or.inr hfb)⟩, hs.best⟩
  | save _ => exact ⟨hs.fleet, hs.fleet⟩
  | reset => exact ⟨hs.best, hs.best⟩

/-- **Every vehicle stays feasible**, in the fleet and in the best solution, between any operations
and at the end. -/
theorem run_feasible (S : Sorter) (M : Matrix) (sol : Solution) (hv : sol.Valid)
    (hbal : sol.orders.Balanced) (hwhole : ∀ v ∈ sol.fleet, Whole sol.orders v)
    (hsettled : ∀ v ∈ sol.fleet, Settled M v.capacity v.speed 0 v.path)
    (htravel : ∀ v ∈ sol.fleet, StaticTravel M v.speed (pathIds sol.fleet))
    (hfeasible : ∀ v ∈ sol.fleet, v.isFeasible = true)
    (maxCycles : ℕ) (stopOnAllServed optimize : Bool) :
    (∀ ops, let o := run S M (started S sol maxCycles stopOnAllServed optimize) ops
      (∀ v ∈ o.fleet, v.isFeasible = true) ∧ ∀ v ∈ o.bestSolution.fleet, v.isFeasible = true) ∧
    let o := Optimize.construct S M sol maxCycles stopOnAllServed optimize
    (∀ v ∈ o.fleet, v.isFeasible = true) ∧ ∀ v ∈ o.bestSolution.fleet, v.isFeasible = true := by
  have hgood : ∀ v ∈ sol.fleet, Good M sol.orders (pathIds sol.fleet) v := fun v hvF =>
    ⟨hsettled v hvF, hfeasible v hvF, fun _ => ⟨htravel v hvF, fun t ht =>
      List.mem_flatMap.mpr ⟨v, hvF, List.mem_map.mpr ⟨t, ht, rfl⟩⟩, hwhole v hvF⟩⟩
  have hperm := started_perm S sol maxCycles stopOnAllServed optimize
  obtain ⟨hrun, s, hs, h1, h2, -⟩ := hv.run_invariant S M maxCycles stopOnAllServed optimize
    (P := View.Good M sol.orders (pathIds sol.fleet))
    (fun _ _ hr hs hst => hst.good hv.orders hbal hr hs)
    ⟨fun v hvF => hgood v (hperm.mem_iff.mp hvF), hgood⟩
  refine ⟨fun ops => ⟨fun v hv => ((hrun ops).fleet v hv).feasible,
    fun v hv => ((hrun ops).best v hv).feasible⟩, ?_⟩
  dsimp only
  rw [h1, h2]
  exact ⟨fun v hv => (hs.best v hv).feasible, fun v hv => (hs.best v hv).feasible⟩

/-- The small solution is feasible, and stays so when its unserved order is served. -/
theorem run_feasible_small :
    let o := run .insertion twoSites (started .insertion smallSolution 5 false true)
      [.move2Real, .swapBetweenRoutes false true]
    (∀ v ∈ o.fleet, v.isFeasible = true) ∧ ∀ v ∈ o.bestSolution.fleet, v.isFeasible = true := by
  have hvalid : ∀ v ∈ smallSolution.fleet, ∀ t ∈ nodesOf v.path, t.isValid = true := by
    decide +kernel
  have hknown : ∀ v ∈ smallSolution.fleet, ∀ t ∈ nodesOf v.path, t.type = .kStart ∨
      t.type = .kEnd ∨ ∃ i < smallSolution.orders.length,
        isNodeOf (smallSolution.orders.get i) t = true := by decide +kernel
  have htriangle : ∀ v ∈ smallSolution.fleet, ∀ i ∈ pathIds smallSolution.fleet,
      ∀ j ∈ pathIds smallSolution.fleet, ∀ k ∈ pathIds smallSolution.fleet,
      drivingTime twoSites v.speed i k 0 ≤
        drivingTime twoSites v.speed i j 0 + drivingTime twoSites v.speed j k 0 := by decide +kernel
  have hbal : ∀ i < smallSolution.orders.length, (smallSolution.orders.get i).delivery.demand =
      -(smallSolution.orders.get i).pickup.demand := by decide +kernel
  have hsettled : ∀ v ∈ smallSolution.fleet,
      evaluatePath twoSites v.capacity v.speed 0 v.path = v.path := by decide +kernel
  exact (run_feasible .insertion twoSites smallSolution smallSolution_valid hbal
    (fun v hv => ⟨hvalid v hv, hknown v hv, smallSolution_wellPlaced.whole v hv⟩) hsettled
    (fun v hv => ⟨fun _ _ _ _ _ => rfl, htriangle v hv⟩) (by decide +kernel)
    5 false true).1 [.move2Real, .swapBetweenRoutes false true]

end VrpRouting.Optimizers.Tabu
