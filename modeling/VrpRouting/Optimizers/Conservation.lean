import VrpRouting.Optimizers.Runs

/-! # The search conserves the orders

At the start each order is on one vehicle or on none, and a vehicle may only give away orders of its
own path (`WellPlaced`). A step takes an order off one vehicle (`Lost`) and puts it on another one
(`Gained`), so no order is lost or duplicated, in the fleet and in the best fleet. -/

open Sorting

namespace VrpRouting.Optimizers.Tabu

structure WellPlaced (orders : Orders) (F : List Vehicle) : Prop where
  /-- On each path, an order is there once, pickup before delivery, or not at all. -/
  whole : ∀ v ∈ F, ∀ i < orders.length, Carries (orders.get i) v ∨ Free (orders.get i) v
  once : ∀ i < orders.length, carriers (orders.get i) F ≤ 1
  movable : ∀ v ∈ F, ∀ i ∈ v.ordersInVehicle, i < orders.length ∧ Carries (orders.get i) v
  phony : ∀ v ∈ F, v.isPhony = true → ∀ i < orders.length, Carries (orders.get i) v →
    i ∈ v.ordersInVehicle

theorem Carries.of_visits {o : Order} {v w : Vehicle}
    (h : visits o (nodesOf w.path) = visits o (nodesOf v.path)) : Carries o w ↔ Carries o v := by
  unfold Carries
  rw [h]

theorem Free.of_visits {o : Order} {v w : Vehicle}
    (h : visits o (nodesOf w.path) = visits o (nodesOf v.path)) : Free o w ↔ Free o v := by
  unfold Free
  rw [h]

/-- `w` is `v` without the order. -/
structure Lost (orders : Orders) (o : ℕ) (v w : Vehicle) : Prop where
  free : Free (orders.get o) w
  other : ∀ i < orders.length, i ≠ o →
    visits (orders.get i) (nodesOf w.path) = visits (orders.get i) (nodesOf v.path)
  movable : ∀ i, i ∈ w.ordersInVehicle ↔ i ∈ v.ordersInVehicle ∧ i ≠ o
  phony : w.isPhony = v.isPhony

/-- `w` is `v` with the order. -/
structure Gained (orders : Orders) (o : ℕ) (v w : Vehicle) : Prop where
  carries : Carries (orders.get o) w
  other : ∀ i < orders.length, i ≠ o →
    visits (orders.get i) (nodesOf w.path) = visits (orders.get i) (nodesOf v.path)
  movable : ∀ i, i ∈ w.ordersInVehicle ↔ i = o ∨ i ∈ v.ordersInVehicle
  phony : w.isPhony = v.isPhony

section Changes
variable {orders : Orders} {v w : Vehicle} {o i : ℕ}

theorem Lost.carries_iff (h : Lost orders o v w) (hi : i < orders.length) :
    Carries (orders.get i) w ↔ Carries (orders.get i) v ∧ i ≠ o := by
  by_cases hio : i = o
  · subst hio
    exact ⟨fun hc => absurd hc h.free.not_carries, fun hc => absurd rfl hc.2⟩
  · rw [Carries.of_visits (h.other i hi hio), and_iff_left hio]

theorem Gained.carries_iff (h : Gained orders o v w) (hi : i < orders.length) :
    Carries (orders.get i) w ↔ i = o ∨ Carries (orders.get i) v := by
  by_cases hio : i = o
  · subst hio
    exact ⟨fun _ => Or.inl rfl, fun _ => h.carries⟩
  · rw [Carries.of_visits (h.other i hi hio), or_iff_right hio]

theorem Lost.whole (h : Lost orders o v w) (hi : i < orders.length)
    (hv : Carries (orders.get i) v ∨ Free (orders.get i) v) :
    Carries (orders.get i) w ∨ Free (orders.get i) w := by
  by_cases hio : i = o
  · subst hio
    exact Or.inr h.free
  · rwa [Carries.of_visits (h.other i hi hio), Free.of_visits (h.other i hi hio)]

theorem Gained.whole (h : Gained orders o v w) (hi : i < orders.length)
    (hv : Carries (orders.get i) v ∨ Free (orders.get i) v) :
    Carries (orders.get i) w ∨ Free (orders.get i) w := by
  by_cases hio : i = o
  · subst hio
    exact Or.inl h.carries
  · rwa [Carries.of_visits (h.other i hi hio), Free.of_visits (h.other i hi hio)]

/-- What `WellPlaced` says about one vehicle. -/
structure Proper (orders : Orders) (v : Vehicle) : Prop where
  whole : ∀ i < orders.length, Carries (orders.get i) v ∨ Free (orders.get i) v
  movable : ∀ i ∈ v.ordersInVehicle, i < orders.length ∧ Carries (orders.get i) v
  phony : v.isPhony = true → ∀ i < orders.length, Carries (orders.get i) v →
    i ∈ v.ordersInVehicle

theorem Proper.lost (h : Proper orders v) (hl : Lost orders o v w) : Proper orders w where
  whole i hi := hl.whole hi (h.whole i hi)
  movable i hm := by
    obtain ⟨hm, hio⟩ := (hl.movable i).mp hm
    obtain ⟨hi, hc⟩ := h.movable i hm
    exact ⟨hi, (hl.carries_iff hi).mpr ⟨hc, hio⟩⟩
  phony hp i hi hc := by
    obtain ⟨hc, hio⟩ := (hl.carries_iff hi).mp hc
    exact (hl.movable i).mpr ⟨h.phony (hl.phony ▸ hp) i hi hc, hio⟩

theorem Proper.gained (h : Proper orders v) (hlt : o < orders.length) (hg : Gained orders o v w) :
    Proper orders w where
  whole i hi := hg.whole hi (h.whole i hi)
  movable i hm := by
    rcases (hg.movable i).mp hm with rfl | hm
    · exact ⟨hlt, hg.carries⟩
    · obtain ⟨hi, hc⟩ := h.movable i hm
      exact ⟨hi, (hg.carries_iff hi).mpr (Or.inr hc)⟩
  phony hp i hi hc := (hg.movable i).mpr
    (((hg.carries_iff hi).mp hc).imp id (h.phony (hg.phony ▸ hp) i hi))

end Changes

section Vehicles
variable {M : Matrix} {orders : Orders} (ho : orders.WellFormed) {v w : Vehicle} {o : ℕ}
  (hlt : o < orders.length)
include ho hlt

theorem lost_eraseOrder (hv : NoDump v.path) (hc : Carries (orders.get o) v) :
    Lost orders o v (v.eraseOrder M (orders.get o)) where
  free := eraseOrder_free hv hc
  other _ hi hio := eraseOrder_visits_other ho hi hlt hv hio
  movable _ := mem_eraseOrder_iff ho hlt v M
  phony := isPhony_eraseOrder v _

theorem gained_of_inserted (h : Inserted M v (orders.get o) w) (hf : Free (orders.get o) v) :
    Gained orders o v w where
  carries := h.carries hf
  other i hi hio := h.visits_other ho hi hlt hio
  movable i := by rw [h.others, Identifiers.mem_insert, ho.idx o hlt]
  phony := by rw [h.others]; rfl

theorem Placed.gained (h : Placed M v (orders.get o) w) (hf : Free (orders.get o) v)
    (hn : o ∉ v.ordersInVehicle) : Gained orders o v w := by
  rcases h with ⟨h, -⟩ | ⟨-, h⟩
  · exact gained_of_inserted ho hlt h hf
  · rw [hasOrder_get_iff ho hlt] at h
    exact absurd h hn

end Vehicles

/-! ### Pairs of vehicles -/

namespace WellPlaced

variable {orders : Orders} {F F' R : List Vehicle} {a b a' b' a₁ b₁ : Vehicle} {o o₁ o₂ : ℕ}

theorem perm (h : WellPlaced orders F) (hF : F.Perm F') : WellPlaced orders F' where
  whole v hv := h.whole v (hF.mem_iff.mpr hv)
  once i hi := by rw [← carriers_perm hF]; exact h.once i hi
  movable v hv := h.movable v (hF.mem_iff.mpr hv)
  phony v hv := h.phony v (hF.mem_iff.mpr hv)

/-- An order of the first vehicle is not on the second one. -/
theorem free_second (h : WellPlaced orders (a :: b :: R)) (ho : o ∈ a.ordersInVehicle) :
    Free (orders.get o) b ∧ o ∉ b.ordersInVehicle := by
  obtain ⟨hlt, hc⟩ := h.movable a (by simp) o ho
  have hb : ¬ Carries (orders.get o) b := fun hb => by
    have := h.once o hlt
    rw [carriers_cons, carriers_cons, if_pos hc, if_pos hb] at this
    omega
  exact ⟨(h.whole b (by simp) o hlt).resolve_left hb, fun hm => hb (h.movable b (by simp) o hm).2⟩

theorem swap (h : WellPlaced orders (a :: b :: R)) : WellPlaced orders (b :: a :: R) :=
  h.perm (.swap ..)

theorem proper (h : WellPlaced orders F) {v : Vehicle} (hv : v ∈ F) : Proper orders v :=
  ⟨h.whole v hv, h.movable v hv, h.phony v hv⟩

/-- Two vehicles are replaced by two that carry the same orders together. -/
theorem replace (h : WellPlaced orders (a :: b :: R)) (ha' : Proper orders a')
    (hb' : Proper orders b')
    (hsum : ∀ i < orders.length,
      ((if Carries (orders.get i) a' then 1 else 0) + if Carries (orders.get i) b' then 1 else 0) =
        (if Carries (orders.get i) a then 1 else 0) + if Carries (orders.get i) b then 1 else 0) :
    WellPlaced orders (a' :: b' :: R) ∧
      ∀ i < orders.length, carriers (orders.get i) (a' :: b' :: R) =
        carriers (orders.get i) (a :: b :: R) := by
  have hcount : ∀ i < orders.length, carriers (orders.get i) (a' :: b' :: R) =
      carriers (orders.get i) (a :: b :: R) := fun i hi => by
    have := hsum i hi
    simp only [carriers_cons]
    omega
  have hall : ∀ v ∈ a' :: b' :: R, Proper orders v := fun v hv => by
    rcases List.mem_cons.mp hv with rfl | hv
    · exact ha'
    · rcases List.mem_cons.mp hv with rfl | hv
      · exact hb'
      · exact h.proper (by simp [hv])
  refine ⟨⟨fun v hv => (hall v hv).whole, fun i hi => ?_, fun v hv => (hall v hv).movable,
    fun v hv => (hall v hv).phony⟩, hcount⟩
  rw [hcount i hi]
  exact h.once i hi

/-- An order moves from the first vehicle to the second one. -/
theorem move (h : WellPlaced orders (a :: b :: R)) (ho : o ∈ a.ordersInVehicle)
    (hl : Lost orders o a a') (hg : Gained orders o b b') :
    WellPlaced orders (a' :: b' :: R) ∧
      ∀ i < orders.length, carriers (orders.get i) (a' :: b' :: R) =
        carriers (orders.get i) (a :: b :: R) := by
  obtain ⟨hlt, hc⟩ := h.movable a (by simp) o ho
  have hfb := (h.free_second ho).1.not_carries
  refine h.replace ((h.proper (by simp)).lost hl) ((h.proper (by simp)).gained hlt hg)
    fun i hi => ?_
  simp only [hl.carries_iff hi, hg.carries_iff hi]
  by_cases hio : i = o
  · subst hio
    simp [hc, hfb]
  · simp [hio]

/-- The vehicles exchange an order each. -/
theorem exchange (h : WellPlaced orders (a :: b :: R)) (ho₁ : o₁ ∈ a.ordersInVehicle)
    (ho₂ : o₂ ∈ b.ordersInVehicle) (hl₁ : Lost orders o₁ a a₁) (hg₁ : Gained orders o₂ a₁ a')
    (hl₂ : Lost orders o₂ b b₁) (hg₂ : Gained orders o₁ b₁ b') :
    WellPlaced orders (a' :: b' :: R) ∧
      ∀ i < orders.length, carriers (orders.get i) (a' :: b' :: R) =
        carriers (orders.get i) (a :: b :: R) := by
  obtain ⟨hlt₁, hc₁⟩ := h.movable a (by simp) o₁ ho₁
  obtain ⟨hlt₂, hc₂⟩ := h.movable b (by simp) o₂ ho₂
  have hfb := (h.free_second ho₁).1.not_carries
  have hfa := (h.swap.free_second ho₂).1.not_carries
  have hne : o₁ ≠ o₂ := by
    rintro rfl
    exact hfb hc₂
  refine h.replace (((h.proper (by simp)).lost hl₁).gained hlt₂ hg₁)
    (((h.proper (by simp)).lost hl₂).gained hlt₁ hg₂) fun i hi => ?_
  simp only [hg₁.carries_iff hi, hl₁.carries_iff hi, hg₂.carries_iff hi, hl₂.carries_iff hi]
  by_cases hi₁ : i = o₁
  · subst hi₁
    simp [hne, hc₁, hfb]
  · by_cases hi₂ : i = o₂
    · subst hi₂
      simp [hne.symm, hc₂, hfa]
    · simp [hi₁, hi₂]

/-- Deleting phony vehicles without orders deletes no order. -/
theorem withoutEmpty (h : WellPlaced orders F) :
    WellPlaced orders (withoutEmpty F) ∧
      ∀ i < orders.length, carriers (orders.get i) (Tabu.withoutEmpty F) =
        carriers (orders.get i) F := by
  have hmem : ∀ v ∈ Tabu.withoutEmpty F, v ∈ F := fun v hv => (List.mem_filter.mp hv).1
  have hcount : ∀ i < orders.length, carriers (orders.get i) (Tabu.withoutEmpty F) =
      carriers (orders.get i) F := fun i hi => by
    unfold carriers Tabu.withoutEmpty
    rw [List.countP_filter]
    refine List.countP_congr fun v hv => ?_
    simp only [Bool.and_eq_true, decide_eq_true_eq, Bool.not_eq_true', and_iff_left_iff_imp]
    intro hc
    cases hp : v.isPhony with
    | false => simp
    | true =>
      rw [Bool.and_true, Identifiers.isEmpty_eq_false]
      exact ⟨i, h.phony v hv hp i hi hc⟩
  refine ⟨⟨fun v hv => h.whole v (hmem v hv), fun i hi => ?_, fun v hv => h.movable v (hmem v hv),
    fun v hv => h.phony v (hmem v hv)⟩, hcount⟩
  rw [hcount i hi]
  exact h.once i hi

end WellPlaced

/-! ### Runs -/

/-- The fleet `F` has the orders of `F₀`, each as often, whole and on one vehicle. -/
structure SameOrders (orders : Orders) (F₀ F : List Vehicle) : Prop where
  whole : ∀ v ∈ F, ∀ i < orders.length, Carries (orders.get i) v ∨ Free (orders.get i) v
  same : ∀ i < orders.length, carriers (orders.get i) F = carriers (orders.get i) F₀
  once : ∀ i < orders.length, carriers (orders.get i) F ≤ 1

/-- The invariant of a run. -/
structure View.Conserves (orders : Orders) (F₀ : List Vehicle) (s : View) : Prop where
  fleet : WellPlaced orders s.fleet
  best : WellPlaced orders s.best
  fleet_carriers : ∀ i < orders.length, carriers (orders.get i) s.fleet = carriers (orders.get i) F₀
  best_carriers : ∀ i < orders.length, carriers (orders.get i) s.best = carriers (orders.get i) F₀

variable {M : Matrix} {orders : Orders}

/-- The effect of a step on the fleet. -/
theorem View.Conserves.withFleet {F₀ F : List Vehicle} {s : View} (hs : s.Conserves orders F₀)
    (h : WellPlaced orders F ∧ ∀ i < orders.length, carriers (orders.get i) F =
      carriers (orders.get i) s.fleet) :
    View.Conserves orders F₀ { s with fleet := F } :=
  ⟨h.1, hs.best, fun i hi => (h.2 i hi).trans (hs.fleet_carriers i hi), hs.best_carriers⟩

theorem replace_of_perm {F F' G G' : List Vehicle} (hF : F.Perm G) (hF' : F'.Perm G')
    (h : WellPlaced orders G → WellPlaced orders G' ∧ ∀ i < orders.length,
      carriers (orders.get i) G' = carriers (orders.get i) G) (hw : WellPlaced orders F) :
    WellPlaced orders F' ∧ ∀ i < orders.length,
      carriers (orders.get i) F' = carriers (orders.get i) F := by
  obtain ⟨h1, h2⟩ := h (hw.perm hF)
  refine ⟨h1.perm hF'.symm, fun i hi => ?_⟩
  rw [carriers_perm hF', h2 i hi, carriers_perm hF]

/-- **A step conserves the orders.** -/
theorem Step.conserves (ho : orders.WellFormed) {F₀ : List Vehicle} {s s' : View}
    (hr : s.Ready orders) (hs : s.Conserves orders F₀) (h : Step M orders s s') :
    s'.Conserves orders F₀ := by
  have hnd : ∀ {v : Vehicle}, v ∈ s.fleet → NoDump v.path := fun hv => (hr.fleet _ hv).noDump
  cases h with
  | permute h =>
    exact hs.withFleet ⟨hs.fleet.perm h, fun i _ => (carriers_perm h).symm⟩
  | dropEmpty => exact hs.withFleet hs.fleet.withoutEmpty
  | @serve a b b' R F o hF ha hb hao hbo hb' hf hF' =>
    have hw := hs.fleet.perm hF
    obtain ⟨hlt, hc⟩ := hw.movable a (by simp) o hao
    have hm := replace_of_perm hF hF' (fun hw => hw.move hao
      (lost_eraseOrder (M := M) ho hlt (hnd (hF.mem_iff.mpr (by simp))) hc)
      (gained_of_inserted ho hlt hb' (hw.free_second hao).1)) hs.fleet
    have hcount : ∀ i < orders.length, carriers (orders.get i) F = carriers (orders.get i) F₀ :=
      fun i hi => (hm.2 i hi).trans (hs.fleet_carriers i hi)
    exact ⟨hm.1, hm.1, hcount, hcount⟩
  | @relocate a b b' R F o hF ha hb hao hb' hf hF' =>
    have hw := hs.fleet.perm hF
    obtain ⟨hlt, hc⟩ := hw.movable a (by simp) o hao
    obtain ⟨hfb, hnb⟩ := hw.free_second hao
    exact hs.withFleet (replace_of_perm hF hF' (fun hw => hw.move hao
      (lost_eraseOrder (M := M) ho hlt (hnd (hF.mem_iff.mpr (by simp))) hc)
      (hb'.gained ho hlt hfb hnb)) hs.fleet)
  | @exchange a b a' b' R F o₁ o₂ hF ha hb hao hbo ha' hb' hfa hfb hF' =>
    have hw := hs.fleet.perm hF
    obtain ⟨hlt₁, hc₁⟩ := hw.movable a (by simp) o₁ hao
    obtain ⟨hlt₂, hc₂⟩ := hw.movable b (by simp) o₂ hbo
    obtain ⟨hf₁, hn₁⟩ := hw.free_second hao
    obtain ⟨hf₂, hn₂⟩ := hw.swap.free_second hbo
    have hne : o₁ ≠ o₂ := fun h => hn₁ (h ▸ hbo)
    have hl₁ := lost_eraseOrder (M := M) ho hlt₁ (hnd (hF.mem_iff.mpr (by simp))) hc₁
    have hl₂ := lost_eraseOrder (M := M) ho hlt₂ (hnd (hF.mem_iff.mpr (by simp))) hc₂
    refine hs.withFleet (replace_of_perm hF hF' (fun hw => hw.exchange hao hbo hl₁
      (ha'.gained ho hlt₂ ?_ ?_) hl₂ (hb'.gained ho hlt₁ ?_ ?_)) hs.fleet)
    · exact (Free.of_visits (hl₁.other o₂ hlt₂ hne.symm)).mpr hf₂
    · exact fun h => hn₂ ((hl₁.movable o₂).mp h).1
    · exact (Free.of_visits (hl₂.other o₁ hlt₁ hne)).mpr hf₁
    · exact fun h => hn₁ ((hl₂.movable o₁).mp h).1
  | save _ => exact ⟨hs.fleet, hs.fleet, hs.fleet_carriers, hs.fleet_carriers⟩
  | reset => exact ⟨hs.best, hs.best, hs.best_carriers, hs.best_carriers⟩

theorem View.Conserves.sameOrders {F₀ : List Vehicle} {s : View} (h : s.Conserves orders F₀) :
    SameOrders orders F₀ s.fleet ∧ SameOrders orders F₀ s.best :=
  ⟨⟨h.fleet.whole, h.fleet_carriers, h.fleet.once⟩, ⟨h.best.whole, h.best_carriers, h.best.once⟩⟩

/-- **Conservation of orders.** Between any operations of the search, and at its end, the fleet and
the best fleet have exactly the orders of the starting solution, each on one path, with one pickup
before one delivery. -/
theorem run_conserves_orders (S : Sorter) (M : Matrix) (sol : Solution) (hv : sol.Valid)
    (hp : WellPlaced sol.orders sol.fleet) (maxCycles : ℕ) (stopOnAllServed optimize : Bool) :
    (∀ ops, let o := run S M (started S sol maxCycles stopOnAllServed optimize) ops
      SameOrders sol.orders sol.fleet o.fleet ∧
        SameOrders sol.orders sol.fleet o.bestSolution.fleet) ∧
    let o := Optimize.construct S M sol maxCycles stopOnAllServed optimize
    SameOrders sol.orders sol.fleet o.fleet ∧ SameOrders sol.orders sol.fleet o.bestSolution.fleet := by
  have hperm := started_perm S sol maxCycles stopOnAllServed optimize
  obtain ⟨hrun, s, hs, h1, h2, -⟩ := hv.run_invariant S M maxCycles stopOnAllServed optimize
    (P := View.Conserves sol.orders sol.fleet) (fun _ _ hr hs hst => hst.conserves hv.orders hr hs)
    ⟨hp.perm hperm.symm, hp, fun i _ => carriers_perm hperm, fun _ _ => rfl⟩
  refine ⟨fun ops => (hrun ops).sameOrders, ?_⟩
  dsimp only
  rw [h1, h2]
  exact ⟨hs.sameOrders.2, hs.sameOrders.2⟩

/-! ### A small solution

One order on a real vehicle and one on a phony vehicle. -/

def smallOrder (i : ℕ) : Order :=
  .ofNodes i (10 + i) (.ofTwNode ⟨2 * i, 1, 10 + i, 0, 100, 0, 1, .kPickup⟩)
    (.ofTwNode ⟨2 * i + 1, 2, 10 + i, 0, 100, 0, -1, .kDelivery⟩)

def smallOrders : Orders := [smallOrder 0, smallOrder 1]

def smallStart (i : ℕ) : VehicleNode := .ofTwNode ⟨4 + 2 * i, 1, 0, 0, 100, 0, 0, .kStart⟩

def smallEnd (i : ℕ) : VehicleNode := .ofTwNode ⟨5 + 2 * i, 1, 0, 0, 100, 0, 0, .kEnd⟩

/-- The vehicle `i`, with the order `i` on its path. -/
def smallVehicle (i : ℕ) (id : ℤ) : Vehicle :=
  { Vehicle.construct twoSites i id (smallStart i) (smallEnd i) [] 1 1 smallOrders with
    path := evaluatePath twoSites 1 1 0
      [smallStart i, (smallOrder i).pickup, (smallOrder i).delivery, smallEnd i]
    ordersInVehicle := Identifiers.empty.insert i
    feasibleOrders := .upTo 2 }

def smallSolution : Solution :=
  ⟨[smallVehicle 0 7, smallVehicle 1 (-1)], smallOrders, ⟨[], .empty, .empty, .empty⟩⟩

theorem map_smallOrder_wellFormed (n : ℕ) :
    Orders.WellFormed ((List.range n).map smallOrder) := by
  have hget : ∀ i < ((List.range n).map smallOrder).length,
      Orders.get ((List.range n).map smallOrder) i = smallOrder i := fun i hi => by
    rw [Orders.get_eq_getElem hi]
    simp
  refine ⟨fun i hi => ?_, fun i hi => ?_, fun i hi j hj => ?_, fun i hi j hj h => ?_,
    fun i hi j hj h => ?_⟩
  · rw [hget i hi]
    rfl
  · rw [hget i hi]
    exact ⟨rfl, rfl⟩
  · rw [hget i hi, hget j hj]
    show 2 * i ≠ 2 * j + 1
    omega
  · rw [hget i hi, hget j hj] at h
    change 2 * i = 2 * j at h
    omega
  · rw [hget i hi, hget j hj] at h
    change 2 * i + 1 = 2 * j + 1 at h
    omega

theorem smallOrders_wellFormed : smallOrders.WellFormed := map_smallOrder_wellFormed 2

theorem smallSolution_valid : smallSolution.Valid where
  orders := smallOrders_wellFormed
  fleet := by
    have hroute : ∀ i id, IsRoute (nodesOf (smallVehicle i id).path) := fun i id =>
      ⟨_, [(smallOrder i).pickup.toTwNode, (smallOrder i).delivery.toTwNode], _, rfl, rfl, rfl,
        by simp [smallOrder, Order.ofNodes, VehicleNode.toTwNode_ofTwNode]⟩
    intro v hv
    simp only [smallSolution, List.mem_cons, List.not_mem_nil, or_false] at hv
    rcases hv with rfl | rfl
    · exact ⟨hroute 0 7, by decide +kernel, by decide +kernel⟩
    · exact ⟨hroute 1 (-1), by decide +kernel, by decide +kernel⟩

theorem smallSolution_wellPlaced : WellPlaced smallSolution.orders smallSolution.fleet where
  whole := by decide +kernel
  once := by decide +kernel
  movable := by decide +kernel
  phony := by decide +kernel

/-- The order of the phony vehicle is moved to the real one; then there is no pair to swap. -/
theorem run_conserves_orders_small :
    let o := run .insertion twoSites (started .insertion smallSolution 5 false true)
      [.move2Real, .swapBetweenRoutes false true]
    SameOrders smallSolution.orders smallSolution.fleet o.fleet :=
  ((run_conserves_orders .insertion twoSites smallSolution smallSolution_valid
    smallSolution_wellPlaced 5 false true).1 [.move2Real, .swapBetweenRoutes false true]).1

end VrpRouting.Optimizers.Tabu
