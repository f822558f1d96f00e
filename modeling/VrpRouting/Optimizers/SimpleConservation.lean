import VrpRouting.Optimizers.SimpleRuns

/-! # The simple optimizer conserves the orders

At the start each order is on one vehicle at most, whole, and the movable orders of a vehicle are
those of its path (`Tidy`). Then an operator takes an order off the vehicle that holds it and puts it
on one that does not, so every fleet of a run holds the same orders, each once (`Keeps`). -/

open Sorting

namespace VrpRouting.Optimizers.Simple

open Optimize
open Tabu (Placed Lost Gained Carries.of_visits Free.of_visits lost_eraseOrder Placed.gained
  and_of_perm₂)
open Initialsol.Simple (InitialsCode)

/-- The vehicle carries its movable orders, and is free of the other ones. -/
structure Tidy (orders : Orders) (v : Vehicle) : Prop where
  whole : ∀ i < orders.length, Carries (orders.get i) v ∨ Free (orders.get i) v
  movable : ∀ i, i ∈ v.ordersInVehicle ↔ i < orders.length ∧ Carries (orders.get i) v

/-- Every vehicle is tidy, and each order of `F₀` is carried by as many vehicles of `F`, one at
most. -/
structure Keeps (orders : Orders) (F₀ F : List Vehicle) : Prop where
  tidy : ∀ v ∈ F, Tidy orders v
  same : ∀ i < orders.length, carriers (orders.get i) F = carriers (orders.get i) F₀
  once : ∀ i < orders.length, carriers (orders.get i) F ≤ 1

section Vehicles
variable {M : Matrix} {orders : Orders} {v w : Vehicle} {o i : ℕ}

theorem Tidy.carries_iff (h : Tidy orders v) (hi : i < orders.length) :
    Carries (orders.get i) v ↔ i ∈ v.ordersInVehicle := by
  rw [h.movable]
  exact (and_iff_right hi).symm

theorem Tidy.free (h : Tidy orders v) (hi : i < orders.length) (hn : i ∉ v.ordersInVehicle) :
    Free (orders.get i) v :=
  (h.whole i hi).resolve_left fun hc => hn ((h.carries_iff hi).mp hc)

theorem Tidy.unchanged (h : Tidy orders v) (hw : Unchanged M v w) : Tidy orders w := by
  have hv : ∀ i, visits (orders.get i) (nodesOf w.path) = visits (orders.get i) (nodesOf v.path) :=
    fun i => by rw [hw.nodes]
  refine ⟨fun i hi => ?_, fun i => ?_⟩
  · rw [Carries.of_visits (hv i), Free.of_visits (hv i)]
    exact h.whole i hi
  · rw [hw.ordersInVehicle, Carries.of_visits (hv i)]
    exact h.movable i

theorem Tidy.lost (h : Tidy orders v) (hl : Lost orders o v w) : Tidy orders w := by
  refine ⟨fun i hi => hl.whole hi (h.whole i hi), fun i => ?_⟩
  rw [hl.movable, h.movable, and_assoc]
  exact and_congr_right fun hi => (hl.carries_iff hi).symm

theorem Tidy.gained (h : Tidy orders v) (hlt : o < orders.length) (hg : Gained orders o v w) :
    Tidy orders w := by
  refine ⟨fun i hi => hg.whole hi (h.whole i hi), fun i => ?_⟩
  rw [hg.movable, h.movable]
  constructor
  · rintro (rfl | ⟨hi, hc⟩)
    · exact ⟨hlt, hg.carries⟩
    · exact ⟨hi, (hg.carries_iff hi).mpr (Or.inr hc)⟩
  · rintro ⟨hi, hc⟩
    exact ((hg.carries_iff hi).mp hc).imp id fun hc => ⟨hi, hc⟩

/-- On a tidy vehicle a carried order is erased completely. -/
theorem Tidy.eraseOrder (h : Tidy orders v) (ho : orders.WellFormed) (hr : RouteOf orders v)
    (hv : o ∈ v.ordersInVehicle) : Lost orders o v (v.eraseOrder M (orders.get o)) := by
  obtain ⟨hlt, hc⟩ := (h.movable o).mp hv
  exact lost_eraseOrder ho hlt hr.noDump hc

/-- An order is placed on a tidy vehicle that does not hold it. -/
theorem Tidy.placed (h : Tidy orders v) (ho : orders.WellFormed) (hlt : o < orders.length)
    (hn : o ∉ v.ordersInVehicle) (hw : Placed M v (orders.get o) w) : Gained orders o v w :=
  Placed.gained ho hlt hw (h.free hlt hn) hn

end Vehicles

/-! ### Fleets -/

section Fleets
variable {M : Matrix} {orders : Orders} {F F₀ F' R : List Vehicle} {a b a' b' a₁ b₁ : Vehicle}
  {o o₁ o₂ i : ℕ}

theorem Keeps.perm (h : Keeps orders F₀ F) (hF : F.Perm F') : Keeps orders F₀ F' where
  tidy v hv := h.tidy v (hF.mem_iff.mpr hv)
  same i hi := (carriers_perm hF).symm.trans (h.same i hi)
  once i hi := (carriers_perm hF).symm.le.trans (h.once i hi)

/-- The carriers of an order among two vehicles and the rest, by the movable sets. -/
theorem carriers_cons_cons (ha : Tidy orders a) (hb : Tidy orders b) (hi : i < orders.length) :
    carriers (orders.get i) (a :: b :: R) = carriers (orders.get i) R +
      ((if i ∈ a.ordersInVehicle then 1 else 0) + if i ∈ b.ordersInVehicle then 1 else 0) := by
  rw [carriers_cons, carriers_cons]
  simp only [ha.carries_iff hi, hb.carries_iff hi]
  omega

/-- An order of the first vehicle is not on the second one. -/
theorem Keeps.not_mem (h : Keeps orders F₀ (a :: b :: R)) (ho : o ∈ a.ordersInVehicle) :
    o ∉ b.ordersInVehicle := by
  have ha := h.tidy a (by simp)
  have hb := h.tidy b (by simp)
  have hlt := ((ha.movable o).mp ho).1
  have honce := h.once o hlt
  rw [carriers_cons_cons ha hb hlt, if_pos ho] at honce
  intro hob
  rw [if_pos hob] at honce
  omega

/-- Two vehicles are replaced by tidy ones that hold the same orders together. -/
theorem Keeps.replace (h : Keeps orders F₀ (a :: b :: R)) (ha' : Tidy orders a')
    (hb' : Tidy orders b')
    (hsum : ∀ i < orders.length,
      ((if i ∈ a'.ordersInVehicle then 1 else 0) + if i ∈ b'.ordersInVehicle then 1 else 0) =
        (if i ∈ a.ordersInVehicle then 1 else 0) + if i ∈ b.ordersInVehicle then 1 else 0) :
    Keeps orders F₀ (a' :: b' :: R) := by
  have hcount : ∀ i < orders.length, carriers (orders.get i) (a' :: b' :: R) =
      carriers (orders.get i) (a :: b :: R) := fun i hi => by
    rw [carriers_cons_cons ha' hb' hi, hsum i hi,
      carriers_cons_cons (h.tidy a (by simp)) (h.tidy b (by simp)) hi]
  refine ⟨fun v hv => ?_, fun i hi => (hcount i hi).trans (h.same i hi),
    fun i hi => (hcount i hi).le.trans (h.once i hi)⟩
  rcases List.mem_cons.mp hv with rfl | hv
  · exact ha'
  · rcases List.mem_cons.mp hv with rfl | hv
    · exact hb'
    · exact h.tidy v (by simp [hv])

/-- An order moves from the first vehicle to the second one. -/
theorem Keeps.move (h : Keeps orders F₀ (a :: b :: R)) (ho : o ∈ a.ordersInVehicle)
    (hl : Lost orders o a a') (hg : Gained orders o b b') : Keeps orders F₀ (a' :: b' :: R) := by
  have hob := h.not_mem ho
  have ha := h.tidy a (by simp)
  refine h.replace (ha.lost hl)
    ((h.tidy b (by simp)).gained ((ha.movable o).mp ho).1 hg) fun i _ => ?_
  simp only [hl.movable, hg.movable]
  by_cases hio : i = o
  · subst hio
    simp [ho, hob]
  · simp [hio]

/-- The vehicles exchange an order each. -/
theorem Keeps.exchange (h : Keeps orders F₀ (a :: b :: R)) (ho₁ : o₁ ∈ a.ordersInVehicle)
    (ho₂ : o₂ ∈ b.ordersInVehicle) (hl₁ : Lost orders o₁ a a₁) (hg₁ : Gained orders o₂ a₁ a')
    (hl₂ : Lost orders o₂ b b₁) (hg₂ : Gained orders o₁ b₁ b') :
    Keeps orders F₀ (a' :: b' :: R) := by
  have h1 := h.not_mem ho₁
  have h2 := (h.perm (.swap ..)).not_mem ho₂
  have ha := h.tidy a (by simp)
  have hb := h.tidy b (by simp)
  have hne : o₁ ≠ o₂ := fun e => h1 (e ▸ ho₂)
  refine h.replace ((ha.lost hl₁).gained ((hb.movable o₂).mp ho₂).1 hg₁)
    ((hb.lost hl₂).gained ((ha.movable o₁).mp ho₁).1 hg₂) fun i _ => ?_
  simp only [hg₁.movable, hl₁.movable, hg₂.movable, hl₂.movable]
  by_cases hi₁ : i = o₁
  · subst hi₁
    simp [hne, ho₁, h1]
  · by_cases hi₂ : i = o₂
    · subst hi₂
      simp [hne.symm, ho₂, h2]
    · simp [hi₁, hi₂]

/-- A tidy vehicle without movable orders carries none. -/
theorem Keeps.withoutEmpty (h : Keeps orders F₀ F) :
    Keeps orders F₀ (Simple.withoutEmpty F) := by
  have hcount : ∀ i < orders.length, carriers (orders.get i) (Simple.withoutEmpty F) =
      carriers (orders.get i) F := fun i hi => by
    unfold carriers Simple.withoutEmpty
    rw [List.countP_filter]
    refine List.countP_congr fun v hv => ?_
    simp only [Bool.and_eq_true, decide_eq_true_eq, Bool.not_eq_true', and_iff_left_iff_imp]
    exact fun hc => Identifiers.isEmpty_eq_false.mpr ⟨i, ((h.tidy v hv).carries_iff hi).mp hc⟩
  exact ⟨fun v hv => h.tidy v (List.mem_filter.mp hv).1,
    fun i hi => (hcount i hi).trans (h.same i hi), fun i hi => (hcount i hi).le.trans (h.once i hi)⟩

theorem carriers_refreshed {o : Order} (h : List.Forall₂ (Unchanged M) F F') :
    carriers o F' = carriers o F := by
  induction h with
  | nil => rfl
  | @cons a b _ _ hab _ ih =>
    have hc : Carries o b ↔ Carries o a := Carries.of_visits (by rw [hab.nodes])
    rw [carriers_cons, carriers_cons, ih]
    simp only [hc]

theorem Keeps.refreshed (h : Keeps orders F₀ F) (hF : List.Forall₂ (Unchanged M) F F') :
    Keeps orders F₀ F' where
  tidy w hw := by
    obtain ⟨v, hv, hvw⟩ := ListEdit.exists_mem_of_forall₂ hF hw
    exact (h.tidy v hv).unchanged hvw
  same i hi := (carriers_refreshed hF).trans (h.same i hi)
  once i hi := (carriers_refreshed hF).le.trans (h.once i hi)

end Fleets

/-! ### Runs -/

/-- The invariant of a run. -/
structure View.Keeps (orders : Orders) (F₀ : List Vehicle) (s : View) : Prop where
  fleet : Simple.Keeps orders F₀ s.fleet
  best : Simple.Keeps orders F₀ s.best

/-- **A step conserves the orders.** -/
theorem Step.keeps {M : Matrix} {orders : Orders} {unserving : Prop} (ho : orders.WellFormed)
    {F₀ : List Vehicle} {s s' : View} (hr : s.Ready orders) (hs : s.Keeps orders F₀)
    (h : Step M orders unserving s s') : s'.Keeps orders F₀ := by
  cases h with
  | permute h => exact ⟨hs.fleet.perm h, hs.best⟩
  | refresh h => exact ⟨hs.fleet.refreshed h, hs.best⟩
  | dropEmpty => exact ⟨hs.fleet.withoutEmpty, hs.best⟩
  | @move a b b' R F o hF hu hao hb' hF' =>
    have hk := hs.fleet.perm hF
    obtain ⟨hra, -⟩ := and_of_perm₂ hF hr.fleet
    have hlt := hra.movable o hao
    have ha := hk.tidy a (by simp)
    have hb := hk.tidy b (by simp)
    exact ⟨(hk.move hao (ha.eraseOrder (M := M) ho hra.toRouteOf hao)
      (hb.placed ho hlt (hk.not_mem hao) hb')).perm hF'.symm, hs.best⟩
  | @exchange a b a' b' R F o₁ o₂ hF hu hao hbo ha' hb' hF' =>
    have hk := hs.fleet.perm hF
    obtain ⟨hra, hrb⟩ := and_of_perm₂ hF hr.fleet
    have hl₁ := (hk.tidy a (by simp)).eraseOrder (M := M) ho hra.toRouteOf hao
    have hl₂ := (hk.tidy b (by simp)).eraseOrder (M := M) ho hrb.toRouteOf hbo
    have hn₁ := hk.not_mem hao
    have hn₂ := (hk.perm (.swap ..)).not_mem hbo
    refine ⟨(hk.exchange hao hbo hl₁ (Tidy.placed ((hk.tidy a (by simp)).lost hl₁) ho
      (hrb.movable o₂ hbo) (fun h => hn₂ ((hl₁.movable o₂).mp h).1) ha') hl₂
      (Tidy.placed ((hk.tidy b (by simp)).lost hl₂) ho (hra.movable o₁ hao)
        (fun h => hn₁ ((hl₂.movable o₁).mp h).1) hb')).perm hF'.symm, hs.best⟩
  | save => exact ⟨hs.fleet, hs.fleet⟩
  | reset => exact ⟨hs.best, hs.best⟩

/-- After every run the fleet and the best fleet have the orders of the start. -/
theorem Sound.run_keeps {sol : Solution} (hs : Sound sol)
    (hk : Keeps sol.orders sol.fleet sol.fleet) (S : Sorter) (M : Matrix) (kind : InitialsCode)
    (acts : List Act) : (run S M (init sol kind) acts).view.Keeps sol.orders sol.fleet :=
  hs.run_invariant S M kind (fun _ _ hr hs' hst => hst.keeps hs.orders hr hs') ⟨hk, hk⟩
    (Or.inl trivial)

end VrpRouting.Optimizers.Simple
