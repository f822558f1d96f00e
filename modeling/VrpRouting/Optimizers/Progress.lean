import VrpRouting.Driver.Optimize
import VrpRouting.Optimizers.Unserved

/-! # The search never makes a solution worse

The score of a fleet is the number of orders on its phony vehicles, then the travel time of its real
ones. The search compares the travel times only, and replaces the best fleet whenever an order leaves a
phony vehicle. That decreases the score as long as no other phony vehicle holds the order
(`View.Progress`), and it serves an order that was not served before as long as no real vehicle has it
(`View.Left`); so a solution whose unserved orders are `Apart` gets no worse (`run_never_worse`). An order
on a real vehicle leaves it only for another real one, in every solution (`run_keeps_served`). -/

open Sorting

namespace VrpRouting.Optimizers.Tabu

/-- The number of orders on phony vehicles, then the travel time of real vehicles, in lexicographic
order. -/
def score (F : List Vehicle) : ℕ ×ₗ ℤ := toLex ((unserved F).toFinset.card, fleetObjective F)

/-! ### The score along a run -/

/-- The fleets that were the best one are strictly better from one to the next, and the current fleet
has the same orders on phony vehicles as the best one: some of those at the start, each on one. -/
structure View.Progress (F₀ : List Vehicle) (s : View) : Prop where
  log : s.log.Pairwise fun newer older => score newer < score older
  head : s.log.head? = some s.best
  last : s.log.getLast? = some F₀
  same : unserved s.fleet = unserved s.best
  once : (unserved s.best).Nodup
  le : unserved s.best ≤ unserved F₀

section Progress
variable {M : Matrix} {orders : Orders} {F₀ : List Vehicle} {s s' : View}

/-- A better fleet becomes the best one. -/
theorem View.Progress.push (h : s.Progress F₀) {F : List Vehicle} {U : Identifiers ℕ}
    (hF : score F < score s.best) (hle : unserved F ≤ unserved s.best) :
    View.Progress F₀ ⟨F, U, F, F :: s.log⟩ where
  log := by
    obtain ⟨rest, hrest⟩ := List.head?_eq_some_iff.mp h.head
    have hlog := h.log
    rw [hrest] at hlog ⊢
    refine List.pairwise_cons.mpr ⟨fun G hG => ?_, hlog⟩
    rcases List.mem_cons.mp hG with rfl | hG
    · exact hF
    · exact hF.trans ((List.pairwise_cons.mp hlog).1 G hG)
  head := rfl
  last := by
    obtain ⟨rest, hrest⟩ := List.head?_eq_some_iff.mp h.head
    have := h.last
    rw [hrest] at this ⊢
    rw [List.getLast?_cons_cons]
    exact this
  same := rfl
  once := Multiset.nodup_of_le hle h.once
  le := hle.trans h.le

/-- The fleet changes, its orders on phony vehicles do not. -/
theorem View.Progress.move (h : s.Progress F₀) {F : List Vehicle} (hF : unserved F = unserved s.fleet) :
    View.Progress F₀ { s with fleet := F } :=
  ⟨h.log, h.head, h.last, hF.trans h.same, h.once, h.le⟩

/-- **A step makes progress.** -/
theorem Step.progress (ho : orders.WellFormed) (hr : s.Ready orders) (hs : s.Progress F₀)
    (h : Step M orders s s') : s'.Progress F₀ := by
  cases h with
  | permute h => exact hs.move (unserved_perm h).symm
  | dropEmpty => exact hs.move (unserved_withoutEmpty _)
  | @serve a b b' R F o hF ha hb hao hbo hb' hf hF' =>
    have hlt := (hr.fleet a (hF.mem_iff.mpr (by simp))).movable o hao
    obtain ⟨hmem, hu⟩ := unserved_serve ho hlt hF ha hb hao hb' hF'
    rw [hs.same] at hmem hu
    have hle : unserved F ≤ unserved s.best := hu ▸ Multiset.erase_le _ _
    refine hs.push (Prod.Lex.toLex_lt_toLex.mpr (Or.inl ?_)) hle
    rw [Multiset.toFinset_card_of_nodup (Multiset.nodup_of_le hle hs.once),
      Multiset.toFinset_card_of_nodup hs.once, hu]
    exact Multiset.card_erase_lt_of_mem hmem
  | relocate hF ha hb _ hb' _ hF' => exact hs.move (unserved_relocate hF ha hb hb' hF')
  | exchange hF ha hb _ _ ha' hb' _ _ hF' => exact hs.move (unserved_exchange hF ha hb ha' hb' hF')
  | save h =>
    exact hs.push (Prod.Lex.toLex_lt_toLex.mpr (Or.inr ⟨by rw [hs.same], h⟩)) hs.same.le
  | reset => exact ⟨hs.log, hs.head, hs.last, rfl, hs.once, hs.le⟩

end Progress

/-! ### Served orders stay served -/

section Vehicles
variable {M : Matrix} {orders : Orders} {v w : Vehicle} {o : ℕ}

theorem Placed.held (ho : orders.WellFormed) (hlt : o < orders.length) (h : Placed M v (orders.get o) w)
    (hv : Held orders v) : Held orders w := by
  rcases h with ⟨h, -⟩ | ⟨h, -⟩
  · exact h.held ho hlt hv
  · intro i hi
    have := h.others
    unfold SameButPath at this
    rw [this] at hi
    rw [h.nodes]
    exact hv i hi

theorem Placed.visits_subset {o : Order} (h : Placed M v o w) (i : ℕ) :
    visits (orders.get i) (nodesOf v.path) ⊆ visits (orders.get i) (nodesOf w.path) := by
  rcases h with ⟨h, -⟩ | ⟨h, -⟩
  · exact h.visits_subset i
  · rw [h.nodes]
    exact List.Subset.refl _

theorem Placed.stops_subset (ho : orders.WellFormed) (hlt : o < orders.length)
    (h : Placed M v (orders.get o) w) (hv : Held orders v) : (orders.get o).stops ⊆
      visits (orders.get o) (nodesOf w.path) := by
  rcases h with ⟨h, -⟩ | ⟨h, hom⟩
  · exact h.stops_subset
  · rw [hasOrder_get_iff ho hlt] at hom
    rw [h.nodes]
    exact hv o hom

/-- Edits keep the movable orders on the path. -/
theorem held_editClosed (ho : orders.WellFormed) :
    EditClosed M orders fun v => RouteOf orders v ∧ Held orders v where
  movable h hi := h.1.movable _ hi
  erase h hi := ⟨h.1.eraseOrder hi, h.2.eraseOrder ho hi h.1⟩
  placed h hi hw := ⟨hw.routeOf ho hi h.1, hw.held ho hi h.2⟩

end Vehicles

section Served
variable {M : Matrix} {orders : Orders} {i : ℕ} {X : List TwNode} {F F' R : List Vehicle}
  {a b a' b' : Vehicle}

theorem OnReal.perm (h : OnReal orders i X F) (hF : F.Perm F') : OnReal orders i X F' := by
  obtain ⟨v, hv, h⟩ := h
  exact ⟨v, hF.mem_iff.mp hv, h⟩

/-- What the two vehicles of a move have to provide. -/
theorem OnReal.replace (h : OnReal orders i X F) (hF : F.Perm (a :: b :: R))
    (hF' : F'.Perm (a' :: b' :: R))
    (ha : a.isPhony = false → X ⊆ visits (orders.get i) (nodesOf a.path) → OnReal orders i X [a', b'])
    (hb : b.isPhony = false → X ⊆ visits (orders.get i) (nodesOf b.path) →
      OnReal orders i X [a', b']) : OnReal orders i X F' := by
  have hlift : OnReal orders i X [a', b'] → OnReal orders i X F' := fun ⟨w, hw, hX⟩ =>
    ⟨w, hF'.mem_iff.mpr (by rcases List.mem_pair.mp hw with rfl | rfl <;> simp), hX⟩
  obtain ⟨v, hv, hreal, hX⟩ := h
  rcases List.mem_cons.mp (hF.mem_iff.mp hv) with rfl | hv
  · exact hlift (ha hreal hX)
  · rcases List.mem_cons.mp hv with rfl | hv
    · exact hlift (hb hreal hX)
    · exact ⟨v, hF'.mem_iff.mpr (by simp [hv]), hreal, hX⟩

section Move
variable (ho : orders.WellFormed) (hi : i < orders.length) (hX : X ⊆ (orders.get i).stops)
include ho hi hX

/-- An order leaves `a` and goes to the real vehicle `b`. -/
theorem OnReal.move {o : ℕ} (hlt : o < orders.length) (hra : RouteOf orders a) (hheld : Held orders b)
    (hb : b.isPhony = false) (hb' : Placed M b (orders.get o) b') (hF : F.Perm (a :: b :: R))
    (hF' : F'.Perm (a.eraseOrder M (orders.get o) :: b' :: R)) (h : OnReal orders i X F) :
    OnReal orders i X F' := by
  have hpb := hb'.isPhony.trans hb
  refine h.replace hF hF' (fun ha hXa => ?_) fun _ hXb =>
    ⟨b', by simp, hpb, List.Subset.trans hXb (hb'.visits_subset i)⟩
  by_cases hio : i = o
  · subst hio
    exact ⟨b', by simp, hpb, List.Subset.trans hX (hb'.stops_subset ho hlt hheld)⟩
  · refine ⟨a.eraseOrder M (orders.get o), by simp, (isPhony_eraseOrder a _).trans ha, ?_⟩
    rwa [eraseOrder_visits_other ho hi hlt hra.noDump hio]

/-- Two real vehicles exchange an order. -/
theorem OnReal.exchange {o₁ o₂ : ℕ} (hlt₁ : o₁ < orders.length) (hlt₂ : o₂ < orders.length)
    (hra : RouteOf orders a ∧ Held orders a) (hrb : RouteOf orders b ∧ Held orders b)
    (ha : a.isPhony = false) (hb : b.isPhony = false)
    (ha' : Placed M (a.eraseOrder M (orders.get o₁)) (orders.get o₂) a')
    (hb' : Placed M (b.eraseOrder M (orders.get o₂)) (orders.get o₁) b')
    (hF : F.Perm (a :: b :: R)) (hF' : F'.Perm (a' :: b' :: R)) (h : OnReal orders i X F) :
    OnReal orders i X F' := by
  have hpa := (ha'.isPhony.trans (isPhony_eraseOrder a _)).trans ha
  have hpb := (hb'.isPhony.trans (isPhony_eraseOrder b _)).trans hb
  have hha := hra.2.eraseOrder (M := M) ho hlt₁ hra.1
  have hhb := hrb.2.eraseOrder (M := M) ho hlt₂ hrb.1
  refine h.replace hF hF' (fun _ hXa => ?_) fun _ hXb => ?_
  · by_cases hio : i = o₁
    · subst hio
      exact ⟨b', by simp, hpb, List.Subset.trans hX (hb'.stops_subset ho hlt₁ hhb)⟩
    · refine ⟨a', by simp, hpa, List.Subset.trans ?_ (ha'.visits_subset i)⟩
      rwa [eraseOrder_visits_other ho hi hlt₁ hra.1.noDump hio]
  · by_cases hio : i = o₂
    · subst hio
      exact ⟨a', by simp, hpa, List.Subset.trans hX (ha'.stops_subset ho hlt₂ hha)⟩
    · refine ⟨b', by simp, hpb, List.Subset.trans ?_ (hb'.visits_subset i)⟩
      rwa [eraseOrder_visits_other ho hi hlt₂ hrb.1.noDump hio]

/-- **A step keeps served orders served.** -/
theorem Step.onReal {s s' : View} (hr : ∀ v ∈ s.fleet, RouteOf orders v ∧ Held orders v)
    (hs : OnReal orders i X s.fleet ∧ OnReal orders i X s.best) (h : Step M orders s s') :
    OnReal orders i X s'.fleet ∧ OnReal orders i X s'.best := by
  cases h with
  | permute h => exact ⟨hs.1.perm h, hs.2⟩
  | dropEmpty =>
    obtain ⟨v, hv, hreal, hXv⟩ := hs.1
    exact ⟨⟨v, List.mem_filter.mpr ⟨hv, by simp [hreal]⟩, hreal, hXv⟩, hs.2⟩
  | serve hF _ hb hao _ hb' hf hF' =>
    obtain ⟨hra, hrb⟩ := and_of_perm₂ hF hr
    have := hs.1.move ho hi hX (hra.1.movable _ hao) hra.1 hrb.2 hb (Or.inl ⟨hb', hf⟩) hF hF'
    exact ⟨this, this⟩
  | relocate hF _ hb hao hb' _ hF' =>
    obtain ⟨hra, hrb⟩ := and_of_perm₂ hF hr
    exact ⟨hs.1.move ho hi hX (hra.1.movable _ hao) hra.1 hrb.2 hb hb' hF hF', hs.2⟩
  | exchange hF ha hb hao hbo ha' hb' _ _ hF' =>
    obtain ⟨hra, hrb⟩ := and_of_perm₂ hF hr
    exact ⟨hs.1.exchange ho hi hX (hra.1.movable _ hao) (hrb.1.movable _ hbo) hra hrb ha hb ha' hb'
      hF hF', hs.2⟩
  | save _ => exact ⟨hs.1, hs.1⟩
  | reset => exact ⟨hs.2, hs.2⟩

end Move

end Served

/-! ### Orders that leave the phony vehicles -/

/-- The orders that left the phony vehicles are on real ones. -/
def View.Left (orders : Orders) (F₀ : List Vehicle) (s : View) : Prop :=
  ∀ i ∈ unserved F₀, i ∉ unserved s.fleet → IsServed orders s.fleet i ∧ IsServed orders s.best i

section Left
variable {M : Matrix} {orders : Orders} {F₀ : List Vehicle} {s s' : View} (ho : orders.WellFormed)
include ho

/-- A step leaves the phony vehicles alone, or serves an order of one of them. -/
theorem Step.unserved_or (hr : ∀ v ∈ s.fleet, RouteOf orders v) (hsame : unserved s.fleet = unserved s.best)
    (h : Step M orders s s') : unserved s'.fleet = unserved s.fleet ∨
      ∃ o, unserved s'.fleet = (unserved s.fleet).erase o ∧ IsServed orders s'.fleet o ∧
        s'.best = s'.fleet := by
  cases h with
  | permute h => exact Or.inl (unserved_perm h).symm
  | dropEmpty => exact Or.inl (unserved_withoutEmpty _)
  | @serve a b b' R F o hF ha hb hao hbo hb' hf hF' =>
    have hlt := (hr a (hF.mem_iff.mpr (by simp))).movable o hao
    obtain ⟨-, hu⟩ := unserved_serve ho hlt hF ha hb hao hb' hF'
    refine Or.inr ⟨o, hu, ⟨b', hF'.mem_iff.mpr (by simp), ?_, hb'.stops_subset⟩, rfl⟩
    rw [hb'.others]
    exact hb
  | relocate hF ha hb _ hb' _ hF' => exact Or.inl (unserved_relocate hF ha hb hb' hF')
  | exchange hF ha hb _ _ ha' hb' _ _ hF' => exact Or.inl (unserved_exchange hF ha hb ha' hb' hF')
  | save _ => exact Or.inl rfl
  | reset => exact Or.inl hsame.symm

/-- **A step keeps the orders that left the phony vehicles on real ones.** -/
theorem Step.left (hr : ∀ v ∈ s.fleet, RouteOf orders v ∧ Held orders v)
    (hlt : ∀ i ∈ unserved F₀, i < orders.length) (hsame : unserved s.fleet = unserved s.best)
    (hs : s.Left orders F₀) (h : Step M orders s s') : s'.Left orders F₀ := by
  intro i hi hnot
  by_cases hin : i ∈ unserved s.fleet
  · rcases h.unserved_or ho (fun v hv => (hr v hv).1) hsame with hu | ⟨o, hu, hserved, hbest⟩
    · exact absurd (hu ▸ hin) hnot
    · obtain rfl : i = o := by
        by_contra hne
        exact hnot (hu ▸ (Multiset.mem_erase_of_ne hne).mpr hin)
      exact ⟨hserved, hbest ▸ hserved⟩
  · exact h.onReal ho (hlt i hi) (List.Subset.refl _) hr (hs i hi hin)

end Left

/-! ### Runs -/

/-- The best fleet, with its history `log`, is no worse than the fleet `F₀` at the start: what was on
a real vehicle still is, each replacement decreased the score, and the travel time has not grown
when the same orders are served. -/
structure NeverWorse (orders : Orders) (F₀ best : List Vehicle) (log : List (List Vehicle)) :
    Prop where
  served : ∀ i < orders.length, ∀ X ⊆ (orders.get i).stops,
    OnReal orders i X F₀ → OnReal orders i X best
  head : log.head? = some best
  last : log.getLast? = some F₀
  decreasing : log.Pairwise fun newer older => score newer < score older
  travelTime : (∀ i < orders.length, IsServed orders best i ↔ IsServed orders F₀ i) →
    fleetObjective best ≤ fleetObjective F₀

section Best
variable {orders : Orders} {F₀ : List Vehicle} {s : View}

theorem View.Progress.travelTime (h : s.Progress F₀) (hu : unserved s.best = unserved F₀) :
    fleetObjective s.best ≤ fleetObjective F₀ := by
  obtain ⟨rest, hrest⟩ := List.head?_eq_some_iff.mp h.head
  have hlog := h.log
  have hlast := h.last
  rw [hrest] at hlog hlast
  cases rest with
  | nil =>
    obtain rfl : s.best = F₀ := by simpa using hlast
    exact le_rfl
  | cons F rest =>
    have hmem : F₀ ∈ F :: rest := List.mem_of_getLast? (by simpa using hlast)
    have hlt := (List.pairwise_cons.mp hlog).1 F₀ hmem
    rcases Prod.Lex.toLex_lt_toLex.mp hlt with h1 | ⟨-, h2⟩
    · simp only [hu, lt_self_iff_false] at h1
    · exact h2.le

/-- When the same orders are served, none has left the phony vehicles. -/
theorem View.Left.unserved_eq (hapart : Apart orders F₀) (hlt : ∀ i ∈ unserved F₀, i < orders.length)
    (hs : s.Progress F₀) (hl : s.Left orders F₀)
    (hsame : ∀ i < orders.length, IsServed orders s.best i ↔ IsServed orders F₀ i) :
    unserved s.best = unserved F₀ := by
  refine (Multiset.Nodup.ext hs.once hapart.once).mpr fun i => ⟨Multiset.mem_of_le hs.le, fun hi => ?_⟩
  by_contra hnot
  have hserved := (hl i hi (hs.same ▸ hnot)).2
  exact hapart.away i hi ((hsame i (hlt i hi)).mp hserved)

end Best

section Runs
open Initialsol.Tabu

variable {S : Sorter} {M : Matrix} {pOrders : List OrdersT} {pVehicles : List VehicleT}
  {newStops : List ShortVehicle} {p : PickDeliver}
  (hp : PickDeliver.build S M pOrders pVehicles newStops = .ok p) {executionDate : ℤ}
  {userOptimize : Bool} {sol : InitialSolution}
  (hsol : InitialSolution.construct M executionDate userOptimize p = .ok sol) (maxCycles : ℕ)
  (stopOnAllServed optimize : Bool)
include hp hsol

theorem started_held : let s := (started S sol.toSolution maxCycles stopOnAllServed optimize).view
    (∀ v ∈ s.fleet, RouteOf sol.orders v ∧ Held sol.orders v) ∧
      ∀ v ∈ s.best, RouteOf sol.orders v ∧ Held sol.orders v := by
  have hb := PickDeliver.build_built hp
  have hv := InitialSolution.construct_valid hb hsol
  have hheld := InitialSolution.construct_held hb hsol
  have hperm := started_perm S sol.toSolution maxCycles stopOnAllServed optimize
  have hall : ∀ v ∈ sol.fleet, RouteOf sol.orders v ∧ Held sol.orders v := fun v h =>
    ⟨hv.fleet v h, hheld v h⟩
  exact ⟨fun v h => hall v (hperm.mem_iff.mp h), hall⟩

/-- **The search keeps served orders served**, between any operations and at its end. -/
theorem run_keeps_served {i : ℕ} (hi : i < sol.orders.length) {X : List TwNode}
    (hX : X ⊆ (sol.orders.get i).stops) (hon : OnReal sol.orders i X sol.fleet) :
    (∀ ops, OnReal sol.orders i X
      (run S M (started S sol.toSolution maxCycles stopOnAllServed optimize) ops).bestSolution.fleet) ∧
    OnReal sol.orders i X
      (Optimize.construct S M sol.toSolution maxCycles stopOnAllServed optimize).fleet := by
  have hv := InitialSolution.construct_valid (PickDeliver.build_built hp) hsol
  have hperm := started_perm S sol.toSolution maxCycles stopOnAllServed optimize
  obtain ⟨hrun, s, hs, h1, -, -⟩ := hv.run_invariant S M maxCycles stopOnAllServed optimize
    (P := fun s => ((∀ v ∈ s.fleet, RouteOf sol.orders v ∧ Held sol.orders v) ∧
      ∀ v ∈ s.best, RouteOf sol.orders v ∧ Held sol.orders v) ∧
      OnReal sol.orders i X s.fleet ∧ OnReal sol.orders i X s.best)
    (fun _ _ _ hs hst => ⟨hst.forall_vehicles (held_editClosed hv.orders) hs.1,
      hst.onReal hv.orders hi hX hs.1.1 hs.2⟩)
    ⟨started_held hp hsol maxCycles stopOnAllServed optimize, hon.perm hperm.symm, hon⟩
  exact ⟨fun ops => (hrun ops).2.2, h1 ▸ hs.2.2⟩

/-- **The search never makes an initial solution worse**, between any operations and at its end, when
its unserved orders are each on one phony vehicle and on no real one. -/
theorem run_never_worse (hapart : Apart sol.orders sol.fleet) :
    (∀ ops, let o := run S M (started S sol.toSolution maxCycles stopOnAllServed optimize) ops
      NeverWorse sol.orders sol.fleet o.bestSolution.fleet o.bestLog) ∧
    let o := Optimize.construct S M sol.toSolution maxCycles stopOnAllServed optimize
    o.bestSolution.fleet = o.fleet ∧ NeverWorse sol.orders sol.fleet o.fleet o.bestLog := by
  have hv := InitialSolution.construct_valid (PickDeliver.build_built hp) hsol
  have hperm := started_perm S sol.toSolution maxCycles stopOnAllServed optimize
  have hlt : ∀ i ∈ unserved sol.fleet, i < sol.orders.length := by
    intro i hi
    obtain ⟨v, hmem, -, hiv⟩ := mem_unserved.mp hi
    exact (hv.fleet v hmem).movable i hiv
  obtain ⟨hrun, s, hs, h1, h2, h3⟩ := hv.run_invariant S M maxCycles stopOnAllServed optimize
    (P := fun s => ((∀ v ∈ s.fleet, RouteOf sol.orders v ∧ Held sol.orders v) ∧
      ∀ v ∈ s.best, RouteOf sol.orders v ∧ Held sol.orders v) ∧
      s.Progress sol.fleet ∧ s.Left sol.orders sol.fleet)
    (fun _ _ hr hs hst => ⟨hst.forall_vehicles (held_editClosed hv.orders) hs.1,
      hst.progress hv.orders hr hs.2.1, hst.left hv.orders hs.1.1 hlt hs.2.1.same hs.2.2⟩)
    ⟨started_held hp hsol maxCycles stopOnAllServed optimize,
      ⟨List.pairwise_singleton _ _, rfl, rfl, unserved_perm hperm, hapart.once, le_rfl⟩,
      fun i hi hnot => absurd ((unserved_perm hperm).symm ▸ hi) hnot⟩
  have hworse : ∀ {s : View}, s.Progress sol.fleet ∧ s.Left sol.orders sol.fleet →
      (∀ i < sol.orders.length, ∀ X ⊆ (sol.orders.get i).stops,
        OnReal sol.orders i X sol.fleet → OnReal sol.orders i X s.best) →
      NeverWorse sol.orders sol.fleet s.best s.log := fun hs hserved =>
    ⟨hserved, hs.1.head, hs.1.last, hs.1.log, fun hsame =>
      hs.1.travelTime (hs.2.unserved_eq hapart hlt hs.1 hsame)⟩
  refine ⟨fun ops => hworse (hrun ops).2 fun i hi X hX hon =>
    (run_keeps_served hp hsol maxCycles stopOnAllServed optimize hi hX hon).1 ops, ?_⟩
  have hend := fun i hi X hX hon =>
    (run_keeps_served hp hsol maxCycles stopOnAllServed optimize (i := i) hi (X := X) hX hon).2
  dsimp only at hend ⊢
  rw [h1] at hend
  rw [h1, h2, h3]
  exact ⟨rfl, hworse hs.2 hend⟩

end Runs

/-! ### Small problems -/

open Initialsol.Tabu

/-- One vehicle has the first order, and the two others are moved to real vehicles. -/
theorem run_never_worse_small : ∃ p sol,
    PickDeliver.build .insertion twoSites threeOrders [smallVehicleData 7 [1, 1], smallVehicleData 8 []]
      [] = .ok p ∧
    InitialSolution.construct twoSites 0 true p = .ok sol ∧
    let o := Optimize.construct .insertion twoSites sol.toSolution 3 false true
    NeverWorse sol.orders sol.fleet o.fleet o.bestLog ∧ o.bestLog.length = 3 := by
  obtain ⟨p, hp, htest⟩ := exists_ok_and (x := PickDeliver.build .insertion twoSites threeOrders
    [smallVehicleData 7 [1, 1], smallVehicleData 8 []] [])
    (fun p => decide ((∀ v ∈ p.trucks.vehicles, v.stops = [1, 1] ∨ v.stops = []) ∧
      p.trucks.vehicles.Pairwise fun (v w : Vehicle) => ∀ oId ∈ v.stops, oId ∉ w.stops) &&
      (InitialSolution.construct twoSites 0 true p).toOption.any fun sol =>
        decide ((Optimize.construct .insertion twoSites sol.toSolution 3 false true).bestLog.length = 3))
    (by decide +kernel)
  obtain ⟨hstops, hrun⟩ := (Bool.and_eq_true _ _).mp htest
  obtain ⟨hlists, hlisted⟩ := of_decide_eq_true hstops
  obtain ⟨sol, hsol, hlen⟩ := exists_ok_and _ hrun
  have hw : WellFormedStops p.trucks.vehicles := ⟨fun v hv => twice_of_pair (hlists v hv), hlisted⟩
  have hapart := construct_apart (PickDeliver.build_built hp) hw (fun v hv => by simp at hv) hsol
  exact ⟨p, sol, hp, hsol, (run_never_worse hp hsol 3 false true hapart).2.2, of_decide_eq_true hlen⟩

/-- The vehicles −1 and 5 list the same order. -/
def sharedVehicles : List VehicleT :=
  [smallVehicleData (-1) [1, 1], smallVehicleData 5 [1, 1], smallVehicleData 6 [2, 2],
    smallVehicleData 8 []]

/-- Two orders that fit, and two that are too large. -/
def crowdedOrders : List OrdersT :=
  [smallOrderData 1 100, smallOrderData 2 100, { smallOrderData 3 100 with demand := 5 },
    { smallOrderData 4 100 with demand := 5 }]

/-- The first order is on a real vehicle and on every phony one. Each time it leaves a phony vehicle
the new best fleet serves the same orders with more travel time. -/
theorem run_gets_worse : ∃ p sol,
    PickDeliver.build .insertion twoSites crowdedOrders sharedVehicles
      (Driver.getInitialStops sharedVehicles) = .ok p ∧
    InitialSolution.construct twoSites 0 true p = .ok sol ∧
    let o := Optimize.construct .insertion twoSites sol.toSolution 3 false true
    o.bestLog.map (fun F => ((unserved F).toFinset.card, fleetObjective F)) = [(2, 40), (3, 30), (3, 20)] ∧
      (∀ i < sol.orders.length, IsServed sol.orders o.fleet i ↔ IsServed sol.orders sol.fleet i) ∧
      fleetObjective sol.fleet = 20 ∧ fleetObjective o.fleet = 40 ∧
      ¬ NeverWorse sol.orders sol.fleet o.fleet o.bestLog := by
  obtain ⟨p, sol, hp, hsol, htest⟩ := exists_ok_bind_and (x := PickDeliver.build .insertion twoSites
    crowdedOrders sharedVehicles (Driver.getInitialStops sharedVehicles))
    (f := InitialSolution.construct twoSites 0 true)
    (fun sol =>
      let o := Optimize.construct .insertion twoSites sol.toSolution 3 false true
      decide (o.bestLog.map (fun F => ((unserved F).toFinset.card, fleetObjective F)) =
          [(2, 40), (3, 30), (3, 20)] ∧
        (∀ i < sol.orders.length, IsServed sol.orders o.fleet i ↔ IsServed sol.orders sol.fleet i) ∧
        fleetObjective sol.fleet = 20 ∧ fleetObjective o.fleet = 40)) (by decide +kernel)
  obtain ⟨hlog, hserved, h20, h40⟩ := of_decide_eq_true htest
  refine ⟨p, sol, hp, hsol, hlog, hserved, h20, h40, fun h => ?_⟩
  have hle := h.travelTime hserved
  rw [h20, h40] at hle
  omega

end VrpRouting.Optimizers.Tabu
