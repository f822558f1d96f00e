import VrpRouting.InitialSol.Placement
import VrpRouting.InitialSol.RoundTrip

/-! # The given solution, well formed or not

`set_initial_solution` does not look at how often and where the user lists an order: the assertion
that an order is not assigned twice is not in a release build, and nothing asks whether an order that
was picked up is delivered. `consistent_iff` says for which lists of stops the paths, the movable
sets and the two global sets fit together. -/

open Sorting

namespace VrpRouting

/-- The vehicles carry whole orders, each order is on one of them at most, and the sets follow. -/
structure Consistent (orders : Orders) (date : ℤ) (all : Identifiers ℕ) (vs : List Vehicle)
    (sets : Assignment) : Prop where
  whole : ∀ v ∈ vs, ∀ i < orders.length, Carries (orders.get i) v ∨ Free (orders.get i) v
  single : vs.Pairwise fun v w => ∀ i < orders.length,
    Carries (orders.get i) v → ¬ Carries (orders.get i) w
  movable : ∀ v ∈ vs, ∀ i, i ∈ v.ordersInVehicle ↔ i < orders.length ∧ Carries (orders.get i) v ∧
    ¬ ((orders.get i).pickup.isPickup = true ∧ (orders.get i).pickup.opens < date)
  assigned : ∀ i, i ∈ sets.assigned ↔ i < orders.length ∧ ∃ v ∈ vs, Carries (orders.get i) v
  unassigned : ∀ i < orders.length, i ∈ sets.unassigned → ∀ v ∈ vs, ¬ Carries (orders.get i) v
  covered : ∀ i ∈ all, i ∈ sets.assigned ∨ i ∈ sets.unassigned

/-- Every order is listed twice or not at all on a vehicle, and no vehicle lists an order that an
earlier one keeps. -/
structure Processable (M : Matrix) (orders : Orders) (date : ℤ) (optimize : Bool)
    (vs : List Vehicle) : Prop where
  twice : ∀ v ∈ vs, ∀ oId, v.stops.count oId = 0 ∨ v.stops.count oId = 2
  kept : vs.Pairwise fun v w => ∀ i, Kept M orders date optimize v i → ¬ Visited orders w i

/-- The stops of a vehicle whose orders all exist. -/
theorem exists_resolve {orders : Orders} {v : Vehicle} (h : v.stopsKnown orders = true) :
    ∀ x ∈ v.stops, ∃ i, resolve orders x = some i := by
  intro x hx
  obtain ⟨o, ho, hid⟩ := List.any_eq_true.mp (List.all_eq_true.mp h x hx)
  have hfound : (orders.find? fun o => decide (o.id = x)).isSome = true :=
    List.find?_isSome.mpr ⟨o, ho, hid⟩
  obtain ⟨o', ho'⟩ := Option.isSome_iff_exists.mp hfound
  exact ⟨o'.idx, by rw [resolve, ho', Option.map_some]⟩

section Vehicle
variable {M : Matrix} {orders : Orders} (ho : orders.WellFormed) {u : Vehicle}
  (hu : Fresh M orders u) {date : ℤ} {i : ℕ}

theorem mem_stopIdxs {stops : List ℤ} (ho : orders.WellFormed) (h : i ∈ stopIdxs orders stops) :
    i < orders.length ∧ resolve orders (orders.get i).id = some i := by
  obtain ⟨x, -, hx⟩ := List.mem_filterMap.mp h
  obtain ⟨o, hf, rfl⟩ := Option.map_eq_some_iff.mp hx
  exact ⟨(resolve_eq_some ho hf).1, resolve_spec ho hx ▸ hx⟩

omit ho hu in
/-- A visited order is one that the stops name. -/
theorem Visited.mem (h : Visited orders u i) : i ∈ stopIdxs orders u.stops :=
  List.count_pos_iff.mp (Nat.lt_of_lt_of_le Nat.two_pos h)

section Pickup
variable (hn : orders.Named) (hi : (stopIdxs orders u.stops).count i = 2)
include ho hu hn hi

/-- The pickup of the user's route with the identifier of a listed order is that of the order. -/
theorem eq_pickup_of_order {t : TwNode} (ht : t ∈ nodesOf (u.userRoute M orders).path)
    (htype : t.type = .kPickup) (hord : t.order = (orders.get i).id) :
    t = (orders.get i).pickup.toTwNode := by
  obtain ⟨a, b, hN, ha, hb, -⟩ := hu.sites
  obtain ⟨mids, hN', -, hm, -, hvisits⟩ := userRoute_nodes ho hn hu hN
  have hmem : i ∈ stopIdxs orders u.stops := List.count_pos_iff.mp (by omega)
  obtain ⟨hlt, hres⟩ := mem_stopIdxs ho hmem
  rw [hN', List.mem_cons, List.mem_append, List.mem_singleton] at ht
  have hmid : t ∈ mids := by
    rcases ht with rfl | h | rfl
    · rw [htype] at ha
      cases ha
    · exact h
    · rw [htype] at hb
      cases hb
  obtain ⟨j, hj, htj, hordj⟩ := hm _ hmid
  have hvj : t ∈ visits (orders.get j) mids := List.mem_filter.mpr ⟨hmid, htj⟩
  rw [hvisits j hj] at hvj
  have hjmem : j ∈ stopIdxs orders u.stops := by
    refine List.count_pos_iff.mp (Nat.pos_of_ne_zero fun h => ?_)
    rw [h] at hvj
    cases hvj
  have hji : j = i := by
    have hres' := (mem_stopIdxs ho hjmem).2
    rw [← hordj, hord, hres] at hres'
    exact (Option.some.inj hres').symm
  subst hji
  rw [hi, alternate_two] at hvj
  refine (List.mem_pair.mp hvj).resolve_right fun h => ?_
  rw [h, (ho.typed j hlt).delivery] at htype
  cases htype

theorem pickup_mem_userRoute :
    (orders.get i).pickup.toTwNode ∈ nodesOf (u.userRoute M orders).path := by
  obtain ⟨a, b, hN, -⟩ := hu.sites
  obtain ⟨mids, hN', -, -, -, hvisits⟩ := userRoute_nodes ho hn hu hN
  have hmem : i ∈ stopIdxs orders u.stops := List.count_pos_iff.mp (by omega)
  have hlt := (mem_stopIdxs ho hmem).1
  have hv : (orders.get i).pickup.toTwNode ∈ visits (orders.get i) mids := by
    rw [hvisits i hlt, hi, alternate_two]
    exact List.mem_cons_self
  rw [hN']
  exact List.mem_cons_of_mem _ (List.mem_append_left _ (List.mem_filter.mp hv).1)

/-- An order is unmovable when it is picked up before the execution date. -/
theorem mem_unmovable : i ∈ (u.userRoute M orders).unmovable date ↔
    (orders.get i).pickup.isPickup = true ∧ (orders.get i).pickup.opens < date := by
  have hid : ((u.userRoute M orders).orders.get i).id = (orders.get i).id := by
    obtain ⟨path, movable, hothers⟩ := userRoute_others (M := M) ho hu
    rw [hothers]
    exact hu.orders.id i
  have hin : i ∈ (u.userRoute M orders).ordersInVehicle := (mem_userRoute ho hu i).mpr hi.ge
  unfold Vehicle.unmovable
  rw [Identifiers.mem_filter, hid]
  simp only [hin, true_and, List.any_eq_true, Bool.and_eq_true, decide_eq_true_eq]
  constructor
  · rintro ⟨s, hs, ⟨hord, hpick⟩, hopens⟩
    have htype : s.type = .kPickup := by
      simp only [TwNode.isPickup, decide_eq_true_eq] at hpick
      exact hpick.1
    rw [← eq_pickup_of_order ho hu hn hi (List.mem_map_of_mem hs) htype hord]
    exact ⟨hpick, hopens⟩
  · rintro ⟨hpick, hopens⟩
    obtain ⟨s, hs, hst⟩ := List.mem_map.mp (pickup_mem_userRoute ho hu hn hi)
    have hlt := (mem_stopIdxs ho (List.count_pos_iff.mp (hi.symm ▸ Nat.two_pos))).1
    refine ⟨s, hs, ⟨?_, ?_⟩, ?_⟩
    · rw [hst]
      exact (hn i hlt).1
    · rw [hst]
      exact hpick
    · rw [hst]
      exact hopens

end Pickup

variable {v : Vehicle} {sets : Assignment} {optimize : Bool} {r : Vehicle × Assignment}

/-- A vehicle that lists an order twice or not at all carries it when it keeps it. -/
theorem UserResult.carries_iff
    (h : UserResult M orders v sets date (v.lostOrders M orders date optimize) r)
    (hi : i < orders.length)
    (hcount : (stopIdxs orders v.stops).count i = 0 ∨ (stopIdxs orders v.stops).count i = 2) :
    (Carries (orders.get i) r.1 ↔ Kept M orders date optimize v i) ∧
      (Carries (orders.get i) r.1 ∨ Free (orders.get i) r.1) := by
  obtain ⟨hcar, hfree⟩ := h.carries hi hcount
  by_cases hk : Kept M orders date optimize v i
  · exact ⟨iff_of_true (hcar hk) hk, Or.inl (hcar hk)⟩
  · exact ⟨iff_of_false (hfree hk).not_carries hk, Or.inr (hfree hk)⟩

/-- It may give the order away unless this is picked up before the execution date. -/
theorem UserResult.movable_iff (ho : orders.WellFormed) (hn : orders.Named) (hv : Fresh M orders v)
    (h : UserResult M orders v sets date (v.lostOrders M orders date optimize) r)
    (hcount : (stopIdxs orders v.stops).count i = 0 ∨ (stopIdxs orders v.stops).count i = 2) :
    i ∈ r.1.ordersInVehicle ↔ i < orders.length ∧ Carries (orders.get i) r.1 ∧
      ¬ ((orders.get i).pickup.isPickup = true ∧ (orders.get i).pickup.opens < date) := by
  have hmov : i ∈ r.1.ordersInVehicle ↔ (Visited orders v i ∧
      i ∉ (v.userRoute M orders).unmovable date) ∧ i ∉ v.lostOrders M orders date optimize := by
    rw [h.movable, Vehicle.setUnmovable, Identifiers.mem_diff, mem_userRoute ho hv]
  have hun : Visited orders v i → (i ∈ (v.userRoute M orders).unmovable date ↔
      (orders.get i).pickup.isPickup = true ∧ (orders.get i).pickup.opens < date) := fun hvis => by
    refine mem_unmovable ho hv hn (hcount.resolve_left fun h0 => ?_)
    unfold Visited at hvis
    omega
  constructor
  · intro hi
    obtain ⟨⟨hvis, hnot⟩, hlost⟩ := hmov.mp hi
    have hlt := h.route.movable i hi
    exact ⟨hlt, (h.carries_iff hlt hcount).1.mpr ⟨hvis, hlost⟩, mt (hun hvis).mpr hnot⟩
  · rintro ⟨hlt, hc, hlate⟩
    obtain ⟨hvis, hlost⟩ := (h.carries_iff hlt hcount).1.mp hc
    exact hmov.mpr ⟨⟨hvis, mt (hun hvis).mp hlate⟩, hlost⟩

/-- Whatever is listed, an order that is kept is on the path. -/
theorem UserResult.not_free_of_kept
    (h : UserResult M orders v sets date (v.lostOrders M orders date optimize) r)
    (hi : i < orders.length) (hk : Kept M orders date optimize v i) :
    ¬ Free (orders.get i) r.1 := by
  unfold Free
  obtain ⟨hvis, hlost⟩ := hk
  unfold Visited at hvis
  rw [h.visits i hi, if_neg hlost, List.drop_zero]
  intro hnil
  have hlen := congrArg List.length hnil
  simp only [alternate, List.length_map, List.length_range, List.length_nil] at hlen
  omega

/-- Whole orders mean two visits, or four of an order that is taken off the vehicle. -/
theorem UserResult.count_of_whole (ho : orders.WellFormed) (hv : Fresh M orders v)
    (h : UserResult M orders v sets date (v.lostOrders M orders date optimize) r)
    (hi : i < orders.length) (hw : Carries (orders.get i) r.1 ∨ Free (orders.get i) r.1) :
    (stopIdxs orders v.stops).count i = 0 ∨ (stopIdxs orders v.stops).count i = 2 ∨
      Carries (orders.get i) r.1 ∧ i ∈ v.lostOrders M orders date optimize := by
  have hlen := congrArg List.length (h.visits i hi)
  rw [List.length_drop] at hlen
  simp only [alternate, List.length_map, List.length_range] at hlen
  have hvis : i ∈ v.lostOrders M orders date optimize → 2 ≤ (stopIdxs orders v.stops).count i :=
    fun hlost => (lost_lt ho hv i hlost).1
  rcases hw with hc | hf
  · rw [show VrpRouting.visits (orders.get i) (nodesOf r.1.path) = _ from hc] at hlen
    split_ifs at hlen with hlost
    · exact Or.inr (Or.inr ⟨hc, hlost⟩)
    · exact Or.inr (Or.inl hlen.symm)
  · rw [show VrpRouting.visits (orders.get i) (nodesOf r.1.path) = _ from hf] at hlen
    split_ifs at hlen with hlost
    · have := hvis hlost
      simp only [List.length_nil] at hlen
      omega
    · exact Or.inl hlen.symm

end Vehicle

/-! ### All vehicles -/

section Vehicles
variable {M : Matrix} {orders : Orders} (ho : orders.WellFormed) {date : ℤ} {optimize : Bool}
include ho

/-- An assigned order was assigned before, or some vehicle keeps it. -/
theorem exists_kept_of_assigned : ∀ (vs : List Vehicle) (sets : Assignment),
    (∀ v ∈ vs, Fresh M orders v) → ∀ i,
    i ∈ (Fleet.setInitialSolutions M orders date optimize vs sets).2.assigned →
    i ∈ sets.assigned ∨ ∃ v ∈ vs, Kept M orders date optimize v i
  | [], _, _, _, h => Or.inl h
  | v :: vs, sets, hf, i, h => by
    obtain ⟨hv, hvs⟩ := List.forall_mem_cons.mp hf
    rcases exists_kept_of_assigned vs _ hvs i h with h | ⟨w, hw, hk⟩
    · obtain ⟨h | h, hgone⟩ :=
        ((setInitialSolution_spec ho hv sets date optimize).assigned i).mp h
      · exact Or.inl h
      · exact Or.inr ⟨v, by simp, h, hgone⟩
    · exact Or.inr ⟨w, by simp [hw], hk⟩

/-- When an order is assigned in the end, a vehicle that loses it is followed by one that keeps it. -/
theorem exists_kept_of_lost : ∀ (vs : List Vehicle) (sets : Assignment),
    (∀ v ∈ vs, Fresh M orders v) → ∀ i,
    i ∈ (Fleet.setInitialSolutions M orders date optimize vs sets).2.assigned →
    ∀ v ∈ vs, i ∈ v.lostOrders M orders date optimize →
    ∃ w ∈ vs, Kept M orders date optimize w i
  | [], _, _, _, _, v, hv, _ => by cases hv
  | v :: vs, sets, hf, i, h, w, hw, hlost => by
    obtain ⟨hv, hvs⟩ := List.forall_mem_cons.mp hf
    rcases List.mem_cons.mp hw with rfl | hw
    · rcases exists_kept_of_assigned ho vs _ hvs i h with h | ⟨z, hz, hk⟩
      · exact absurd hlost
          (((setInitialSolution_spec ho hv sets date optimize).assigned i).mp h).2
      · exact ⟨z, by simp [hz], hk⟩
    · obtain ⟨z, hz, hk⟩ := exists_kept_of_lost vs _ hvs i h w hw hlost
      exact ⟨z, by simp [hz], hk⟩

/-- When one vehicle at most keeps an order, and kept orders are assigned in the end, then no later
vehicle visits a kept order. -/
theorem pairwise_kept : ∀ (vs : List Vehicle) (sets : Assignment), (∀ v ∈ vs, Fresh M orders v) →
    (vs.Pairwise fun v w => ∀ i, Kept M orders date optimize v i →
      ¬ Kept M orders date optimize w i) →
    (∀ v ∈ vs, ∀ i, Kept M orders date optimize v i →
      i ∈ (Fleet.setInitialSolutions M orders date optimize vs sets).2.assigned) →
    vs.Pairwise fun v w => ∀ i, Kept M orders date optimize v i → ¬ Visited orders w i
  | [], _, _, _, _ => .nil
  | v :: vs, sets, hf, hp, ha => by
    obtain ⟨hv, hvs⟩ := List.forall_mem_cons.mp hf
    obtain ⟨hpv, hp⟩ := List.pairwise_cons.mp hp
    obtain ⟨hav, havs⟩ := List.forall_mem_cons.mp ha
    refine List.pairwise_cons.mpr ⟨fun w hw i hk hvis => ?_, pairwise_kept vs _ hvs hp havs⟩
    have hlost : i ∈ w.lostOrders M orders date optimize :=
      not_not.mp fun h => hpv w hw i hk ⟨hvis, h⟩
    obtain ⟨z, hz, hkz⟩ := exists_kept_of_lost ho vs _ hvs i (hav i hk) w hw hlost
    exact hpv z hz i hk hkz

theorem lt_of_kept {v : Vehicle} {i : ℕ} (hk : Kept M orders date optimize v i) :
    i < orders.length :=
  (mem_stopIdxs ho hk.1.mem).1

variable (hn : orders.Named) {vs : List Vehicle} (hf : ∀ v ∈ vs, Fresh M orders v)
  (all : Identifiers ℕ)
include hf

variable (date optimize) in
/-- The vehicles with what the user's solution makes of them. -/
theorem fresh_setInitialSolutions (sets : Assignment) :
    List.Forall₂ (fun v w => (v ∈ vs ∧ Fresh M orders v) ∧ ∃ sets r, w = r.1 ∧
      UserResult M orders v sets date (v.lostOrders M orders date optimize) r) vs
      (Fleet.setInitialSolutions M orders date optimize vs sets).1 :=
  (List.forall₂_and_left _ _).mpr
    ⟨fun v hv => ⟨hv, hf v hv⟩, setInitialSolutions_spec ho vs sets hf⟩

include hn

/-- **Processable stops give a consistent solution.** -/
theorem Processable.consistent (hp : Processable M orders date optimize vs) :
    let r := Fleet.setInitialSolutions M orders date optimize vs ⟨.empty, all⟩
    Consistent orders date all r.1 r.2 := by
  intro r
  have hlink := fresh_setInitialSolutions ho date optimize hf ⟨.empty, all⟩
  obtain ⟨ha, hu⟩ := setInitialSolutions_kept ho date optimize vs ⟨.empty, all⟩ hf hp.kept
  have hcount := fun {v} (hv : v ∈ vs) => count_of_twice ho (hp.twice v hv)
  have hkept : ∀ i, i ∈ r.2.assigned ↔ ∃ v ∈ vs, Kept M orders date optimize v i := fun i => by
    rw [ha i]
    simp
  have hexists : ∀ i < orders.length, (∃ w ∈ r.1, Carries (orders.get i) w) ↔
      ∃ v ∈ vs, Kept M orders date optimize v i := fun i hi => by
    constructor
    · rintro ⟨w, hw, hc⟩
      obtain ⟨v, -, ⟨hv, -⟩, sets, r, rfl, hres⟩ := ListEdit.exists_mem_of_forall₂ hlink hw
      exact ⟨v, hv, (hres.carries_iff hi (hcount hv i)).1.mp hc⟩
    · rintro ⟨v, hv, hk⟩
      obtain ⟨w, hw, -, sets, r, rfl, hres⟩ := ListEdit.exists_mem_of_forall₂ hlink.flip hv
      exact ⟨_, hw, (hres.carries_iff hi (hcount hv i)).1.mpr hk⟩
  refine ⟨fun w hw i hi => ?_, ?_, fun w hw i => ?_, fun i => ?_,
    fun i hlt hi w hw hc => ?_, fun i hi => ?_⟩
  · obtain ⟨v, -, ⟨hv, -⟩, sets, r, rfl, hres⟩ := ListEdit.exists_mem_of_forall₂ hlink hw
    exact (hres.carries_iff hi (hcount hv i)).2
  · refine ListEdit.pairwise_of_forall₂ hlink ?_ hp.kept
    rintro v v' w w' ⟨⟨hv, -⟩, sets, r, rfl, hres⟩ ⟨⟨hv', -⟩, sets', r', rfl, hres'⟩ hk i hi hc hc'
    exact hk i ((hres.carries_iff hi (hcount hv i)).1.mp hc)
      ((hres'.carries_iff hi (hcount hv' i)).1.mp hc').1
  · obtain ⟨v, -, ⟨hv, hfresh⟩, sets, r, rfl, hres⟩ := ListEdit.exists_mem_of_forall₂ hlink hw
    exact hres.movable_iff ho hn hfresh (hcount hv i)
  · rw [hkept]
    constructor
    · rintro ⟨v, hv, hk⟩
      have hlt := lt_of_kept ho hk
      exact ⟨hlt, (hexists i hlt).mpr ⟨v, hv, hk⟩⟩
    · rintro ⟨hlt, hc⟩
      exact (hexists i hlt).mp hc
  · obtain ⟨v, hv, hk⟩ := (hexists i hlt).mp ⟨w, hw, hc⟩
    exact ((hu i).mp hi).2 v hv hk
  · by_cases hk : ∃ v ∈ vs, Kept M orders date optimize v i
    · exact Or.inl ((hkept i).mpr hk)
    · exact Or.inr ((hu i).mpr ⟨Or.inl hi, fun v hv hkv => hk ⟨v, hv, hkv⟩⟩)

omit hn in
/-- **A consistent solution comes from processable stops.** -/
theorem Processable.of_consistent
    (hknown : ∀ v ∈ vs, ∀ x ∈ v.stops, ∃ i, resolve orders x = some i)
    (hc : let r := Fleet.setInitialSolutions M orders date optimize vs ⟨.empty, all⟩
      Consistent orders date all r.1 r.2) : Processable M orders date optimize vs := by
  generalize hr : Fleet.setInitialSolutions M orders date optimize vs ⟨.empty, all⟩ = r at hc
  have hlink := fresh_setInitialSolutions ho date optimize hf ⟨.empty, all⟩
  rw [hr] at hlink
  have hlen : vs.length = r.1.length := hlink.length_eq
  have hcarries : ∀ {k i : ℕ} (hk : k < vs.length) (hk' : k < r.1.length),
      Kept M orders date optimize vs[k] i → Carries (orders.get i) r.1[k] := by
    intro k i hk hk' hkept
    obtain ⟨-, sets, r', hr', hres⟩ := hlink.get hk hk'
    have hlt := lt_of_kept ho hkept
    refine (hc.whole _ (List.getElem_mem _) i hlt).resolve_right fun hfree => ?_
    exact hres.not_free_of_kept hlt hkept (hr' ▸ hfree)
  have hone : ∀ {k m i : ℕ} (hk : k < r.1.length) (hm : m < r.1.length), i < orders.length →
      Carries (orders.get i) r.1[k] → Carries (orders.get i) r.1[m] → k = m := fun hk hm hi =>
    ListEdit.eq_of_pairwise_not (hc.single.imp fun h => h _ hi) hk hm
  have hassigned : ∀ i, i ∈ r.2.assigned →
      ∃ v ∈ vs, Kept M orders date optimize v i := fun i hi =>
    (exists_kept_of_assigned ho vs ⟨.empty, all⟩ hf i (hr ▸ hi)).resolve_left
      (Identifiers.not_mem_empty i)
  have hcount : ∀ v ∈ vs, ∀ i < orders.length, (stopIdxs orders v.stops).count i = 0 ∨
      (stopIdxs orders v.stops).count i = 2 := by
    intro v hv i hi
    obtain ⟨k, hk, rfl⟩ := List.getElem_of_mem hv
    have hk' : k < r.1.length := hlen ▸ hk
    obtain ⟨⟨-, hfresh⟩, sets, r', hr', hres⟩ := hlink.get hk hk'
    have hr'' : r.1[k] = r'.1 := hr'
    have hwhole := hc.whole _ (List.getElem_mem hk') i hi
    rw [hr''] at hwhole
    rcases hres.count_of_whole ho hfresh hi hwhole with h | h | ⟨hcar, hlost⟩
    · exact Or.inl h
    · exact Or.inr h
    · rw [← hr''] at hcar
      obtain ⟨z, hz, hkz⟩ := hassigned i ((hc.assigned i).mpr ⟨hi, _, List.getElem_mem _, hcar⟩)
      obtain ⟨m, hm, rfl⟩ := List.getElem_of_mem hz
      obtain rfl := hone hk' (hlen ▸ hm) hi hcar (hcarries hm (hlen ▸ hm) hkz)
      exact absurd hlost hkz.2
  refine ⟨fun v hv oId => ?_, pairwise_kept ho vs ⟨.empty, all⟩ hf ?_ fun v hv i hk => ?_⟩
  · by_cases hmem : oId ∈ v.stops
    · obtain ⟨i, hi⟩ := hknown v hv oId hmem
      obtain rfl := resolve_spec ho hi
      rw [← count_stopIdxs ho hi]
      exact hcount v hv i (mem_stopIdxs ho (List.mem_filterMap.mpr ⟨_, hmem, hi⟩)).1
    · exact Or.inl (List.count_eq_zero.mpr hmem)
  · refine List.pairwise_iff_getElem.mpr fun k m hk hm hlt i hkk hkm => ?_
    have hkm' := hone (hlen ▸ hk) (hlen ▸ hm) (lt_of_kept ho hkk) (hcarries hk (hlen ▸ hk) hkk)
      (hcarries hm (hlen ▸ hm) hkm)
    omega
  · obtain ⟨k, hlt, rfl⟩ := List.getElem_of_mem hv
    rw [hr]
    exact (hc.assigned i).mpr ⟨lt_of_kept ho hk, _, List.getElem_mem _, hcarries hlt (hlen ▸ hlt) hk⟩

end Vehicles

/-- **When the given solution is processed into a consistent one.** -/
theorem given_solution_consistent_iff {S : Sorter} {M : Matrix} {pOrders : List OrdersT}
    {pVehicles : List VehicleT} {newStops : List ShortVehicle} {p : PickDeliver}
    (hp : PickDeliver.build S M pOrders pVehicles newStops = .ok p)
    (hknown : ∀ v ∈ p.trucks.vehicles, v.stopsKnown p.orders = true) (date : ℤ) (optimize : Bool) :
    let r := p.trucks.setInitialSolution M p.orders ⟨.empty, p.trucks.feasibleOrders⟩ date optimize
    Consistent p.orders date p.trucks.feasibleOrders r.1.vehicles r.2 ↔
      Processable M p.orders date optimize p.trucks.vehicles := by
  have hb := PickDeliver.build_built hp
  exact ⟨Processable.of_consistent hb.wellFormed hb.fresh _ fun v hv => exists_resolve (hknown v hv),
    Processable.consistent hb.wellFormed hb.named hb.fresh _⟩

/-- One order that is listed twice. -/
theorem given_solution_consistent_small : ∃ p,
    PickDeliver.build .insertion twoSites [smallOrderData 1 100, smallOrderData 2 100]
      [smallVehicleData 7 [1, 1]] [] = .ok p ∧
    let r := p.trucks.setInitialSolution twoSites p.orders ⟨.empty, p.trucks.feasibleOrders⟩ 0 true
    Consistent p.orders 0 p.trucks.feasibleOrders r.1.vehicles r.2 := by
  obtain ⟨p, hp, h⟩ := exists_ok_and (x := PickDeliver.build .insertion twoSites
    [smallOrderData 1 100, smallOrderData 2 100] [smallVehicleData 7 [1, 1]] [])
    (fun p => decide ((∀ v ∈ p.trucks.vehicles, v.stopsKnown p.orders = true) ∧
      (∀ v ∈ p.trucks.vehicles, v.stops = [1, 1] ∨ v.stops = []) ∧
      p.trucks.vehicles.Pairwise fun _ (w : Vehicle) => w.stops = [])) (by decide +kernel)
  obtain ⟨hknown, hlists, hempty⟩ := of_decide_eq_true h
  refine ⟨p, hp, (given_solution_consistent_iff hp hknown 0 true).mpr
    ⟨fun v hv => twice_of_pair (hlists v hv), ?_⟩⟩
  refine hempty.imp fun {_ w} hw i _ hvis => ?_
  unfold Visited at hvis
  rw [hw] at hvis
  simp [stopIdxs] at hvis

/-- An order that is listed once is picked up and never delivered. -/
theorem given_solution_never_delivered : ∃ p,
    PickDeliver.build .insertion twoSites [smallOrderData 1 100] [smallVehicleData 7 [1]] [] = .ok p ∧
    (∀ v ∈ p.trucks.vehicles, v.stopsKnown p.orders = true) ∧
    let r := p.trucks.setInitialSolution twoSites p.orders ⟨.empty, p.trucks.feasibleOrders⟩ 0 true
    ¬ Consistent p.orders 0 p.trucks.feasibleOrders r.1.vehicles r.2 := by
  obtain ⟨p, hp, h⟩ := exists_ok_and (x := PickDeliver.build .insertion twoSites
    [smallOrderData 1 100] [smallVehicleData 7 [1]] [])
    (fun p =>
      let r := p.trucks.setInitialSolution twoSites p.orders ⟨.empty, p.trucks.feasibleOrders⟩ 0 true
      decide ((∀ v ∈ p.trucks.vehicles, v.stopsKnown p.orders = true) ∧ 0 < p.orders.length ∧
        ∃ v ∈ r.1.vehicles, ¬ (Carries (p.orders.get 0) v ∨ Free (p.orders.get 0) v)))
    (by decide +kernel)
  obtain ⟨hknown, hpos, v, hv, hnot⟩ := of_decide_eq_true h
  exact ⟨p, hp, hknown, fun hc => hnot (hc.whole v hv 0 hpos)⟩

end VrpRouting
