import Mathlib.Data.List.Count
import VrpRouting.InitialSol.Construction

/-! # Placement of the orders

Where the orders are after the construction of the tabu `Initial_solution`, when the user lists each
order twice on one vehicle or not at all. An order that stays on a usable vehicle is there, and an
order that is left over is on a copy of the phony truck, if it fits in it. `construct_loses_no_order`
says exactly when that serves every order that fits in a given vehicle. -/

open Sorting

namespace VrpRouting

/-- Each order identifier is listed twice or not at all, and on one vehicle at most. -/
structure WellFormedStops (vs : List Vehicle) : Prop where
  twice : ∀ v ∈ vs, ∀ oId, v.stops.count oId = 0 ∨ v.stops.count oId = 2
  apart : vs.Pairwise fun v w => ∀ oId ∈ v.stops, oId ∉ w.stops

/-- A list with one identifier twice, or nothing. -/
theorem twice_of_pair {stops : List ℤ} {x : ℤ} (h : stops = [x, x] ∨ stops = []) (oId : ℤ) :
    stops.count oId = 0 ∨ stops.count oId = 2 := by
  rcases h with rfl | rfl
  · by_cases hx : oId = x
    · exact Or.inr (by simp [hx])
    · exact Or.inl (List.count_eq_zero.mpr (by simp [hx]))
  · exact Or.inl List.count_nil

section Sets
variable (M : Matrix) (orders : Orders) (date : ℤ) (optimize : Bool)

/-- The order stays on the vehicle of the user's solution. -/
def Kept (v : Vehicle) (i : ℕ) : Prop := Visited orders v i ∧ i ∉ v.lostOrders M orders date optimize

/-- The order is left over by the user's solution. -/
def LeftOver (vs : List Vehicle) (all : Identifiers ℕ) (i : ℕ) : Prop :=
  (i ∈ all ∧ ∀ v ∈ vs, ¬ Visited orders v i) ∨ ∃ v ∈ vs, i ∈ v.lostOrders M orders date optimize

end Sets

section Stops
variable {orders : Orders} (ho : orders.WellFormed)
include ho

theorem count_of_twice {stops : List ℤ} (h : ∀ oId, stops.count oId = 0 ∨ stops.count oId = 2)
    (i : ℕ) : (stopIdxs orders stops).count i = 0 ∨ (stopIdxs orders stops).count i = 2 := by
  by_cases hi : resolve orders (orders.get i).id = some i
  · rw [count_stopIdxs ho hi]
    exact h _
  · refine Or.inl (List.count_eq_zero.mpr fun hmem => ?_)
    obtain ⟨oId, -, hr⟩ := List.mem_filterMap.mp hmem
    exact hi (resolve_spec ho hr ▸ hr)

/-- No two vehicles visit the same order. -/
theorem WellFormedStops.visited {vs : List Vehicle} (h : WellFormedStops vs) :
    vs.Pairwise fun v w => ∀ i, Visited orders v i → ¬ Visited orders w i := by
  have hstop : ∀ {v : Vehicle} {i : ℕ}, Visited orders v i → (orders.get i).id ∈ v.stops := by
    intro v i hv
    unfold Visited at hv
    obtain ⟨oId, hmem, hr⟩ := List.mem_filterMap.mp
      (List.count_pos_iff.mp (by omega : 0 < (stopIdxs orders v.stops).count i))
    rwa [resolve_spec ho hr] at hmem
  exact h.apart.imp fun hvw i hv hw => hvw _ (hstop hv) (hstop hw)

end Stops

/-! ### The sets after the user's solution -/

section Sets
variable {M : Matrix} {orders : Orders} (ho : orders.WellFormed) {date : ℤ} {optimize : Bool}
include ho

variable (date optimize) in
/-- No vehicle visits an order that an earlier one keeps. -/
theorem setInitialSolutions_kept : ∀ (vs : List Vehicle) (sets : Assignment),
    (∀ v ∈ vs, Fresh M orders v) →
    (vs.Pairwise fun v w => ∀ i, Kept M orders date optimize v i → ¬ Visited orders w i) →
    let r := (Fleet.setInitialSolutions M orders date optimize vs sets).2
    (∀ i, i ∈ r.assigned ↔ (i ∈ sets.assigned ∧ ∀ v ∈ vs, i ∉ v.lostOrders M orders date optimize) ∨
      ∃ v ∈ vs, Kept M orders date optimize v i) ∧
    ∀ i, i ∈ r.unassigned ↔ (i ∈ sets.unassigned ∨ ∃ v ∈ vs, i ∈ v.lostOrders M orders date optimize) ∧
      ∀ v ∈ vs, ¬ Kept M orders date optimize v i
  | [], sets, _, _ => by simp [Fleet.setInitialSolutions]
  | v :: vs, sets, hf, hp => by
    obtain ⟨hv, hvs⟩ := List.forall_mem_cons.mp hf
    obtain ⟨hpv, hp⟩ := List.pairwise_cons.mp hp
    have hr := setInitialSolution_spec ho hv sets date optimize
    obtain ⟨ha, hu⟩ := setInitialSolutions_kept vs
      (v.setInitialSolution M orders sets date optimize).2 hvs hp
    have hlost : ∀ {i}, Kept M orders date optimize v i → ∀ w ∈ vs,
        i ∉ w.lostOrders M orders date optimize := fun {i} hi w hw hl =>
      hpv w hw i hi (lost_lt ho (hvs w hw) i hl).1
    refine ⟨fun i => (ha i).trans ?_, fun i => (hu i).trans ?_⟩
    · rw [hr.assigned, List.forall_mem_cons, List.exists_mem_cons_iff]
      constructor
      · rintro (⟨⟨hi | hi, hgone⟩, hvs'⟩ | hex)
        · exact Or.inl ⟨hi, hgone, hvs'⟩
        · exact Or.inr (Or.inl ⟨hi, hgone⟩)
        · exact Or.inr (Or.inr hex)
      · rintro (⟨hi, hgone, hvs'⟩ | hk | hex)
        · exact Or.inl ⟨⟨Or.inl hi, hgone⟩, hvs'⟩
        · exact Or.inl ⟨⟨Or.inr hk.1, hk.2⟩, hlost hk⟩
        · exact Or.inr hex
    · rw [hr.unassigned, List.forall_mem_cons, List.exists_mem_cons_iff]
      constructor
      · rintro ⟨(⟨hi, hnv⟩ | hgone) | ⟨w, hw, hl⟩, hk⟩
        · exact ⟨Or.inl hi, fun h => hnv h.1, hk⟩
        · exact ⟨Or.inr (Or.inl hgone), fun h => h.2 hgone, hk⟩
        · exact ⟨Or.inr (Or.inr ⟨w, hw, hl⟩), fun h => hlost h w hw hl, hk⟩
      · rintro ⟨hi | hgone | hex, hkv, hk⟩
        · by_cases hvis : Visited orders v i
          · exact ⟨Or.inl (Or.inr (not_not.mp fun h => hkv ⟨hvis, h⟩)), hk⟩
          · exact ⟨Or.inl (Or.inl ⟨hi, hvis⟩), hk⟩
        · exact ⟨Or.inl (Or.inr hgone), hk⟩
        · exact ⟨Or.inr hex, hk⟩

omit ho in
theorem visited_unique {vs : List Vehicle}
    (hp : vs.Pairwise fun v w => ∀ i, Visited orders v i → ¬ Visited orders w i) {u v : Vehicle}
    (hu : u ∈ vs) (hv : v ∈ vs) {i : ℕ} (hui : Visited orders u i) (hvi : Visited orders v i) :
    u = v := by
  obtain ⟨k, hk, rfl⟩ := List.getElem_of_mem hu
  obtain ⟨l, hl, rfl⟩ := List.getElem_of_mem hv
  simp only [ListEdit.eq_of_pairwise_not (hp.imp fun h => h i) hk hl hui hvi]

variable (date optimize) in
theorem setInitialSolutions_sets (vs : List Vehicle) (sets : Assignment)
    (hf : ∀ v ∈ vs, Fresh M orders v)
    (hp : vs.Pairwise fun v w => ∀ i, Visited orders v i → ¬ Visited orders w i) :
    let r := (Fleet.setInitialSolutions M orders date optimize vs sets).2
    (∀ i, i ∈ r.assigned ↔ (i ∈ sets.assigned ∧ ∀ v ∈ vs, i ∉ v.lostOrders M orders date optimize) ∨
      ∃ v ∈ vs, Kept M orders date optimize v i) ∧
    ∀ i, i ∈ r.unassigned ↔ LeftOver M orders date optimize vs sets.unassigned i := by
  obtain ⟨ha, hu⟩ := setInitialSolutions_kept ho date optimize vs sets hf
    (hp.imp fun h i hk => h i hk.1)
  refine ⟨ha, fun i => (hu i).trans ?_⟩
  constructor
  · rintro ⟨hi | hex, hk⟩
    · by_cases hlost : ∃ v ∈ vs, i ∈ v.lostOrders M orders date optimize
      · exact Or.inr hlost
      · exact Or.inl ⟨hi, fun v hv hvis => hk v hv ⟨hvis, fun hl => hlost ⟨v, hv, hl⟩⟩⟩
    · exact Or.inr hex
  · rintro (⟨hi, hnv⟩ | ⟨v, hv, hl⟩)
    · exact ⟨Or.inl hi, fun v hv hk => hnv v hv hk.1⟩
    · refine ⟨Or.inr ⟨v, hv, hl⟩, fun w hw hk => hk.2 ?_⟩
      rwa [← visited_unique hp hv hw (lost_lt ho (hf v hv) i hl).1 hk.1]

omit ho in
/-- The user's solution keeps an order on the path or takes it away. -/
theorem UserResult.carries {v : Vehicle} {sets : Assignment} {r : Vehicle × Assignment}
    (h : UserResult M orders v sets date (v.lostOrders M orders date optimize) r) {i : ℕ}
    (hi : i < orders.length)
    (hcount : (stopIdxs orders v.stops).count i = 0 ∨ (stopIdxs orders v.stops).count i = 2) :
    (Kept M orders date optimize v i → Carries (orders.get i) r.1) ∧
      (¬ Kept M orders date optimize v i → Free (orders.get i) r.1) := by
  unfold Kept Visited Carries Free
  rw [h.visits i hi]
  rcases hcount with hc | hc
  · rw [hc]
    exact ⟨fun hk => by omega, fun _ => by simp [alternate]⟩
  · rw [hc]
    refine ⟨fun hk => by rw [if_neg hk.2]; rfl, fun hk => ?_⟩
    rw [if_pos (by_contra fun hl => hk ⟨le_rfl, hl⟩)]
    rfl

end Sets

namespace Initialsol.Tabu

/-! ### The checkpoints -/

theorem Checkpoint.invariant_iff {c : Checkpoint} : c.invariant = true ↔
    (∀ i, i ∈ c.allOrders ↔ i ∈ c.assigned ∨ i ∈ c.unassigned) ∧
      ∀ i ∈ c.assigned, i ∉ c.unassigned := by
  simp only [Checkpoint.invariant, Bool.and_eq_true, Identifiers.same_iff, Identifiers.isEmpty_iff,
    Identifiers.ext_iff, Identifiers.mem_union, Identifiers.mem_inter, not_and]

namespace InitialSolution

/-- The two assertions hold now, and held at every earlier call. -/
structure Sound (s : InitialSolution) : Prop where
  now : (⟨s.allOrders, s.assigned, s.unassigned⟩ : Checkpoint).invariant = true
  before : ∀ c ∈ s.checkpoints, c.invariant = true

theorem Sound.check {s : InitialSolution} (h : s.Sound) : s.check.Sound :=
  ⟨h.now, List.forall_mem_append.mpr ⟨h.before, List.forall_mem_singleton.mpr h.now⟩⟩

section Place
variable (M : Matrix)

theorem Sound.placeUnassigned {s : InitialSolution} (h : s.Sound) {o : ℕ} (ho : o ∈ s.unassigned) :
    (s.placeUnassigned M o).Sound := by
  obtain ⟨hall, hdis⟩ := Checkpoint.invariant_iff.mp h.now
  have hna : o ∉ s.assigned := fun ha => hdis o ha ho
  unfold InitialSolution.placeUnassigned
  dsimp only
  split_ifs
  · refine ⟨Checkpoint.invariant_iff.mpr ⟨fun i => ?_, fun i hi hu => ?_⟩, h.before⟩
    · simp only [Identifiers.mem_erase, hall]
      have : i = o → i ∉ s.assigned := fun e => e ▸ hna
      tauto
    · exact hdis i hi (Identifiers.mem_erase.mp hu).1
  · refine Sound.check ⟨Checkpoint.invariant_iff.mpr ⟨fun i => ?_, fun i hi hu => ?_⟩, h.before⟩
    · simp only [Identifiers.mem_erase, Identifiers.mem_insert, hall]
      have : i = o → i ∈ s.unassigned := fun e => e ▸ ho
      tauto
    · obtain ⟨hu, hio⟩ := Identifiers.mem_erase.mp hu
      exact (Identifiers.mem_insert.mp hi).elim hio fun ha => hdis i ha hu

theorem unassigned_placeUnassigned (s : InitialSolution) (o : ℕ) :
    (s.placeUnassigned M o).unassigned = s.unassigned.erase o ∧
      s.checkpoints ⊆ (s.placeUnassigned M o).checkpoints := by
  unfold InitialSolution.placeUnassigned
  dsimp only
  split_ifs
  · exact ⟨rfl, List.Subset.refl _⟩
  · exact ⟨rfl, List.subset_append_left _ _⟩

/-- The loop of `process_unassigned`. -/
theorem placeUnassigned_run : ∀ (ids : List ℕ) (s : InitialSolution), ids.Nodup →
    (∀ o ∈ ids, o ∈ s.unassigned) →
    (s.Sound → (ids.foldl (placeUnassigned M) s).Sound) ∧
    (∀ i, i ∈ (ids.foldl (placeUnassigned M) s).unassigned ↔ i ∈ s.unassigned ∧ i ∉ ids) ∧
    s.checkpoints ⊆ (ids.foldl (placeUnassigned M) s).checkpoints
  | [], s, _, _ => ⟨id, by simp, List.Subset.refl _⟩
  | o :: ids, s, hn, hin => by
    obtain ⟨ho, hn⟩ := List.nodup_cons.mp hn
    obtain ⟨hmem, hin⟩ := List.forall_mem_cons.mp hin
    obtain ⟨hu, hc⟩ := unassigned_placeUnassigned M s o
    obtain ⟨h1, h2, h3⟩ := placeUnassigned_run ids (s.placeUnassigned M o) hn fun i hi => by
      rw [hu, Identifiers.mem_erase]
      exact ⟨hin i hi, fun e => ho (e ▸ hi)⟩
    refine ⟨fun h => h1 (h.placeUnassigned M hmem), fun i => (h2 i).trans ?_,
      List.Subset.trans hc h3⟩
    rw [hu, Identifiers.mem_erase, List.mem_cons]
    tauto

end Place

/-! ### The fleet -/

section Fleet
variable {S : Sorter} {M : Matrix} {pOrders : List OrdersT} {pVehicles : List VehicleT}
  {newStops : List ShortVehicle} {p : PickDeliver} (hb : p.Built S M pOrders pVehicles newStops)
  (hw : WellFormedStops p.trucks.vehicles) {date : ℤ} {optimize : Bool}

/-- The order stays on a usable vehicle of the problem. -/
def OnTruck (M : Matrix) (date : ℤ) (optimize : Bool) (p : PickDeliver) (i : ℕ) : Prop :=
  ∃ v ∈ p.trucks.vehicles, v.isOk = true ∧ v.isPhony = false ∧ Kept M p.orders date optimize v i

include hb hw

/-- One truck at most keeps the order. -/
theorem kept_unique {k l : ℕ} {u v : Vehicle} (hu : p.trucks.vehicles[k]? = some u)
    (hv : p.trucks.vehicles[l]? = some v) {i : ℕ} (hku : Kept M p.orders date optimize u i)
    (hkv : Kept M p.orders date optimize v i) : k = l := by
  obtain ⟨hk, rfl⟩ := List.getElem?_eq_some_iff.mp hu
  obtain ⟨hl, rfl⟩ := List.getElem?_eq_some_iff.mp hv
  have hp := List.pairwise_iff_getElem.mp (hw.visited hb.wellFormed)
  rcases Nat.lt_trichotomy k l with h | h | h
  · exact absurd hkv.1 (hp k l hk hl h i hku.1)
  · exact h
  · exact absurd hku.1 (hp l k hl hk h i hkv.1)

variable (date optimize) in
/-- A truck of the user's solution carries the orders that stay on it. -/
theorem carries_userFleet {k : ℕ} {u : Vehicle} (hu : p.trucks.vehicles[k]? = some u) {i : ℕ}
    (hi : i < p.orders.length) :
    let w := (userFleet M date optimize p).1.vehicle k
    w.isPhony = u.isPhony ∧ (Kept M p.orders date optimize u i → Carries (p.orders.get i) w) ∧
      (¬ Kept M p.orders date optimize u i → Free (p.orders.get i) w) := by
  have h := served_userFleet hb date optimize
  obtain ⟨hk, rfl⟩ := List.getElem?_eq_some_iff.mp hu
  have hk' : k < (userFleet M date optimize p).1.vehicles.length := h.length_eq ▸ hk
  obtain ⟨sets, r, hr, hres⟩ := h.get hk hk'
  have hr' : (userFleet M date optimize p).1.vehicles[k] = r.1 := hr
  dsimp only
  rw [Fleet.vehicle_eq_getElem hk', hr']
  refine ⟨?_, hres.carries hi (count_of_twice hb.wellFormed (hw.twice _ (List.getElem_mem hk)) i)⟩
  obtain ⟨path, movable, twv, cv, hothers⟩ := hres.others
  rw [hothers]
  rfl

variable (date optimize) in
/-- On the trucks, an order that stays on a usable one is carried once. -/
theorem carriers_getUnusedTrucks {i : ℕ} (hi : i < p.orders.length) :
    (OnTruck M date optimize p i →
      carriers (p.orders.get i) (userFleet M date optimize p).1.getUnusedTrucks = 1) ∧
    (¬ OnTruck M date optimize p i →
      carriers (p.orders.get i) (userFleet M date optimize p).1.getUnusedTrucks = 0) := by
  obtain ⟨first, rest, -, hf⟩ := hb.fleet
  have hids : ∀ k ∈ p.trucks.unused.ids, ∃ u, p.trucks.vehicles[k]? = some u ∧ u.isOk = true :=
    fun k hk => (hf.unused k).mp hk
  have hcount : carriers (p.orders.get i) (userFleet M date optimize p).1.getUnusedTrucks =
      p.trucks.unused.ids.countP fun k =>
        decide (Carries (p.orders.get i) ((userFleet M date optimize p).1.vehicle k)) &&
          !((userFleet M date optimize p).1.vehicle k).isPhony := by
    unfold carriers Fleet.getUnusedTrucks
    rw [List.countP_filter, List.countP_map]
    rfl
  constructor
  · rintro ⟨u, hu, hok, hreal, hkept⟩
    obtain ⟨k, hk, rfl⟩ := List.getElem_of_mem hu
    have hget := List.getElem?_eq_getElem hk
    have hmem : k ∈ p.trucks.unused.ids := (hf.unused k).mpr ⟨_, hget, hok⟩
    rw [hcount, ← List.count_eq_one_of_mem p.trucks.unused.nodup hmem, List.count]
    refine List.countP_congr fun l hl => ?_
    obtain ⟨v, hv, -⟩ := hids l hl
    obtain ⟨hphony, hcar, hfree⟩ := carries_userFleet hb hw date optimize hv hi
    simp only [Bool.and_eq_true, decide_eq_true_eq, Bool.not_eq_true', beq_iff_eq, hphony]
    constructor
    · rintro ⟨hc, -⟩
      by_contra hne
      exact (hfree fun hkv => hne (kept_unique hb hw hv hget hkv hkept)).not_carries hc
    · rintro rfl
      obtain rfl := Option.some.inj (hv.symm.trans hget)
      exact ⟨hcar hkept, hreal⟩
  · intro hnot
    rw [hcount, List.countP_eq_zero]
    intro k hk hc
    obtain ⟨u, hu, hok⟩ := hids k hk
    obtain ⟨hphony, -, hfree⟩ := carries_userFleet hb hw date optimize hu hi
    simp only [Bool.and_eq_true, decide_eq_true_eq, Bool.not_eq_true', hphony] at hc
    refine (hfree fun hkept => hnot ?_).not_carries hc.1
    exact ⟨u, List.mem_of_getElem? hu, hok, hc.2, hkept⟩

omit hw in
/-- The copies of the phony truck carry one order each. -/
theorem carriers_copies (hn : NoPhonyStops newStops) {i : ℕ} (hi : i < p.orders.length) :
    ∀ l : List ℕ, (∀ o ∈ l, o < p.orders.length) →
      let copies := l.map fun o => p.trucks.getPhony.pushBack M (p.orders.get o)
      carriers (p.orders.get i) copies = l.count i ∧
        ∀ v ∈ copies, Carries (p.orders.get i) v ∨ Free (p.orders.get i) v
  | [], _ => ⟨rfl, by simp⟩
  | o :: l, hl => by
    obtain ⟨ho, hl⟩ := List.forall_mem_cons.mp hl
    obtain ⟨h1, h2⟩ := carriers_copies hn hi l hl
    have hv := hb.fresh _ (List.mem_of_getLast? (getPhony_userFleet hb 0 true hn).1)
    have hins := pushBack_spec (M := M) hv.route.route (hb.wellFormed.typed o ho)
    dsimp only at h1 h2 ⊢
    rw [List.map_cons, carriers_cons, h1, List.count_cons, List.forall_mem_cons]
    by_cases hoi : o = i
    · subst hoi
      have hc := hins.carries (hv.free o ho)
      exact ⟨by simp [hc], Or.inl hc, h2⟩
    · have hfree : Free (p.orders.get i) (p.trucks.getPhony.pushBack M (p.orders.get o)) := by
        unfold Free
        rw [hins.visits_other hb.wellFormed hi ho (Ne.symm hoi)]
        exact hv.free i hi
      exact ⟨by simp [hoi, hfree.not_carries], Or.inr hfree, h2⟩

end Fleet

/-! ### No order is lost -/

section Main
variable {S : Sorter} {M : Matrix} {pOrders : List OrdersT} {pVehicles : List VehicleT}
  {newStops : List ShortVehicle} {p : PickDeliver}

/-- The order is feasible alone on a given vehicle; the last vehicle of the fleet is the phony one. -/
def Alone (M : Matrix) (p : PickDeliver) (i : ℕ) : Prop :=
  ∃ v ∈ p.trucks.vehicles.dropLast, v.isOrderFeasible M (p.orders.get i) = true

/-- Each order that a given vehicle can serve is picked up and delivered by one vehicle, and not
visited by any other; the assertions hold at every call; no order is unassigned. -/
structure LosesNoOrder (M : Matrix) (p : PickDeliver) (s : InitialSolution) : Prop where
  served : ∀ i < p.orders.length, Alone M p i → carriers (p.orders.get i) s.fleet = 1 ∧
    ∀ v ∈ s.fleet, Carries (p.orders.get i) v ∨ Free (p.orders.get i) v
  checkpoints : ∀ c ∈ s.checkpoints, c.invariant = true
  disjoint : ∀ i ∈ s.assigned, i ∉ s.unassigned
  finished : s.unassigned = .empty

/-- The condition on the problem: a listed order fits in some vehicle, and an order that a given
vehicle can serve stays on a usable vehicle, or is left over and fits in the phony one. -/
structure Placeable (M : Matrix) (date : ℤ) (optimize : Bool) (p : PickDeliver) : Prop where
  listed : ∀ v ∈ p.trucks.vehicles, ∀ i, Visited p.orders v i → i ∈ p.trucks.feasibleOrders
  placed : ∀ i < p.orders.length, Alone M p i → OnTruck M date optimize p i ∨
    i ∈ p.trucks.feasibleOrders ∧
      (∀ v ∈ p.trucks.vehicles, ¬ Kept M p.orders date optimize v i) ∧
      p.trucks.getPhony.isOrderFeasible M (p.orders.get i) = true

variable (hb : p.Built S M pOrders pVehicles newStops) (hw : WellFormedStops p.trucks.vehicles)
  {date : ℤ} {optimize : Bool} {s : InitialSolution}
include hb hw

variable (date optimize) in
/-- The sets after the user's solution. -/
theorem userFleet_sets :
    (∀ i, i ∈ (userFleet M date optimize p).2.assigned ↔
      ∃ v ∈ p.trucks.vehicles, Kept M p.orders date optimize v i) ∧
    ∀ i, i ∈ (userFleet M date optimize p).2.unassigned ↔
      LeftOver M p.orders date optimize p.trucks.vehicles p.trucks.feasibleOrders i := by
  obtain ⟨ha, hu⟩ := setInitialSolutions_sets hb.wellFormed date optimize
    p.trucks.vehicles ⟨.empty, p.trucks.feasibleOrders⟩ hb.fresh (hw.visited hb.wellFormed)
  exact ⟨fun i => (ha i).trans (or_iff_right fun h => Identifiers.not_mem_empty i h.1), hu⟩

theorem not_kept_of_leftOver {i : ℕ}
    (h : LeftOver M p.orders date optimize p.trucks.vehicles p.trucks.feasibleOrders i) :
    ∀ v ∈ p.trucks.vehicles, ¬ Kept M p.orders date optimize v i := by
  rintro v hv ⟨hvi, hlost⟩
  rcases h with ⟨-, h⟩ | ⟨u, hu, hul⟩
  · exact h v hv hvi
  · have hui := (lost_lt hb.wellFormed (hb.fresh u hu) i hul).1
    exact hlost (visited_unique (hw.visited hb.wellFormed) hu hv hui hvi ▸ hul)

/-- When the listed orders fit in some vehicle, the other ones that fit are left over. -/
theorem leftOver_iff (hl : ∀ v ∈ p.trucks.vehicles, ∀ i, Visited p.orders v i →
    i ∈ p.trucks.feasibleOrders) {i : ℕ} :
    LeftOver M p.orders date optimize p.trucks.vehicles p.trucks.feasibleOrders i ↔
      i ∈ p.trucks.feasibleOrders ∧
        ∀ v ∈ p.trucks.vehicles, ¬ Kept M p.orders date optimize v i := by
  refine ⟨fun h => ⟨?_, not_kept_of_leftOver hb hw h⟩, fun ⟨hi, hk⟩ => ?_⟩
  · rcases h with ⟨h, -⟩ | ⟨v, hv, hlost⟩
    · exact h
    · exact hl v hv i (lost_lt hb.wellFormed (hb.fresh v hv) i hlost).1
  · by_cases hany : ∃ v ∈ p.trucks.vehicles, Visited p.orders v i
    · obtain ⟨v, hv, hvi⟩ := hany
      exact Or.inr ⟨v, hv, by_contra fun hlost => hk v hv ⟨hvi, hlost⟩⟩
    · push Not at hany
      exact Or.inl ⟨hi, hany⟩

/-- The assertions hold up to the phony vehicles exactly when the listed orders fit. -/
theorem prepared_sound_iff : (prepared M date optimize p).Sound ↔
    ∀ v ∈ p.trucks.vehicles, ∀ i, Visited p.orders v i → i ∈ p.trucks.feasibleOrders := by
  obtain ⟨ha, hu⟩ := userFleet_sets hb hw date optimize
  have hcheck : (prepared M date optimize p).checkpoints = [⟨.empty, .empty, .empty⟩,
      ⟨p.trucks.feasibleOrders, .empty, p.trucks.feasibleOrders⟩,
      ⟨p.trucks.feasibleOrders, (userFleet M date optimize p).2.assigned,
        (userFleet M date optimize p).2.unassigned⟩] := rfl
  have hnow : (⟨(prepared M date optimize p).allOrders, (prepared M date optimize p).assigned,
      (prepared M date optimize p).unassigned⟩ : Checkpoint) =
      ⟨p.trucks.feasibleOrders, (userFleet M date optimize p).2.assigned,
        (userFleet M date optimize p).2.unassigned⟩ := rfl
  constructor
  · intro h v hv i hi
    have hall := (Checkpoint.invariant_iff.mp (hnow ▸ h.now)).1
    refine (hall i).mpr ?_
    by_cases hlost : i ∈ v.lostOrders M p.orders date optimize
    · exact Or.inr ((hu i).mpr (Or.inr ⟨v, hv, hlost⟩))
    · exact Or.inl ((ha i).mpr ⟨v, hv, hi, hlost⟩)
  · intro hl
    have hinv : (⟨p.trucks.feasibleOrders, (userFleet M date optimize p).2.assigned,
        (userFleet M date optimize p).2.unassigned⟩ : Checkpoint).invariant = true := by
      refine Checkpoint.invariant_iff.mpr ⟨fun i => ?_, fun i hi hun => ?_⟩
      · dsimp only
        rw [ha, hu, leftOver_iff hb hw hl]
        refine ⟨fun hi => ?_, ?_⟩
        · by_cases hk : ∃ v ∈ p.trucks.vehicles, Kept M p.orders date optimize v i
          · exact Or.inl hk
          · push Not at hk
            exact Or.inr ⟨hi, hk⟩
        · rintro (⟨v, hv, hk⟩ | ⟨hi, -⟩)
          · exact hl v hv i hk.1
          · exact hi
      · obtain ⟨v, hv, hk⟩ := (ha i).mp hi
        exact not_kept_of_leftOver hb hw ((hu i).mp hun) v hv hk
    refine ⟨hnow ▸ hinv, ?_⟩
    rw [hcheck]
    simp only [List.forall_mem_cons, List.not_mem_nil, false_imp_iff, implies_true, and_true]
    refine ⟨by decide, Checkpoint.invariant_iff.mpr ⟨fun i => ?_, fun i hi => ?_⟩, hinv⟩
    · simp
    · exact absurd hi (Identifiers.not_mem_empty i)

/-- The vehicles of the result that carry an order. -/
theorem carriers_construct (hn : NoPhonyStops newStops)
    (h : construct M date optimize p = .ok s) {i : ℕ} (hi : i < p.orders.length) :
    (carriers (p.orders.get i) s.fleet = 1 ↔ OnTruck M date optimize p i ∨
      LeftOver M p.orders date optimize p.trucks.vehicles p.trucks.feasibleOrders i ∧
        p.trucks.getPhony.isOrderFeasible M (p.orders.get i) = true) ∧
    ∀ v ∈ s.fleet, Carries (p.orders.get i) v ∨ Free (p.orders.get i) v := by
  obtain ⟨first, rest, -, hf⟩ := hb.fleet
  obtain ⟨-, -, hfleet⟩ := construct_fleet h hf.used
  obtain ⟨-, hphony⟩ := getPhony_userFleet hb date optimize hn
  obtain ⟨hone, hzero⟩ := carriers_getUnusedTrucks hb hw date optimize hi
  obtain ⟨hcopies, hwhole⟩ := carriers_copies hb hn hi _ (placed_lt hb date optimize)
  have hplaced : i ∈ placedOrders M date optimize p ↔
      LeftOver M p.orders date optimize p.trucks.vehicles p.trucks.feasibleOrders i ∧
        p.trucks.getPhony.isOrderFeasible M (p.orders.get i) = true := by
    unfold placedOrders
    dsimp only
    rw [List.mem_filter, hphony]
    exact and_congr_left' ((userFleet_sets hb hw date optimize).2 i)
  have hnodup : (placedOrders M date optimize p).Nodup := (Identifiers.nodup _).filter _
  rw [hphony] at hfleet
  have hsum : carriers (p.orders.get i) s.fleet =
      carriers (p.orders.get i) (userFleet M date optimize p).1.getUnusedTrucks +
        (placedOrders M date optimize p).count i := by
    rw [hfleet, ← hcopies]
    exact List.countP_append
  constructor
  · rw [hsum, ← hplaced]
    by_cases ht : OnTruck M date optimize p i
    · have hnot : i ∉ placedOrders M date optimize p := fun hin => by
        obtain ⟨v, hv, -, -, hk⟩ := ht
        exact not_kept_of_leftOver hb hw (hplaced.mp hin).1 v hv hk
      rw [hone ht, List.count_eq_zero.mpr hnot]
      exact iff_of_true rfl (Or.inl ht)
    · rw [hzero ht, Nat.zero_add, or_iff_right ht]
      by_cases hin : i ∈ placedOrders M date optimize p
      · exact iff_of_true (List.count_eq_one_of_mem hnodup hin) hin
      · exact iff_of_false (by rw [List.count_eq_zero.mpr hin]; decide) hin
  · rw [hfleet]
    refine List.forall_mem_append.mpr ⟨fun v hv => ?_, hwhole⟩
    obtain ⟨k, hk, rfl⟩ := List.mem_map.mp (List.mem_filter.mp hv).1
    obtain ⟨u, hu, -⟩ := (hf.unused k).mp hk
    obtain ⟨-, hcar, hfree⟩ := carries_userFleet hb hw date optimize hu hi
    by_cases hkept : Kept M p.orders date optimize u i
    · exact Or.inl (hcar hkept)
    · exact Or.inr (hfree hkept)

end Main

/-- **The construction loses no order exactly when the problem is placeable.** -/
theorem construct_loses_no_order {S : Sorter} {M : Matrix} {pOrders : List OrdersT}
    {pVehicles : List VehicleT} {newStops : List ShortVehicle} {p : PickDeliver}
    (hp : PickDeliver.build S M pOrders pVehicles newStops = .ok p)
    (hw : WellFormedStops p.trucks.vehicles) (hn : NoPhonyStops newStops) {date : ℤ}
    {optimize : Bool} {s : InitialSolution} (h : construct M date optimize p = .ok s) :
    LosesNoOrder M p s ↔ Placeable M date optimize p := by
  have hb := PickDeliver.build_built hp
  obtain ⟨first, rest, -, hf⟩ := hb.fleet
  have hs := construct_eq h hf.used
  obtain ⟨hsound, hun, hsub⟩ := placeUnassigned_run M (prepared M date optimize p).unassigned.ids
    (prepared M date optimize p).check (Identifiers.nodup _) (fun o ho => ho)
  have hcarriers := fun {i} (hi : i < p.orders.length) => carriers_construct hb hw hn h hi
  have hempty : s.unassigned = .empty := by
    rw [hs]
    exact Identifiers.ext_iff.mpr fun i => iff_of_false
      (fun hi => ((hun i).mp hi).2 ((hun i).mp hi).1) (Identifiers.not_mem_empty i)
  have hprepared : (∀ c ∈ s.checkpoints, c.invariant = true) → (prepared M date optimize p).Sound := by
    intro hc
    rw [hs] at hc
    have hlast : ∀ c ∈ (prepared M date optimize p).check.checkpoints, c.invariant = true :=
      fun c hmem => hc c (List.mem_append_left _ (List.mem_append_left _ (hsub hmem)))
    exact ⟨hlast _ (List.mem_append_right _ (List.mem_singleton.mpr rfl)),
      fun c hmem => hlast c (List.mem_append_left _ hmem)⟩
  constructor
  · intro hl
    have hlisted := (prepared_sound_iff hb hw).mp (hprepared hl.checkpoints)
    refine ⟨hlisted, fun i hi halone => ?_⟩
    refine ((hcarriers hi).1.mp (hl.served i hi halone).1).imp_right fun ⟨hleft, hphony⟩ => ?_
    obtain ⟨h1, h2⟩ := (leftOver_iff hb hw hlisted).mp hleft
    exact ⟨h1, h2, hphony⟩
  · intro hpl
    have hchecked : s.Sound := by
      rw [hs]
      exact ((hsound ((prepared_sound_iff hb hw).mpr hpl.listed).check).check).check
    refine ⟨fun i hi halone => ⟨(hcarriers hi).1.mpr ?_, (hcarriers hi).2⟩, hchecked.before, ?_, hempty⟩
    · refine (hpl.placed i hi halone).imp_right fun ⟨h1, h2, hphony⟩ => ?_
      exact ⟨(leftOver_iff hb hw hpl.listed).mpr ⟨h1, h2⟩, hphony⟩
    · exact (Checkpoint.invariant_iff.mp hchecked.now).2

/-! ### A slow first vehicle -/

theorem construct_loses_no_order_small : ∃ p s,
    PickDeliver.build .insertion twoSites [smallOrderData 1 100, smallOrderData 2 100]
      [smallVehicleData 7 [1, 1]] [] = .ok p ∧
    construct twoSites 0 true p = .ok s ∧
    (LosesNoOrder twoSites p s ↔ Placeable twoSites 0 true p) := by
  obtain ⟨p, hp, h⟩ := exists_ok_and (x := PickDeliver.build .insertion twoSites
    [smallOrderData 1 100, smallOrderData 2 100] [smallVehicleData 7 [1, 1]] [])
    (fun p => decide ((∀ v ∈ p.trucks.vehicles, v.stops = [1, 1] ∨ v.stops = []) ∧
      p.trucks.vehicles.Pairwise fun (v w : Vehicle) => ∀ oId ∈ v.stops, oId ∉ w.stops) &&
      (construct twoSites 0 true p).isOk) (by decide +kernel)
  obtain ⟨hstops, hok⟩ := Bool.and_eq_true_iff.mp h
  obtain ⟨hlists, hapart⟩ := of_decide_eq_true hstops
  obtain ⟨s, hs⟩ := exists_ok hok
  have hw : WellFormedStops p.trucks.vehicles := ⟨fun v hv => twice_of_pair (hlists v hv), hapart⟩
  exact ⟨p, s, hp, hs, construct_loses_no_order hp hw (fun v hv => by simp at hv) hs⟩

/-- The phony truck is as slow as the first vehicle, so the order that only the second one can serve
is not placed at all. -/
theorem construct_loses_slow : ∃ p s,
    PickDeliver.build .insertion twoSites [smallOrderData 1 100]
      [{ smallVehicleData 7 [] with speed := 1 / 100 }, smallVehicleData 8 []] [] = .ok p ∧
    WellFormedStops p.trucks.vehicles ∧ construct twoSites 0 true p = .ok s ∧
    ¬ LosesNoOrder twoSites p s := by
  obtain ⟨p, hp, h⟩ := exists_ok_and (x := PickDeliver.build .insertion twoSites
    [smallOrderData 1 100] [{ smallVehicleData 7 [] with speed := 1 / 100 }, smallVehicleData 8 []] [])
    (fun p => decide ((∀ v ∈ p.trucks.vehicles, v.stops = []) ∧ 0 < p.orders.length ∧
        ∃ v ∈ p.trucks.vehicles.dropLast, v.isOrderFeasible twoSites (p.orders.get 0) = true) &&
      (construct twoSites 0 true p).toOption.any fun s =>
        decide (carriers (p.orders.get 0) s.fleet = 0)) (by decide +kernel)
  obtain ⟨hdec, h⟩ := Bool.and_eq_true_iff.mp h
  obtain ⟨hstops, hpos, halone⟩ := of_decide_eq_true hdec
  obtain ⟨s, hs, hnone⟩ := exists_ok_and _ h
  refine ⟨p, s, hp, ⟨fun v hv oId => Or.inl (by rw [hstops v hv]; rfl), ?_⟩, hs, fun hl => ?_⟩
  · exact List.pairwise_iff_forall_sublist.mpr fun hsub oId hmem => by
      rw [hstops _ (hsub.subset (by simp))] at hmem
      cases hmem
  · have := (hl.served 0 hpos halone).1
    rw [of_decide_eq_true hnone] at this
    cases this

end InitialSolution

end Initialsol.Tabu

end VrpRouting
