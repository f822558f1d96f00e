import VrpRouting.Optimizers.SimpleConservation

/-! # Completion of the simple optimizer

`decrease_truck` calls itself again whenever a truck was found empty. Each order that it hands over
goes to a truck with a smaller position, so the sum of the positions of the orders decreases
(`weight`); and when no order was handed over, an empty truck is deleted. So the recursion ends.

The constructor then returns, unless it rotates a fleet without vehicles: the fleet has a vehicle as
long as there is an order. -/

open Sorting

namespace VrpRouting.Optimizers.Simple

open Optimize
open Tabu (Placed)
open Initialsol.Simple (InitialsCode)

/-! ### The sum of the positions -/

/-- The sum of the positions, from `k` on, each as often as the list says. -/
def weight (k : ℕ) : List ℕ → ℕ
  | [] => 0
  | n :: l => k * n + weight (k + 1) l

theorem weight_mono (k : ℕ) (l : List ℕ) : weight k l ≤ weight (k + 1) l := by
  induction l generalizing k with
  | nil => exact le_rfl
  | cons n l ih =>
    have h := Nat.mul_le_mul_right n (Nat.le_add_right k 1)
    exact Nat.add_le_add h (ih (k + 1))

theorem weight_filter (p : ℕ → Bool) (k : ℕ) (l : List ℕ) : weight k (l.filter p) ≤ weight k l := by
  induction l generalizing k with
  | nil => exact le_rfl
  | cons n l ih =>
    rw [List.filter_cons]
    split_ifs
    · exact Nat.add_le_add_left (ih (k + 1)) _
    · exact ((weight_mono k _).trans (ih (k + 1))).trans (Nat.le_add_left _ _)

theorem weight_set (x : ℕ) : ∀ (l : List ℕ) (k i : ℕ) (hi : i < l.length),
    weight k (l.set i x) + (k + i) * l[i] = weight k l + (k + i) * x
  | n :: l, k, 0, _ => by
    simp only [List.set_cons_zero, weight, List.getElem_cons_zero, Nat.add_zero]
    omega
  | n :: l, k, i + 1, hi => by
    have h := weight_set x l (k + 1) i (by simpa using hi)
    rw [show k + 1 + i = k + (i + 1) by omega] at h
    simp only [List.set_cons_succ, weight, List.getElem_cons_succ]
    omega

/-- A unit goes from the position `j` to the position `i` before it. -/
theorem weight_handed {l : List ℕ} {i j x y : ℕ} (hij : i < j) (hj : j < l.length)
    (hx : x ≤ l[i] + 1) (hy : y + 1 = l[j]) : weight 0 ((l.set i x).set j y) < weight 0 l := by
  have h1 := weight_set x l 0 i (by omega)
  have h2 := weight_set y (l.set i x) 0 j (by simpa using hj)
  rw [List.getElem_set_ne (by omega), ← hy] at h2
  have h3 := Nat.mul_le_mul_left i hx
  simp only [Nat.zero_add, Nat.mul_add, Nat.mul_one] at h1 h2 h3
  omega

namespace Optimize

/-- The numbers of orders of the trucks. -/
def sizes (o : Optimize) : List ℕ := o.fleet.map fun v => v.ordersInVehicle.size

/-- No truck is added, and orders go to smaller positions only. -/
structure Lighter (o o' : Optimize) : Prop where
  length : o'.sizes.length = o.sizes.length
  weight : Simple.weight 0 o'.sizes < Simple.weight 0 o.sizes ∨ o'.sizes = o.sizes

section Lighter
variable {S : Sorter} {M : Matrix} {o o₁ o₂ : Optimize} {position x : ℕ}

theorem Lighter.refl (o : Optimize) : Lighter o o := ⟨rfl, Or.inr rfl⟩

theorem Lighter.le (h : Lighter o o₁) : Simple.weight 0 o₁.sizes ≤ Simple.weight 0 o.sizes := by
  rcases h.weight with h | h
  · exact h.le
  · rw [h]

theorem Lighter.trans (h : Lighter o o₁) (h' : Lighter o₁ o₂) : Lighter o o₂ := by
  refine ⟨h'.length.trans h.length, ?_⟩
  rcases h.weight with hw | hw
  · exact Or.inl (h'.le.trans_lt hw)
  · rw [← hw]
    exact h'.weight

theorem size_vehicle {i : ℕ} (hi : i < o.sizes.length) :
    o.sizes[i] = (o.vehicle i).ordersInVehicle.size := by
  have hi' : i < o.fleet.length := by simpa [sizes] using hi
  unfold vehicle
  rw [List.getD_eq_getElem _ _ hi']
  simp [sizes]

theorem Refreshed.lighter (h : Refreshed M o o₁) : Lighter o o₁ := by
  have hl : o₁.sizes.length = o.sizes.length := by simpa [sizes] using h.length
  refine ⟨hl, Or.inr (List.ext_getElem hl fun i h1 h2 => ?_)⟩
  rw [size_vehicle h1, size_vehicle h2, (h.vehicle i).ordersInVehicle]

/-- A truck gets one order at most. -/
theorem Placed.size_le {v w : Vehicle} {order : Order} (h : Placed M v order w) :
    w.ordersInVehicle.size ≤ v.ordersInVehicle.size + 1 := by
  rcases h with ⟨h, -⟩ | ⟨h, -⟩
  · rw [h.others]
    exact Identifiers.size_insert_le _ _
  · rw [h.ordersInVehicle]
    exact Nat.le_succ _

theorem Handed.lighter {rest : List ℕ} (h : Handed M position x o o₁) (hr : o.Ready)
    (hg : Giving o position (x :: rest)) : Lighter o o₁ := by
  obtain ⟨j, w, hj, hw, rfl⟩ := h
  have hlt := hg.lt
  have hp : position < o.sizes.length := by simpa [sizes] using hlt
  have hx := hg.rest x (by simp)
  have hsizes : ((o.setVehicle j w).setVehicle position
      ((o.vehicle position).eraseOrder M (o.orders.get x))).sizes =
      (o.sizes.set j w.ordersInVehicle.size).set position
        ((o.vehicle position).ordersInVehicle.erase x).size := by
    simp only [sizes, setVehicle, List.map_set]
    rw [eraseOrder_others, hr.orders.idx x ((hr.vehicle hlt).movable x hx)]
  refine ⟨by rw [hsizes, List.length_set, List.length_set], Or.inl ?_⟩
  rw [hsizes]
  refine weight_handed hj hp ?_ ?_
  · rw [size_vehicle (by omega)]
    exact Placed.size_le hw
  · rw [size_vehicle hp]
    exact Identifiers.size_erase_of_mem hx

theorem act_decreaseTruck_lighter (hr : o.Ready) (position : ℕ) :
    Lighter o (o.act S M (.decreaseTruck position)) := by
  have h : Lighter o (o.decreaseTruckAt M position) :=
    decreaseTruckAt_induction hr (.refl o) (fun _ _ _ _ h href => h.trans href.lighter)
      fun _ _ _ _ hr _ h hg hand => h.trans (hand.lighter hr hg)
  exact ⟨h.length, h.weight⟩

end Lighter

/-! ### The recursion of `decreaseTruck` -/

section Decrease
variable {S : Sorter} {M : Matrix}

/-- The loop of `decrease_truck`: an order was handed over, or a truck had none at the start. -/
theorem decreaseNext_loop (o : Optimize) (hr : o.Ready) :
    let r := (List.range' 1 (o.fleet.length - 1)).foldl (decreaseNext S M) (false, o)
    r.2.Ready ∧ Lighter o r.2 ∧ (r.2.sizes = o.sizes → r.1 = true → 0 ∈ o.sizes) := by
  refine List.foldlRecOn (motive := fun s : Bool × Optimize =>
    s.2.Ready ∧ Lighter o s.2 ∧ (s.2.sizes = o.sizes → s.1 = true → 0 ∈ o.sizes)) _
    (decreaseNext S M) ⟨hr, .refl o, by simp⟩ fun s hs position hp => ?_
  obtain ⟨hr', hl, hzero⟩ := hs
  have hact := act_decreaseTruck_lighter (S := S) (M := M) hr' position
  refine ⟨hr'.act S M (.decreaseTruck position), hl.trans hact, fun hsame htrue => ?_⟩
  have hlt : position < o.fleet.length := by
    have := List.mem_range'_1.mp hp
    omega
  rcases (Bool.or_eq_true _ _).mp htrue with hempty | htrue
  · have hpos : position < (s.2.act S M (.decreaseTruck position)).sizes.length := by
      rw [(hl.trans hact).length]
      simpa [sizes] using hlt
    have hz : (s.2.act S M (.decreaseTruck position)).sizes[position] = 0 := by
      rw [size_vehicle hpos]
      exact List.length_eq_zero_iff.mpr (List.isEmpty_iff.mp hempty)
    rw [show (decreaseNext S M s position).2 = s.2.act S M (.decreaseTruck position) from rfl]
      at hsame
    rw [← hsame, ← hz]
    exact List.getElem_mem hpos
  · -- nothing was handed over up to here either
    refine hzero (hl.weight.resolve_left fun hw => ?_) htrue
    have := hact.le.trans_lt hw
    rw [show (decreaseNext S M s position).2 = s.2.act S M (.decreaseTruck position) from rfl]
      at hsame
    rw [hsame] at this
    exact lt_irrefl _ this

/-- The number of nested calls that are enough. -/
def decreaseBound (o : Optimize) : ℕ := o.fleet.length + Simple.weight 0 o.sizes

theorem fleet_act_saveIfBest (o : Optimize) : (o.act S M .saveIfBest).fleet = o.fleet :=
  fleet_saveIfBest o

theorem fleet_act_deleteEmptyTruck (o : Optimize) :
    (o.act S M .deleteEmptyTruck).fleet = withoutEmpty o.fleet :=
  fleet_saveIfBest { o with fleet := withoutEmpty o.fleet }

theorem sizes_withoutEmpty (F : List Vehicle) :
    (withoutEmpty F).map (fun v => v.ordersInVehicle.size) =
      (F.map fun v => v.ordersInVehicle.size).filter (· ≠ 0) := by
  unfold withoutEmpty
  rw [List.filter_map]
  congr 1
  refine List.filter_congr fun v _ => ?_
  rw [Function.comp, Identifiers.isEmpty, Identifiers.size]
  cases v.ordersInVehicle.ids <;> rfl

/-- **The recursion ends.** -/
theorem decreaseTruck_returns {o : Optimize} (hr : o.Ready) {fuel : ℕ}
    (hfuel : o.decreaseBound < fuel) : ∃ o', o.decreaseTruck S M fuel = some o' := by
  induction fuel generalizing o with
  | zero => omega
  | succ fuel ih =>
    obtain ⟨hr', hl, hzero⟩ := decreaseNext_loop (S := S) (M := M) o hr
    unfold decreaseTruck
    extract_lets r o₁
    split_ifs with htrue
    · have hfleet : o₁.fleet = withoutEmpty r.2.fleet := by
        simp only [o₁]
        rw [fleet_act_saveIfBest, fleet_act_deleteEmptyTruck]
      have hsizes : o₁.sizes = r.2.sizes.filter (· ≠ 0) := by
        unfold sizes
        rw [hfleet, sizes_withoutEmpty]
      have hlen : r.2.fleet.length = o.fleet.length := by simpa [sizes] using hl.length
      have hr₁ : o₁.Ready := (hr'.act S M .deleteEmptyTruck).act S M .saveIfBest
      have hbound : o₁.decreaseBound < o.decreaseBound := by
        unfold decreaseBound
        have hw : Simple.weight 0 o₁.sizes ≤ Simple.weight 0 r.2.sizes := by
          rw [hsizes]
          exact weight_filter _ 0 _
        have hle : o₁.fleet.length ≤ r.2.fleet.length := by
          rw [hfleet]
          exact List.length_filter_le ..
        rcases hl.weight with hlt | hsame
        · change Simple.weight 0 r.2.sizes < _ at hlt
          omega
        · have h0 : 0 ∈ r.2.sizes := hsame ▸ hzero hsame htrue
          have hlt : o₁.sizes.length < r.2.sizes.length := by
            rw [hsizes]
            exact List.length_filter_lt_length_iff_exists.mpr ⟨0, h0, by simp⟩
          have hlt' : o₁.fleet.length < r.2.fleet.length := by simpa [sizes] using hlt
          have hle' := hl.le
          change Simple.weight 0 r.2.sizes ≤ _ at hle'
          omega
      obtain ⟨o₂, h₂⟩ := ih hr₁ (by omega)
      exact ⟨_, by rw [h₂]; rfl⟩
    · exact ⟨_, rfl⟩

end Decrease

end Optimize

/-! ### The constructor -/

section Construct
variable {S : Sorter} {M : Matrix} {sol : Solution} {kind : InitialsCode}

/-- The loop of `inter_swap(times)` returns when no fleet of a run is without vehicles. -/
theorem interSwapLoop_returns {o₀ : Optimize} (hne : ∀ o, Follows S M o₀ o → o.fleet ≠ [])
    (times : ℕ) {o : Optimize} (h : Follows S M o₀ o) :
    ∃ o', o.interSwapLoop S M times = .ok o' := by
  induction times generalizing o with
  | zero => exact ⟨o, rfl⟩
  | succ times ih =>
    have h' := interSwap_follows h
    unfold interSwapLoop
    extract_lets o'
    rw [if_neg (by rw [List.isEmpty_iff]; exact hne o' h')]
    exact ih (h'.act .rotate)

/-- A fleet that keeps an order has a vehicle. -/
theorem Keeps.fleet_ne_nil {orders : Orders} {F₀ F : List Vehicle} (h : Keeps orders F₀ F)
    (h₀ : Keeps orders F₀ F₀) (horder : ∃ v ∈ F₀, v.ordersInVehicle.isEmpty = false) : F ≠ [] := by
  rintro rfl
  obtain ⟨v, hv, hne⟩ := horder
  obtain ⟨i, hi⟩ := Identifiers.isEmpty_eq_false.mp hne
  obtain ⟨hlt, hc⟩ := ((h₀.tidy v hv).movable i).mp hi
  have hzero : 0 = carriers (orders.get i) F₀ := h.same i hlt
  have hpos : 0 < carriers (orders.get i) F₀ := by
    unfold carriers
    exact List.countP_pos_iff.mpr ⟨v, hv, decide_eq_true hc⟩
  omega

/-- The constructor ends; it returns when there is an order. -/
theorem Sound.construct_returns (hs : Sound sol) (hk : Keeps sol.orders sol.fleet sol.fleet)
    (S : Sorter) (M : Matrix) (kind : InitialsCode) :
    ∃ fuel₀, ∀ fuel ≥ fuel₀, ∀ times, ∃ r, construct S M fuel sol times kind = some r ∧
      ((∃ v ∈ sol.fleet, v.ordersInVehicle.isEmpty = false) → ∃ o, r = .ok o) := by
  have h₀ : Follows S M (init sol kind) ((init sol kind).act S M .sortBySize) :=
    (Follows.refl _).act .sortBySize
  have hr : ((init sol kind).act S M .sortBySize).Ready := (hs.ready kind).act S M .sortBySize
  refine ⟨((init sol kind).act S M .sortBySize).decreaseBound + 1, fun fuel hfuel times => ?_⟩
  obtain ⟨o₁, h₁⟩ := decreaseTruck_returns (S := S) (M := M) hr
    (show _ < fuel by omega)
  unfold construct interSwapTimes
  rw [h₁]
  refine ⟨_, rfl, fun horder => ?_⟩
  have hne : ∀ o, Follows S M (init sol kind) o → o.fleet ≠ [] := by
    rintro o ⟨acts, -, rfl⟩
    exact (hs.run_keeps hk S M kind acts).fleet.fleet_ne_nil hk horder
  obtain ⟨o₂, h₂⟩ := interSwapLoop_returns hne times
    ((decreaseTruck_follows fuel h₀ h₁).act .sortBySize)
  dsimp only
  rw [h₂]
  exact ⟨_, rfl⟩

end Construct

/-- **The simple optimizer conserves the orders.** In every run, and at the end of the constructor,
the fleet and the best fleet hold the orders of the start, each on one vehicle, with one pickup
before one delivery. The constructor ends, and returns when there is an order. -/
theorem simple_conserves_orders (S : Sorter) (M : Matrix) (sol : Solution) (hs : Sound sol)
    (hk : Keeps sol.orders sol.fleet sol.fleet) (kind : InitialsCode) :
    (∀ acts, let o := run S M (init sol kind) acts
      Keeps sol.orders sol.fleet o.fleet ∧ Keeps sol.orders sol.fleet o.bestSolution.fleet) ∧
    (∃ fuel₀, ∀ fuel ≥ fuel₀, ∀ times, ∃ r, construct S M fuel sol times kind = some r ∧
      ((∃ v ∈ sol.fleet, v.ordersInVehicle.isEmpty = false) → ∃ o, r = .ok o)) ∧
    ∀ fuel times o, construct S M fuel sol times kind = some (.ok o) →
      Keeps sol.orders sol.fleet o.fleet ∧ Keeps sol.orders sol.fleet o.bestSolution.fleet := by
  have hrun := hs.run_keeps hk S M kind
  refine ⟨fun acts => ⟨(hrun acts).fleet, (hrun acts).best⟩, hs.construct_returns hk S M kind,
    fun fuel times o ho => ?_⟩
  have h := hrun o.acts
  rw [← construct_run ho] at h
  exact ⟨h.fleet, h.best⟩

theorem smallSolution_keeps :
    Keeps Tabu.smallSolution.orders Tabu.smallSolution.fleet Tabu.smallSolution.fleet := by
  have hmovable : ∀ v ∈ Tabu.smallSolution.fleet, ∀ i < Tabu.smallSolution.orders.length,
      i ∈ v.ordersInVehicle ↔ Carries (Tabu.smallSolution.orders.get i) v := by decide +kernel
  refine ⟨fun v hv => ⟨Tabu.smallSolution_wellPlaced.whole v hv, fun i => ?_⟩, fun _ _ => rfl,
    Tabu.smallSolution_wellPlaced.once⟩
  constructor
  · intro hi
    have hlt := (Tabu.smallSolution_valid.fleet v hv).movable i hi
    exact ⟨hlt, (hmovable v hv i hlt).mp hi⟩
  · rintro ⟨hlt, hc⟩
    exact (hmovable v hv i hlt).mpr hc

/-- A run of two cycles with the insertions for one depot. -/
theorem simple_conserves_orders_small : ∃ o,
    construct .insertion twoSites 3 Tabu.smallSolution 2 .oneDepot = some (.ok o) ∧
    Keeps Tabu.smallSolution.orders Tabu.smallSolution.fleet o.fleet ∧
    Keeps Tabu.smallSolution.orders Tabu.smallSolution.fleet o.bestSolution.fleet := by
  obtain ⟨o, ho, -⟩ := exists_returned
    (x := construct .insertion twoSites 3 Tabu.smallSolution 2 .oneDepot) (fun _ => true)
    (by decide +kernel)
  exact ⟨o, ho, (simple_conserves_orders .insertion twoSites Tabu.smallSolution smallSolution_sound
    smallSolution_keeps .oneDepot).2.2 3 2 o ho⟩

end VrpRouting.Optimizers.Simple
