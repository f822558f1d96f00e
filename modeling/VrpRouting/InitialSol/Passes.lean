import Mathlib.Logic.Relation
import VrpRouting.InitialSol.Filling

/-! # The passes over the trucks

The loop of `do_while_foo` as a relation: each pass takes a truck, fills it and adds it to the fleet
(`Step`), and the loop ends in a reached state without unassigned orders. `Took` says what one pass
does. -/

open Sorting

namespace VrpRouting

namespace Fleet

/-- **What a call of `get_truck` does.** -/
theorem getTruck_step {f f' : Fleet} {o : ℕ} {v : Vehicle} (h : f.getTruck o = .ok (v, f')) :
    ∃ k ∈ f.unused, v = f.vehicle k ∧ o ∈ v.feasibleOrders ∧ f'.vehicles = f.vehicles ∧
    f'.used = f.used.insert k ∧
    f'.unused = if f.unused.size > 1 then f.unused.erase k else f.unused := by
  unfold getTruck at h
  split at h
  · next k hk =>
    obtain ⟨rfl, rfl⟩ := Prod.mk.inj (Except.ok.inj h)
    exact ⟨k, List.mem_of_find?_eq_some hk, rfl, by simpa using List.find?_some hk, rfl, rfl, rfl⟩
  · cases h

end Fleet

namespace Initialsol.Simple.InitialSolution

variable (M : Matrix) (kind : InitialsCode) (p : PickDeliver)

/-- One pass of the loop of `do_while_foo`. -/
def Step (s s' : InitialSolution) : Prop :=
  s.unassigned.isEmpty = false ∧ s.fooStep M kind = .ok s'

/-- The states in front of the passes. -/
def Reached : InitialSolution → Prop := Relation.ReflTransGen (Step M kind) (start p)

section Loop
variable {M : Matrix} {kind : InitialsCode} {s s' : InitialSolution}

theorem step_unique : Relator.RightUnique (Step M kind) := by
  rintro s t t' ⟨-, h⟩ ⟨-, h'⟩
  exact Except.ok.inj (h.symm.trans h')

/-- A loop that ends has reached a state without unassigned orders. -/
theorem reaches_of_doWhileFoo : ∀ (fuel : ℕ) {s : InitialSolution},
    doWhileFoo M kind fuel s = .ok (some s') →
    Relation.ReflTransGen (Step M kind) s s' ∧ s'.unassigned.isEmpty = true
  | 0, s, h => by
    unfold doWhileFoo at h
    split_ifs at h with he
    · obtain rfl := Option.some.inj (Except.ok.inj h)
      exact ⟨.refl, he⟩
    · cases Except.ok.inj h
  | fuel + 1, s, h => by
    unfold doWhileFoo at h
    split_ifs at h with he
    · obtain rfl := Option.some.inj (Except.ok.inj h)
      exact ⟨.refl, he⟩
    · cases hs : s.fooStep M kind with
      | error e => rw [hs] at h; cases h
      | ok t =>
        rw [hs] at h
        obtain ⟨h1, h2⟩ := reaches_of_doWhileFoo fuel h
        exact ⟨.head ⟨Bool.not_eq_true _ ▸ he, hs⟩ h1, h2⟩

/-- The end is reached from every reached state. -/
theorem reaches_end {a : InitialSolution} (hs : Relation.ReflTransGen (Step M kind) a s)
    (hs' : Relation.ReflTransGen (Step M kind) a s') (he : s'.unassigned.isEmpty = true) :
    Relation.ReflTransGen (Step M kind) s s' := by
  rcases hs.total_of_right_unique step_unique hs' with h | h
  · exact h
  · rcases h.cases_head with rfl | ⟨t, ht, -⟩
    · exact .refl
    · rw [ht.1] at he
      cases he

/-- When every pass takes an order away from the unassigned ones, the loop ends. -/
theorem doWhileFoo_ends (kind : InitialsCode) : ∀ (fuel : ℕ) (s : InitialSolution),
    s.unassigned.size ≤ fuel →
    (∀ t, Relation.ReflTransGen (Step M kind) s t → t.unassigned.isEmpty = false →
      ∃ t', t.fooStep M kind = .ok t' ∧ t'.unassigned.size < t.unassigned.size) →
    ∃ s', doWhileFoo M kind fuel s = .ok (some s')
  | 0, s, hsize, _ => by
    have he : s.unassigned.isEmpty = true :=
      List.isEmpty_iff.mpr (List.length_eq_zero_iff.mp (Nat.le_zero.mp hsize))
    exact ⟨s, by simp [doWhileFoo, he]⟩
  | fuel + 1, s, hsize, h => by
    cases he : s.unassigned.isEmpty with
    | true => exact ⟨s, by simp [doWhileFoo, he]⟩
    | false =>
      obtain ⟨t, ht, hlt⟩ := h s .refl he
      obtain ⟨s', hs'⟩ := doWhileFoo_ends kind fuel t (by omega) fun u hu => h u (.head ⟨he, ht⟩ hu)
      refine ⟨s', ?_⟩
      rw [← hs']
      simp only [doWhileFoo, he, ht]
      rfl

end Loop

/-! ### One pass -/

/-- What holds of the problem in every state. -/
structure OfProblem (s : InitialSolution) : Prop where
  orders : s.orders = p.orders
  trucks : s.trucks.vehicles = p.trucks.vehicles
  known : ∀ i ∈ s.unassigned, i < p.orders.length

theorem getTruck_spec {f f' : Fleet} {o : ℕ} {t : Vehicle} (h : f.getTruck o = .ok (t, f')) :
    t ∈ f.vehicles ∧ o ∈ t.feasibleOrders ∧ f'.vehicles = f.vehicles := by
  obtain ⟨k, -, rfl, ho, hv, -⟩ := Fleet.getTruck_step h
  refine ⟨?_, ho, hv⟩
  by_cases hlt : k < f.vehicles.length
  · rw [Fleet.vehicle_eq_getElem hlt]
    exact List.getElem_mem hlt
  · -- there is no order that fits in a vehicle out of range
    unfold Fleet.vehicle at ho
    rw [List.getD_eq_default _ _ (by omega)] at ho
    exact absurd ho (Identifiers.not_mem_empty o)

/-- The pass takes the truck `t`, fills it to `w` and adds it to the fleet. -/
structure Took (s : InitialSolution) (t w : Vehicle) (s' : InitialSolution) : Prop where
  truck : ∃ f, s.trucks.getTruck (s.unassigned.front.getD 0) = .ok (t, f)
  mem : t ∈ p.trucks.vehicles
  front : ∃ o, (t.feasibleOrders.inter s.unassigned).front = some o
  pass : Pass M s kind t ⟨s.assigned, s.unassigned⟩ (w, ⟨s'.assigned, s'.unassigned⟩)
  fleet : s'.fleet = s.fleet ++ [w]
  ofProblem : OfProblem p s'

section Pass
variable {M kind p} {S : Sorter} {pOrders : List OrdersT} {pVehicles : List VehicleT}
  {newStops : List ShortVehicle} (hb : p.Built S M pOrders pVehicles newStops)
  {s s' : InitialSolution}
include hb

theorem Step.took (hs : OfProblem p s) (h : Step M kind s s') : ∃ t w, Took M kind p s t w s' := by
  obtain ⟨hne, h⟩ := h
  obtain ⟨x, hx, hmem⟩ := Identifiers.front_of_not_isEmpty hne
  unfold fooStep at h
  cases hg : s.trucks.getTruck (s.unassigned.front.getD 0) with
  | error e => rw [hg] at h; cases h
  | ok r =>
    obtain ⟨t, f⟩ := r
    rw [hg] at h
    obtain rfl := Except.ok.inj h
    obtain ⟨hmt, hfeas, hv⟩ := getTruck_spec hg
    rw [hx, Option.getD_some] at hfeas
    have ht : Fresh M s.orders t := hs.orders ▸ hb.fresh t (hs.trucks ▸ hmt)
    have hpass := doWhileFeasible_pass (M := M) (s := { s with trucks := f })
      (hs.orders ▸ hb.wellFormed) kind ht ⟨s.assigned, s.unassigned⟩
      fun i hi => hs.orders ▸ hs.known i hi
    refine ⟨t, _, ⟨f, hg⟩, hs.trucks ▸ hmt, ?_, ⟨hpass.filled, hpass.moved, hpass.feasible,
      hpass.single, hpass.loaded, hpass.undone⟩, rfl, hs.orders, hv.trans hs.trucks, fun i hi => ?_⟩
    · obtain ⟨o, ho, -⟩ := Identifiers.front_of_not_isEmpty (Identifiers.isEmpty_eq_false.mpr
        ⟨x, Identifiers.mem_inter.mpr ⟨hfeas, hmem⟩⟩)
      exact ⟨o, ho⟩
    · by_cases hk : s.keeps kind
      · exact hs.known i (((hpass.filled hk).unassigned i).mp hi).1
      · have hsets := hpass.undone hk
        dsimp only at hi
        rw [hsets] at hi
        exact hs.known i hi

/-- The problem stays, and the fleet only grows. -/
theorem reaches_spec (hs : OfProblem p s) (h : Relation.ReflTransGen (Step M kind) s s') :
    OfProblem p s' ∧ s.fleet ⊆ s'.fleet := by
  induction h with
  | refl => exact ⟨hs, List.Subset.refl _⟩
  | tail _ hstep ih =>
    obtain ⟨t, w, h⟩ := hstep.took hb ih.1
    refine ⟨h.ofProblem, List.Subset.trans ih.2 ?_⟩
    rw [h.fleet]
    exact List.subset_append_left _ _

theorem Reached.ofProblem (h : Reached M kind p s) : OfProblem p s :=
  (reaches_spec hb ⟨rfl, rfl, fun _ hi => Identifiers.mem_upTo.mp hi⟩ h).1

end Pass

end Initialsol.Simple.InitialSolution

end VrpRouting
