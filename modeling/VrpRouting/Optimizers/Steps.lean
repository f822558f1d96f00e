import Mathlib.Logic.Relation
import VrpRouting.Optimizers.Tabu
import VrpRouting.Problem.Built

/-! # The steps of the tabu search

An abstract model of `Optimize`: a `View` keeps the fleet, the unserved orders and the best fleet,
and a `Step` is one of the things that the search can do with them, whatever guided it there. The
order of the vehicles does not matter: a step names the vehicles it changes up to a permutation.

`Sim` connects it with the code: an operation of `Optimize` is a sequence of steps. For the
neighbourhood searches the loop invariant is that the candidate found so far is one that was tried
(`InsertionTried`, `SwapTried`). -/

open Sorting

namespace Relation

/-- What holds at the start and is kept by every step holds after any number of steps. -/
theorem ReflTransGen.invariant {α : Type*} {r : α → α → Prop} {P : α → Prop}
    (hstep : ∀ a b, P a → r a b → P b) {a b : α} (h : ReflTransGen r a b) (ha : P a) : P b := by
  induction h with
  | refl => exact ha
  | tail _ hst ih => exact hstep _ _ ih hst

end Relation

namespace VrpRouting.Optimizers.Tabu

/-- What the search keeps, besides its memory and its parameters. -/
structure View where
  fleet : List Vehicle
  unassigned : Identifiers ℕ
  best : List Vehicle
  log : List (List Vehicle)

/-- The objective of a fleet. -/
def fleetObjective (fleet : List Vehicle) : ℤ := (fleet.map Vehicle.totalTravelTime).sum

/-- `delete_empty_truck` on a fleet. -/
def withoutEmpty (fleet : List Vehicle) : List Vehicle :=
  fleet.filter fun v => !(v.ordersInVehicle.isEmpty && v.isPhony)

/-- Some phony vehicle holds the order. -/
def OnPhony (F : List Vehicle) (i : ℕ) : Prop := ∃ v ∈ F, v.isPhony = true ∧ i ∈ v.ordersInVehicle

instance (F : List Vehicle) (i : ℕ) : Decidable (OnPhony F i) := by
  unfold OnPhony
  infer_instance

theorem OnPhony.perm {F F' : List Vehicle} {i : ℕ} (h : F.Perm F') (hi : OnPhony F i) :
    OnPhony F' i := by
  obtain ⟨v, hv, hp⟩ := hi
  exact ⟨v, h.mem_iff.mp hv, hp⟩

theorem OnPhony.mono {F F' : List Vehicle} {i : ℕ}
    (h : ∀ w ∈ F', w.isPhony = true → i ∈ w.ordersInVehicle → OnPhony F i) (hi : OnPhony F' i) :
    OnPhony F i := by
  obtain ⟨w, hw, hp, hi⟩ := hi
  exact h w hw hp hi

/-- The result of an insertion that the search accepts: the vehicle has the order, now or before. -/
def Placed (M : Matrix) (b : Vehicle) (o : Order) (b' : Vehicle) : Prop :=
  (Inserted M b o b' ∧ b'.isFeasible = true) ∨ (Unchanged M b b' ∧ b.hasOrder o = true)

inductive Step (M : Matrix) (orders : Orders) : View → View → Prop
  | permute {s : View} {F : List Vehicle} (h : s.fleet.Perm F) :
      Step M orders s { s with fleet := F }
  | dropEmpty {s : View} : Step M orders s { s with fleet := withoutEmpty s.fleet }
  /-- An order goes from the phony vehicle `a` to the real vehicle `b`. -/
  | serve {s : View} {a b b' : Vehicle} {R F : List Vehicle} {o : ℕ}
      (hF : s.fleet.Perm (a :: b :: R)) (ha : a.isPhony = true) (hb : b.isPhony = false)
      (hao : o ∈ a.ordersInVehicle) (hbo : o ∉ b.ordersInVehicle)
      (hb' : Inserted M b (orders.get o) b') (hf : b'.isFeasible = true)
      (hF' : F.Perm (a.eraseOrder M (orders.get o) :: b' :: R)) :
      Step M orders s ⟨F, s.unassigned.erase o, F, F :: s.log⟩
  /-- An order goes from the real vehicle `a` to the real vehicle `b`. -/
  | relocate {s : View} {a b b' : Vehicle} {R F : List Vehicle} {o : ℕ}
      (hF : s.fleet.Perm (a :: b :: R)) (ha : a.isPhony = false) (hb : b.isPhony = false)
      (hao : o ∈ a.ordersInVehicle) (hb' : Placed M b (orders.get o) b')
      (hf : (a.eraseOrder M (orders.get o)).isFeasible = true)
      (hF' : F.Perm (a.eraseOrder M (orders.get o) :: b' :: R)) :
      Step M orders s { s with fleet := F }
  /-- The real vehicles `a` and `b` exchange an order. -/
  | exchange {s : View} {a b a' b' : Vehicle} {R F : List Vehicle} {o₁ o₂ : ℕ}
      (hF : s.fleet.Perm (a :: b :: R)) (ha : a.isPhony = false) (hb : b.isPhony = false)
      (hao : o₁ ∈ a.ordersInVehicle) (hbo : o₂ ∈ b.ordersInVehicle)
      (ha' : Placed M (a.eraseOrder M (orders.get o₁)) (orders.get o₂) a')
      (hb' : Placed M (b.eraseOrder M (orders.get o₂)) (orders.get o₁) b')
      (hfa : a'.isFeasible = true) (hfb : b'.isFeasible = true) (hF' : F.Perm (a' :: b' :: R)) :
      Step M orders s { s with fleet := F }
  | save {s : View} (h : fleetObjective s.fleet < fleetObjective s.best) :
      Step M orders s { s with best := s.fleet, log := s.fleet :: s.log }
  | reset {s : View} : Step M orders s { s with fleet := s.best }

/-- The step `serve` alone, the only kind of step in `move_2_real`. -/
inductive Serving (M : Matrix) (orders : Orders) (s : View) : View → Prop
  | intro {a b b' : Vehicle} {R F : List Vehicle} {o : ℕ}
      (hF : s.fleet.Perm (a :: b :: R)) (ha : a.isPhony = true) (hb : b.isPhony = false)
      (hao : o ∈ a.ordersInVehicle) (hbo : o ∉ b.ordersInVehicle)
      (hb' : Inserted M b (orders.get o) b') (hf : b'.isFeasible = true)
      (hF' : F.Perm (a.eraseOrder M (orders.get o) :: b' :: R)) :
      Serving M orders s ⟨F, s.unassigned.erase o, F, F :: s.log⟩

theorem Serving.step {M : Matrix} {orders : Orders} {s s' : View} (h : Serving M orders s s') :
    Step M orders s s' := by
  obtain ⟨hF, ha, hb, hao, hbo, hb', hf, hF'⟩ := h
  exact .serve hF ha hb hao hbo hb' hf hF'

abbrev Steps (M : Matrix) (orders : Orders) : View → View → Prop :=
  Relation.ReflTransGen (Step M orders)

/-! ### Vehicles of a step -/

section Vehicles
variable {M : Matrix} {orders : Orders} (ho : orders.WellFormed) {b b' : Vehicle} {i : ℕ}

theorem Placed.routeOf (ho : orders.WellFormed) (hi : i < orders.length) (hb : RouteOf orders b)
    (h : Placed M b (orders.get i) b') : RouteOf orders b' := by
  rcases h with ⟨h, -⟩ | ⟨h, -⟩
  · exact hb.inserted hi ho h
  · exact hb.unchanged h

theorem Placed.isPhony {o : Order} (h : Placed M b o b') : b'.isPhony = b.isPhony := by
  rcases h with ⟨h, -⟩ | ⟨h, -⟩
  · rw [h.others]
    rfl
  · exact h.isPhony

/-- A placement takes no order away. -/
theorem Placed.mem {o : Order} (h : Placed M b o b') (hi : i ∈ b.ordersInVehicle) :
    i ∈ b'.ordersInVehicle := by
  rcases h with ⟨h, -⟩ | ⟨h, -⟩
  · rw [h.others]
    exact Identifiers.mem_insert.mpr (Or.inr hi)
  · rwa [h.ordersInVehicle]

theorem Placed.mem_iff (h : Placed M b (orders.get i) b') (ho : orders.WellFormed)
    (hi : i < orders.length) {j : ℕ} : j ∈ b'.ordersInVehicle ↔ j = i ∨ j ∈ b.ordersInVehicle := by
  rcases h with ⟨h, -⟩ | ⟨h, hmem⟩
  · rw [h.others, Identifiers.mem_insert, ho.idx i hi]
  · rw [h.ordersInVehicle]
    rw [hasOrder_get_iff ho hi] at hmem
    refine ⟨Or.inr, ?_⟩
    rintro (rfl | h)
    · exact hmem
    · exact h

/-- An accepted `hillClimb` is a placement. -/
theorem placed_of_hillClimb (ho : orders.WellFormed) (hi : i < orders.length)
    (hb : RouteOf orders b)
    (h : (b.hillClimb M (orders.get i)).2.hasOrder (orders.get i) = true) :
    Placed M b (orders.get i) (b.hillClimb M (orders.get i)).2 := by
  rcases hillClimb_spec (M := M) hb.route (ho.typed i hi) with ⟨-, h1, h2⟩ | ⟨-, h1⟩
  · exact Or.inl ⟨h1, h2⟩
  · refine Or.inr ⟨h1, ?_⟩
    have := h1.others
    unfold SameButPath at this
    rw [this] at h
    exact h

end Vehicles

/-! ### Every vehicle stays a route -/

/-- The vehicles of the fleet and of the best fleet are routes of the problem. -/
structure View.Ready (orders : Orders) (s : View) : Prop where
  fleet : ∀ v ∈ s.fleet, RouteOf orders v
  best : ∀ v ∈ s.best, RouteOf orders v

/-- What holds of all vehicles of a fleet holds of two of them. -/
theorem and_of_perm₂ {P : Vehicle → Prop} {F R : List Vehicle} {a b : Vehicle}
    (hF : F.Perm (a :: b :: R)) (h : ∀ v ∈ F, P v) : P a ∧ P b :=
  ⟨h a (hF.mem_iff.mpr (by simp)), h b (hF.mem_iff.mpr (by simp))⟩

theorem forall_mem_of_perm₂ {P : Vehicle → Prop} {F F' R : List Vehicle} {a b a' b' : Vehicle}
    (hF : F.Perm (a :: b :: R)) (hF' : F'.Perm (a' :: b' :: R)) (h : ∀ v ∈ F, P v)
    (hab : P a → P b → P a' ∧ P b') : ∀ v ∈ F', P v := by
  obtain ⟨ha, hb⟩ := and_of_perm₂ hF h
  obtain ⟨ha', hb'⟩ := hab ha hb
  intro v hv
  rcases List.mem_cons.mp (hF'.mem_iff.mp hv) with rfl | hv
  · exact ha'
  · rcases List.mem_cons.mp hv with rfl | hv
    · exact hb'
    · exact h v (hF.mem_iff.mpr (by simp [hv]))

/-- A property of vehicles that losing an order and getting one keep. -/
structure EditClosed (M : Matrix) (orders : Orders) (P : Vehicle → Prop) : Prop where
  movable : ∀ {v : Vehicle} {i : ℕ}, P v → i ∈ v.ordersInVehicle → i < orders.length
  erase : ∀ {v : Vehicle} {i : ℕ}, P v → i < orders.length → P (v.eraseOrder M (orders.get i))
  placed : ∀ {v w : Vehicle} {i : ℕ}, P v → i < orders.length → Placed M v (orders.get i) w → P w

/-- **What edits keep, steps keep**, for all vehicles of the fleet and of the best fleet. -/
theorem Step.forall_vehicles {M : Matrix} {orders : Orders} {P : Vehicle → Prop}
    (hP : EditClosed M orders P) {s s' : View} (hs : (∀ v ∈ s.fleet, P v) ∧ ∀ v ∈ s.best, P v)
    (h : Step M orders s s') : (∀ v ∈ s'.fleet, P v) ∧ ∀ v ∈ s'.best, P v := by
  obtain ⟨hfleet, hbest⟩ := hs
  cases h with
  | permute h => exact ⟨fun v hv => hfleet v (h.mem_iff.mpr hv), hbest⟩
  | dropEmpty => exact ⟨fun v hv => hfleet v (List.mem_filter.mp hv).1, hbest⟩
  | serve hF _ _ hao _ hb' hf hF' =>
    have := forall_mem_of_perm₂ hF hF' hfleet fun ha hb =>
      have hi := hP.movable ha hao
      ⟨hP.erase ha hi, hP.placed hb hi (Or.inl ⟨hb', hf⟩)⟩
    exact ⟨this, this⟩
  | relocate hF _ _ hao hb' _ hF' =>
    exact ⟨forall_mem_of_perm₂ hF hF' hfleet fun ha hb =>
      have hi := hP.movable ha hao
      ⟨hP.erase ha hi, hP.placed hb hi hb'⟩, hbest⟩
  | exchange hF _ _ hao hbo ha' hb' _ _ hF' =>
    exact ⟨forall_mem_of_perm₂ hF hF' hfleet fun ha hb =>
      have h1 := hP.movable ha hao
      have h2 := hP.movable hb hbo
      ⟨hP.placed (hP.erase ha h1) h2 ha', hP.placed (hP.erase hb h2) h1 hb'⟩, hbest⟩
  | save _ => exact ⟨hfleet, hfleet⟩
  | reset => exact ⟨hbest, hbest⟩

theorem routeOf_editClosed {M : Matrix} {orders : Orders} (ho : orders.WellFormed) :
    EditClosed M orders (RouteOf orders) where
  movable h hi := h.movable _ hi
  erase h hi := h.eraseOrder hi
  placed h hi hw := hw.routeOf ho hi h

theorem Step.ready {M : Matrix} {orders : Orders} (ho : orders.WellFormed) {s s' : View}
    (hs : s.Ready orders) (h : Step M orders s s') : s'.Ready orders :=
  have hs' := h.forall_vehicles (routeOf_editClosed ho) ⟨hs.fleet, hs.best⟩
  ⟨hs'.1, hs'.2⟩

end VrpRouting.Optimizers.Tabu
