import VrpRouting.Optimizers.Simple
import VrpRouting.Optimizers.Steps

/-! # The steps of the simple optimizer

A `View` keeps the fleet and the best fleet, and a `Step` is one of the things that the operators do
with them. A step is *unserving* when an order goes from a real vehicle to a phony one; the
parameter `unserving` says whether such steps are allowed.

The orders that the operators read are those of the vehicle at hand, which have the nodes of the
orders of the solution (`VehicleOf`). -/

open Sorting

namespace VrpRouting

/-! ### Orders with the same nodes -/

section SameNodes
variable {M : Matrix} {o o' : Order} (h : o.nodes = o'.nodes) {v w : Vehicle}
include h

theorem Order.Typed.of_nodes (ho : o.Typed) : o'.Typed := by
  obtain ⟨J, I, rfl⟩ := Order.exists_eq_of_nodes h
  exact ⟨ho.pickup, ho.delivery⟩

theorem Inserted.of_nodes (hi : Inserted M v o w) : Inserted M v o' w := by
  obtain ⟨J, I, rfl⟩ := Order.exists_eq_of_nodes h
  exact ⟨hi.others, hi.positions, hi.settled⟩

theorem Loaded.of_nodes (hl : Loaded M v o w) : Loaded M v o' w := by
  obtain ⟨J, I, rfl⟩ := Order.exists_eq_of_nodes h
  exact ⟨hl.others, hl.positions, hl.settled⟩

end SameNodes

theorem Unchanged.trans {M : Matrix} {u v w : Vehicle} (h : Unchanged M u v)
    (h' : Unchanged M v w) : Unchanged M u w where
  others := by
    have h1 := h.others
    have h2 := h'.others
    unfold SameButPath at *
    rw [h2, h1]
  nodes := h'.nodes.trans h.nodes
  settled hs := by
    obtain rfl := h.settled hs
    exact h'.settled hs

/-- A route of the problem, on a vehicle that knows the orders of the problem. -/
structure VehicleOf (orders : Orders) (v : Vehicle) : Prop extends RouteOf orders v where
  knows : SameNodes orders v.orders

section VehicleOf
variable {M : Matrix} {orders : Orders} {v w : Vehicle} {i : ℕ}

theorem VehicleOf.unchanged (h : VehicleOf orders v) (hw : Unchanged M v w) :
    VehicleOf orders w where
  toRouteOf := h.toRouteOf.unchanged hw
  knows := by
    have := hw.others
    unfold SameButPath at this
    rw [this]
    exact h.knows

theorem VehicleOf.eraseOrder (h : VehicleOf orders v) (hi : i < orders.length) :
    VehicleOf orders (v.eraseOrder M (orders.get i)) where
  toRouteOf := h.toRouteOf.eraseOrder hi
  knows := by
    rw [eraseOrder_others]
    exact h.knows

theorem VehicleOf.inserted (h : VehicleOf orders v) (ho : orders.WellFormed)
    (hi : i < orders.length) (hw : Inserted M v (orders.get i) w) : VehicleOf orders w where
  toRouteOf := h.toRouteOf.inserted hi ho hw
  knows := by
    rw [hw.others]
    exact h.knows

end VehicleOf

namespace Optimizers.Simple

open Tabu (Placed and_of_perm₂ forall_mem_of_perm₂)

/-- What the operators work on. -/
structure View where
  fleet : List Vehicle
  best : List Vehicle

/-- The duration of a fleet. -/
def fleetDuration (fleet : List Vehicle) : ℤ := (fleet.map Vehicle.duration).sum

/-- `delete_empty_truck` on a fleet. -/
def withoutEmpty (fleet : List Vehicle) : List Vehicle :=
  fleet.filter fun v => !v.ordersInVehicle.isEmpty

/-- An order of `a` on `b` is served no more. -/
def Unserves (a b : Vehicle) : Prop := a.isPhony = false ∧ b.isPhony = true

instance (a b : Vehicle) : Decidable (Unserves a b) := inferInstanceAs (Decidable (_ ∧ _))

inductive Step (M : Matrix) (orders : Orders) (unserving : Prop) : View → View → Prop
  | permute {s : View} {F : List Vehicle} (h : s.fleet.Perm F) :
      Step M orders unserving s { s with fleet := F }
  /-- Vehicles are evaluated again, without a change of their nodes. -/
  | refresh {s : View} {F : List Vehicle} (h : List.Forall₂ (Unchanged M) s.fleet F) :
      Step M orders unserving s { s with fleet := F }
  | dropEmpty {s : View} : Step M orders unserving s { s with fleet := withoutEmpty s.fleet }
  /-- An order goes from `a` to `b`. -/
  | move {s : View} {a b b' : Vehicle} {R F : List Vehicle} {o : ℕ}
      (hF : s.fleet.Perm (a :: b :: R)) (hu : unserving ∨ ¬ Unserves a b)
      (hao : o ∈ a.ordersInVehicle) (hb' : Placed M b (orders.get o) b')
      (hF' : F.Perm (a.eraseOrder M (orders.get o) :: b' :: R)) :
      Step M orders unserving s { s with fleet := F }
  /-- The vehicles `a` and `b` exchange an order. -/
  | exchange {s : View} {a b a' b' : Vehicle} {R F : List Vehicle} {o₁ o₂ : ℕ}
      (hF : s.fleet.Perm (a :: b :: R)) (hu : unserving ∨ a.isPhony = b.isPhony)
      (hao : o₁ ∈ a.ordersInVehicle) (hbo : o₂ ∈ b.ordersInVehicle)
      (ha' : Placed M (a.eraseOrder M (orders.get o₁)) (orders.get o₂) a')
      (hb' : Placed M (b.eraseOrder M (orders.get o₂)) (orders.get o₁) b')
      (hF' : F.Perm (a' :: b' :: R)) :
      Step M orders unserving s { s with fleet := F }
  | save {s : View} : Step M orders unserving s { s with best := s.fleet }
  | reset {s : View} : Step M orders unserving s { s with fleet := s.best }

abbrev Steps (M : Matrix) (orders : Orders) (unserving : Prop) : View → View → Prop :=
  Relation.ReflTransGen (Step M orders unserving)

/-! ### Every vehicle stays a route -/

/-- The vehicles of the fleet and of the best fleet are vehicles of the problem. -/
structure View.Ready (orders : Orders) (s : View) : Prop where
  fleet : ∀ v ∈ s.fleet, VehicleOf orders v
  best : ∀ v ∈ s.best, VehicleOf orders v

theorem Placed.vehicleOf {M : Matrix} {orders : Orders} {v w : Vehicle} {i : ℕ}
    (h : Placed M v (orders.get i) w) (ho : orders.WellFormed) (hi : i < orders.length)
    (hv : VehicleOf orders v) : VehicleOf orders w := by
  rcases h with ⟨h, -⟩ | ⟨h, -⟩
  · exact hv.inserted ho hi h
  · exact hv.unchanged h

theorem Step.ready {M : Matrix} {orders : Orders} {unserving : Prop} (ho : orders.WellFormed)
    {s s' : View} (hs : s.Ready orders) (h : Step M orders unserving s s') : s'.Ready orders := by
  cases h with
  | permute h => exact ⟨fun v hv => hs.fleet v (h.mem_iff.mpr hv), hs.best⟩
  | refresh h =>
    refine ⟨fun w hw => ?_, hs.best⟩
    obtain ⟨v, hv, hvw⟩ := ListEdit.exists_mem_of_forall₂ h hw
    exact (hs.fleet v hv).unchanged hvw
  | dropEmpty => exact ⟨fun v hv => hs.fleet v (List.mem_filter.mp hv).1, hs.best⟩
  | move hF _ hao hb' hF' =>
    have hi := (and_of_perm₂ hF hs.fleet).1.movable _ hao
    exact ⟨forall_mem_of_perm₂ hF hF' hs.fleet fun ha hb =>
      ⟨ha.eraseOrder hi, Placed.vehicleOf hb' ho hi hb⟩, hs.best⟩
  | exchange hF _ hao hbo ha' hb' hF' =>
    have h1 := (and_of_perm₂ hF hs.fleet).1.movable _ hao
    have h2 := (and_of_perm₂ hF hs.fleet).2.movable _ hbo
    exact ⟨forall_mem_of_perm₂ hF hF' hs.fleet fun ha hb =>
      ⟨Placed.vehicleOf ha' ho h2 (ha.eraseOrder h1), Placed.vehicleOf hb' ho h1 (hb.eraseOrder h2)⟩,
      hs.best⟩
  | save => exact ⟨hs.fleet, hs.fleet⟩
  | reset => exact ⟨hs.best, hs.best⟩

end Optimizers.Simple

end VrpRouting
