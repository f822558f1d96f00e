import Mathlib.Data.List.GetD
import VrpRouting.Optimizers.Scans
import VrpRouting.Optimizers.Steps

/-! # The search makes steps

Every operation of `Optimize` is a sequence of steps (`Sim`), from any state whose vehicles are
routes of the problem. -/

open Sorting

namespace VrpRouting.Optimizers.Tabu

namespace Optimize

def view (o : Optimize) : View := ⟨o.fleet, o.unassignedOrders, o.bestSolution.fleet, o.bestLog⟩

/-- The orders are those of a problem, and every vehicle is a route. -/
structure Ready (o : Optimize) : Prop where
  orders : o.orders.WellFormed
  view : o.view.Ready o.orders

theorem Ready.vehicle {o : Optimize} (h : o.Ready) {i : ℕ} (hi : i < o.fleet.length) :
    RouteOf o.orders (o.vehicle i) := by
  unfold Optimize.vehicle
  rw [List.getD_eq_getElem _ _ hi]
  exact h.view.fleet _ (List.getElem_mem hi)

end Optimize

open Optimize

/-- `o'` is reached from `o` by steps. -/
structure Sim (M : Matrix) (o o' : Optimize) : Prop where
  orders : o'.orders = o.orders
  steps : Steps M o.orders o.view o'.view

namespace Sim

variable {M : Matrix} {o o₁ o₂ : Optimize}

theorem of_view (ho : o₁.orders = o.orders) (h : o₁.view = o.view) : Sim M o o₁ :=
  ⟨ho, by rw [h]⟩

theorem refl (M : Matrix) (o : Optimize) : Sim M o o := .of_view rfl rfl

theorem of_step (ho : o₁.orders = o.orders) (h : Step M o.orders o.view o₁.view) : Sim M o o₁ :=
  ⟨ho, .single h⟩

theorem ready (h : Sim M o o₁) (hr : o.Ready) : o₁.Ready where
  orders := by rw [h.orders]; exact hr.orders
  view := by
    rw [h.orders]
    exact h.steps.invariant (fun _ _ hs hst => hst.ready hr.orders hs) hr.view

theorem trans (h : Sim M o o₁) (h' : Sim M o₁ o₂) : Sim M o o₂ :=
  ⟨h'.orders.trans h.orders, h.steps.trans (by have := h'.steps; rwa [h.orders] at this)⟩

/-- A second operation, from a state that is ready because of the first one. -/
theorem andThen (h : Sim M o o₁) (hr : o.Ready) (h' : o₁.Ready → Sim M o₁ o₂) : Sim M o o₂ :=
  h.trans (h' (h.ready hr))

end Sim

/-- `o'` is reached from `o` by serving orders. -/
structure Served (M : Matrix) (o o' : Optimize) : Prop where
  orders : o'.orders = o.orders
  optimize : o'.optimize = o.optimize
  steps : Relation.ReflTransGen (Serving M o.orders) o.view o'.view

namespace Served

variable {M : Matrix} {o o₁ o₂ : Optimize}

theorem refl (M : Matrix) (o : Optimize) : Served M o o := ⟨rfl, rfl, .refl⟩

theorem trans (h : Served M o o₁) (h' : Served M o₁ o₂) : Served M o o₂ :=
  ⟨h'.orders.trans h.orders, h'.optimize.trans h.optimize,
    h.steps.trans (by have := h'.steps; rwa [h.orders] at this)⟩

theorem sim (h : Served M o o₁) : Sim M o o₁ :=
  ⟨h.orders, h.steps.lift id fun _ _ => Serving.step⟩

end Served

namespace Optimize

variable (S : Sorter) (M : Matrix) (o : Optimize)

/-! ### Vehicles by position -/

theorem vehicle_setVehicle_self {i : ℕ} (hi : i < o.fleet.length) (v : Vehicle) :
    (o.setVehicle i v).vehicle i = v := by
  simp [vehicle, setVehicle, List.getD_eq_getElem?_getD, hi]

theorem vehicle_setVehicle_ne {i j : ℕ} (hij : i ≠ j) (v : Vehicle) :
    (o.setVehicle i v).vehicle j = o.vehicle j := by
  simp [vehicle, setVehicle, List.getD_eq_getElem?_getD, List.getElem?_set_ne hij]

/-- The two vehicles of a move, and the other ones. -/
theorem exists_perm_vehicles {i j : ℕ} (hi : i < o.fleet.length) (hj : j < o.fleet.length)
    (hij : i ≠ j) (a b : Vehicle) :
    ∃ R, o.fleet.Perm (o.vehicle i :: o.vehicle j :: R) ∧
      ((o.fleet.set i a).set j b).Perm (a :: b :: R) :=
  ListEdit.exists_perm_set_set hi hj hij a b default

/-! ### Bookkeeping operations -/

theorem sortBySize_perm (asc : Bool) : (o.sortBySize S asc).fleet.Perm o.fleet := by
  have h := List.filter_append_perm Vehicle.isPhony (S.sort (sizeLt asc) o.fleet)
  exact h.trans (S.perm _ _)

theorem sortBySize_sim (asc : Bool) : Sim M o (o.sortBySize S asc) :=
  .of_step rfl (.permute (o.sortBySize_perm S asc).symm)

theorem deleteEmptyTruck_sim : Sim M o o.deleteEmptyTruck := .of_step rfl .dropEmpty

theorem saveIfBest_sim : Sim M o o.saveIfBest := by
  unfold saveIfBest
  split_ifs with h
  · exact .of_step rfl (.save h)
  · exact .refl M o

/-! ### `move2Real` -/

/-- The vehicle at `i` was tried as destination of the order `oId` of the phony vehicle. -/
structure RealTried (phony oId i : ℕ) : Prop where
  lt : i < o.fleet.length
  ne : phony ≠ i
  real : (o.vehicle i).isPhony = false
  free : (o.vehicle i).hasOrder (o.orders.get oId) = false
  placed : ((o.vehicle i).hillClimb M (o.orders.get oId)).2.hasOrder (o.orders.get oId) = true

theorem bestReal_tried {phony oId : ℕ} (h : (o.bestReal M phony oId).bestScore ≠ 0) :
    o.RealTried M phony oId (o.bestReal M phony oId).bestVehicleRef := by
  obtain ⟨i, hi, heq⟩ := bestReal_found h
  obtain ⟨hlt, hfits⟩ := mem_realCandidates.mp hi
  rw [heq]
  exact ⟨hlt, hfits.ne, hfits.real, hfits.free, hfits.placed⟩

/-- What stays of the phony vehicle while its orders are moved. -/
structure PhonyAt (phony : ℕ) (rest : List ℕ) : Prop where
  lt : phony < o.fleet.length
  isPhony : (o.vehicle phony).isPhony = true
  rest : ∀ x ∈ rest, x ∈ (o.vehicle phony).ordersInVehicle

/-- The first order was taken off. -/
theorem PhonyAt.next {o o' : Optimize} {phony oId : ℕ} {rest : List ℕ} {order : Order}
    (hp : o.PhonyAt phony (oId :: rest)) (hlen : o'.fleet.length = o.fleet.length)
    (hv : o'.vehicle phony = (o.vehicle phony).eraseOrder M order) (hidx : order.idx = oId)
    (hn : oId ∉ rest) : o'.PhonyAt phony rest where
  lt := hlen ▸ hp.lt
  isPhony := by
    rw [hv, isPhony_eraseOrder]
    exact hp.isPhony
  rest x hx := by
    rw [hv, eraseOrder_others]
    refine Identifiers.mem_erase.mpr ⟨hp.rest x (List.mem_cons_of_mem oId hx), ?_⟩
    rw [hidx]
    rintro rfl
    exact hn hx

theorem moveOrder_served {phony oId : ℕ} {rest : List ℕ} (moved : Bool) (hr : o.Ready)
    (hp : o.PhonyAt phony (oId :: rest)) (hn : oId ∉ rest) :
    Served M o (moveOrder M phony (moved, o) oId).2 ∧
      (moveOrder M phony (moved, o) oId).2.fleet.length = o.fleet.length ∧
      (moveOrder M phony (moved, o) oId).2.PhonyAt phony rest := by
  have hrest : ∀ x ∈ rest, x ∈ (o.vehicle phony).ordersInVehicle := fun x hx => hp.rest x (by simp [hx])
  unfold moveOrder
  extract_lets s order b o1 o2
  split_ifs with hscore
  · have ht := o.bestReal_tried M hscore
    have hid := (hr.vehicle hp.lt).movable oId (hp.rest oId (by simp))
    have hidx : order.idx = oId := hr.orders.idx oId hid
    have hreal : (o1.vehicle b.bestVehicleRef) = o.vehicle b.bestVehicleRef :=
      o.vehicle_setVehicle_ne ht.ne _
    have hb := hr.vehicle ht.lt
    have hins : Inserted M (o.vehicle b.bestVehicleRef) order
        ((o.vehicle b.bestVehicleRef).hillClimb M order).2 ∧
        ((o.vehicle b.bestVehicleRef).hillClimb M order).2.isFeasible = true := by
      rcases placed_of_hillClimb hr.orders hid hb ht.placed with h | ⟨-, h⟩
      · exact h
      · have := ht.free
        rw [h] at this
        cases this
    obtain ⟨R, hF, hF'⟩ := o.exists_perm_vehicles hp.lt ht.lt ht.ne
      ((o.vehicle phony).eraseOrder M order) ((o.vehicle b.bestVehicleRef).hillClimb M order).2
    have hfl : o2.fleet = (o.fleet.set phony ((o.vehicle phony).eraseOrder M order)).set
        b.bestVehicleRef ((o.vehicle b.bestVehicleRef).hillClimb M order).2 := by
      rw [← hreal]
      rfl
    have hlen : o2.saveBest.fleet.length = o.fleet.length := by
      simp only [saveBest, hfl, List.length_set]
    refine ⟨⟨rfl, rfl, .single ?_⟩, ?_, ?_⟩
    · have hst := Serving.intro (M := M) (s := o.view) hF hp.isPhony ht.real (hp.rest oId (by simp))
        (by rw [← hasOrder_get_iff hr.orders hid, ht.free]; simp) hins.1 hins.2 hF'
      simp only [view, saveBest, hidx, hfl] at hst ⊢
      exact hst
    · exact hlen
    · have hv : o2.vehicle phony = (o.vehicle phony).eraseOrder M order := by
        rw [show o2 = o1.setVehicle _ _ from rfl, vehicle_setVehicle_ne _ ht.ne.symm]
        exact o.vehicle_setVehicle_self hp.lt _
      exact hp.next M hlen hv hidx hn
  · exact ⟨.refl M o, rfl, hp.lt, hp.isPhony, hrest⟩

theorem moveOrders_served {phony : ℕ} : ∀ (rest : List ℕ) (s : Bool × Optimize), s.2.Ready →
    s.2.PhonyAt phony rest → rest.Nodup →
    Served M s.2 (rest.foldl (moveOrder M phony) s).2 ∧
      (rest.foldl (moveOrder M phony) s).2.fleet.length = s.2.fleet.length
  | [], s, _, _, _ => ⟨.refl M s.2, rfl⟩
  | oId :: rest, s, hr, hp, hn => by
    obtain ⟨hn1, hn2⟩ := List.nodup_cons.mp hn
    obtain ⟨h1, h2, h3⟩ := moveOrder_served M s.2 s.1 hr hp hn1
    obtain ⟨h4, h5⟩ := moveOrders_served rest _ (h1.sim.ready hr) h3 hn2
    exact ⟨h1.trans h4, h5.trans h2⟩

theorem emptyPhony_served {phony : ℕ} (s : Bool × Optimize) (hr : s.2.Ready)
    (hp : phony < s.2.fleet.length) :
    Served M s.2 (emptyPhony M s phony).2 ∧
      (emptyPhony M s phony).2.fleet.length = s.2.fleet.length := by
  unfold emptyPhony
  extract_lets v
  split_ifs with h
  · exact ⟨.refl M s.2, rfl⟩
  · have hv : v.isPhony = true := by
      simp only [Vehicle.isReal, Bool.or_eq_true, Bool.not_eq_true', not_or] at h
      simpa using h.1
    exact moveOrders_served M _ s hr ⟨hp, hv, fun x hx => hx⟩ v.ordersInVehicle.nodup

/-- **`move2Real` only serves orders.** -/
theorem move2Real_served (hr : o.Ready) : Served M o (o.move2Real M).2 := by
  unfold move2Real
  split_ifs with h
  · exact .refl M o
  · have hfold := List.foldlRecOn (motive := fun s : Bool × Optimize =>
      Served M o s.2 ∧ s.2.fleet.length = o.fleet.length) (List.range o.fleet.length) (emptyPhony M)
      (b := (false, o)) ⟨.refl M o, rfl⟩ fun s hs phony hp => by
        obtain ⟨h1, h2⟩ := emptyPhony_served M s (hs.1.sim.ready hr)
          (by rw [hs.2]; exact List.mem_range.mp hp)
        exact ⟨hs.1.trans h1, h2.trans hs.2⟩
    extract_lets s
    split_ifs
    · exact hfold.1.trans ⟨rfl, rfl, .refl⟩
    · exact hfold.1

theorem move2Real_sim (hr : o.Ready) : Sim M o (o.move2Real M).2 := (o.move2Real_served M hr).sim

end Optimize

end VrpRouting.Optimizers.Tabu
