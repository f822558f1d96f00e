import VrpRouting.InitialSol.StopLists
import VrpRouting.Optimizers.Conservation

/-! # The stops of a solution

The search on a fleet without phony vehicles changes what the vehicles carry and nothing else about
them (`construct_trucks`), so their stops can still be listed (`Listable`). -/

open Sorting

namespace VrpRouting

/-! ### Edits -/

section Edits
variable {M : Matrix} {orders : Orders} {v w : Vehicle} {i : ℕ}

theorem Listable.of_nodes (h : Listable orders v) (ho : orders.WellFormed) (hi : i < orders.length)
    (hsub : ∀ t ∈ nodesOf w.path, t ∈ nodesOf v.path ∨ t ∈ (orders.get i).stops) :
    Listable orders w := by
  have hstop : ∀ t ∈ (orders.get i).stops, isNodeOf (orders.get i) t = true ∧
      ¬ (t.type = .kStart ∨ t.type = .kEnd) := fun t ht => by
    have htyped := ho.typed i hi
    rcases List.mem_pair.mp ht with rfl | rfl
    · simp [isNodeOf, htyped.pickup]
    · simp [isNodeOf, htyped.delivery]
  refine ⟨fun t ht hs => ?_, fun t ht => ?_⟩
  · exact (hsub t ht).elim (fun hv => h.sites t hv hs) fun hst => absurd hs (hstop t hst).2
  · exact (hsub t ht).elim (h.known t) fun hst => Or.inr (Or.inr ⟨i, hi, (hstop t hst).1⟩)

theorem Listable.eraseOrder (h : Listable orders v) (hr : RouteOf orders v)
    (ho : orders.WellFormed) (hi : i < orders.length) :
    Listable orders (v.eraseOrder M (orders.get i)) :=
  h.of_nodes ho hi fun t ht => by
    rw [eraseOrder_nodes hr.noDump] at ht
    exact Or.inl (List.mem_of_mem_eraseP (List.mem_of_mem_eraseP ht))

theorem Listable.placed (h : Listable orders v) (ho : orders.WellFormed) (hi : i < orders.length)
    (hp : Optimizers.Tabu.Placed M v (orders.get i) w) : Listable orders w := by
  refine h.of_nodes ho hi fun t ht => ?_
  rcases hp with ⟨hin, -⟩ | ⟨hun, -⟩
  · obtain ⟨p, d, -, -, -, hN⟩ := hin.positions
    rw [hN] at ht
    rcases List.eq_or_mem_of_mem_insertIdx ht with rfl | ht
    · exact Or.inr (by simp [Order.stops])
    · rcases List.eq_or_mem_of_mem_insertIdx ht with rfl | ht
      · exact Or.inr (by simp [Order.stops])
      · exact Or.inl ht
  · rw [hun.nodes] at ht
    exact Or.inl ht

end Edits

namespace Optimizers.Tabu

/-- A fleet without phony vehicles, with these identifiers. -/
structure Trucks (orders : Orders) (ids : List ℤ) (F : List Vehicle) : Prop where
  real : ∀ v ∈ F, v.isPhony = false
  listable : ∀ v ∈ F, Listable orders v
  ids : (F.map Vehicle.id).Perm ids

theorem Placed.id {M : Matrix} {b b' : Vehicle} {o : Order} (h : Placed M b o b') : b'.id = b.id := by
  rcases h with ⟨h, -⟩ | ⟨h, -⟩
  · rw [h.others]
  · have := h.others
    unfold SameButPath at this
    rw [this]

theorem Trucks.perm {orders : Orders} {ids : List ℤ} {F F' : List Vehicle} (h : Trucks orders ids F)
    (hp : F'.Perm F) : Trucks orders ids F' where
  real v hv := h.real v (hp.mem_iff.mp hv)
  listable v hv := h.listable v (hp.mem_iff.mp hv)
  ids := (hp.map _).trans h.ids

/-- Two vehicles change what they carry. -/
theorem Trucks.replace {orders : Orders} {ids : List ℤ} {F F' R : List Vehicle} {a b a' b' : Vehicle}
    (h : Trucks orders ids F) (hF : F.Perm (a :: b :: R)) (hF' : F'.Perm (a' :: b' :: R))
    (ha : a'.id = a.id) (hb : b'.id = b.id)
    (hl : Listable orders a → Listable orders b → Listable orders a' ∧ Listable orders b') :
    Trucks orders ids F' where
  real := forall_mem_of_perm₂ hF hF' h.real fun h1 h2 => by
    unfold Vehicle.isPhony at *
    rw [ha, hb]
    exact ⟨h1, h2⟩
  listable := forall_mem_of_perm₂ hF hF' h.listable hl
  ids := by
    refine ((hF'.map Vehicle.id).trans ?_).trans h.ids
    have hG := (hF.map Vehicle.id).symm
    simp only [List.map_cons, ha, hb] at hG ⊢
    exact hG

/-- The two fleets of the search. -/
structure View.Trucks (orders : Orders) (ids : List ℤ) (s : View) : Prop where
  fleet : Tabu.Trucks orders ids s.fleet
  best : Tabu.Trucks orders ids s.best

/-- **A step keeps the vehicles**, when none of them is phony. -/
theorem Step.trucks {M : Matrix} {orders : Orders} {ids : List ℤ} (ho : orders.WellFormed)
    {s s' : View} (hr : s.Ready orders) (hs : s.Trucks orders ids) (h : Step M orders s s') :
    s'.Trucks orders ids := by
  have hid : ∀ (v : Vehicle) (o : Order), (v.eraseOrder M o).id = v.id := fun v o => by
    rw [eraseOrder_others]
  cases h with
  | permute h => exact ⟨hs.fleet.perm h.symm, hs.best⟩
  | dropEmpty =>
    have hall : withoutEmpty s.fleet = s.fleet :=
      List.filter_eq_self.mpr fun v hv => by simp [hs.fleet.real v hv]
    exact ⟨by rw [hall]; exact hs.fleet, hs.best⟩
  | @serve a b _ R _ _ hF ha =>
    rw [hs.fleet.real a (hF.mem_iff.mpr (by simp))] at ha
    cases ha
  | relocate hF _ _ hao hb' _ hF' =>
    obtain ⟨hra, -⟩ := and_of_perm₂ hF hr.fleet
    have hlt := hra.movable _ hao
    exact ⟨hs.fleet.replace hF hF' (hid _ _) hb'.id fun hla hlb =>
      ⟨hla.eraseOrder hra ho hlt, hlb.placed ho hlt hb'⟩, hs.best⟩
  | exchange hF _ _ hao hbo ha' hb' _ _ hF' =>
    obtain ⟨hra, hrb⟩ := and_of_perm₂ hF hr.fleet
    have hlt₁ := hra.movable _ hao
    have hlt₂ := hrb.movable _ hbo
    exact ⟨hs.fleet.replace hF hF' (ha'.id.trans (hid _ _)) (hb'.id.trans (hid _ _)) fun hla hlb =>
      ⟨(hla.eraseOrder hra ho hlt₁).placed ho hlt₂ ha',
        (hlb.eraseOrder hrb ho hlt₂).placed ho hlt₁ hb'⟩, hs.best⟩
  | save _ => exact ⟨hs.fleet, hs.fleet⟩
  | reset => exact ⟨hs.best, hs.best⟩

/-- The result of the search: the same vehicles, with the same orders on them. -/
theorem construct_trucks (S : Sorter) (M : Matrix) {sol : Solution} (hv : sol.Valid)
    (hp : WellPlaced sol.orders sol.fleet) {ids : List ℤ} (ht : Trucks sol.orders ids sol.fleet)
    (maxCycles : ℕ) (stopOnAllServed optimize : Bool) :
    let F := (Optimize.construct S M sol maxCycles stopOnAllServed optimize).fleet
    Trucks sol.orders ids F ∧ SameOrders sol.orders sol.fleet F := by
  have hperm := started_perm S sol maxCycles stopOnAllServed optimize
  obtain ⟨-, s, ⟨h1, h2⟩, hfleet, -⟩ := hv.run_invariant S M maxCycles stopOnAllServed optimize
    (P := fun s => s.Trucks sol.orders ids ∧ s.Conserves sol.orders sol.fleet)
    (fun _ _ hr hs hst => ⟨hst.trucks hv.orders hr hs.1, hst.conserves hv.orders hr hs.2⟩)
    ⟨⟨ht.perm hperm, ht⟩, hp.perm hperm.symm, hp, fun i _ => carriers_perm hperm, fun _ _ => rfl⟩
  dsimp only
  rw [hfleet]
  exact ⟨h1.best, h2.sameOrders.2⟩

end Optimizers.Tabu

end VrpRouting
