import Mathlib.Algebra.BigOperators.Group.List.Basic
import Mathlib.Algebra.Order.Group.Multiset
import VrpRouting.InitialSol.Placement
import VrpRouting.Optimizers.Conservation

/-! # Unserved orders

The orders on the phony vehicles of a fleet, counted once for each phony vehicle that holds them
(`unserved`), and what the steps of the search do with them. An initial solution gives each order that
it leaves over a phony vehicle of its own (`unserved_construct`), when the phony truck has no stops. Then
they are also not on the real vehicles, if the stops are well formed (`construct_apart`). -/

open Sorting

namespace VrpRouting.Optimizers.Tabu

/-- The orders on the phony vehicles, each as often as there are phony vehicles that hold it. -/
def unserved (F : List Vehicle) : Multiset ℕ :=
  ((F.filter Vehicle.isPhony).map fun v => (v.ordersInVehicle.ids : Multiset ℕ)).sum

/-- The stops `X` of the order `i` are on one real vehicle. -/
def OnReal (orders : Orders) (i : ℕ) (X : List TwNode) (F : List Vehicle) : Prop :=
  ∃ v ∈ F, v.isPhony = false ∧ X ⊆ visits (orders.get i) (nodesOf v.path)

/-- The order is on a real vehicle. -/
def IsServed (orders : Orders) (F : List Vehicle) (i : ℕ) : Prop :=
  OnReal orders i (orders.get i).stops F

instance (orders : Orders) (F : List Vehicle) (i : ℕ) : Decidable (IsServed orders F i) := by
  unfold IsServed OnReal
  infer_instance

/-- Each order on a phony vehicle is on one only, and not on a real one. -/
structure Apart (orders : Orders) (F : List Vehicle) : Prop where
  once : (unserved F).Nodup
  away : ∀ i ∈ unserved F, ¬ IsServed orders F i

section Unserved
variable {F F' R : List Vehicle} {a b a' b' : Vehicle}

theorem unserved_cons (v : Vehicle) (F : List Vehicle) : unserved (v :: F) =
    (if v.isPhony then (v.ordersInVehicle.ids : Multiset ℕ) else 0) + unserved F := by
  unfold unserved
  cases h : v.isPhony <;> simp [h]

theorem mem_unserved {i : ℕ} : i ∈ unserved F ↔ OnPhony F i := by
  induction F with
  | nil => simp [unserved, OnPhony]
  | cons v F ih =>
    rw [unserved_cons, Multiset.mem_add, ih]
    unfold OnPhony
    rw [List.exists_mem_cons_iff]
    cases hv : v.isPhony <;> simp [Identifiers.mem_def]

theorem unserved_perm (h : F.Perm F') : unserved F = unserved F' := ((h.filter _).map _).sum_eq

theorem unserved_withoutEmpty (F : List Vehicle) : unserved (withoutEmpty F) = unserved F := by
  induction F with
  | nil => rfl
  | cons v F ih =>
    have hc : withoutEmpty (v :: F) = if v.ordersInVehicle.isEmpty && v.isPhony then withoutEmpty F
        else v :: withoutEmpty F := by
      unfold withoutEmpty
      rw [List.filter_cons]
      cases v.ordersInVehicle.isEmpty && v.isPhony <;> rfl
    rw [hc, unserved_cons]
    split_ifs with h1 h2
    · have he : v.ordersInVehicle.ids = [] :=
        List.isEmpty_iff.mp ((Bool.and_eq_true _ _).mp h1).1
      rw [ih, he]
      simp
    · rw [ih, zero_add]
    · rw [unserved_cons, if_pos ‹_›, ih]
    · rw [unserved_cons, if_neg ‹_›, ih]

/-- Two real vehicles are replaced by two real ones. -/
theorem unserved_replace (hF : F.Perm (a :: b :: R)) (hF' : F'.Perm (a' :: b' :: R))
    (ha : a.isPhony = false) (hb : b.isPhony = false) (ha' : a'.isPhony = false)
    (hb' : b'.isPhony = false) : unserved F' = unserved F := by
  rw [unserved_perm hF, unserved_perm hF']
  simp [unserved_cons, ha, hb, ha', hb']

/-- An order goes from one real vehicle to another. -/
theorem unserved_relocate {M : Matrix} {o : Order} (hF : F.Perm (a :: b :: R)) (ha : a.isPhony = false)
    (hb : b.isPhony = false) (hb' : Placed M b o b') (hF' : F'.Perm (a.eraseOrder M o :: b' :: R)) :
    unserved F' = unserved F :=
  unserved_replace hF hF' ha hb ((isPhony_eraseOrder a o).trans ha) (hb'.isPhony.trans hb)

/-- Two real vehicles exchange an order. -/
theorem unserved_exchange {M : Matrix} {o₁ o₂ : Order} (hF : F.Perm (a :: b :: R))
    (ha : a.isPhony = false) (hb : b.isPhony = false) (ha' : Placed M (a.eraseOrder M o₁) o₂ a')
    (hb' : Placed M (b.eraseOrder M o₂) o₁ b') (hF' : F'.Perm (a' :: b' :: R)) :
    unserved F' = unserved F :=
  unserved_replace hF hF' ha hb ((ha'.isPhony.trans (isPhony_eraseOrder a o₁)).trans ha)
    ((hb'.isPhony.trans (isPhony_eraseOrder b o₂)).trans hb)

theorem ids_erase (s : Identifiers ℕ) (o : ℕ) :
    ((s.erase o).ids : Multiset ℕ) = (s.ids : Multiset ℕ).erase o := by
  have h : (s.erase o).ids = s.ids.erase o := by
    rw [s.nodup.erase_eq_filter]
    exact List.filter_congr fun z _ => by simp [bne, beq_eq_decide]
  rw [h, Multiset.coe_erase]

/-- An order is served: it leaves the phony vehicle `a` for the real vehicle `b`. -/
theorem unserved_serve {M : Matrix} {orders : Orders} (ho : orders.WellFormed) {o : ℕ}
    (hlt : o < orders.length) (hF : F.Perm (a :: b :: R)) (ha : a.isPhony = true)
    (hb : b.isPhony = false) (hao : o ∈ a.ordersInVehicle) (hb' : Inserted M b (orders.get o) b')
    (hF' : F'.Perm (a.eraseOrder M (orders.get o) :: b' :: R)) :
    o ∈ unserved F ∧ unserved F' = (unserved F).erase o := by
  have hb'real : b'.isPhony = false := by rw [hb'.others]; exact hb
  have hids : (a.eraseOrder M (orders.get o)).ordersInVehicle = a.ordersInVehicle.erase o := by
    rw [eraseOrder_others, ho.idx o hlt]
  have hmem : o ∈ (a.ordersInVehicle.ids : Multiset ℕ) := hao
  rw [unserved_perm hF, unserved_perm hF']
  simp only [unserved_cons, isPhony_eraseOrder, ha, hb, hb'real, if_true, Bool.false_eq_true,
    if_false, zero_add, hids, ids_erase]
  exact ⟨Multiset.mem_add.mpr (Or.inl hmem), (Multiset.erase_add_left_pos _ hmem).symm⟩

end Unserved

/-! ### Initial solutions -/

section Start
open Initialsol.Tabu InitialSolution

variable {S : Sorter} {M : Matrix} {pOrders : List OrdersT} {pVehicles : List VehicleT}
  {newStops : List ShortVehicle} {p : PickDeliver} {date : ℤ} {userOptimize : Bool}
  {sol : InitialSolution}

theorem unserved_append (F G : List Vehicle) : unserved (F ++ G) = unserved F + unserved G := by
  unfold unserved
  rw [List.filter_append, List.map_append, List.sum_append]

theorem unserved_of_real {F : List Vehicle} (h : ∀ v ∈ F, v.isPhony = false) : unserved F = 0 := by
  unfold unserved
  rw [List.filter_eq_nil_iff.mpr fun v hv => by simp [h v hv]]
  rfl

/-- Without stops, the phony truck has no orders. -/
theorem phony_movable (hb : p.Built S M pOrders pVehicles newStops) (hn : NoPhonyStops newStops)
    {u w : Vehicle} (hu : p.trucks.vehicles.getLast? = some u)
    (hw : InitialSolution.Served M p date userOptimize u w) :
    w.isPhony = true ∧ ∀ i, i ∉ w.ordersInVehicle := by
  obtain ⟨first, rest, -, n, -, hm⟩ := made_phony hb hu
  obtain ⟨sets, r, rfl, hr⟩ := hw
  have hstops : u.stops = [] := stops_phony hb hn hu
  obtain ⟨path, movable, twv, cv, hru⟩ := hr.others
  refine ⟨?_, fun i hi => ?_⟩
  · have hid : r.1.id = -1 := by rw [hru, hm]; rfl
    simp [Vehicle.isPhony, hid]
  · have hv := (mem_userRoute hb.wellFormed (hb.fresh u (List.mem_of_getLast? hu)) i).mp
      (Identifiers.mem_diff.mp ((hr.movable i).mp hi).1).1
    simp [Visited, stopIdxs, hstops] at hv

/-- Then each unserved order has a phony vehicle of its own. -/
theorem unserved_construct (hb : p.Built S M pOrders pVehicles newStops)
    (hsol : construct M date userOptimize p = .ok sol) (hn : NoPhonyStops newStops) :
    unserved sol.fleet = (placedOrders M date userOptimize p : Multiset ℕ) := by
  obtain ⟨first, rest, -, hf⟩ := hb.fleet
  obtain ⟨-, -, hfleet⟩ := construct_fleet hsol hf.used
  obtain ⟨u, hu, hw⟩ := served_getPhony hb date userOptimize
  obtain ⟨hphony, hmovable⟩ := phony_movable hb hn hu hw
  obtain ⟨sets, r, hr, hres⟩ := hw
  rw [hfleet, unserved_append, unserved_of_real fun v hv => (mem_getUnusedTrucks hb hv).1, zero_add]
  have hone : ∀ l : List ℕ, (∀ o ∈ l, o < p.orders.length) →
      unserved (l.map fun o =>
        (userFleet M date userOptimize p).1.getPhony.pushBack M (p.orders.get o)) = (l : Multiset ℕ) := by
    intro l hl
    induction l with
    | nil => rfl
    | cons o l ih =>
      obtain ⟨hlt, hl⟩ := List.forall_mem_cons.mp hl
      have hi := pushBack_spec (M := M) (v := (userFleet M date userOptimize p).1.getPhony)
        (by rw [hr]; exact hres.route.route) (hb.wellFormed.typed o hlt)
      have hids : ((userFleet M date userOptimize p).1.getPhony.pushBack M
          (p.orders.get o)).ordersInVehicle.ids = [o] := by
        rw [hi.others, hb.wellFormed.idx o hlt]
        have he : (userFleet M date userOptimize p).1.getPhony.ordersInVehicle = .empty :=
          Identifiers.ext_iff.mpr fun i => by simp [hmovable i]
        rw [he]
        rfl
      rw [List.map_cons, unserved_cons, ih hl, hids, if_pos (by rw [hi.others]; exact hphony)]
      rfl
  exact hone _ (placed_lt hb date userOptimize)

/-- Nor is it on a real vehicle, when the stops are well formed. -/
theorem construct_apart (hb : p.Built S M pOrders pVehicles newStops)
    (hw : WellFormedStops p.trucks.vehicles) (hn : NoPhonyStops newStops)
    (hsol : construct M date userOptimize p = .ok sol) : Apart sol.orders sol.fleet := by
  obtain ⟨first, rest, -, hf⟩ := hb.fleet
  obtain ⟨horders, -, hfleet⟩ := construct_fleet hsol hf.used
  have hunserved := unserved_construct hb hsol hn
  refine ⟨?_, fun i hi hserved => ?_⟩
  · rw [hunserved, Multiset.coe_nodup]
    exact (Identifiers.nodup _).filter _
  rw [hunserved, Multiset.mem_coe] at hi
  have hlt := placed_lt hb date userOptimize i hi
  have hleft := ((userFleet_sets hb hw date userOptimize).2 i).mp (List.mem_filter.mp hi).1
  obtain ⟨v, hv, hreal, hstops⟩ := hserved
  rw [horders] at hstops
  have hpick : (p.orders.get i).pickup.toTwNode ∈ (p.orders.get i).stops := List.mem_cons_self
  rw [hfleet] at hv
  rcases List.mem_append.mp hv with hv | hv
  · -- a truck of the problem does not visit an order that is left over
    obtain ⟨-, k, u, hu, hk, -⟩ := mem_getUnusedTrucks hb hv
    obtain ⟨-, -, hfree⟩ := carries_userFleet hb hw date userOptimize hu hlt
    obtain ⟨hlt', rfl⟩ := List.getElem?_eq_some_iff.mp hk
    rw [Fleet.vehicle_eq_getElem hlt'] at hfree
    have hnone := hfree (not_kept_of_leftOver hb hw hleft u (List.mem_of_getElem? hu))
    unfold Free at hnone
    rw [hnone] at hstops
    exact absurd (hstops hpick) List.not_mem_nil
  · obtain ⟨o, -, rfl⟩ := List.mem_map.mp hv
    obtain ⟨u, hu, hcopy⟩ := served_getPhony hb date userOptimize
    have hphony := (phony_movable hb hn hu hcopy).1
    have hsame : ((userFleet M date userOptimize p).1.getPhony.pushBack M (p.orders.get o)).isPhony =
        (userFleet M date userOptimize p).1.getPhony.isPhony := rfl
    rw [hsame, hphony] at hreal
    cases hreal

end Start

end VrpRouting.Optimizers.Tabu
