import VrpRouting.InitialSol.TruckRoutes
import VrpRouting.Optimizers.SimpleRuns

/-! # The optimizers keep the trucks on their routes

For the tabu search this is an invariant of its steps. The operators of the simple optimizer make
steps only when the pickups are valid; so here each of them is followed through the fleet and the
copies of its trucks (`Optimize.OnTruckRoutes`, `SwapLoop.OnTruckRoutes`), for any orders. -/

open Sorting

namespace VrpRouting

variable {M : Matrix} {orders : Orders} {truck : Vehicle → Prop}

theorem OnTruckRoutes.perm {F F' : List Vehicle} (h : OnTruckRoutes M orders truck F)
    (hp : F'.Perm F) : OnTruckRoutes M orders truck F' := fun v hv => h v (hp.mem_iff.mp hv)

theorem OnTruckRoutes.filter {F : List Vehicle} (h : OnTruckRoutes M orders truck F)
    (q : Vehicle → Bool) : OnTruckRoutes M orders truck (F.filter q) := fun v hv =>
  h v (List.mem_filter.mp hv).1

/-! ### The tabu search -/

namespace Optimizers.Tabu

theorem Placed.truckRoute {u v w : Vehicle} {i : ℕ} (h : Placed M v (orders.get i) w)
    (ho : orders.WellFormed) (hi : i < orders.length) (hv : TruckRoute M orders u v) :
    TruckRoute M orders u w := by
  rcases h with ⟨h, -⟩ | ⟨h, -⟩
  · exact hv.loaded ho hi h.loaded
  · exact hv.unchanged h

/-- The two fleets of the search. -/
structure View.OnTruckRoutes (M : Matrix) (orders : Orders) (truck : Vehicle → Prop) (s : View) :
    Prop where
  fleet : VrpRouting.OnTruckRoutes M orders truck s.fleet
  best : VrpRouting.OnTruckRoutes M orders truck s.best

theorem onTruckRoute_editClosed (ho : orders.WellFormed) :
    EditClosed M orders (OnTruckRoute M orders truck) where
  movable h hi := h.movable hi
  erase := fun ⟨u, hu, hv⟩ hi => ⟨u, hu, hv.eraseOrder hi⟩
  placed := fun ⟨u, hu, hv⟩ hi hw => ⟨u, hu, hw.truckRoute ho hi hv⟩

theorem Step.onTruckRoutes (ho : orders.WellFormed) {s s' : View}
    (hs : s.OnTruckRoutes M orders truck) (h : Step M orders s s') :
    s'.OnTruckRoutes M orders truck :=
  have hs' := h.forall_vehicles (onTruckRoute_editClosed ho) ⟨hs.fleet, hs.best⟩
  ⟨hs'.1, hs'.2⟩

/-- **A run keeps the trucks on their routes**, and so does the constructor. -/
theorem run_onTruckRoutes (S : Sorter) {sol : Solution} (hv : sol.Valid)
    (h : OnTruckRoutes M sol.orders truck sol.fleet) (maxCycles : ℕ)
    (stopOnAllServed optimize : Bool) :
    (∀ ops, (run S M (started S sol maxCycles stopOnAllServed optimize) ops).view.OnTruckRoutes M
      sol.orders truck) ∧
    OnTruckRoutes M sol.orders truck
      (Optimize.construct S M sol maxCycles stopOnAllServed optimize).fleet := by
  obtain ⟨hrun, s, hs, hfleet, -⟩ := hv.run_invariant S M maxCycles stopOnAllServed optimize
    (P := fun s => s.OnTruckRoutes M sol.orders truck)
    (fun _ _ _ hs hst => hst.onTruckRoutes hv.orders hs)
    ⟨h.perm (started_perm S sol maxCycles stopOnAllServed optimize), h⟩
  exact ⟨hrun, hfleet ▸ hs.best⟩

end Optimizers.Tabu

/-! ### The simple optimizer -/

namespace Optimizers.Simple

open Initialsol.Simple (InitialsCode)
open Optimize

/-- The order is one of the problem, up to the compatibility tables. -/
def Known (orders : Orders) (order : Order) : Prop :=
  ∃ i < orders.length, (orders.get i).nodes = order.nodes

section Edits
variable (ho : orders.WellFormed) {v : Vehicle} {order : Order}

theorem eraseOrder_onTruckRoute (h : OnTruckRoute M orders truck v) (hk : Known orders order) :
    OnTruckRoute M orders truck (v.eraseOrder M order) := by
  obtain ⟨u, hu, hv⟩ := h
  obtain ⟨i, hi, hn⟩ := hk
  rw [eraseOrder_of_nodes hn]
  exact ⟨u, hu, hv.eraseOrder hi⟩

include ho

/-- The vehicle after an insertion that may have failed. -/
theorem OnTruckRoute.inserted {w : Vehicle} (h : OnTruckRoute M orders truck v)
    (hk : Known orders order) (hw : Loaded M v order w ∨ Unchanged M v w) :
    OnTruckRoute M orders truck w := by
  obtain ⟨u, hu, hv⟩ := h
  obtain ⟨i, hi, hn⟩ := hk
  rcases hw with hw | hw
  · exact ⟨u, hu, hv.loaded ho hi (Loaded.of_nodes hn.symm hw)⟩
  · exact ⟨u, hu, hv.unchanged hw⟩

theorem Known.typed (hk : Known orders order) : order.Typed := by
  obtain ⟨i, hi, hn⟩ := hk
  exact (ho.typed i hi).of_nodes hn

theorem hillClimb_onTruckRoute (h : OnTruckRoute M orders truck v) (hk : Known orders order) :
    OnTruckRoute M orders truck (v.hillClimb M order).2 := by
  have ⟨_, _, hv⟩ := h
  rcases hillClimb_spec (M := M) hv.route.route (hk.typed ho) with ⟨-, hw, -⟩ | ⟨-, hw⟩
  · exact OnTruckRoute.inserted ho h hk (Or.inl hw.loaded)
  · exact OnTruckRoute.inserted ho h hk (Or.inr hw)

theorem insertOrder_onTruckRoute (kind : InitialsCode) (h : OnTruckRoute M orders truck v)
    (hk : Known orders order) : OnTruckRoute M orders truck (insertOrder M kind v order) := by
  unfold insertOrder
  split_ifs
  · obtain ⟨u, -, hv⟩ := id h
    rcases semiLIFO_spec (M := M) hv.route.route (hk.typed ho) with ⟨-, hw, -⟩ | ⟨-, hw⟩
    · exact OnTruckRoute.inserted ho h hk (Or.inl hw)
    · exact OnTruckRoute.inserted ho h hk (Or.inr hw)
  · exact hillClimb_onTruckRoute ho h hk

end Edits

/-- The two fleets of the optimizer. -/
structure Optimize.OnTruckRoutes (M : Matrix) (orders : Orders) (truck : Vehicle → Prop)
    (o : Optimize) : Prop where
  fleet : VrpRouting.OnTruckRoutes M orders truck o.fleet
  best : VrpRouting.OnTruckRoutes M orders truck o.bestSolution.fleet

namespace Optimize

variable {o : Optimize}

theorem OnTruckRoutes.vehicle (h : o.OnTruckRoutes M orders truck) {i : ℕ}
    (hi : i < o.fleet.length) : OnTruckRoute M orders truck (o.vehicle i) := by
  unfold Optimize.vehicle
  rw [List.getD_eq_getElem _ _ hi]
  exact h.fleet _ (List.getElem_mem hi)

theorem OnTruckRoutes.setVehicle (h : o.OnTruckRoutes M orders truck) {v : Vehicle}
    (hv : OnTruckRoute M orders truck v) (i : ℕ) :
    (o.setVehicle i v).OnTruckRoutes M orders truck where
  fleet w hw := by
    rcases List.mem_or_eq_of_mem_set hw with hw | rfl
    · exact h.fleet w hw
    · exact hv
  best := h.best

@[simp] theorem length_setVehicle (o : Optimize) (i : ℕ) (v : Vehicle) :
    (o.setVehicle i v).fleet.length = o.fleet.length := List.length_set

theorem OnTruckRoutes.saveBest (h : o.OnTruckRoutes M orders truck) :
    o.saveBest.OnTruckRoutes M orders truck := ⟨h.fleet, h.fleet⟩

theorem OnTruckRoutes.saveIfBest (h : o.OnTruckRoutes M orders truck) :
    o.saveIfBest.OnTruckRoutes M orders truck := by
  have h1 : (if o.toSolution.duration < o.bestSolution.duration then o.saveBest
      else o).OnTruckRoutes M orders truck := by
    split_ifs
    · exact h.saveBest
    · exact h
  unfold Optimize.saveIfBest
  extract_lets o1
  split_ifs
  · exact OnTruckRoutes.saveBest h1
  · exact h1

theorem OnTruckRoutes.deleteEmptyTruck (h : o.OnTruckRoutes M orders truck) :
    o.deleteEmptyTruck.OnTruckRoutes M orders truck :=
  OnTruckRoutes.saveIfBest ⟨h.fleet.filter _, h.best⟩

end Optimize

section Operators
variable (ho : orders.WellFormed) (hknows : ∀ u, truck u → SameNodes u.orders orders)
include ho hknows

omit ho in
/-- The orders that a vehicle reads are those of the problem. -/
theorem known_of_onTruckRoute {v : Vehicle} (h : OnTruckRoute M orders truck v) {i : ℕ}
    (hi : i < orders.length) : Known orders (v.orders.get i) := by
  obtain ⟨u, hu, hv⟩ := h
  rw [hv.knows]
  exact ⟨i, hi, ((hknows u hu).get i).symm⟩

/-! ### `decreaseTruckAt` -/

omit hknows in
theorem decreaseOrder_onTruckRoutes {order : Order} (hk : Known orders order) (position : ℕ) :
    ∀ (passes i : ℕ) {o : Optimize}, o.OnTruckRoutes M orders truck →
      position < o.fleet.length → i + passes ≤ o.fleet.length →
      (decreaseOrder M position order passes i o).OnTruckRoutes M orders truck ∧
        (decreaseOrder M position order passes i o).fleet.length = o.fleet.length
  | 0, _, _, h, _, _ => ⟨h, rfl⟩
  | passes + 1, i, o, h, hpos, hle => by
    have h1 := h.setVehicle (hillClimb_onTruckRoute ho (h.vehicle (by omega : i < _)) hk) i
    have hlen := length_setVehicle o i ((o.vehicle i).hillClimb M order).2
    unfold decreaseOrder
    dsimp only
    split_ifs
    · refine ⟨h1.setVehicle (eraseOrder_onTruckRoute (h1.vehicle ?_) hk) position, ?_⟩
      · rw [hlen]
        exact hpos
      · rw [length_setVehicle, hlen]
    · obtain ⟨h2, hlen2⟩ := decreaseOrder_onTruckRoutes hk position passes (i + 1) h1
        (hlen.symm ▸ hpos) (by omega)
      exact ⟨h2, hlen2.trans hlen⟩

theorem decreaseTruckAt_onTruckRoutes {o : Optimize} (h : o.OnTruckRoutes M orders truck)
    (position : ℕ) : (o.decreaseTruckAt M position).OnTruckRoutes M orders truck := by
  by_cases hpos : position < o.fleet.length
  · have hstart := h.vehicle hpos
    refine (List.foldlRecOn (motive := fun o' : Optimize => o'.OnTruckRoutes M orders truck ∧
      o'.fleet.length = o.fleet.length) _ _ ⟨h, rfl⟩ fun o' ⟨h', hlen⟩ i hi => ?_).1
    have hk := known_of_onTruckRoute hknows (h'.vehicle (hlen.symm ▸ hpos)) (hstart.movable hi)
    obtain ⟨h1, hlen1⟩ := decreaseOrder_onTruckRoutes ho hk position position 0 h'
      (hlen.symm ▸ hpos) (by omega)
    exact ⟨h1, hlen1.trans hlen⟩
  · unfold decreaseTruckAt
    rw [vehicle_of_length_le o (not_lt.mp hpos)]
    exact h

/-! ### `swapWorse` -/

/-- The fleets and the two copies of `swap_worse`; the fleet has `n` vehicles. -/
structure SwapLoop.OnTruckRoutes (M : Matrix) (orders : Orders) (truck : Vehicle → Prop) (n : ℕ)
    (l : SwapLoop) : Prop where
  opt : l.opt.OnTruckRoutes M orders truck
  length : l.opt.fleet.length = n
  fromTruck : OnTruckRoute M orders truck l.fromTruck
  toTruck : OnTruckRoute M orders truck l.toTruck

section Swap
variable {n toPos fromPos : ℕ}

omit ho hknows in
theorem keep_onTruckRoutes {o : Optimize} {t : Trucks} (h : o.OnTruckRoutes M orders truck)
    (hlen : o.fleet.length = n) (hfrom : OnTruckRoute M orders truck t.fromTruck)
    (hto : OnTruckRoute M orders truck t.toTruck) :
    (keep toPos fromPos o t).OnTruckRoutes M orders truck n where
  opt := (h.setVehicle hto toPos).setVehicle hfrom fromPos
  length := by
    unfold keep
    rw [length_setVehicle, length_setVehicle, hlen]
  fromTruck := hfrom
  toTruck := hto

omit hknows in
theorem moveOrder_onTruckRoute (kind : InitialsCode) {order : Order} (hk : Known orders order)
    {t : Trucks} (hfrom : OnTruckRoute M orders truck t.fromTruck)
    (hto : OnTruckRoute M orders truck t.toTruck) :
    OnTruckRoute M orders truck (moveOrder M kind order t).2.fromTruck ∧
      OnTruckRoute M orders truck (moveOrder M kind order t).2.toTruck := by
  have hinsert := insertOrder_onTruckRoute ho kind hto hk
  unfold moveOrder
  split_ifs
  iterate 3 exact ⟨hfrom, hto⟩
  dsimp only
  split_ifs
  · exact ⟨eraseOrder_onTruckRoute hfrom hk, hinsert⟩
  · exact ⟨hfrom, hinsert⟩

theorem trySwaps_onTruckRoutes (hto : toPos < n) (hfrom : fromPos < n) {fromOrder : Order}
    (hk : Known orders fromOrder) (d : ℤ) : ∀ (ids : List ℕ) {l : SwapLoop},
    (∀ i ∈ ids, i < orders.length) → l.OnTruckRoutes M orders truck n →
    (trySwaps M toPos fromPos fromOrder d ids l).OnTruckRoutes M orders truck n
  | [], _, _, h => h
  | i :: ids, l, hids, h => by
    obtain ⟨hi, hids⟩ := List.forall_mem_cons.mp hids
    have hto' := h.opt.vehicle (h.length.symm ▸ hto)
    have hko := known_of_onTruckRoute hknows hto' hi
    unfold trySwaps
    dsimp only
    split_ifs
    · exact trySwaps_onTruckRoutes hto hfrom hk d ids hids h
    · refine keep_onTruckRoutes h.opt h.length ?_ ?_
      · exact insertOrder_onTruckRoute ho _ (eraseOrder_onTruckRoute h.fromTruck hk) hko
      · exact insertOrder_onTruckRoute ho _ (eraseOrder_onTruckRoute h.toTruck hko) hk
    · exact trySwaps_onTruckRoutes hto hfrom hk d ids hids
        ⟨h.opt, h.length, h.opt.vehicle (h.length.symm ▸ hfrom), hto'⟩

theorem swapOrder_onTruckRoutes (hto : toPos < n) (hfrom : fromPos < n) {toOrders : List ℕ}
    (hids : ∀ i ∈ toOrders, i < orders.length) {l : SwapLoop}
    (h : l.OnTruckRoutes M orders truck n) {i : ℕ} (hi : i < orders.length) :
    (swapOrder M toPos fromPos toOrders l i).OnTruckRoutes M orders truck n := by
  have hk := known_of_onTruckRoute hknows h.fromTruck hi
  obtain ⟨h1, h2⟩ := moveOrder_onTruckRoute ho l.opt.kind hk h.fromTruck h.toTruck
  unfold swapOrder
  dsimp only
  split_ifs
  · exact keep_onTruckRoutes h.opt h.length h1 h2
  · exact trySwaps_onTruckRoutes ho hknows hto hfrom hk _ toOrders hids ⟨h.opt, h.length, h1, h2⟩

theorem swapWorse_onTruckRoutes {o : Optimize} (h : o.OnTruckRoutes M orders truck)
    (hlt : toPos < fromPos) : (o.swapWorse M toPos fromPos).OnTruckRoutes M orders truck := by
  by_cases hpos : fromPos < o.fleet.length
  · have hfrom := h.vehicle hpos
    have hto := h.vehicle (hlt.trans hpos)
    refine (List.foldlRecOn (motive := fun l : SwapLoop =>
      l.OnTruckRoutes M orders truck o.fleet.length) _ _ ⟨h, rfl, hfrom, hto⟩
      fun l hl i hi => ?_).opt
    exact swapOrder_onTruckRoutes ho hknows (hlt.trans hpos) hpos (fun j hj => hto.movable hj) hl
      (hfrom.movable hi)
  · unfold swapWorse
    rw [vehicle_of_length_le o (not_lt.mp hpos)]
    exact h

end Swap

/-! ### `moveReduceCost` -/

theorem reduceOrder_onTruckRoutes {n : ℕ} {l : SwapLoop} (h : l.OnTruckRoutes M orders truck n)
    {i : ℕ} (hi : i < orders.length) : (reduceOrder M l i).OnTruckRoutes M orders truck n := by
  have hk := known_of_onTruckRoute hknows h.fromTruck hi
  have hinsert := insertOrder_onTruckRoute ho l.opt.kind h.toTruck hk
  have herase := eraseOrder_onTruckRoute h.fromTruck hk
  unfold reduceOrder
  dsimp only
  split_ifs
  · refine ⟨h.opt.saveIfBest, ?_, herase, hinsert⟩
    rw [fleet_saveIfBest]
    exact h.length
  · exact ⟨h.opt, h.length, insertOrder_onTruckRoute ho _ herase hk,
      eraseOrder_onTruckRoute hinsert hk⟩
  · exact ⟨h.opt, h.length, h.fromTruck, hinsert⟩

theorem moveReduceCost_onTruckRoutes {o : Optimize} (h : o.OnTruckRoutes M orders truck)
    (fromPos toPos : ℕ) : (o.moveReduceCost M fromPos toPos).OnTruckRoutes M orders truck := by
  unfold moveReduceCost
  dsimp only
  split_ifs with hempty
  iterate 2 exact h
  by_cases hfrom : fromPos < o.fleet.length
  · have hto : toPos < o.fleet.length := by
      by_contra hto
      rw [vehicle_of_length_le o (not_lt.mp hto)] at hempty
      exact hempty rfl
    refine (List.foldlRecOn (motive := fun l : SwapLoop =>
      l.OnTruckRoutes M orders truck o.fleet.length) _ _ ⟨h, rfl, h.vehicle hfrom, h.vehicle hto⟩
      fun l hl i hi => ?_).opt
    exact reduceOrder_onTruckRoutes ho hknows hl ((h.vehicle hfrom).movable hi)
  · rw [vehicle_of_length_le o (not_lt.mp hfrom)]
    exact h

/-! ### Runs -/

theorem act_onTruckRoutes (S : Sorter) {o : Optimize} (h : o.OnTruckRoutes M orders truck)
    (a : Act) : (o.act S M a).OnTruckRoutes M orders truck := by
  have hact : ∀ o' : Optimize, o'.OnTruckRoutes M orders truck → ∀ acts,
      ({ o' with acts := acts } : Optimize).OnTruckRoutes M orders truck :=
    fun o' h' _ => ⟨h'.fleet, h'.best⟩
  refine hact _ ?_ _
  cases a with
  | sortBySize => exact ⟨h.fleet.perm (sortBySize_perm S o), h.best⟩
  | decreaseTruck position => exact decreaseTruckAt_onTruckRoutes ho hknows h position
  | deleteEmptyTruck => exact h.deleteEmptyTruck
  | saveIfBest => exact h.saveIfBest
  | swapWorse toPos fromPos =>
    unfold perform
    dsimp only
    split_ifs with hlt
    · exact swapWorse_onTruckRoutes ho hknows h hlt
    · exact h
  | moveReduceCost fromPos toPos => exact moveReduceCost_onTruckRoutes ho hknows h fromPos toPos
  | rotate => exact ⟨h.fleet.perm (List.rotate_perm _ _), h.best⟩
  | takeBest => exact ⟨h.best, h.best⟩

/-- **A run keeps the trucks on their routes.** -/
theorem run_onTruckRoutes (S : Sorter) : ∀ (acts : List Act) {o : Optimize},
    o.OnTruckRoutes M orders truck → (run S M o acts).OnTruckRoutes M orders truck
  | [], _, h => h
  | a :: acts, _, h => run_onTruckRoutes S acts (act_onTruckRoutes ho hknows S h a)

end Operators

end Optimizers.Simple

end VrpRouting
