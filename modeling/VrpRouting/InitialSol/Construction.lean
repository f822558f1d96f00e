import VrpRouting.InitialSol.UserStops

/-! # The constructed initial solution

What the constructor of the tabu `Initial_solution` leaves: the usable real vehicles of the problem
with the user's solution on them, then a copy of the phony vehicle for each order that is still
unassigned and fits in it (`construct_fleet`). All of them are routes of the problem
(`construct_valid`). -/

open Sorting

namespace VrpRouting

/-! ### Fresh vehicles -/

section Fresh
variable {M : Matrix} {newStops : List ShortVehicle} {orders orders' : Orders} {nodes : ℕ}
  {v : Vehicle} {k : ℕ} {d : VehicleT}

/-- The sites of a vehicle, from the node index `n` on. -/
def sites (n : ℕ) (d : VehicleT) : List VehicleNode :=
  [.ofTwNode (.ofVehicle n d .kStart), .ofTwNode (.ofVehicle (n + 1) d .kEnd)]

theorem sites_noDump (n : ℕ) (d : VehicleT) : NoDump (sites n d) := by
  intro s hs
  rcases List.mem_pair.mp hs with rfl | rfl <;> simp [TwNode.ofVehicle, VehicleNode.ofTwNode]

theorem Made.path (h : Made M newStops orders nodes v k d) : ∃ n, nodes ≤ n ∧
    v.path = evaluatePath M d.capacity d.speed 0 (sites n d) := by
  obtain ⟨n, hn, hm⟩ := h
  exact ⟨n, hn, by rw [hm]; rfl⟩

/-- The two sites of a made vehicle. -/
theorem Made.nodesOf (h : Made M newStops orders nodes v k d) : ∃ n, nodes ≤ n ∧
    VrpRouting.nodesOf v.path = [.ofVehicle n d .kStart, .ofVehicle (n + 1) d .kEnd] := by
  obtain ⟨n, hn, hp⟩ := h.path
  exact ⟨n, hn, by rw [hp, nodesOf_evaluatePath _ _ _ _ (sites_noDump n d)]; rfl⟩

theorem Made.fresh (h : Made M newStops orders nodes v k d) (hs : SameNodes orders orders')
    (hnodes : ∀ i < orders'.length, (orders'.get i).pickup.idx < nodes ∧
      (orders'.get i).delivery.idx < nodes) : Fresh M orders' v := by
  obtain ⟨n, hn, hN⟩ := h.nodesOf
  have hlen : v.path.length = 2 := by rw [← length_nodesOf, hN]; rfl
  have hsite : ∀ t ∈ VrpRouting.nodesOf v.path, nodes ≤ t.idx := fun t ht => by
    rw [hN, List.mem_pair] at ht
    rcases ht with rfl | rfl <;> simp [TwNode.ofVehicle] <;> omega
  obtain ⟨_, -, hp⟩ := h.path
  obtain ⟨m, -, hm⟩ := h
  refine ⟨⟨⟨_, [], _, hN, ?_, ?_, by simp⟩, fun t ht _ i hi => ?_, ?_⟩, hlen, ?_, ?_, ?_, ?_, ?_⟩
  · simp [TwNode.ofVehicle]
  · simp [TwNode.ofVehicle]
  · have h1 := hsite t ht
    have h2 := hnodes i hi
    simp only [isNodeOf, decide_eq_false_iff_not]
    omega
  · rw [hm]
    exact fun i hi => absurd hi (Identifiers.not_mem_empty i)
  · have hcap : v.capacity = d.capacity := by rw [hm]; rfl
    have hspeed : v.speed = d.speed := by rw [hm]; rfl
    rw [hp, hcap, hspeed]
    exact settled_evaluatePath M _ _ 0 _
  · rw [hm]; rfl
  · rw [hm]; rfl
  · rw [hm]; rfl
  · rw [hm]; exact hs

end Fresh

namespace PickDeliver.Built

variable {S : Sorter} {M : Matrix} {pOrders : List OrdersT} {pVehicles : List VehicleT}
  {newStops : List ShortVehicle} {p : PickDeliver} (h : p.Built S M pOrders pVehicles newStops)
include h

theorem nodes_lt : ∀ i < p.orders.length, (p.orders.get i).pickup.idx < 2 * pOrders.length ∧
    (p.orders.get i).delivery.idx < 2 * pOrders.length := by
  intro i hi
  have hi' : i < (S.sort ordersLt pOrders).length := by rw [S.length_sort, ← h.length]; exact hi
  rw [← h.orders.pickup, ← h.orders.delivery, sortedOrders, Orders.get_ofData hi']
  rw [S.length_sort] at hi'
  simp only [Order.ofNodes, TwNode.ofOrder, VehicleNode.ofTwNode]
  constructor <;> simp <;> omega

theorem fresh : ∀ v ∈ p.trucks.vehicles, Fresh M p.orders v := by
  intro v hv
  obtain ⟨k, d, hm, -⟩ := h.exists_made hv
  exact hm.fresh h.orders h.nodes_lt

theorem named : p.orders.Named := by
  intro i hi
  have hi' : i < (S.sort ordersLt pOrders).length := by rw [S.length_sort, ← h.length]; exact hi
  rw [← h.orders.pickup, ← h.orders.delivery, ← h.orders.id, sortedOrders, Orders.get_ofData hi']
  exact ⟨rfl, rfl⟩

theorem ids :
    p.orders.map Order.id = (S.sort ordersLt pOrders).map OrdersT.id := by
  have h1 := congrArg (List.map fun n => n.2.1) h.orders
  simp only [List.map_map] at h1
  refine Eq.trans (h1.symm : p.orders.map Order.id = (sortedOrders S pOrders).map Order.id) ?_
  refine List.ext_getElem (by simp [sortedOrders]) fun i h1 h2 => ?_
  simp [sortedOrders, Orders.ofData, Order.ofNodes, Order.nodes]

theorem mem_ids {x : ℤ} :
    x ∈ pOrders.map OrdersT.id ↔ ∃ i < p.orders.length, (p.orders.get i).id = x := by
  rw [← ((S.perm ordersLt pOrders).map OrdersT.id).mem_iff, ← h.ids]
  constructor
  · intro hx
    obtain ⟨o, ho, rfl⟩ := List.mem_map.mp hx
    obtain ⟨i, hi, rfl⟩ := List.getElem_of_mem ho
    exact ⟨i, hi, congrArg Order.id (Orders.get_eq_getElem hi)⟩
  · rintro ⟨i, hi, rfl⟩
    exact List.mem_map_of_mem (Orders.get_mem hi)

variable (hd : (pOrders.map OrdersT.id).Nodup)
include hd

theorem nodup_ids : (p.orders.map Order.id).Nodup := by
  rw [h.ids]
  exact ((S.perm ordersLt pOrders).map _).nodup_iff.mpr hd

theorem distinct : p.orders.Distinct := by
  intro i hi j hj hij
  have hget := List.inj_on_of_nodup_map (h.nodup_ids hd) (Orders.get_mem hi) (Orders.get_mem hj) hij
  rw [← h.wellFormed.idx i hi, hget, h.wellFormed.idx j hj]

end PickDeliver.Built

/-! ### The fleet after the user's solution -/

section Fleet
variable {M : Matrix} {orders : Orders} {date : ℤ} {optimize : Bool}

variable (M orders date optimize) in
/-- `set_initial_solution` of the vehicles, one by one. -/
theorem setInitialSolutions_forall₂ : ∀ (vs : List Vehicle) (sets : Assignment),
    List.Forall₂ (fun v w => ∃ sets, w = (v.setInitialSolution M orders sets date optimize).1) vs
      (Fleet.setInitialSolutions M orders date optimize vs sets).1
  | [], _ => .nil
  | _ :: vs, sets => .cons ⟨sets, rfl⟩ (setInitialSolutions_forall₂ vs _)

theorem setInitialSolutions_spec (ho : orders.WellFormed) (vs : List Vehicle) (sets : Assignment)
    (h : ∀ v ∈ vs, Fresh M orders v) :
    List.Forall₂ (fun v w => ∃ sets r, w = r.1 ∧
      UserResult M orders v sets date (v.lostOrders M orders date optimize) r) vs
      (Fleet.setInitialSolutions M orders date optimize vs sets).1 := by
  have hall := (List.forall₂_and_left _ _).mpr
    ⟨h, setInitialSolutions_forall₂ M orders date optimize vs sets⟩
  exact hall.imp fun v w ⟨hv, sets, hw⟩ =>
    ⟨sets, _, hw, setInitialSolution_spec ho hv sets date optimize⟩

theorem lost_lt (ho : orders.WellFormed) {u : Vehicle} (hu : Fresh M orders u) :
    ∀ i ∈ u.lostOrders M orders date optimize, Visited orders u i ∧ i < orders.length := by
  intro i hi
  unfold Vehicle.lostOrders at hi
  dsimp only at hi
  split_ifs at hi
  · cases hi
  · have hv := (mem_userRoute ho hu i).mp (Identifiers.mem_diff.mp hi).1
    refine ⟨hv, ?_⟩
    obtain ⟨mids, s, h, -⟩ := processStops_spec ho hu ⟨.empty, .empty⟩
    unfold Visited at hv
    exact h.known i (List.count_pos_iff.mp (by omega))

variable (M orders date optimize) in
/-- The last vehicle is processed like the others. -/
theorem setInitialSolutions_getLast? : ∀ (vs : List Vehicle) (sets : Assignment), ∃ sets',
    (Fleet.setInitialSolutions M orders date optimize vs sets).1.getLast? =
      vs.getLast?.map fun v => (v.setInitialSolution M orders sets' date optimize).1
  | [], sets => ⟨sets, rfl⟩
  | [_], sets => ⟨sets, rfl⟩
  | v :: w :: vs, sets => by
    obtain ⟨sets', h⟩ := setInitialSolutions_getLast? (w :: vs)
      (v.setInitialSolution M orders sets date optimize).2
    exact ⟨sets', by simpa [Fleet.setInitialSolutions] using h⟩

end Fleet

namespace Initialsol.Tabu.InitialSolution

section Place
variable (M : Matrix)

/-- The loop of `process_unassigned`: the fleet gets a copy of the phony vehicle for each order that
fits in it. -/
theorem placeUnassigned_fleet : ∀ (ids : List ℕ) (s : InitialSolution),
    (ids.foldl (placeUnassigned M) s).orders = s.orders ∧
    (ids.foldl (placeUnassigned M) s).trucks = s.trucks ∧
    (ids.foldl (placeUnassigned M) s).fleet = s.fleet ++
      (ids.filter fun o => s.trucks.getPhony.isOrderFeasible M (s.orders.get o)).map
        fun o => s.trucks.getPhony.pushBack M (s.orders.get o)
  | [], s => ⟨rfl, rfl, by simp⟩
  | o :: ids, s => by
    rw [List.foldl_cons]
    obtain ⟨h1, h2, h3⟩ := placeUnassigned_fleet ids (placeUnassigned M s o)
    rw [h1, h2, h3]
    unfold placeUnassigned
    cases hf : s.trucks.getPhony.isOrderFeasible M (s.orders.get o) with
    | false => simp [hf]
    | true => simp [hf, check]

end Place

/-- No stops are found for the identifier of the phony vehicle. -/
def NoPhonyStops (newStops : List ShortVehicle) : Prop :=
  ∀ v, newStops.find? (fun v => decide (v.id = -1)) = some v → v.stops = []

theorem NoPhonyStops.stopsFor {newStops : List ShortVehicle} (hn : NoPhonyStops newStops)
    (first : VehicleT) : Fleet.stopsFor newStops (Fleet.phonyVehicle first) = [] := by
  unfold Fleet.stopsFor
  rw [if_pos (show (Fleet.phonyVehicle first).cantV = 1 from rfl)]
  split
  · next v hv => exact hn v hv
  · rfl

/-- What the user's solution makes of the trucks of the problem. -/
def userFleet (M : Matrix) (date : ℤ) (optimize : Bool) (p : PickDeliver) : Fleet × Assignment :=
  p.trucks.setInitialSolution M p.orders ⟨.empty, p.trucks.feasibleOrders⟩ date optimize

/-- The orders that get a phony vehicle. -/
def placedOrders (M : Matrix) (date : ℤ) (optimize : Bool) (p : PickDeliver) : List ℕ :=
  let r := userFleet M date optimize p
  r.2.unassigned.ids.filter fun o => r.1.getPhony.isOrderFeasible M (p.orders.get o)

section Construct
variable {M : Matrix} {date : ℤ} {optimize : Bool} {p : PickDeliver} {s : InitialSolution}

/-- No vehicle is used before the unused trucks are taken. -/
theorem user_fleet_nil (M : Matrix) (date : ℤ) (optimize : Bool) (hused : p.trucks.used = .empty) :
    (processGivenSolutionFromUser M (start p) date optimize).fleet = [] := by
  have hu : (userFleet M date optimize p).1.getUsedTrucks = [] := by
    unfold Fleet.getUsedTrucks
    rw [show (userFleet M date optimize p).1.used = .empty from hused]
    rfl
  change [] ++ (userFleet M date optimize p).1.getUsedTrucks = []
  rw [hu]
  rfl

/-- The state before `process_unassigned`. -/
def prepared (M : Matrix) (date : ℤ) (optimize : Bool) (p : PickDeliver) : InitialSolution :=
  { processGivenSolutionFromUser M (start p) date optimize with
    fleet := (userFleet M date optimize p).1.getUnusedTrucks }

theorem construct_eq (h : construct M date optimize p = .ok s) (hused : p.trucks.used = .empty) :
    s = check ((prepared M date optimize p).processUnassigned M) := by
  unfold construct at h
  split_ifs at h
  obtain rfl := Except.ok.inj h
  have hp := user_fleet_nil M date optimize hused
  unfold finish
  split_ifs <;> (dsimp only; rw [hp]; rfl)

/-- **The constructed fleet.** -/
theorem construct_fleet (h : construct M date optimize p = .ok s) (hused : p.trucks.used = .empty) :
    s.orders = p.orders ∧ s.trucks = (userFleet M date optimize p).1 ∧
    s.fleet = (userFleet M date optimize p).1.getUnusedTrucks ++
      (placedOrders M date optimize p).map fun o =>
        (userFleet M date optimize p).1.getPhony.pushBack M (p.orders.get o) := by
  obtain ⟨h1, h2, h3⟩ := placeUnassigned_fleet M (prepared M date optimize p).unassigned.ids
    (prepared M date optimize p).check
  rw [construct_eq h hused]
  exact ⟨h1, h2, h3⟩

end Construct

section Members
variable {S : Sorter} {M : Matrix} {pOrders : List OrdersT} {pVehicles : List VehicleT}
  {newStops : List ShortVehicle} {p : PickDeliver} (hb : p.Built S M pOrders pVehicles newStops)
  {date : ℤ} {optimize : Bool} {s : InitialSolution}

/-- `w` is the truck `u` of the problem with the user's solution on it. -/
def Served (M : Matrix) (p : PickDeliver) (date : ℤ) (optimize : Bool) (u w : Vehicle) : Prop :=
  ∃ sets r, w = r.1 ∧
    UserResult M p.orders u sets date (u.lostOrders M p.orders date optimize) r

include hb

variable (date optimize) in
theorem served_userFleet :
    List.Forall₂ (Served M p date optimize) p.trucks.vehicles (userFleet M date optimize p).1.vehicles :=
  setInitialSolutions_spec hb.wellFormed _ _ hb.fresh

theorem served_getElem? {k : ℕ} {w : Vehicle}
    (hw : (userFleet M date optimize p).1.vehicles[k]? = some w) :
    ∃ u, p.trucks.vehicles[k]? = some u ∧ Served M p date optimize u w := by
  have h := served_userFleet hb date optimize
  obtain ⟨hk, rfl⟩ := List.getElem?_eq_some_iff.mp hw
  have hk' : k < p.trucks.vehicles.length := h.length_eq ▸ hk
  exact ⟨_, List.getElem?_eq_getElem hk', h.get hk' hk⟩

variable (date optimize) in
/-- The orders that get a phony vehicle are orders of the problem. -/
theorem placed_lt : ∀ o ∈ placedOrders M date optimize p, o < p.orders.length := by
  have hrun : ∀ (vs : List Vehicle) (sets : Assignment), (∀ v ∈ vs, Fresh M p.orders v) →
      (∀ i ∈ sets.unassigned, i < p.orders.length) →
      ∀ i ∈ (Fleet.setInitialSolutions M p.orders date optimize vs sets).2.unassigned,
        i < p.orders.length := by
    intro vs
    induction vs with
    | nil => exact fun _ _ h => h
    | cons v vs ih =>
      intro sets hvs hsets
      obtain ⟨hv, hvs⟩ := List.forall_mem_cons.mp hvs
      refine ih _ hvs fun i hi => ?_
      rcases ((setInitialSolution_spec hb.wellFormed hv sets date optimize).unassigned i).mp hi with h | h
      · exact hsets i h.1
      · exact (lost_lt hb.wellFormed hv i h).2
  intro o ho
  refine hrun _ _ hb.fresh (fun i hi => ?_) o (List.mem_of_mem_filter ho)
  obtain ⟨first, rest, -, hf⟩ := hb.fleet
  obtain ⟨v, hv, hi⟩ := Fleet.mem_feasibleOrders.mp hi
  obtain ⟨k, hk, rfl⟩ := List.getElem_of_mem hv
  exact ((hf.feasible k _ (List.getElem?_eq_getElem hk) i).mp hi).1

theorem vehicles_ne_nil : p.trucks.vehicles ≠ [] := by
  obtain ⟨first, rest, -, hf⟩ := hb.fleet
  intro h
  have := hf.made.length
  rw [h] at this
  simp at this

theorem mem_getUnusedTrucks {v : Vehicle} (hv : v ∈ (userFleet M date optimize p).1.getUnusedTrucks) :
    v.isPhony = false ∧ ∃ (k : ℕ) (u : Vehicle), p.trucks.vehicles[k]? = some u ∧
      (userFleet M date optimize p).1.vehicles[k]? = some v ∧ u.isOk = true ∧
      Served M p date optimize u v := by
  obtain ⟨hv, hreal⟩ := List.mem_filter.mp hv
  obtain ⟨k, hk, rfl⟩ := List.mem_map.mp hv
  obtain ⟨first, rest, -, hf⟩ := hb.fleet
  obtain ⟨u, hu, hok⟩ := (hf.unused k).mp hk
  have h := served_userFleet hb date optimize
  obtain ⟨hlt, rfl⟩ := List.getElem?_eq_some_iff.mp hu
  have hlt' : k < (userFleet M date optimize p).1.vehicles.length := h.length_eq ▸ hlt
  rw [Fleet.vehicle_eq_getElem hlt'] at hreal ⊢
  exact ⟨by simpa using hreal, k, _, hu, List.getElem?_eq_getElem hlt', hok, h.get hlt hlt'⟩

/-- The last truck is the phony one. -/
theorem made_phony {u : Vehicle} (hu : p.trucks.vehicles.getLast? = some u) :
    ∃ first rest, S.sort vehicleLt pVehicles = first :: rest ∧
      Made M newStops (sortedOrders S pOrders) (2 * pOrders.length) u (p.trucks.size - 1)
        (Fleet.phonyVehicle first) := by
  obtain ⟨first, rest, hsort, hf⟩ := hb.fleet
  refine ⟨first, rest, hsort, hf.made.made _ u _ (by rwa [List.getLast?_eq_getElem?] at hu) ?_⟩
  have hlen := hf.made.length
  rw [List.length_append, List.length_singleton] at hlen
  unfold Fleet.size
  rw [hlen, Nat.add_sub_cancel, List.getElem?_append_right le_rfl, Nat.sub_self]
  rfl

/-- Without stops for its identifier, the phony truck has none. -/
theorem stops_phony (hn : NoPhonyStops newStops) {u : Vehicle}
    (hu : p.trucks.vehicles.getLast? = some u) : u.stops = [] := by
  obtain ⟨first, rest, -, n, -, hm⟩ := made_phony hb hu
  have h : u.stops = Fleet.stopsFor newStops (Fleet.phonyVehicle first) := by rw [hm]; rfl
  rw [h, hn.stopsFor]

variable (date optimize) in
/-- Then the phony truck stays as it is. -/
theorem getPhony_userFleet (hn : NoPhonyStops newStops) :
    p.trucks.vehicles.getLast? = some p.trucks.getPhony ∧
      (userFleet M date optimize p).1.getPhony = p.trucks.getPhony := by
  have hlast : p.trucks.vehicles.getLast? = some p.trucks.getPhony := by
    unfold Fleet.getPhony
    rw [List.getLastD_eq_getLast?, List.getLast?_eq_some_getLast (vehicles_ne_nil hb)]
    rfl
  obtain ⟨sets', h⟩ := setInitialSolutions_getLast? M p.orders date optimize
    p.trucks.vehicles ⟨.empty, p.trucks.feasibleOrders⟩
  refine ⟨hlast, ?_⟩
  change (Fleet.setInitialSolutions M p.orders date optimize p.trucks.vehicles
    ⟨.empty, p.trucks.feasibleOrders⟩).1.getLastD default = _
  rw [List.getLastD_eq_getLast?, h, hlast]
  simp [Vehicle.setInitialSolution, stops_phony hb hn hlast]

variable (date optimize) in
theorem served_getPhony : ∃ u, p.trucks.vehicles.getLast? = some u ∧
    Served M p date optimize u (userFleet M date optimize p).1.getPhony := by
  have h := served_userFleet hb date optimize
  have hne : (userFleet M date optimize p).1.vehicles ≠ [] := fun h0 =>
    vehicles_ne_nil hb (List.length_eq_zero_iff.mp (h.length_eq.trans (by rw [h0]; rfl)))
  have hg : (userFleet M date optimize p).1.vehicles.getLast? =
      some (userFleet M date optimize p).1.getPhony := by
    unfold Fleet.getPhony
    rw [List.getLastD_eq_getLast?, List.getLast?_eq_some_getLast hne]
    rfl
  rw [List.getLast?_eq_getElem?, ← h.length_eq] at hg
  obtain ⟨u, hu, hs⟩ := served_getElem? hb hg
  exact ⟨u, by rw [List.getLast?_eq_getElem?, hu], hs⟩

/-- Every vehicle of the constructed fleet is a usable real truck with the user's solution, or a
copy of the phony truck with one more order. -/
theorem mem_construct_fleet (h : construct M date optimize p = .ok s) : ∀ v ∈ s.fleet,
    (v.isPhony = false ∧ ∃ u ∈ p.trucks.vehicles, u.isOk = true ∧ Served M p date optimize u v) ∨
    ∃ u w, p.trucks.vehicles.getLast? = some u ∧ Served M p date optimize u w ∧
      ∃ o ∈ placedOrders M date optimize p, v = w.pushBack M (p.orders.get o) := by
  obtain ⟨first, rest, -, hf⟩ := hb.fleet
  obtain ⟨-, -, hfleet⟩ := construct_fleet h hf.used
  intro v hv
  rw [hfleet] at hv
  rcases List.mem_append.mp hv with hv | hv
  · obtain ⟨hreal, k, u, hu, -, hok, hs⟩ := mem_getUnusedTrucks hb hv
    exact Or.inl ⟨hreal, u, List.mem_of_getElem? hu, hok, hs⟩
  · obtain ⟨o, ho, rfl⟩ := List.mem_map.mp hv
    obtain ⟨u, hu, hs⟩ := served_getPhony hb date optimize
    exact Or.inr ⟨u, _, hu, hs, o, ho, rfl⟩

/-- **The constructed solution is valid.** -/
theorem construct_valid (h : construct M date optimize p = .ok s) : s.toSolution.Valid := by
  obtain ⟨first, rest, -, hf⟩ := hb.fleet
  obtain ⟨horders, -, -⟩ := construct_fleet h hf.used
  refine ⟨horders ▸ hb.wellFormed, fun v hv => ?_⟩
  rw [horders]
  rcases mem_construct_fleet hb h v hv with ⟨-, u, -, -, sets, r, rfl, hr⟩ |
    ⟨u, w, -, ⟨sets, r, rfl, hr⟩, o, ho, rfl⟩
  · exact hr.route
  · have hlt := placed_lt hb date optimize o ho
    exact hr.route.inserted hlt hb.wellFormed (pushBack_spec hr.route.route (hb.wellFormed.typed o hlt))

theorem construct_held (h : construct M date optimize p = .ok s) :
    ∀ v ∈ s.fleet, Held s.orders v := by
  obtain ⟨first, rest, -, hf⟩ := hb.fleet
  obtain ⟨horders, -, -⟩ := construct_fleet h hf.used
  intro v hv
  rw [horders]
  rcases mem_construct_fleet hb h v hv with ⟨-, u, hu, -, sets, r, rfl, hr⟩ |
    ⟨u, w, hu, ⟨sets, r, rfl, hr⟩, o, ho, rfl⟩
  · exact hr.held hb.wellFormed (hb.fresh u hu)
  · have hlt := placed_lt hb date optimize o ho
    exact (pushBack_spec hr.route.route (hb.wellFormed.typed o hlt)).held hb.wellFormed hlt
      (hr.held hb.wellFormed (hb.fresh u (List.mem_of_getLast? hu)))

end Members

end Initialsol.Tabu.InitialSolution

end VrpRouting
