import Mathlib.Data.List.GetD
import VrpRouting.Problem.Solution
import VrpRouting.Problem.Visits

/-! # Problems as they are built

What `PickDeliver.build` guarantees: the orders are well formed (`build_wellFormed`), and every
vehicle is the one that its description gives (`Made`), with an empty route between its two sites,
whose nodes are not nodes of orders. -/

open Sorting

namespace VrpRouting

/-! ### The orders -/

/-- What an order is, without the compatibility tables. -/
def Order.nodes (o : Order) : ℕ × ℤ × VehicleNode × VehicleNode := (o.idx, o.id, o.pickup, o.delivery)

section Nodes
variable {M : Matrix} {v : Vehicle} {o o' : Order} (h : o.nodes = o'.nodes)
include h

theorem Order.exists_eq_of_nodes :
    ∃ J I, o' = { o with compatibleJ := J, compatibleI := I } := by
  obtain ⟨idx, id, p, d, J, I⟩ := o
  obtain ⟨idx', id', p', d', J', I'⟩ := o'
  simp only [Order.nodes, Prod.mk.injEq] at h
  obtain ⟨rfl, rfl, rfl, rfl⟩ := h
  exact ⟨J', I', rfl⟩

theorem eraseOrder_of_nodes : v.eraseOrder M o' = v.eraseOrder M o := by
  obtain ⟨J, I, rfl⟩ := Order.exists_eq_of_nodes h
  rfl

theorem hasOrder_of_nodes : v.hasOrder o' = v.hasOrder o := by
  obtain ⟨J, I, rfl⟩ := Order.exists_eq_of_nodes h
  rfl

end Nodes

/-- The orders are the same up to the compatibility tables. -/
def SameNodes (orders orders' : Orders) : Prop := orders.map Order.nodes = orders'.map Order.nodes

theorem SameNodes.length {orders orders' : Orders} (h : SameNodes orders orders') :
    orders.length = orders'.length := by simpa using congrArg List.length h

theorem SameNodes.get {orders orders' : Orders} (h : SameNodes orders orders') (i : ℕ) :
    (orders.get i).nodes = (orders'.get i).nodes := by
  have hm : ∀ l : Orders, (l.get i).nodes = (l.map Order.nodes).getD i (default : Order).nodes :=
    fun l => by
      unfold Orders.get
      rw [List.getD_eq_getElem?_getD, List.getD_eq_getElem?_getD, List.getElem?_map]
      cases l[i]? <;> rfl
  rw [hm, hm, h]

theorem SameNodes.idx {orders orders' : Orders} (h : SameNodes orders orders') (i : ℕ) :
    (orders.get i).idx = (orders'.get i).idx := congrArg (fun n => n.1) (h.get i)

theorem SameNodes.id {orders orders' : Orders} (h : SameNodes orders orders') (i : ℕ) :
    (orders.get i).id = (orders'.get i).id := congrArg (fun n => n.2.1) (h.get i)

theorem SameNodes.pickup {orders orders' : Orders} (h : SameNodes orders orders') (i : ℕ) :
    (orders.get i).pickup = (orders'.get i).pickup := congrArg (fun n => n.2.2.1) (h.get i)

theorem SameNodes.delivery {orders orders' : Orders} (h : SameNodes orders orders') (i : ℕ) :
    (orders.get i).delivery = (orders'.get i).delivery := congrArg (fun n => n.2.2.2) (h.get i)

theorem Orders.WellFormed.of_sameNodes {orders orders' : Orders} (h : orders.WellFormed)
    (hs : SameNodes orders orders') : orders'.WellFormed where
  idx i hi := by rw [← hs.idx]; exact h.idx i (hs.length ▸ hi)
  typed i hi := by
    have ht := h.typed i (hs.length ▸ hi)
    exact ⟨by rw [← hs.pickup]; exact ht.pickup, by rw [← hs.delivery]; exact ht.delivery⟩
  pickup_ne_delivery i hi j hj := by
    rw [← hs.pickup, ← hs.delivery]
    exact h.pickup_ne_delivery i (hs.length ▸ hi) j (hs.length ▸ hj)
  pickup_inj i hi j hj := by
    rw [← hs.pickup, ← hs.pickup]
    exact h.pickup_inj i (hs.length ▸ hi) j (hs.length ▸ hj)
  delivery_inj i hi j hj := by
    rw [← hs.delivery, ← hs.delivery]
    exact h.delivery_inj i (hs.length ▸ hi) j (hs.length ▸ hj)

@[simp] theorem Order.nodes_setCompatibles (M : Matrix) (I J : Order) (speed : ℚ) :
    (I.setCompatibles M J speed).nodes = I.nodes := by
  unfold Order.setCompatibles
  split_ifs <;> rfl

theorem Orders.sameNodes_setCompatibles (M : Matrix) (orders : Orders) (speed : ℚ) :
    SameNodes orders (orders.setCompatibles M speed) := by
  have hfold : ∀ (Js : List Order) (I : Order),
      (Js.foldl (fun I J => I.setCompatibles M J speed) I).nodes = I.nodes := fun Js => by
    induction Js with
    | nil => exact fun _ => rfl
    | cons J Js ih => exact fun I => (ih _).trans (I.nodes_setCompatibles M J speed)
  unfold SameNodes Orders.setCompatibles
  rw [List.map_map]
  exact List.map_congr_left fun I _ => (hfold orders I).symm

@[simp] theorem Orders.length_ofData (data : List OrdersT) :
    (Orders.ofData data).length = data.length := by
  simp [Orders.ofData]

theorem Orders.get_ofData {data : List OrdersT} {i : ℕ} (hi : i < data.length) :
    (Orders.ofData data).get i = Order.ofNodes i data[i].id
      (.ofTwNode (.ofOrder (2 * i) data[i] .kPickup))
      (.ofTwNode (.ofOrder (2 * i + 1) data[i] .kDelivery)) := by
  unfold Orders.get Orders.ofData
  rw [List.getD_eq_getElem _ _ (by simpa using hi), List.getElem_mapIdx]

theorem Orders.ofData_wellFormed (data : List OrdersT) : (Orders.ofData data).WellFormed := by
  have hp : ∀ i < (Orders.ofData data).length, ((Orders.ofData data).get i).pickup.idx = 2 * i :=
    fun i hi => by rw [Orders.get_ofData (by simpa using hi)]; rfl
  have hd : ∀ i < (Orders.ofData data).length,
      ((Orders.ofData data).get i).delivery.idx = 2 * i + 1 :=
    fun i hi => by rw [Orders.get_ofData (by simpa using hi)]; rfl
  refine ⟨fun i hi => ?_, fun i hi => ?_, fun i hi j hj => ?_, fun i hi j hj h => ?_,
    fun i hi j hj h => ?_⟩
  · rw [Orders.get_ofData (by simpa using hi)]; rfl
  · rw [Orders.get_ofData (by simpa using hi)]; exact ⟨rfl, rfl⟩
  · rw [hp i hi, hd j hj]; omega
  · rw [hp i hi, hp j hj] at h; omega
  · rw [hd i hi, hd j hj] at h; omega

/-! ### The vehicles -/

/-- The windows that `add_vehicle` accepts. -/
def VehicleT.Legal (v : VehicleT) : Prop := v.startOpenT ≤ v.startCloseT ∧ v.endOpenT ≤ v.endCloseT

/-- The descriptions, each as often as there are vehicles with it. -/
def copies (vehicles : List VehicleT) : List VehicleT :=
  vehicles.flatMap fun v => List.replicate v.cantV v

section Vehicles
variable (M : Matrix) (newStops : List ShortVehicle) (orders : Orders) (nodes : ℕ)

/-- The vehicle number `k` of the description, with the sites `nodeId` and `nodeId + 1`. -/
def ofDescription (k nodeId : ℕ) (vehicle : VehicleT) : Vehicle :=
  .construct M k vehicle.id (.ofTwNode (.ofVehicle nodeId vehicle .kStart))
    (.ofTwNode (.ofVehicle (nodeId + 1) vehicle .kEnd)) (Fleet.stopsFor newStops vehicle)
    vehicle.capacity vehicle.speed orders

/-- `v` is the vehicle number `k` of the description, with any set of feasible orders; its sites are
no nodes below `nodes`. -/
def Made (v : Vehicle) (k : ℕ) (vehicle : VehicleT) : Prop :=
  ∃ nodeId, nodes ≤ nodeId ∧
    v = { ofDescription M newStops orders k nodeId vehicle with feasibleOrders := v.feasibleOrders }

/-- No order was tested yet. -/
def Untested (vs : List Vehicle) : Prop := ∀ v ∈ vs, v.feasibleOrders = .empty

/-- The vehicles `vs` are those of the descriptions `ds`, in this order. -/
structure MadeFrom (vs : List Vehicle) (ds : List VehicleT) : Prop where
  length : vs.length = ds.length
  made : ∀ k v d, vs[k]? = some v → ds[k]? = some d → Made M newStops orders nodes v k d

end Vehicles

section Build
variable {M : Matrix} {newStops : List ShortVehicle} {orders : Orders} {nodes : ℕ}
  {vs : List Vehicle} {ds : List VehicleT}

theorem MadeFrom.exists_description (h : MadeFrom M newStops orders nodes vs ds) {k : ℕ}
    {v : Vehicle} (hv : vs[k]? = some v) :
    ∃ d, ds[k]? = some d ∧ Made M newStops orders nodes v k d := by
  have hk : k < ds.length := h.length ▸ (List.getElem?_eq_some_iff.mp hv).1
  exact ⟨ds[k], List.getElem?_eq_getElem hk, h.made k v _ hv (List.getElem?_eq_getElem hk)⟩

theorem MadeFrom.addVehicle (h : MadeFrom M newStops orders nodes vs ds) {n : ℕ} (hn : nodes ≤ n)
    {d : VehicleT} {s : List Vehicle × ℕ}
    (hs : Fleet.addVehicle M newStops orders (vs, n) d = .ok s) :
    d.Legal ∧ MadeFrom M newStops orders nodes s.1 (ds ++ List.replicate d.cantV d) ∧ nodes ≤ s.2 ∧
      (Untested vs → Untested s.1) := by
  unfold Fleet.addVehicle at hs
  split_ifs at hs with hc
  obtain rfl := Except.ok.inj hs
  refine ⟨⟨by omega, by omega⟩, ⟨by simp [h.length], fun k v e hv he => ?_⟩, by dsimp only; omega,
    fun hu v hv => ?_⟩
  swap
  · rcases List.mem_append.mp hv with hv | hv
    · exact hu v hv
    · obtain ⟨i, -, rfl⟩ := List.mem_map.mp hv
      rfl
  dsimp only at hv
  by_cases hk : k < vs.length
  · rw [List.getElem?_append_left hk] at hv
    rw [List.getElem?_append_left (h.length ▸ hk)] at he
    exact h.made k v e hv he
  · rw [List.getElem?_append_right (by omega), List.getElem?_map, Option.map_eq_some_iff] at hv
    rw [List.getElem?_append_right (by rw [← h.length]; omega)] at he
    obtain ⟨i, hi, rfl⟩ := hv
    obtain rfl : d = e := (List.mem_replicate.mp (List.mem_of_getElem? he)).2.symm
    obtain ⟨_, hj⟩ := List.getElem?_eq_some_iff.mp hi
    rw [List.getElem_range] at hj
    subst hj
    refine ⟨n, hn, ?_⟩
    rw [show vs.length + (k - vs.length) = k by omega]
    rfl

theorem MadeFrom.addVehicles {s : List Vehicle × ℕ} : ∀ (l : List VehicleT) {vs : List Vehicle}
    {ds : List VehicleT} {n : ℕ}, MadeFrom M newStops orders nodes vs ds → nodes ≤ n →
    l.foldlM (Fleet.addVehicle M newStops orders) (vs, n) = .ok s →
    (∀ d ∈ l, d.Legal) ∧ MadeFrom M newStops orders nodes s.1 (ds ++ copies l) ∧ nodes ≤ s.2 ∧
      (Untested vs → Untested s.1)
  | [], vs, ds, n, h, hn, hs => by
    obtain rfl := Except.ok.inj hs
    exact ⟨by simp, by simpa [copies] using h, hn, id⟩
  | d :: l, vs, ds, n, h, hn, hs => by
    rw [List.foldlM_cons] at hs
    cases ha : Fleet.addVehicle M newStops orders (vs, n) d with
    | error e => rw [ha] at hs; cases hs
    | ok t =>
      rw [ha] at hs
      obtain ⟨hd, h1, hn1, hu1⟩ := h.addVehicle hn ha
      obtain ⟨hl, h2, hn2, hu2⟩ := MadeFrom.addVehicles l h1 hn1 hs
      refine ⟨List.forall_mem_cons.mpr ⟨hd, hl⟩, ?_, hn2, hu2 ∘ hu1⟩
      have hc : copies (d :: l) = List.replicate d.cantV d ++ copies l := List.flatMap_cons ..
      rwa [hc, ← List.append_assoc]

/-! ### The feasible orders -/

/-- The order passes the tests of `set_compatibles` on a vehicle that is not the phony one. -/
def Vehicle.accepts (M : Matrix) (v : Vehicle) (o : Order) : Bool :=
  !decide (v.back.closes < o.pickup.opens) && !decide (o.delivery.closes < v.front.opens) &&
    v.isOrderFeasible M o

/-- The tests of `v` at position `k` of `len` vehicles; the last one is tested twice. -/
def Vehicle.takes (M : Matrix) (len k : ℕ) (v : Vehicle) (o : Order) : Bool :=
  v.accepts M o || (decide (k = len - 1) && v.isOrderFeasible M o)

theorem isOrderFeasible_feasibleOrders (v : Vehicle) (o : Order) (F : Identifiers ℕ) :
    ({ v with feasibleOrders := F } : Vehicle).isOrderFeasible M o = v.isOrderFeasible M o := rfl

theorem takes_feasibleOrders (len k : ℕ) (v : Vehicle) (o : Order) (F : Identifiers ℕ) :
    ({ v with feasibleOrders := F } : Vehicle).takes M len k o = v.takes M len k o := rfl

theorem testVehicle_eq (o : Order) (v : Vehicle) : Fleet.testVehicle M o v =
    { v with feasibleOrders :=
      if v.accepts M o then v.feasibleOrders.insert o.idx else v.feasibleOrders } := by
  unfold Fleet.testVehicle Fleet.testOrder Vehicle.accepts
  by_cases h1 : v.back.closes < o.pickup.opens
  · simp [h1]
  · by_cases h2 : o.delivery.closes < v.front.opens
    · simp [h1, h2]
    · cases hf : v.isOrderFeasible M o <;> simp [h1, h2]

/-- One pass of `set_compatibles` on the vehicle at position `k`. -/
theorem getElem?_setCompatible (vs : List Vehicle) (o : Order) (k : ℕ) :
    ∃ F : Vehicle → Identifiers ℕ,
      (Fleet.setCompatible M vs o)[k]? = vs[k]?.map (fun v => { v with feasibleOrders := F v }) ∧
      ∀ v i, i ∈ F v ↔ i ∈ v.feasibleOrders ∨ (i = o.idx ∧ v.takes M vs.length k o = true) := by
  by_cases hk : k = vs.length - 1
  · refine ⟨fun v => (Fleet.testOrder M o (Fleet.testVehicle M o v)).feasibleOrders, ?_,
      fun v i => ?_⟩
    · unfold Fleet.setCompatible
      rw [List.getElem?_modify, List.getElem?_map]
      simp only [hk.symm, if_true, Option.map_eq_map, Option.map_map]
      congr 1
      funext v
      rw [Function.comp, testVehicle_eq]
      unfold Fleet.testOrder
      split_ifs <;> rfl
    · dsimp only
      rw [testVehicle_eq]
      unfold Fleet.testOrder Vehicle.takes
      rw [isOrderFeasible_feasibleOrders]
      cases ha : v.accepts M o <;> cases hf : v.isOrderFeasible M o <;>
        simp [hk, Identifiers.mem_insert] <;> tauto
  · refine ⟨fun v => (Fleet.testVehicle M o v).feasibleOrders, ?_, fun v i => ?_⟩
    · unfold Fleet.setCompatible
      rw [List.getElem?_modify, List.getElem?_map]
      simp only [Ne.symm hk, if_false, Option.map_eq_map, Option.map_map]
      congr 1
      funext v
      rw [Function.comp, testVehicle_eq]
    · dsimp only
      rw [testVehicle_eq]
      unfold Vehicle.takes
      cases ha : v.accepts M o <;> simp [hk, Identifiers.mem_insert, or_comm]

/-- `set_compatibles` changes the sets of feasible orders only: an order gets into the set of every
vehicle that takes it. -/
theorem getElem?_setCompatibles (k : ℕ) : ∀ (os : List Order) (vs : List Vehicle),
    ∃ F : Vehicle → Identifiers ℕ,
      (os.foldl (Fleet.setCompatible M) vs)[k]? =
        vs[k]?.map (fun v => { v with feasibleOrders := F v }) ∧
      ∀ v i, i ∈ F v ↔ i ∈ v.feasibleOrders ∨ ∃ o ∈ os, i = o.idx ∧ v.takes M vs.length k o = true
  | [], vs => ⟨Vehicle.feasibleOrders, by simp, by simp⟩
  | o :: os, vs => by
    obtain ⟨F, hF, hmem⟩ := getElem?_setCompatible (M := M) vs o k
    obtain ⟨G, hG, hmem'⟩ := getElem?_setCompatibles k os (Fleet.setCompatible M vs o)
    have hlen : (Fleet.setCompatible M vs o).length = vs.length := by simp [Fleet.setCompatible]
    refine ⟨fun v => G { v with feasibleOrders := F v }, ?_, fun v i => ?_⟩
    · rw [List.foldl_cons, hG, hF, Option.map_map]
      rfl
    · rw [hmem', hlen]
      simp only [takes_feasibleOrders, hmem, List.exists_mem_cons_iff]
      tauto

theorem length_setCompatibles (os : List Order) (vs : List Vehicle) :
    (os.foldl (Fleet.setCompatible M) vs).length = vs.length := by
  induction os generalizing vs with
  | nil => rfl
  | cons o os ih => rw [List.foldl_cons, ih]; simp [Fleet.setCompatible]

theorem Fleet.mem_feasibleOrders {f : Fleet} {i : ℕ} :
    i ∈ f.feasibleOrders ↔ ∃ v ∈ f.vehicles, i ∈ v.feasibleOrders := by
  have h : ∀ (vs : List Vehicle) (s : Identifiers ℕ),
      i ∈ vs.foldl (fun i v => v.feasibleOrders.union i) s ↔
        i ∈ s ∨ ∃ v ∈ vs, i ∈ v.feasibleOrders := by
    intro vs
    induction vs with
    | nil => simp
    | cons v vs ih =>
      intro s
      rw [List.foldl_cons, ih, Identifiers.mem_union]
      simp only [List.exists_mem_cons_iff]
      tauto
  unfold Fleet.feasibleOrders
  rw [h]
  simp

/-- The loop of `clean`. -/
theorem clean_spec (vs : List Vehicle) (f : Fleet) :
    let f' := vs.foldl (fun f v =>
      if v.isOk then f
      else { f with invalid := f.invalid.insert v.idx, unused := f.unused.erase v.idx }) f
    f'.vehicles = f.vehicles ∧ f'.used = f.used ∧
      ∀ i, i ∈ f'.unused ↔ i ∈ f.unused ∧ ∀ v ∈ vs, v.idx = i → v.isOk = true := by
  induction vs generalizing f with
  | nil => simp
  | cons v vs ih =>
    rw [List.foldl_cons]
    obtain ⟨h1, h2, h3⟩ := ih (if v.isOk then f
      else { f with invalid := f.invalid.insert v.idx, unused := f.unused.erase v.idx })
    refine ⟨h1.trans (by split_ifs <;> rfl), h2.trans (by split_ifs <;> rfl), fun i => ?_⟩
    rw [h3, List.forall_mem_cons]
    cases hv : v.isOk
    · simp only [Bool.false_eq_true, if_false, Identifiers.mem_erase, imp_false, and_assoc,
        ne_comm (a := i), ne_eq]
    · simp

/-- What `build_fleet` builds. -/
theorem Fleet.build_made {S : Sorter} {pVehicles : List VehicleT} {f : Fleet}
    (h : Fleet.build M newStops orders S pVehicles nodes = .ok f) :
    (∀ d ∈ pVehicles, d.Legal) ∧ (Untested f.vehicles ∧ f.used = .empty ∧ f.unused = .upTo f.size) ∧
    ∃ first rest, S.sort vehicleLt pVehicles = first :: rest ∧
      MadeFrom M newStops orders nodes f.vehicles
        (copies (first :: rest) ++ [Fleet.phonyVehicle first]) := by
  unfold Fleet.build at h
  dsimp only at h
  obtain ⟨s, hs, h⟩ := bind_eq_ok h
  have h0 : MadeFrom M newStops orders nodes [] [] := ⟨rfl, fun k v d hv => by simp at hv⟩
  obtain ⟨hlegal, h1, hn1, hu1⟩ := h0.addVehicles _ le_rfl hs
  have hlegal' : ∀ d ∈ pVehicles, d.Legal := fun d hd => hlegal d ((S.mem_sort _).mpr hd)
  cases hsort : S.sort vehicleLt pVehicles with
  | nil => rw [hsort] at h; cases h
  | cons first rest =>
    rw [hsort] at h h1
    obtain ⟨t, hp, h⟩ := bind_eq_ok h
    obtain rfl := Except.ok.inj h
    obtain ⟨-, h2, -, hu2⟩ := h1.addVehicle hn1 hp
    have huntested : Untested t.1 := hu2 (hu1 fun v hv => absurd hv List.not_mem_nil)
    exact ⟨hlegal', ⟨huntested, rfl, rfl⟩, first, rest, rfl, h2⟩

end Build

/-! ### The problem -/

/-- The fleet of the descriptions `ds`, tested with the orders `tested`. -/
structure Fleet.Built (M : Matrix) (newStops : List ShortVehicle) (orders : Orders) (nodes : ℕ)
    (ds : List VehicleT) (tested : Orders) (f : Fleet) : Prop where
  made : MadeFrom M newStops orders nodes f.vehicles ds
  used : f.used = .empty
  unused : ∀ i, i ∈ f.unused ↔ ∃ v, f.vehicles[i]? = some v ∧ v.isOk = true
  feasible : ∀ k (v : Vehicle), f.vehicles[k]? = some v → ∀ i, i ∈ v.feasibleOrders ↔
    i < tested.length ∧ v.takes M f.size k (tested.get i) = true

section Prepared
variable {M : Matrix} {newStops : List ShortVehicle} {orders : Orders} {nodes : ℕ}
  {ds : List VehicleT}

theorem MadeFrom.idx {vs : List Vehicle} (h : MadeFrom M newStops orders nodes vs ds) {k : ℕ}
    {v : Vehicle} (hv : vs[k]? = some v) : v.idx = k := by
  obtain ⟨d, -, n, -, hm⟩ := h.exists_description hv
  rw [hm]
  rfl

theorem exists_get_iff {os : Orders} (h : os.WellFormed) {p : Order → Prop} {i : ℕ} :
    (∃ o ∈ os, i = o.idx ∧ p o) ↔ i < os.length ∧ p (os.get i) := by
  constructor
  · rintro ⟨o, ho, rfl, hp⟩
    obtain ⟨j, hj, rfl⟩ := List.getElem_of_mem ho
    rw [← Orders.get_eq_getElem hj] at hp ⊢
    rw [h.idx j hj]
    exact ⟨hj, hp⟩
  · rintro ⟨hi, hp⟩
    exact ⟨os.get i, Orders.get_mem hi, (h.idx i hi).symm, hp⟩

/-- The fleet after `clean` and `set_compatibles`. -/
theorem MadeFrom.built {f : Fleet} {tested : Orders} (ht : tested.WellFormed)
    (hm : MadeFrom M newStops orders nodes f.vehicles ds) (hempty : Untested f.vehicles)
    (hused : f.used = .empty) (hunused : f.unused = .upTo f.size) :
    (f.clean.setCompatibles M tested).Built M newStops orders nodes ds tested := by
  obtain ⟨hc1, hc2, hc3⟩ := clean_spec f.vehicles f
  change f.clean.vehicles = f.vehicles at hc1
  change f.clean.used = f.used at hc2
  have hget := fun k => getElem?_setCompatibles (M := M) k tested f.vehicles
  have hvs : (f.clean.setCompatibles M tested).vehicles =
      tested.foldl (Fleet.setCompatible M) f.vehicles := by
    unfold Fleet.setCompatibles
    rw [hc1]
  have hsize : (f.clean.setCompatibles M tested).size = f.vehicles.length := by
    unfold Fleet.size
    rw [hvs, length_setCompatibles]
  have hvehicle : ∀ (k : ℕ) (v : Vehicle), (f.clean.setCompatibles M tested).vehicles[k]? = some v →
      ∃ u : Vehicle, f.vehicles[k]? = some u ∧ v = { u with feasibleOrders := v.feasibleOrders } := by
    intro k v hv
    obtain ⟨F, hF, -⟩ := hget k
    rw [hvs, hF, Option.map_eq_some_iff] at hv
    obtain ⟨u, hu, rfl⟩ := hv
    exact ⟨u, hu, rfl⟩
  refine ⟨⟨by rw [hvs, length_setCompatibles]; exact hm.length, fun k v d hv hd => ?_⟩,
    hc2.trans hused, fun i => (hc3 i).trans ⟨?_, ?_⟩, fun k v hv i => ?_⟩
  · obtain ⟨u, hu, hvu⟩ := hvehicle k v hv
    obtain ⟨n, hn, hmk⟩ := hm.made k u d hu hd
    refine ⟨n, hn, ?_⟩
    rw [hvu, hmk]
  · rintro ⟨hi, hok⟩
    rw [hunused, Identifiers.mem_upTo] at hi
    have hi' : i < (f.clean.setCompatibles M tested).vehicles.length := lt_of_lt_of_eq hi hsize.symm
    obtain ⟨u, hu, hvu⟩ := hvehicle i _ (List.getElem?_eq_getElem hi')
    refine ⟨_, List.getElem?_eq_getElem hi', ?_⟩
    rw [hvu]
    exact hok u (List.mem_of_getElem? hu) (hm.idx hu)
  · rintro ⟨v, hv, hok⟩
    obtain ⟨u, hu, hvu⟩ := hvehicle i v hv
    obtain ⟨hi, rfl⟩ := List.getElem?_eq_some_iff.mp hu
    rw [hunused, Identifiers.mem_upTo]
    refine ⟨hi, fun w hw hidx => ?_⟩
    obtain ⟨j, hj, rfl⟩ := List.getElem_of_mem hw
    obtain rfl : j = i := (hm.idx (List.getElem?_eq_getElem hj)).symm.trans hidx
    rw [hvu] at hok
    exact hok
  · obtain ⟨F, hF, hmem⟩ := hget k
    rw [hvs, hF, Option.map_eq_some_iff] at hv
    obtain ⟨u, hu, rfl⟩ := hv
    rw [hsize]
    dsimp only
    rw [hmem, takes_feasibleOrders, hempty u (List.mem_of_getElem? hu), exists_get_iff ht]
    simp

end Prepared

/-- The orders of a problem before the compatibility tables are set. -/
def sortedOrders (S : Sorter) (pOrders : List OrdersT) : Orders :=
  .ofData (S.sort ordersLt pOrders)

structure PickDeliver.Built (S : Sorter) (M : Matrix) (pOrders : List OrdersT)
    (pVehicles : List VehicleT) (newStops : List ShortVehicle) (p : PickDeliver) : Prop where
  orders : SameNodes (sortedOrders S pOrders) p.orders
  legal : ∀ d ∈ pVehicles, d.Legal
  fleet : ∃ first rest, S.sort vehicleLt pVehicles = first :: rest ∧
    p.trucks.Built M newStops (sortedOrders S pOrders) (2 * pOrders.length)
      (copies (first :: rest) ++ [Fleet.phonyVehicle first]) p.orders

/-- **What a problem is built from.** -/
theorem PickDeliver.build_built {S : Sorter} {M : Matrix} {pOrders : List OrdersT}
    {pVehicles : List VehicleT} {newStops : List ShortVehicle} {p : PickDeliver}
    (h : PickDeliver.build S M pOrders pVehicles newStops = .ok p) :
    p.Built S M pOrders pVehicles newStops := by
  have hlen : (sortedOrders S pOrders).length = pOrders.length := by
    rw [sortedOrders, Orders.length_ofData, S.length_sort]
  have hsame := Orders.sameNodes_setCompatibles M (sortedOrders S pOrders) 1
  unfold PickDeliver.build at h
  change (Fleet.build M newStops (sortedOrders S pOrders) S pVehicles
    (2 * (sortedOrders S pOrders).length) >>= _) = _ at h
  rw [hlen] at h
  obtain ⟨f, hf, h⟩ := bind_eq_ok h
  obtain rfl := Except.ok.inj h
  obtain ⟨hlegal, ⟨hempty, hused, hunused⟩, first, rest, hsort, hmade⟩ := Fleet.build_made hf
  exact ⟨hsame, hlegal, first, rest, hsort,
    hmade.built ((Orders.ofData_wellFormed _).of_sameNodes hsame) hempty hused hunused⟩

namespace PickDeliver.Built

variable {S : Sorter} {M : Matrix} {pOrders : List OrdersT} {pVehicles : List VehicleT}
  {newStops : List ShortVehicle} {p : PickDeliver} (h : p.Built S M pOrders pVehicles newStops)
include h

theorem wellFormed : p.orders.WellFormed := (Orders.ofData_wellFormed _).of_sameNodes h.orders

theorem length : p.orders.length = pOrders.length := by
  rw [← h.orders.length, sortedOrders, Orders.length_ofData, S.length_sort]

/-- Every vehicle is made from a description of the data, or is the phony one. -/
theorem made_at {k : ℕ} {v : Vehicle} (hv : p.trucks.vehicles[k]? = some v) :
    ∃ d, Made M newStops (sortedOrders S pOrders) (2 * pOrders.length) v k d ∧
      ((d ∈ pVehicles ∧ 0 < d.cantV) ∨ ∃ first ∈ pVehicles, d = Fleet.phonyVehicle first) := by
  obtain ⟨first, rest, hsort, hf⟩ := h.fleet
  have hmem : ∀ d ∈ first :: rest, d ∈ pVehicles := fun d hd => (S.mem_sort _).mp (hsort ▸ hd)
  obtain ⟨d, hd, hm⟩ := hf.made.exists_description hv
  refine ⟨d, hm, ?_⟩
  rcases List.mem_append.mp (List.mem_of_getElem? hd) with hd | hd
  · obtain ⟨e, he, hde⟩ := List.mem_flatMap.mp hd
    obtain ⟨hne, rfl⟩ := List.mem_replicate.mp hde
    exact Or.inl ⟨hmem d he, Nat.pos_of_ne_zero hne⟩
  · exact Or.inr ⟨first, hmem first (by simp), List.mem_singleton.mp hd⟩

theorem exists_made {v : Vehicle} (hv : v ∈ p.trucks.vehicles) :
    ∃ k d, Made M newStops (sortedOrders S pOrders) (2 * pOrders.length) v k d ∧
      ((d ∈ pVehicles ∧ 0 < d.cantV) ∨ ∃ first ∈ pVehicles, d = Fleet.phonyVehicle first) := by
  obtain ⟨k, hk, rfl⟩ := List.getElem_of_mem hv
  exact ⟨k, h.made_at (List.getElem?_eq_getElem hk)⟩

/-- A vehicle can leave its starting site. -/
theorem front_opens {v : Vehicle} (hv : v ∈ p.trucks.vehicles) : v.front.opens ≤ v.front.closes := by
  obtain ⟨k, d, ⟨n, -, hmade⟩, hd⟩ := h.exists_made hv
  have hfront : v.front.toTwNode = .ofVehicle n d .kStart := by rw [hmade]; rfl
  rw [hfront]
  rcases hd with ⟨hd, -⟩ | ⟨first, -, rfl⟩
  · exact (h.legal d hd).1
  · exact show (0 : ℤ) ≤ infinity by decide

end PickDeliver.Built

/-- A solution of a problem: every vehicle of its fleet is a route of the problem. -/
structure Solution.Valid (s : Solution) : Prop where
  orders : s.orders.WellFormed
  fleet : ∀ v ∈ s.fleet, RouteOf s.orders v

end VrpRouting
