import VrpRouting.InitialSol.Tabu
import VrpRouting.Problem.Built

/-! # The stops given by the user

The loop over the stops of a vehicle appends a node in front of the ending site for each of them:
the pickup of the order at its first, third, … visit and the delivery at the other ones
(`alternate`). The invariant of the loop is `UserLoop`; it counts the visits of each order in the
stops that are done. -/

namespace VrpRouting

/-- The position of the order that a stop names. -/
def resolve (orders : Orders) (oId : ℤ) : Option ℕ :=
  (orders.find? fun o => decide (o.id = oId)).map Order.idx

/-- The orders that the stops name, as positions. -/
def stopIdxs (orders : Orders) (stops : List ℤ) : List ℕ := stops.filterMap (resolve orders)

/-- The node of the visit number `j` of an order. -/
def visitNode (o : Order) (j : ℕ) : TwNode :=
  if j % 2 = 0 then o.pickup.toTwNode else o.delivery.toTwNode

/-- The nodes of the first `c` visits of an order. -/
def alternate (o : Order) (c : ℕ) : List TwNode := (List.range c).map (visitNode o)

theorem alternate_succ (o : Order) (c : ℕ) : alternate o (c + 1) = alternate o c ++ [visitNode o c] := by
  simp [alternate, List.range_succ]

/-- The first visit is the pickup, the second one the delivery. -/
theorem eraseP_alternate {o : Order} {c : ℕ} (hc : 2 ≤ c) :
    ((alternate o c).eraseP (hasIdx o.pickup.idx)).eraseP (hasIdx o.delivery.idx) =
      (alternate o c).drop 2 := by
  obtain ⟨c, rfl⟩ := Nat.exists_eq_add_of_le' hc
  have h : alternate o (c + 2) = o.pickup.toTwNode :: o.delivery.toTwNode ::
      ((List.range c).map fun j => visitNode o (j + 2)) := by
    unfold alternate
    rw [List.range_succ_eq_map, List.range_succ_eq_map]
    simp only [List.map_cons, List.map_map]
    rfl
  rw [h, List.eraseP_cons_of_pos (by simp [hasIdx]), List.eraseP_cons_of_pos (by simp [hasIdx])]
  rfl

theorem stops_subset_alternate {o : Order} {c : ℕ} (hc : 2 ≤ c) : o.stops ⊆ alternate o c := by
  intro t ht
  rcases List.mem_pair.mp ht with rfl | rfl
  · exact List.mem_map.mpr ⟨0, List.mem_range.mpr (by omega), rfl⟩
  · exact List.mem_map.mpr ⟨1, List.mem_range.mpr (by omega), rfl⟩

theorem alternate_two (o : Order) : alternate o 2 = [o.pickup.toTwNode, o.delivery.toTwNode] := rfl

theorem isNodeOf_visitNode (o : Order) (j : ℕ) : isNodeOf o (visitNode o j) = true := by
  unfold visitNode
  split_ifs <;> simp [isNodeOf]

theorem isNodeOf_visitNode_other {orders : Orders} (ho : orders.WellFormed) {i j : ℕ}
    (hi : i < orders.length) (hj : j < orders.length) (hij : i ≠ j) (c : ℕ) :
    isNodeOf (orders.get i) (visitNode (orders.get j) c) = false := by
  unfold visitNode
  split_ifs
  · exact isNodeOf_pickup ho hi hj hij
  · exact isNodeOf_delivery ho hi hj hij

theorem resolve_eq_some {orders : Orders} (ho : orders.WellFormed) {oId : ℤ} {o : Order}
    (h : orders.find? (fun o => decide (o.id = oId)) = some o) :
    o.idx < orders.length ∧ orders.get o.idx = o ∧ o.id = oId := by
  have hid : o.id = oId := by simpa using List.find?_some h
  obtain ⟨j, hj, rfl⟩ := List.getElem_of_mem (List.mem_of_find?_eq_some h)
  have hget : orders.get j = orders[j] := Orders.get_eq_getElem hj
  have hidx : orders[j].idx = j := by rw [← hget]; exact ho.idx j hj
  rw [hidx]
  exact ⟨hj, hget, hid⟩

/-- No two orders have the same identifier. -/
def Orders.Distinct (orders : Orders) : Prop := ∀ i < orders.length, ∀ j < orders.length,
  (orders.get i).id = (orders.get j).id → i = j

section Resolve
variable {orders : Orders} (ho : orders.WellFormed)
include ho

theorem resolve_spec {oId : ℤ} {i : ℕ} (h : resolve orders oId = some i) : oId = (orders.get i).id := by
  obtain ⟨o, hf, rfl⟩ := Option.map_eq_some_iff.mp h
  obtain ⟨-, hget, hid⟩ := resolve_eq_some ho hf
  rw [hget, hid]

/-- A stop names the first order with its identifier. -/
theorem count_stopIdxs {i : ℕ} (hi : resolve orders (orders.get i).id = some i) (stops : List ℤ) :
    (stopIdxs orders stops).count i = stops.count (orders.get i).id := by
  unfold stopIdxs
  rw [List.count, List.countP_filterMap, List.count]
  refine List.countP_congr fun oId _ => ?_
  cases hr : resolve orders oId with
  | none =>
    have hne : oId ≠ (orders.get i).id := fun e => by rw [e, hi] at hr; cases hr
    simp [hne]
  | some j =>
    have hj := resolve_spec ho hr
    by_cases hji : j = i
    · subst hji
      simp [hj]
    · have hne : oId ≠ (orders.get i).id := fun e => by
        rw [e, hi] at hr
        exact hji (Option.some.inj hr).symm
      simp [hji, hne]

/-- The order of an identifier is found. -/
theorem resolve_id (hd : orders.Distinct) {i : ℕ} (hi : i < orders.length) :
    resolve orders (orders.get i).id = some i := by
  unfold resolve
  have hex : ∃ o ∈ orders, decide (o.id = (orders.get i).id) = true :=
    ⟨orders.get i, Orders.get_mem hi, by simp⟩
  obtain ⟨o, hf⟩ := Option.isSome_iff_exists.mp (List.find?_isSome.mpr hex)
  obtain ⟨hlt, hget, hid⟩ := resolve_eq_some ho hf
  rw [hf, Option.map_some, hd o.idx hlt i hi (by rw [hget, hid])]

end Resolve

/-- `insert` in front of the ending site. -/
theorem insert_last {M : Matrix} {v : Vehicle} {a b : TwNode} {mids : List TwNode} {x : VehicleNode}
    (hv : nodesOf v.path = a :: (mids ++ [b])) (hd : NoDump v.path) (hx : x.type ≠ .kDump) :
    nodesOf (v.insert M (mids.length + 1) x).path = a :: ((mids ++ [x.toTwNode]) ++ [b]) ∧
    (Settled M v.capacity v.speed 0 v.path →
      Settled M v.capacity v.speed 0 (v.insert M (mids.length + 1) x).path) := by
  have he := (Edited.refl (p := mids.length + 1) (M := M) hd).insert le_rfl le_rfl hx
    (mids.length + 3)
  refine ⟨?_, fun hs => he.settled_path ?_ hs⟩
  · rw [he.nodes, hv, List.insertIdx_succ_cons, ListEdit.insertIdx_append_of_le _ _ _ le_rfl,
      List.insertIdx_length_self]
  · rw [hv]
    refine (List.length_insertIdx_le_succ ..).trans (le_of_eq ?_)
    simp

/-- A vehicle of a problem before its stops are processed: an empty route between two sites. -/
structure Fresh (M : Matrix) (orders : Orders) (v : Vehicle) : Prop where
  route : RouteOf orders v
  empty : v.path.length = 2
  settled : Settled M v.capacity v.speed 0 v.path
  movable : v.ordersInVehicle = .empty
  userTwv : v.userTwv = 0
  userCv : v.userCv = 0
  orders : SameNodes v.orders orders

/-- The nodes of an order carry its identifier. -/
def Orders.Named (orders : Orders) : Prop := ∀ i < orders.length,
  (orders.get i).pickup.order = (orders.get i).id ∧ (orders.get i).delivery.order = (orders.get i).id

/-! ### The loop over the stops -/

theorem visitNode_type {o : Order} (ho : o.Typed) (j : ℕ) :
    (visitNode o j).type = .kPickup ∨ (visitNode o j).type = .kDelivery := by
  unfold visitNode
  split_ifs
  · exact Or.inl ho.pickup
  · exact Or.inr ho.delivery

theorem visitNode_order {orders : Orders} (hn : orders.Named) {i : ℕ} (hi : i < orders.length) (j : ℕ) :
    (visitNode (orders.get i) j).order = (orders.get i).id := by
  unfold visitNode
  split_ifs
  · exact (hn i hi).1
  · exact (hn i hi).2

/-- One more visit of the order `i`. -/
theorem visits_snoc {orders : Orders} (ho : orders.WellFormed) {i j : ℕ} (hi : i < orders.length)
    (hj : j < orders.length) {done : List ℕ} {mids : List TwNode}
    (h : visits (orders.get j) mids = alternate (orders.get j) (done.count j)) :
    visits (orders.get j) (mids ++ [visitNode (orders.get i) (done.count i)]) =
      alternate (orders.get j) ((done ++ [i]).count j) := by
  unfold visits at h ⊢
  rw [List.filter_append, h, List.count_append]
  by_cases hji : j = i
  · subst hji
    rw [List.filter_cons_of_pos (isNodeOf_visitNode _ _), List.filter_nil, List.count_singleton_self,
      alternate_succ]
  · rw [List.filter_cons_of_neg (by simp [isNodeOf_visitNode_other ho hj hi hji]), List.filter_nil,
      List.append_nil, List.count_singleton, if_neg (by simpa using Ne.symm hji), Nat.add_zero]

/-- The state of the loop after the stops that name the orders `done`; `mids` are the nodes between
the two sites. -/
structure UserLoop (M : Matrix) (orders : Orders) (v : Vehicle) (sets : Assignment) (done : List ℕ)
    (mids : List TwNode) (s : Vehicle.StopsLoop) : Prop where
  others : ∃ path movable, s.vehicle = { v with path := path, ordersInVehicle := movable }
  nodes : ∀ a b, nodesOf v.path = [a, b] → nodesOf s.vehicle.path = a :: (mids ++ [b])
  settled : Settled M v.capacity v.speed 0 s.vehicle.path
  place : s.i = mids.length
  known : ∀ i ∈ done, i < orders.length
  types : ∀ t ∈ mids, t.type = .kPickup ∨ t.type = .kDelivery
  owned : ∀ t ∈ mids, ∃ i < orders.length, isNodeOf (orders.get i) t = true
  names : orders.Named → mids.map TwNode.order = done.map fun i => (orders.get i).id
  visits : ∀ i < orders.length, visits (orders.get i) mids = alternate (orders.get i) (done.count i)
  picked : ∀ i, i ∈ s.pickedOrders ↔ done.count i % 2 = 1
  movable : ∀ i, i ∈ s.vehicle.ordersInVehicle ↔ 2 ≤ done.count i
  assigned : ∀ i, i ∈ s.sets.assigned ↔ i ∈ sets.assigned ∨ 2 ≤ done.count i
  unassigned : ∀ i, i ∈ s.sets.unassigned ↔ i ∈ sets.unassigned ∧ ¬ 2 ≤ done.count i

section Loop
variable {M : Matrix} {orders : Orders} {v : Vehicle} {sets : Assignment}

theorem userLoop_start (sets : Assignment) (hv : Fresh M orders v) :
    UserLoop M orders v sets [] [] ⟨v, sets, .empty, 0⟩ where
  others := ⟨_, _, rfl⟩
  nodes _ _ h := h
  settled := hv.settled
  place := rfl
  known := by simp
  types := by simp
  owned := by simp
  names _ := rfl
  visits _ _ := rfl
  picked := by simp
  movable := by simp [hv.movable]
  assigned := by simp
  unassigned := by simp

variable {done : List ℕ} {mids : List TwNode} {s : Vehicle.StopsLoop}

theorem Fresh.sites (hv : Fresh M orders v) : ∃ a b, nodesOf v.path = [a, b] ∧ a.type = .kStart ∧
    b.type = .kEnd ∧ ∀ i < orders.length, isNodeOf (orders.get i) a = false ∧
      isNodeOf (orders.get i) b = false := by
  obtain ⟨a, l, b, hN, ha, hb, -⟩ := hv.route.route
  have hl : l = [] := by
    have := congrArg List.length hN
    rw [length_nodesOf, hv.empty] at this
    simpa using this
  subst hl
  refine ⟨a, b, hN, ha, hb, fun i hi => ⟨?_, ?_⟩⟩
  · exact hv.route.sites a (by simp [hN]) (Or.inl ha) i hi
  · exact hv.route.sites b (by simp [hN]) (Or.inr hb) i hi

theorem Fresh.free (hv : Fresh M orders v) : ∀ i < orders.length, Free (orders.get i) v := by
  obtain ⟨a, b, hN, -, -, hsites⟩ := hv.sites
  intro i hi
  unfold Free visits
  rw [hN, List.filter_cons_of_neg (by simp [(hsites i hi).1]),
    List.filter_cons_of_neg (by simp [(hsites i hi).2]), List.filter_nil]

/-- The nodes of a vehicle in the loop are a route. -/
theorem UserLoop.routeOf (hv : Fresh M orders v) (h : UserLoop M orders v sets done mids s) :
    RouteOf orders s.vehicle := by
  obtain ⟨a, b, hN, ha, hb, hsites⟩ := hv.sites
  have hN' := h.nodes a b hN
  refine ⟨⟨a, mids, b, hN', ha, hb, h.types⟩, fun t ht hs => ?_, fun i hi => ?_⟩
  · rw [hN', List.mem_cons, List.mem_append, List.mem_singleton] at ht
    rcases ht with rfl | ht | rfl
    · exact fun i hi => (hsites i hi).1
    · rcases h.types t ht with h1 | h1 <;> simp [h1] at hs
    · exact fun i hi => (hsites i hi).2
  · have := (h.movable i).mp hi
    exact h.known i (List.count_pos_iff.mp (by omega))

/-- A visit of the order `i`: its next node is appended, and the sets follow. -/
theorem UserLoop.visit (ho : orders.WellFormed) (hv : Fresh M orders v)
    (h : UserLoop M orders v sets done mids s) {i : ℕ} (hi : i < orders.length)
    {x : VehicleNode} (hx : x.toTwNode = visitNode (orders.get i) (done.count i))
    {s' : Vehicle.StopsLoop}
    (hs' : s'.vehicle = { s.vehicle.insert M (s.i + 1) x with
      ordersInVehicle := s'.vehicle.ordersInVehicle })
    (hplace : s'.i = s.i + 1)
    (hpicked : ∀ j, j ∈ s'.pickedOrders ↔ (done ++ [i]).count j % 2 = 1)
    (hmovable : ∀ j, j ∈ s'.vehicle.ordersInVehicle ↔ 2 ≤ (done ++ [i]).count j)
    (hassigned : ∀ j, j ∈ s'.sets.assigned ↔ j ∈ sets.assigned ∨ 2 ≤ (done ++ [i]).count j)
    (hunassigned : ∀ j, j ∈ s'.sets.unassigned ↔
      j ∈ sets.unassigned ∧ ¬ 2 ≤ (done ++ [i]).count j) :
    UserLoop M orders v sets (done ++ [i]) (mids ++ [x.toTwNode]) s' := by
  obtain ⟨a, b, hN, -⟩ := hv.sites
  have hxt := visitNode_type (ho.typed i hi) (done.count i)
  rw [← hx] at hxt
  have hd : x.type ≠ .kDump := by rcases hxt with h1 | h1 <;> simp [h1]
  obtain ⟨hnodes, hsettled⟩ := insert_last (M := M) (h.nodes a b hN) (h.routeOf hv).noDump hd
  rw [← h.place] at hnodes hsettled
  obtain ⟨path, movable, hsv⟩ := h.others
  have hcap : s.vehicle.capacity = v.capacity := by rw [hsv]
  have hspeed : s.vehicle.speed = v.speed := by rw [hsv]
  rw [hcap, hspeed] at hsettled
  exact
    { others := ⟨_, _, by rw [hs', hsv]; rfl⟩
      nodes := fun a' b' hN' => by
        obtain ⟨rfl, rfl⟩ : a = a' ∧ b = b' := by simpa [hN] using hN'
        rw [hs']
        exact hnodes
      settled := by
        rw [hs']
        exact hsettled h.settled
      place := by rw [hplace, h.place, List.length_append, List.length_singleton]
      known := List.forall_mem_append.mpr ⟨h.known, List.forall_mem_singleton.mpr hi⟩
      types := List.forall_mem_append.mpr ⟨h.types, List.forall_mem_singleton.mpr hxt⟩
      owned := List.forall_mem_append.mpr ⟨h.owned, List.forall_mem_singleton.mpr
        ⟨i, hi, hx ▸ isNodeOf_visitNode _ _⟩⟩
      names := fun hn => by
        rw [List.map_append, List.map_append, h.names hn, List.map_singleton, List.map_singleton, hx,
          visitNode_order hn hi]
      visits := fun j hj => by
        rw [hx]
        exact visits_snoc ho hi hj (h.visits j hj)
      picked := hpicked
      movable := hmovable
      assigned := hassigned
      unassigned := hunassigned }

theorem count_snoc (done : List ℕ) (i j : ℕ) :
    (done ++ [i]).count j = done.count j + if j = i then 1 else 0 := by
  rw [List.count_append, List.count_singleton]
  by_cases h : j = i
  · simp [h]
  · simp [h, Ne.symm h]

/-- A visit with an odd number delivers the order. -/
theorem two_le_count_of_odd {i : ℕ} (h : done.count i % 2 = 1) (j : ℕ) :
    2 ≤ (done ++ [i]).count j ↔ j = i ∨ 2 ≤ done.count j := by
  rw [count_snoc]
  by_cases hj : j = i
  · subst hj
    simp only [if_true, true_or, iff_true]
    omega
  · simp [hj]

/-- A visit with an even number only picks the order up. -/
theorem two_le_count_of_even {i : ℕ} (h : done.count i % 2 = 0) (j : ℕ) :
    2 ≤ (done ++ [i]).count j ↔ 2 ≤ done.count j := by
  rw [count_snoc]
  by_cases hj : j = i
  · subst hj
    simp only [if_true]
    omega
  · simp [hj]

/-- One stop. -/
theorem UserLoop.step (ho : orders.WellFormed) (hv : Fresh M orders v)
    (h : UserLoop M orders v sets done mids s) (oId : ℤ) :
    ∃ mids', UserLoop M orders v sets (done ++ (resolve orders oId).toList) mids'
      (s.step M orders oId) := by
  unfold Vehicle.StopsLoop.step resolve
  cases hf : orders.find? fun o => decide (o.id = oId) with
  | none => exact ⟨mids, by simpa using h⟩
  | some o =>
    obtain ⟨hi, hget, -⟩ := resolve_eq_some ho hf
    simp only [Option.map_some, Option.toList_some]
    cases hp : s.pickedOrders.has o.idx with
    | true =>
      have hodd := (h.picked o.idx).mp (Identifiers.has_iff.mp hp)
      have htwo := two_le_count_of_odd hodd
      refine ⟨_, h.visit ho hv hi (x := o.delivery) ?_ rfl rfl (fun j => ?_) (fun j => ?_)
        (fun j => ?_) fun j => ?_⟩
      · rw [hget, visitNode, if_neg (by omega)]
      · rw [count_snoc, if_pos rfl, Identifiers.mem_erase, h.picked]
        by_cases hj : j = o.idx
        · subst hj; simp; omega
        · simp [hj]
      · rw [htwo, ← h.movable]
        exact Identifiers.mem_insert
      · rw [htwo, if_pos rfl, Identifiers.mem_insert, h.assigned]
        tauto
      · rw [htwo, if_pos rfl, Identifiers.mem_erase, h.unassigned]
        tauto
    | false =>
      have heven : done.count o.idx % 2 = 0 := by
        have := mt (h.picked o.idx).mpr (Identifiers.has_eq_false.mp hp)
        omega
      have htwo := two_le_count_of_even heven
      refine ⟨_, h.visit ho hv hi (x := o.pickup) ?_ rfl rfl (fun j => ?_) (fun j => ?_)
        (fun j => ?_) fun j => ?_⟩
      · rw [hget, visitNode, if_pos heven]
      · rw [count_snoc, if_neg Bool.false_ne_true, Identifiers.mem_insert, h.picked]
        by_cases hj : j = o.idx
        · subst hj; simp; omega
        · simp [hj]
      · rw [htwo, ← h.movable]
        exact Iff.rfl
      · rw [htwo, if_neg Bool.false_ne_true]
        exact h.assigned j
      · rw [htwo, if_neg Bool.false_ne_true]
        exact h.unassigned j

/-- All stops. -/
theorem UserLoop.run (ho : orders.WellFormed) (hv : Fresh M orders v) :
    ∀ (stops : List ℤ) {done : List ℕ} {mids : List TwNode} {s : Vehicle.StopsLoop},
      UserLoop M orders v sets done mids s →
      ∃ mids', UserLoop M orders v sets (done ++ stopIdxs orders stops) mids'
        (stops.foldl (Vehicle.StopsLoop.step M orders) s)
  | [], done, mids, s, h => ⟨mids, by simpa [stopIdxs] using h⟩
  | oId :: stops, done, mids, s, h => by
    obtain ⟨mids1, h1⟩ := h.step ho hv oId
    obtain ⟨mids2, h2⟩ := UserLoop.run ho hv stops h1
    refine ⟨mids2, ?_⟩
    have hc : stopIdxs orders (oId :: stops) =
        (resolve orders oId).toList ++ stopIdxs orders stops := by
      unfold stopIdxs
      rw [List.filterMap_cons]
      cases resolve orders oId <;> rfl
    rwa [List.foldl_cons, hc, ← List.append_assoc]

/-- Evaluation of an evaluated vehicle. -/
theorem evaluate_of_settled {w : Vehicle} (h : Settled M w.capacity w.speed 0 w.path) :
    w.evaluate M 0 = w := by
  unfold Settled at h
  unfold Vehicle.evaluate
  rw [h]

/-- The processed stops of a vehicle. -/
theorem processStops_spec (ho : orders.WellFormed) (hv : Fresh M orders v) (sets : Assignment) :
    ∃ mids s, UserLoop M orders v sets (stopIdxs orders v.stops) mids s ∧
      v.processStops M orders sets = (s.vehicle, s.sets) := by
  obtain ⟨mids, h⟩ := UserLoop.run ho hv v.stops (userLoop_start sets hv)
  refine ⟨mids, _, h, Prod.ext (evaluate_of_settled ?_) rfl⟩
  obtain ⟨path, movable, hsv⟩ := h.others
  have hset := h.settled
  rw [hsv] at hset ⊢
  exact hset

end Loop

/-! ### Removals -/

/-- The state of the removals of movable orders: those of `gone` were taken off the vehicle `w`. -/
structure Removed (M : Matrix) (orders : Orders) (w : Vehicle) (sets : Assignment) (gone : List ℕ)
    (r : Vehicle × Assignment) : Prop where
  others : ∃ path movable, r.1 = { w with path := path, ordersInVehicle := movable }
  route : RouteOf orders r.1
  settled : Settled M w.capacity w.speed 0 r.1.path
  subset : nodesOf r.1.path ⊆ nodesOf w.path
  visits : ∀ i < orders.length, visits (orders.get i) (nodesOf r.1.path) =
    if i ∈ gone then ((visits (orders.get i) (nodesOf w.path)).eraseP
      (hasIdx (orders.get i).pickup.idx)).eraseP (hasIdx (orders.get i).delivery.idx)
    else visits (orders.get i) (nodesOf w.path)
  movable : ∀ i, i ∈ r.1.ordersInVehicle ↔ i ∈ w.ordersInVehicle ∧ i ∉ gone
  assigned : ∀ i, i ∈ r.2.assigned ↔ i ∈ sets.assigned ∧ i ∉ gone
  unassigned : ∀ i, i ∈ r.2.unassigned ↔ i ∈ sets.unassigned ∨ i ∈ gone

section Removals
variable {M : Matrix} {orders : Orders} {w : Vehicle} {sets : Assignment} {gone : List ℕ}
  {r : Vehicle × Assignment}

/-- A removal takes the order of the problem off the vehicle. -/
theorem Removed.removeMovable_eq (hs : SameNodes w.orders orders)
    (h : Removed M orders w sets gone r) (o : ℕ) :
    Vehicle.removeMovable M r o = ({ r.1.eraseOrder M (orders.get o) with
      ordersInVehicle := (r.1.eraseOrder M (orders.get o)).ordersInVehicle.erase o },
      ⟨r.2.assigned.erase o, r.2.unassigned.insert o⟩) := by
  obtain ⟨path, movable, hr⟩ := h.others
  have hos : r.1.orders = w.orders := by rw [hr]
  unfold Vehicle.removeMovable
  rw [hos, ← eraseOrder_of_nodes (hs.get o)]

theorem Removed.step (ho : orders.WellFormed) (hs : SameNodes w.orders orders)
    (h : Removed M orders w sets gone r) {o : ℕ} (hlt : o < orders.length) (hgone : o ∉ gone) :
    Removed M orders w sets (gone ++ [o]) (Vehicle.removeMovable M r o) := by
  obtain ⟨path, movable, hr⟩ := h.others
  have hcap : r.1.capacity = w.capacity := by rw [hr]
  have hspeed : r.1.speed = w.speed := by rw [hr]
  have hroute := h.route.eraseOrder (M := M) hlt
  rw [h.removeMovable_eq hs]
  refine ⟨?_, ⟨hroute.route, hroute.sites, fun i hi => ?_⟩, ?_, fun t ht => h.subset ?_,
    fun i hi => ?_, fun i => ?_, fun i => ?_, fun i => ?_⟩
  · dsimp only
    rw [eraseOrder_others, hr]
    exact ⟨_, _, rfl⟩
  · exact hroute.movable i (Identifiers.mem_erase.mp hi).1
  · have := eraseOrder_settled (o := orders.get o) h.route.noDump
      (by rw [hcap, hspeed]; exact h.settled)
    rwa [hcap, hspeed] at this
  · dsimp only at ht
    rw [eraseOrder_nodes h.route.noDump] at ht
    exact List.mem_of_mem_eraseP (List.mem_of_mem_eraseP ht)
  · dsimp only
    by_cases hio : i = o
    · subst hio
      rw [if_pos (by simp), eraseOrder_visits h.route.noDump, h.visits i hi, if_neg hgone]
    · rw [eraseOrder_visits_other ho hi hlt h.route.noDump hio, h.visits i hi]
      simp [hio]
  · dsimp only
    rw [Identifiers.mem_erase, eraseOrder_others, Identifiers.mem_erase, h.movable, ho.idx o hlt]
    simp only [List.mem_append, List.mem_singleton]
    tauto
  · dsimp only
    rw [Identifiers.mem_erase, h.assigned]
    simp only [List.mem_append, List.mem_singleton]
    tauto
  · dsimp only
    rw [Identifiers.mem_insert, h.unassigned]
    simp only [List.mem_append, List.mem_singleton]
    tauto

theorem Removed.run (ho : orders.WellFormed) (hs : SameNodes w.orders orders) :
    ∀ (l : List ℕ) {gone : List ℕ} {r : Vehicle × Assignment}, Removed M orders w sets gone r →
      (∀ o ∈ l, o < orders.length ∧ o ∉ gone) → l.Nodup →
      Removed M orders w sets (gone ++ l) (l.foldl (Vehicle.removeMovable M) r)
  | [], gone, r, h, _, _ => by simpa using h
  | o :: l, gone, r, h, hl, hn => by
    obtain ⟨hno, hn⟩ := List.nodup_cons.mp hn
    have h1 := h.step ho hs (hl o (by simp)).1 (hl o (by simp)).2
    have := Removed.run ho hs l h1 (fun i hi => ⟨(hl i (by simp [hi])).1, by
      have := (hl i (by simp [hi])).2
      simp only [List.mem_append, List.mem_singleton, not_or]
      exact ⟨this, fun e => hno (e ▸ hi)⟩⟩) hn
    simpa using this

end Removals

/-! ### The vehicle after the user's solution -/

/-- The route that the user's stops give, before orders are removed. -/
def Vehicle.userRoute (M : Matrix) (orders : Orders) (v : Vehicle) : Vehicle :=
  (v.processStops M orders ⟨.empty, .empty⟩).1

/-- The order was picked up and delivered. -/
def Visited (orders : Orders) (v : Vehicle) (i : ℕ) : Prop := 2 ≤ (stopIdxs orders v.stops).count i

/-- The orders that an infeasible vehicle loses when the solution is to be optimized. -/
def Vehicle.lostOrders (M : Matrix) (orders : Orders) (v : Vehicle) (date : ℤ) (optimize : Bool) :
    List ℕ :=
  let w := (v.userRoute M orders).setUnmovable date
  if w.isFeasible || !optimize then [] else w.ordersInVehicle.ids

structure UserResult (M : Matrix) (orders : Orders) (v : Vehicle) (sets : Assignment) (date : ℤ)
    (gone : List ℕ) (r : Vehicle × Assignment) : Prop where
  others : ∃ path movable twv cv, r.1 =
    { v with path := path, ordersInVehicle := movable, userTwv := twv, userCv := cv }
  route : RouteOf orders r.1
  settled : Settled M v.capacity v.speed 0 r.1.path
  nodes : ∀ t ∈ nodesOf r.1.path, t ∈ nodesOf v.path ∨
    ∃ i < orders.length, isNodeOf (orders.get i) t = true
  visits : ∀ i < orders.length, visits (orders.get i) (nodesOf r.1.path) =
    (alternate (orders.get i) ((stopIdxs orders v.stops).count i)).drop (if i ∈ gone then 2 else 0)
  movable : ∀ i, i ∈ r.1.ordersInVehicle ↔
    i ∈ ((v.userRoute M orders).setUnmovable date).ordersInVehicle ∧ i ∉ gone
  assigned : ∀ i, i ∈ r.2.assigned ↔ (i ∈ sets.assigned ∨ Visited orders v i) ∧ i ∉ gone
  unassigned : ∀ i, i ∈ r.2.unassigned ↔ i ∈ sets.unassigned ∧ ¬ Visited orders v i ∨ i ∈ gone

section Result
variable {M : Matrix} {orders : Orders} {v : Vehicle} {sets : Assignment}

/-- What a stop does to the vehicle does not depend on the sets. -/
theorem step_vehicle (orders : Orders) {s s' : Vehicle.StopsLoop} (h1 : s.vehicle = s'.vehicle)
    (h2 : s.pickedOrders = s'.pickedOrders) (h3 : s.i = s'.i) (oId : ℤ) :
    (s.step M orders oId).vehicle = (s'.step M orders oId).vehicle ∧
      (s.step M orders oId).pickedOrders = (s'.step M orders oId).pickedOrders ∧
      (s.step M orders oId).i = (s'.step M orders oId).i := by
  unfold Vehicle.StopsLoop.step
  cases hf : orders.find? fun o => decide (o.id = oId) with
  | none => exact ⟨h1, h2, h3⟩
  | some o =>
    dsimp only
    rw [h1, h2, h3]
    split_ifs <;> exact ⟨rfl, rfl, rfl⟩

theorem processStops_vehicle (v : Vehicle) (sets : Assignment) :
    (v.processStops M orders sets).1 = v.userRoute M orders := by
  have h : ∀ (stops : List ℤ) (s s' : Vehicle.StopsLoop), s.vehicle = s'.vehicle →
      s.pickedOrders = s'.pickedOrders → s.i = s'.i →
      (stops.foldl (Vehicle.StopsLoop.step M orders) s).vehicle =
        (stops.foldl (Vehicle.StopsLoop.step M orders) s').vehicle := by
    intro stops
    induction stops with
    | nil => exact fun s s' h _ _ => h
    | cons oId stops ih =>
      intro s s' h1 h2 h3
      obtain ⟨g1, g2, g3⟩ := step_vehicle (M := M) orders h1 h2 h3 oId
      exact ih _ _ g1 g2 g3
  exact congrArg (fun w : Vehicle => w.evaluate M 0)
    (h v.stops ⟨v, sets, .empty, 0⟩ ⟨v, ⟨.empty, .empty⟩, .empty, 0⟩ rfl rfl rfl)

/-- The visits of an order on the whole path. -/
theorem UserLoop.visits_path {done : List ℕ} {mids : List TwNode} {s : Vehicle.StopsLoop}
    (hv : Fresh M orders v) (h : UserLoop M orders v sets done mids s) :
    ∀ i < orders.length, VrpRouting.visits (orders.get i) (nodesOf s.vehicle.path) =
      alternate (orders.get i) (done.count i) := by
  intro i hi
  obtain ⟨a, b, hN, -, -, hsites⟩ := hv.sites
  obtain ⟨ha, hb⟩ := hsites i hi
  have := h.visits i hi
  unfold VrpRouting.visits at this ⊢
  rw [h.nodes a b hN, List.filter_cons_of_neg (by simp [ha]), List.filter_append, this,
    List.filter_cons_of_neg (by simp [hb]), List.filter_nil, List.append_nil]

theorem UserResult.accept {gone : List ℕ} {date : ℤ} {r : Vehicle × Assignment}
    (h : UserResult M orders v sets date gone r) (twv cv : ℕ) :
    UserResult M orders v sets date gone ({ r.1 with userTwv := twv, userCv := cv }, r.2) where
  others := by
    obtain ⟨path, movable, twv', cv', hr⟩ := h.others
    rw [hr]
    exact ⟨_, _, _, _, rfl⟩
  route := ⟨h.route.route, h.route.sites, h.route.movable⟩
  settled := h.settled
  nodes := h.nodes
  visits := h.visits
  movable := h.movable
  assigned := h.assigned
  unassigned := h.unassigned

/-- Before orders are removed. -/
theorem userResult_setUnmovable (ho : orders.WellFormed) (hv : Fresh M orders v) (sets : Assignment)
    (date : ℤ) :
    UserResult M orders v sets date [] ((v.processStops M orders sets).1.setUnmovable date,
      (v.processStops M orders sets).2) := by
  obtain ⟨mids, s, h, hproc⟩ := processStops_spec ho hv sets
  have hs : s.vehicle = v.userRoute M orders := by rw [← processStops_vehicle v sets, hproc]
  rw [hproc]
  obtain ⟨path, movable, hsv⟩ := h.others
  have hroute := h.routeOf hv
  obtain ⟨a, b, hN, -⟩ := hv.sites
  refine ⟨?_, ⟨hroute.route, hroute.sites, fun i hi => ?_⟩, h.settled, fun t ht => ?_,
    fun i hi => ?_, fun i => ?_, fun i => ?_, fun i => ?_⟩
  · dsimp only
    rw [hsv]
    exact ⟨_, _, _, _, rfl⟩
  · exact hroute.movable i (Identifiers.mem_diff.mp hi).1
  · change t ∈ nodesOf s.vehicle.path at ht
    rw [h.nodes a b hN, List.mem_cons, List.mem_append, List.mem_singleton] at ht
    rcases ht with rfl | ht | rfl
    · exact Or.inl (by simp [hN])
    · exact Or.inr (h.owned t ht)
    · exact Or.inl (by simp [hN])
  · rw [if_neg List.not_mem_nil, List.drop_zero]
    exact h.visits_path hv i hi
  · simp [hs]
  · simp [h.assigned, Visited]
  · simp [h.unassigned, Visited]

theorem mem_userRoute (ho : orders.WellFormed) (hv : Fresh M orders v) (i : ℕ) :
    i ∈ (v.userRoute M orders).ordersInVehicle ↔ Visited orders v i := by
  obtain ⟨mids, s, h, hproc⟩ := processStops_spec ho hv ⟨.empty, .empty⟩
  unfold Vehicle.userRoute
  rw [hproc]
  exact h.movable i

/-- A vehicle without stops stays as it is. -/
theorem setUnmovable_fresh (hv : Fresh M orders v) (date : ℤ) : v.setUnmovable date = v := by
  have h : v.ordersInVehicle.diff (v.unmovable date) = v.ordersInVehicle :=
    Identifiers.ext_iff.mpr fun i => by simp [hv.movable]
  unfold Vehicle.setUnmovable
  rw [h]

section Pruning
variable {date : ℤ} {w : Vehicle} {sets' : Assignment}
  (h : UserResult M orders v sets date [] (w, sets'))
include h

/-- The user's solution leaves the description of the vehicle as it is. -/
theorem UserResult.description : w.capacity = v.capacity ∧ w.speed = v.speed ∧
    w.orders = v.orders := by
  obtain ⟨path, movable, twv, cv, hwv⟩ := h.others
  dsimp only at hwv
  rw [hwv]
  exact ⟨rfl, rfl, rfl⟩

/-- The removals start with the user's solution. -/
theorem UserResult.removed_start : Removed M orders w sets' [] (w, sets') := by
  obtain ⟨hcap, hspeed, -⟩ := h.description
  refine ⟨⟨_, _, rfl⟩, h.route, ?_, List.Subset.refl _, fun i _ => by simp, by simp, by simp,
    by simp⟩
  rw [hcap, hspeed]
  exact h.settled

theorem UserResult.sameNodes (hv : Fresh M orders v) : SameNodes w.orders orders :=
  h.description.2.2 ▸ hv.orders

/-- All movable orders are removed. -/
theorem UserResult.removed_movable (ho : orders.WellFormed) (hv : Fresh M orders v) :
    Removed M orders w sets' w.ordersInVehicle.ids
      (w.ordersInVehicle.ids.foldl (Vehicle.removeMovable M) (w, sets')) := by
  have hr := h.removed_start.run ho (h.sameNodes hv) w.ordersInVehicle.ids
    (fun o hom => ⟨h.route.movable o hom, List.not_mem_nil⟩) w.ordersInVehicle.nodup
  rwa [List.nil_append] at hr

end Pruning

/-- An infeasible vehicle loses its movable orders. -/
theorem userResult_removed (ho : orders.WellFormed) (hv : Fresh M orders v) {date : ℤ}
    {w : Vehicle} {sets' : Assignment} (hw : w = (v.userRoute M orders).setUnmovable date)
    (h : UserResult M orders v sets date [] (w, sets')) :
    UserResult M orders v sets date w.ordersInVehicle.ids
      (w.ordersInVehicle.ids.foldl (Vehicle.removeMovable M) (w, sets')) := by
  obtain ⟨path, movable, twv, cv, hwv⟩ := h.others
  dsimp only at hwv
  obtain ⟨hcap, hspeed, -⟩ := h.description
  have hr := h.removed_movable ho hv
  have hvisits : ∀ i < orders.length, VrpRouting.visits (orders.get i) (nodesOf w.path) =
      alternate (orders.get i) ((stopIdxs orders v.stops).count i) := fun i hi => by
    simpa using h.visits i hi
  refine ⟨?_, hr.route, by rw [← hcap, ← hspeed]; exact hr.settled,
    fun t ht => h.nodes t (hr.subset ht), fun i hi => ?_, fun i => ?_, fun i => ?_, fun i => ?_⟩
  · obtain ⟨path', movable', hr'⟩ := hr.others
    rw [hr', hwv]
    exact ⟨_, _, _, _, rfl⟩
  · rw [hr.visits i hi, hvisits i hi]
    split_ifs with hi'
    · refine eraseP_alternate ((mem_userRoute ho hv i).mp ?_)
      rw [hw] at hi'
      exact (Identifiers.mem_diff.mp hi').1
    · rfl
  · rw [hr.movable, ← hw]
  · rw [hr.assigned, h.assigned]
    simp
  · rw [hr.unassigned, h.unassigned]
    simp

/-- **`set_initial_solution` of a vehicle.** -/
theorem setInitialSolution_spec (ho : orders.WellFormed) (hv : Fresh M orders v) (sets : Assignment)
    (date : ℤ) (optimize : Bool) :
    UserResult M orders v sets date (v.lostOrders M orders date optimize)
      (v.setInitialSolution M orders sets date optimize) := by
  have hbase := userResult_setUnmovable ho hv sets date
  have hproc : (v.processStops M orders sets).1 = v.userRoute M orders := processStops_vehicle v sets
  unfold Vehicle.setInitialSolution Vehicle.lostOrders
  dsimp only
  by_cases hstops : v.stops = []
  · have hps : ∀ sets, v.processStops M orders sets = (v, sets) := fun sets => by
      unfold Vehicle.processStops
      rw [hstops]
      exact Prod.ext (evaluate_of_settled hv.settled) rfl
    have hv0 : v.userRoute M orders = v := by unfold Vehicle.userRoute; rw [hps]
    rw [if_pos hstops, hv0, setUnmovable_fresh hv, hv.movable]
    rw [hps, setUnmovable_fresh hv] at hbase
    simpa [Identifiers.empty] using hbase
  · rw [if_neg hstops]
    rw [hproc] at hbase ⊢
    cases hf : ((v.userRoute M orders).setUnmovable date).isFeasible with
    | true => simpa using hbase
    | false =>
      cases optimize with
      | false => simpa using hbase.accept _ _
      | true =>
        simp only [Bool.false_eq_true, if_false, if_true, Bool.not_true, Bool.or_self]
        exact (userResult_removed ho hv rfl hbase).accept _ _

theorem userRoute_others (ho : orders.WellFormed) (hv : Fresh M orders v) :
    ∃ path movable, v.userRoute M orders = { v with path := path, ordersInVehicle := movable } := by
  obtain ⟨mids, s, h, hproc⟩ := processStops_spec ho hv ⟨.empty, .empty⟩
  unfold Vehicle.userRoute
  rw [hproc]
  exact h.others

/-- Without optimization the path of the user stays, and at most its violations are accepted. -/
theorem setInitialSolution_path (ho : orders.WellFormed) (hv : Fresh M orders v) (sets : Assignment)
    (date : ℤ) :
    let w := (v.setInitialSolution M orders sets date false).1
    w.path = (v.userRoute M orders).path ∧ w.userTwv ≤ (v.userRoute M orders).twvTot ∧
      w.userCv ≤ (v.userRoute M orders).cvTot := by
  unfold Vehicle.setInitialSolution
  dsimp only
  by_cases hstops : v.stops = []
  · have hv₀ : v.userRoute M orders = v := by
      unfold Vehicle.userRoute Vehicle.processStops
      rw [hstops]
      exact evaluate_of_settled hv.settled
    rw [if_pos hstops, hv₀, hv.userTwv, hv.userCv]
    exact ⟨rfl, Nat.zero_le _, Nat.zero_le _⟩
  · obtain ⟨path, movable, hothers⟩ := userRoute_others (M := M) ho hv
    have h1 : (v.userRoute M orders).userTwv = 0 := by rw [hothers]; exact hv.userTwv
    have h2 : (v.userRoute M orders).userCv = 0 := by rw [hothers]; exact hv.userCv
    rw [if_neg hstops, processStops_vehicle]
    cases hf : ((v.userRoute M orders).setUnmovable date).isFeasible with
    | true =>
      rw [if_pos rfl]
      exact ⟨rfl, h1.trans_le (Nat.zero_le _), h2.trans_le (Nat.zero_le _)⟩
    | false =>
      rw [if_neg Bool.false_ne_true]
      exact ⟨rfl, le_rfl, le_rfl⟩

/-- The orders that the vehicle may give away are on its path. -/
theorem UserResult.held (ho : orders.WellFormed) (hv : Fresh M orders v) {date : ℤ} {gone : List ℕ}
    {r : Vehicle × Assignment} (h : UserResult M orders v sets date gone r) : Held orders r.1 := by
  intro i hi
  obtain ⟨hi', hgone⟩ := (h.movable i).mp hi
  have hvisited := (mem_userRoute ho hv i).mp (Identifiers.mem_diff.mp hi').1
  rw [h.visits i (h.route.movable i hi), if_neg hgone, List.drop_zero]
  exact stops_subset_alternate hvisited

end Result

end VrpRouting
