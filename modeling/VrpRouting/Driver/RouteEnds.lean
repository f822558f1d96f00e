import VrpRouting.InitialSol.Unmovable

/-! # The orders at the ends of a route

`pop_front` and `pop_back` look for a pickup node from one end of the path and then for the order with
the index of that node. They find the right order (`takesOff_iff`) unless the pickup is open at one
instant only and `is_pickup` passes it, or the order is on the path more than once.
`get_first_order` takes the index of the node itself for the index of an order. The orders have the
nodes `0, 1`, then `2, 3` and so on, so it is right for the first order of the problem only
(`getFirstOrder_iff`). -/

open Sorting

namespace VrpRouting

/-- A vehicle of a reachable fleet, and what becomes of it when orders are put on and taken off. -/
inductive ReachableVehicle (S : Sorter) (M : Matrix) (p : PickDeliver) : Vehicle → Prop
  | fleet {F : List Vehicle} {v : Vehicle} (h : Reachable S M p F) (hv : v ∈ F) :
      ReachableVehicle S M p v
  | pushBack {v : Vehicle} {i : ℕ} (h : ReachableVehicle S M p v) (hi : i < p.orders.length)
      (hn : v.hasOrder (p.orders.get i) = false) :
      ReachableVehicle S M p (v.pushBack M (p.orders.get i))
  | pushFront {v : Vehicle} {i : ℕ} (h : ReachableVehicle S M p v) (hi : i < p.orders.length)
      (hn : v.hasOrder (p.orders.get i) = false) :
      ReachableVehicle S M p (v.pushFront M (p.orders.get i))
  | hillClimb {v : Vehicle} {i : ℕ} (h : ReachableVehicle S M p v) (hi : i < p.orders.length)
      (hn : v.hasOrder (p.orders.get i) = false) :
      ReachableVehicle S M p (v.hillClimb M (p.orders.get i)).2
  | semiLIFO {v : Vehicle} {i : ℕ} (h : ReachableVehicle S M p v) (hi : i < p.orders.length)
      (hn : v.hasOrder (p.orders.get i) = false) :
      ReachableVehicle S M p (v.semiLIFO M (p.orders.get i)).2
  | eraseOrder {v : Vehicle} {i : ℕ} (h : ReachableVehicle S M p v) (hi : i < p.orders.length) :
      ReachableVehicle S M p (v.eraseOrder M (p.orders.get i))
  | popBack {v : Vehicle} {r : Vehicle × ℕ} (h : ReachableVehicle S M p v)
      (hr : v.popBack M = .ok r) : ReachableVehicle S M p r.1
  | popFront {v : Vehicle} {r : Vehicle × ℕ} (h : ReachableVehicle S M p v)
      (hr : v.popFront M = .ok r) : ReachableVehicle S M p r.1

/-! ### What the ends of a route are -/

section Ends
variable (M : Matrix) (orders : Orders) (v : Vehicle)

def TwNode.picksUp (t : TwNode) : Bool := decide (t.type = .kPickup)

def Vehicle.firstPickup : Option TwNode := (nodesOf v.path).find? TwNode.picksUp

def Vehicle.lastPickup : Option TwNode := (nodesOf v.path).reverse.find? TwNode.picksUp

/-- Every order with a node on the path is movable. -/
def Vehicle.AllMovable : Prop :=
  ∀ i < orders.length, ¬ Free (orders.get i) v → i ∈ v.ordersInVehicle

/-- The call takes the order with the pickup `t` off the vehicle, nothing else, and returns its
index. -/
def TakesOff (t : TwNode) (r : Except Fault (Vehicle × ℕ)) : Prop :=
  ∃ w i, r = .ok (w, i) ∧ i < orders.length ∧ (orders.get i).pickup.toTwNode = t ∧
    (nodesOf w.path = (nodesOf v.path).filter fun t => !isNodeOf (orders.get i) t) ∧
    i ∈ v.ordersInVehicle ∧ ∀ j, j ∈ w.ordersInVehicle ↔ j ∈ v.ordersInVehicle ∧ j ≠ i

/-- `get_first_order` returns the order whose pickup is the first stop. -/
def ShowsFirst : Prop :=
  ∃ i < orders.length, (v.stop 1).toTwNode = (orders.get i).pickup.toTwNode ∧
    ∃ o, v.getFirstOrder = .ok o ∧ o.nodes = (orders.get i).nodes

/-- The orders at the ends are identified. -/
structure EndsRight : Prop where
  front : ∃ t, v.firstPickup = some t ∧ TakesOff orders v t (v.popFront M)
  back : ∃ t, v.lastPickup = some t ∧ TakesOff orders v t (v.popBack M)
  first : ShowsFirst orders v

/-- The pickup at an end is open for more than an instant, and no stop of its order is on the path
twice. -/
def PlainEnd (t : TwNode) : Prop :=
  t.opens < t.closes ∧ ∀ i < orders.length, (orders.get i).pickup.toTwNode = t →
    ∀ s ∈ (orders.get i).stops, (nodesOf v.path).count s ≤ 1

instance (t : TwNode) : Decidable (PlainEnd orders v t) := by
  unfold PlainEnd
  infer_instance

end Ends

/-! ### Reachable vehicles -/

section Reachable
variable {S : Sorter} {M : Matrix} {pOrders : List OrdersT} {pVehicles : List VehicleT}
  {newStops : List ShortVehicle} {p : PickDeliver} (hb : p.Built S M pOrders pVehicles newStops)
include hb

/-- The orders that a truck on a route knows are those of the problem. -/
theorem PickDeliver.Built.sameNodes_of_truckRoute {u v : Vehicle} (hu : p.HasTruck u)
    (h : TruckRoute M p.orders u v) : SameNodes v.orders p.orders := by
  rw [h.knows]
  exact (hb.fresh u hu).orders

/-- A call that returns a pickup takes an order of the problem off. -/
theorem popFrom_ok {u v : Vehicle} (hu : p.HasTruck u) (h : TruckRoute M p.orders u v)
    {stops : List VehicleNode} {r : Vehicle × ℕ} (hr : v.popFrom M stops = .ok r) :
    r.1 = v ∨ ∃ i < p.orders.length, r.1 = v.eraseOrder M (p.orders.get i) := by
  have hsame := hb.sameNodes_of_truckRoute hu h
  unfold Vehicle.popFrom at hr
  split at hr
  · cases hr
  · split at hr
    · next o ho =>
      obtain rfl := Except.ok.inj hr
      obtain ⟨i, hi, rfl⟩ := List.getElem_of_mem (List.mem_of_find?_eq_some ho)
      refine Or.inr ⟨i, hsame.length ▸ hi, ?_⟩
      rw [← Orders.get_eq_getElem hi]
      exact (eraseOrder_of_nodes (hsame.get i)).symm
    · obtain rfl := Except.ok.inj hr
      exact Or.inl rfl

/-- **Every reachable vehicle is a truck of the problem on some route.** -/
theorem ReachableVehicle.onTruckRoute {v : Vehicle} (h : ReachableVehicle S M p v) :
    OnTruckRoute M p.orders p.HasTruck v := by
  have ho := hb.wellFormed
  have hplaced : ∀ {v w : Vehicle} {i : ℕ}, OnTruckRoute M p.orders p.HasTruck v →
      i < p.orders.length → Loaded M v (p.orders.get i) w ∨ Unchanged M v w →
      OnTruckRoute M p.orders p.HasTruck w := fun ⟨u, hu, hv⟩ hi hw =>
    ⟨u, hu, hw.elim (hv.loaded ho hi) hv.unchanged⟩
  have hpopped : ∀ {v : Vehicle} {stops : List VehicleNode} {r : Vehicle × ℕ},
      OnTruckRoute M p.orders p.HasTruck v → v.popFrom M stops = .ok r →
      OnTruckRoute M p.orders p.HasTruck r.1 := fun ⟨u, hu, hv⟩ hr => by
    rcases popFrom_ok hb hu hv hr with hrv | ⟨i, hi, hrv⟩
    · rw [hrv]
      exact ⟨u, hu, hv⟩
    · rw [hrv]
      exact ⟨u, hu, hv.eraseOrder hi⟩
  induction h with
  | fleet h hv => exact h.onTruckRoutes hb _ hv
  | pushBack _ hi _ ih =>
    have ⟨_, _, hv⟩ := ih
    exact hplaced ih hi (Or.inl (pushBack_spec hv.route.route (ho.typed _ hi)).loaded)
  | pushFront _ hi _ ih =>
    have ⟨_, _, hv⟩ := ih
    exact hplaced ih hi (Or.inl (pushFront_spec hv.route.route (ho.typed _ hi)).loaded)
  | hillClimb _ hi _ ih =>
    have ⟨_, _, hv⟩ := ih
    exact hplaced ih hi ((hillClimb_spec hv.route.route (ho.typed _ hi)).imp
      (fun hw => hw.2.1.loaded) fun hw => hw.2)
  | semiLIFO _ hi _ ih =>
    have ⟨_, _, hv⟩ := ih
    exact hplaced ih hi ((semiLIFO_spec hv.route.route (ho.typed _ hi)).imp
      (fun hw => hw.2.1) fun hw => hw.2)
  | eraseOrder _ hi ih =>
    obtain ⟨u, hu, hv⟩ := ih
    exact ⟨u, hu, hv.eraseOrder hi⟩
  | popBack _ hr ih => exact hpopped ih hr
  | popFront _ hr ih => exact hpopped ih hr

end Reachable

theorem getFirstOrder_eq_ok {v : Vehicle} {o : Order} :
    v.getFirstOrder = .ok o ↔ v.orders[(v.stop 1).idx]? = some o := by
  unfold Vehicle.getFirstOrder
  split
  · next o' ho' => rw [ho', Except.ok.injEq, Option.some.injEq]
  · next hnone => simp [hnone]

/-- The first node that picks up is also the first one that `is_pickup` recognises. -/
theorem find?_isPickup {stops : List VehicleNode} {s : VehicleNode}
    (hs : stops.find? (TwNode.picksUp ∘ VehicleNode.toTwNode) = some s) (hpick : s.isPickup = true) :
    stops.find? (fun s => s.isPickup) = some s := by
  obtain ⟨-, A, B, rfl, hA⟩ := List.find?_eq_some_iff_append.mp hs
  refine List.find?_eq_some_iff_append.mpr ⟨hpick, A, B, rfl, fun a ha => ?_⟩
  have hnot : a.type ≠ .kPickup := by simpa [TwNode.picksUp] using hA a ha
  simp [TwNode.isPickup, hnot]

/-! ### The ends of a route of a truck -/

section Route
variable {S : Sorter} {M : Matrix} {pOrders : List OrdersT} {pVehicles : List VehicleT}
  {newStops : List ShortVehicle} {p : PickDeliver} (hb : p.Built S M pOrders pVehicles newStops)
  {u v : Vehicle} (hu : p.HasTruck u) (h : TruckRoute M p.orders u v)
include hb hu h

/-- A node on the path that is no site is a stop of an order. -/
theorem exists_order_of_mem {t : TwNode} (ht : t ∈ nodesOf v.path)
    (htype : t.type = .kPickup ∨ t.type = .kDelivery) :
    ∃ i < p.orders.length, t ∈ (p.orders.get i).stops := by
  refine (h.nodes t ht).resolve_left fun hsite => ?_
  obtain ⟨a, b, hN, ha, hb', -⟩ := (hb.fresh u hu).sites
  rw [hN] at hsite
  rcases List.mem_pair.mp hsite with rfl | rfl
  · rw [ha] at htype
    simp at htype
  · rw [hb'] at htype
    simp at htype

theorem exists_pickup_of_mem {t : TwNode} (ht : t ∈ nodesOf v.path) (hpick : t.picksUp = true) :
    ∃ i < p.orders.length, (p.orders.get i).pickup.toTwNode = t := by
  have htype : t.type = .kPickup := of_decide_eq_true hpick
  obtain ⟨i, hi, hstop⟩ := exists_order_of_mem hb hu h ht (Or.inl htype)
  rcases List.mem_pair.mp hstop with rfl | rfl
  · exact ⟨i, hi, rfl⟩
  · rw [(hb.wellFormed.typed i hi).delivery] at htype
    cases htype

/-- On the path, the stop of an order has its index for itself. -/
theorem eq_of_idx {t s : TwNode} (ht : t ∈ nodesOf v.path) {i : ℕ} (hi : i < p.orders.length)
    (hs : s ∈ (p.orders.get i).stops) (hidx : s.idx = t.idx) : t = s := by
  have ho := hb.wellFormed
  have hne := ho.pickup_ne_delivery i hi i hi
  have hown : isNodeOf (p.orders.get i) t = true := by
    rcases List.mem_pair.mp hs with rfl | rfl <;> simp [isNodeOf, ← hidx]
  have htype : t.type = .kPickup ∨ t.type = .kDelivery := by
    obtain ⟨a, mids, b, hN, ha, hb', hmids⟩ := h.route.route
    have hsite : ∀ s, s.type = .kStart ∨ s.type = .kEnd → t ≠ s := fun s hs' he => by
      subst he
      rw [h.route.sites t ht hs' i hi] at hown
      cases hown
    rw [hN] at ht
    rcases List.mem_cons.mp ht with rfl | ht
    · exact absurd rfl (hsite _ (Or.inl ha))
    · rcases List.mem_append.mp ht with ht | ht
      · exact hmids t ht
      · exact absurd (List.mem_singleton.mp ht) (hsite _ (Or.inr hb'))
  obtain ⟨j, hj, hstop⟩ := exists_order_of_mem hb hu h ht htype
  obtain rfl : i = j := by
    refine isNodeOf_unique ho hi hj hown ?_
    rcases List.mem_pair.mp hstop with rfl | rfl <;> simp [isNodeOf]
  rcases List.mem_pair.mp hs with rfl | rfl <;> rcases List.mem_pair.mp hstop with rfl | rfl
  · rfl
  · exact absurd hidx hne
  · exact absurd hidx.symm hne
  · rfl

theorem count_stop {s : TwNode} {i : ℕ} (hi : i < p.orders.length)
    (hs : s ∈ (p.orders.get i).stops) :
    ((nodesOf v.path).filter (hasIdx s.idx)).length = (nodesOf v.path).count s := by
  rw [List.count_eq_countP, List.countP_eq_length_filter]
  refine congrArg List.length (List.filter_congr fun t ht => ?_)
  rw [Bool.eq_iff_iff, beq_iff_eq]
  constructor
  · exact fun hidx => eq_of_idx hb hu h ht hi hs (of_decide_eq_true hidx)
  · rintro rfl
    exact decide_eq_true rfl

/-- The order leaves no node behind when none of its stops is there twice. -/
theorem eraseOrder_nodes_iff {i : ℕ} (hi : i < p.orders.length) :
    (nodesOf (v.eraseOrder M (p.orders.get i)).path =
        (nodesOf v.path).filter fun t => !isNodeOf (p.orders.get i) t) ↔
      ∀ s ∈ (p.orders.get i).stops, (nodesOf v.path).count s ≤ 1 := by
  have hcount := fun s => count_stop (s := s) hb hu h hi
  rw [eraseOrder_nodes_filter_iff (hb.wellFormed.pickup_ne_delivery i hi i hi) h.route.noDump]
  constructor
  · intro hone s hs
    rw [← hcount s hs]
    refine hone s.idx ?_
    rcases List.mem_pair.mp hs with rfl | rfl
    · exact Or.inl rfl
    · exact Or.inr rfl
  · rintro hone k (rfl | rfl)
    · rw [hcount (p.orders.get i).pickup.toTwNode (by simp [Order.stops])]
      exact hone _ (by simp [Order.stops])
    · rw [hcount (p.orders.get i).delivery.toTwNode (by simp [Order.stops])]
      exact hone _ (by simp [Order.stops])

/-- The order of the pickup that the search finds is taken off. -/
theorem popFrom_eq {stops : List VehicleNode} (hmem : ∀ s ∈ stops, s ∈ v.path) {s : VehicleNode}
    (hs : stops.find? (fun s => s.isPickup) = some s) : ∃ i < p.orders.length,
      (p.orders.get i).pickup.toTwNode = s.toTwNode ∧
      v.popFrom M stops = .ok (v.eraseOrder M (p.orders.get i), i) := by
  have ho := hb.wellFormed
  have hsame := hb.sameNodes_of_truckRoute hu h
  have hfound := List.find?_some hs
  have hpick : s.isPickup = true := hfound
  obtain ⟨i, hi, hti⟩ := exists_pickup_of_mem hb hu h
    (List.mem_map_of_mem (hmem s (List.mem_of_find?_eq_some hs)))
    (decide_eq_true (of_decide_eq_true hpick).1)
  refine ⟨i, hi, hti, ?_⟩
  have hi' : i < v.orders.length := hsame.length.symm ▸ hi
  have hidx : ∀ j < v.orders.length,
      (v.orders.get j).pickup.idx = (p.orders.get j).pickup.idx := fun j _ => by rw [hsame.pickup]
  have hfind : v.orders.find? (fun o => decide (o.pickup.idx = s.idx)) = some (v.orders.get i) := by
    refine List.find?_eq_some_iff_getElem.mpr ⟨?_, i, hi', (Orders.get_eq_getElem hi').symm, ?_⟩
    · rw [decide_eq_true_eq, hidx i hi', hti]
    · intro j hji
      rw [← Orders.get_eq_getElem (hji.trans hi'), hidx j (hji.trans hi'), Bool.not_eq_true',
        decide_eq_false_iff_not, ← hti]
      exact fun he => hji.ne (ho.pickup_inj j (hji.trans hi) i hi he)
  unfold Vehicle.popFrom
  rw [hs]
  dsimp only
  rw [hfind]
  dsimp only
  rw [← eraseOrder_of_nodes (hsame.get i), hsame.idx, ho.idx i hi]

/-- The first pickup is recognised: its order is taken off, as a whole when it is there once. -/
theorem takesOff_recognised_iff (hall : v.AllMovable p.orders) {stops : List VehicleNode}
    (hmem : ∀ s ∈ stops, s ∈ v.path) {s : VehicleNode}
    (hs : stops.find? (fun s => s.isPickup) = some s) :
    TakesOff p.orders v s.toTwNode (v.popFrom M stops) ↔
      ∀ i < p.orders.length, (p.orders.get i).pickup.toTwNode = s.toTwNode →
        ∀ t ∈ (p.orders.get i).stops, (nodesOf v.path).count t ≤ 1 := by
  have ho := hb.wellFormed
  obtain ⟨i, hi, hti, hpop⟩ := popFrom_eq hb hu h hmem hs
  have hunique : ∀ j < p.orders.length, (p.orders.get j).pickup.toTwNode = s.toTwNode → j = i :=
    fun j hj hj' => ho.pickup_inj j hj i hi (by rw [hj', hti])
  rw [hpop]
  constructor
  · rintro ⟨w, k, hr, -, hk, hnodes, -⟩
    obtain ⟨rfl, rfl⟩ := Prod.mk.inj (Except.ok.inj hr)
    intro l hl hsl
    rw [hunique l hl hsl]
    exact (eraseOrder_nodes_iff hb hu h hi).mp hnodes
  · intro hone
    have hmovable : i ∈ v.ordersInVehicle := by
      refine hall i hi fun hfree => ?_
      have hvisit : s.toTwNode ∈ visits (p.orders.get i) (nodesOf v.path) :=
        List.mem_filter.mpr ⟨List.mem_map_of_mem (hmem s (List.mem_of_find?_eq_some hs)),
          by simp [isNodeOf, ← hti]⟩
      rw [hfree] at hvisit
      cases hvisit
    exact ⟨_, _, rfl, hi, hti, (eraseOrder_nodes_iff hb hu h hi).mpr (hone i hi hti), hmovable,
      fun k => mem_eraseOrder_iff ho hi v M⟩

/-- The pickup is passed, so another order is taken off, or none. -/
theorem not_takesOff_passed {stops : List VehicleNode} (hmem : ∀ s ∈ stops, s ∈ v.path) {t : TwNode}
    (ht : t.isPickup = false) : ¬ TakesOff p.orders v t (v.popFrom M stops) := by
  rintro ⟨w, j, hr, hj, hjt, -⟩
  cases hfind : stops.find? (fun s => s.isPickup) with
  | none =>
    rw [Vehicle.popFrom, hfind] at hr
    cases hr
  | some s =>
    obtain ⟨k, hk, hks, hpop⟩ := popFrom_eq hb hu h hmem hfind
    obtain ⟨-, rfl⟩ := Prod.mk.inj (Except.ok.inj (hr.symm.trans hpop))
    have hfound := List.find?_some hfind
    have hpick : s.isPickup = true := hfound
    rw [← hks, hjt, ht] at hpick
    cases hpick

/-- **A pop takes the order of the end off exactly when the end is plain.** -/
theorem takesOff_iff (hfetched : ∀ d ∈ pOrders, d.Fetched) (hall : v.AllMovable p.orders)
    (stops : List VehicleNode) (hmem : ∀ s ∈ stops, s ∈ v.path) {t : TwNode}
    (ht : (nodesOf stops).find? TwNode.picksUp = some t) :
    TakesOff p.orders v t (v.popFrom M stops) ↔ PlainEnd p.orders v t := by
  unfold nodesOf at ht
  rw [List.find?_map, Option.map_eq_some_iff] at ht
  obtain ⟨s, hs, rfl⟩ := ht
  have hfound := List.find?_some hs
  obtain ⟨i, hi, hti⟩ := exists_pickup_of_mem hb hu h
    (List.mem_map_of_mem (hmem s (List.mem_of_find?_eq_some hs))) hfound
  have hwindow : s.isPickup = true ↔ s.opens < s.closes := by
    have hiff := hb.isPickup_iff hfetched hi
    rwa [hti] at hiff
  unfold PlainEnd
  rw [← hwindow]
  cases hpick : s.isPickup with
  | false =>
    have hpassed := not_takesOff_passed hb hu h hmem hpick
    simp only [Bool.false_eq_true, false_and, hpassed]
  | true =>
    rw [takesOff_recognised_iff hb hu h hall hmem (find?_isPickup hs hpick), and_iff_right rfl]

theorem first_stop (hne : v.empty = false) : (v.stop 1).toTwNode ∈ nodesOf v.path ∧
    ∃ i < p.orders.length, (v.stop 1).toTwNode ∈ (p.orders.get i).stops := by
  obtain ⟨a, mids, b, hN, -, -, hmids⟩ := h.route.route
  obtain ⟨m, ms, rfl⟩ : ∃ m ms, mids = m :: ms := by
    cases mids with
    | nil =>
      have hlen := congrArg List.length hN
      rw [length_nodesOf] at hlen
      simp [Vehicle.empty, Vehicle.size, hlen] at hne
    | cons m ms => exact ⟨m, ms, rfl⟩
  have hstop : (v.stop 1).toTwNode = m := by
    rw [toTwNode_stop, hN]
    rfl
  have hm : m ∈ nodesOf v.path := by
    rw [hN]
    simp
  rw [hstop]
  exact ⟨hm, exists_order_of_mem hb hu h hm (hmids m List.mem_cons_self)⟩

/-- **`get_first_order` is right for the first order of the problem only.** -/
theorem getFirstOrder_iff (hne : v.empty = false) :
    ShowsFirst p.orders v ↔ (v.stop 1).idx = 0 := by
  have hsame := hb.sameNodes_of_truckRoute hu h
  have hidx : ∀ i < p.orders.length,
      (p.orders.get i).pickup.idx = 2 * i ∧ (p.orders.get i).delivery.idx = 2 * i + 1 := fun i hi => by
    obtain ⟨d, -, hpickup, hdelivery⟩ := hb.exists_orderData hi
    rw [hpickup, hdelivery]
    exact ⟨rfl, rfl⟩
  constructor
  · rintro ⟨j, hj, hstop, o, hget, hnodes⟩
    rw [getFirstOrder_eq_ok, hstop, (hidx j hj).1] at hget
    obtain ⟨hlt, rfl⟩ := List.getElem?_eq_some_iff.mp hget
    rw [← Orders.get_eq_getElem hlt, hsame.get] at hnodes
    have hjj : 2 * j = j := by
      have hfst := congrArg Prod.fst hnodes
      rwa [Order.nodes, Order.nodes, hb.wellFormed.idx _ (hsame.length ▸ hlt),
        hb.wellFormed.idx _ hj] at hfst
    rw [hstop, (hidx j hj).1]
    omega
  · intro hzero
    obtain ⟨-, i, hi, hstop⟩ := first_stop hb hu h hne
    obtain ⟨hpickup, hdelivery⟩ := hidx i hi
    rcases List.mem_pair.mp hstop with hp | hd
    · rw [hp, hpickup] at hzero
      obtain rfl : i = 0 := by omega
      have hlt : 0 < v.orders.length := hsame.length.symm ▸ hi
      refine ⟨0, hi, hp, v.orders.get 0, getFirstOrder_eq_ok.mpr ?_, hsame.get 0⟩
      rw [hp, hpickup]
      exact (List.getElem?_eq_getElem hlt).trans (congrArg some (Orders.get_eq_getElem hlt).symm)
    · rw [hd, hdelivery] at hzero
      omega

end Route

/-- A truck that is not empty and starts with a pickup has a first and a last one. -/
theorem exists_ends {v : Vehicle} {t : TwNode} (ht : t ∈ nodesOf v.path) (hpick : t.picksUp = true) :
    (∃ t, v.firstPickup = some t) ∧ ∃ t, v.lastPickup = some t := by
  have hsome : ∀ l : List TwNode, t ∈ l → ∃ t, l.find? TwNode.picksUp = some t := fun l hl =>
    Option.isSome_iff_exists.mp (List.find?_isSome.mpr ⟨t, hl, hpick⟩)
  exact ⟨hsome _ ht, hsome _ (List.mem_reverse.mpr ht)⟩

/-- **The orders at the ends of a reachable route are identified** exactly when the first stop is the
first node of the problem and the ends are plain. -/
theorem order_ends_iff {S : Sorter} {M : Matrix} {pOrders : List OrdersT}
    {pVehicles : List VehicleT} {newStops : List ShortVehicle} {p : PickDeliver}
    (ho : ∀ d ∈ pOrders, d.Fetched)
    (hp : PickDeliver.build S M pOrders pVehicles newStops = .ok p) {v : Vehicle}
    (hv : ReachableVehicle S M p v) (hne : v.empty = false) (hall : v.AllMovable p.orders) :
    EndsRight M p.orders v ↔ (v.stop 1).idx = 0 ∧
      ∀ t, v.firstPickup = some t ∨ v.lastPickup = some t → PlainEnd p.orders v t := by
  have hb := PickDeliver.build_built hp
  obtain ⟨u, hu, hroute⟩ := hv.onTruckRoute hb
  have hfront := fun t => takesOff_iff (t := t) hb hu hroute ho hall v.path fun _ hs => hs
  have hback := fun t => takesOff_iff (t := t) hb hu hroute ho hall v.path.reverse
    fun _ hs => List.mem_reverse.mp hs
  have hlast : v.lastPickup = (nodesOf v.path.reverse).find? TwNode.picksUp := by
    unfold Vehicle.lastPickup nodesOf
    rw [List.map_reverse]
  have hfirst := getFirstOrder_iff hb hu hroute hne
  constructor
  · rintro ⟨⟨t, ht, hpop⟩, ⟨t', ht', hpop'⟩, hshows⟩
    refine ⟨hfirst.mp hshows, fun s hs => ?_⟩
    rcases hs with hs | hs
    · obtain rfl := Option.some.inj (ht.symm.trans hs)
      exact (hfront t ht).mp hpop
    · obtain rfl := Option.some.inj (ht'.symm.trans hs)
      exact (hback t' (hlast ▸ ht')).mp hpop'
  · rintro ⟨hzero, hplain⟩
    have hshows := hfirst.mpr hzero
    have ⟨i, hi, hstop, _⟩ := hshows
    have hpick : (v.stop 1).toTwNode.picksUp = true := by
      rw [hstop]
      exact decide_eq_true (hb.wellFormed.typed i hi).pickup
    obtain ⟨hmem, -⟩ := first_stop hb hu hroute hne
    obtain ⟨⟨t, ht⟩, t', ht'⟩ := exists_ends hmem hpick
    exact ⟨⟨t, ht, (hfront t ht).mpr (hplain t (Or.inl ht))⟩,
      ⟨t', ht', (hback t' (hlast ▸ ht')).mpr (hplain t' (Or.inr ht'))⟩, hshows⟩

/-! ### Three small orders -/

theorem threeOrders_fetched : ∀ d ∈ threeOrders, d.Fetched := by
  have hsmall : ∀ id : ℤ, id = 1 ∨ id = 2 ∨ id = 3 → (smallOrderData id 100).Fetched := by
    rintro id (rfl | rfl | rfl)
    · exact smallOrderData_fetched
    · exact ⟨fun t => t, false, false, smallOrderTuple 2 100, smallOrderData 2 100, 1, 2,
        by decide +kernel, rfl⟩
    · exact ⟨fun t => t, false, false, smallOrderTuple 3 100, smallOrderData 3 100, 1, 2,
        by decide +kernel, rfl⟩
  intro d hd
  simp only [threeOrders, List.mem_cons, List.not_mem_nil, or_false] at hd
  rcases hd with rfl | rfl | rfl
  · exact hsmall 1 (by simp)
  · exact hsmall 2 (by simp)
  · exact hsmall 3 (by simp)

/-- What is looked at in the vehicle of the user's solution with the stops `stops`. -/
def endsTest (stops : List ℤ) (q : Vehicle → PickDeliver → Bool) (p : PickDeliver) : Bool :=
  (Initialsol.Tabu.InitialSolution.userFleet twoSites 0 false p).1.vehicles.any fun v =>
    decide (v.stops = stops) && !v.empty &&
      decide (∀ i < p.orders.length, ¬ Free (p.orders.get i) v → i ∈ v.ordersInVehicle.ids) && q v p

theorem of_endsTest {stops : List ℤ} {q : Vehicle → PickDeliver → Bool} {p : PickDeliver}
    (h : endsTest stops q p = true) : ∃ v, ReachableVehicle .insertion twoSites p v ∧
      v.empty = false ∧ v.AllMovable p.orders ∧ q v p = true := by
  obtain ⟨v, hv, hq⟩ := List.any_eq_true.mp h
  simp only [Bool.and_eq_true, Bool.not_eq_true', decide_eq_true_eq] at hq
  obtain ⟨⟨⟨-, hne⟩, hall⟩, hq⟩ := hq
  exact ⟨v, .fleet (.userSolution 0 false) hv, hne, hall, hq⟩

/-- The vehicle carries the orders 1 and 2 one after the other, the order 1 first. -/
theorem order_ends_small : ∃ p v,
    PickDeliver.build .insertion twoSites threeOrders [smallVehicleData 7 [1, 1, 2, 2]] [] = .ok p ∧
    ReachableVehicle .insertion twoSites p v ∧ EndsRight twoSites p.orders v := by
  obtain ⟨p, hp, h⟩ := exists_ok_and (x := PickDeliver.build .insertion twoSites threeOrders
    [smallVehicleData 7 [1, 1, 2, 2]] []) (endsTest [1, 1, 2, 2] fun v p =>
      decide ((v.stop 1).idx = 0 ∧
        ∀ t ∈ v.firstPickup.toList ++ v.lastPickup.toList, PlainEnd p.orders v t))
    (by decide +kernel)
  obtain ⟨v, hv, hne, hall, hq⟩ := of_endsTest h
  obtain ⟨hzero, hplain⟩ := of_decide_eq_true hq
  refine ⟨p, v, hp, hv, (order_ends_iff threeOrders_fetched hp hv hne hall).mpr
    ⟨hzero, fun t ht => hplain t (List.mem_append.mpr ?_)⟩⟩
  exact ht.imp Option.mem_toList.mpr Option.mem_toList.mpr

/-- The vehicle carries the order 2, and `get_first_order` returns the order 3. -/
theorem first_order_fails : (∀ d ∈ threeOrders, d.Fetched) ∧ ∃ p v,
    PickDeliver.build .insertion twoSites threeOrders [smallVehicleData 7 [2, 2]] [] = .ok p ∧
    ReachableVehicle .insertion twoSites p v ∧ v.empty = false ∧ v.AllMovable p.orders ∧
    (v.stop 1).toTwNode = (p.orders.get 1).pickup.toTwNode ∧ (p.orders.get 1).id = 2 ∧
    (v.getFirstOrder.toOption.map fun o => (o.idx, o.id)) = some (2, 3) ∧
    ¬ EndsRight twoSites p.orders v := by
  obtain ⟨p, hp, h⟩ := exists_ok_and (x := PickDeliver.build .insertion twoSites threeOrders
    [smallVehicleData 7 [2, 2]] []) (endsTest [2, 2] fun v p =>
      decide ((v.stop 1).idx ≠ 0 ∧ (v.stop 1).toTwNode = (p.orders.get 1).pickup.toTwNode ∧
        (p.orders.get 1).id = 2 ∧
        (v.getFirstOrder.toOption.map fun o => (o.idx, o.id)) = some (2, 3)))
    (by decide +kernel)
  obtain ⟨v, hv, hne, hall, hq⟩ := of_endsTest h
  obtain ⟨hpos, hstop, hid, hget⟩ := of_decide_eq_true hq
  obtain ⟨u, hu, hroute⟩ := hv.onTruckRoute (PickDeliver.build_built hp)
  refine ⟨threeOrders_fetched, p, v, hp, hv, hne, hall, hstop, hid, hget, fun hends => hpos ?_⟩
  exact (getFirstOrder_iff (PickDeliver.build_built hp) hu hroute hne).mp hends.first

end VrpRouting
