import VrpRouting.Problem.Compatibility

/-! # The compatibility tables of the orders

The tables say which orders can be placed after and before an order. They are built once, with pairwise
checks at speed 1. A route without violations passes the checks of all its pairs of stops, at the speed
of its vehicle (`isCompatibleIJ_of_noViolation`). So the tables exclude no route of a vehicle that is not
faster than 1; for another vehicle exactly the routes that they exclude are those of the two orders
alone that they exclude (`tables_sound_iff`). -/

open Sorting TimeWindows

namespace VrpRouting

/-! ### What the tables contain -/

section Tables
variable (M : Matrix) (speed : ℚ)

theorem Order.isCompatibleIJ_congr {I I' J J' : Order} (hI : I'.nodes = I.nodes)
    (hJ : J'.nodes = J.nodes) : J'.isCompatibleIJ M I' speed = J.isCompatibleIJ M I speed := by
  simp only [Order.nodes, Prod.mk.injEq] at hI hJ
  obtain ⟨-, -, hp, hd⟩ := hI
  obtain ⟨-, -, hp', hd'⟩ := hJ
  unfold Order.isCompatibleIJ
  rw [hp, hd, hp', hd']

theorem Order.mem_setCompatibles (I J : Order) (j : ℕ) :
    (j ∈ (I.setCompatibles M J speed).compatibleJ ↔ j ∈ I.compatibleJ ∨
      (j = J.idx ∧ J.idx ≠ I.idx ∧ J.isCompatibleIJ M I speed = true)) ∧
    (j ∈ (I.setCompatibles M J speed).compatibleI ↔ j ∈ I.compatibleI ∨
      (j = J.idx ∧ J.idx ≠ I.idx ∧ I.isCompatibleIJ M J speed = true)) := by
  unfold Order.setCompatibles
  by_cases h : J.idx = I.idx
  · simp [h]
  · rw [if_neg h]
    constructor
    · cases J.isCompatibleIJ M I speed <;> simp [h, or_comm]
    · cases I.isCompatibleIJ M J speed <;> simp [h, or_comm]

theorem Order.mem_foldl_setCompatibles (j : ℕ) : ∀ (Js : List Order) (I : Order),
    (j ∈ (Js.foldl (fun I J => I.setCompatibles M J speed) I).compatibleJ ↔ j ∈ I.compatibleJ ∨
      ∃ J ∈ Js, j = J.idx ∧ J.idx ≠ I.idx ∧ J.isCompatibleIJ M I speed = true) ∧
    (j ∈ (Js.foldl (fun I J => I.setCompatibles M J speed) I).compatibleI ↔ j ∈ I.compatibleI ∨
      ∃ J ∈ Js, j = J.idx ∧ J.idx ≠ I.idx ∧ I.isCompatibleIJ M J speed = true)
  | [], I => by simp
  | J :: Js, I => by
    have hn := I.nodes_setCompatibles M J speed
    have hidx : (I.setCompatibles M J speed).idx = I.idx := congrArg (fun n => n.1) hn
    obtain ⟨h1, h2⟩ := Order.mem_setCompatibles M speed I J j
    obtain ⟨h3, h4⟩ := mem_foldl_setCompatibles j Js (I.setCompatibles M J speed)
    have hJ : ∀ K : Order, K.isCompatibleIJ M (I.setCompatibles M J speed) speed =
        K.isCompatibleIJ M I speed := fun K => Order.isCompatibleIJ_congr M speed hn rfl
    have hI : ∀ K : Order, (I.setCompatibles M J speed).isCompatibleIJ M K speed =
        I.isCompatibleIJ M K speed := fun K => Order.isCompatibleIJ_congr M speed rfl hn
    simp only [hJ, hI, hidx] at h3 h4
    constructor
    · rw [List.foldl_cons, h3, h1, List.exists_mem_cons_iff, or_assoc]
    · rw [List.foldl_cons, h4, h2, List.exists_mem_cons_iff, or_assoc]

end Tables

theorem Orders.get_setCompatibles {M : Matrix} {orders : Orders} {speed : ℚ} {i : ℕ}
    (hi : i < orders.length) : (orders.setCompatibles M speed).get i =
      orders.foldl (fun I J => I.setCompatibles M J speed) (orders.get i) := by
  unfold Orders.setCompatibles
  rw [Orders.get_eq_getElem (by simpa using hi), List.getElem_map, Orders.get_eq_getElem hi]

/-- The tables of a built problem come from the checks at speed 1. -/
theorem PickDeliver.orders_of_build {S : Sorter} {M : Matrix} {pOrders : List OrdersT}
    {pVehicles : List VehicleT} {newStops : List ShortVehicle} {p : PickDeliver}
    (h : PickDeliver.build S M pOrders pVehicles newStops = .ok p) :
    p.orders = (sortedOrders S pOrders).setCompatibles M 1 := by
  obtain ⟨f, -, h⟩ := bind_eq_ok h
  obtain rfl := Except.ok.inj h
  rfl

section Built
variable {S : Sorter} {M : Matrix} {pOrders : List OrdersT} {pVehicles : List VehicleT}
  {newStops : List ShortVehicle} {p : PickDeliver}
  (h : PickDeliver.build S M pOrders pVehicles newStops = .ok p)
include h

theorem mem_tables_iff {i j : ℕ} (hi : i < p.orders.length) (hj : j < p.orders.length)
    (hij : i ≠ j) :
    (j ∈ (p.orders.get i).compatibleJ ↔
      (p.orders.get j).isCompatibleIJ M (p.orders.get i) 1 = true) ∧
    (i ∈ (p.orders.get j).compatibleI ↔
      (p.orders.get j).isCompatibleIJ M (p.orders.get i) 1 = true) := by
  have hb := PickDeliver.build_built h
  have hwf : (sortedOrders S pOrders).WellFormed := Orders.ofData_wellFormed _
  rw [← hb.orders.length] at hi hj
  have htable : ∀ i < (sortedOrders S pOrders).length,
      ((sortedOrders S pOrders).get i).compatibleJ = .empty ∧
      ((sortedOrders S pOrders).get i).compatibleI = .empty := fun i hi => by
    unfold sortedOrders at hi ⊢
    rw [Orders.get_ofData (by simpa using hi)]
    exact ⟨rfl, rfl⟩
  have htest := Order.isCompatibleIJ_congr M 1 (hb.orders.get i).symm (hb.orders.get j).symm
  rw [htest, PickDeliver.orders_of_build h, Orders.get_setCompatibles hi,
    Orders.get_setCompatibles hj]
  constructor
  · rw [(Order.mem_foldl_setCompatibles M 1 j _ _).1, (htable i hi).1,
      exists_get_iff hwf (p := fun J => J.idx ≠ ((sortedOrders S pOrders).get i).idx ∧
        J.isCompatibleIJ M ((sortedOrders S pOrders).get i) 1 = true), hwf.idx i hi, hwf.idx j hj]
    simp [hj, hij.symm]
  · rw [(Order.mem_foldl_setCompatibles M 1 i _ _).2, (htable j hj).2,
      exists_get_iff hwf (p := fun J => J.idx ≠ ((sortedOrders S pOrders).get j).idx ∧
        ((sortedOrders S pOrders).get j).isCompatibleIJ M J 1 = true), hwf.idx i hi, hwf.idx j hj]
    simp [hi, hij]

end Built

/-! ### Routes of a vehicle -/

/-- The evaluated route of the vehicle with the given stops between its sites. -/
def Vehicle.routeWith (M : Matrix) (v : Vehicle) (mids : List TwNode) : List VehicleNode :=
  evaluatePath M v.capacity v.speed 0 (v.front :: (mids.map VehicleNode.ofTwNode ++ [v.back]))

/-- The stops are those of whole orders, with the two orders among them, the pickup of `i` first. -/
structure ServesInOrder (orders : Orders) (i j : ℕ) (mids : List TwNode) : Prop where
  known : ∀ t ∈ mids, ∃ k < orders.length, t ∈ (orders.get k).stops
  whole : ∀ k < orders.length, visits (orders.get k) mids = [] ∨
    visits (orders.get k) mids = (orders.get k).stops
  first : visits (orders.get i) mids = (orders.get i).stops
  second : visits (orders.get j) mids = (orders.get j).stops
  before : [(orders.get i).pickup.toTwNode, (orders.get j).pickup.toTwNode].Sublist mids

/-- The ways to serve the two orders alone, the pickup of `I` first. -/
def interleavings (I J : Order) : List (List TwNode) :=
  [[I.pickup.toTwNode, I.delivery.toTwNode, J.pickup.toTwNode, J.delivery.toTwNode],
    [I.pickup.toTwNode, J.pickup.toTwNode, I.delivery.toTwNode, J.delivery.toTwNode],
    [I.pickup.toTwNode, J.pickup.toTwNode, J.delivery.toTwNode, I.delivery.toTwNode]]

section Interleavings
variable {orders : Orders} (ho : orders.WellFormed) {i j : ℕ} (hi : i < orders.length)
  (hj : j < orders.length) {mids : List TwNode}
include ho

/-- A stop of an order is a node of this order and of no other one. -/
theorem isNodeOf_of_mem_stops {k : ℕ} (hk : k < orders.length) {t : TwNode}
    (ht : t ∈ (orders.get k).stops) (hi : i < orders.length) :
    isNodeOf (orders.get i) t = decide (i = k) := by
  by_cases hik : i = k
  · subst hik
    rcases List.mem_pair.mp ht with rfl | rfl <;> simp [isNodeOf]
  · rw [decide_eq_false hik]
    rcases List.mem_pair.mp ht with rfl | rfl
    · exact isNodeOf_pickup ho hi hk hik
    · exact isNodeOf_delivery ho hi hk hik

include hi hj

/-- What a route has of two orders is one of their interleavings. -/
theorem ServesInOrder.filter_mem (hij : i ≠ j) (h : ServesInOrder orders i j mids) :
    mids.filter (fun t => isNodeOf (orders.get i) t || isNodeOf (orders.get j) t) ∈
      interleavings (orders.get i) (orders.get j) := by
  have hexcl : ∀ t ∈ mids, isNodeOf (orders.get i) t = true → isNodeOf (orders.get j) t = false := by
    intro t ht hti
    rw [← Bool.not_eq_true]
    exact fun htj => hij (isNodeOf_unique ho hi hj hti htj)
  generalize hl : mids.filter
    (fun t => isNodeOf (orders.get i) t || isNodeOf (orders.get j) t) = l
  have hmem : ∀ t ∈ l, isNodeOf (orders.get j) t = !isNodeOf (orders.get i) t := by
    intro t ht
    rw [← hl] at ht
    obtain ⟨htm, hor⟩ := List.mem_filter.mp ht
    cases hti : isNodeOf (orders.get i) t with
    | true => rw [hexcl t htm hti]; rfl
    | false => simpa [hti] using hor
  have hfi : l.filter (isNodeOf (orders.get i)) = (orders.get i).stops := by
    rw [← h.first, ← hl, List.filter_filter]
    exact List.filter_congr fun t _ => by cases isNodeOf (orders.get i) t <;> simp
  have hfj : l.filter (isNodeOf (orders.get j)) = (orders.get j).stops := by
    rw [← h.second, ← hl, List.filter_filter]
    exact List.filter_congr fun t _ => by cases isNodeOf (orders.get j) t <;> simp
  have hbefore : [(orders.get i).pickup.toTwNode, (orders.get j).pickup.toTwNode].Sublist l := by
    have := h.before.filter fun t => isNodeOf (orders.get i) t || isNodeOf (orders.get j) t
    rw [hl] at this
    simpa [isNodeOf] using this
  have hsix := ListEdit.interleaved hmem hfi hfj
  -- the pickup of `j` is not the first stop
  have hpp : (orders.get i).pickup.toTwNode ≠ (orders.get j).pickup.toTwNode := fun he =>
    hij (ho.pickup_inj i hi j hj (congrArg TwNode.idx he))
  have hpd : (orders.get j).pickup.toTwNode ≠ (orders.get i).delivery.toTwNode := fun he =>
    ho.pickup_ne_delivery j hj i hi (congrArg TwNode.idx he)
  have hpd' : (orders.get j).pickup.toTwNode ≠ (orders.get j).delivery.toTwNode := fun he =>
    ho.pickup_ne_delivery j hj j hj (congrArg TwNode.idx he)
  have hno : ∀ {r : List TwNode}, (orders.get j).pickup.toTwNode ∉ r →
      ¬ [(orders.get i).pickup.toTwNode, (orders.get j).pickup.toTwNode].Sublist
        ((orders.get j).pickup.toTwNode :: r) := by
    intro r hr hsub
    rcases List.sublist_cons_iff.mp hsub with hsub | ⟨r', hr', -⟩
    · exact hr (hsub.subset (by simp))
    · exact hpp (List.cons.inj hr').1
  simp only [List.mem_cons, List.not_mem_nil, or_false, interleavings] at hsix ⊢
  rcases hsix with rfl | rfl | rfl | rfl | rfl | rfl
  · exact Or.inl rfl
  · exact Or.inr (Or.inl rfl)
  · exact Or.inr (Or.inr rfl)
  · exact absurd hbefore (hno (by simp [hpp.symm, hpd, hpd']))
  · exact absurd hbefore (hno (by simp [hpp.symm, hpd, hpd']))
  · exact absurd hbefore (hno (by simp [hpp.symm, hpd, hpd']))

/-- The interleavings serve the two orders. -/
theorem servesInOrder_of_mem (hij : i ≠ j)
    (h : mids ∈ interleavings (orders.get i) (orders.get j)) : ServesInOrder orders i j mids := by
  have hpi : ∀ k < orders.length, isNodeOf (orders.get k) (orders.get i).pickup.toTwNode =
      decide (k = i) := fun k hk => isNodeOf_of_mem_stops ho hi (by simp [Order.stops]) hk
  have hdi : ∀ k < orders.length, isNodeOf (orders.get k) (orders.get i).delivery.toTwNode =
      decide (k = i) := fun k hk => isNodeOf_of_mem_stops ho hi (by simp [Order.stops]) hk
  have hpj : ∀ k < orders.length, isNodeOf (orders.get k) (orders.get j).pickup.toTwNode =
      decide (k = j) := fun k hk => isNodeOf_of_mem_stops ho hj (by simp [Order.stops]) hk
  have hdj : ∀ k < orders.length, isNodeOf (orders.get k) (orders.get j).delivery.toTwNode =
      decide (k = j) := fun k hk => isNodeOf_of_mem_stops ho hj (by simp [Order.stops]) hk
  have hvisits : ∀ k < orders.length, visits (orders.get k) mids =
      if k = i then (orders.get i).stops else if k = j then (orders.get j).stops else [] := by
    intro k hk
    simp only [interleavings, List.mem_cons, List.not_mem_nil, or_false] at h
    rcases h with rfl | rfl | rfl <;>
      · simp only [visits, List.filter_cons, List.filter_nil, hpi k hk, hdi k hk, hpj k hk, hdj k hk,
          Order.stops]
        by_cases hki : k = i
        · subst hki
          simp [hij]
        · by_cases hkj : k = j
          · subst hkj
            simp [hki]
          · simp [hki, hkj]
  refine ⟨fun t ht => ?_, fun k hk => ?_, ?_, ?_, ?_⟩
  · simp only [interleavings, List.mem_cons, List.not_mem_nil, or_false] at h
    have hor : t ∈ (orders.get i).stops ∨ t ∈ (orders.get j).stops := by
      simp only [Order.stops, List.mem_cons, List.not_mem_nil, or_false]
      rcases h with rfl | rfl | rfl <;>
        · simp only [List.mem_cons, List.not_mem_nil, or_false] at ht
          tauto
    exact hor.elim (fun hs => ⟨i, hi, hs⟩) fun hs => ⟨j, hj, hs⟩
  · rw [hvisits k hk]
    split_ifs with h1 h2
    · exact Or.inr (by rw [h1])
    · exact Or.inr (by rw [h2])
    · exact Or.inl rfl
  · rw [hvisits i hi, if_pos rfl]
  · rw [hvisits j hj, if_neg hij.symm, if_pos rfl]
  · simp only [interleavings, List.mem_cons, List.not_mem_nil, or_false] at h
    rcases h with rfl | rfl | rfl <;> simp

end Interleavings

/-! ### Leaving the other orders out -/

/-- The demands and the service times that the driver accepts. -/
structure Orders.Accepted (orders : Orders) : Prop where
  demand : ∀ k < orders.length, 0 ≤ (orders.get k).pickup.demand
  balanced : orders.Balanced
  service : ∀ k < orders.length, ∀ t ∈ (orders.get k).stops, 0 ≤ t.serviceTime

/-- The sites of the vehicle load nothing and are no nodes of orders. -/
structure Vehicle.Sited (orders : Orders) (v : Vehicle) : Prop where
  types : v.front.type = .kStart ∧ v.back.type = .kEnd
  demand : v.front.demand = 0 ∧ v.back.demand = 0
  service : 0 ≤ v.front.serviceTime ∧ 0 ≤ v.back.serviceTime
  opens : v.front.opens ≤ v.front.closes
  other : ∀ k < orders.length, isNodeOf (orders.get k) v.front.toTwNode = false ∧
    isNodeOf (orders.get k) v.back.toTwNode = false

/-- The identifiers of the nodes that a route of the vehicle can have. -/
def Vehicle.nodeIds (orders : Orders) (v : Vehicle) : List ℤ :=
  v.front.id :: v.back.id :: orders.flatMap fun o => [o.pickup.id, o.delivery.id]

section Routes
variable {M : Matrix} {orders : Orders} (ho : orders.WellFormed) {v : Vehicle}
  {mids : List TwNode} (hmids : ∀ t ∈ mids, ∃ k < orders.length, t ∈ (orders.get k).stops)
include ho hmids

/-- The nodes of a route are pickups and deliveries between its sites. -/
theorem type_of_known : ∀ t ∈ mids, t.type = .kPickup ∨ t.type = .kDelivery := by
  intro t ht
  obtain ⟨k, hk, hks⟩ := hmids t ht
  rcases List.mem_pair.mp hks with rfl | rfl
  · exact Or.inl (ho.typed k hk).pickup
  · exact Or.inr (ho.typed k hk).delivery

omit ho in
theorem id_mem_nodeIds : ∀ t ∈ v.front.toTwNode :: (mids ++ [v.back.toTwNode]),
    t.id ∈ v.nodeIds orders := by
  intro t ht
  rcases List.mem_cons.mp ht with rfl | ht
  · exact List.mem_cons_self
  refine List.mem_cons_of_mem _ ?_
  rcases List.mem_append.mp ht with ht | ht
  · obtain ⟨k, hk, hks⟩ := hmids t ht
    refine List.mem_cons_of_mem _ (List.mem_flatMap.mpr ⟨_, Orders.get_mem hk, ?_⟩)
    rcases List.mem_pair.mp hks with rfl | rfl <;> simp
  · rw [List.mem_singleton.mp ht]
    exact List.mem_cons_self

omit ho in
/-- Every node of a route can be visited. -/
theorem visitable (hacc : orders.Accepted) (hv : v.Sited orders) :
    ∀ t ∈ v.front.toTwNode :: (mids ++ [v.back.toTwNode]), Visitable (v.nodeIds orders) t := by
  intro t ht
  refine ⟨id_mem_nodeIds hmids t ht, ?_⟩
  rw [List.mem_cons, List.mem_append, List.mem_singleton] at ht
  rcases ht with rfl | ht | rfl
  · exact hv.service.1
  · obtain ⟨k, hk, hks⟩ := hmids t ht
    exact hacc.service k hk t hks
  · exact hv.service.2

/-- The violations of a route of the vehicle. -/
theorem noViolation_routeWith_iff (hM : StaticTravel M v.speed (v.nodeIds orders))
    (hv : v.Sited orders) : NoViolation v.capacity (v.routeWith M mids) ↔
      lates (driving M v.speed) TwNode.opens TwNode.closes TwNode.serviceTime
        (v.front.opens + v.front.serviceTime) v.front.toTwNode (mids ++ [v.back.toTwNode]) = 0 ∧
      overloads TwNode.demand (badLoad v.capacity) 0
        (v.front.toTwNode :: (mids ++ [v.back.toTwNode])) = 0 := by
  have hN : nodesOf (v.front :: (mids.map VehicleNode.ofTwNode ++ [v.back])) =
      v.front.toTwNode :: (mids ++ [v.back.toTwNode]) := by
    simp [nodesOf, Function.comp_def, VehicleNode.toTwNode_ofTwNode]
  have hd : NoDump (v.front :: (mids.map VehicleNode.ofTwNode ++ [v.back])) := by
    refine noDump_iff_nodes.mpr fun t ht => ?_
    rw [hN, List.mem_cons, List.mem_append, List.mem_singleton] at ht
    rcases ht with rfl | ht | rfl
    · simp [hv.types.1]
    · rcases type_of_known ho hmids t ht with h | h <;> simp [h]
    · simp [hv.types.2]
  have hroute : nodesOf (v.routeWith M mids) = v.front.toTwNode :: (mids ++ [v.back.toTwNode]) :=
    (nodesOf_evaluatePath M v.capacity v.speed 0 hd).trans hN
  have hs : Settled M v.capacity v.speed 0 (v.routeWith M mids) :=
    settled_evaluatePath M v.capacity v.speed 0 _
  have hd' : NoDump (v.routeWith M mids) := noDump_iff_nodes.mpr (by
    rw [hroute, ← hN]
    exact noDump_iff_nodes.mp hd)
  refine noViolation_iff hs hd' hroute hM ?_ hv.opens
  rw [hroute]
  exact id_mem_nodeIds hmids

end Routes

section Filter
variable {M : Matrix} {orders : Orders} (ho : orders.WellFormed) (hacc : orders.Accepted)
  {v : Vehicle} (hv : v.Sited orders) {i j : ℕ} (hi : i < orders.length) (hj : j < orders.length)
  {mids : List TwNode} (h : ServesInOrder orders i j mids)
include hv

/-- The sites are not visits of an order. -/
theorem visits_route {k : ℕ} (hk : k < orders.length) (mids : List TwNode) :
    visits (orders.get k) (v.front.toTwNode :: (mids ++ [v.back.toTwNode])) =
      visits (orders.get k) mids := by
  obtain ⟨h1, h2⟩ := hv.other k hk
  simp [visits, h1, h2]

include ho hacc hi hj h

section Part
variable {L : List TwNode} (hL : L <+: v.front.toTwNode :: (mids ++ [v.back.toTwNode]))
include hL

omit ho hi hj in
/-- An order that is picked up on a part of the route from the start on is delivered at most once. -/
theorem load_visits_nonneg {k : ℕ} (hk : k < orders.length) :
    0 ≤ load TwNode.demand (visits (orders.get k) L) := by
  have hp : visits (orders.get k) L <+: visits (orders.get k) mids := by
    rw [← visits_route hv hk mids]
    exact hL.filter _
  rcases h.whole k hk with hw | hw
  · rw [hw] at hp
    rw [List.prefix_nil.mp hp, load_nil]
  · rw [hw] at hp
    exact load_stops_nonneg (hacc.demand k hk) (hacc.balanced k hk) hp

variable {q : TwNode → Bool}
  (hq : ∀ t, (isNodeOf (orders.get i) t || isNodeOf (orders.get j) t) = true → q t = true)
  (hother : ∀ t ∈ mids, q t = true →
    (isNodeOf (orders.get i) t || isNodeOf (orders.get j) t) = true)
include hq hother

omit hacc h in
/-- Without the other orders, the visits of the two stay and there are no other ones. -/
theorem visits_filter {k : ℕ} (hk : k < orders.length) : visits (orders.get k) (L.filter q) =
    if k = i ∨ k = j then visits (orders.get k) L else [] := by
  unfold visits
  rw [List.filter_filter]
  split_ifs with hkij
  · refine List.filter_congr fun t _ => ?_
    cases hkt : isNodeOf (orders.get k) t with
    | false => rfl
    | true =>
      rw [hq t (by rcases hkij with rfl | rfl <;> simp [hkt])]
      rfl
  · refine List.filter_eq_nil_iff.mpr fun t ht hboth => ?_
    obtain ⟨hkt, hqt⟩ := Bool.and_eq_true_iff.mp hboth
    have ht := hL.subset ht
    rw [List.mem_cons, List.mem_append, List.mem_singleton] at ht
    rcases ht with rfl | ht | rfl
    · exact Bool.false_ne_true ((hv.other k hk).1.symm.trans hkt)
    · rcases Bool.or_eq_true_iff.mp (hother t ht hqt) with hit | hjt
      · exact hkij (Or.inl (isNodeOf_unique ho hk hi hkt hit))
      · exact hkij (Or.inr (isNodeOf_unique ho hk hj hkt hjt))
    · exact Bool.false_ne_true ((hv.other k hk).2.symm.trans hkt)

/-- What the two orders load on a part of the route from the start on is not negative and not more
than what all orders load. -/
theorem load_filter_le : 0 ≤ load TwNode.demand (L.filter q) ∧
    load TwNode.demand (L.filter q) ≤ load TwNode.demand L := by
  have hknown : ∀ t ∈ L, t.demand = 0 ∨ ∃ k < orders.length, isNodeOf (orders.get k) t = true := by
    intro t ht
    have ht := hL.subset ht
    rw [List.mem_cons, List.mem_append, List.mem_singleton] at ht
    rcases ht with rfl | ht | rfl
    · exact Or.inl hv.demand.1
    · obtain ⟨k, hk, hks⟩ := h.known t ht
      exact Or.inr ⟨k, hk, by rw [isNodeOf_of_mem_stops ho hk hks hk, decide_eq_true rfl]⟩
    · exact Or.inl hv.demand.2
  have hpart : ∀ k ∈ Finset.range orders.length, 0 ≤ load TwNode.demand (visits (orders.get k) L) :=
    fun k hk => load_visits_nonneg hacc hv h hL (Finset.mem_range.mp hk)
  rw [load_eq_sum ho fun t ht => hknown t (List.mem_of_mem_filter ht), load_eq_sum ho hknown]
  constructor
  · refine Finset.sum_nonneg fun k hk => ?_
    rw [visits_filter ho hv hi hj hL hq hother (Finset.mem_range.mp hk)]
    split_ifs
    · exact hpart k hk
    · exact le_rfl
  · refine Finset.sum_le_sum fun k hk => ?_
    rw [visits_filter ho hv hi hj hL hq hother (Finset.mem_range.mp hk)]
    split_ifs
    · exact le_rfl
    · exact hpart k hk

end Part

/-- **A route without violations has none when the other orders are left out.** -/
theorem noViolation_filter (hM : StaticTravel M v.speed (v.nodeIds orders))
    (hroute : NoViolation v.capacity (v.routeWith M mids)) :
    NoViolation v.capacity (v.routeWith M (mids.filter fun t =>
      isNodeOf (orders.get i) t || isNodeOf (orders.get j) t)) := by
  obtain ⟨hlate, hload⟩ := (noViolation_routeWith_iff ho h.known hM hv).mp hroute
  let q : TwNode → Bool := fun t => (isNodeOf (orders.get i) t || isNodeOf (orders.get j) t) ||
    decide (t.type = .kStart ∨ t.type = .kEnd)
  have hmid : ∀ t ∈ mids, q t = (isNodeOf (orders.get i) t || isNodeOf (orders.get j) t) := by
    intro t ht
    rcases type_of_known ho h.known t ht with hk | hk <;> simp [q, hk]
  have hback : (mids ++ [v.back.toTwNode]).filter q = mids.filter (fun t =>
      isNodeOf (orders.get i) t || isNodeOf (orders.get j) t) ++ [v.back.toTwNode] := by
    rw [List.filter_append, List.filter_cons_of_pos (by simp [q, hv.types.2]), List.filter_nil,
      List.filter_congr hmid]
  refine (noViolation_routeWith_iff ho (fun t ht => h.known t (List.mem_of_mem_filter ht)) hM
    hv).mpr ⟨?_, ?_⟩
  · rw [← hback, ← Nat.le_zero, ← hlate]
    exact lates_driving_filter_le hM (visitable h.known hacc hv) q
  · rw [← hback, ← List.filter_cons_of_pos (p := q) (a := v.front.toTwNode)
      (by simp [q, hv.types.1])]
    refine overloads_filter (fun pre t post hl hq hgood => ?_) hload
    have hprefix : pre ++ [t] <+: v.front.toTwNode :: (mids ++ [v.back.toTwNode]) :=
      ⟨post, by rw [hl]; simp⟩
    obtain ⟨hnonneg, hle⟩ := load_filter_le ho hacc hv hi hj h hprefix (q := q)
      (fun t ht => by simp [q, ht]) (fun t ht hqt => by rwa [hmid t ht] at hqt)
    rw [List.filter_append, List.filter_cons_of_pos hq, List.filter_nil] at hnonneg hle
    simp only [load_append, load_cons, load_nil, add_zero] at hnonneg hle
    unfold badLoad at hgood ⊢
    split_ifs at hgood ⊢
    · rw [decide_eq_false_iff_not] at hgood ⊢
      omega
    · rw [decide_eq_false_iff_not] at hgood ⊢
      omega

end Filter

/-! ### The checks of a pair -/

theorem mem_stops_of_interleaving {I J : Order} {mids : List TwNode}
    (h : mids ∈ interleavings I J) {t : TwNode} (ht : t ∈ mids) : t ∈ I.stops ++ J.stops := by
  simp only [interleavings, List.mem_cons, List.not_mem_nil, or_false] at h
  simp only [Order.stops, List.mem_append, List.mem_cons, List.not_mem_nil, or_false]
  rcases h with rfl | rfl | rfl <;>
    · simp only [List.mem_cons, List.not_mem_nil, or_false] at ht
      tauto

/-- The orders pass when on one of their interleavings every stop passes with every later one. -/
theorem Order.isCompatibleIJ_of_pairwise {M : Matrix} {speed : ℚ} {I J : Order} {mids : List TwNode}
    (hmem : mids ∈ interleavings I J)
    (h : mids.Pairwise fun b c => c.isCompatibleIJ M b speed = true) :
    J.isCompatibleIJ M I speed = true := by
  simp only [interleavings, List.mem_cons, List.not_mem_nil, or_false] at hmem
  simp only [Order.isCompatibleIJ, Bool.and_eq_true, Bool.or_eq_true]
  rcases hmem with rfl | rfl | rfl
  · simp only [List.pairwise_cons, List.mem_cons, List.not_mem_nil, or_false, forall_eq_or_imp,
      forall_eq] at h
    obtain ⟨⟨-, h1, h2⟩, ⟨h3, h4⟩, -⟩ := h
    exact ⟨⟨h1, h2⟩, Or.inl (Or.inl ⟨h3, h4⟩)⟩
  · simp only [List.pairwise_cons, List.mem_cons, List.not_mem_nil, or_false, forall_eq_or_imp,
      forall_eq] at h
    obtain ⟨⟨h1, -, h2⟩, ⟨h3, -⟩, h4, -⟩ := h
    exact ⟨⟨h1, h2⟩, Or.inl (Or.inr ⟨h3, h4⟩)⟩
  · simp only [List.pairwise_cons, List.mem_cons, List.not_mem_nil, or_false, forall_eq_or_imp,
      forall_eq] at h
    obtain ⟨⟨h1, h2, -⟩, ⟨-, h3⟩, h4, -⟩ := h
    exact ⟨⟨h1, h2⟩, Or.inr ⟨h3, h4⟩⟩

/-- When every check of two nodes passes at a second speed, so does the check of the orders. -/
theorem Order.isCompatibleIJ_mono {M : Matrix} {I J : Order} {s s' : ℚ}
    (h : ∀ b ∈ I.stops ++ J.stops, ∀ c ∈ I.stops ++ J.stops, c.isCompatibleIJ M b s = true →
      c.isCompatibleIJ M b s' = true) :
    J.isCompatibleIJ M I s = true → J.isCompatibleIJ M I s' = true := by
  have hstop : ∀ t, (t = I.pickup.toTwNode ∨ t = I.delivery.toTwNode ∨ t = J.pickup.toTwNode ∨
      t = J.delivery.toTwNode) → t ∈ I.stops ++ J.stops := fun t ht => by
    simpa [Order.stops] using ht
  simp only [Order.isCompatibleIJ, Bool.and_eq_true, Bool.or_eq_true]
  refine And.imp (And.imp (h _ (hstop _ (by simp)) _ (hstop _ (by simp)))
    (h _ (hstop _ (by simp)) _ (hstop _ (by simp)))) (Or.imp (Or.imp ?_ ?_) ?_)
  · exact And.imp (h _ (hstop _ (by simp)) _ (hstop _ (by simp)))
      (h _ (hstop _ (by simp)) _ (hstop _ (by simp)))
  · exact And.imp (h _ (hstop _ (by simp)) _ (hstop _ (by simp)))
      (h _ (hstop _ (by simp)) _ (hstop _ (by simp)))
  · exact And.imp (h _ (hstop _ (by simp)) _ (hstop _ (by simp)))
      (h _ (hstop _ (by simp)) _ (hstop _ (by simp)))

section Pairs
variable {M : Matrix} {orders : Orders} (ho : orders.WellFormed) {v : Vehicle} {i j : ℕ}
  (hi : i < orders.length) (hj : j < orders.length) (hij : i ≠ j)
  (hM : StaticTravel M v.speed (v.nodeIds orders))
include ho hi hj hM

/-- The check of two stops, when travel times are static. -/
theorem isCompatibleIJ_stops {b c : TwNode} (hb : b ∈ (orders.get i).stops ++ (orders.get j).stops)
    (hc : c ∈ (orders.get i).stops ++ (orders.get j).stops) :
    (c.isCompatibleIJ M b v.speed = true ↔
      b.opens + b.serviceTime + driving M v.speed b c ≤ c.closes) ∧
    ((∀ a ∈ v.nodeIds orders, ∀ b ∈ v.nodeIds orders, 0 ≤ drivingTime M v.speed a b 0) →
      0 < v.speed → v.speed ≤ 1 → c.isCompatibleIJ M b v.speed = true →
      c.isCompatibleIJ M b 1 = true) := by
  have hstop : ∀ t ∈ (orders.get i).stops ++ (orders.get j).stops,
      t.id ∈ v.nodeIds orders ∧ t.type ≠ .kStart ∧ t.type ≠ .kEnd := by
    intro t ht
    have hknown : ∃ k < orders.length, t ∈ (orders.get k).stops :=
      (List.mem_append.mp ht).elim (fun h => ⟨i, hi, h⟩) fun h => ⟨j, hj, h⟩
    have hmem : t ∈ v.front.toTwNode :: ([t] ++ [v.back.toTwNode]) := by simp
    refine ⟨id_mem_nodeIds (by simpa using hknown) t hmem, ?_⟩
    rcases type_of_known ho (by simpa using hknown) t (List.mem_singleton_self t) with h | h <;>
      simp [h]
  obtain ⟨hbid, -, hbt⟩ := hstop b hb
  obtain ⟨hcid, hct, -⟩ := hstop c hc
  rw [TwNode.isCompatibleIJ_iff M v.speed hct hbt, TwNode.isCompatibleIJ_iff M 1 hct hbt]
  constructor
  · rw [hM.static _ hbid _ hcid]
    rfl
  · intro hnonneg h0 h1 h
    have h2 := hnonneg _ hbid _ hcid
    rw [← hM.static _ hbid _ hcid (b.opens + b.serviceTime)] at h2
    have h3 := drivingTime_one_le h0 h1 h2
    omega

include hij

/-- **Two orders that a route of them alone serves pass the checks.** -/
theorem isCompatibleIJ_of_noViolation (hacc : orders.Accepted) (hv : v.Sited orders)
    {mids : List TwNode} (hmem : mids ∈ interleavings (orders.get i) (orders.get j))
    (hroute : NoViolation v.capacity (v.routeWith M mids)) :
    (orders.get j).isCompatibleIJ M (orders.get i) v.speed = true := by
  have hserves := servesInOrder_of_mem ho hi hj hij hmem
  obtain ⟨hlate, -⟩ := (noViolation_routeWith_iff ho hserves.known hM hv).mp hroute
  have hS := visitable hserves.known hacc hv
  have hpairs : (v.front.toTwNode :: (mids ++ [v.back.toTwNode])).Pairwise fun b c =>
      b.opens + b.serviceTime + driving M v.speed b c ≤ c.closes := pairwise_driving hM hS hlate
  have hmids := hpairs.sublist ((List.sublist_append_left mids [v.back.toTwNode]).cons _)
  refine Order.isCompatibleIJ_of_pairwise hmem (hmids.imp_of_mem fun hb hc hle => ?_)
  exact (isCompatibleIJ_stops ho hi hj hM (mem_stops_of_interleaving hmem hb)
    (mem_stops_of_interleaving hmem hc)).1.mpr hle

end Pairs

/-! ### The tables of a built problem -/

/-- The tables have every pair of orders that a route of the vehicle serves. -/
def TablesSound (M : Matrix) (orders : Orders) (v : Vehicle) : Prop :=
  ∀ i < orders.length, ∀ j < orders.length, i ≠ j → ∀ mids, ServesInOrder orders i j mids →
    NoViolation v.capacity (v.routeWith M mids) →
      j ∈ (orders.get i).compatibleJ ∧ i ∈ (orders.get j).compatibleI

/-- The pairs of orders that the vehicle serves in a route of these two alone pass the checks at
speed 1. -/
def PairsPass (M : Matrix) (orders : Orders) (v : Vehicle) : Prop :=
  ∀ i < orders.length, ∀ j < orders.length, i ≠ j →
    (∃ mids ∈ interleavings (orders.get i) (orders.get j),
      NoViolation v.capacity (v.routeWith M mids)) →
    (orders.get j).isCompatibleIJ M (orders.get i) 1 = true

namespace PickDeliver.Built

variable {S : Sorter} {M : Matrix} {pOrders : List OrdersT} {pVehicles : List VehicleT}
  {newStops : List ShortVehicle} {p : PickDeliver} (h : p.Built S M pOrders pVehicles newStops)
include h

theorem accepted (hservice : ∀ d ∈ pOrders, 0 ≤ d.pickServiceT ∧ 0 ≤ d.deliverServiceT) :
    p.orders.Accepted := by
  refine ⟨fun k hk => ?_, fun k hk => ?_, fun k hk t ht => ?_⟩ <;>
    obtain ⟨d, hd, hp, hdel⟩ := h.exists_orderData hk
  · rw [hp]
    exact Int.natCast_nonneg d.demand
  · rw [hp, hdel]
    rfl
  · rcases List.mem_pair.mp ht with rfl | rfl
    · rw [hp]
      exact (hservice d hd).1
    · rw [hdel]
      exact (hservice d hd).2

theorem sited (hsites : ∀ d ∈ pVehicles, 0 ≤ d.startServiceT ∧ 0 ≤ d.endServiceT) {v : Vehicle}
    (hv : v ∈ p.trucks.vehicles) : v.Sited p.orders := by
  obtain ⟨k, d, ⟨n, hn, hmade⟩, hd⟩ := h.exists_made hv
  have hfront : v.front.toTwNode = .ofVehicle n d .kStart := by rw [hmade]; rfl
  have hback : v.back.toTwNode = .ofVehicle (n + 1) d .kEnd := by rw [hmade]; rfl
  have hservice : 0 ≤ d.startServiceT ∧ 0 ≤ d.endServiceT := by
    rcases hd with ⟨hd, -⟩ | ⟨first, -, rfl⟩
    · exact hsites d hd
    · exact ⟨le_rfl, le_rfl⟩
  refine ⟨?_, ?_, ?_, h.front_opens hv, fun i hi => ?_⟩
  · rw [hfront, hback]
    exact ⟨rfl, rfl⟩
  · rw [hfront, hback]
    exact ⟨rfl, rfl⟩
  · rw [hfront, hback]
    exact hservice
  · obtain ⟨data, -, hp, hdel⟩ := h.exists_orderData hi
    rw [h.length] at hi
    rw [hfront, hback]
    simp only [isNodeOf, decide_eq_false_iff_not, hp, hdel]
    simp only [TwNode.ofVehicle, TwNode.ofOrder, if_true, reduceCtorEq, if_false]
    omega

end PickDeliver.Built

/-- **The tables are sound for a vehicle exactly when they have the pairs that it serves alone**,
and so for every vehicle that is not faster than 1. -/
theorem tables_sound_iff {S : Sorter} {M : Matrix} {pOrders : List OrdersT}
    {pVehicles : List VehicleT} {newStops : List ShortVehicle} {p : PickDeliver}
    (hp : PickDeliver.build S M pOrders pVehicles newStops = .ok p)
    (hservice : ∀ d ∈ pOrders, 0 ≤ d.pickServiceT ∧ 0 ≤ d.deliverServiceT)
    (hsites : ∀ d ∈ pVehicles, 0 ≤ d.startServiceT ∧ 0 ≤ d.endServiceT) {v : Vehicle}
    (hv : v ∈ p.trucks.vehicles) (hM : StaticTravel M v.speed (v.nodeIds p.orders))
    (hnonneg : ∀ a ∈ v.nodeIds p.orders, ∀ b ∈ v.nodeIds p.orders,
      0 ≤ drivingTime M v.speed a b 0) :
    (TablesSound M p.orders v ↔ PairsPass M p.orders v) ∧
      (0 < v.speed → v.speed ≤ 1 → TablesSound M p.orders v) := by
  have hb := PickDeliver.build_built hp
  have ho := hb.wellFormed
  have hacc := hb.accepted hservice
  have hsited := hb.sited hsites hv
  have hiff : TablesSound M p.orders v ↔ PairsPass M p.orders v := by
    constructor
    · rintro hsound i hi j hj hij ⟨mids, hmem, hroute⟩
      exact (mem_tables_iff hp hi hj hij).1.mp
        (hsound i hi j hj hij mids (servesInOrder_of_mem ho hi hj hij hmem) hroute).1
    · intro hpairs i hi j hj hij mids hserves hroute
      have hpass := hpairs i hi j hj hij ⟨_, hserves.filter_mem ho hi hj hij,
        noViolation_filter ho hacc hsited hi hj hserves hM hroute⟩
      exact ⟨(mem_tables_iff hp hi hj hij).1.mpr hpass, (mem_tables_iff hp hi hj hij).2.mpr hpass⟩
  refine ⟨hiff, fun h0 h1 => hiff.mpr fun i hi j hj hij hex => ?_⟩
  obtain ⟨mids, hmem, hroute⟩ := hex
  refine Order.isCompatibleIJ_mono (fun b hb c hc =>
    (isCompatibleIJ_stops ho hi hj hM hb hc).2 hnonneg h0 h1) ?_
  exact isCompatibleIJ_of_noViolation ho hi hj hij hM hacc hsited hmem hroute

/-! ### Small problems -/

/-- Two orders that a vehicle of speed 1 serves. -/
theorem tables_sound_small : ∃ p,
    PickDeliver.build .insertion twoSites [smallOrderData 1 100, smallOrderData 2 50]
      [smallVehicleData 7 []] [] = .ok p ∧
    ∃ v ∈ p.trucks.vehicles, v.id = 7 ∧ TablesSound twoSites p.orders v := by
  obtain ⟨p, hp, htest⟩ := exists_ok_and (x := PickDeliver.build .insertion twoSites
    [smallOrderData 1 100, smallOrderData 2 50] [smallVehicleData 7 []] [])
    (fun p => decide (∃ v ∈ p.trucks.vehicles, v.id = 7 ∧ v.speed = 1 ∧
      v.nodeIds p.orders ⊆ [1, 2])) (by decide +kernel)
  obtain ⟨v, hv, hid, hspeed, hsub⟩ := of_decide_eq_true htest
  have hM : StaticTravel twoSites v.speed (v.nodeIds p.orders) := by
    rw [hspeed]
    exact (twoSites_static (by decide +kernel)).mono hsub
  have hnonneg : ∀ a ∈ [1, 2], ∀ b ∈ [1, 2], 0 ≤ drivingTime twoSites 1 a b 0 := by decide +kernel
  refine ⟨p, hp, v, hv, hid, (tables_sound_iff hp (by decide) (by decide) hv hM
    fun a ha b hb => ?_).2 (by rw [hspeed]; exact zero_lt_one) (by rw [hspeed])⟩
  rw [hspeed]
  exact hnonneg a (hsub ha) b (hsub hb)

/-- At speed 2 the way takes 2 and not 5 time units: the vehicle serves the second order, which
closes at 3, after the first one. -/
theorem tables_miss_fast : ∃ p,
    PickDeliver.build .insertion twoSites
      [⟨1, 1, 1, 0, 100, 0, 1, 0, 100, 0⟩, ⟨2, 1, 2, 0, 3, 0, 2, 0, 100, 0⟩]
      [⟨7, 1, 2, 1, [], 1, 0, 100, 0, 1, 0, 100, 0⟩] [] = .ok p ∧
    ∃ v ∈ p.trucks.vehicles, v.id = 7 ∧ v.speed = 2 ∧
      StaticTravel twoSites v.speed (v.nodeIds p.orders) ∧
      (∀ a ∈ v.nodeIds p.orders, ∀ b ∈ v.nodeIds p.orders, 0 ≤ drivingTime twoSites v.speed a b 0) ∧
      ∃ i < p.orders.length, ∃ j < p.orders.length, ∃ mids, ServesInOrder p.orders i j mids ∧
        NoViolation v.capacity (v.routeWith twoSites mids) ∧
        j ∉ (p.orders.get i).compatibleJ ∧ i ∉ (p.orders.get j).compatibleI := by
  obtain ⟨p, hp, htest⟩ := exists_ok_and (x := PickDeliver.build .insertion twoSites
    [⟨1, 1, 1, 0, 100, 0, 1, 0, 100, 0⟩, ⟨2, 1, 2, 0, 3, 0, 2, 0, 100, 0⟩]
    [⟨7, 1, 2, 1, [], 1, 0, 100, 0, 1, 0, 100, 0⟩] [])
    (fun p => decide (p.orders.length = 2 ∧ 1 ∉ (p.orders.get 0).compatibleJ ∧
      0 ∉ (p.orders.get 1).compatibleI ∧ ∃ v ∈ p.trucks.vehicles, v.id = 7 ∧ v.speed = 2 ∧
      v.nodeIds p.orders ⊆ [1, 2] ∧ ∃ mids ∈ interleavings (p.orders.get 0) (p.orders.get 1),
        NoViolation v.capacity (v.routeWith twoSites mids))) (by decide +kernel)
  obtain ⟨hlen, hJ, hI, v, hv, hid, hspeed, hsub, mids, hmem, hroute⟩ := of_decide_eq_true htest
  have hnonneg : ∀ a ∈ [1, 2], ∀ b ∈ [1, 2], 0 ≤ drivingTime twoSites 2 a b 0 := by decide +kernel
  refine ⟨p, hp, v, hv, hid, hspeed, ?_, fun a ha b hb => ?_, 0, by omega, 1, by omega, mids,
    servesInOrder_of_mem (PickDeliver.build_built hp).wellFormed (by omega) (by omega) (by omega)
      hmem, hroute, hJ, hI⟩
  · rw [hspeed]
    exact (twoSites_static (by decide +kernel)).mono hsub
  · rw [hspeed]
    exact hnonneg a (hsub ha) b (hsub hb)

end VrpRouting
