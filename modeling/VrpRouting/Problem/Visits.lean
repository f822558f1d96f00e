import VrpRouting.Problem.Removal

/-! # The visits of an order

`visits o N` are the stops of the nodes `N` that belong to the order `o`. A vehicle carries an order
when these are its pickup and then its delivery, and is free of it when there are none. An insertion
or a removal of another order does not change the visits of an order, because no two orders of a
problem share a node (`Orders.WellFormed`). -/

namespace VrpRouting

/-- The node is the pickup or the delivery of the order. -/
def isNodeOf (o : Order) (t : TwNode) : Bool :=
  decide (t.idx = o.pickup.idx ∨ t.idx = o.delivery.idx)

def visits (o : Order) (N : List TwNode) : List TwNode := N.filter (isNodeOf o)

/-- One pickup, one delivery, in this order. -/
def Carries (o : Order) (v : Vehicle) : Prop :=
  visits o (nodesOf v.path) = [o.pickup.toTwNode, o.delivery.toTwNode]

def Free (o : Order) (v : Vehicle) : Prop := visits o (nodesOf v.path) = []

instance (o : Order) (v : Vehicle) : Decidable (Carries o v) := by unfold Carries; infer_instance

instance (o : Order) (v : Vehicle) : Decidable (Free o v) := by unfold Free; infer_instance

theorem Carries.not_free {o : Order} {v : Vehicle} (h : Carries o v) : ¬ Free o v := by
  unfold Free
  rw [h]
  simp

theorem Free.not_carries {o : Order} {v : Vehicle} (h : Free o v) : ¬ Carries o v :=
  fun hc => hc.not_free h

/-- The number of vehicles that carry the order. -/
def carriers (o : Order) (F : List Vehicle) : ℕ := F.countP fun v => decide (Carries o v)

theorem carriers_perm {o : Order} {F F' : List Vehicle} (h : F.Perm F') :
    carriers o F = carriers o F' := h.countP_eq _

theorem carriers_cons (o : Order) (v : Vehicle) (F : List Vehicle) :
    carriers o (v :: F) = carriers o F + if Carries o v then 1 else 0 := by
  unfold carriers
  rw [List.countP_cons]
  simp

/-- The orders of a problem: the index of an order is its position, and no node is shared. -/
structure Orders.WellFormed (orders : Orders) : Prop where
  idx : ∀ i < orders.length, (orders.get i).idx = i
  typed : ∀ i < orders.length, (orders.get i).Typed
  pickup_ne_delivery : ∀ i < orders.length, ∀ j < orders.length,
    (orders.get i).pickup.idx ≠ (orders.get j).delivery.idx
  pickup_inj : ∀ i < orders.length, ∀ j < orders.length,
    (orders.get i).pickup.idx = (orders.get j).pickup.idx → i = j
  delivery_inj : ∀ i < orders.length, ∀ j < orders.length,
    (orders.get i).delivery.idx = (orders.get j).delivery.idx → i = j

section Movable
variable {orders : Orders} (ho : orders.WellFormed) {i : ℕ} (hi : i < orders.length) (v : Vehicle)
include ho hi

theorem hasOrder_get_iff : v.hasOrder (orders.get i) = true ↔ i ∈ v.ordersInVehicle := by
  rw [Vehicle.hasOrder, ho.idx i hi, Identifiers.has_iff]

/-- A vehicle that gives an order away keeps the other ones. -/
theorem mem_eraseOrder_iff (M : Matrix) {j : ℕ} :
    j ∈ (v.eraseOrder M (orders.get i)).ordersInVehicle ↔ j ∈ v.ordersInVehicle ∧ j ≠ i := by
  rw [eraseOrder_others, Identifiers.mem_erase, ho.idx i hi]

end Movable

section Nodes
variable {orders : Orders} (ho : orders.WellFormed) {i j : ℕ} (hi : i < orders.length)
  (hj : j < orders.length)
include ho hi hj

/-- The nodes of another order are none of this one. -/
theorem isNodeOf_pickup (hij : i ≠ j) :
    isNodeOf (orders.get i) (orders.get j).pickup.toTwNode = false := by
  have h1 : (orders.get j).pickup.idx ≠ (orders.get i).pickup.idx :=
    fun h => hij (ho.pickup_inj i hi j hj h.symm)
  have h2 := ho.pickup_ne_delivery j hj i hi
  simp [isNodeOf, h1, h2]

theorem isNodeOf_delivery (hij : i ≠ j) :
    isNodeOf (orders.get i) (orders.get j).delivery.toTwNode = false := by
  have h1 : (orders.get j).delivery.idx ≠ (orders.get i).delivery.idx :=
    fun h => hij (ho.delivery_inj i hi j hj h.symm)
  have h2 := ho.pickup_ne_delivery i hi j hj
  simp [isNodeOf, h1, h2.symm]

theorem isNodeOf_of_hasIdx_pickup (hij : i ≠ j) (t : TwNode)
    (ht : hasIdx (orders.get j).pickup.idx t = true) : isNodeOf (orders.get i) t = false := by
  have := isNodeOf_pickup ho hi hj hij
  simp only [isNodeOf, hasIdx, decide_eq_true_eq, decide_eq_false_iff_not] at *
  rwa [← ht]

theorem isNodeOf_of_hasIdx_delivery (hij : i ≠ j) (t : TwNode)
    (ht : hasIdx (orders.get j).delivery.idx t = true) : isNodeOf (orders.get i) t = false := by
  have := isNodeOf_delivery ho hi hj hij
  simp only [isNodeOf, hasIdx, decide_eq_true_eq, decide_eq_false_iff_not] at *
  rwa [← ht]

/-- A node belongs to one order at most. -/
theorem isNodeOf_unique {t : TwNode} (hti : isNodeOf (orders.get i) t = true)
    (htj : isNodeOf (orders.get j) t = true) : i = j := by
  simp only [isNodeOf, decide_eq_true_eq] at hti htj
  rcases hti with hti | hti <;> rcases htj with htj | htj
  · exact ho.pickup_inj i hi j hj (hti.symm.trans htj)
  · exact absurd (hti.symm.trans htj) (ho.pickup_ne_delivery i hi j hj)
  · exact absurd (htj.symm.trans hti) (ho.pickup_ne_delivery j hj i hi)
  · exact ho.delivery_inj i hi j hj (hti.symm.trans htj)

end Nodes

theorem isNodeOf_of_hasIdx {o : Order} {t : TwNode}
    (ht : hasIdx o.pickup.idx t = true ∨ hasIdx o.delivery.idx t = true) : isNodeOf o t = true := by
  simp only [isNodeOf, hasIdx, decide_eq_true_eq] at *
  rcases ht with h | h
  · exact Or.inl h.symm
  · exact Or.inr h.symm

theorem hasIdx_of_not_isNodeOf {o : Order} {t : TwNode} (h : isNodeOf o t = false) :
    hasIdx o.pickup.idx t = false ∧ hasIdx o.delivery.idx t = false := by
  have hne : ∀ {b : Bool}, (b = true → isNodeOf o t = true) → b = false := fun hb => by
    rw [← Bool.not_eq_true]
    exact fun ht => Bool.false_ne_true (h.symm.trans (hb ht))
  exact ⟨hne fun ht => isNodeOf_of_hasIdx (Or.inl ht), hne fun ht => isNodeOf_of_hasIdx (Or.inr ht)⟩

/-! ### Insertions and removals -/

theorem Inserted.carries {M : Matrix} {o : Order} {v w : Vehicle} (h : Inserted M v o w)
    (hf : Free o v) : Carries o w := by
  obtain ⟨p, d, -, hpd, hd, hN⟩ := h.positions
  unfold Carries visits
  rw [hN]
  exact ListEdit.filter_insertIdx_insertIdx (by simp [isNodeOf]) (by simp [isNodeOf]) _ p d hpd
    (by rw [length_nodesOf]; omega) hf

theorem eraseOrder_visits {M : Matrix} {o : Order} {v : Vehicle} (hv : NoDump v.path) :
    visits o (nodesOf (v.eraseOrder M o).path) =
      ((visits o (nodesOf v.path)).eraseP (hasIdx o.pickup.idx)).eraseP (hasIdx o.delivery.idx) := by
  unfold visits
  rw [eraseOrder_nodes hv, ListEdit.filter_eraseP fun t ht => isNodeOf_of_hasIdx (Or.inr ht),
    ListEdit.filter_eraseP fun t ht => isNodeOf_of_hasIdx (Or.inl ht)]

/-- Removal of an order that is not there does not bring it. -/
theorem eraseOrder_free_of_free {M : Matrix} {o : Order} {v : Vehicle} (hv : NoDump v.path)
    (hf : Free o v) : Free o (v.eraseOrder M o) := by
  unfold Free at *
  rw [eraseOrder_visits hv, hf]
  rfl

theorem eraseOrder_free {M : Matrix} {o : Order} {v : Vehicle} (hv : NoDump v.path)
    (hc : Carries o v) : Free o (v.eraseOrder M o) := by
  unfold Carries at hc
  unfold Free
  rw [eraseOrder_visits hv, hc]
  simp [hasIdx]

section Edits
variable {M : Matrix} {orders : Orders} (ho : orders.WellFormed) {i j : ℕ}
  (hi : i < orders.length) (hj : j < orders.length) {v w : Vehicle}
include ho hi

include hj in
theorem Loaded.visits_other (h : Loaded M v (orders.get j) w) (hij : i ≠ j) :
    visits (orders.get i) (nodesOf w.path) = visits (orders.get i) (nodesOf v.path) := by
  obtain ⟨p, d, -, -, -, -, hN⟩ := h.positions
  unfold visits
  rw [hN, ListEdit.filter_insertIdx_of_neg (isNodeOf_delivery ho hi hj hij),
    ListEdit.filter_insertIdx_of_neg (isNodeOf_pickup ho hi hj hij)]

include hj in
theorem Inserted.visits_other (h : Inserted M v (orders.get j) w) (hij : i ≠ j) :
    visits (orders.get i) (nodesOf w.path) = visits (orders.get i) (nodesOf v.path) :=
  h.loaded.visits_other ho hi hj hij

include hj in
theorem eraseOrder_visits_other (hv : NoDump v.path) (hij : i ≠ j) :
    visits (orders.get i) (nodesOf (v.eraseOrder M (orders.get j)).path) =
      visits (orders.get i) (nodesOf v.path) := by
  unfold visits
  rw [eraseOrder_nodes hv,
    ListEdit.filter_eraseP_of_neg (isNodeOf_of_hasIdx_delivery ho hi hj hij),
    ListEdit.filter_eraseP_of_neg (isNodeOf_of_hasIdx_pickup ho hi hj hij)]

end Edits

/-! ### Routes of a problem -/

/-- What every vehicle of a problem satisfies: its path leads from its starting site over nodes of
orders to its ending site, and its movable orders are orders of the problem. -/
structure RouteOf (orders : Orders) (v : Vehicle) : Prop where
  route : IsRoute (nodesOf v.path)
  sites : ∀ t ∈ nodesOf v.path, t.type = .kStart ∨ t.type = .kEnd →
    ∀ i < orders.length, isNodeOf (orders.get i) t = false
  movable : ∀ i ∈ v.ordersInVehicle, i < orders.length

theorem RouteOf.noDump {orders : Orders} {v : Vehicle} (h : RouteOf orders v) : NoDump v.path :=
  noDump_iff_nodes.mpr h.route.noDump

theorem IsRoute.eraseP {N : List TwNode} {q : TwNode → Bool} (h : IsRoute N)
    (hq : ∀ t ∈ N, t.type = .kStart ∨ t.type = .kEnd → q t = false) : IsRoute (N.eraseP q) := by
  obtain ⟨s, mids, e, rfl, hs, he, hm⟩ := h
  have hqs : ¬ q s = true := by simp [hq s (by simp) (Or.inl hs)]
  have hqe : ¬ q e = true := by simp [hq e (by simp) (Or.inr he)]
  refine ⟨s, mids.eraseP q, e, ?_, hs, he, fun t ht => hm t (List.mem_of_mem_eraseP ht)⟩
  rw [List.eraseP_cons_of_neg hqs, ListEdit.eraseP_append_of_neg (by simpa using hqe)]

section Closed
variable {M : Matrix} {orders : Orders} {v w : Vehicle} {i : ℕ} (hi : i < orders.length)
include hi

theorem RouteOf.eraseOrder (h : RouteOf orders v) :
    RouteOf orders (v.eraseOrder M (orders.get i)) := by
  have hsub : ∀ t ∈ nodesOf (v.eraseOrder M (orders.get i)).path, t ∈ nodesOf v.path := by
    intro t ht
    rw [eraseOrder_nodes h.noDump] at ht
    exact List.mem_of_mem_eraseP (List.mem_of_mem_eraseP ht)
  refine ⟨?_, fun t ht => h.sites t (hsub t ht), fun o hom => ?_⟩
  · have hq : ∀ t ∈ nodesOf v.path, t.type = .kStart ∨ t.type = .kEnd →
        hasIdx (orders.get i).pickup.idx t = false ∧ hasIdx (orders.get i).delivery.idx t = false := by
      intro t ht hs
      have := h.sites t ht hs i hi
      simp only [isNodeOf, decide_eq_false_iff_not, not_or] at this
      simp only [hasIdx, decide_eq_false_iff_not]
      exact ⟨fun h => this.1 h.symm, fun h => this.2 h.symm⟩
    rw [eraseOrder_nodes h.noDump]
    refine (h.route.eraseP fun t ht hs => (hq t ht hs).1).eraseP fun t ht hs => ?_
    exact (hq t (List.mem_of_mem_eraseP ht) hs).2
  · exact h.movable o (mem_of_mem_eraseOrder hom)

theorem RouteOf.loaded (ho : orders.WellFormed) (h : RouteOf orders v)
    (hw : Loaded M v (orders.get i) w) : RouteOf orders w := by
  obtain ⟨p, d, hp, hp', hd, hd', hN⟩ := hw.positions
  have ht := ho.typed i hi
  have hlen : ((nodesOf v.path).insertIdx p (orders.get i).pickup.toTwNode).length =
      v.path.length + 1 := by
    rw [List.length_insertIdx_of_le_length (by rw [length_nodesOf]; omega), length_nodesOf]
  refine ⟨?_, fun t htm hs => ?_, fun o hom => ?_⟩
  · rw [hN]
    exact (h.route.insertIdx (Or.inl ht.pickup) hp (by rw [length_nodesOf]; omega)).insertIdx
      (Or.inr ht.delivery) hd (by omega)
  · rw [hN] at htm
    rcases List.eq_or_mem_of_mem_insertIdx htm with rfl | htm
    · simp [ht.delivery] at hs
    · rcases List.eq_or_mem_of_mem_insertIdx htm with rfl | htm
      · simp [ht.pickup] at hs
      · exact h.sites t htm hs
  · rw [hw.others] at hom
    rcases Identifiers.mem_insert.mp hom with rfl | hom
    · rwa [ho.idx i hi]
    · exact h.movable o hom

theorem RouteOf.inserted (ho : orders.WellFormed) (h : RouteOf orders v)
    (hw : Inserted M v (orders.get i) w) : RouteOf orders w := h.loaded hi ho hw.loaded

omit hi in
theorem RouteOf.unchanged (h : RouteOf orders v) (hw : Unchanged M v w) : RouteOf orders w := by
  refine ⟨?_, ?_, ?_⟩
  · rw [hw.nodes]; exact h.route
  · rw [hw.nodes]; exact h.sites
  · have := hw.others
    unfold SameButPath at this
    rw [this]
    exact h.movable

end Closed

/-! ### Movable orders on their path -/

/-- The two stops of an order. -/
def Order.stops (o : Order) : List TwNode := [o.pickup.toTwNode, o.delivery.toTwNode]

/-- The movable orders of the vehicle are picked up and delivered on its path. -/
def Held (orders : Orders) (v : Vehicle) : Prop := ∀ i ∈ v.ordersInVehicle,
  (orders.get i).stops ⊆ visits (orders.get i) (nodesOf v.path)

section Held
variable {M : Matrix} {orders : Orders} {v w : Vehicle} {o : Order}

/-- An insertion keeps the stops that were there. -/
theorem Inserted.visits_subset (h : Inserted M v o w) (i : ℕ) :
    visits (orders.get i) (nodesOf v.path) ⊆ visits (orders.get i) (nodesOf w.path) := by
  obtain ⟨p, d, -, hpd, hd, hN⟩ := h.positions
  intro t ht
  obtain ⟨ht, hi⟩ := List.mem_filter.mp ht
  refine List.mem_filter.mpr ⟨?_, hi⟩
  have hlen := length_nodesOf v.path
  rw [hN]
  exact List.mem_insertIdx (by rw [List.length_insertIdx_of_le_length (by omega)]; omega) |>.mpr
    (Or.inr (List.mem_insertIdx (by omega) |>.mpr (Or.inr ht)))

theorem Inserted.stops_subset (h : Inserted M v o w) : o.stops ⊆ visits o (nodesOf w.path) := by
  obtain ⟨p, d, -, hpd, hd, hN⟩ := h.positions
  have hlen := length_nodesOf v.path
  have hd' : d ≤ ((nodesOf v.path).insertIdx p o.pickup.toTwNode).length := by
    rw [List.length_insertIdx_of_le_length (by omega)]
    omega
  intro t ht
  rw [visits, hN]
  rcases List.mem_pair.mp ht with rfl | rfl
  · exact List.mem_filter.mpr ⟨List.mem_insertIdx hd' |>.mpr
      (Or.inr (List.mem_insertIdx (by omega) |>.mpr (Or.inl rfl))), by simp [isNodeOf]⟩
  · exact List.mem_filter.mpr ⟨List.mem_insertIdx hd' |>.mpr (Or.inl rfl), by simp [isNodeOf]⟩

variable (ho : orders.WellFormed) {i : ℕ} (hlt : i < orders.length)
include ho hlt

theorem Held.eraseOrder (hr : RouteOf orders v) (h : Held orders v) :
    Held orders (v.eraseOrder M (orders.get i)) := by
  intro j hj
  rw [mem_eraseOrder_iff ho hlt] at hj
  rw [eraseOrder_visits_other ho (hr.movable j hj.1) hlt hr.noDump hj.2]
  exact h j hj.1

theorem Inserted.held (h : Inserted M v (orders.get i) w) (hv : Held orders v) : Held orders w := by
  intro j hj
  rw [h.others, Identifiers.mem_insert, ho.idx i hlt] at hj
  rcases hj with rfl | hj
  · exact h.stops_subset
  · exact List.Subset.trans (hv j hj) (h.visits_subset j)

end Held

end VrpRouting
