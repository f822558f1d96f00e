import VrpRouting.InitialSol.UserStops
import VrpRouting.Problem.Incremental

/-! # Routes built by `semiLIFO`

`semiLIFO` puts the pickup at the first position. The loop for the lowest position of the delivery
does not pass a pickup, so the delivery goes behind all pickups, whatever the time windows and the
speed are (`LifoShape.placed`). An erasure keeps the order of the other stops. A pickup that
`is_pickup` does not recognise, because its window is a single instant, is passed; so the orders
have to be valid. -/

namespace VrpRouting

/-- The pickup and the delivery of the order are valid nodes. -/
structure Order.ValidNodes (o : Order) : Prop where
  pickup : o.pickup.isPickup = true
  delivery : o.delivery.isDelivery = true

theorem Order.ValidNodes.typed {o : Order} (h : o.ValidNodes) : o.Typed where
  pickup := (of_decide_eq_true h.pickup).1
  delivery := (of_decide_eq_true h.delivery).1

/-- From a starting site over pickups, then deliveries, to an ending site. -/
def LifoShape (N : List TwNode) : Prop :=
  ∃ s P D e, N = s :: (P ++ (D ++ [e])) ∧ s.type = .kStart ∧ e.type = .kEnd ∧
    (∀ t ∈ P, t.isPickup = true) ∧ ∀ t ∈ D, t.isDelivery = true

/-- Vehicles that come from the vehicle `v₀` by calls of `semiLIFO` and erasures of orders. -/
inductive LifoBuilt (M : Matrix) (orders : Orders) (v₀ : Vehicle) : Vehicle → Prop
  | start : LifoBuilt M orders v₀ v₀
  | semiLIFO {v : Vehicle} {i : ℕ} (h : LifoBuilt M orders v₀ v) (hi : i < orders.length)
      (ho : (orders.get i).ValidNodes) (hn : v.hasOrder (orders.get i) = false) :
      LifoBuilt M orders v₀ (v.semiLIFO M (orders.get i)).2
  | eraseOrder {v : Vehicle} {i : ℕ} (h : LifoBuilt M orders v₀ v) (hi : i < orders.length) :
      LifoBuilt M orders v₀ (v.eraseOrder M (orders.get i))

/-! ### The shape of the route -/

section Shape
variable {M : Matrix} {v : Vehicle} {o : Order}

/-- The lowest position for a delivery is behind the last pickup. -/
theorem LifoShape.lt_dropPosLowLimit {s e : TwNode} {P D : List TwNode} {w : Vehicle}
    (hN : nodesOf w.path = s :: (P ++ (D ++ [e]))) (hP : ∀ t ∈ P, t.isPickup = true)
    (hne : P ≠ []) (n : TwNode) : P.length < w.getDropPosLowLimit M n := by
  have hpos : 0 < P.length := List.length_pos_iff.mpr hne
  have hlen : P.length < w.path.length := by
    rw [← length_nodesOf, hN]
    simp only [List.length_cons, List.length_append]
    omega
  have hlast : (w.stop P.length).toTwNode = P.getLast hne := by
    rw [toTwNode_stop, hN, List.getD_eq_getElem?_getD, List.getElem?_cons, if_neg hpos.ne',
      List.getElem?_append_left (by omega), List.getLast_eq_getElem,
      List.getElem?_eq_getElem (by omega)]
    rfl
  refine (dropPosLowLimitLoop_bounds M w n (j := P.length) (Or.inr ?_) w.size hlen).1
  rw [hlast]
  exact hP _ (List.getLast_mem hne)

/-- **The delivery goes behind all pickups.** -/
theorem LifoShape.placed (hv : IsRoute (nodesOf v.path)) (ho : o.ValidNodes)
    (h : LifoShape (nodesOf v.path)) (hplaced : LifoPlaced M v o
      ((v.insert M 1 o.pickup).getDropPosLowLimit M o.delivery.toTwNode) (v.semiLIFO M o)) :
    LifoShape (nodesOf (v.semiLIFO M o).2.path) := by
  obtain ⟨s, P, D, e, hN, hs, he, hP, hD⟩ := h
  obtain ⟨d, u, hlow, hd, hu, -, hr⟩ := hplaced
  have hP' : ∀ t ∈ o.pickup.toTwNode :: P, t.isPickup = true :=
    List.forall_mem_cons.mpr ⟨ho.pickup, hP⟩
  have hN1 : nodesOf (v.insert M 1 o.pickup).path =
      s :: ((o.pickup.toTwNode :: P) ++ (D ++ [e])) := by
    rw [(edited_withPickup hv ho.typed).nodes, hN]
    rfl
  have hbound := LifoShape.lt_dropPosLowLimit (M := M) hN1 hP' (List.cons_ne_nil _ _)
    o.delivery.toTwNode
  have hlen : v.path.length = P.length + D.length + 2 := by
    rw [← length_nodesOf, hN]
    simp only [List.length_cons, List.length_append, List.length_nil]
    omega
  -- the delivery is at the position `k` of the list of deliveries
  obtain ⟨k, rfl⟩ := Nat.exists_eq_add_of_le (show P.length + 2 ≤ d by
    rw [List.length_cons] at hbound
    omega)
  rw [hr]
  refine ⟨s, o.pickup.toTwNode :: P, D.insertIdx k o.delivery.toTwNode, e, ?_, hs, he, hP',
    fun t ht => ?_⟩
  · rw [hu.nodes, hN, show (s :: (P ++ (D ++ [e]))).insertIdx 1 o.pickup.toTwNode =
      (s :: o.pickup.toTwNode :: P) ++ (D ++ [e]) from rfl,
      show P.length + 2 + k = (s :: o.pickup.toTwNode :: P).length + k from rfl,
      ListEdit.insertIdx_append_add, ListEdit.insertIdx_append_of_le _ _ _ (by omega)]
    rfl
  · rcases List.eq_or_mem_of_mem_insertIdx ht with rfl | ht
    · exact ho.delivery
    · exact hD t ht

/-- A deletion that spares the sites keeps the shape. -/
theorem LifoShape.eraseP {N : List TwNode} {q : TwNode → Bool} (h : LifoShape N)
    (hq : ∀ t ∈ N, t.type = .kStart ∨ t.type = .kEnd → q t = false) : LifoShape (N.eraseP q) := by
  obtain ⟨s, P, D, e, rfl, hs, he, hP, hD⟩ := h
  have hqs : ¬ q s = true := by simp [hq s (by simp) (Or.inl hs)]
  have hqe : ¬ q e = true := by simp [hq e (by simp) (Or.inr he)]
  rw [List.eraseP_cons_of_neg hqs, List.eraseP_append]
  split_ifs
  · exact ⟨s, P.eraseP q, D, e, rfl, hs, he, fun t ht => hP t (List.mem_of_mem_eraseP ht), hD⟩
  · refine ⟨s, P, D.eraseP q, e, ?_, hs, he, hP, fun t ht => hD t (List.mem_of_mem_eraseP ht)⟩
    rw [ListEdit.eraseP_append_of_neg (by simpa using hqe)]

end Shape

/-! ### Runs of insertions and erasures -/

section Runs
variable {M : Matrix} {orders : Orders} {v v₀ : Vehicle} {i : ℕ}

theorem semiLIFO_routeOf (ho : orders.WellFormed) (hi : i < orders.length)
    (h : RouteOf orders v) : RouteOf orders (v.semiLIFO M (orders.get i)).2 := by
  rcases semiLIFO_spec (M := M) h.route (ho.typed i hi) with ⟨-, hw, -⟩ | ⟨-, hw⟩
  · exact h.loaded hi ho hw
  · exact h.unchanged hw

theorem LifoShape.semiLIFO (hv : IsRoute (nodesOf v.path)) {o : Order} (hvalid : o.ValidNodes)
    (h : LifoShape (nodesOf v.path)) : LifoShape (nodesOf (v.semiLIFO M o).2.path) := by
  rcases semiLIFO_placed (M := M) hv hvalid.typed with hplaced | ⟨-, hw⟩
  · exact h.placed hv hvalid hplaced
  · rw [hw.nodes]
    exact h

theorem LifoShape.eraseOrder (hi : i < orders.length) (hv : RouteOf orders v)
    (h : LifoShape (nodesOf v.path)) :
    LifoShape (nodesOf (v.eraseOrder M (orders.get i)).path) := by
  have hsites := fun t ht hs => hasIdx_of_not_isNodeOf (hv.sites t ht hs i hi)
  rw [eraseOrder_nodes hv.noDump]
  exact (h.eraseP fun t ht hs => (hsites t ht hs).1).eraseP fun t ht hs =>
    (hsites t (List.mem_of_mem_eraseP ht) hs).2

theorem Fresh.lifoShape (h : Fresh M orders v₀) : LifoShape (nodesOf v₀.path) := by
  obtain ⟨a, b, hN, ha, hb, -⟩ := h.sites
  exact ⟨a, [], [], b, hN, ha, hb, by simp, by simp⟩

/-- What holds of a vehicle without orders and is kept by `semiLIFO` and by the erasures. -/
theorem LifoBuilt.shape (ho : orders.WellFormed) (h₀ : Fresh M orders v₀) {v : Vehicle}
    (h : LifoBuilt M orders v₀ v) : RouteOf orders v ∧ LifoShape (nodesOf v.path) := by
  induction h with
  | start => exact ⟨h₀.route, h₀.lifoShape⟩
  | semiLIFO _ hi hvalid _ ih =>
    exact ⟨semiLIFO_routeOf ho hi ih.1, ih.2.semiLIFO ih.1.route hvalid⟩
  | eraseOrder _ hi ih => exact ⟨ih.1.eraseOrder hi, ih.2.eraseOrder hi ih.1⟩

end Runs

/-- **`semiLIFO` is atomic and keeps the depot shape.** -/
theorem semiLIFO_atomic_lifo (M : Matrix) :
    (∀ (v : Vehicle) (o : Order), IsRoute (nodesOf v.path) → UpToDate M v → o.ValidNodes →
      ((v.semiLIFO M o).1 = false → (v.semiLIFO M o).2 = v) ∧
      ((v.semiLIFO M o).1 = true → (v.semiLIFO M o).2.isFeasible = true ∧
        (v.semiLIFO M o).2.hasOrder o = true ∧ Inserted M v o (v.semiLIFO M o).2 ∧
        ((v.semiLIFO M o).2.stop 1).toTwNode = o.pickup.toTwNode)) ∧
    ∀ (orders : Orders) (v₀ v : Vehicle), orders.WellFormed → Fresh M orders v₀ →
      LifoBuilt M orders v₀ v → LifoShape (nodesOf v.path) := by
  refine ⟨fun v o hv hs hvalid => ?_, fun orders v₀ v ho h₀ h => (h.shape ho h₀).2⟩
  have ho := hvalid.typed
  rcases semiLIFO_placed (M := M) hv ho with ⟨d, u, hlow, hd, hu, hf, hr⟩ | ⟨hfalse, hw⟩
  · have h2 : 2 ≤ d := (two_le_dropPosLowLimit hv ho hvalid.pickup _).trans hlow
    have hn := hv.two_le
    rw [hr]
    refine ⟨fun h => absurd h (by simp), fun _ => ⟨hf, ?_, hu.inserted le_rfl h2 hd le_rfl, ?_⟩⟩
    · exact Identifiers.has_iff.mpr (Identifiers.mem_insert.mpr (Or.inl rfl))
    · change (u.stop 1).toTwNode = _
      rw [toTwNode_stop, hu.nodes, List.getD_eq_getElem?_getD,
        List.getElem?_insertIdx_of_lt (by omega), List.getElem?_insertIdx_self,
        if_pos (by omega)]
      rfl
  · exact ⟨fun _ => hw.settled hs, fun h => absurd (hfalse.symm.trans h) Bool.false_ne_true⟩

theorem climbTrip_fresh : Fresh twoSites climbOrders climbTrip where
  route := ⟨climbTrip_route, by decide +kernel, by decide +kernel⟩
  empty := rfl
  settled := construct_upToDate twoSites 0 7 _ _ [] 2 1 climbOrders
  movable := rfl
  userTwv := rfl
  userCv := rfl
  orders := rfl

/-- The vehicle with the second order. -/
def stackedTrip : Vehicle := (climbTrip.semiLIFO twoSites (climbOrders.get 1)).2

theorem stackedTrip_built : LifoBuilt twoSites climbOrders climbTrip stackedTrip :=
  .semiLIFO .start (by decide) ⟨by decide +kernel, by decide +kernel⟩ (by decide +kernel)

/-- The first order is put around the second one: both pickups are before both deliveries. -/
theorem semiLIFO_atomic_lifo_small :
    (stackedTrip.semiLIFO twoSites (climbOrders.get 0)).2.isFeasible = true ∧
    Inserted twoSites stackedTrip (climbOrders.get 0)
      (stackedTrip.semiLIFO twoSites (climbOrders.get 0)).2 ∧
    LifoShape (nodesOf (stackedTrip.semiLIFO twoSites (climbOrders.get 0)).2.path) := by
  have hvalid : (climbOrders.get 0).ValidNodes := ⟨by decide +kernel, by decide +kernel⟩
  have hlt : 0 < climbOrders.length := by decide
  have hfalse : stackedTrip.hasOrder (climbOrders.get 0) = false := by decide +kernel
  have hw : climbOrders.WellFormed := Orders.ofData_wellFormed _
  have hroute := (stackedTrip_built.shape hw climbTrip_fresh).1.route
  obtain ⟨hatomic, hshape⟩ := semiLIFO_atomic_lifo twoSites
  obtain ⟨hfeasible, -, hinserted, -⟩ :=
    (hatomic stackedTrip _ hroute (by decide +kernel) hvalid).2 (by decide +kernel)
  exact ⟨hfeasible, hinserted, hshape climbOrders climbTrip _ hw climbTrip_fresh
    (.semiLIFO stackedTrip_built hlt hvalid hfalse)⟩

end VrpRouting
