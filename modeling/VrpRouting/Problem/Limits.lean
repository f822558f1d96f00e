import VrpRouting.Problem.Compatibility
import VrpRouting.Problem.HillClimb

/-! # The limits of the positions

`position_limits` stops at the first stop from which the node cannot be reached in time, and at the
last one that cannot be reached in time from it (`fitsAt_iff`). The way to the node is measured at
the speed of the vehicle, the way from it at speed 1. With static travel times without short detours
no feasible pair of positions is above the limits; the pairs below them are exactly those with a stop
that speed 1 does not reach (`limits_sound_iff`), so a vehicle that is not faster than 1 has none. On
a vacant vehicle the limits are four direct ways (`vacant_agrees_iff`). -/

namespace VrpRouting

section Limits
variable {M : Matrix} {v : Vehicle}

theorem posLowLimitLoop_le_iff (n : TwNode) (k : ℕ) : ∀ high, v.posLowLimitLoop M n high ≤ k ↔
    ∀ i, k ≤ i → i < high → (v.stop i).isCompatibleIJ M n 1 = true
  | 0 => by simp [Vehicle.posLowLimitLoop]
  | high + 1 => by
    unfold Vehicle.posLowLimitLoop
    split_ifs with hc
    · rw [posLowLimitLoop_le_iff n k high]
      refine forall_congr' fun i => forall_congr' fun hi => ⟨fun h hlt => ?_, fun h hlt => ?_⟩
      · rcases Nat.lt_succ_iff_lt_or_eq.mp hlt with hlt | rfl
        · exact h hlt
        · exact hc
      · exact h (by omega)
    · constructor
      · intro hle i hi hlt
        omega
      · intro h
        by_contra hle
        exact hc (h high (by omega) (by omega))

/-- Every stop from position `k` on can be reached in time, at speed 1. -/
theorem getPosLowLimit_le_iff (n : TwNode) {k : ℕ} : v.getPosLowLimit M n ≤ k ↔
    ∀ x ∈ (nodesOf v.path).drop k, x.isCompatibleIJ M n 1 = true := by
  unfold Vehicle.getPosLowLimit
  rw [posLowLimitLoop_le_iff]
  constructor
  · intro h x hx
    obtain ⟨i, hi, rfl⟩ := List.getElem_of_mem hx
    rw [List.length_drop, length_nodesOf] at hi
    have := h (k + i) (by omega) (by unfold Vehicle.size; omega)
    rw [toTwNode_stop, List.getD_eq_getElem _ _ (by rw [length_nodesOf]; omega)] at this
    rwa [List.getElem_drop]
  · intro h i hk hi
    have hi : i < (nodesOf v.path).length := by
      rw [length_nodesOf]
      exact hi
    rw [toTwNode_stop, List.getD_eq_getElem _ _ hi]
    refine h _ (List.mem_iff_getElem.mpr ⟨i - k, by rw [List.length_drop]; omega, ?_⟩)
    rw [List.getElem_drop]
    congr 1
    omega

/-- The node can be reached in time from every stop before position `k`. -/
theorem le_getPosHighLimit_iff (n : TwNode) {k : ℕ} (hk : k ≤ v.path.length) :
    k ≤ v.getPosHighLimit M n ↔ ∀ x ∈ (nodesOf v.path).take k,
      n.isCompatibleIJ M x v.speed = true := by
  unfold Vehicle.getPosHighLimit
  rw [ListEdit.le_length_takeWhile_iff hk]
  unfold nodesOf
  rw [← List.map_take]
  simp only [List.forall_mem_map]

/-- **A pair of positions is inside the limits** when every stop can be reached directly from the
nodes that it follows. -/
theorem fitsAt_iff {o : Order} {p d : ℕ} (hpd : p < d) (hd : d ≤ v.path.length) :
    v.FitsAt M o p d ↔
      ((∀ x ∈ (nodesOf v.path).drop p, x.isCompatibleIJ M o.pickup.toTwNode 1 = true) ∧
        ∀ x ∈ (nodesOf v.path).drop (d - 1), x.isCompatibleIJ M o.delivery.toTwNode 1 = true) ∧
      ((∀ x ∈ (nodesOf v.path).take p, o.pickup.isCompatibleIJ M x v.speed = true) ∧
        ∀ x ∈ (nodesOf v.path).take (d - 1), o.delivery.isCompatibleIJ M x v.speed = true) ∧
      (v.trial M o p d).isFeasible = true := by
  rw [← getPosLowLimit_le_iff, ← getPosLowLimit_le_iff, ← le_getPosHighLimit_iff _ (by omega),
    ← le_getPosHighLimit_iff _ (by omega)]
  constructor
  · rintro ⟨h1, h2, h3, h4, -, hf⟩
    dsimp only [Vehicle.positionLimits] at h1 h2 h3 h4
    exact ⟨⟨h1, by omega⟩, ⟨h2, by omega⟩, hf⟩
  · rintro ⟨⟨h1, h3⟩, ⟨h2, h4⟩, hf⟩
    refine ⟨h1, h2, ?_, ?_, hd, hf⟩ <;> dsimp only [Vehicle.positionLimits] <;> omega

end Limits

/-! ### Static travel times -/

/-- The limits leave out no pair of positions at which the order makes no violation. -/
def LimitsSound (M : Matrix) (v : Vehicle) (o : Order) : Prop :=
  ∀ p d, 1 ≤ p → p < d → d ≤ v.path.length → NoViolation v.capacity (v.trial M o p d).path →
    v.FitsAt M o p d

/-- Where the order makes no violation, the stops behind its nodes can be reached directly from them,
at speed 1, in time. -/
def ReachedAtOne (M : Matrix) (v : Vehicle) (o : Order) : Prop :=
  ∀ p d, 1 ≤ p → p < d → d ≤ v.path.length → NoViolation v.capacity (v.trial M o p d).path →
    (∀ x ∈ (nodesOf v.path).drop p, x.isCompatibleIJ M o.pickup.toTwNode 1 = true) ∧
    ∀ x ∈ (nodesOf v.path).drop (d - 1), x.isCompatibleIJ M o.delivery.toTwNode 1 = true

/-- The nodes of the route and of the order are among `ids`, and no service takes negative time. -/
structure Vehicle.Travels (v : Vehicle) (o : Order) (ids : List ℤ) : Prop where
  route : ∀ t ∈ nodesOf v.path, t.id ∈ ids ∧ 0 ≤ t.serviceTime
  order : ∀ t ∈ o.stops, t.id ∈ ids ∧ 0 ≤ t.serviceTime

section Static
variable {M : Matrix} {v : Vehicle} {o : Order} (hv : IsRoute (nodesOf v.path)) (ho : o.Typed)
  (hs : Settled M v.capacity v.speed 0 v.path) {ids : List ℤ} (hM : StaticTravel M v.speed ids)
  (hids : v.Travels o ids) (hopen : v.front.opens ≤ v.front.closes)
include hv

/-- The nodes of a route, without its starting site and without its ending site. -/
theorem IsRoute.inner {p : ℕ} (hp : 1 ≤ p) (hlt : p < v.path.length) :
    (∀ x ∈ (nodesOf v.path).drop p, x.type ≠ .kStart) ∧
      ∀ x ∈ (nodesOf v.path).take p, x.type ≠ .kEnd := by
  obtain ⟨s, mids, e, hN, hs, he, hm⟩ := hv
  obtain ⟨p, rfl⟩ := Nat.exists_eq_add_of_le' hp
  have hlen : v.path.length = mids.length + 2 := by
    rw [← length_nodesOf, hN]
    simp
  rw [hN]
  constructor
  · intro x hx
    rw [List.drop_succ_cons] at hx
    rcases List.mem_append.mp (List.mem_of_mem_drop hx) with hx | hx
    · rcases hm x hx with h | h <;> simp [h]
    · rw [List.mem_singleton.mp hx, he]
      simp
  · intro x hx
    rw [List.take_succ_cons, List.take_append_of_le_length (by omega)] at hx
    rcases List.mem_cons.mp hx with rfl | hx
    · simp [hs]
    · rcases hm x (List.mem_of_mem_take hx) with h | h <;> simp [h]

include ho hs

/-- The route with the order at two positions. -/
theorem trial_route {p d : ℕ} (hp : 1 ≤ p) (hpd : p < d) (hd : d ≤ v.path.length) :
    Settled M v.capacity v.speed 0 (v.trial M o p d).path ∧
      nodesOf (v.trial M o p d).path = ((nodesOf v.path).insertIdx p
        o.pickup.toTwNode).insertIdx d o.delivery.toTwNode ∧
      IsRoute (nodesOf (v.trial M o p d).path) ∧
      (v.trial M o p d).front.toTwNode = v.front.toTwNode := by
  have hed := trial_edited hv ho hs (le_refl p) hpd
  have hlen : ((nodesOf v.path).insertIdx p o.pickup.toTwNode).length = v.path.length + 1 := by
    rw [List.length_insertIdx_of_le_length (by rw [length_nodesOf]; omega), length_nodesOf]
  have hset := hed.settled_path (by
    rw [List.length_insertIdx_of_le_length (by omega)]
    omega) hs
  refine ⟨hset, hed.nodes, ?_, ?_⟩
  · rw [hed.nodes]
    exact (hv.insertIdx (Or.inl ho.pickup) hp (by rw [length_nodesOf]; omega)).insertIdx
      (Or.inr ho.delivery) (by omega) (by omega)
  · obtain ⟨s, mids, e, hN, -⟩ := hv
    obtain ⟨p, rfl⟩ := Nat.exists_eq_add_of_le' hp
    obtain ⟨d, rfl⟩ := Nat.exists_eq_add_of_le' (by omega : 1 ≤ d)
    have hN' := hed.nodes
    rw [hN, List.insertIdx_succ_cons, List.insertIdx_succ_cons] at hN'
    rw [front_of_nodes hN, front_of_nodes hN']

include hopen

/-- The route with the order is feasible when it has no violation. -/
theorem trial_isFeasible_iff (htwv : v.userTwv = 0) (hcv : v.userCv = 0) {p d : ℕ} (hp : 1 ≤ p)
    (hpd : p < d) (hd : d ≤ v.path.length) : (v.trial M o p d).isFeasible = true ↔
      NoViolation v.capacity (v.trial M o p d).path := by
  obtain ⟨hset, -, -, hfront⟩ := trial_route hv ho hs hp hpd hd
  have hothers := (trial_edited hv ho hs (le_refl p) hpd).others
  generalize v.trial M o p d = w at *
  have hcap : w.capacity = v.capacity := by rw [hothers]
  have hspeed : w.speed = v.speed := by rw [hothers]
  rw [← hcap, ← hspeed] at hset
  rw [isFeasible_iff hset (by rw [hfront]; exact hopen) (by rw [hothers]; exact htwv)
    (by rw [hothers]; exact hcv), hcap]

include hM hids

/-- **Without a violation every node of the route is in time directly from the nodes of the order
before it, and they from the nodes before them.** -/
theorem trial_pairs {p d : ℕ} (hp : 1 ≤ p) (hpd : p < d) (hd : d ≤ v.path.length)
    (h : NoViolation v.capacity (v.trial M o p d).path) :
    ((∀ x ∈ (nodesOf v.path).drop p, x.isCompatibleIJ M o.pickup.toTwNode v.speed = true) ∧
      ∀ x ∈ (nodesOf v.path).drop (d - 1),
        x.isCompatibleIJ M o.delivery.toTwNode v.speed = true) ∧
    ((∀ x ∈ (nodesOf v.path).take p, o.pickup.isCompatibleIJ M x v.speed = true) ∧
      ∀ x ∈ (nodesOf v.path).take (d - 1), o.delivery.isCompatibleIJ M x v.speed = true) := by
  obtain ⟨hset, hN', hroute, hfront⟩ := trial_route hv ho hs hp hpd hd
  have hmem : ∀ t ∈ nodesOf (v.trial M o p d).path, t.id ∈ ids ∧ 0 ≤ t.serviceTime := by
    intro t ht
    rw [hN'] at ht
    rcases List.eq_or_mem_of_mem_insertIdx ht with rfl | ht
    · exact hids.order _ (by simp [Order.stops])
    · rcases List.eq_or_mem_of_mem_insertIdx ht with rfl | ht
      · exact hids.order _ (by simp [Order.stops])
      · exact hids.route t ht
  obtain ⟨s, ts, hcons⟩ : ∃ s ts, nodesOf (v.trial M o p d).path = s :: ts := by
    obtain ⟨s, mids, e, hN, -⟩ := hroute
    exact ⟨s, _, hN⟩
  have hs' : s = v.front.toTwNode := by rw [← hfront, front_of_nodes hcons]
  have hlate := ((noViolation_iff hset (noDump_iff_nodes.mpr hroute.noDump) hcons hM
    (fun t ht => (hmem t ht).1) (by rw [hs']; exact hopen)).mp h).1
  have hpairs := pairwise_driving hM (by rw [← hcons]; exact hmem) hlate
  rw [← hcons, hN'] at hpairs
  obtain ⟨h1, h2, h3, h4⟩ := ListEdit.pairwise_insertIdx_insertIdx hpd
    (by rw [length_nodesOf]; omega) hpairs
  have htest : ∀ b c : TwNode, b.id ∈ ids → c.id ∈ ids → b.type ≠ .kEnd → c.type ≠ .kStart →
      b.opens + b.serviceTime + driving M v.speed b c ≤ c.closes →
      c.isCompatibleIJ M b v.speed = true := fun b c hb hc hbt hct hle => by
    rw [TwNode.isCompatibleIJ_iff M v.speed hct hbt, hM.static _ hb _ hc]
    exact hle
  have hP := hids.order o.pickup.toTwNode (by simp [Order.stops])
  have hD := hids.order o.delivery.toTwNode (by simp [Order.stops])
  have hpt : o.pickup.type ≠ .kStart ∧ o.pickup.type ≠ .kEnd := by simp [ho.pickup]
  have hdt : o.delivery.type ≠ .kStart ∧ o.delivery.type ≠ .kEnd := by simp [ho.delivery]
  have hinp := hv.inner (p := p) hp (by omega)
  have hind := hv.inner (p := d - 1) (by omega) (by omega)
  refine ⟨⟨fun x hx => ?_, fun x hx => ?_⟩, fun x hx => ?_, fun x hx => ?_⟩
  · exact htest _ _ hP.1 (hids.route x (List.mem_of_mem_drop hx)).1 hpt.2 (hinp.1 x hx) (h2 x hx)
  · exact htest _ _ hD.1 (hids.route x (List.mem_of_mem_drop hx)).1 hdt.2 (hind.1 x hx) (h4 x hx)
  · exact htest _ _ (hids.route x (List.mem_of_mem_take hx)).1 hP.1 (hinp.2 x hx) hpt.1 (h1 x hx)
  · exact htest _ _ (hids.route x (List.mem_of_mem_take hx)).1 hD.1 (hind.2 x hx) hdt.1 (h3 x hx)

/-- **The limits are sound exactly when speed 1 is enough for the ways from the order**, and so for
every vehicle that is not faster. -/
theorem limits_sound_iff (htwv : v.userTwv = 0) (hcv : v.userCv = 0) :
    (LimitsSound M v o ↔ ReachedAtOne M v o) ∧
    (LimitsSound M v o → (v.hillClimb M o).1 = false → ∀ p d, 1 ≤ p → p < d → d ≤ v.path.length →
      ¬ NoViolation v.capacity (v.trial M o p d).path) ∧
    (0 < v.speed → v.speed ≤ 1 → (∀ a ∈ ids, ∀ b ∈ ids, 0 ≤ drivingTime M v.speed a b 0) →
      LimitsSound M v o) := by
  have hiff : LimitsSound M v o ↔ ReachedAtOne M v o := by
    refine forall_congr' fun p => forall_congr' fun d => forall_congr' fun hp =>
      forall_congr' fun hpd => forall_congr' fun hd => forall_congr' fun hnone => ?_
    rw [fitsAt_iff hpd hd]
    have hhigh := (trial_pairs hv ho hs hM hids hopen hp hpd hd hnone).2
    have hfeasible := (trial_isFeasible_iff hv ho hs hopen htwv hcv hp hpd hd).mpr hnone
    exact ⟨fun h => h.1, fun h => ⟨h, hhigh, hfeasible⟩⟩
  refine ⟨hiff, fun hsound hfalse p d hp hpd hd hnone => ?_, fun h0 h1 hnonneg => hiff.mpr ?_⟩
  · have htrue := (hillClimb_best hv ho hs).1.mpr ⟨p, d, hsound p d hp hpd hd hnone⟩
    rw [hfalse] at htrue
    exact Bool.false_ne_true htrue
  · intro p d hp hpd hd hnone
    obtain ⟨h2, h3⟩ := (trial_pairs hv ho hs hM hids hopen hp hpd hd hnone).1
    have hslow : ∀ b c : TwNode, b.id ∈ ids → c.id ∈ ids → b.type ≠ .kEnd → c.type ≠ .kStart →
        c.isCompatibleIJ M b v.speed = true → c.isCompatibleIJ M b 1 = true := by
      intro b c hb hc hbt hct
      rw [TwNode.isCompatibleIJ_iff M v.speed hct hbt, TwNode.isCompatibleIJ_iff M 1 hct hbt]
      intro hle
      have htravel := hnonneg _ hb _ hc
      rw [← hM.static _ hb _ hc (b.opens + b.serviceTime)] at htravel
      have := drivingTime_one_le h0 h1 htravel
      omega
    have hP := hids.order o.pickup.toTwNode (by simp [Order.stops])
    have hD := hids.order o.delivery.toTwNode (by simp [Order.stops])
    refine ⟨fun x hx => ?_, fun x hx => ?_⟩
    · exact hslow _ _ hP.1 (hids.route x (List.mem_of_mem_drop hx)).1 (by simp [ho.pickup])
        ((hv.inner hp (by omega)).1 x hx) (h2 x hx)
    · exact hslow _ _ hD.1 (hids.route x (List.mem_of_mem_drop hx)).1 (by simp [ho.delivery])
        ((hv.inner (by omega) (by omega)).1 x hx) (h3 x hx)

end Static

/-! ### Vacant vehicles -/

/-- The direct ways that the limits of a vacant vehicle test: from the start to the order at the
speed of the vehicle, from the order to the end at speed 1. -/
structure DirectWays (M : Matrix) (v : Vehicle) (o : Order) : Prop where
  pickupFromStart : o.pickup.isCompatibleIJ M v.front.toTwNode v.speed = true
  deliveryFromStart : o.delivery.isCompatibleIJ M v.front.toTwNode v.speed = true
  endFromPickup : v.back.isCompatibleIJ M o.pickup.toTwNode 1 = true
  endFromDelivery : v.back.isCompatibleIJ M o.delivery.toTwNode 1 = true

section Vacant
variable {M : Matrix} {v : Vehicle} {o : Order} (h : Vacant M v) (ho : o.Typed)
include h ho

/-- `push_back` and the insertion at the only positions make the same route. -/
theorem Vacant.trial_feasible :
    (v.trial M o 1 2).isFeasible = ({ v with path := v.soloRoute M o } : Vehicle).isFeasible ∧
    v.isOrderFeasible M o = ({ v with path := v.soloRoute M o } : Vehicle).isFeasible := by
  have hlen : v.path.length = 2 := by rw [← length_nodesOf, h.nodes_eq]; rfl
  have hpath : (v.trial M o 1 2).path = v.soloRoute M o := by
    obtain ⟨hset, hN, -⟩ := trial_route h.route ho h.settled (p := 1) (d := 2) le_rfl (by omega)
      hlen.ge
    unfold Settled at hset
    unfold Vehicle.soloRoute
    rw [← hset]
    refine evaluatePath_congr M _ _ 0 (by simp) ?_
    rw [hN, h.nodes_eq]
    rfl
  have hothers := (trial_edited h.route ho h.settled (le_refl 1) (by omega : 1 < 2)).others
  unfold SameButPath at hothers
  constructor
  · rw [hothers, hpath]
  · unfold Vehicle.isOrderFeasible
    have hpush := (pushBack_spec (M := M) h.route ho).others
    rw [hpush, h.pushBack_path ho]
    rfl

/-- The only positions on a vacant vehicle. -/
theorem Vacant.hillClimb_iff : (v.hillClimb M o).1 = true ↔
    DirectWays M v o ∧ (v.trial M o 1 2).isFeasible = true := by
  have hlen : v.path.length = 2 := by rw [← length_nodesOf, h.nodes_eq]; rfl
  have hfits : v.FitsAt M o 1 2 ↔ DirectWays M v o ∧ (v.trial M o 1 2).isFeasible = true := by
    rw [fitsAt_iff (by omega) hlen.ge, h.nodes_eq]
    simp only [List.drop_succ_cons, List.drop_zero, List.take_succ_cons, List.take_zero,
      List.forall_mem_singleton]
    constructor
    · rintro ⟨⟨h1, h2⟩, ⟨h3, h4⟩, hf⟩
      exact ⟨⟨h3, h4, h1, h2⟩, hf⟩
    · rintro ⟨⟨h3, h4, h1, h2⟩, hf⟩
      exact ⟨⟨h1, h2⟩, ⟨h3, h4⟩, hf⟩
  rw [(hillClimb_best h.route ho h.settled).1, ← hfits]
  constructor
  · rintro ⟨p, d, hfit⟩
    have h1 : 1 ≤ p := (getPosLowLimit_bounds M v o.pickup.toTwNode h.route).1.trans hfit.pickLow
    have h2 := hfit.deliverLow
    have h3 := hfit.beforeEnd
    obtain rfl : p = 1 := by omega
    obtain rfl : d = 2 := by omega
    exact hfit
  · exact fun hfit => ⟨1, 2, hfit⟩

/-- **On a vacant vehicle `hillClimb` agrees with `is_order_feasible` exactly when the four direct
ways are in time or the route with the order alone is not feasible.** -/
theorem vacant_agrees_iff : (v.hillClimb M o).1 = v.isOrderFeasible M o ↔
    (({ v with path := v.soloRoute M o } : Vehicle).isFeasible = true → DirectWays M v o) := by
  obtain ⟨htrial, hfeasible⟩ := h.trial_feasible ho
  rw [Bool.eq_iff_iff, h.hillClimb_iff ho, hfeasible, htrial]
  exact ⟨fun hiff hf => (hiff.mpr hf).1, fun hways => ⟨fun hb => hb.2, fun hf => ⟨hways hf, hf⟩⟩⟩

end Vacant

/-! ### A fast vehicle -/

/-- A vehicle of speed 2 from the site 1 to the site 2, which closes at 3. -/
def fastTrip : Vehicle :=
  .construct twoSites 0 7 (.ofTwNode ⟨4, 1, 0, 0, 100, 0, 0, .kStart⟩)
    (.ofTwNode ⟨5, 2, 0, 0, 3, 0, 0, .kEnd⟩) [] 1 2 climbOrders

theorem climbOrder_typed : (climbOrders.get 0).Typed := ⟨rfl, rfl⟩

theorem climbTrip_vacant : Vacant twoSites climbTrip := ⟨⟨_, _, rfl, rfl, rfl⟩, rfl⟩

theorem fastTrip_vacant : Vacant twoSites fastTrip := ⟨⟨_, _, rfl, rfl, rfl⟩, rfl⟩

theorem limits_sound_small : LimitsSound twoSites busyTrip (climbOrders.get 0) :=
  (limits_sound_iff busyTrip_route climbOrder_typed busyTrip_settled
    (twoSites_static (by decide +kernel)) ⟨by decide +kernel, by decide +kernel⟩ (by decide +kernel)
    rfl rfl).2.2 (by decide +kernel) (by decide +kernel) (by decide +kernel)

/-- The way takes 2 at the speed of the vehicle, and 5 at speed 1: the lowest position of the pickup
is behind the end. -/
theorem limits_miss_fast : Vacant twoSites fastTrip ∧ fastTrip.speed = 2 ∧
    StaticTravel twoSites 2 [1, 2] ∧ (∀ a ∈ [1, 2], ∀ b ∈ [1, 2], 0 ≤ drivingTime twoSites 2 a b 0) ∧
    fastTrip.Travels (climbOrders.get 0) [1, 2] ∧ fastTrip.userTwv = 0 ∧ fastTrip.userCv = 0 ∧
    NoViolation fastTrip.capacity (fastTrip.trial twoSites (climbOrders.get 0) 1 2).path ∧
    fastTrip.positionLimits twoSites (climbOrders.get 0).pickup.toTwNode = (2, 1) ∧
    (fastTrip.hillClimb twoSites (climbOrders.get 0)).1 = false ∧
    ¬ LimitsSound twoSites fastTrip (climbOrders.get 0) := by
  have hlimits : fastTrip.positionLimits twoSites (climbOrders.get 0).pickup.toTwNode = (2, 1) := by
    decide +kernel
  have hnone : NoViolation fastTrip.capacity
      (fastTrip.trial twoSites (climbOrders.get 0) 1 2).path := by decide +kernel
  refine ⟨fastTrip_vacant, rfl, twoSites_static (by decide +kernel), by decide +kernel,
    ⟨by decide +kernel, by decide +kernel⟩, rfl, rfl, hnone, hlimits, by decide +kernel, fun h => ?_⟩
  have hlow := (h 1 2 le_rfl (by omega) (by decide +kernel) hnone).pickLow
  rw [hlimits] at hlow
  omega

theorem vacant_agrees_small : (climbTrip.hillClimb twoSites (climbOrders.get 0)).1 =
    climbTrip.isOrderFeasible twoSites (climbOrders.get 0) :=
  (vacant_agrees_iff climbTrip_vacant climbOrder_typed).mpr fun _ =>
    ⟨by decide +kernel, by decide +kernel, by decide +kernel, by decide +kernel⟩

/-- The table has the order, and the insertion fails. -/
theorem vacant_disagrees_fast : Vacant twoSites fastTrip ∧
    fastTrip.isOrderFeasible twoSites (climbOrders.get 0) = true ∧
    (fastTrip.hillClimb twoSites (climbOrders.get 0)).1 = false :=
  ⟨fastTrip_vacant, by decide +kernel, by decide +kernel⟩

end VrpRouting
