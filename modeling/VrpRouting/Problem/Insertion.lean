import Mathlib.Data.List.TakeWhile
import VrpRouting.Problem.Edit

/-! # Insertions of orders

What the operations of a vehicle do with an order: an insertion puts the pickup somewhere behind the
starting site and the delivery somewhere behind the pickup and before the ending site (`Inserted`),
or the vehicle stays as it was (`Unchanged`). `hillClimb` tries every pair of positions by exchanging
neighbours; the loop invariant `BestPositions.Tried` says that the best positions are those of a
vehicle that was seen feasible. -/

namespace VrpRouting

/-- From a starting site over pickups and deliveries to an ending site. -/
def IsRoute (N : List TwNode) : Prop :=
  ∃ s mids e, N = s :: (mids ++ [e]) ∧ s.type = .kStart ∧ e.type = .kEnd ∧
    ∀ t ∈ mids, t.type = .kPickup ∨ t.type = .kDelivery

theorem IsRoute.noDump {N : List TwNode} (h : IsRoute N) : ∀ t ∈ N, t.type ≠ .kDump := by
  obtain ⟨s, mids, e, rfl, hs, he, hm⟩ := h
  intro t ht
  rcases List.mem_cons.mp ht with rfl | ht
  · simp [hs]
  · rcases List.mem_append.mp ht with ht | ht
    · rcases hm t ht with h | h <;> simp [h]
    · rw [List.mem_singleton.mp ht, he]; simp

theorem IsRoute.two_le {N : List TwNode} (h : IsRoute N) : 2 ≤ N.length := by
  obtain ⟨s, mids, e, rfl, -⟩ := h
  simp only [List.length_cons, List.length_append, List.length_nil]
  omega

theorem IsRoute.insertIdx {N : List TwNode} {x : TwNode} {i : ℕ} (h : IsRoute N)
    (hx : x.type = .kPickup ∨ x.type = .kDelivery) (h1 : 1 ≤ i) (h2 : i < N.length) :
    IsRoute (N.insertIdx i x) := by
  obtain ⟨s, mids, e, rfl, hs, he, hm⟩ := h
  obtain ⟨i, rfl⟩ := Nat.exists_eq_add_of_le' h1
  have hi : i ≤ mids.length := Nat.lt_succ_iff.mp (by simpa using h2)
  refine ⟨s, mids.insertIdx i x, e, ?_, hs, he, fun t ht => ?_⟩
  · rw [List.insertIdx_succ_cons, ListEdit.insertIdx_append_of_le _ _ _ hi]
  · rcases List.eq_or_mem_of_mem_insertIdx ht with rfl | ht
    · exact hx
    · exact hm t ht

/-- The nodes of an order have the types of a pickup and of a delivery. -/
structure Order.Typed (o : Order) : Prop where
  pickup : o.pickup.type = .kPickup
  delivery : o.delivery.type = .kDelivery

/-- `w` is `v` with the order on its path. -/
structure Inserted (M : Matrix) (v : Vehicle) (o : Order) (w : Vehicle) : Prop where
  others : w = { v with path := w.path, ordersInVehicle := v.ordersInVehicle.insert o.idx }
  positions : ∃ p d, 1 ≤ p ∧ p < d ∧ d ≤ v.path.length ∧
    nodesOf w.path = ((nodesOf v.path).insertIdx p o.pickup.toTwNode).insertIdx d o.delivery.toTwNode
  settled : Settled M v.capacity v.speed 0 v.path → Settled M v.capacity v.speed 0 w.path

/-- `w` is `v` with the two nodes of the order somewhere between the sites, in any order. -/
structure Loaded (M : Matrix) (v : Vehicle) (o : Order) (w : Vehicle) : Prop where
  others : w = { v with path := w.path, ordersInVehicle := v.ordersInVehicle.insert o.idx }
  positions : ∃ p d, 1 ≤ p ∧ p < v.path.length ∧ 1 ≤ d ∧ d ≤ v.path.length ∧
    nodesOf w.path = ((nodesOf v.path).insertIdx p o.pickup.toTwNode).insertIdx d o.delivery.toTwNode
  settled : Settled M v.capacity v.speed 0 v.path → Settled M v.capacity v.speed 0 w.path

theorem Inserted.loaded {M : Matrix} {v w : Vehicle} {o : Order} (h : Inserted M v o w) :
    Loaded M v o w := by
  obtain ⟨p, d, hp, hpd, hd, hN⟩ := h.positions
  exact ⟨h.others, ⟨p, d, hp, by omega, by omega, hd, hN⟩, h.settled⟩

/-- `w` is `v`, with the path evaluated again. -/
structure Unchanged (M : Matrix) (v w : Vehicle) : Prop where
  others : SameButPath v w
  nodes : nodesOf w.path = nodesOf v.path
  settled : Settled M v.capacity v.speed 0 v.path → w = v

/-- The result of an insertion heuristic: a feasible vehicle with the order, or no change. -/
def Outcome (M : Matrix) (v : Vehicle) (o : Order) (r : Bool × Vehicle) : Prop :=
  (r.1 = true ∧ Inserted M v o r.2 ∧ r.2.isFeasible = true) ∨ (r.1 = false ∧ Unchanged M v r.2)

theorem Unchanged.refl (M : Matrix) (v : Vehicle) : Unchanged M v v := ⟨rfl, rfl, fun _ => rfl⟩

theorem Unchanged.ordersInVehicle {M : Matrix} {v w : Vehicle} (h : Unchanged M v w) :
    w.ordersInVehicle = v.ordersInVehicle := by
  rw [show w = _ from h.others]

theorem Unchanged.isPhony {M : Matrix} {v w : Vehicle} (h : Unchanged M v w) :
    w.isPhony = v.isPhony := by
  rw [show w = _ from h.others]
  rfl

theorem Edited.unchanged {M : Matrix} {v w : Vehicle} {p k : ℕ}
    (h : Edited M v p k (nodesOf v.path) w) (hk : v.path.length ≤ k) : Unchanged M v w where
  others := h.others
  nodes := h.nodes
  settled hv := by
    have hN : (nodesOf v.path).length ≤ k := by simpa using hk
    have hw := h.settled_path hN hv
    have hp : w.path = v.path := by
      rw [← hw, ← hv]
      exact evaluatePath_congr M _ _ 0 (by simp) h.nodes
    rw [h.others, hp]

/-- Both nodes are on the path, and the path is settled. -/
theorem Edited.loaded {M : Matrix} {v w : Vehicle} {o : Order} {p k i j : ℕ}
    (h : Edited M v p k (((nodesOf v.path).insertIdx i o.pickup.toTwNode).insertIdx j
      o.delivery.toTwNode) w)
    (hi : 1 ≤ i) (hi' : i < v.path.length) (hj : 1 ≤ j) (hj' : j ≤ v.path.length)
    (hk : v.path.length + 2 ≤ k) :
    Loaded M v o { w with ordersInVehicle := w.ordersInVehicle.insert o.idx } where
  others := by
    have := h.others
    unfold SameButPath at this
    rw [this]
  positions := ⟨i, j, hi, hi', hj, hj', h.nodes⟩
  settled := h.settled_path <| by
    rw [List.length_insertIdx, List.length_insertIdx, length_nodesOf]
    split_ifs <;> omega

/-- The delivery is behind the pickup. -/
theorem Edited.inserted {M : Matrix} {v w : Vehicle} {o : Order} {p k i j : ℕ}
    (h : Edited M v p k (((nodesOf v.path).insertIdx i o.pickup.toTwNode).insertIdx j
      o.delivery.toTwNode) w)
    (hi : 1 ≤ i) (hij : i < j) (hj : j ≤ v.path.length) (hk : v.path.length + 2 ≤ k) :
    Inserted M v o { w with ordersInVehicle := w.ordersInVehicle.insert o.idx } := by
  have hl := h.loaded hi (by omega) (by omega) hj hk
  exact ⟨hl.others, ⟨i, j, hi, hij, hj, h.nodes⟩, hl.settled⟩

/-! ### Limits of the positions -/

section Limits
variable (M : Matrix) (v : Vehicle)

theorem posLowLimitLoop_bounds (n : TwNode) (h : (v.stop 0).type = .kStart) :
    ∀ k, 1 ≤ k → 1 ≤ v.posLowLimitLoop M n k ∧ v.posLowLimitLoop M n k ≤ k
  | 0, hk => absurd hk (by omega)
  | k + 1, _ => by
    unfold Vehicle.posLowLimitLoop
    split_ifs with hc
    · have hk : 1 ≤ k := by
        rcases Nat.eq_zero_or_pos k with rfl | hk
        · simp [TwNode.isCompatibleIJ, h] at hc
        · exact hk
      obtain ⟨h1, h2⟩ := posLowLimitLoop_bounds n h k hk
      exact ⟨h1, by omega⟩
    · omega

/-- The loop of `getDropPosLowLimit` does not pass a starting site or a pickup. -/
theorem dropPosLowLimitLoop_bounds (n : TwNode) {j : ℕ}
    (h : (v.stop j).type = .kStart ∨ (v.stop j).isPickup = true) :
    ∀ k, j + 1 ≤ k → j + 1 ≤ v.dropPosLowLimitLoop M n k ∧ v.dropPosLowLimitLoop M n k ≤ k
  | 0, hk => absurd hk (by omega)
  | k + 1, hk => by
    unfold Vehicle.dropPosLowLimitLoop
    split_ifs with hc
    · have hk' : j + 1 ≤ k := by
        rcases Nat.lt_or_ge j k with hjk | hjk
        · exact hjk
        · obtain rfl : j = k := by omega
          rcases h with h | h
          · simp [TwNode.isCompatibleIJ, h] at hc
          · simp [h] at hc
      obtain ⟨h1, h2⟩ := dropPosLowLimitLoop_bounds n h k hk'
      exact ⟨h1, by omega⟩
    · omega

theorem IsRoute.stop_zero {v : Vehicle} (h : IsRoute (nodesOf v.path)) :
    (v.stop 0).type = .kStart := by
  obtain ⟨s, mids, e, hN, hs, -⟩ := h
  obtain ⟨n, ns, hp⟩ := List.exists_cons_of_length_pos (l := v.path) (by
    rw [← length_nodesOf, hN]; simp)
  rw [hp] at hN
  have hn : n.toTwNode = s := (List.cons.inj hN).1
  simp [Vehicle.stop, hp, ← hs, ← hn]

/-- A node cannot be inserted behind the ending site. -/
theorem getPosHighLimit_lt (n : TwNode) (h : IsRoute (nodesOf v.path)) :
    v.getPosHighLimit M n < v.path.length := by
  obtain ⟨s, mids, e, hN, -, he, -⟩ := h
  refine lt_of_le_of_ne (List.takeWhile_prefix _).length_le fun hlen => ?_
  have hself := (List.takeWhile_prefix fun I : VehicleNode =>
    n.isCompatibleIJ M I.toTwNode v.speed).eq_of_length hlen
  obtain ⟨l, hl, hle⟩ := List.mem_map.mp (show e ∈ nodesOf v.path by rw [hN]; simp)
  have := List.takeWhile_eq_self_iff.mp hself l hl
  rw [hle] at this
  simp [TwNode.isCompatibleIJ, he] at this

theorem getPosLowLimit_bounds (n : TwNode) (h : IsRoute (nodesOf v.path)) :
    1 ≤ v.getPosLowLimit M n ∧ v.getPosLowLimit M n ≤ v.path.length := by
  have hl := h.two_le
  rw [length_nodesOf] at hl
  exact posLowLimitLoop_bounds M v n h.stop_zero _ (by unfold Vehicle.size; omega)

theorem getDropPosLowLimit_bounds (n : TwNode) (h : IsRoute (nodesOf v.path)) :
    1 ≤ v.getDropPosLowLimit M n ∧ v.getDropPosLowLimit M n ≤ v.path.length := by
  have hl := h.two_le
  rw [length_nodesOf] at hl
  exact dropPosLowLimitLoop_bounds M v n (Or.inl h.stop_zero) _ (by unfold Vehicle.size; omega)

end Limits

/-! ### `hillClimb` -/

section HillClimb
variable {M : Matrix} {v : Vehicle} {o : Order} {p : ℕ}

/-- The positions found are those of a feasible vehicle. -/
def BestPositions.Tried (M : Matrix) (v : Vehicle) (o : Order) (p : ℕ) (b : BestPositions) : Prop :=
  b.found = true → p ≤ b.pickPos ∧ b.pickPos < b.deliverPos ∧ b.deliverPos ≤ v.path.length ∧
    ∃ u, u.isFeasible = true ∧ Edited M v p (v.path.length + 2)
      (((nodesOf v.path).insertIdx b.pickPos o.pickup.toTwNode).insertIdx b.deliverPos
        o.delivery.toTwNode) u

theorem BestPositions.Tried.improve {b : BestPositions} (h : b.Tried M v o p) (delta : ℤ)
    {pick deliver : ℕ} {u : Vehicle} (hp : p ≤ pick) (hpd : pick < deliver)
    (hd : deliver ≤ v.path.length) (hu : u.isFeasible = true)
    (he : Edited M v p (v.path.length + 2)
      (((nodesOf v.path).insertIdx pick o.pickup.toTwNode).insertIdx deliver
        o.delivery.toTwNode) u) : (b.improve delta pick deliver).Tried M v o p := by
  unfold BestPositions.improve
  split_ifs
  · exact fun _ => ⟨hp, hpd, hd, u, hu, he⟩
  · exact h

/-- The inner loop keeps the delivery at its position and the best positions tried. -/
theorem climbDeliver_spec (cur : ℤ) {pick : ℕ} (hp : p ≤ pick) (hpick : pick < v.path.length) :
    ∀ (passes pos : ℕ) (b : BestPositions) (w : Vehicle), pick < pos →
      pos + passes ≤ v.path.length + 1 → b.Tried M v o p →
      Edited M v p (v.path.length + 2) (((nodesOf v.path).insertIdx pick
        o.pickup.toTwNode).insertIdx pos o.delivery.toTwNode) w →
      ∃ pos' b' w', Vehicle.climbDeliver M cur pick passes pos b w = (pos', b', w') ∧
        pos ≤ pos' ∧ pos' ≤ v.path.length + 1 ∧ b'.Tried M v o p ∧
        Edited M v p (v.path.length + 2) (((nodesOf v.path).insertIdx pick
          o.pickup.toTwNode).insertIdx pos' o.delivery.toTwNode) w'
  | 0, pos, b, w, _, hpass, hb, hw => ⟨pos, b, w, rfl, le_rfl, by omega, hb, hw⟩
  | passes + 1, pos, b, w, hpos, hpass, hb, hw => by
    have hb' : BestPositions.Tried M v o p (if w.isFeasible then
        b.improve (w.objective - cur) pick pos else b) := by
      split_ifs with hf
      · exact hb.improve _ hp hpos (by omega) hf hw
      · exact hb
    unfold Vehicle.climbDeliver
    simp only
    generalize (if w.isFeasible then b.improve (w.objective - cur) pick pos else b) = best at hb' ⊢
    split_ifs with hend
    · exact ⟨pos, _, w, rfl, le_rfl, by omega, hb', hw⟩
    · have hlen : ((nodesOf v.path).insertIdx pick o.pickup.toTwNode).length =
          v.path.length + 1 := by
        rw [List.length_insertIdx_of_le_length (by rw [length_nodesOf]; omega), length_nodesOf]
      obtain ⟨pos', b', w', heq, h1, h2, h3, h4⟩ := climbDeliver_spec cur hp hpick passes (pos + 1) _ _
        (by omega) (by omega) hb' (hw.swap (by omega) (by omega) (by omega) (v.path.length + 2))
      exact ⟨pos', b', w', heq, by omega, h2, h3, h4⟩

/-- The outer loop keeps the pickup at its position and the best positions tried. -/
theorem climbPick_spec (cur : ℤ) {dpos : ℕ × ℕ} (ho : o.Typed) (h1 : dpos.1 ≤ v.path.length + 1)
    (h2 : dpos.2 ≤ v.path.length) :
    ∀ (passes pick : ℕ) (b : BestPositions) (w : Vehicle) (k : ℕ), p ≤ pick → pick ≤ k →
      pick + passes ≤ v.path.length → k ≤ v.path.length + 2 →
      (0 < passes → k = v.path.length + 2) → b.Tried M v o p →
      Edited M v p k ((nodesOf v.path).insertIdx pick o.pickup.toTwNode) w →
      ∃ pick' b' w' k', Vehicle.climbPick M cur o dpos passes pick b w = (pick', b', w') ∧
        p ≤ pick' ∧ pick' ≤ k' ∧ pick' ≤ v.path.length ∧ b'.Tried M v o p ∧
        Edited M v p k' ((nodesOf v.path).insertIdx pick' o.pickup.toTwNode) w'
  | 0, pick, b, w, k, hp, hk, hpass, _, _, hb, hw =>
    ⟨pick, b, w, k, rfl, hp, hk, by omega, hb, hw⟩
  | passes + 1, pick, b, w, k, hp, hk, hpass, _, hfull, hb, hw => by
    have hk := hfull (Nat.succ_pos passes)
    subst hk
    have hlen : ((nodesOf v.path).insertIdx pick o.pickup.toTwNode).length =
        v.path.length + 1 := by
      rw [List.length_insertIdx_of_le_length (by rw [length_nodesOf]; omega), length_nodesOf]
    unfold Vehicle.climbPick
    simp only
    generalize hfirst : (if dpos.1 ≤ pick then pick + 1 else dpos.1) = first
    have hf1 : pick < first := by split_ifs at hfirst <;> omega
    have hf2 : first ≤ v.path.length + 1 := by split_ifs at hfirst <;> omega
    obtain ⟨pos', b', w', heq, hp1, hp2, hb', hw'⟩ := climbDeliver_spec cur hp
      (by omega) (dpos.2 + 1 - first) first b _ hf1 (by omega) hb
      (hw.insert (by omega) (by omega) (by rw [ho.delivery]; simp) (v.path.length + 2))
    rw [heq]
    simp only
    have hv1 := hw'.eraseNode (i := pos') (by omega)
    rw [List.eraseIdx_insertIdx_self] at hv1
    split_ifs with hend
    · exact ⟨pick, b', _, _, rfl, hp, by omega, by omega, hb', hv1⟩
    · exact climbPick_spec cur ho h1 h2 passes (pick + 1) b' _ _ (by omega) (by omega) (by omega) le_rfl
        (fun _ => rfl) hb' (hv1.swap hp (by omega) (by rw [length_nodesOf]; omega) _)

/-- **`hillClimb`** inserts the order, feasibly, or leaves the vehicle as it is. -/
theorem hillClimb_spec (hv : IsRoute (nodesOf v.path)) (ho : o.Typed) :
    Outcome M v o (v.hillClimb M o) := by
  have hn := hv.two_le
  rw [length_nodesOf] at hn
  unfold Vehicle.hillClimb
  extract_lets pickPos deliverPos r v1 v2
  obtain ⟨hl1, hl2⟩ : 1 ≤ pickPos.1 ∧ pickPos.1 ≤ v.path.length :=
    getPosLowLimit_bounds M v o.pickup.toTwNode hv
  obtain ⟨hd1, hd2⟩ : 1 ≤ deliverPos.1 ∧ deliverPos.1 ≤ v.path.length :=
    getPosLowLimit_bounds M v o.delivery.toTwNode hv
  have hh : pickPos.2 < v.path.length := getPosHighLimit_lt M v o.pickup.toTwNode hv
  have hdh : deliverPos.2 < v.path.length := getPosHighLimit_lt M v o.delivery.toTwNode hv
  by_cases hlow : pickPos.2 < pickPos.1
  · rw [if_pos hlow]
    exact Or.inr ⟨rfl, Unchanged.refl M v⟩
  rw [if_neg hlow]
  by_cases hdlow : deliverPos.2 < deliverPos.1
  · rw [if_pos hdlow]
    exact Or.inr ⟨rfl, Unchanged.refl M v⟩
  rw [if_neg hdlow]
  have hstart := (Edited.refl (p := pickPos.1) (M := M) (noDump_iff_nodes.mpr hv.noDump)).insert
    le_rfl le_rfl (x := o.pickup) (by rw [ho.pickup]; simp) (v.path.length + 2)
  obtain ⟨pick', b', w', k', heq, hp', hk', hpl, hb', hw'⟩ := climbPick_spec
    v.objective ho (show (deliverPos.1 + 1, deliverPos.2 + 1).1 ≤ _ by simpa using hd2)
    (Nat.succ_le_of_lt hdh) (pickPos.2 + 1 - pickPos.1) pickPos.1 ⟨v.size, v.size + 1, none, false⟩ _ _
    le_rfl (by omega) (by omega) le_rfl (fun _ => rfl) (by simp [BestPositions.Tried]) hstart
  have hr : r = (pick', b', w') := heq
  have hv1 : Edited M v pickPos.1 (v.path.length + 2) (nodesOf v.path) v1 := by
    have := hw'.eraseAt hp' hk' (v.path.length + 2)
    rw [List.eraseIdx_insertIdx_self] at this
    simpa only [v1, hr] using this
  by_cases hfound : b'.found = true
  · rw [if_neg (by simp [hr, hfound])]
    obtain ⟨hb1, hb2, hb3, u, hu, heu⟩ := hb' hfound
    have hv2 : Edited M v pickPos.1 (v.path.length + 2) (((nodesOf v.path).insertIdx b'.pickPos
        o.pickup.toTwNode).insertIdx b'.deliverPos o.delivery.toTwNode) v2 := by
      have := (hv1.insert (i := b'.pickPos) hb1 (by omega) (x := o.pickup)
        (by rw [ho.pickup]; simp) (v.path.length + 2)).insert (i := b'.deliverPos) (by omega)
        (by omega) (x := o.delivery) (by rw [ho.delivery]; simp) (v.path.length + 2)
      simpa only [v2, hr] using this
    have hlen : (((nodesOf v.path).insertIdx b'.pickPos o.pickup.toTwNode).insertIdx
        b'.deliverPos o.delivery.toTwNode).length ≤ v.path.length + 2 := by
      rw [List.length_insertIdx, List.length_insertIdx, length_nodesOf]
      split_ifs <;> omega
    -- the vehicle with the order is the one that was seen feasible
    have hvu : v2 = u := hv2.unique heu hlen
    refine Or.inl ⟨rfl, hv2.inserted (by omega) hb2 hb3 le_rfl, ?_⟩
    rw [hvu]
    exact hu
  · rw [if_pos (by simp [hr, hfound])]
    exact Or.inr ⟨rfl, hv1.unchanged (by omega)⟩

end HillClimb

/-! ### The other insertions -/

section Push
variable {M : Matrix} {v : Vehicle} {o : Order}

/-- `push_back`: the order is the last one. -/
theorem pushBack_spec (hv : IsRoute (nodesOf v.path)) (ho : o.Typed) :
    Inserted M v o (v.pushBack M o) := by
  have hn := hv.two_le
  rw [length_nodesOf] at hn
  have h1 := (Edited.refl (p := v.path.length - 1) (M := M) (noDump_iff_nodes.mpr
    hv.noDump)).insertNode le_rfl (x := o.pickup) (by rw [ho.pickup]; simp)
  have h2 := h1.insertNode (i := v.path.length) (by omega) (x := o.delivery)
    (by rw [ho.delivery]; simp)
  have h3 := h2.evaluate (j := v.path.length - 1) le_rfl (by omega) (v.path.length + 2)
  have h4 := h3.inserted (by omega) (by omega) le_rfl le_rfl
  have hs1 : (v.insertNode (v.path.length - 1) o.pickup).path.length = v.path.length + 1 := by
    simp only [Vehicle.insertNode]
    rw [List.length_insertIdx_of_le_length (by omega)]
  have hs2 : ((v.insertNode (v.path.length - 1) o.pickup).insertNode v.path.length
      o.delivery).path.length = v.path.length + 2 := by
    rw [Vehicle.insertNode, List.length_insertIdx_of_le_length (by omega), hs1]
  have heq : v.pushBack M o = { ((v.insertNode (v.path.length - 1) o.pickup).insertNode v.path.length
      o.delivery).evaluate M (v.path.length - 1) with
        ordersInVehicle := v.ordersInVehicle.insert o.idx } := by
    simp only [Vehicle.pushBack, Vehicle.evaluate, Vehicle.insertNode, Vehicle.size] at hs1 hs2 ⊢
    rw [hs1, Nat.add_sub_cancel, hs2, show v.path.length + 2 - 3 = v.path.length - 1 by omega]
  rw [heq]
  exact h4

/-- `push_front`: the order is the first one. -/
theorem pushFront_spec (hv : IsRoute (nodesOf v.path)) (ho : o.Typed) :
    Inserted M v o (v.pushFront M o) := by
  have hn := hv.two_le
  rw [length_nodesOf] at hn
  have h1 := ((Edited.refl (p := 0) (M := M) (noDump_iff_nodes.mpr hv.noDump)).insertNode
    (i := 1) (by omega) (x := o.delivery) (by rw [ho.delivery]; simp)).insertNode (i := 1) (by omega)
    (x := o.pickup) (by rw [ho.pickup]; simp)
  have h2 := h1.evaluate (j := 0) le_rfl (by omega) (v.path.length + 2)
  have hN : ((nodesOf v.path).insertIdx 1 o.delivery.toTwNode).insertIdx 1 o.pickup.toTwNode =
      ((nodesOf v.path).insertIdx 1 o.pickup.toTwNode).insertIdx 2 o.delivery.toTwNode := by
    obtain ⟨s, mids, e, hN, -⟩ := hv
    rw [hN]
    rfl
  rw [hN] at h2
  exact h2.inserted le_rfl (by omega) hn le_rfl

/-- `r` has the order with its pickup at position 1 and its delivery at `low` or behind it. -/
def LifoPlaced (M : Matrix) (v : Vehicle) (o : Order) (low : ℕ) (r : Bool × Vehicle) : Prop :=
  ∃ d u, low ≤ d ∧ d ≤ v.path.length ∧
    Edited M v 1 (v.path.length + 2) (((nodesOf v.path).insertIdx 1 o.pickup.toTwNode).insertIdx d
      o.delivery.toTwNode) u ∧
    u.isFeasible = true ∧ r = (true, { u with ordersInVehicle := u.ordersInVehicle.insert o.idx })

/-- The loop of `semiLIFO`: the delivery at one of the tried positions, all of them from `low` on,
or no change. -/
theorem lifoDeliver_spec (ho : o.Typed) {low : ℕ} (hlow : 1 ≤ low) :
    ∀ (passes pos : ℕ) (w : Vehicle), low + passes ≤ pos + 1 → pos ≤ v.path.length →
      Edited M v 1 (v.path.length + 2) ((nodesOf v.path).insertIdx 1 o.pickup.toTwNode) w →
      LifoPlaced M v o low (w.lifoDeliver M o passes pos) ∨
      ((w.lifoDeliver M o passes pos).1 = false ∧ Unchanged M v (w.lifoDeliver M o passes pos).2)
  | 0, pos, w, _, _, hw => by
    have h := hw.eraseAt (i := 1) le_rfl (by omega) (v.path.length + 2)
    rw [List.eraseIdx_insertIdx_self] at h
    exact Or.inr ⟨rfl, h.unchanged (by omega)⟩
  | passes + 1, pos, w, hpp, hpos, hw => by
    have hi := hw.insert (i := pos) (by omega) (by omega) (x := o.delivery)
      (by rw [ho.delivery]; simp) (v.path.length + 2)
    unfold Vehicle.lifoDeliver
    extract_lets u
    by_cases hu : (u.isFeasible && !(u.stop (pos + 1)).isPickup) = true
    · rw [if_pos hu]
      exact Or.inl ⟨pos, u, by omega, hpos, hi, (Bool.and_eq_true_iff.mp hu).1, rfl⟩
    · rw [if_neg hu]
      have he := hi.eraseAt (i := pos) (by omega) (by omega) (v.path.length + 2)
      rw [List.eraseIdx_insertIdx_self] at he
      exact lifoDeliver_spec ho hlow passes (pos - 1) _ (by omega) (by omega) he

/-- The vehicle in which `semiLIFO` looks for the position of the delivery. -/
theorem edited_withPickup (hv : IsRoute (nodesOf v.path)) (ho : o.Typed) :
    Edited M v 1 (v.path.length + 2) ((nodesOf v.path).insertIdx 1 o.pickup.toTwNode)
      (v.insert M 1 o.pickup) :=
  (Edited.refl (noDump_iff_nodes.mpr hv.noDump)).insert le_rfl le_rfl (by rw [ho.pickup]; simp) _

theorem route_withPickup (hv : IsRoute (nodesOf v.path)) (ho : o.Typed) :
    IsRoute (nodesOf (v.insert M 1 o.pickup).path) ∧
      (v.insert M 1 o.pickup).path.length = v.path.length + 1 := by
  have hn := hv.two_le
  have hw := edited_withPickup (M := M) hv ho
  refine ⟨?_, ?_⟩
  · rw [hw.nodes]
    exact hv.insertIdx (Or.inl ho.pickup) le_rfl (by omega)
  · rw [hw.length_path, List.length_insertIdx_of_le_length (by omega), length_nodesOf]

/-- `semiLIFO` tries the delivery from the lowest position that its loop found in the route with the
pickup. -/
theorem semiLIFO_placed (hv : IsRoute (nodesOf v.path)) (ho : o.Typed) :
    LifoPlaced M v o ((v.insert M 1 o.pickup).getDropPosLowLimit M o.delivery.toTwNode)
      (v.semiLIFO M o) ∨
    ((v.semiLIFO M o).1 = false ∧ Unchanged M v (v.semiLIFO M o).2) := by
  have hw := edited_withPickup (M := M) hv ho
  obtain ⟨hr, hlen⟩ := route_withPickup (M := M) hv ho
  unfold Vehicle.semiLIFO
  extract_lets v1 deliverPos
  change v1.path.length = _ at hlen
  have hlow : 1 ≤ deliverPos.1 := (getDropPosLowLimit_bounds M v1 o.delivery.toTwNode hr).1
  have hhigh : deliverPos.2 < v1.path.length := getPosHighLimit_lt M v1 o.delivery.toTwNode hr
  by_cases h : deliverPos.2 < deliverPos.1
  · rw [if_pos h]
    have he := hw.eraseAt (i := 1) le_rfl (by omega) (v.path.length + 2)
    rw [List.eraseIdx_insertIdx_self] at he
    exact Or.inr ⟨rfl, he.unchanged (by omega)⟩
  · rw [if_neg h]
    exact lifoDeliver_spec ho hlow _ _ _ (by omega) (by omega) hw

/-- With a valid pickup no delivery goes before it: the loop for the lowest position does not pass
the pickup. -/
theorem two_le_dropPosLowLimit (hv : IsRoute (nodesOf v.path)) (ho : o.Typed)
    (hp : o.pickup.isPickup = true) (n : TwNode) :
    2 ≤ (v.insert M 1 o.pickup).getDropPosLowLimit M n := by
  have hn := hv.two_le
  have hw := edited_withPickup (M := M) hv ho
  have h1 : ((v.insert M 1 o.pickup).stop 1).toTwNode = o.pickup.toTwNode := by
    rw [toTwNode_stop, hw.nodes, List.getD_eq_getElem?_getD, List.getElem?_insertIdx_self,
      if_pos (by omega)]
    rfl
  refine (dropPosLowLimitLoop_bounds M _ n (j := 1) (Or.inr ?_) _ ?_).1
  · rw [h1]
    exact hp
  · rw [Vehicle.size, (route_withPickup (M := M) hv ho).2, ← length_nodesOf]
    omega

theorem semiLIFO_cases (hv : IsRoute (nodesOf v.path)) (ho : o.Typed) :
    ((v.semiLIFO M o).1 = true ∧ Loaded M v o (v.semiLIFO M o).2 ∧
      (v.semiLIFO M o).2.isFeasible = true ∧
      (o.pickup.isPickup = true → Inserted M v o (v.semiLIFO M o).2)) ∨
    ((v.semiLIFO M o).1 = false ∧ Unchanged M v (v.semiLIFO M o).2) := by
  have hn := hv.two_le
  rw [length_nodesOf] at hn
  refine (semiLIFO_placed (M := M) hv ho).imp_left ?_
  rintro ⟨d, u, hlow, hd, hu, hf, hr⟩
  have h1 := (getDropPosLowLimit_bounds M _ o.delivery.toTwNode (route_withPickup (M := M) hv ho).1).1
  rw [hr]
  refine ⟨rfl, hu.loaded le_rfl hn (h1.trans hlow) hd le_rfl, hf, fun hp => ?_⟩
  exact hu.inserted le_rfl ((two_le_dropPosLowLimit hv ho hp _).trans hlow) hd le_rfl

/-- **`semiLIFO`** inserts the order, feasibly, or leaves the vehicle as it is. -/
theorem semiLIFO_spec (hv : IsRoute (nodesOf v.path)) (ho : o.Typed) :
    ((v.semiLIFO M o).1 = true ∧ Loaded M v o (v.semiLIFO M o).2 ∧
      (v.semiLIFO M o).2.isFeasible = true) ∨
    ((v.semiLIFO M o).1 = false ∧ Unchanged M v (v.semiLIFO M o).2) :=
  (semiLIFO_cases hv ho).imp (fun h => ⟨h.1, h.2.1, h.2.2.1⟩) id

/-- With a valid pickup the order is delivered behind it. -/
theorem semiLIFO_outcome (hv : IsRoute (nodesOf v.path)) (ho : o.Typed)
    (hp : o.pickup.isPickup = true) : Outcome M v o (v.semiLIFO M o) :=
  (semiLIFO_cases hv ho).imp (fun h => ⟨h.1, h.2.2.2 hp, h.2.2.1⟩) id

end Push

end VrpRouting
