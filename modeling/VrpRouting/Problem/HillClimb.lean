import Mathlib.Data.Int.ConditionallyCompleteOrder
import Mathlib.Data.List.MinMax
import Mathlib.Order.ConditionallyCompleteLattice.Basic
import VrpRouting.Problem.Insertion
import VrpRouting.Problem.PickDeliver

/-! # The search of `hillClimb`

`hillClimb` never lists the positions that it tries: they result from exchanges of neighbours. On an
evaluated vehicle every vehicle that the search sees is the one that the two insertions give
(`Vehicle.trial`), and the positions are all those inside the limits, pickup by pickup
(`climbPick_best`). So the result is the first feasible pair with the least objective
(`hillClimb_best`), and a vehicle without such a pair is as it was (`hillClimb_atomic`). -/

namespace VrpRouting

/-- The vehicle with the pickup at position `p`, and then the delivery at position `d`. -/
def Vehicle.trial (M : Matrix) (v : Vehicle) (o : Order) (p d : ℕ) : Vehicle :=
  (v.insert M p o.pickup).insert M d o.delivery

/-- An evaluated vehicle is settled up to every position. -/
theorem Edited.of_settled {M : Matrix} {v : Vehicle} (hd : NoDump v.path)
    (hs : Settled M v.capacity v.speed 0 v.path) (p k : ℕ) :
    Edited M v p k (nodesOf v.path) v where
  others := rfl
  take := rfl
  nodes := rfl
  settled := by
    have h : Settled M v.capacity v.speed p v.path :=
      (evaluatePath_of_settled_take (Nat.zero_le p) (hs.take p)).trans hs
    exact h.take k
  noDump := noDump_iff_nodes.mp hd

/-- Only the last node of a route is an ending site. -/
theorem IsRoute.end_last {N : List TwNode} (h : IsRoute N) {i : ℕ}
    (he : (N.getD i (default : VehicleNode).toTwNode).type = .kEnd) : i + 1 = N.length := by
  obtain ⟨s, mids, e, rfl, hs, -, hm⟩ := h
  cases i with
  | zero =>
    rw [List.getD_cons_zero, hs] at he
    cases he
  | succ i =>
    rw [List.getD_cons_succ, List.getD_eq_getElem?_getD] at he
    by_cases hi : i < mids.length
    · rw [List.getElem?_append_left hi, List.getElem?_eq_getElem hi, Option.getD_some] at he
      rcases hm _ (List.getElem_mem hi) with h | h <;> rw [h] at he <;> cases he
    · by_cases hl : i = mids.length
      · simp [hl]
      · rw [List.getElem?_eq_none (by simp; omega)] at he
        cases he

/-! ### The best pair of a list -/

section Best
variable (key : ℕ × ℕ → ℤ) (cur : ℤ)

/-- The positions are the first pair of the list with the least key. -/
def BestPositions.IsBest (b : BestPositions) (l : List (ℕ × ℕ)) : Prop :=
  match l.argmin key with
  | none => b.found = false ∧ b.minDeltaObjective = none
  | some c => b = ⟨c.1, c.2, some (key c - cur), true⟩

variable {key cur}

theorem BestPositions.IsBest.improve {b : BestPositions} {l : List (ℕ × ℕ)}
    (h : b.IsBest key cur l) (c : ℕ × ℕ) :
    (b.improve (key c - cur) c.1 c.2).IsBest key cur (l ++ [c]) := by
  unfold BestPositions.IsBest at h ⊢
  rw [List.argmin_concat]
  cases hl : l.argmin key with
  | none =>
    rw [hl] at h
    unfold BestPositions.improve
    rw [h.2]
    rfl
  | some a =>
    rw [hl] at h
    unfold BestPositions.improve
    rw [h]
    by_cases hlt : key c < key a
    · simp [hlt]
    · simp [hlt]

end Best

/-! ### The search -/

/-- The pairs with the pickup at `p`, in the order of the search. -/
def Vehicle.row (deliverPos : ℕ × ℕ) (p : ℕ) : List (ℕ × ℕ) :=
  (List.range' (max deliverPos.1 p + 1) (deliverPos.2 + 1 - max deliverPos.1 p)).map fun d => (p, d)

/-- The feasible pairs of positions with the pickup at one of `passes` positions from `low` on. -/
def Vehicle.feasiblePairs (M : Matrix) (v : Vehicle) (o : Order) (deliverPos : ℕ × ℕ)
    (low passes : ℕ) : List (ℕ × ℕ) :=
  ((List.range' low passes).flatMap (Vehicle.row deliverPos)).filter fun c =>
    (v.trial M o c.1 c.2).isFeasible

section Search
variable {M : Matrix} {v : Vehicle} {o : Order} (hv : IsRoute (nodesOf v.path)) (ho : o.Typed)
  (hs : Settled M v.capacity v.speed 0 v.path) {p : ℕ}
include hv ho hs

theorem trial_edited {pick deliver : ℕ} (hp : p ≤ pick) (hpd : pick < deliver) :
    Edited M v p (v.path.length + 2) (((nodesOf v.path).insertIdx pick
      o.pickup.toTwNode).insertIdx deliver o.delivery.toTwNode) (v.trial M o pick deliver) :=
  ((Edited.of_settled (noDump_iff_nodes.mpr hv.noDump) hs p pick).insert hp le_rfl
    (x := o.pickup) (by rw [ho.pickup]; simp) deliver).insert (by omega) le_rfl (x := o.delivery)
    (by rw [ho.delivery]; simp) _

/-- A vehicle that the search sees is the one that the two insertions give. -/
theorem eq_trial {pick deliver : ℕ} {w : Vehicle} (hp : p ≤ pick) (hpd : pick < deliver)
    (hw : Edited M v p (v.path.length + 2) (((nodesOf v.path).insertIdx pick
      o.pickup.toTwNode).insertIdx deliver o.delivery.toTwNode) w) :
    w = v.trial M o pick deliver := by
  refine hw.unique (trial_edited hv ho hs hp hpd) ?_
  rw [List.length_insertIdx, List.length_insertIdx, length_nodesOf]
  split_ifs <;> omega

/-- The inner loop tries every position of the delivery. -/
theorem climbDeliver_best (cur : ℤ) {pick : ℕ} (h1 : 1 ≤ p) (hp : p ≤ pick)
    (hpick : pick < v.path.length) :
    ∀ (passes pos : ℕ) (b : BestPositions) (w : Vehicle) (seen : List (ℕ × ℕ)), pick < pos →
      pos + passes ≤ v.path.length + 1 →
      b.IsBest (fun c => (v.trial M o c.1 c.2).objective) cur seen →
      Edited M v p (v.path.length + 2) (((nodesOf v.path).insertIdx pick
        o.pickup.toTwNode).insertIdx pos o.delivery.toTwNode) w →
      (Vehicle.climbDeliver M cur pick passes pos b w).2.1.IsBest
        (fun c => (v.trial M o c.1 c.2).objective) cur
        (seen ++ ((List.range' pos passes).map fun d => (pick, d)).filter fun c =>
          (v.trial M o c.1 c.2).isFeasible)
  | 0, pos, b, w, seen, _, _, hb, _ => by simpa [Vehicle.climbDeliver] using hb
  | passes + 1, pos, b, w, seen, hpos, hpass, hb, hw => by
    have hlen : ((nodesOf v.path).insertIdx pick o.pickup.toTwNode).length =
        v.path.length + 1 := by
      rw [List.length_insertIdx_of_le_length (by rw [length_nodesOf]; omega), length_nodesOf]
    have htrial := eq_trial hv ho hs hp hpos hw
    have hb' : BestPositions.IsBest (fun c => (v.trial M o c.1 c.2).objective) cur
        (if w.isFeasible then b.improve (w.objective - cur) pick pos else b)
        (seen ++ [(pick, pos)].filter fun c => (v.trial M o c.1 c.2).isFeasible) := by
      rw [htrial, List.filter_singleton]
      cases (v.trial M o pick pos).isFeasible with
      | false => simpa using hb
      | true => exact hb.improve (pick, pos)
    unfold Vehicle.climbDeliver
    simp only
    generalize (if w.isFeasible then b.improve (w.objective - cur) pick pos else b) = best at hb' ⊢
    rw [List.range'_succ, List.map_cons, ← List.singleton_append, List.filter_append,
      ← List.append_assoc]
    split_ifs with hend
    · -- the ending site is behind the delivery, which is at the last position of the loop
      have hroute := (hv.insertIdx (Or.inl ho.pickup) (by omega) (by rw [length_nodesOf]; omega)
        (i := pick)).insertIdx (Or.inr ho.delivery) (i := pos) (by omega) (by omega)
      have hlast := hroute.end_last (i := pos + 1) (by
        rw [← hw.nodes, ← toTwNode_stop]
        exact (of_decide_eq_true hend).1)
      rw [List.length_insertIdx_of_le_length (by omega), hlen] at hlast
      obtain rfl : passes = 0 := by omega
      simpa using hb'
    · exact climbDeliver_best cur h1 hp hpick passes (pos + 1) _ _ _ (by omega) (by omega) hb'
        (hw.swap (by omega) (by omega) (by omega) (v.path.length + 2))

/-- The outer loop tries every position of the pickup. -/
theorem climbPick_best (cur : ℤ) {dlow dhigh : ℕ} (h1 : 1 ≤ p) (hdlow : dlow ≤ v.path.length)
    (hdhigh : dhigh < v.path.length) :
    ∀ (passes pick : ℕ) (b : BestPositions) (w : Vehicle) (seen : List (ℕ × ℕ)), p ≤ pick →
      pick + passes ≤ v.path.length → b.Tried M v o p →
      b.IsBest (fun c => (v.trial M o c.1 c.2).objective) cur seen →
      Edited M v p (v.path.length + 2) ((nodesOf v.path).insertIdx pick o.pickup.toTwNode) w →
      (Vehicle.climbPick M cur o (dlow + 1, dhigh + 1) passes pick b w).2.1.IsBest
        (fun c => (v.trial M o c.1 c.2).objective) cur
        (seen ++ v.feasiblePairs M o (dlow, dhigh) pick passes)
  | 0, pick, b, w, seen, _, _, _, hb, _ => by
    simpa [Vehicle.climbPick, Vehicle.feasiblePairs] using hb
  | passes + 1, pick, b, w, seen, hp, hpass, ht, hb, hw => by
    have hlen : ((nodesOf v.path).insertIdx pick o.pickup.toTwNode).length =
        v.path.length + 1 := by
      rw [List.length_insertIdx_of_le_length (by rw [length_nodesOf]; omega), length_nodesOf]
    have hrows : v.feasiblePairs M o (dlow, dhigh) pick (passes + 1) =
        ((Vehicle.row (dlow, dhigh) pick).filter fun c => (v.trial M o c.1 c.2).isFeasible) ++
          v.feasiblePairs M o (dlow, dhigh) (pick + 1) passes := by
      unfold Vehicle.feasiblePairs
      rw [List.range'_succ, List.flatMap_cons, List.filter_append]
    unfold Vehicle.climbPick
    simp only
    have hfirst : (if dlow + 1 ≤ pick then pick + 1 else dlow + 1) = max dlow pick + 1 := by
      split_ifs <;> omega
    rw [hfirst, show dhigh + 1 + 1 - (max dlow pick + 1) = dhigh + 1 - max dlow pick by omega]
    have hins := hw.insert (i := max dlow pick + 1) (x := o.delivery) (by omega) (by omega)
      (by rw [ho.delivery]; simp) (v.path.length + 2)
    have hbest := climbDeliver_best hv ho hs cur h1 hp (by omega) (dhigh + 1 - max dlow pick)
      (max dlow pick + 1) b _ seen (by omega) (by omega) hb hins
    obtain ⟨pos', b', w', heq, hpos1, hpos2, ht', hw'⟩ := climbDeliver_spec cur hp (by omega)
      (dhigh + 1 - max dlow pick) (max dlow pick + 1) b _ (by omega) (by omega) ht hins
    rw [heq] at hbest ⊢
    simp only at hbest ⊢
    have hv1 := hw'.eraseNode (i := pos') (by omega)
    rw [List.eraseIdx_insertIdx_self] at hv1
    rw [hrows, ← List.append_assoc]
    split_ifs with hend
    · have hroute := hv.insertIdx (Or.inl ho.pickup) (i := pick) (by omega)
        (by rw [length_nodesOf]; omega)
      have hlast := hroute.end_last (i := pick + 1) (by
        rw [← hv1.nodes, ← toTwNode_stop]
        exact (of_decide_eq_true hend).1)
      obtain rfl : passes = 0 := by omega
      simpa [Vehicle.feasiblePairs, Vehicle.row] using hbest
    · exact climbPick_best cur h1 hdlow hdhigh passes (pick + 1) b' _ _ (by omega) (by omega) ht' hbest
        (hv1.swap hp (by omega) (by rw [length_nodesOf]; omega) _)

omit hv ho hs in
/-- Without positions for the pickup or for the delivery there is no pair. -/
theorem feasiblePairs_eq_nil {deliverPos : ℕ × ℕ} {low high : ℕ}
    (h : high < low ∨ deliverPos.2 < deliverPos.1) :
    v.feasiblePairs M o deliverPos low (high + 1 - low) = [] := by
  unfold Vehicle.feasiblePairs
  rcases h with h | h
  · rw [show high + 1 - low = 0 by omega]
    rfl
  · rw [List.flatMap_eq_nil_iff.mpr fun p _ => ?_]
    · rfl
    · unfold Vehicle.row
      rw [show deliverPos.2 + 1 - max deliverPos.1 p = 0 by omega]
      rfl

/-- The loops give back the vehicle, and find the best pair. -/
theorem climbPick_search (pickPos deliverPos : ℕ × ℕ) (h1 : 1 ≤ pickPos.1)
    (hlow : pickPos.1 ≤ pickPos.2) (hhigh : pickPos.2 < v.path.length)
    (hdlow : deliverPos.1 ≤ v.path.length) (hdhigh : deliverPos.2 < v.path.length) :
    let r := Vehicle.climbPick M v.objective o (deliverPos.1 + 1, deliverPos.2 + 1)
      (pickPos.2 + 1 - pickPos.1) pickPos.1 ⟨v.size, v.size + 1, none, false⟩
      (v.insert M pickPos.1 o.pickup)
    r.2.2.eraseAt M r.1 = v ∧
      r.2.1.IsBest (fun c => (v.trial M o c.1 c.2).objective) v.objective
        (v.feasiblePairs M o deliverPos pickPos.1 (pickPos.2 + 1 - pickPos.1)) := by
  intro r
  have hstart := (Edited.refl (p := pickPos.1) (M := M) (noDump_iff_nodes.mpr hv.noDump)).insert
    le_rfl le_rfl (x := o.pickup) (by rw [ho.pickup]; simp) (v.path.length + 2)
  have hbest := climbPick_best hv ho hs v.objective h1 hdlow hdhigh (pickPos.2 + 1 - pickPos.1)
    pickPos.1 ⟨v.size, v.size + 1, none, false⟩ _ [] le_rfl (by omega)
    (by simp [BestPositions.Tried]) ⟨rfl, rfl⟩ hstart
  rw [List.nil_append] at hbest
  refine ⟨?_, hbest⟩
  obtain ⟨pick', b', w', k', heq, hp', hk', -, -, hw'⟩ := climbPick_spec v.objective ho
    (show (deliverPos.1 + 1, deliverPos.2 + 1).1 ≤ _ by simpa using hdlow)
    (Nat.succ_le_of_lt hdhigh) (pickPos.2 + 1 - pickPos.1) pickPos.1
    ⟨v.size, v.size + 1, none, false⟩ _ _ le_rfl (by omega) (by omega) le_rfl (fun _ => rfl)
    (by simp [BestPositions.Tried]) hstart
  have hr : r = (pick', b', w') := heq
  -- The pickup is taken off, so the vehicle is the one of the beginning.
  have herase := hw'.eraseAt hp' hk' (v.path.length + 2)
  rw [List.eraseIdx_insertIdx_self] at herase
  rw [hr]
  exact (herase.unchanged (by omega)).settled hs

/-- **What `hillClimb` returns**: the first of the feasible pairs inside the limits that has the
least objective. -/
theorem hillClimb_eq : v.hillClimb M o =
    match (v.feasiblePairs M o (v.positionLimits M o.delivery.toTwNode)
      (v.positionLimits M o.pickup.toTwNode).1 ((v.positionLimits M o.pickup.toTwNode).2 + 1 -
        (v.positionLimits M o.pickup.toTwNode).1)).argmin
          fun c => (v.trial M o c.1 c.2).objective with
    | none => (false, v)
    | some c => (true, { v.trial M o c.1 c.2 with
        ordersInVehicle := v.ordersInVehicle.insert o.idx }) := by
  unfold Vehicle.hillClimb
  extract_lets pickPos deliverPos r v1 v2
  by_cases hlow : pickPos.2 < pickPos.1
  · rw [if_pos hlow, feasiblePairs_eq_nil (Or.inl hlow)]
    rfl
  rw [if_neg hlow]
  by_cases hdlow : deliverPos.2 < deliverPos.1
  · rw [if_pos hdlow, feasiblePairs_eq_nil (Or.inr hdlow)]
    rfl
  rw [if_neg hdlow]
  obtain ⟨hv1, hbest⟩ := climbPick_search hv ho hs pickPos deliverPos
    (getPosLowLimit_bounds M v o.pickup.toTwNode hv).1 (not_lt.mp hlow)
    (getPosHighLimit_lt M v o.pickup.toTwNode hv)
    (getPosLowLimit_bounds M v o.delivery.toTwNode hv).2
    (getPosHighLimit_lt M v o.delivery.toTwNode hv)
  change v1 = v at hv1
  change r.2.1.IsBest _ _ _ at hbest
  unfold BestPositions.IsBest at hbest
  change _ = match (v.feasiblePairs M o deliverPos pickPos.1
    (pickPos.2 + 1 - pickPos.1)).argmin _ with | none => _ | some c => _
  cases hmin : (v.feasiblePairs M o deliverPos pickPos.1 (pickPos.2 + 1 - pickPos.1)).argmin
      fun c => (v.trial M o c.1 c.2).objective with
  | none =>
    rw [hmin] at hbest
    rw [hbest.1, hv1]
    rfl
  | some c =>
    rw [hmin] at hbest
    rw [if_neg (by simp [hbest])]
    simp only [v2, hv1, hbest]
    rfl

end Search

/-! ### The result -/

/-- The pair of positions is inside the limits, and the order fits there. -/
structure Vehicle.FitsAt (M : Matrix) (v : Vehicle) (o : Order) (p d : ℕ) : Prop where
  pickLow : (v.positionLimits M o.pickup.toTwNode).1 ≤ p
  pickHigh : p ≤ (v.positionLimits M o.pickup.toTwNode).2
  deliverLow : max (v.positionLimits M o.delivery.toTwNode).1 p + 1 ≤ d
  deliverHigh : d ≤ (v.positionLimits M o.delivery.toTwNode).2 + 1
  /-- In the route with the pickup the ending site has the position `v.path.length`. -/
  beforeEnd : d ≤ v.path.length
  feasible : (v.trial M o p d).isFeasible = true

theorem mem_feasiblePairs_iff {M : Matrix} {v : Vehicle} (hv : IsRoute (nodesOf v.path)) {o : Order}
    {c : ℕ × ℕ} : c ∈ v.feasiblePairs M o (v.positionLimits M o.delivery.toTwNode)
      (v.positionLimits M o.pickup.toTwNode).1 ((v.positionLimits M o.pickup.toTwNode).2 + 1 -
        (v.positionLimits M o.pickup.toTwNode).1) ↔ v.FitsAt M o c.1 c.2 := by
  have hdh : (v.positionLimits M o.delivery.toTwNode).2 < v.path.length :=
    getPosHighLimit_lt M v o.delivery.toTwNode hv
  unfold Vehicle.feasiblePairs Vehicle.row
  simp only [List.mem_filter, List.mem_flatMap, List.mem_range'_1, List.mem_map]
  constructor
  · rintro ⟨⟨p, hp, d, hd, rfl⟩, hf⟩
    exact ⟨by omega, by omega, by dsimp only; omega, by dsimp only; omega, by dsimp only; omega, hf⟩
  · rintro ⟨h1, h2, h3, h4, -, hf⟩
    exact ⟨⟨c.1, by omega, c.2, by omega, rfl⟩, hf⟩

/-- The order of the search: pickup by pickup. -/
def ScanBefore (c c' : ℕ × ℕ) : Prop := c.1 < c'.1 ∨ (c.1 = c'.1 ∧ c.2 < c'.2)

theorem feasiblePairs_pairwise (M : Matrix) (v : Vehicle) (o : Order) (deliverPos : ℕ × ℕ)
    (low passes : ℕ) : (v.feasiblePairs M o deliverPos low passes).Pairwise ScanBefore := by
  refine List.Pairwise.filter _ (List.pairwise_flatMap.mpr ⟨fun p _ => ?_, ?_⟩)
  · exact List.pairwise_map.mpr ((List.pairwise_lt_range' 1).imp fun h => Or.inr ⟨rfl, h⟩)
  · refine (List.pairwise_lt_range' 1).imp fun h c hc c' hc' => Or.inl ?_
    obtain ⟨d, -, rfl⟩ := List.mem_map.mp hc
    obtain ⟨d', -, rfl⟩ := List.mem_map.mp hc'
    exact h

section Result
variable {M : Matrix} {v : Vehicle} {o : Order} (hv : IsRoute (nodesOf v.path)) (ho : o.Typed)
  (hs : Settled M v.capacity v.speed 0 v.path)
include hv ho hs

/-- `hillClimb` succeeds exactly when the order fits somewhere. -/
theorem hillClimb_found_iff : (v.hillClimb M o).1 = true ↔ ∃ p d, v.FitsAt M o p d := by
  rw [hillClimb_eq hv ho hs]
  have hmem := fun c => mem_feasiblePairs_iff (M := M) hv (o := o) (c := c)
  cases hmin : (v.feasiblePairs M o (v.positionLimits M o.delivery.toTwNode)
      (v.positionLimits M o.pickup.toTwNode).1 ((v.positionLimits M o.pickup.toTwNode).2 + 1 -
        (v.positionLimits M o.pickup.toTwNode).1)).argmin
          fun c => (v.trial M o c.1 c.2).objective with
  | none =>
    refine ⟨fun h => absurd h Bool.false_ne_true, ?_⟩
    rintro ⟨p, d, hfit⟩
    have hc := (hmem (p, d)).mpr hfit
    rw [List.argmin_eq_none.mp hmin] at hc
    cases hc
  | some c =>
    exact ⟨fun _ => ⟨c.1, c.2, (hmem c).mp (List.mem_argmin_iff.mp hmin).1⟩, fun _ => rfl⟩

/-- **`hillClimb` is exhaustive and optimal inside its limits.** -/
theorem hillClimb_best :
    ((v.hillClimb M o).1 = true ↔ ∃ p d, v.FitsAt M o p d) ∧
    ((v.hillClimb M o).1 = true → ∃ p d, v.FitsAt M o p d ∧
      (v.hillClimb M o).2 =
        { v.trial M o p d with ordersInVehicle := v.ordersInVehicle.insert o.idx } ∧
      (∀ p' d', v.FitsAt M o p' d' → (v.trial M o p d).objective ≤ (v.trial M o p' d').objective) ∧
      ∀ p' d', v.FitsAt M o p' d' → (v.trial M o p' d').objective = (v.trial M o p d).objective →
        (p', d') ≠ (p, d) → ScanBefore (p, d) (p', d')) := by
  refine ⟨hillClimb_found_iff hv ho hs, ?_⟩
  rw [hillClimb_eq hv ho hs]
  have hpairs := feasiblePairs_pairwise M v o (v.positionLimits M o.delivery.toTwNode)
    (v.positionLimits M o.pickup.toTwNode).1 ((v.positionLimits M o.pickup.toTwNode).2 + 1 -
      (v.positionLimits M o.pickup.toTwNode).1)
  have hmem := fun c => mem_feasiblePairs_iff (M := M) hv (o := o) (c := c)
  generalize v.feasiblePairs M o (v.positionLimits M o.delivery.toTwNode)
    (v.positionLimits M o.pickup.toTwNode).1 ((v.positionLimits M o.pickup.toTwNode).2 + 1 -
      (v.positionLimits M o.pickup.toTwNode).1) = pairs at hpairs hmem ⊢
  cases hmin : pairs.argmin fun c => (v.trial M o c.1 c.2).objective with
  | none => exact fun h => absurd h Bool.false_ne_true
  | some c =>
    obtain ⟨hc, hle, hfirst⟩ := List.mem_argmin_iff.mp hmin
    refine fun _ => ⟨c.1, c.2, (hmem c).mp hc, rfl,
      fun p' d' hfit' => hle (p', d') ((hmem (p', d')).mpr hfit'), fun p' d' hfit' heq hne => ?_⟩
    have hc' := (hmem (p', d')).mpr hfit'
    exact ListEdit.rel_of_idxOf_le hpairs hc hc' hne (hfirst (p', d') hc' (le_of_eq heq))

/-- **`hillClimb` is atomic.** -/
theorem hillClimb_atomic :
    ((v.hillClimb M o).1 = false → (v.hillClimb M o).2 = v) ∧
    ((v.hillClimb M o).1 = true → (v.hillClimb M o).2.isFeasible = true ∧
      (v.hillClimb M o).2.hasOrder o = true ∧ Inserted M v o (v.hillClimb M o).2) := by
  rcases hillClimb_spec (M := M) hv ho with ⟨hfound, hins, hf⟩ | ⟨hnot, hun⟩
  · refine ⟨fun h => absurd (hfound.symm.trans h) Bool.noConfusion, fun _ => ⟨hf, ?_, hins⟩⟩
    rw [Vehicle.hasOrder, hins.others, Identifiers.has_iff, Identifiers.mem_insert]
    exact Or.inl rfl
  · exact ⟨fun _ => hun.settled hs, fun h => absurd (hnot.symm.trans h) Bool.noConfusion⟩

end Result

/-! ### A small vehicle -/

def climbOrders : Orders := .ofData [smallOrderData 10 100, smallOrderData 11 100]

/-- A vehicle without orders, with room for both. -/
def climbTrip : Vehicle :=
  .construct twoSites 0 7 (.ofTwNode (.ofVehicle 4 (smallVehicleData 7 []) .kStart))
    (.ofTwNode (.ofVehicle 5 (smallVehicleData 7 []) .kEnd)) [] 2 1 climbOrders

theorem climbTrip_route : IsRoute (nodesOf climbTrip.path) := ⟨_, [], _, rfl, rfl, rfl, by simp⟩

/-- The vehicle with the second order. -/
def busyTrip : Vehicle := climbTrip.pushBack twoSites (climbOrders.get 1)

theorem busyTrip_route : IsRoute (nodesOf busyTrip.path) :=
  ⟨_, [(climbOrders.get 1).pickup.toTwNode, (climbOrders.get 1).delivery.toTwNode], _, rfl, rfl, rfl,
    by decide +kernel⟩

theorem busyTrip_settled : Settled twoSites busyTrip.capacity busyTrip.speed 0 busyTrip.path :=
  (pushBack_spec climbTrip_route ⟨rfl, rfl⟩).settled rfl

/-- The first order fits before the second one and behind it, but two common ways are shorter. -/
theorem hillClimb_best_small :
    busyTrip.FitsAt twoSites (climbOrders.get 0) 1 2 ∧ busyTrip.FitsAt twoSites (climbOrders.get 0) 3 4 ∧
    ∃ p d, busyTrip.FitsAt twoSites (climbOrders.get 0) p d ∧
      (busyTrip.hillClimb twoSites (climbOrders.get 0)).2 =
        { busyTrip.trial twoSites (climbOrders.get 0) p d with
          ordersInVehicle := busyTrip.ordersInVehicle.insert 0 } ∧
      (busyTrip.trial twoSites (climbOrders.get 0) p d).objective <
        (busyTrip.trial twoSites (climbOrders.get 0) 1 2).objective := by
  obtain ⟨p, d, hfit, hresult, hbest, -⟩ := (hillClimb_best (M := twoSites) busyTrip_route
    (o := climbOrders.get 0) ⟨rfl, rfl⟩ busyTrip_settled).2 (by decide +kernel)
  have hfits : busyTrip.FitsAt twoSites (climbOrders.get 0) 1 3 := by
    constructor <;> decide +kernel
  refine ⟨?_, ?_, p, d, hfit, hresult, (hbest 1 3 hfits).trans_lt (by decide +kernel)⟩
  · constructor <;> decide +kernel
  · constructor <;> decide +kernel

theorem hillClimb_atomic_small :
    (busyTrip.hillClimb twoSites (climbOrders.get 0)).2.isFeasible = true ∧
    (busyTrip.hillClimb twoSites (climbOrders.get 0)).2.hasOrder (climbOrders.get 0) = true ∧
    Inserted twoSites busyTrip (climbOrders.get 0)
      (busyTrip.hillClimb twoSites (climbOrders.get 0)).2 :=
  (hillClimb_atomic (M := twoSites) busyTrip_route (o := climbOrders.get 0) ⟨rfl, rfl⟩
    busyTrip_settled).2 (by decide +kernel)

end VrpRouting
