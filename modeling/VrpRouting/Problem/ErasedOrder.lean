import VrpRouting.Problem.Built
import VrpRouting.Problem.Feasibility
import VrpRouting.Problem.PickDeliver

/-! # Vehicles that lose an order

On static travel times with the triangle inequality, `erase(order)` leaves the other stops of the
vehicle behind, and none of them is worse off (`eraseOrder_never_worse`). The two paths are compared
through the arrivals and the loads of their nodes: what is left out lets the vehicle arrive no later
at every stop behind it, whether it then waits or not, and the load between the two stops of the
order is less, but not below zero. -/

open TimeWindows

namespace VrpRouting

/-- The nodes of the path are valid and belong to orders, which are there once, pickup before
delivery, or not at all. -/
structure Whole (orders : Orders) (v : Vehicle) : Prop where
  valid : ∀ t ∈ nodesOf v.path, t.isValid = true
  known : ∀ t ∈ nodesOf v.path, t.type = .kStart ∨ t.type = .kEnd ∨
    ∃ i < orders.length, isNodeOf (orders.get i) t = true
  whole : ∀ i < orders.length, Carries (orders.get i) v ∨ Free (orders.get i) v

section Removal
variable {M : Matrix} {orders : Orders} (ho : orders.WellFormed) (hbal : orders.Balanced)
  {v : Vehicle}

include ho hbal in
/-- On a whole route no load is negative. -/
theorem Whole.load_nonneg (hw : Whole orders v) {L : List TwNode} (hL : L <+: nodesOf v.path) :
    0 ≤ load TwNode.demand L := by
  have hmem : ∀ t ∈ L, t ∈ nodesOf v.path := fun t ht => hL.subset ht
  rw [load_eq_sum ho fun t ht => ?_]
  · refine Finset.sum_nonneg fun i hi => ?_
    have hi := Finset.mem_range.mp hi
    have hp : visits (orders.get i) L <+: visits (orders.get i) (nodesOf v.path) := hL.filter _
    rcases hw.whole i hi with hc | hf
    · have hpick : 0 < (orders.get i).pickup.demand := by
        have hin : (orders.get i).pickup.toTwNode ∈ visits (orders.get i) (nodesOf v.path) := by
          rw [hc]; simp
        have hval := hw.valid _ (List.mem_of_mem_filter hin)
        simp only [TwNode.isValid, (ho.typed i hi).pickup] at hval
        exact (of_decide_eq_true hval).2.2.2
      unfold Carries at hc
      rw [hc] at hp
      exact load_stops_nonneg hpick.le (hbal i hi) hp
    · unfold Free at hf
      rw [hf] at hp
      rw [List.prefix_nil.mp hp]
      exact le_rfl
  · rcases hw.known t (hmem t ht) with h | h | h
    · exact Or.inl (demand_of_site (hw.valid t (hmem t ht)) (Or.inl h))
    · exact Or.inl (demand_of_site (hw.valid t (hmem t ht)) (Or.inr h))
    · exact Or.inr h

/-- The removal of an order takes its nodes off the path, if none of them is there twice. -/
theorem eraseOrder_nodes_filter_iff {o : Order} (hne : o.pickup.idx ≠ o.delivery.idx)
    (hd : NoDump v.path) :
    (nodesOf (v.eraseOrder M o).path = (nodesOf v.path).filter fun t => !isNodeOf o t) ↔
      ∀ k, k = o.pickup.idx ∨ k = o.delivery.idx →
        ((nodesOf v.path).filter (hasIdx k)).length ≤ 1 := by
  constructor
  · intro h k hk
    -- one node with the index leaves, and none is left
    have hleft : (nodesOf (v.eraseOrder M o).path).filter (hasIdx k) =
        ((nodesOf v.path).filter (hasIdx k)).eraseP (hasIdx k) := by
      have hother : ∀ {k k'}, k ≠ k' → ∀ t, hasIdx k' t = true → hasIdx k t = false :=
        fun hkk t ht => decide_eq_false fun he => hkk (he.trans (of_decide_eq_true ht).symm)
      rw [eraseOrder_nodes hd]
      rcases hk with rfl | rfl
      · rw [ListEdit.filter_eraseP_of_neg (hother hne), ListEdit.filter_eraseP fun _ ht => ht]
      · rw [ListEdit.filter_eraseP fun _ ht => ht, ListEdit.filter_eraseP_of_neg (hother hne.symm)]
    have hnone : (nodesOf (v.eraseOrder M o).path).filter (hasIdx k) = [] := by
      rw [h, List.filter_filter]
      refine List.filter_eq_nil_iff.mpr fun t _ ht => ?_
      obtain ⟨htk, hout⟩ := (Bool.and_eq_true _ _).mp ht
      have hin : isNodeOf o t = true :=
        isNodeOf_of_hasIdx (by rcases hk with rfl | rfl <;> simp [htk])
      rw [hin] at hout
      cases hout
    rw [hleft] at hnone
    generalize hl : (nodesOf v.path).filter (hasIdx k) = l at hnone ⊢
    cases l with
    | nil => exact Nat.zero_le 1
    | cons t l =>
      have ht : hasIdx k t = true := List.of_mem_filter (hl ▸ List.mem_cons_self)
      rw [List.eraseP_cons_of_pos ht] at hnone
      rw [hnone]
      exact le_rfl
  · intro hone
    have hone' : (((nodesOf v.path).filter fun t => !hasIdx o.pickup.idx t).filter
        (hasIdx o.delivery.idx)).length ≤ 1 :=
      ((List.filter_sublist.filter _).length_le).trans (hone _ (Or.inr rfl))
    rw [eraseOrder_nodes hd, ListEdit.eraseP_eq_filter (hone _ (Or.inl rfl)),
      ListEdit.eraseP_eq_filter hone', List.filter_filter]
    refine List.filter_congr fun t _ => ?_
    simp only [hasIdx, isNodeOf, eq_comm (a := t.idx), Bool.decide_or, Bool.not_or, Bool.and_comm]

/-- An order that is carried or not there leaves no node on the path. -/
theorem eraseOrder_nodes_filter {o : Order} (hne : o.pickup.idx ≠ o.delivery.idx)
    (hd : NoDump v.path) (h : Carries o v ∨ Free o v) :
    nodesOf (v.eraseOrder M o).path = (nodesOf v.path).filter fun t => !isNodeOf o t := by
  refine (eraseOrder_nodes_filter_iff hne hd).mpr fun k hk => ?_
  have hvisits : (nodesOf v.path).filter (hasIdx k) =
      (visits o (nodesOf v.path)).filter (hasIdx k) := by
    unfold visits
    rw [List.filter_filter]
    refine List.filter_congr fun t _ => ?_
    cases ht : hasIdx k t with
    | false => rfl
    | true => rw [isNodeOf_of_hasIdx (by rcases hk with rfl | rfl <;> simp [ht])]; rfl
  rw [hvisits]
  rcases h with h | h
  · unfold Carries at h
    rw [h]
    rcases hk with rfl | rfl <;> simp [hasIdx, hne, hne.symm]
  · unfold Free at h
    rw [h]
    exact Nat.zero_le 1

include ho in
/-- The path around a carried order. -/
theorem exists_split (hr : RouteOf orders v) {i : ℕ} (hi : i < orders.length)
    (hc : Carries (orders.get i) v) : ∃ A B C,
      nodesOf v.path = A ++ (orders.get i).pickup.toTwNode ::
        (B ++ (orders.get i).delivery.toTwNode :: C) ∧
      (∀ t ∈ A ++ (B ++ C), isNodeOf (orders.get i) t = false) ∧
      ∀ t ∈ B, t.isStart = false ∧ t.isEnd = false := by
  have ht := ho.typed i hi
  unfold Carries visits at hc
  obtain ⟨A, R, hN, hA, hR⟩ := ListEdit.exists_of_filter_cons hc
  obtain ⟨B, C, rfl, hB, hC⟩ := ListEdit.exists_of_filter_cons hR
  obtain ⟨s, mids, e, hroute, hs, he, hmids⟩ := hr.route
  have hnone : ∀ t ∈ A ++ (B ++ C), isNodeOf (orders.get i) t = false := fun t h => by
    rcases List.mem_append.mp h with h | h
    · exact hA t h
    · rcases List.mem_append.mp h with h | h
      · exact hB t h
      · exact Bool.not_eq_true _ ▸ List.filter_eq_nil_iff.mp hC t h
  refine ⟨A, B, C, hN, hnone, fun t htB => ?_⟩
  cases A with
  | nil =>
    rw [hN] at hroute
    rw [← (List.cons.inj hroute).1, ht.pickup] at hs
    cases hs
  | cons a A =>
    rw [hN] at hroute
    have htail := (List.cons.inj hroute).2
    -- The ending site is behind the delivery, so `B` is between the two sites.
    rcases List.eq_nil_or_concat C with rfl | ⟨C, e', rfl⟩
    · have h : (A ++ (orders.get i).pickup.toTwNode :: B) ++ [(orders.get i).delivery.toTwNode] =
          mids ++ [e] := by simpa using htail
      have hed := (List.append_inj' h rfl).2
      rw [← (List.cons.inj hed).1, ht.delivery] at he
      cases he
    · have h : (A ++ (orders.get i).pickup.toTwNode ::
          (B ++ (orders.get i).delivery.toTwNode :: C)) ++ [e'] = mids ++ [e] := by
        simpa using htail
      have hmem : t ∈ mids := by
        rw [← (List.append_inj' h rfl).1]
        simp [htB]
      rcases hmids t hmem with h1 | h1 <;> simp [TwNode.isStart, TwNode.isEnd, h1]

theorem Whole.eraseOrder (ho : orders.WellFormed) (hr : RouteOf orders v) (hw : Whole orders v)
    {i : ℕ} (hi : i < orders.length) : Whole orders (v.eraseOrder M (orders.get i)) := by
  have hmem : ∀ t ∈ nodesOf (v.eraseOrder M (orders.get i)).path, t ∈ nodesOf v.path := fun t ht => by
    rw [eraseOrder_nodes hr.noDump] at ht
    exact List.mem_of_mem_eraseP (List.mem_of_mem_eraseP ht)
  refine ⟨fun t ht => hw.valid t (hmem t ht), fun t ht => hw.known t (hmem t ht), fun j hj => ?_⟩
  by_cases hji : j = i
  · subst hji
    rcases hw.whole j hj with hc | hf
    · exact Or.inr (eraseOrder_free hr.noDump hc)
    · exact Or.inr (eraseOrder_free_of_free hr.noDump hf)
  · have hv := eraseOrder_visits_other (M := M) ho hj hi hr.noDump hji
    unfold Carries Free
    rw [hv]
    exact hw.whole j hj

/-- No load on the nodes of the path gets bad when an order leaves. -/
theorem loads_eraseOrder_nodes (ho : orders.WellFormed) (hbal : orders.Balanced)
    (hr : RouteOf orders v) (hw : Whole orders v) {i : ℕ} (hi : i < orders.length) :
    List.Forall₂ (fun x y => x.1 = y.1 ∧
        (badLoad v.capacity x.1 x.2 = true → badLoad v.capacity y.1 y.2 = true))
      (loads TwNode.demand 0 (nodesOf (v.eraseOrder M (orders.get i)).path))
      ((loads TwNode.demand 0 (nodesOf v.path)).filter fun x =>
        !isNodeOf (orders.get i) x.1) := by
  have hN := eraseOrder_nodes_filter (M := M) (ho.pickup_ne_delivery i hi i hi) hr.noDump
    (hw.whole i hi)
  have hw' := hw.eraseOrder (M := M) ho hr hi
  rw [hN]
  rcases hw.whole i hi with hc | hfree
  · obtain ⟨A, B, C, hsplit, hnone, hB⟩ := exists_split ho hr hi hc
    have hq : ∀ t ∈ A ++ (B ++ C), (!isNodeOf (orders.get i) t) = true := fun t h => by
      simp [hnone t h]
    have hpick : 0 ≤ (orders.get i).pickup.demand := by
      have hval := hw.valid (orders.get i).pickup.toTwNode (by rw [hsplit]; simp)
      simp only [TwNode.isValid, (ho.typed i hi).pickup] at hval
      exact (of_decide_eq_true hval).2.2.2.le
    rw [hsplit]
    refine loads_remove_pair (hbal i hi) (by simp [isNodeOf]) (by simp [isNodeOf]) hq
      fun pre t post hpre hbad => ?_
    obtain ⟨hstart, hend⟩ := hB t (by rw [hpre]; simp)
    -- The loads without the order are those of a whole route, so they are not negative.
    have hprefix : A ++ (pre ++ [t]) <+: nodesOf (v.eraseOrder M (orders.get i)).path := by
      have hABC : (A ++ (orders.get i).pickup.toTwNode ::
          (B ++ (orders.get i).delivery.toTwNode :: C)).filter
            (fun t => !isNodeOf (orders.get i) t) = A ++ (B ++ C) := by
        simpa [List.filter_cons, isNodeOf] using List.filter_eq_self.mpr hq
      rw [hN, hsplit, hABC, hpre]
      exact ⟨post ++ C, by simp⟩
    have hload := hw'.load_nonneg ho hbal hprefix
    simp only [badLoad, hstart, hend, Bool.or_self, Bool.false_eq_true, if_false,
      decide_eq_true_eq] at hbad ⊢
    simp only [load_append, load_cons, load_nil] at hload hbad ⊢
    omega
  · have hnone : ∀ t ∈ nodesOf v.path, (!isNodeOf (orders.get i) t) = true := fun t h => by
      simpa using List.filter_eq_nil_iff.mp hfree t h
    rw [List.filter_eq_self.mpr hnone, List.filter_eq_self.mpr fun x hx =>
      hnone x.1 (mem_of_mem_loads hx)]
    exact List.forall₂_same.mpr fun _ _ => ⟨rfl, id⟩

end Removal

/-- The stop `new` is the stop `old`, reached no later and without a new violation. -/
structure NotWorse (cap : ℕ) (new old : VehicleNode) : Prop where
  node : new.toTwNode = old.toTwNode
  arrival : new.arrivalTime ≤ old.arrivalTime
  twv : new.hasTwv = true → old.hasTwv = true
  cv : new.hasCv cap = true → old.hasCv cap = true

instance (cap : ℕ) (new old : VehicleNode) : Decidable (NotWorse cap new old) :=
  decidable_of_iff (new.toTwNode = old.toTwNode ∧ new.arrivalTime ≤ old.arrivalTime ∧
      (new.hasTwv = true → old.hasTwv = true) ∧ (new.hasCv cap = true → old.hasCv cap = true))
    ⟨fun h => ⟨h.1, h.2.1, h.2.2.1, h.2.2.2⟩, fun h => ⟨h.node, h.arrival, h.twv, h.cv⟩⟩

/-- A stop that is late is also late when it is reached later. -/
theorem NotWorse.of_earlier {cap : ℕ} {new old : VehicleNode}
    (htime : new.timed.1 = old.timed.1 ∧ new.timed.2 ≤ old.timed.2)
    (hload : new.loaded.1 = old.loaded.1 ∧ (badLoad cap new.loaded.1 new.loaded.2 = true →
      badLoad cap old.loaded.1 old.loaded.2 = true)) : NotWorse cap new old := by
  obtain ⟨hnode, harrive⟩ := htime
  refine ⟨hnode, harrive, fun hlate => ?_, hload.2⟩
  have hnode : new.toTwNode = old.toTwNode := hnode
  have hlate : new.closes < new.arrivalTime := of_decide_eq_true hlate
  rw [hnode] at hlate
  exact decide_eq_true (hlate.trans_le harrive)

section Erase
variable {M : Matrix} {orders : Orders} {v : Vehicle} (ho : orders.WellFormed) (hbal : orders.Balanced)
  {ids : List ℤ} (hM : StaticTravel M v.speed ids) (hids : ∀ t ∈ nodesOf v.path, t.id ∈ ids)
  (hr : RouteOf orders v) (hw : Whole orders v) (hs : Settled M v.capacity v.speed 0 v.path)
  {i : ℕ} (hi : i < orders.length)
include ho hM hids hr hw hs hi

/-- No stop behind the starting site is reached later when an order leaves. -/
theorem eraseOrder_arrivals : ∃ a l l', v.path.map VehicleNode.timed = a :: l ∧
    (v.eraseOrder M (orders.get i)).path.map VehicleNode.timed = a :: l' ∧
    isNodeOf (orders.get i) a.1 = false ∧
    List.Forall₂ (fun x y => x.1 = y.1 ∧ x.2 ≤ y.2) l'
      (l.filter fun x => !isNodeOf (orders.get i) x.1) := by
  obtain ⟨s, mids, e, hN, hstart, -⟩ := hr.route
  have hsite := hr.sites s (by rw [hN]; simp) (Or.inl hstart) i hi
  have hN' := eraseOrder_nodes_filter (M := M) (ho.pickup_ne_delivery i hi i hi) hr.noDump
    (hw.whole i hi)
  rw [hN, List.filter_cons_of_pos (by simp [hsite])] at hN'
  have hothers := eraseOrder_others (M := M) (v := v) (o := orders.get i)
  have hs' := eraseOrder_settled (o := orders.get i) hr.noDump hs
  have hd' := (hr.eraseOrder (M := M) hi).noDump
  generalize v.eraseOrder M (orders.get i) = w at *
  have hcap : w.capacity = v.capacity := by rw [hothers]
  have hspeed : w.speed = v.speed := by rw [hothers]
  rw [← hcap, ← hspeed] at hs'
  have hids' : ∀ t ∈ nodesOf w.path, t.id ∈ ids := fun t h => hids t (by
    rw [hN'] at h
    rw [hN]
    exact (List.filter_sublist.cons_cons s).subset h)
  have hS : ∀ t ∈ nodesOf v.path, Visitable ids t := fun t h =>
    ⟨hids t h, serviceTime_nonneg (hw.valid t h)⟩
  rw [hN] at hS
  refine ⟨_, _, _, arrivals_of_settled hs hr.noDump hN hM hids,
    arrivals_of_settled hs' hd' hN' (hspeed ▸ hM) hids', hsite, ?_⟩
  rw [hspeed]
  exact arrivals_driving_filter hM hS _

include hbal

omit hM hids in
/-- No stop gets a bad load when an order leaves. -/
theorem eraseOrder_loads : List.Forall₂ (fun x y => x.1 = y.1 ∧
      (badLoad v.capacity x.1 x.2 = true → badLoad v.capacity y.1 y.2 = true))
    ((v.eraseOrder M (orders.get i)).path.map VehicleNode.loaded)
    ((v.path.map VehicleNode.loaded).filter fun x => !isNodeOf (orders.get i) x.1) := by
  have hnodes := loads_eraseOrder_nodes (M := M) ho hbal hr hw hi
  have hr' := hr.eraseOrder (M := M) hi
  have hothers := eraseOrder_others (M := M) (v := v) (o := orders.get i)
  have hs' := eraseOrder_settled (o := orders.get i) hr.noDump hs
  generalize v.eraseOrder M (orders.get i) = w at *
  have hcap : w.capacity = v.capacity := by rw [hothers]
  have hspeed : w.speed = v.speed := by rw [hothers]
  rw [← hcap, ← hspeed] at hs'
  obtain ⟨s, mids, e, hN, -⟩ := hr.route
  obtain ⟨s', mids', e', hN', -⟩ := hr'.route
  rwa [loads_of_settled hs hr.noDump hN, loads_of_settled hs' hr'.noDump hN', ← hN, ← hN']

/-- The violations when an order leaves. -/
theorem eraseOrder_violations : (v.eraseOrder M (orders.get i)).twvTot ≤ v.twvTot ∧
    (v.eraseOrder M (orders.get i)).cvTot ≤ v.cvTot := by
  obtain ⟨a, l, l', hl, hl', -, harr⟩ := eraseOrder_arrivals ho hM hids hr hw hs hi
  have hloads := eraseOrder_loads ho hbal hr hw hs hi
  have hothers := eraseOrder_others (M := M) (v := v) (o := orders.get i)
  have hs' := eraseOrder_settled (o := orders.get i) hr.noDump hs
  generalize v.eraseOrder M (orders.get i) = w at *
  have hcap : w.capacity = v.capacity := by rw [hothers]
  have hspeed : w.speed = v.speed := by rw [hothers]
  rw [← hcap, ← hspeed] at hs'
  have hlate : VehicleNode.hasTwv = (fun x => x.1.isLateArrival x.2) ∘ VehicleNode.timed := rfl
  have hcv : (VehicleNode.hasCv · v.capacity) =
      (fun x => badLoad v.capacity x.1 x.2) ∘ VehicleNode.loaded := rfl
  constructor
  · rw [twvTot_eq_countP_tail hs', twvTot_eq_countP_tail hs, hlate, ← List.countP_map,
      ← List.countP_map, List.map_tail, List.map_tail, hl, hl']
    refine (ListEdit.countP_le_of_forall₂ harr fun x y hxy hx => ?_).trans
      (List.Sublist.countP_le List.filter_sublist)
    rw [hxy.1] at hx
    exact decide_eq_true ((of_decide_eq_true hx : y.1.closes < x.2).trans_le hxy.2)
  · rw [cvTot_eq_countP hs', cvTot_eq_countP hs, hcap, hcv, ← List.countP_map, ← List.countP_map]
    exact (ListEdit.countP_le_of_forall₂ hloads fun _ _ h => h.2).trans
      (List.Sublist.countP_le List.filter_sublist)

/-- **A vehicle stays feasible when it loses an order.** -/
theorem eraseOrder_feasible (hf : v.isFeasible = true) :
    (v.eraseOrder M (orders.get i)).isFeasible = true := by
  have hle := eraseOrder_violations ho hbal hM hids hr hw hs hi
  have hothers := eraseOrder_others (M := M) (v := v) (o := orders.get i)
  generalize v.eraseOrder M (orders.get i) = w at *
  have htwv : w.userTwv = v.userTwv := by rw [hothers]
  have hcv : w.userCv = v.userCv := by rw [hothers]
  simp only [Vehicle.isFeasible, Vehicle.hasTwv, Vehicle.hasCv, htwv, hcv, Bool.not_eq_true',
    Bool.or_eq_false_iff, decide_eq_false_iff_not] at hf ⊢
  omega

/-- **Removing an order never makes a route worse.** Every stop of the other orders stays as it was
or gets better, and neither of the two totals grows. -/
theorem eraseOrder_never_worse :
    List.Forall₂ (NotWorse v.capacity) (v.eraseOrder M (orders.get i)).path
        (v.path.filter fun s => !isNodeOf (orders.get i) s.toTwNode) ∧
      (v.eraseOrder M (orders.get i)).twvTot ≤ v.twvTot ∧
      (v.eraseOrder M (orders.get i)).cvTot ≤ v.cvTot := by
  refine ⟨?_, eraseOrder_violations ho hbal hM hids hr hw hs hi⟩
  obtain ⟨a, l, l', hl, hl', hsite, harr⟩ := eraseOrder_arrivals ho hM hids hr hw hs hi
  have htimes : List.Forall₂ (fun x y => x.1 = y.1 ∧ x.2 ≤ y.2)
      ((v.eraseOrder M (orders.get i)).path.map VehicleNode.timed)
      ((v.path.map VehicleNode.timed).filter fun x => !isNodeOf (orders.get i) x.1) := by
    rw [hl, hl', List.filter_cons_of_pos (by simp [hsite])]
    exact .cons ⟨rfl, le_rfl⟩ harr
  have hloads := eraseOrder_loads ho hbal hr hw hs hi
  rw [List.filter_map, List.forall₂_map_right_iff, List.forall₂_map_left_iff] at htimes hloads
  exact htimes.mp (fun _ _ htime hload => .of_earlier htime hload) hloads

end Erase

/-! ### A vehicle with an order within an order -/

def nestedOrders : Orders := .ofData [smallOrderData 10 100, smallOrderData 11 100]

/-- A vehicle of capacity 1 that picks up both orders before it delivers one. -/
def nestedTrip : Vehicle :=
  let trip := Vehicle.construct twoSites 0 7
    (.ofTwNode (.ofVehicle 4 (smallVehicleData 7 []) .kStart))
    (.ofTwNode (.ofVehicle 5 (smallVehicleData 7 []) .kEnd)) [] 1 1 nestedOrders
  { trip with
    path := evaluatePath twoSites 1 1 0 [trip.front, (nestedOrders.get 0).pickup,
      (nestedOrders.get 1).pickup, (nestedOrders.get 1).delivery, (nestedOrders.get 0).delivery,
      trip.back]
    ordersInVehicle := .upTo 2 }

theorem nestedTrip_routeOf : RouteOf nestedOrders nestedTrip where
  route := ⟨_, [(nestedOrders.get 0).pickup.toTwNode, (nestedOrders.get 1).pickup.toTwNode,
    (nestedOrders.get 1).delivery.toTwNode, (nestedOrders.get 0).delivery.toTwNode], _,
    rfl, rfl, rfl, by decide +kernel⟩
  sites := by decide +kernel
  movable := by decide +kernel

theorem nestedTrip_whole : Whole nestedOrders nestedTrip where
  valid := by decide +kernel
  known := by decide +kernel
  whole := by decide +kernel

/-- The load that is too much goes with the inner order. -/
theorem eraseOrder_never_worse_small : nestedTrip.cvTot = 1 ∧
    (nestedTrip.eraseOrder twoSites (nestedOrders.get 1)).cvTot = 0 ∧
    List.Forall₂ (NotWorse 1) (nestedTrip.eraseOrder twoSites (nestedOrders.get 1)).path
      (nestedTrip.path.filter fun s => !isNodeOf (nestedOrders.get 1) s.toTwNode) := by
  have ho : nestedOrders.WellFormed := Orders.ofData_wellFormed _
  have hbal : nestedOrders.Balanced := by
    unfold Orders.Balanced
    decide +kernel
  have hM : StaticTravel twoSites nestedTrip.speed [1, 2] := twoSites_static (by decide +kernel)
  have hs : Settled twoSites nestedTrip.capacity nestedTrip.speed 0 nestedTrip.path := by
    unfold Settled
    decide +kernel
  exact ⟨by decide +kernel, by decide +kernel, (eraseOrder_never_worse ho hbal hM (by decide +kernel)
    nestedTrip_routeOf nestedTrip_whole hs (i := 1) (by decide)).1⟩

end VrpRouting
