import Mathlib.Algebra.Order.BigOperators.Group.Finset
import Mathlib.Algebra.Order.Field.Basic
import Mathlib.Algebra.Order.Ring.Cast
import VrpRouting.Lib.TimeWindows
import VrpRouting.Problem.Violations
import VrpRouting.Problem.Visits

/-! # Feasibility

When travel times do not depend on the time of departure, the arrivals and the loads of an evaluated
path depend on its nodes alone (`arrivals_of_settled`, `loads_of_settled`), and so do its violations
(`twvTot_of_settled`, `cvTot_of_settled`, `noViolation_iff`). What a path carries is the sum over
the orders on it (`load_eq_sum`). -/

open TimeWindows

namespace VrpRouting

/-- The driving time at a speed, for a departure at time `t`. -/
def drivingTime (M : Matrix) (speed : ℚ) (i j t : ℤ) : ℤ := toInterval (M.travelTime i j t / speed)

/-- The driving times between the nodes `ids` do not depend on the departure, and no detour is
shorter than the direct way. -/
structure StaticTravel (M : Matrix) (speed : ℚ) (ids : List ℤ) : Prop where
  static : ∀ i ∈ ids, ∀ j ∈ ids, ∀ t, drivingTime M speed i j t = drivingTime M speed i j 0
  triangle : ∀ i ∈ ids, ∀ j ∈ ids, ∀ k ∈ ids,
    drivingTime M speed i k 0 ≤ drivingTime M speed i j 0 + drivingTime M speed j k 0

theorem StaticTravel.mono {M : Matrix} {speed : ℚ} {ids ids' : List ℤ}
    (h : StaticTravel M speed ids) (hsub : ids' ⊆ ids) : StaticTravel M speed ids' :=
  ⟨fun i hi j hj => h.static i (hsub hi) j (hsub hj),
    fun i hi j hj k hk => h.triangle i (hsub hi) j (hsub hj) k (hsub hk)⟩

/-- The matrix of two sites at a speed at which it passes the check of the detours. -/
theorem twoSites_static {speed : ℚ} (h : ∀ i ∈ [1, 2], ∀ j ∈ [1, 2], ∀ k ∈ [1, 2],
    drivingTime twoSites speed i k 0 ≤
      drivingTime twoSites speed i j 0 + drivingTime twoSites speed j k 0) :
    StaticTravel twoSites speed [1, 2] := ⟨fun _ _ _ _ _ => rfl, h⟩

/-- The driving time between two nodes. -/
def driving (M : Matrix) (speed : ℚ) (a b : TwNode) : ℤ := drivingTime M speed a.id b.id 0

/-- `n` can be reached in time from the opening of `I`. -/
theorem TwNode.isCompatibleIJ_iff (M : Matrix) (speed : ℚ) {n I : TwNode} (hn : n.type ≠ .kStart)
    (hI : I.type ≠ .kEnd) : n.isCompatibleIJ M I speed = true ↔ I.opens + I.serviceTime +
      drivingTime M speed I.id n.id (I.opens + I.serviceTime) ≤ n.closes := by
  unfold TwNode.isCompatibleIJ TwNode.arrivalJOpensI TwNode.isLateArrival
  rw [if_neg hn, if_neg hI, if_neg hn, Bool.not_eq_true', decide_eq_false_iff_not, gt_iff_lt, not_lt]
  rfl

/-- The test of `has_cv`. -/
def badLoad (cap : ℕ) (t : TwNode) (cargo : ℤ) : Bool :=
  if t.isEnd || t.isStart then decide (cargo ≠ 0) else decide (cargo > cap ∨ cargo < 0)

/-- A slower vehicle does not travel in less time. -/
theorem drivingTime_one_le {M : Matrix} {speed : ℚ} (h0 : 0 < speed) (h1 : speed ≤ 1) {i j t : ℤ}
    (h : 0 ≤ drivingTime M speed i j t) : drivingTime M 1 i j t ≤ drivingTime M speed i j t := by
  have hone : drivingTime M 1 i j t = M.travelTime i j t := by
    unfold drivingTime
    rw [div_one, toInterval_intCast]
  have hle : ∀ n : ℤ, 0 ≤ n → n ≤ toInterval ((n : ℚ) / speed) := fun n hn =>
    le_toInterval hn ((le_div_iff₀ h0).mpr (mul_le_of_le_one_right (Int.cast_nonneg hn) h1))
  rw [hone]
  by_cases hneg : M.travelTime i j t < 0
  · have h2 := hle (-M.travelTime i j t) (by omega)
    rw [Int.cast_neg, neg_div, toInterval_neg] at h2
    unfold drivingTime at h ⊢
    omega
  · exact hle _ (by omega)

/-! ### Late stops on static travel times -/

section Static
variable {M : Matrix} {speed : ℚ} {ids : List ℤ} (hM : StaticTravel M speed ids)

/-- A node of the matrix at which no time is won. -/
def Visitable (ids : List ℤ) (t : TwNode) : Prop := t.id ∈ ids ∧ 0 ≤ t.serviceTime

include hM in
theorem StaticTravel.detour (a b c : TwNode) (ha : Visitable ids a) (hb : Visitable ids b)
    (hc : Visitable ids c) : driving M speed a c ≤ driving M speed a b + driving M speed b c :=
  hM.triangle _ ha.1 _ hb.1 _ hc.1

variable {s : TwNode} {l : List TwNode} (hl : ∀ t ∈ s :: l, Visitable ids t)
include hM hl

/-- The other nodes are not reached later when nodes are left out. -/
theorem arrivals_driving_filter (q : TwNode → Bool) {d : ℤ} :
    List.Forall₂ (fun x y => x.1 = y.1 ∧ x.2 ≤ y.2)
      (arrivals (driving M speed) TwNode.opens TwNode.serviceTime d s (l.filter q))
      ((arrivals (driving M speed) TwNode.opens TwNode.serviceTime d s l).filter fun x => q x.1) :=
  arrivals_filter hM.detour (fun _ ha => ha.2) (hl s List.mem_cons_self)
    (fun t ht => hl t (List.mem_cons_of_mem s ht)) fun _ _ => le_rfl

/-- Leaving nodes out does not make the other ones late. -/
theorem lates_driving_filter_le (q : TwNode → Bool) {d : ℤ} :
    lates (driving M speed) TwNode.opens TwNode.closes TwNode.serviceTime d s (l.filter q) ≤
      lates (driving M speed) TwNode.opens TwNode.closes TwNode.serviceTime d s l :=
  lates_filter hM.detour (fun _ ha => ha.2) (hl s List.mem_cons_self) fun t ht =>
    hl t (List.mem_cons_of_mem s ht)

/-- Without late nodes, every node can be reached in time directly from the opening of one before. -/
theorem pairwise_driving (h : lates (driving M speed) TwNode.opens TwNode.closes TwNode.serviceTime
    (s.opens + s.serviceTime) s l = 0) :
    (s :: l).Pairwise fun b c => b.opens + b.serviceTime + driving M speed b c ≤ c.closes :=
  pairwise_of_lates hM.detour (fun _ ha => ha.2) (hl s List.mem_cons_self)
    (fun t ht => hl t (List.mem_cons_of_mem s ht)) h

end Static

/-! ### Arrivals and loads on a path -/

/-- A stop with the time at which it is reached. -/
def VehicleNode.timed (s : VehicleNode) : TwNode × ℤ := (s.toTwNode, s.arrivalTime)

/-- A stop with the load at which it is left. -/
def VehicleNode.loaded (s : VehicleNode) : TwNode × ℤ := (s.toTwNode, s.cargo)

section Evaluate
variable {M : Matrix} {cap : ℕ} {speed : ℚ} {ids : List ℤ} (hM : StaticTravel M speed ids)

include hM in
theorem evaluate_arrive {n pred : VehicleNode} (hp : pred.id ∈ ids) (hn : n.id ∈ ids) :
    (n.evaluate M pred cap speed).arrivalTime =
      pred.departureTime + driving M speed pred.toTwNode n.toTwNode := by
  have ht : pred.travelTimeTo M n.toTwNode pred.departureTime speed =
      driving M speed pred.toTwNode n.toTwNode := hM.static _ hp _ hn _
  rw [← ht]
  rfl

theorem evaluate_leave (n pred : VehicleNode) : (n.evaluate M pred cap speed).departureTime =
    leave TwNode.opens TwNode.serviceTime n.toTwNode (n.evaluate M pred cap speed).arrivalTime := by
  exact VehicleNode.departureTime_evaluate M n pred cap speed

include hM in
theorem arrivals_evaluateAfter : ∀ {ns : List VehicleNode} (pred : VehicleNode), NoDump ns →
    pred.id ∈ ids → (∀ n ∈ ns, n.id ∈ ids) →
    (evaluateAfter M cap speed pred ns).map VehicleNode.timed =
      arrivals (driving M speed) TwNode.opens TwNode.serviceTime pred.departureTime pred.toTwNode
        (nodesOf ns)
  | [], _, _, _, _ => rfl
  | n :: ns, pred, hd, hp, hns => by
    obtain ⟨hn, hns⟩ := List.forall_mem_cons.mp hns
    obtain ⟨hnd, hd⟩ := hd.of_cons
    have hnode := VehicleNode.toTwNode_evaluate M n pred cap speed hnd
    have ih := arrivals_evaluateAfter (n.evaluate M pred cap speed) hd (by rw [hnode]; exact hn) hns
    rw [hnode, evaluate_leave, evaluate_arrive hM hp hn] at ih
    rw [evaluateAfter, List.map_cons, ih, nodesOf_cons, arrivals, VehicleNode.timed, hnode,
      evaluate_arrive hM hp hn]

theorem loads_evaluateAfter : ∀ {ns : List VehicleNode} (pred : VehicleNode), NoDump ns →
    (evaluateAfter M cap speed pred ns).map VehicleNode.loaded =
      loads TwNode.demand pred.cargo (nodesOf ns)
  | [], _, _ => rfl
  | n :: ns, pred, hd => by
    obtain ⟨hnd, hd⟩ := hd.of_cons
    have hnode := VehicleNode.toTwNode_evaluate M n pred cap speed hnd
    have ih := loads_evaluateAfter (n.evaluate M pred cap speed) hd
    have hcargo : (n.evaluate M pred cap speed).cargo = pred.cargo + n.demand := by
      have hdump : n.isDump = false := by simp [TwNode.isDump, hnd]
      have hdemand : n.demandAfter pred = n.demand := by simp [VehicleNode.demandAfter, hdump]
      rw [← hdemand]
      rfl
    rw [hcargo] at ih
    rw [evaluateAfter, List.map_cons, ih, nodesOf_cons, loads, VehicleNode.loaded, hnode, hcargo]

end Evaluate

/-! ### The violations of an evaluated path -/

section Vehicle
variable {M : Matrix} {v : Vehicle} (hs : Settled M v.capacity v.speed 0 v.path)
  (hd : NoDump v.path) {s : TwNode} {ts : List TwNode} (hN : nodesOf v.path = s :: ts)
include hs hd hN

/-- The path of an evaluated vehicle: its first stop, and the evaluation behind it. -/
theorem settled_path : ∃ (n : VehicleNode) (ns : List VehicleNode), n.toTwNode = s ∧
    nodesOf ns = ts ∧ NoDump ns ∧
    v.path = n.evaluateStart v.capacity ::
      evaluateAfter M v.capacity v.speed (n.evaluateStart v.capacity) ns := by
  unfold Settled at hs
  generalize hpath : v.path = path at *
  cases path with
  | nil => cases hN
  | cons n ns =>
    obtain ⟨h1, h2⟩ := List.cons.inj hN
    exact ⟨n, ns, h1, h2, hd.of_cons.2, hs.symm⟩

theorem loads_of_settled : v.path.map VehicleNode.loaded = loads TwNode.demand 0 (s :: ts) := by
  obtain ⟨n, ns, rfl, rfl, hns, hpath⟩ := settled_path hs hd hN
  rw [hpath, List.map_cons, loads_evaluateAfter _ hns, loads, zero_add]
  rfl

theorem cvTot_of_settled : v.cvTot = overloads TwNode.demand (badLoad v.capacity) 0 (s :: ts) := by
  rw [overloads_eq_countP, ← loads_of_settled hs hd hN, List.countP_map]
  exact cvTot_eq_countP hs

variable {ids : List ℤ} (hM : StaticTravel M v.speed ids) (hids : ∀ t ∈ nodesOf v.path, t.id ∈ ids)
include hM hids

/-- The starting site is reached at its opening. -/
theorem arrivals_of_settled : v.path.map VehicleNode.timed = (s, s.opens) ::
    arrivals (driving M v.speed) TwNode.opens TwNode.serviceTime (s.opens + s.serviceTime) s ts := by
  obtain ⟨n, ns, rfl, rfl, hns, hpath⟩ := settled_path hs hd hN
  rw [hN] at hids
  obtain ⟨hn, hids⟩ := List.forall_mem_cons.mp hids
  rw [hpath, List.map_cons, arrivals_evaluateAfter hM (n.evaluateStart v.capacity) hns hn fun m hm =>
    hids m.toTwNode (List.mem_map.mpr ⟨m, hm, rfl⟩)]
  rfl

theorem twvTot_of_settled : v.twvTot = lates (driving M v.speed) TwNode.opens TwNode.closes
    TwNode.serviceTime (s.opens + s.serviceTime) s ts := by
  have harr := congrArg List.tail (arrivals_of_settled hs hd hN hM hids)
  rw [← List.map_tail, List.tail_cons] at harr
  rw [twvTot_eq_countP_tail hs, lates_eq_countP, ← harr, List.countP_map]
  rfl

end Vehicle

/-- An evaluated path has no violation when none of its nodes is late or has a bad load. -/
theorem noViolation_iff {M : Matrix} {cap : ℕ} {speed : ℚ} {path : List VehicleNode}
    (hs : Settled M cap speed 0 path) (hd : NoDump path) {s : TwNode} {ts : List TwNode}
    (hN : nodesOf path = s :: ts) {ids : List ℤ} (hM : StaticTravel M speed ids)
    (hids : ∀ t ∈ nodesOf path, t.id ∈ ids) (hopen : s.opens ≤ s.closes) :
    NoViolation cap path ↔
      lates (driving M speed) TwNode.opens TwNode.closes TwNode.serviceTime
        (s.opens + s.serviceTime) s ts = 0 ∧
      overloads TwNode.demand (badLoad cap) 0 (s :: ts) = 0 := by
  let w : Vehicle := { (default : Vehicle) with path := path, capacity := cap, speed := speed }
  have hs : Settled M w.capacity w.speed 0 w.path := hs
  have hfront : w.front.opens ≤ w.front.closes := by
    rw [front_of_nodes (v := w) hN]
    exact hopen
  have htwv := twvTot_of_settled hs hd hN hM hids
  have hcv := cvTot_of_settled hs hd hN
  rw [twvTot_eq_countP hs hfront] at htwv
  rw [cvTot_eq_countP hs] at hcv
  change (∀ s ∈ w.path, _ ∧ _) ↔ _
  rw [← htwv, ← hcv, List.countP_eq_zero, List.countP_eq_zero]
  simp only [Bool.not_eq_true, forall_and]
  rfl

/-! ### Loads of whole routes -/

section Loads
variable {orders : Orders} (ho : orders.WellFormed)
include ho

/-- The load of nodes of orders is the sum over the orders. -/
theorem load_eq_sum {L : List TwNode}
    (hL : ∀ t ∈ L, t.demand = 0 ∨ ∃ i < orders.length, isNodeOf (orders.get i) t = true) :
    load TwNode.demand L =
      ∑ i ∈ Finset.range orders.length, load TwNode.demand (visits (orders.get i) L) := by
  induction L with
  | nil => simp [visits]
  | cons t L ih =>
    obtain ⟨ht, hL⟩ := List.forall_mem_cons.mp hL
    have hstep : ∀ i, load TwNode.demand (visits (orders.get i) (t :: L)) =
        (if isNodeOf (orders.get i) t then t.demand else 0) +
          load TwNode.demand (visits (orders.get i) L) := fun i => by
      unfold visits
      rw [List.filter_cons]
      split_ifs <;> simp
    have hone : ∑ i ∈ Finset.range orders.length,
        (if isNodeOf (orders.get i) t then t.demand else 0) = t.demand := by
      rcases ht with h0 | ⟨i, hi, hit⟩
      · simp [h0]
      · rw [Finset.sum_eq_single i]
        · rw [if_pos hit]
        · exact fun j hj hji => if_neg fun hjt =>
            hji (isNodeOf_unique ho (Finset.mem_range.mp hj) hi hjt hit)
        · exact fun h => absurd (Finset.mem_range.mpr hi) h
    rw [load_cons, ih hL, Finset.sum_congr rfl fun i _ => hstep i, Finset.sum_add_distrib, hone]

end Loads

/-- What is delivered is what was picked up. -/
def Orders.Balanced (orders : Orders) : Prop := ∀ i < orders.length,
  (orders.get i).delivery.demand = -(orders.get i).pickup.demand

/-- On a part of the two stops of an order, from the pickup on, the load is not negative. -/
theorem load_stops_nonneg {o : Order} (hp : 0 ≤ o.pickup.demand)
    (hd : o.delivery.demand = -o.pickup.demand) {L : List TwNode} (hL : L <+: o.stops) :
    0 ≤ load TwNode.demand L := by
  unfold Order.stops at hL
  rcases List.prefix_cons_iff.mp hL with h | ⟨r, h, hr⟩
  · simp [h]
  · rcases List.prefix_cons_iff.mp hr with h' | ⟨r', h', hr'⟩
    · rw [h, h']
      simpa using hp
    · rw [h, h', List.prefix_nil.mp hr']
      simp [hd]

theorem demand_of_site {t : TwNode} (hv : t.isValid = true) (ht : t.type = .kStart ∨ t.type = .kEnd) :
    t.demand = 0 := by
  rcases ht with h | h <;> simp only [TwNode.isValid, h] at hv
  · exact (of_decide_eq_true hv).2.2.2
  · exact (of_decide_eq_true hv).2.2.2

theorem serviceTime_nonneg {t : TwNode} (hv : t.isValid = true) : 0 ≤ t.serviceTime := by
  unfold TwNode.isValid at hv
  cases h : t.type <;> simp only [h] at hv <;> exact (of_decide_eq_true hv).2.2.1

end VrpRouting
