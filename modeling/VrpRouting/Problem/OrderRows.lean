import VrpRouting.InitialSol.TruckRoutes
import VrpRouting.Problem.Solution

/-! # The rows of an order

The rows of a solution are those of its vehicles, one after the other, and the row with the totals.
When every vehicle carries an order or is free of it, and one vehicle carries it, the result has two
rows of the order: its pickup, and behind it on the same vehicle its delivery (`served_of_carriers`).
When no vehicle carries it, there is no such row. -/

namespace VrpRouting

/-- What a row says about its stop. -/
structure StopName where
  vehicleSeq : ℤ
  vehicleId : ℤ
  stopSeq : ℤ
  orderId : ℤ
  stopId : ℤ
  stopType : ℤ
deriving DecidableEq

def SolutionRt.stopName (r : SolutionRt) : StopName :=
  ⟨r.vehicleSeq, r.vehicleId, r.stopSeq, r.orderId, r.stopId, r.stopType⟩

def TwNode.stopName (t : TwNode) (vid vId stopSeq : ℤ) : StopName :=
  ⟨vid, vId, stopSeq, if t.type = .kStart ∨ t.type = .kEnd then -1 else t.order, t.id, t.type.toInt⟩

/-- The stop is the pickup or the delivery of the order `id`. -/
def StopName.isOf (id : ℤ) (s : StopName) : Bool :=
  decide (s.orderId = id ∧ (s.stopType = 1 ∨ s.stopType = 2))

/-- The rows of the order `id`. -/
def orderRows (id : ℤ) (rows : List SolutionRt) : List SolutionRt :=
  rows.filter fun r => r.stopName.isOf id

/-- The rows of a pickup and, behind it on the same vehicle, of the delivery. -/
structure RowPair (o : Order) (vehicleId : ℤ) (p d : SolutionRt) : Prop where
  vehicleSeq : p.vehicleSeq = d.vehicleSeq
  vehicleIds : p.vehicleId = vehicleId ∧ d.vehicleId = vehicleId
  before : p.stopSeq < d.stopSeq
  pickup : p.stopType = 1 ∧ p.stopId = o.pickup.id
  delivery : d.stopType = 2 ∧ d.stopId = o.delivery.id

/-- The rows serve the order once, with the vehicle `vehicleId`. -/
def ServesOnce (o : Order) (vehicleId : ℤ) (rows : List SolutionRt) : Prop :=
  ∃ p d, orderRows o.id rows = [p, d] ∧ RowPair o vehicleId p d

/-! ### The rows of a vehicle -/

theorem isOf_stopName (t : TwNode) (vid vId stopSeq id : ℤ) :
    (t.stopName vid vId stopSeq).isOf id =
      decide ((t.type = .kPickup ∨ t.type = .kDelivery) ∧ t.order = id) := by
  unfold StopName.isOf TwNode.stopName
  cases h : t.type <;> simp [NodeType.toInt]

theorem map_stopName_adjustDepot : ∀ rows : List SolutionRt,
    (Solution.adjustDepot rows).map SolutionRt.stopName = rows.map SolutionRt.stopName
  | [] => rfl
  | [_] => rfl
  | _ :: _ :: _ => rfl

theorem map_stopName_vehicleRows (M : Matrix) (i : ℕ) {v : Vehicle} (hd : NoDump v.path) :
    (Solution.vehicleRows M i v).map SolutionRt.stopName =
      (nodesOf v.path).mapIdx fun j t => t.stopName i v.id (j + 1) := by
  have hnodes : nodesOf (v.evaluate M 0).path = nodesOf v.path := nodesOf_evaluatePath M _ _ 0 hd
  unfold Solution.vehicleRows Vehicle.getPostgresResult
  rw [map_stopName_adjustDepot, ListEdit.map_mapIdx, ← hnodes]
  unfold nodesOf
  rw [ListEdit.mapIdx_map]
  rfl

section Vehicle
variable {orders : Orders} (ho : orders.WellFormed) (hn : orders.Named) (hd : orders.Distinct)

/-- The stops of a path are sites of a truck, which belong to no order, and stops of orders. -/
def KnownStops (orders : Orders) (v : Vehicle) : Prop :=
  ∀ t ∈ nodesOf v.path, ((t.type = .kStart ∨ t.type = .kEnd) ∧
    ∀ i < orders.length, isNodeOf (orders.get i) t = false) ∨
      ∃ i < orders.length, t ∈ (orders.get i).stops

variable {v : Vehicle} (hv : KnownStops orders v) {i : ℕ} (hi : i < orders.length)
include ho hn hd hv hi

/-- Of the rows of a vehicle, those of an order are those of its nodes. -/
theorem isOf_stopName_iff {t : TwNode} (ht : t ∈ nodesOf v.path) (vid vId stopSeq : ℤ) :
    (t.stopName vid vId stopSeq).isOf (orders.get i).id = isNodeOf (orders.get i) t := by
  rw [isOf_stopName]
  rcases hv t ht with ⟨hsite, hnone⟩ | ⟨j, hj, htj⟩
  · rw [hnone i hi]
    rcases hsite with h | h <;> simp [h]
  · have htyped := ho.typed j hj
    have hname := hn j hj
    have hkind : (t.type = .kPickup ∨ t.type = .kDelivery) ∧ t.order = (orders.get j).id ∧
        isNodeOf (orders.get j) t = true := by
      rcases List.mem_pair.mp htj with rfl | rfl
      · exact ⟨Or.inl htyped.pickup, hname.1, by simp [isNodeOf]⟩
      · exact ⟨Or.inr htyped.delivery, hname.2, by simp [isNodeOf]⟩
    rw [hkind.2.1, Bool.eq_iff_iff, decide_eq_true_iff]
    constructor
    · rintro ⟨-, hid⟩
      exact hd j hj i hi hid ▸ hkind.2.2
    · intro hnode
      obtain rfl := isNodeOf_unique ho hi hj hnode hkind.2.2
      exact ⟨hkind.1, rfl⟩

theorem exists_orderRows_vehicleRows (M : Matrix) (vid : ℕ) (hdump : NoDump v.path) :
    ∃ is : List ℕ, is.Pairwise (· < ·) ∧ is.length = (visits (orders.get i) (nodesOf v.path)).length ∧
      (orderRows (orders.get i).id (Solution.vehicleRows M vid v)).map SolutionRt.stopName =
        List.zipWith (fun j t => t.stopName vid v.id (j + 1)) is
          (visits (orders.get i) (nodesOf v.path)) := by
  have hmap : ∀ rows : List SolutionRt,
      (orderRows (orders.get i).id rows).map SolutionRt.stopName =
        (rows.map SolutionRt.stopName).filter (StopName.isOf (orders.get i).id) := fun rows => by
    rw [List.filter_map]
    rfl
  obtain ⟨is, hlt, hlen, heq⟩ := ListEdit.filter_mapIdx (l := nodesOf v.path)
    (f := fun j t => t.stopName vid v.id (j + 1)) (p := isNodeOf (orders.get i))
    (q := StopName.isOf (orders.get i).id) fun j t ht => isOf_stopName_iff ho hn hd hv hi ht _ _ _
  refine ⟨is, hlt, hlen, ?_⟩
  rw [hmap, map_stopName_vehicleRows M vid hdump, heq]
  rfl

/-- A vehicle that is free of the order has no row of it. -/
theorem orderRows_of_free (M : Matrix) (vid : ℕ) (hdump : NoDump v.path)
    (hfree : Free (orders.get i) v) :
    orderRows (orders.get i).id (Solution.vehicleRows M vid v) = [] := by
  obtain ⟨is, -, -, heq⟩ := exists_orderRows_vehicleRows ho hn hd hv hi M vid hdump
  rw [hfree, List.zipWith_nil_right] at heq
  exact List.map_eq_nil_iff.mp heq

/-- A vehicle that carries the order has its two rows. -/
theorem servesOnce_of_carries (M : Matrix) (vid : ℕ) (hdump : NoDump v.path)
    (hc : Carries (orders.get i) v) :
    ServesOnce (orders.get i) v.id (Solution.vehicleRows M vid v) := by
  obtain ⟨is, hlt, hlen, heq⟩ := exists_orderRows_vehicleRows ho hn hd hv hi M vid hdump
  rw [hc] at hlen heq
  obtain ⟨j, k, rfl⟩ := List.length_eq_two.mp hlen
  have hjk : j < k := List.rel_of_pairwise_cons hlt (by simp)
  have hlen' := congrArg List.length heq
  rw [List.length_map] at hlen'
  obtain ⟨p, d, hrows⟩ := List.length_eq_two.mp hlen'
  rw [hrows] at heq
  obtain ⟨hp, hd'⟩ : p.stopName = (orders.get i).pickup.stopName vid v.id (j + 1) ∧
      d.stopName = (orders.get i).delivery.stopName vid v.id (k + 1) := by
    simpa using heq
  have htyped := ho.typed i hi
  refine ⟨p, d, hrows, ?_, ⟨?_, ?_⟩, ?_, ⟨?_, ?_⟩, ?_, ?_⟩
  · exact (congrArg StopName.vehicleSeq hp).trans (congrArg StopName.vehicleSeq hd').symm
  · exact congrArg StopName.vehicleId hp
  · exact congrArg StopName.vehicleId hd'
  · have h1 : p.stopSeq = j + 1 := congrArg StopName.stopSeq hp
    have h2 : d.stopSeq = k + 1 := congrArg StopName.stopSeq hd'
    omega
  · refine (congrArg StopName.stopType hp).trans ?_
    show (orders.get i).pickup.type.toInt = 1
    rw [htyped.pickup]
    rfl
  · exact congrArg StopName.stopId hp
  · refine (congrArg StopName.stopType hd').trans ?_
    show (orders.get i).delivery.type.toInt = 2
    rw [htyped.delivery]
    rfl
  · exact congrArg StopName.stopId hd'

end Vehicle

/-! ### The rows of a solution -/

/-- **The rows of an order in the result.** -/
theorem Solution.serves_of_carriers (M : Matrix) (s : Solution) {orders : Orders} (ho : orders.WellFormed)
    (hn : orders.Named) (hd : orders.Distinct)
    (hF : ∀ v ∈ s.fleet, NoDump v.path ∧ KnownStops orders v) {i : ℕ} (hi : i < orders.length)
    (hw : ∀ v ∈ s.fleet, Carries (orders.get i) v ∨ Free (orders.get i) v) :
    (carriers (orders.get i) s.fleet = 1 → ∃ v ∈ s.fleet, Carries (orders.get i) v ∧
      ServesOnce (orders.get i) v.id (s.getPostgresResult M)) ∧
    (carriers (orders.get i) s.fleet = 0 →
      orderRows (orders.get i).id (s.getPostgresResult M) = []) := by
  have hrows : orderRows (orders.get i).id (s.getPostgresResult M) =
      (s.fleet.mapIdx fun k v =>
        orderRows (orders.get i).id (vehicleRows M (k + 1) v)).flatten := by
    have htotal : s.aggregates.stopName.isOf (orders.get i).id = false :=
      decide_eq_false fun h => by
        have := h.2
        simp [SolutionRt.stopName, aggregates] at this
    unfold getPostgresResult orderRows
    rw [List.filter_append, List.filter_flatten, ListEdit.map_mapIdx,
      List.filter_cons_of_neg (by rw [htotal]; exact Bool.false_ne_true), List.filter_nil,
      List.append_nil]
  obtain ⟨h0, h1⟩ := ListEdit.flatten_mapIdx (l := s.fleet)
    (c := fun v => decide (Carries (orders.get i) v))
    (g := fun k v => orderRows (orders.get i).id (vehicleRows M (k + 1) v)) fun k v hv hc => by
      have hfree := (hw v hv).resolve_left (of_decide_eq_false hc)
      exact orderRows_of_free ho hn hd (hF v hv).2 hi M _ (hF v hv).1 hfree
  rw [← hrows] at h0 h1
  refine ⟨fun hone => ?_, h0⟩
  obtain ⟨k, v, hv, hc, heq⟩ := h1 hone
  obtain ⟨p, d, hpd, hpair⟩ := servesOnce_of_carries ho hn hd (hF v hv).2 hi M (k + 1) (hF v hv).1
    (of_decide_eq_true hc)
  exact ⟨v, hv, of_decide_eq_true hc, p, d, heq.trans hpd, hpair⟩

/-- Every row of a pickup or a delivery is that of an order. -/
theorem Solution.exists_order_of_row (M : Matrix) (s : Solution) {orders : Orders}
    (hn : orders.Named) (hF : ∀ v ∈ s.fleet, NoDump v.path ∧ KnownStops orders v) {r : SolutionRt}
    (hr : r ∈ s.getPostgresResult M) (hk : r.stopType = 1 ∨ r.stopType = 2) :
    ∃ i < orders.length, r.orderId = (orders.get i).id := by
  rcases List.mem_append.mp hr with hr | hr
  · obtain ⟨rows, hrows, hr⟩ := List.mem_flatten.mp hr
    obtain ⟨k, hk', rfl⟩ := List.mem_mapIdx.mp hrows
    obtain ⟨hdump, hknown⟩ := hF _ (List.getElem_mem hk')
    have hname : r.stopName ∈ (vehicleRows M (k + 1) s.fleet[k]).map SolutionRt.stopName :=
      List.mem_map_of_mem hr
    rw [map_stopName_vehicleRows M _ hdump] at hname
    obtain ⟨j, hj, hstop⟩ := List.mem_mapIdx.mp hname
    have hof : r.stopName.isOf r.orderId = true := decide_eq_true ⟨rfl, hk⟩
    rw [← hstop, isOf_stopName, decide_eq_true_iff] at hof
    rcases hknown _ (List.getElem_mem hj) with ⟨hsite, -⟩ | ⟨i, hi, hmem⟩
    · rcases hsite with h | h <;> simp [h] at hof
    · refine ⟨i, hi, hof.2.symm.trans ?_⟩
      rcases List.mem_pair.mp hmem with h | h <;> rw [h]
      · exact (hn i hi).1
      · exact (hn i hi).2
  · rw [List.mem_singleton.mp hr] at hk
    simp [aggregates] at hk

end VrpRouting
