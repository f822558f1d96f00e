import VrpRouting.InitialSol.StopLists
import VrpRouting.Lib.Keyed

/-! # From routes to stops and back

`get_stops` writes the order identifiers of a route, without the marks of pickup and delivery, and
`set_initial_solution` reads them back, the marks from the parity of the visits. Both keep the
sequence of the identifiers and what is visited of each order, and these two determine the nodes
(`Keyed.eq_of_map_eq`). -/

open Sorting

namespace VrpRouting

/-- A real vehicle with valid nodes that carries each of its orders once. -/
structure Readable (orders : Orders) (v : Vehicle) : Prop where
  real : v.isPhony = false
  route : IsRoute (nodesOf v.path)
  valid : ∀ t ∈ nodesOf v.path, t.isValid = true
  known : ∀ t ∈ nodesOf v.path, t.type = .kStart ∨ t.type = .kEnd ∨
    ∃ i < orders.length, isNodeOf (orders.get i) t = true
  whole : ∀ i < orders.length, Carries (orders.get i) v ∨ Free (orders.get i) v

/-- The nodes belong to orders and carry their identifiers. -/
def Labelled (orders : Orders) (mids : List TwNode) : Prop := ∀ t ∈ mids, ∃ i < orders.length,
  isNodeOf (orders.get i) t = true ∧ t.order = (orders.get i).id

theorem Readable.listable {orders : Orders} {v : Vehicle} (hv : Readable orders v) :
    Listable orders v where
  sites t ht hs := by
    have h := hv.valid t ht
    rcases hs with hs | hs
    · rw [TwNode.isValid, hs] at h
      simp [show t.isStart = true from h]
    · rw [TwNode.isValid, hs] at h
      simp [show t.isEnd = true from h]
  known := hv.known

section Labels
variable {orders : Orders} (ho : orders.WellFormed) (hd : orders.Distinct) {mids : List TwNode}
include ho hd

/-- The nodes with the identifier of an order are those of the order. -/
theorem Labelled.filter_order (hm : Labelled orders mids) {i : ℕ} (hi : i < orders.length) :
    (mids.filter fun t => decide (t.order = (orders.get i).id)) = visits (orders.get i) mids := by
  refine List.filter_congr fun t ht => ?_
  obtain ⟨j, hj, htj, hord⟩ := hm t ht
  rw [← Bool.coe_iff_coe, decide_eq_true_iff, hord]
  constructor
  · intro h
    rwa [hd i hi j hj h.symm]
  · intro hti
    rw [isNodeOf_unique ho hi hj hti htj]

/-- Nodes with the same identifiers and the same visits of each order are the same. -/
theorem Labelled.eq_of_visits {mids' : List TwNode} (hm : Labelled orders mids)
    (hm' : Labelled orders mids') (hnames : mids.map TwNode.order = mids'.map TwNode.order)
    (hvisits : ∀ i < orders.length, visits (orders.get i) mids = visits (orders.get i) mids') :
    mids = mids' := by
  refine Keyed.eq_of_map_eq hnames fun t ht => ?_
  obtain ⟨i, hi, -, hord⟩ := hm t ht
  rw [hord, hm.filter_order ho hd hi, hm'.filter_order ho hd hi, hvisits i hi]

end Labels

/-- The stops of a route are the identifiers of the nodes between valid sites. -/
theorem getStops_of_sites {v : Vehicle} (hreal : v.isPhony = false) {a b : TwNode}
    {mids : List TwNode} (hN : nodesOf v.path = a :: (mids ++ [b])) (ha : a.isStart = true)
    (hb : b.isEnd = true) (hm : ∀ t ∈ mids, t.type = .kPickup ∨ t.type = .kDelivery) :
    v.getStops = mids.map TwNode.order := by
  have hmids : mids.filter (fun t => !(t.isStart || t.isEnd)) = mids :=
    List.filter_eq_self.mpr fun t ht => by
      rcases hm t ht with h | h <;> simp [TwNode.isStart, TwNode.isEnd, h]
  rw [getStops_eq hreal, hN, List.filter_cons_of_neg (by simp [ha]), List.filter_append, hmids,
    List.filter_cons_of_neg (by simp [hb]), List.filter_nil, List.append_nil]

/-- Every stop names an order, so the positions of the orders give the stops back. -/
theorem map_id_stopIdxs {orders : Orders} (ho : orders.WellFormed) {stops : List ℤ}
    (hknown : ∀ x ∈ stops, ∃ i, resolve orders x = some i) :
    (stopIdxs orders stops).map (fun i => (orders.get i).id) = stops := by
  unfold stopIdxs
  induction stops with
  | nil => rfl
  | cons x stops ih =>
    obtain ⟨⟨i, hi⟩, hrest⟩ := List.forall_mem_cons.mp hknown
    rw [List.filterMap_cons, hi, List.map_cons, ← resolve_spec ho hi, ih hrest]

/-! ### The round trip -/

section RoundTrip
variable {M : Matrix} {orders : Orders} (ho : orders.WellFormed) (hn : orders.Named) {u v : Vehicle}
include ho hn

/-- What `set_initial_solution` makes of the stops: their identifiers and their visits. -/
theorem userRoute_nodes (hu : Fresh M orders u) {a b : TwNode} (hN : nodesOf u.path = [a, b]) :
    ∃ mids, nodesOf (u.userRoute M orders).path = a :: (mids ++ [b]) ∧
    mids.map TwNode.order = (stopIdxs orders u.stops).map (fun i => (orders.get i).id) ∧
    Labelled orders mids ∧ (∀ t ∈ mids, t.type = .kPickup ∨ t.type = .kDelivery) ∧
    ∀ i < orders.length, visits (orders.get i) mids =
      alternate (orders.get i) ((stopIdxs orders u.stops).count i) := by
  obtain ⟨mids, s, h, hproc⟩ := processStops_spec ho hu ⟨.empty, .empty⟩
  refine ⟨mids, ?_, h.names hn, fun t ht => ?_, h.types, h.visits⟩
  · unfold Vehicle.userRoute
    rw [hproc]
    exact h.nodes a b hN
  · obtain ⟨i, hi, hti⟩ := h.owned t ht
    refine ⟨i, hi, hti, ?_⟩
    have hmem : t ∈ visits (orders.get i) mids := List.mem_filter.mpr ⟨ht, hti⟩
    rw [h.visits i hi] at hmem
    obtain ⟨c, -, rfl⟩ := List.mem_map.mp hmem
    unfold visitNode
    split_ifs
    · exact (hn i hi).1
    · exact (hn i hi).2

theorem Readable.mids (hv : Readable orders v) : ∃ a mids b,
    nodesOf v.path = a :: (mids ++ [b]) ∧ a.isStart = true ∧ b.isEnd = true ∧
    v.getStops = mids.map TwNode.order ∧ Labelled orders mids ∧
    ∀ i < orders.length, visits (orders.get i) mids = visits (orders.get i) (nodesOf v.path) := by
  obtain ⟨a, mids, b, hN, ha, hb, hm⟩ := hv.route
  have hmem : ∀ t ∈ mids, t ∈ nodesOf v.path := fun t ht => by simp [hN, ht]
  have ha' : a.isStart = true := by
    have := hv.valid a (by simp [hN])
    rwa [TwNode.isValid, ha] at this
  have hb' : b.isEnd = true := by
    have := hv.valid b (by simp [hN])
    rwa [TwNode.isValid, hb] at this
  have hsite : ∀ t ∈ nodesOf v.path, t.type = .kStart ∨ t.type = .kEnd →
      ∀ i < orders.length, isNodeOf (orders.get i) t = false := fun t ht hs i hi => by
    rw [← Bool.not_eq_true]
    intro hti
    obtain ⟨-, -, h1, h2⟩ := order_of_isNodeOf ho hn hv.whole ht hi hti
    exact hs.elim h1 h2
  refine ⟨a, mids, b, hN, ha', hb', getStops_of_sites hv.real hN ha' hb' hm, fun t ht => ?_,
    fun i hi => ?_⟩
  · rcases hv.known t (hmem t ht) with h | h | ⟨i, hi, hti⟩
    · rcases hm t ht with h' | h' <;> rw [h'] at h <;> cases h
    · rcases hm t ht with h' | h' <;> rw [h'] at h <;> cases h
    · exact ⟨i, hi, hti, (order_of_isNodeOf ho hn hv.whole (hmem t ht) hi hti).2.1⟩
  · unfold visits
    rw [hN, List.filter_cons_of_neg (by simp [hsite a (by simp [hN]) (Or.inl ha) i hi]),
      List.filter_append, List.filter_cons_of_neg (by simp [hsite b (by simp [hN]) (Or.inr hb) i hi]),
      List.filter_nil, List.append_nil]

variable (hd : orders.Distinct)
include hd

/-- **The stops of a route give the route back.** -/
theorem Readable.nodes_of_stops (hv : Readable orders v) (hu : Fresh M orders u)
    (hsites : nodesOf u.path = [v.front.toTwNode, v.back.toTwNode]) (hstops : u.stops = v.getStops)
    (sets : Assignment) (date : ℤ) :
    nodesOf (u.setInitialSolution M orders sets date false).1.path = nodesOf v.path := by
  obtain ⟨a, mids, b, hN, ha, hb, hlist, hm, hvisits⟩ := hv.mids ho hn
  have hknown : ∀ x ∈ u.stops, ∃ i, resolve orders x = some i := fun x hx => by
    rw [hstops, hlist] at hx
    obtain ⟨t, ht, rfl⟩ := List.mem_map.mp hx
    obtain ⟨i, hi, -, hord⟩ := hm t ht
    exact ⟨i, hord ▸ resolve_id ho hd hi⟩
  obtain ⟨mids', hN', hnames, hm', -, hvisits'⟩ := userRoute_nodes ho hn hu hsites
  have hmids : mids' = mids := by
    refine hm'.eq_of_visits ho hd hm (by
      rw [hnames, map_id_stopIdxs ho hknown, hstops, hlist]) fun i hi => ?_
    rw [hvisits' i hi, hvisits i hi, count_stopIdxs ho (resolve_id ho hd hi), hstops,
      count_getStops ho hn hv.whole hv.listable hv.real hd hi]
    rcases hv.whole i hi with hc | hf
    · have hc' : visits (orders.get i) (nodesOf v.path) = _ := hc
      rw [hc']
      rfl
    · have hf' : visits (orders.get i) (nodesOf v.path) = _ := hf
      rw [hf']
      rfl
  rw [(setInitialSolution_path ho hu sets date).1, hN', hmids, front_of_nodes hN,
    back_of_nodes (hN.trans (List.cons_append ..).symm), hN]

omit hd in
/-- **The route of known stops gives the stops back.** -/
theorem getStops_of_nodes (hu : Fresh M orders u) (hreal : u.isPhony = false)
    (hvalid : ∀ t ∈ nodesOf u.path, t.isValid = true)
    (hknown : ∀ x ∈ u.stops, ∃ i, resolve orders x = some i) (sets : Assignment) (date : ℤ) :
    (u.setInitialSolution M orders sets date false).1.getStops = u.stops := by
  obtain ⟨a, b, hN, ha, hb, -⟩ := hu.sites
  obtain ⟨mids, hN', hnames, -, htypes, -⟩ := userRoute_nodes ho hn hu hN
  have ha' := hvalid a (by simp [hN])
  have hb' := hvalid b (by simp [hN])
  rw [TwNode.isValid, ha] at ha'
  rw [TwNode.isValid, hb] at hb'
  obtain ⟨path, movable, twv, cv, hothers⟩ := (setInitialSolution_spec ho hu sets date false).others
  rw [getStops_of_sites ?_ ((congrArg nodesOf (setInitialSolution_path ho hu sets date).1).trans hN')
    ha' hb' htypes, hnames, map_id_stopIdxs ho hknown]
  rw [hothers]
  exact hreal

end RoundTrip

/-- **Stops encoding round trip.** -/
theorem stops_round_trip {S : Sorter} {M : Matrix} {pOrders : List OrdersT}
    {pVehicles : List VehicleT} {newStops : List ShortVehicle} {p : PickDeliver}
    (hp : PickDeliver.build S M pOrders pVehicles newStops = .ok p)
    (hids : (pOrders.map OrdersT.id).Nodup) (sets : Assignment) (date : ℤ) {u : Vehicle}
    (hu : Fresh M p.orders u) :
    (∀ v, Readable p.orders v → nodesOf u.path = [v.front.toTwNode, v.back.toTwNode] →
      u.stops = v.getStops →
      nodesOf (u.setInitialSolution M p.orders sets date false).1.path = nodesOf v.path) ∧
    (u.isPhony = false → (∀ t ∈ nodesOf u.path, t.isValid = true) →
      (∀ x ∈ u.stops, x ∈ pOrders.map OrdersT.id ∧ u.stops.count x = 2) →
      (u.setInitialSolution M p.orders sets date false).1.getStops = u.stops) := by
  have hb := PickDeliver.build_built hp
  have hd := hb.distinct hids
  refine ⟨fun v hv hsites hstops => hv.nodes_of_stops hb.wellFormed hb.named hd hu hsites hstops sets
    date, fun hreal hvalid hlisted => ?_⟩
  refine getStops_of_nodes hb.wellFormed hb.named hu hreal hvalid (fun x hx => ?_) sets date
  obtain ⟨i, hi, rfl⟩ := hb.mem_ids.mp (hlisted x hx).1
  exact ⟨i, resolve_id hb.wellFormed hd hi⟩

/-- Two orders whose visits are mixed. -/
theorem stops_round_trip_small : ∃ (p : PickDeliver) (u v : Vehicle),
    PickDeliver.build .insertion twoSites [smallOrderData 1 100, smallOrderData 2 100]
      [smallVehicleData 7 [1, 2, 1, 2]] [] = .ok p ∧ v.getStops = [1, 2, 1, 2] ∧
    nodesOf (u.setInitialSolution twoSites p.orders ⟨.empty, .empty⟩ 0 false).1.path =
      nodesOf v.path ∧
    (u.setInitialSolution twoSites p.orders ⟨.empty, .empty⟩ 0 false).1.getStops = u.stops := by
  obtain ⟨p, hp, h⟩ := exists_ok_and (x := PickDeliver.build .insertion twoSites
    [smallOrderData 1 100, smallOrderData 2 100] [smallVehicleData 7 [1, 2, 1, 2]] [])
    (fun p =>
      let u := p.trucks.vehicle 0
      let v := (u.setInitialSolution twoSites p.orders ⟨.empty, .empty⟩ 0 false).1
      decide (u ∈ p.trucks.vehicles ∧ u.stops = [1, 2, 1, 2] ∧ v.getStops = [1, 2, 1, 2] ∧
        nodesOf u.path = [v.front.toTwNode, v.back.toTwNode] ∧ u.isPhony = false ∧
        (∀ t ∈ nodesOf u.path, t.isValid = true)) &&
      decide (v.isPhony = false ∧ (∀ t ∈ nodesOf v.path, t.isValid = true) ∧
        (∀ t ∈ nodesOf v.path, t.type = .kStart ∨ t.type = .kEnd ∨
          ∃ i < p.orders.length, isNodeOf (p.orders.get i) t = true) ∧
        ∀ i < p.orders.length, Carries (p.orders.get i) v ∨ Free (p.orders.get i) v))
    (by decide +kernel)
  obtain ⟨h, h'⟩ := Bool.and_eq_true_iff.mp h
  obtain ⟨hmem, hstops, hlist, hsites, hreal, hvalid⟩ := of_decide_eq_true h
  obtain ⟨hreal', hvalid', hknown', hwhole'⟩ := of_decide_eq_true h'
  have hb := PickDeliver.build_built hp
  have hu := hb.fresh _ hmem
  have hroute := (setInitialSolution_spec hb.wellFormed hu ⟨.empty, .empty⟩ 0 false).route.route
  have hround := stops_round_trip hp (by decide) ⟨.empty, .empty⟩ 0 hu
  refine ⟨p, _, _, hp, hlist, hround.1 _ ⟨hreal', hroute, hvalid', hknown', hwhole'⟩ hsites
    (hstops.trans hlist.symm), hround.2 hreal hvalid fun x hx => ?_⟩
  rw [hstops] at hx ⊢
  revert x
  decide

end VrpRouting
