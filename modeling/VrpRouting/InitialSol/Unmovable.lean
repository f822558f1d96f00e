import VrpRouting.Driver.Validity
import VrpRouting.InitialSol.GivenSolution
import VrpRouting.Problem.Compatibility
import VrpRouting.Problem.ErasedOrder

/-! # Unmovable orders

`set_unmovable` looks for the pickups on the path with `is_pickup`, which asks for `opens < closes`.
So a pickup that is open at one instant only is never seen, and its order stays movable however long
this instant is over (`set_unmovable_iff`). The removals of an infeasible vehicle then take off
exactly the orders that are still movable. -/

open Sorting

namespace VrpRouting

/-- The stops of the vehicle name orders of the problem, each of them twice. -/
structure Vehicle.ListsTwice (orders : Orders) (v : Vehicle) : Prop where
  known : v.stopsKnown orders = true
  twice : ∀ oId, v.stops.count oId = 0 ∨ v.stops.count oId = 2

/-- The orders that `set_unmovable` takes out of the movable ones of `v` are those on the path whose
pickup opens before the execution date. -/
def FreezesPast (orders : Orders) (date : ℤ) (v : Vehicle) : Prop :=
  ∀ i, (i ∈ v.ordersInVehicle ∧ i ∉ (v.setUnmovable date).ordersInVehicle) ↔
    i < orders.length ∧ Carries (orders.get i) v ∧ (orders.get i).pickup.opens < date

/-- The vehicle `w` and the sets after the removal of the movable orders: the path is evaluated and
has the other nodes as before, and its violations are accepted. -/
structure Pruned (M : Matrix) (orders : Orders) (w : Vehicle) (sets : Assignment)
    (r : Vehicle × Assignment) : Prop where
  nodes : nodesOf r.1.path = (nodesOf w.path).filter fun t =>
    !w.ordersInVehicle.ids.any fun i => isNodeOf (orders.get i) t
  evaluated : Settled M w.capacity w.speed 0 r.1.path
  gone : ∀ i ∈ w.ordersInVehicle, Free (orders.get i) r.1
  frozen : ∀ i < orders.length, i ∉ w.ordersInVehicle → Carries (orders.get i) w →
    Carries (orders.get i) r.1
  movable : ∀ i, i ∉ r.1.ordersInVehicle
  assigned : ∀ i, i ∈ r.2.assigned ↔ i ∈ sets.assigned ∧ i ∉ w.ordersInVehicle
  unassigned : ∀ i, i ∈ r.2.unassigned ↔ i ∈ sets.unassigned ∨ i ∈ w.ordersInVehicle
  userTwv : r.1.userTwv = r.1.path.countP VehicleNode.hasTwv
  userCv : r.1.userCv = r.1.path.countP (VehicleNode.hasCv · w.capacity)

/-- When the user's route is infeasible, `set_initial_solution` takes its movable orders off. -/
def RemovesMovable (M : Matrix) (orders : Orders) (date : ℤ) (v : Vehicle) : Prop :=
  v.stops ≠ [] → ∀ sets,
    let s := v.processStops M orders sets
    (s.1.setUnmovable date).isFeasible = false →
      Pruned M orders (s.1.setUnmovable date) s.2 (v.setInitialSolution M orders sets date true)

/-- What `set_initial_solution` returns for an infeasible route. -/
theorem setInitialSolution_infeasible {M : Matrix} {orders : Orders} {v w : Vehicle}
    {sets : Assignment} {date : ℤ} {s : Vehicle × Assignment} (hstops : v.stops ≠ [])
    (hs : v.processStops M orders sets = s) (hw : s.1.setUnmovable date = w)
    (hf : w.isFeasible = false) :
    v.setInitialSolution M orders sets date true =
      let r := w.ordersInVehicle.ids.foldl (Vehicle.removeMovable M) (w, s.2)
      ({ r.1 with userTwv := r.1.twvTot, userCv := r.1.cvTot }, r.2) := by
  unfold Vehicle.setInitialSolution
  rw [if_neg hstops, hs]
  dsimp only
  rw [hw, hf]
  rfl

/-! ### The removals -/

section Removals
variable {M : Matrix} {orders : Orders} (ho : orders.WellFormed) {w : Vehicle} {sets : Assignment}
  (hs : SameNodes w.orders orders)
include ho hs

/-- A removal takes the two nodes of the order off the path. -/
theorem Removed.nodes_step {gone : List ℕ} {r : Vehicle × Assignment}
    (h : Removed M orders w sets gone r) {o : ℕ} (hlt : o < orders.length) (hgone : o ∉ gone)
    (hc : Carries (orders.get o) w) : nodesOf (Vehicle.removeMovable M r o).1.path =
      (nodesOf r.1.path).filter fun t => !isNodeOf (orders.get o) t := by
  have hcr : Carries (orders.get o) r.1 := by
    unfold Carries at hc ⊢
    rw [h.visits o hlt, if_neg hgone, hc]
  rw [h.removeMovable_eq hs]
  exact eraseOrder_nodes_filter (ho.pickup_ne_delivery o hlt o hlt) h.route.noDump (Or.inl hcr)

theorem Removed.nodes_run : ∀ (l : List ℕ) {gone : List ℕ} {r : Vehicle × Assignment},
    Removed M orders w sets gone r →
    (∀ o ∈ l, o < orders.length ∧ o ∉ gone ∧ Carries (orders.get o) w) → l.Nodup →
    nodesOf (l.foldl (Vehicle.removeMovable M) r).1.path =
      (nodesOf r.1.path).filter fun t => !l.any fun i => isNodeOf (orders.get i) t
  | [], gone, r, _, _, _ => by simp
  | o :: l, gone, r, h, hl, hn => by
    obtain ⟨hno, hn⟩ := List.nodup_cons.mp hn
    obtain ⟨⟨hlt, hgone, hc⟩, hl⟩ := List.forall_mem_cons.mp hl
    have hrest : ∀ i ∈ l, i < orders.length ∧ i ∉ gone ++ [o] ∧ Carries (orders.get i) w := by
      intro i hi
      obtain ⟨hilt, higone, hic⟩ := hl i hi
      refine ⟨hilt, ?_, hic⟩
      simp only [List.mem_append, List.mem_singleton, not_or]
      exact ⟨higone, fun e => hno (e ▸ hi)⟩
    rw [List.foldl_cons, Removed.nodes_run l (h.step ho hs hlt hgone) hrest hn,
      h.nodes_step ho hs hlt hgone hc, List.filter_filter]
    refine List.filter_congr fun t _ => ?_
    rw [List.any_cons, Bool.not_or, Bool.and_comm]

end Removals

/-! ### The user's route -/

section Route
variable {M : Matrix} {orders : Orders} (ho : orders.WellFormed) (hn : orders.Named) {v : Vehicle}
  (hv : Fresh M orders v) (hlists : v.ListsTwice orders) {date : ℤ}
include ho hv hlists

/-- The orders on the path are those that the stops name. -/
theorem carries_userRoute_iff {i : ℕ} (hi : i < orders.length) :
    Carries (orders.get i) (v.userRoute M orders) ↔ Visited orders v i := by
  obtain ⟨mids, s, h, hproc⟩ := processStops_spec ho hv ⟨.empty, .empty⟩
  have hs : v.userRoute M orders = s.vehicle := by unfold Vehicle.userRoute; rw [hproc]
  unfold Carries Visited
  rw [hs, h.visits_path hv i hi]
  rcases count_of_twice ho hlists.twice i with hc | hc
  · rw [hc]
    simp [alternate]
  · rw [hc]
    exact iff_of_true rfl le_rfl

include hn

/-- The orders that are taken out of the movable ones. -/
theorem frozen_iff {i : ℕ} :
    (i ∈ (v.userRoute M orders).ordersInVehicle ∧
      i ∉ ((v.userRoute M orders).setUnmovable date).ordersInVehicle) ↔
    Visited orders v i ∧ (orders.get i).pickup.isPickup = true ∧
      (orders.get i).pickup.opens < date := by
  have hun : Visited orders v i → (i ∈ (v.userRoute M orders).unmovable date ↔
      (orders.get i).pickup.isPickup = true ∧ (orders.get i).pickup.opens < date) := fun hvis => by
    refine mem_unmovable ho hv hn ((count_of_twice ho hlists.twice i).resolve_left fun h0 => ?_)
    unfold Visited at hvis
    omega
  rw [Vehicle.setUnmovable, Identifiers.mem_diff, mem_userRoute ho hv]
  constructor
  · rintro ⟨hvis, hnot⟩
    exact ⟨hvis, (hun hvis).mp (not_not.mp fun h => hnot ⟨hvis, h⟩)⟩
  · rintro ⟨hvis, hpast⟩
    exact ⟨hvis, fun h => h.2 ((hun hvis).mpr hpast)⟩

/-- The past is frozen exactly when no pickup on the path is open at a past instant only. -/
theorem freezesPast_userRoute_iff
    (hpick : ∀ i < orders.length, (orders.get i).pickup.isPickup = true ↔
      (orders.get i).pickup.opens < (orders.get i).pickup.closes)
    (hwindow : ∀ i < orders.length, (orders.get i).pickup.opens ≤ (orders.get i).pickup.closes) :
    FreezesPast orders date (v.userRoute M orders) ↔ ∀ i ∈ stopIdxs orders v.stops,
      (orders.get i).pickup.opens = (orders.get i).pickup.closes →
      date ≤ (orders.get i).pickup.opens := by
  have hlt : ∀ {i}, Visited orders v i → i < orders.length := fun {i} hvis =>
    (mem_stopIdxs ho hvis.mem).1
  constructor
  · intro h i hmem hinstant
    by_contra hpast
    have hi := (mem_stopIdxs ho hmem).1
    have hvis : Visited orders v i := by
      have hpos := List.count_pos_iff.mpr hmem
      have htwo := count_of_twice ho hlists.twice i
      unfold Visited
      omega
    have hfrozen := (h i).mpr ⟨hi, (carries_userRoute_iff ho hv hlists hi).mpr hvis, by omega⟩
    have hstrict := (hpick i hi).mp ((frozen_iff ho hn hv hlists).mp hfrozen).2.1
    omega
  · intro h i
    rw [frozen_iff ho hn hv hlists]
    constructor
    · rintro ⟨hvis, -, hpast⟩
      exact ⟨hlt hvis, (carries_userRoute_iff ho hv hlists (hlt hvis)).mpr hvis, hpast⟩
    · rintro ⟨hi, hc, hpast⟩
      have hvis := (carries_userRoute_iff ho hv hlists hi).mp hc
      have hle := hwindow i hi
      refine ⟨hvis, (hpick i hi).mpr (lt_of_le_of_ne hle fun hinstant => ?_), hpast⟩
      have := h i hvis.mem hinstant
      omega

omit hn in
/-- The movable orders are on the path. -/
theorem carries_of_movable {i : ℕ}
    (hi : i ∈ ((v.userRoute M orders).setUnmovable date).ordersInVehicle) :
    i < orders.length ∧ Carries (orders.get i) ((v.userRoute M orders).setUnmovable date) := by
  have hvis := (mem_userRoute ho hv i).mp (Identifiers.mem_diff.mp hi).1
  have hlt := (mem_stopIdxs ho hvis.mem).1
  exact ⟨hlt, (carries_userRoute_iff ho hv hlists hlt).mpr hvis⟩

omit hlists in
/-- Without the nodes of some orders the user's route starts at the same site. -/
theorem front_of_filter {r : Vehicle} {ids : List ℕ} (hids : ∀ i ∈ ids, i < orders.length)
    (hr : nodesOf r.path = (nodesOf (v.userRoute M orders).path).filter fun t =>
      !ids.any fun i => isNodeOf (orders.get i) t) : r.front.toTwNode = v.front.toTwNode := by
  obtain ⟨a, b, hN, -, -, hsites⟩ := hv.sites
  obtain ⟨mids, hN', -⟩ := userRoute_nodes ho hn hv hN
  have ha : (ids.any fun i => isNodeOf (orders.get i) a) = false :=
    List.any_eq_false.mpr fun i hi => by simp [(hsites i (hids i hi)).1]
  rw [hN', List.filter_cons_of_pos (by rw [ha]; rfl)] at hr
  rw [front_of_nodes hr, front_of_nodes hN]

/-- **An infeasible route loses exactly its movable orders.** -/
theorem removesMovable (hopen : v.front.opens ≤ v.front.closes) : RemovesMovable M orders date v := by
  intro hstops sets
  have hbase := userResult_setUnmovable ho hv sets date
  have hroute : (v.processStops M orders sets).1 = v.userRoute M orders :=
    processStops_vehicle v sets
  dsimp only
  generalize hs : v.processStops M orders sets = s at hbase hroute ⊢
  generalize hw : s.1.setUnmovable date = w at hbase ⊢
  intro hf
  have hcarries : ∀ i ∈ w.ordersInVehicle, i < orders.length ∧ Carries (orders.get i) w := by
    rw [← hw, hroute]
    exact fun i => carries_of_movable ho hv hlists
  have hr := hbase.removed_movable ho hv
  have hnodes := hbase.removed_start.nodes_run ho (hbase.sameNodes hv) w.ordersInVehicle.ids
    (fun i hi => ⟨(hcarries i hi).1, List.not_mem_nil, (hcarries i hi).2⟩) w.ordersInVehicle.nodup
  rw [setInitialSolution_infeasible hstops hs hw hf]
  generalize w.ordersInVehicle.ids.foldl (Vehicle.removeMovable M) (w, s.2) = r at hr hnodes ⊢
  obtain ⟨path, movable, hothers⟩ := hr.others
  have hcap : r.1.capacity = w.capacity := by rw [hothers]
  have hspeed : r.1.speed = w.speed := by rw [hothers]
  have hsettled : Settled M r.1.capacity r.1.speed 0 r.1.path := by
    rw [hcap, hspeed]
    exact hr.settled
  have hfront : r.1.front.opens ≤ r.1.front.closes := by
    have hpath : w.path = (v.userRoute M orders).path := by rw [← hw, hroute]; rfl
    have hnodes' := hnodes
    dsimp only at hnodes'
    rw [hpath] at hnodes'
    rwa [front_of_filter ho hn hv (fun i hi => (hcarries i hi).1) hnodes']
  refine ⟨hnodes, hr.settled, fun i hi => ?_, fun i hlt hi hc => ?_, fun i hi => ?_, hr.assigned,
    hr.unassigned, twvTot_eq_countP hsettled hfront, ?_⟩
  · obtain ⟨hlt, hc⟩ := hcarries i hi
    unfold Free
    unfold Carries at hc
    rw [hr.visits i hlt, if_pos (show i ∈ w.ordersInVehicle.ids from hi), hc]
    simp [hasIdx]
  · unfold Carries at hc ⊢
    rw [hr.visits i hlt, if_neg (show i ∉ w.ordersInVehicle.ids from hi), hc]
  · exact ((hr.movable i).mp hi).2 ((hr.movable i).mp hi).1
  · rw [← hcap]
    exact cvTot_eq_countP hsettled

end Route

/-! ### The vehicles of a problem -/

theorem OrdersT.Accepted.isPickup_iff {d : OrdersT} (h : d.Accepted) (idx : ℕ) :
    (TwNode.ofOrder idx d .kPickup).isPickup = true ↔ d.pickOpenT < d.pickCloseT := by
  simp [TwNode.isPickup, TwNode.ofOrder, h.demand, h.pickService]

/-- The pickups of fetched orders that `is_pickup` recognises. -/
theorem PickDeliver.Built.isPickup_iff {S : Sorter} {M : Matrix} {pOrders : List OrdersT}
    {pVehicles : List VehicleT} {newStops : List ShortVehicle} {p : PickDeliver}
    (hb : p.Built S M pOrders pVehicles newStops) (ho : ∀ d ∈ pOrders, d.Fetched) {i : ℕ}
    (hi : i < p.orders.length) : (p.orders.get i).pickup.isPickup = true ↔
      (p.orders.get i).pickup.opens < (p.orders.get i).pickup.closes := by
  obtain ⟨d, hd, hpickup, -⟩ := hb.exists_orderData hi
  rw [hpickup]
  exact (ho d hd).accepted.isPickup_iff _

/-- **`set_unmovable` freezes exactly the past**, and an infeasible route then loses exactly the
other orders, if and only if no order that the stops name has a pickup at one past instant only. -/
theorem set_unmovable_iff {S : Sorter} {M : Matrix} {pOrders : List OrdersT}
    {pVehicles : List VehicleT} {newStops : List ShortVehicle} {p : PickDeliver}
    (ho : ∀ d ∈ pOrders, d.Fetched)
    (hp : PickDeliver.build S M pOrders pVehicles newStops = .ok p) {v : Vehicle}
    (hv : v ∈ p.trucks.vehicles) (hlists : v.ListsTwice p.orders) (date : ℤ) :
    (FreezesPast p.orders date (v.userRoute M p.orders) ∧ RemovesMovable M p.orders date v) ↔
      ∀ i ∈ stopIdxs p.orders v.stops,
        (p.orders.get i).pickup.opens = (p.orders.get i).pickup.closes →
        date ≤ (p.orders.get i).pickup.opens := by
  have hb := PickDeliver.build_built hp
  have hfresh := hb.fresh v hv
  have hwindow : ∀ i < p.orders.length,
      (p.orders.get i).pickup.opens ≤ (p.orders.get i).pickup.closes := fun i hi => by
    obtain ⟨d, hd, hpickup, -⟩ := hb.exists_orderData hi
    rw [hpickup]
    exact (ho d hd).accepted.pick
  have hremoves : RemovesMovable M p.orders date v :=
    removesMovable hb.wellFormed hb.named hfresh hlists (hb.front_opens hv)
  rw [and_iff_left hremoves]
  exact freezesPast_userRoute_iff hb.wellFormed hb.named hfresh hlists
    (fun i hi => hb.isPickup_iff ho hi) hwindow

/-- The row of an order that is picked up at the site 1 from the time 50 on, and delivered to the
site 2 before the time 1. -/
def lateOrderTuple (id : ℤ) : Tuple :=
  [("id", .int8 (some (.ofInt id))), ("amount", .int4 (some 1)), ("p_id", .int8 (some 1)),
    ("p_open", .int8 (some 50)), ("p_close", .int8 (some 60)), ("d_id", .int8 (some 2)),
    ("d_open", .int8 (some 0)), ("d_close", .int8 (some 1))]

/-- The order of that row. -/
def lateOrderData (id : ℤ) : OrdersT := ⟨id, 1, 1, 50, 60, 0, 2, 0, 1, 0⟩

/-- A past order and a late one: the route is infeasible, the past order stays. -/
theorem set_unmovable_small : ∃ p v,
    PickDeliver.build .insertion twoSites [smallOrderData 1 100, lateOrderData 2]
      [smallVehicleData 7 [1, 1, 2, 2]] [] = .ok p ∧ v ∈ p.trucks.vehicles ∧
    v.stops = [1, 1, 2, 2] ∧
    ((v.userRoute twoSites p.orders).setUnmovable 5).isFeasible = false ∧
    ((v.userRoute twoSites p.orders).setUnmovable 5).ordersInVehicle.ids = [1] ∧
    FreezesPast p.orders 5 (v.userRoute twoSites p.orders) ∧
    RemovesMovable twoSites p.orders 5 v := by
  obtain ⟨p, hp, h⟩ := exists_ok_and (x := PickDeliver.build .insertion twoSites
    [smallOrderData 1 100, lateOrderData 2] [smallVehicleData 7 [1, 1, 2, 2]] [])
    (fun p => decide (∃ v ∈ p.trucks.vehicles, v.stops = [1, 1, 2, 2] ∧
      v.stopsKnown p.orders = true ∧
      ((v.userRoute twoSites p.orders).setUnmovable 5).isFeasible = false ∧
      ((v.userRoute twoSites p.orders).setUnmovable 5).ordersInVehicle.ids = [1] ∧
      ∀ i ∈ stopIdxs p.orders v.stops,
        (p.orders.get i).pickup.opens = (p.orders.get i).pickup.closes →
        5 ≤ (p.orders.get i).pickup.opens)) (by decide +kernel)
  obtain ⟨v, hv, hstops, hknown, hf, hids, hinstants⟩ := of_decide_eq_true h
  have ho : ∀ d ∈ [smallOrderData 1 100, lateOrderData 2], d.Fetched := by
    refine List.forall_mem_cons.mpr ⟨smallOrderData_fetched, List.forall_mem_singleton.mpr ?_⟩
    exact ⟨fun t => t, false, false, lateOrderTuple 2, lateOrderData 2, 1, 2, by decide +kernel,
      rfl⟩
  have hlists : v.ListsTwice p.orders := ⟨hknown, fun oId => by
    rw [hstops]
    by_cases h1 : oId = 1
    · exact Or.inr (by rw [h1]; rfl)
    · by_cases h2 : oId = 2
      · exact Or.inr (by rw [h2]; rfl)
      · exact Or.inl (List.count_eq_zero.mpr (by simp [h1, h2]))⟩
  exact ⟨p, v, hp, hv, hstops, hf, hids, (set_unmovable_iff ho hp hv hlists 5).mpr hinstants⟩

/-- An order that can be picked up at the time 0 only stays movable at the date 5, and is taken off
the infeasible route. -/
theorem set_unmovable_instant : (smallOrderData 1 0).Fetched ∧ ∃ p v,
    PickDeliver.build .insertion twoSites [smallOrderData 1 0] [smallVehicleData 7 [1, 1]] [] =
      .ok p ∧ v ∈ p.trucks.vehicles ∧ v.stops = [1, 1] ∧ v.stopsKnown p.orders = true ∧
    (p.orders.get 0).pickup.opens < 5 ∧
    Carries (p.orders.get 0) (v.userRoute twoSites p.orders) ∧
    0 ∈ ((v.userRoute twoSites p.orders).setUnmovable 5).ordersInVehicle ∧
    Free (p.orders.get 0)
      (v.setInitialSolution twoSites p.orders ⟨.empty, p.trucks.feasibleOrders⟩ 5 true).1 ∧
    ¬ FreezesPast p.orders 5 (v.userRoute twoSites p.orders) := by
  obtain ⟨p, hp, h⟩ := exists_ok_and (x := PickDeliver.build .insertion twoSites
    [smallOrderData 1 0] [smallVehicleData 7 [1, 1]] [])
    (fun p => decide (∃ v ∈ p.trucks.vehicles, v.stops = [1, 1] ∧ v.stopsKnown p.orders = true ∧
      0 < p.orders.length ∧ (p.orders.get 0).pickup.opens < 5 ∧
      Carries (p.orders.get 0) (v.userRoute twoSites p.orders) ∧
      0 ∈ ((v.userRoute twoSites p.orders).setUnmovable 5).ordersInVehicle ∧
      Free (p.orders.get 0)
        (v.setInitialSolution twoSites p.orders ⟨.empty, p.trucks.feasibleOrders⟩ 5 true).1))
    (by decide +kernel)
  obtain ⟨v, hv, hstops, hknown, hpos, hpast, hc, hmovable, hfree⟩ := of_decide_eq_true h
  refine ⟨⟨fun t => t, false, false, smallOrderTuple 1 0, smallOrderData 1 0, 1, 2,
    by decide +kernel, rfl⟩, p, v, hp, hv, hstops, hknown, hpast, hc, hmovable, hfree,
    fun hfreezes => ?_⟩
  exact ((hfreezes 0).mpr ⟨hpos, hc, hpast⟩).2 hmovable

end VrpRouting
