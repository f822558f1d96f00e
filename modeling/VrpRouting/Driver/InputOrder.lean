import Mathlib.Data.List.Perm.Basic
import VrpRouting.Driver.Forward
import VrpRouting.Driver.PickDeliver
import VrpRouting.Problem.RowOrder

/-! # The order of the rows of the inner queries

A query without `ORDER BY` returns its rows in any order. `vrp_pickDeliver` and
`vrp_compatibleVehicles` give the same reply for every such order (`vrpDoPickDeliver_row_order`): the
orders and the vehicles are sorted with their identifier as the last key, the identifiers of the nodes
are a set, and the matrix is filled by its keys. -/

open Sorting

namespace VrpRouting

theorem exists_mapM_perm {α β : Type} {f : α → Except Fault β} {xs xs' : List α} {r : List β}
    (hp : xs'.Perm xs) (h : xs.mapM f = .ok r) : ∃ r', xs'.mapM f = .ok r' ∧ r'.Perm r := by
  obtain ⟨r', hr', hperm⟩ := List.perm_comp_forall₂ hp (mapM_eq_ok_iff.mp h)
  exact ⟨r', mapM_eq_ok_iff.mpr hr', hperm⟩

namespace Pgget

/-- The rows of one query: they have the same columns. -/
def SameColumns (tuples : List Tuple) : Prop :=
  ∀ t ∈ tuples, ∀ u ∈ tuples, t.map (fun c => (c.1, c.2.type)) = u.map fun c => (c.1, c.2.type)

instance (tuples : List Tuple) : Decidable (SameColumns tuples) := by
  unfold SameColumns
  infer_instance

theorem lookup_type (name : String) : ∀ t : Tuple,
    (t.lookup name).map Datum.type = (t.map fun c => (c.1, c.2.type)).lookup name
  | [] => rfl
  | (k, d) :: t => by
    rw [List.map_cons, List.lookup_cons, List.lookup_cons]
    cases name == k
    · exact lookup_type name t
    · rfl

/-- The check of a column looks at its type only. -/
theorem checkColumn_congr {t u : Tuple} (info : Info)
    (h : t.map (fun c => (c.1, c.2.type)) = u.map fun c => (c.1, c.2.type)) :
    t.checkColumn info = u.checkColumn info := by
  have htype : (t.column info).map Datum.type = (u.column info).map Datum.type := by
    unfold Tuple.column
    rw [lookup_type, lookup_type, h]
  unfold Tuple.checkColumn
  cases ht : t.column info with
  | none =>
    rw [ht, Option.map_none] at htype
    rw [Option.map_eq_none_iff.mp htype.symm]
  | some d =>
    rw [ht, Option.map_some] at htype
    obtain ⟨e, he, hde⟩ := Option.map_eq_some_iff.mp htype.symm
    rw [he]
    simp only [hde]

theorem fetchColumnInfo_congr {t u : Tuple} (info : List Info)
    (h : t.map (fun c => (c.1, c.2.type)) = u.map fun c => (c.1, c.2.type)) :
    t.fetchColumnInfo info = u.fetchColumnInfo info := by
  unfold Tuple.fetchColumnInfo
  exact congrArg (fun f => info.forM f) (funext fun i => checkColumn_congr i h)

/-- The rows in another order are fetched as well. -/
theorem getData_perm {α : Type} {info : List Info} {fetch : Tuple → Except Fault α}
    {tuples tuples' : List Tuple} (hs : SameColumns tuples) (hp : tuples'.Perm tuples) {r : List α}
    (h : getData info fetch tuples = .ok r) :
    ∃ r', getData info fetch tuples' = .ok r' ∧ r'.Perm r := by
  cases tuples with
  | nil =>
    obtain rfl := Except.ok.inj h
    rw [hp.eq_nil]
    exact ⟨[], rfl, .nil⟩
  | cons t ts =>
    obtain ⟨t', ts', rfl⟩ : ∃ t' ts', tuples' = t' :: ts' :=
      List.exists_cons_of_ne_nil fun hnil => by simp [hnil] at hp
    obtain ⟨u, hu, hm⟩ := bind_eq_ok h
    obtain ⟨r', hr', hperm⟩ := exists_mapM_perm hp hm
    refine ⟨r', ?_, hperm⟩
    have hcols := hs t' (hp.mem_iff.mp List.mem_cons_self) t List.mem_cons_self
    unfold getData
    dsimp only
    rw [fetchColumnInfo_congr info hcols, hu]
    exact hr'

end Pgget

/-! ### The problem -/

section Problem
variable {orders orders' : List OrdersT} {vehicles vehicles' : List VehicleT}

/-- Two members of a list without repeated keys are equal when their keys are. -/
theorem eq_of_nodup_key {α β : Type} {key : α → β} {l : List α} (h : (l.map key).Nodup) {a b : α}
    (ha : a ∈ l) (hb : b ∈ l) (hab : key a = key b) : a = b :=
  List.inj_on_of_nodup_map h ha hb hab

theorem sort_orders_perm (S : Sorter) (hp : orders'.Perm orders)
    (hn : (orders.map OrdersT.id).Nodup) : S.sort ordersLt orders' = S.sort ordersLt orders := by
  refine S.sort_perm_eq ordersLt_strictWeak hp fun a ha b hb hab hba => eq_of_nodup_key hn ha hb ?_
  unfold ordersLt at hab hba
  split_ifs at hab hba <;> simp only [decide_eq_false_iff_not] at hab hba <;> omega

theorem sort_vehicles_perm (S : Sorter) (hp : vehicles'.Perm vehicles)
    (hn : (vehicles.map VehicleT.id).Nodup) :
    S.sort vehicleLt vehicles' = S.sort vehicleLt vehicles := by
  refine S.sort_perm_eq vehicleLt_strictWeak hp fun a ha b hb hab hba => eq_of_nodup_key hn ha hb ?_
  unfold vehicleLt at hab hba
  split_ifs at hab hba <;> simp only [decide_eq_false_iff_not] at hab hba <;> omega

/-- **The problem does not depend on the order of its data.** -/
theorem PickDeliver.build_perm (S : Sorter) (M : Matrix) (newStops : List ShortVehicle)
    (ho : orders'.Perm orders) (hno : (orders.map OrdersT.id).Nodup) (hv : vehicles'.Perm vehicles)
    (hnv : (vehicles.map VehicleT.id).Nodup) :
    PickDeliver.build S M orders' vehicles' newStops =
      PickDeliver.build S M orders vehicles newStops := by
  unfold PickDeliver.build Fleet.build
  rw [sort_orders_perm S ho hno, sort_vehicles_perm S hv hnv]

end Problem

/-- The matrix is filled by the keys of its rows. -/
theorem BaseMatrix.ofCells_perm (ids : Identifiers ℤ) {multiplier : ℚ} {cells cells' : List MatrixCell}
    (hn : (cells.map fun c => (c.fromVid, c.toVid)).Nodup)
    (hfit : ∀ c ∈ cells, toInterval (c.cost * multiplier) < infinity) (hp : cells'.Perm cells) :
    ofCells cells' ids.ids multiplier = ofCells cells ids.ids multiplier := by
  rw [ofCells_eq, ofCells_eq, Table.fillSelected_perm ids.sorted rfl (by rwa [List.map_map])
    (hp.map _)]
  intro r hr
  obtain ⟨c, hc, rfl⟩ := List.mem_map.mp hr
  exact decide_eq_false (hfit c hc).ne

/-- The multipliers are ordered by their times. -/
theorem Matrix.setTdm_perm (S : Sorter) {multipliers multipliers' : List TimeMultipliersT}
    (hn : (multipliers.map TimeMultipliersT.startTime).Nodup) (hp : multipliers'.Perm multipliers) :
    setTdm S multipliers' = setTdm S multipliers := by
  unfold setTdm
  rw [S.sort_perm_eq (.of_key TimeMultipliersT.startTime fun a b => decide_eq_true_iff) hp
    fun a ha b hb hab hba => eq_of_nodup_key hn ha hb ?_]
  simp only [decide_eq_false_iff_not] at hab hba
  omega

namespace Driver

section Sets
variable {orders orders' : List OrdersT} {vehicles vehicles' : List VehicleT}

theorem mem_orderIds {x : ℤ} : x ∈ orderIds orders ↔ ∃ o ∈ orders, o.id = x := by
  have h := Identifiers.mem_foldl_foldl_insert (fun o : OrdersT => [o.id]) (z := x) orders .empty
  simp only [List.foldl_cons, List.foldl_nil, Identifiers.not_mem_empty, false_or,
    List.mem_singleton] at h
  simp only [eq_comm (a := x)] at h
  exact h

theorem mem_nodeIds {x : ℤ} : x ∈ nodeIds orders vehicles ↔
    (∃ o ∈ orders, x = o.pickNodeId ∨ x = o.deliverNodeId) ∨
      ∃ v ∈ vehicles, x = v.startNodeId ∨ x = v.endNodeId := by
  have ho := Identifiers.mem_foldl_foldl_insert
    (fun o : OrdersT => [o.pickNodeId, o.deliverNodeId]) (z := x) orders .empty
  have hv := fun ids => Identifiers.mem_foldl_foldl_insert
    (fun v : VehicleT => [v.startNodeId, v.endNodeId]) (z := x) vehicles ids
  simp only [List.foldl_cons, List.foldl_nil, Identifiers.not_mem_empty, false_or,
    List.mem_pair] at ho hv
  unfold nodeIds
  rw [hv, ho]

theorem nodeIds_perm (ho : orders'.Perm orders) (hv : vehicles'.Perm vehicles) :
    nodeIds orders' vehicles' = nodeIds orders vehicles :=
  Identifiers.ext_iff.mpr fun x => by
    rw [mem_nodeIds, mem_nodeIds]
    simp only [ho.mem_iff, hv.mem_iff]

theorem orderIds_perm (ho : orders'.Perm orders) : orderIds orders' = orderIds orders :=
  Identifiers.ext_iff.mpr fun x => by
    rw [mem_orderIds, mem_orderIds]
    simp only [ho.mem_iff]

theorem missesOrder_perm (ho : orders'.Perm orders) (hv : vehicles'.Perm vehicles) :
    missesOrder orders' vehicles' = missesOrder orders vehicles := by
  unfold missesOrder
  rw [orderIds_perm ho]
  exact Bool.eq_iff_iff.mpr (by simp only [List.any_eq_true, hv.mem_iff])

end Sets

/-- Fetched rows whose keys are distinct; no cost is scaled to `infinity`. -/
structure DistinctKeys (orders : List OrdersT) (vehicles : List VehicleT) (costs : List MatrixCell)
    (multipliers : List TimeMultipliersT) (factor : ℚ) : Prop where
  orderIds : (orders.map OrdersT.id).Nodup
  vehicleIds : (vehicles.map VehicleT.id).Nodup
  pairs : (costs.map fun c => (c.fromVid, c.toVid)).Nodup
  fit : ∀ c ∈ costs, toInterval (c.cost * factor) < infinity
  startTimes : (multipliers.map TimeMultipliersT.startTime).Nodup

section Matrix
variable {orders orders' : List OrdersT} {vehicles vehicles' : List VehicleT}
  {costs costs' : List MatrixCell} {multipliers multipliers' : List TimeMultipliersT} {factor : ℚ}

theorem timedMatrix_perm (S : Sorter)
    (hk : DistinctKeys orders vehicles costs multipliers factor) (ho : orders'.Perm orders)
    (hv : vehicles'.Perm vehicles) (hc : costs'.Perm costs) (hm : multipliers'.Perm multipliers) :
    timedMatrix S orders' vehicles' costs' multipliers' factor =
      timedMatrix S orders vehicles costs multipliers factor := by
  unfold timedMatrix Matrix.ofMultipliers
  rw [nodeIds_perm ho hv, Matrix.setTdm_perm S hk.startTimes hm,
    BaseMatrix.ofCells_perm _ hk.pairs hk.fit hc]

variable (hk : DistinctKeys orders vehicles costs multipliers factor) (ho : orders'.Perm orders)
  (hv : vehicles'.Perm vehicles) (hc : costs'.Perm costs) (hm : multipliers'.Perm multipliers)
include hk ho hv hc hm

theorem processPickDeliver_perm (S : Sorter) (toUtc : ℤ → ℤ) {args : Parameters}
    (hf : args.factor = factor) :
    processPickDeliver S toUtc orders' vehicles' costs' multipliers' args =
      processPickDeliver S toUtc orders vehicles costs multipliers args := by
  subst hf
  have hbuild : ∀ M, PickDeliver.build S M orders' vehicles' [] =
      PickDeliver.build S M orders vehicles [] := fun M =>
    PickDeliver.build_perm S M [] ho hk.orderIds hv hk.vehicleIds
  unfold processPickDeliver
  simp only [missesOrder_perm ho hv, timedMatrix_perm S hk ho hv hc hm, hbuild]

theorem processCompatibleVehicles_perm (S : Sorter) :
    processCompatibleVehicles S orders' vehicles' costs' multipliers' factor =
      processCompatibleVehicles S orders vehicles costs multipliers factor := by
  have hbuild : ∀ M, PickDeliver.build S M orders' vehicles' [] =
      PickDeliver.build S M orders vehicles [] := fun M =>
    PickDeliver.build_perm S M [] ho hk.orderIds hv hk.vehicleIds
  unfold processCompatibleVehicles
  simp only [timedMatrix_perm S hk ho hv hc hm, hbuild]

end Matrix

/-! ### The replies -/

/-- The same rows, each query in any order. -/
structure Queries.Permuted (q' q : Queries) : Prop where
  orders : q'.orders.Perm q.orders
  vehicles : q'.vehicles.Perm q.vehicles
  matrix : q'.matrix.Perm q.matrix
  multipliers : q'.multipliers.Perm q.multipliers

/-- Every query has the same columns in all its rows. -/
structure Queries.SameColumns (q : Queries) : Prop where
  orders : Pgget.SameColumns q.orders
  vehicles : Pgget.SameColumns q.vehicles
  matrix : Pgget.SameColumns q.matrix
  multipliers : Pgget.SameColumns q.multipliers

/-- The data that the four queries are fetched as. -/
structure Queries.Fetches (toUtc : ℤ → ℤ) (isEuclidean useTimestamps withStops : Bool) (q : Queries)
    (orders : List OrdersT) (vehicles : List VehicleT) (costs : List MatrixCell)
    (multipliers : List TimeMultipliersT) : Prop where
  getOrders : Pgget.getOrders toUtc isEuclidean useTimestamps q.orders = .ok orders
  getVehicles : Pgget.getVehicles toUtc isEuclidean useTimestamps withStops q.vehicles = .ok vehicles
  getMatrix : Pgget.getMatrix toUtc useTimestamps q.matrix = .ok costs
  getMultipliers : Pgget.getTimeMultipliers toUtc useTimestamps q.multipliers = .ok multipliers

section Replies
variable {toUtc : ℤ → ℤ} {isEuclidean useTimestamps withStops : Bool} {q q' : Queries}
  {orders : List OrdersT} {vehicles : List VehicleT} {costs : List MatrixCell}
  {multipliers : List TimeMultipliersT}

/-- The data input of queries that are fetched. -/
theorem Queries.Fetches.withData_eq
    (h : q.Fetches toUtc isEuclidean useTimestamps withStops orders vehicles costs multipliers)
    {α : Type} (process : List OrdersT → List VehicleT → List MatrixCell → List TimeMultipliersT →
      Except Fault (Reply α)) :
    withData toUtc q isEuclidean useTimestamps withStops process =
      if orders.length = 0 then .ok (.notice "Insufficient data found on 'orders' inner query")
      else if vehicles.length = 0 then
        .ok (.notice "Insufficient data found on 'vehicles' inner query")
      else if costs.length = 0 then .ok (.notice "Insufficient data found on 'matrix' inner query")
      else process orders vehicles costs multipliers := by
  unfold withData
  rw [h.getOrders, h.getVehicles, h.getMatrix, h.getMultipliers]
  rfl

/-- `vrp_do_pickDeliver` on fetched data. -/
def pickDeliverOn (S : Sorter) (toUtc : ℤ → ℤ) (orders : List OrdersT) (vehicles : List VehicleT)
    (costs : List MatrixCell) (multipliers : List TimeMultipliersT) (args : Parameters) :
    Except Fault (Reply SolutionRt) :=
  if args.maxCycles < 0 then .ok (.err "Illegal value in parameter: max_cycles")
  else if args.factor ≤ 0 then .ok (.err "Illegal value in parameter: factor")
  else caught .err (
    if orders.length = 0 then .ok (.notice "Insufficient data found on 'orders' inner query")
    else if vehicles.length = 0 then
      .ok (.notice "Insufficient data found on 'vehicles' inner query")
    else if costs.length = 0 then .ok (.notice "Insufficient data found on 'matrix' inner query")
    else processPickDeliver S toUtc orders vehicles costs multipliers args)

/-- The driver replies so to queries that are fetched as this data. -/
theorem Queries.Fetches.vrpDoPickDeliver_eq {args : Parameters}
    (h : q.Fetches toUtc args.isEuclidean args.useTimestamps args.withStops orders vehicles costs
      multipliers) (S : Sorter) : vrpDoPickDeliver S toUtc q args =
      pickDeliverOn S toUtc orders vehicles costs multipliers args := by
  unfold vrpDoPickDeliver pickDeliverOn
  rw [h.withData_eq]

/-- What a reply with rows comes from. -/
theorem pickDeliverOn_eq_tuples {S : Sorter} {args : Parameters} {rows : List SolutionRt}
    (h : pickDeliverOn S toUtc orders vehicles costs multipliers args = .ok (.tuples rows)) :
    missesOrder orders vehicles = false ∧ ∃ M p s,
      timedMatrix S orders vehicles costs multipliers args.factor = .ok M ∧
      PickDeliver.build S M orders vehicles [] = .ok p ∧
      Initialsol.Tabu.InitialSolution.construct M
        (if args.useTimestamps then toUtc args.executionDate else args.executionDate) args.optimize p =
          .ok s ∧
      rows = (Optimizers.Tabu.Optimize.construct S M s.toSolution args.maxCycles.toNat
        args.stopOnAllServed args.optimize).toSolution.getPostgresResult M := by
  unfold pickDeliverOn at h
  split_ifs at h
  · cases Except.ok.inj h
  · cases Except.ok.inj h
  · cases caught_eq_ok h (by simp)
  · cases caught_eq_ok h (by simp)
  · cases caught_eq_ok h (by simp)
  have h := caught_eq_ok h (by simp)
  obtain ⟨_, hmiss, h⟩ := bind_eq_ok h
  obtain ⟨M, hM, h⟩ := bind_eq_ok h
  obtain ⟨p, hp, h⟩ := bind_eq_ok h
  obtain ⟨s, hs, h⟩ := bind_eq_ok h
  cases Except.ok.inj h
  exact ⟨Bool.eq_false_iff.mpr (throwIf_eq_ok hmiss), M, p, s, hM, hp, hs, rfl⟩

/-- Queries with the same rows are fetched as data with the same rows. -/
theorem Queries.Fetches.permuted
    (h : q.Fetches toUtc isEuclidean useTimestamps withStops orders vehicles costs multipliers)
    (hs : q.SameColumns) (hp : q'.Permuted q) : ∃ orders' vehicles' costs' multipliers',
    q'.Fetches toUtc isEuclidean useTimestamps withStops orders' vehicles' costs' multipliers' ∧
      orders'.Perm orders ∧ vehicles'.Perm vehicles ∧ costs'.Perm costs ∧
      multipliers'.Perm multipliers := by
  obtain ⟨orders', ho, hpo⟩ := Pgget.getData_perm hs.orders hp.orders h.getOrders
  obtain ⟨vehicles', hv, hpv⟩ := Pgget.getData_perm hs.vehicles hp.vehicles h.getVehicles
  obtain ⟨costs', hc, hpc⟩ := Pgget.getData_perm hs.matrix hp.matrix h.getMatrix
  obtain ⟨multipliers', hm, hpm⟩ := Pgget.getData_perm hs.multipliers hp.multipliers h.getMultipliers
  exact ⟨orders', vehicles', costs', multipliers', ⟨ho, hv, hc, hm⟩, hpo, hpv, hpc, hpm⟩

/-- **The replies do not depend on the order of the rows** of the inner queries. -/
theorem vrpDoPickDeliver_row_order (S : Sorter) (args : Parameters)
    (h : q.Fetches toUtc args.isEuclidean args.useTimestamps args.withStops orders vehicles costs
      multipliers) (hs : q.SameColumns)
    (hk : DistinctKeys orders vehicles costs multipliers args.factor) (hp : q'.Permuted q) :
    vrpDoPickDeliver S toUtc q' args = vrpDoPickDeliver S toUtc q args ∧
    vrpDoCompatibleVehicles S toUtc q' args.factor args.useTimestamps args.isEuclidean
        args.withStops =
      vrpDoCompatibleVehicles S toUtc q args.factor args.useTimestamps args.isEuclidean
        args.withStops := by
  obtain ⟨orders', vehicles', costs', multipliers', h', ho, hv, hc, hm⟩ := h.permuted hs hp
  have hdata : ∀ {α : Type} (process : List OrdersT → List VehicleT → List MatrixCell →
      List TimeMultipliersT → Except Fault (Reply α)),
      process orders' vehicles' costs' multipliers' = process orders vehicles costs multipliers →
      withData toUtc q' args.isEuclidean args.useTimestamps args.withStops process =
        withData toUtc q args.isEuclidean args.useTimestamps args.withStops process := by
    intro α process heq
    rw [h.withData_eq, h'.withData_eq, heq, ho.length_eq, hv.length_eq, hc.length_eq]
  constructor
  · unfold vrpDoPickDeliver
    rw [hdata _ (processPickDeliver_perm hk ho hv hc hm S toUtc rfl)]
  · unfold vrpDoCompatibleVehicles
    rw [hdata _ (processCompatibleVehicles_perm hk ho hv hc hm S)]

end Replies

/-- The queries of two orders and a vehicle. -/
def smallQueries : Queries where
  orders := [smallOrderTuple 1 100, smallOrderTuple 2 100]
  vehicles := [smallVehicleTuple 7 100]
  matrix := [smallCellTuple]
  multipliers := [[("start_value", .int8 (some 0)), ("multiplier", .int8 (some 1))]]

def smallParameters : Parameters := ⟨1, 1, 0, true, false, false, false, false⟩

theorem smallQueries_fetches : smallQueries.Fetches (fun t => t) false false false
    [smallOrderData 1 100, smallOrderData 2 100] [smallVehicleData 7 []] [⟨1, 2, 5⟩] [⟨0, 1⟩] :=
  ⟨by decide +kernel, by decide +kernel, by decide +kernel, by decide +kernel⟩

/-- The two orders in the other order. -/
theorem vrpDoPickDeliver_row_order_small :
    let q' : Queries :=
      { smallQueries with orders := [smallOrderTuple 2 100, smallOrderTuple 1 100] }
    vrpDoPickDeliver .insertion (fun t => t) q' smallParameters =
      vrpDoPickDeliver .insertion (fun t => t) smallQueries smallParameters := by
  intro q'
  have hp : q'.Permuted smallQueries := ⟨.swap _ _ _, .refl _, .refl _, .refl _⟩
  exact (vrpDoPickDeliver_row_order .insertion smallParameters smallQueries_fetches
    ⟨by decide +kernel, by decide +kernel, by decide +kernel, by decide +kernel⟩
    ⟨by decide, by decide, by decide, by decide +kernel, by decide⟩ hp).1

end Driver

end VrpRouting
