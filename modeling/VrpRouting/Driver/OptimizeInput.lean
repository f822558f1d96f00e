import VrpRouting.Driver.InputOrder
import VrpRouting.Driver.Result

/-! # `vrp_optimize` from its queries

The vehicles and the orders come from queries "that could possibly give a duplicate": they are sorted
by their identifiers, and of each identifier one record is kept. So the answer depends on the sets of
their rows only, not on the order of the rows nor on how often a row is there
(`vrpOptimize_row_set`). -/

open Sorting Keyed

namespace VrpRouting

/-- The same elements, in any order and in any number. -/
def SameMembers {α : Type} (xs' xs : List α) : Prop := ∀ a, a ∈ xs' ↔ a ∈ xs

theorem SameMembers.eq_nil_iff {α : Type} {xs' xs : List α} (h : SameMembers xs' xs) :
    xs' = [] ↔ xs = [] := by
  rw [List.eq_nil_iff_forall_not_mem, List.eq_nil_iff_forall_not_mem]
  exact forall_congr' fun a => not_congr (h a)

theorem SameMembers.length_eq_zero_iff {α : Type} {xs' xs : List α} (h : SameMembers xs' xs) :
    xs'.length = 0 ↔ xs.length = 0 := by
  rw [List.length_eq_zero_iff, List.length_eq_zero_iff]
  exact h.eq_nil_iff

/-- The values of a traversal, and that there are any. -/
theorem mapM_values {α β : Type} {f : α → Except Fault β} {xs : List α} {r : List β}
    (h : xs.mapM f = .ok r) :
    (∀ a ∈ xs, ∃ b, f a = .ok b) ∧ ∀ b, b ∈ r ↔ ∃ a ∈ xs, f a = .ok b := by
  have hall := mapM_eq_ok_iff.mp h
  clear h
  induction hall with
  | nil => simp
  | @cons a b xs r hab _ ih =>
    obtain ⟨hvalue, hmem⟩ := ih
    refine ⟨List.forall_mem_cons.mpr ⟨⟨b, hab⟩, hvalue⟩, fun c => ?_⟩
    rw [List.mem_cons, hmem, List.exists_mem_cons_iff, hab, Except.ok.injEq]
    exact or_congr_left eq_comm

theorem SameMembers.mapM {α β : Type} {f : α → Except Fault β} {xs' xs : List α} {r : List β}
    (hs : SameMembers xs' xs) (h : xs.mapM f = .ok r) :
    ∃ r', xs'.mapM f = .ok r' ∧ SameMembers r' r := by
  obtain ⟨hvalue, hmem⟩ := mapM_values h
  have hvalue' : ∀ a ∈ xs', ∃ b, f a = .ok b ∧ f a = .ok b := fun a ha =>
    (hvalue a ((hs a).mp ha)).imp fun _ hb => ⟨hb, hb⟩
  obtain ⟨r', hr', -⟩ := exists_mapM hvalue'
  refine ⟨r', hr', fun b => ?_⟩
  rw [(mapM_values hr').2, hmem]
  simp only [hs _]

/-- The rows are fetched as well, and as the same data. -/
theorem SameMembers.getData {α : Type} {info : List Info} {fetch : Tuple → Except Fault α}
    {tuples' tuples : List Tuple} (hp : SameMembers tuples' tuples)
    (hs : Pgget.SameColumns tuples) {r : List α} (h : Pgget.getData info fetch tuples = .ok r) :
    ∃ r', Pgget.getData info fetch tuples' = .ok r' ∧ SameMembers r' r := by
  cases tuples with
  | nil =>
    obtain rfl := Except.ok.inj h
    rw [hp.eq_nil_iff.mpr rfl]
    exact ⟨[], rfl, fun _ => Iff.rfl⟩
  | cons t ts =>
    obtain ⟨t', ts', rfl⟩ : ∃ t' ts', tuples' = t' :: ts' :=
      List.exists_cons_of_ne_nil fun hnil => List.cons_ne_nil _ _ (hp.eq_nil_iff.mp hnil)
    obtain ⟨u, hu, hm⟩ := bind_eq_ok h
    obtain ⟨r', hr', hsame⟩ := hp.mapM hm
    refine ⟨r', ?_, hsame⟩
    have hcols := hs t' ((hp t').mp List.mem_cons_self) t List.mem_cons_self
    unfold Pgget.getData
    dsimp only
    rw [Pgget.fetchColumnInfo_congr info hcols, hu]
    exact hr'

namespace Driver

/-! ### The driver -/

/-- The other parameters of `vrp_do_optimize`. -/
structure OptimizeParameters where
  factor : ℚ
  maxCycles : ℤ
  executionDate : ℤ
  checkTriangleInequality : Bool
  subdivisionKind : ℤ
  useTimestamps : Bool
  isEuclidean : Bool
  withStops : Bool
deriving DecidableEq

section Driver
variable (S : Sorter) (toUtc : ℤ → ℤ)

/-- The matrix is prepared for the nodes of the vehicles and the orders that are optimized. -/
def optimizeMatrix (orders : List OrdersT) (vehicles : List VehicleT) (costs : List MatrixCell)
    (multipliers : List TimeMultipliersT) (args : OptimizeParameters) : Matrix :=
  let vehicles := vehiclesToOptimize S vehicles args.executionDate
  let orders := ordersToOptimize S orders (stopIds vehicles)
  verifyTriangles args.checkTriangleInequality
    (.ofMultipliers S costs multipliers (nodeIds orders vehicles).ids args.factor)

/-- `vrp_do_optimize`: the tests of the parameters come before the data input, and once more behind
it, where they are passed. -/
def vrpOptimize (q : Queries) (args : OptimizeParameters) : Except Fault Answer :=
  if args.subdivisionKind < 0 ∨ args.subdivisionKind > 2 then
    .ok (.notice "Illegal value in parameter: subdivision_kind")
  else if args.maxCycles < 0 then .ok (.err "Illegal value in parameter: max_cycles")
  else if args.factor ≤ 0 then .ok (.err "Illegal value in parameter: factor")
  else caught .err (
    withRows (.notice "Insufficient data found on 'orders' inner query")
      (Pgget.getOrders toUtc args.isEuclidean args.useTimestamps q.orders) fun orders =>
    withRows (.notice "Insufficient data found on 'vehicles' inner query")
      (Pgget.getVehicles toUtc args.isEuclidean args.useTimestamps args.withStops q.vehicles)
      fun vehicles =>
    withRows (.notice "Insufficient data found on 'matrix' inner query")
      (Pgget.getMatrix toUtc args.useTimestamps q.matrix) fun costs => do
    let multipliers ← Pgget.getTimeMultipliers toUtc args.useTimestamps q.multipliers
    vrpDoOptimize S (optimizeMatrix S orders vehicles costs multipliers args) orders vehicles
      args.factor args.maxCycles args.executionDate args.subdivisionKind)

end Driver

/-! ### The selected vehicles and orders -/

section Selection
variable {S : Sorter} {orders orders' : List OrdersT} {vehicles vehicles' : List VehicleT}

/-- Sorting and removing repeated keys leaves the same records. -/
theorem unique_sort_eq {α : Type} (S : Sorter) (key : α → ℤ) {l l' : List α} (hs : SameMembers l' l)
    (hinj : ∀ a ∈ l, ∀ b ∈ l, key a = key b → a = b) :
    (S.sort (fun lhs rhs => decide (key lhs < key rhs)) l').destutter
      (fun lhs rhs => key lhs ≠ key rhs) =
    (S.sort (fun lhs rhs => decide (key lhs < key rhs)) l).destutter
      fun lhs rhs => key lhs ≠ key rhs := by
  have hsorted : ∀ m, (S.sort (fun lhs rhs => decide (key lhs < key rhs)) m).Pairwise
      fun a b => key a ≤ key b := fun m =>
    (S.pairwise _ m (.of_key key fun a b => decide_eq_true_iff)).imp fun h =>
      not_lt.mp (of_decide_eq_false h)
  refine destutter_eq_of_mem_iff (hsorted l) (hsorted l') (fun a => ?_) fun a ha b hb => ?_
  · rw [S.mem_sort, S.mem_sort]
    exact hs a
  · exact hinj a ((S.mem_sort _).mp ha) b ((S.mem_sort _).mp hb)

theorem vehiclesToOptimize_eq (hs : SameMembers vehicles' vehicles)
    (hinj : ∀ v ∈ vehicles, ∀ w ∈ vehicles, v.id = w.id → v = w) (date : ℤ) :
    vehiclesToOptimize S vehicles' date = vehiclesToOptimize S vehicles date :=
  congrArg (List.filter _) (unique_sort_eq S VehicleT.id hs hinj)

theorem ordersToOptimize_eq (hs : SameMembers orders' orders)
    (hinj : ∀ o ∈ orders, ∀ p ∈ orders, o.id = p.id → o = p) (ids : Identifiers ℤ) :
    ordersToOptimize S orders' ids = ordersToOptimize S orders ids :=
  congrArg (List.filter _) (unique_sort_eq S OrdersT.id hs hinj)

end Selection

/-! ### The answers -/

/-- The same rows: the orders and the vehicles in any order and in any number, the others in any
order. -/
structure Queries.SameRows (q' q : Queries) : Prop where
  orders : SameMembers q'.orders q.orders
  vehicles : SameMembers q'.vehicles q.vehicles
  matrix : q'.matrix.Perm q.matrix
  multipliers : q'.multipliers.Perm q.multipliers

/-- Fetched rows whose keys tell them apart: an identifier belongs to one order and to one vehicle,
maybe in several copies. No cost is scaled to `infinity`. -/
structure ConsistentKeys (orders : List OrdersT) (vehicles : List VehicleT) (costs : List MatrixCell)
    (multipliers : List TimeMultipliersT) (factor : ℚ) : Prop where
  orderIds : ∀ o ∈ orders, ∀ p ∈ orders, o.id = p.id → o = p
  vehicleIds : ∀ v ∈ vehicles, ∀ w ∈ vehicles, v.id = w.id → v = w
  pairs : (costs.map fun c => (c.fromVid, c.toVid)).Nodup
  fit : ∀ c ∈ costs, toInterval (c.cost * factor) < infinity
  startTimes : (multipliers.map TimeMultipliersT.startTime).Nodup

section Answers
variable {toUtc : ℤ → ℤ} {isEuclidean useTimestamps withStops : Bool} {q q' : Queries}
  {orders orders' : List OrdersT} {vehicles vehicles' : List VehicleT} {costs costs' : List MatrixCell}
  {multipliers multipliers' : List TimeMultipliersT}

theorem Queries.Fetches.sameRows
    (h : q.Fetches toUtc isEuclidean useTimestamps withStops orders vehicles costs multipliers)
    (hs : q.SameColumns) (hp : q'.SameRows q) : ∃ orders' vehicles' costs' multipliers',
    q'.Fetches toUtc isEuclidean useTimestamps withStops orders' vehicles' costs' multipliers' ∧
      SameMembers orders' orders ∧ SameMembers vehicles' vehicles ∧ costs'.Perm costs ∧
      multipliers'.Perm multipliers := by
  obtain ⟨orders', ho, hpo⟩ := hp.orders.getData hs.orders h.getOrders
  obtain ⟨vehicles', hv, hpv⟩ := hp.vehicles.getData hs.vehicles h.getVehicles
  obtain ⟨costs', hc, hpc⟩ := Pgget.getData_perm hs.matrix hp.matrix h.getMatrix
  obtain ⟨multipliers', hm, hpm⟩ := Pgget.getData_perm hs.multipliers hp.multipliers h.getMultipliers
  exact ⟨orders', vehicles', costs', multipliers', ⟨ho, hv, hc, hm⟩, hpo, hpv, hpc, hpm⟩

/-- The processing sees the selected vehicles and orders only. -/
theorem vrpDoOptimize_congr (S : Sorter) (M : Matrix) (ho : SameMembers orders' orders)
    (hv : SameMembers vehicles' vehicles)
    (hio : ∀ o ∈ orders, ∀ p ∈ orders, o.id = p.id → o = p)
    (hiv : ∀ v ∈ vehicles, ∀ w ∈ vehicles, v.id = w.id → v = w) (factor : ℚ)
    (maxCycles date kind : ℤ) :
    vrpDoOptimize S M orders' vehicles' factor maxCycles date kind =
      vrpDoOptimize S M orders vehicles factor maxCycles date kind := by
  unfold vrpDoOptimize
  simp only [ho.length_eq_zero_iff, hv.length_eq_zero_iff, vehiclesToOptimize_eq hv hiv,
    ordersToOptimize_eq ho hio]

theorem optimizeMatrix_congr (S : Sorter) (args : OptimizeParameters)
    (hk : ConsistentKeys orders vehicles costs multipliers args.factor)
    (ho : SameMembers orders' orders) (hv : SameMembers vehicles' vehicles) (hc : costs'.Perm costs)
    (hm : multipliers'.Perm multipliers) :
    optimizeMatrix S orders' vehicles' costs' multipliers' args =
      optimizeMatrix S orders vehicles costs multipliers args := by
  unfold optimizeMatrix Matrix.ofMultipliers
  dsimp only
  rw [vehiclesToOptimize_eq hv hk.vehicleIds, ordersToOptimize_eq ho hk.orderIds,
    Matrix.setTdm_perm S hk.startTimes hm, BaseMatrix.ofCells_perm _ hk.pairs hk.fit hc]

/-- **The answer depends on the sets of the rows** of the orders and the vehicles, and not on the order
of the other rows. -/
theorem vrpOptimize_row_set (S : Sorter) (args : OptimizeParameters)
    (h : q.Fetches toUtc args.isEuclidean args.useTimestamps args.withStops orders vehicles costs
      multipliers) (hs : q.SameColumns)
    (hk : ConsistentKeys orders vehicles costs multipliers args.factor) (hp : q'.SameRows q) :
    vrpOptimize S toUtc q' args = vrpOptimize S toUtc q args := by
  obtain ⟨orders', vehicles', costs', multipliers', h', ho, hv, hc, hm⟩ := h.sameRows hs hp
  have hprocess := vrpDoOptimize_congr S (optimizeMatrix S orders vehicles costs multipliers args) ho
    hv hk.orderIds hk.vehicleIds args.factor args.maxCycles args.executionDate args.subdivisionKind
  unfold vrpOptimize withRows
  simp only [h.getOrders, h.getVehicles, h.getMatrix, h.getMultipliers, h'.getOrders, h'.getVehicles,
    h'.getMatrix, h'.getMultipliers, bind, Except.bind, ho.length_eq_zero_iff, hv.length_eq_zero_iff,
    hc.length_eq, optimizeMatrix_congr S args hk ho hv hc hm, hprocess]

end Answers

/-- The vehicle 7 with the stops of the order 1. -/
def stoppedVehicleTuple : Tuple :=
  smallVehicleTuple 7 100 ++ [("stops", .int8Array (some [some 1, some 1]))]

def optimizeQueries : Queries := { smallQueries with vehicles := [stoppedVehicleTuple] }

def optimizeParameters : OptimizeParameters := ⟨1, 1, 0, true, 0, false, false, false⟩

theorem optimizeQueries_fetches : optimizeQueries.Fetches (fun t => t) false false false
    [smallOrderData 1 100, smallOrderData 2 100] [smallVehicleData 7 [1, 1]] [⟨1, 2, 5⟩] [⟨0, 1⟩] :=
  ⟨by decide +kernel, by decide +kernel, by decide +kernel, by decide +kernel⟩

/-- The orders in the other order and one of them twice, and two copies of the vehicle. -/
theorem vrpOptimize_row_set_small :
    let q' : Queries := { optimizeQueries with
      orders := [smallOrderTuple 2 100, smallOrderTuple 1 100, smallOrderTuple 2 100]
      vehicles := [stoppedVehicleTuple, stoppedVehicleTuple] }
    vrpOptimize .insertion (fun t => t) q' optimizeParameters =
      vrpOptimize .insertion (fun t => t) optimizeQueries optimizeParameters := by
  intro q'
  have hp : q'.SameRows optimizeQueries := by
    refine ⟨fun t => ?_, fun t => ?_, .refl _, .refl _⟩
    · simp only [q', optimizeQueries, smallQueries, List.mem_cons, List.not_mem_nil, or_false]
      tauto
    · simp [q', optimizeQueries]
  exact vrpOptimize_row_set .insertion optimizeParameters optimizeQueries_fetches
    ⟨by decide +kernel, by decide +kernel, by decide +kernel, by decide +kernel⟩
    ⟨by decide, by decide, by decide, by decide +kernel, by decide⟩ hp

end Driver

end VrpRouting
