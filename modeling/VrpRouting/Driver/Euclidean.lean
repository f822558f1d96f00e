import Mathlib.Data.Prod.Lex
import VrpRouting.Driver.PgrPickDeliver
import VrpRouting.Problem.Points

/-! # The driver of `pgr_pickDeliverEuclidean`

The rows have coordinates in place of node identifiers. The driver numbers the distinct points from 0
on, in the order of a map from points to identifiers, and makes the matrix from their distances: two
sites have the same identifier exactly when they have the same coordinates
(`matrixData_numbers`), and the travel time between the identifiers of two points is their scaled
distance (`travelTime_matrixData`). -/

open Sorting

namespace VrpRouting

/-- An order with the coordinates of its sites. -/
structure LocatedOrder extends OrdersT where
  pick : ℚ × ℚ
  deliver : ℚ × ℚ
deriving DecidableEq

/-- A vehicle with the coordinates of its sites. -/
structure LocatedVehicle extends VehicleT where
  start : ℚ × ℚ
  finish : ℚ × ℚ
deriving DecidableEq

/-- The order with the identifiers of its sites. -/
def LocatedOrder.setNodes (id : ℚ × ℚ → ℤ) (o : LocatedOrder) : OrdersT :=
  { o.toOrdersT with pickNodeId := id o.pick, deliverNodeId := id o.deliver }

/-- The vehicle with the identifiers of its sites. -/
def LocatedVehicle.setNodes (id : ℚ × ℚ → ℤ) (v : LocatedVehicle) : VehicleT :=
  { v.toVehicleT with startNodeId := id v.start, endNodeId := id v.finish }

namespace Pgget

section Fetchers
variable (toUtc : ℤ → ℤ)

/-- The coordinates of a site. -/
def fetchPoint (tuple : Tuple) (x y : Info) (opt : ℚ × ℚ) : Except Fault (ℚ × ℚ) := do
  let px ← tuple.getAnynumerical x opt.1
  let py ← tuple.getAnynumerical y opt.2
  return (px, py)

/-- `fetch_orders` with the coordinates that it reads. -/
def fetchLocatedOrders (info : List Info) (tuple : Tuple) : Except Fault LocatedOrder := do
  let col (i : ℕ) := info.getD i default
  let data ← fetchOrders toUtc true info tuple
  let pick ← fetchPoint tuple (col 3) (col 4) 0
  let deliver ← fetchPoint tuple (col 9) (col 10) 0
  return { data with pick, deliver }

/-- `fetch_vehicles` with the coordinates that it reads; the end of a vehicle is at its start by
default. -/
def fetchLocatedVehicles (info : List Info) (tuple : Tuple) : Except Fault LocatedVehicle := do
  let col (i : ℕ) := info.getD i default
  let data ← fetchVehicles toUtc true info tuple
  let start ← fetchPoint tuple (col 5) (col 6) 0
  let finish ← fetchPoint tuple (col 11) (col 12) start
  return { data with start, finish }

end Fetchers

end Pgget

namespace Driver

open Pgget

/-! ### The identifiers of the points -/

section Points
variable (orders : List LocatedOrder) (vehicles : List LocatedVehicle)

/-- The keys of `matrix_data`, in the order of the map. -/
def pointsOf : Identifiers (ℚ ×ₗ ℚ) :=
  vehicles.foldl (fun s v => (s.insert (toLex v.start)).insert (toLex v.finish))
    (orders.foldl (fun s o => (s.insert (toLex o.pick)).insert (toLex o.deliver)) .empty)

/-- `matrix_data` with its identifiers. -/
def matrixData : List ((ℚ × ℚ) × ℤ) :=
  (pointsOf orders vehicles).ids.mapIdx fun i p => (ofLex p, (i : ℤ))

/-- `matrix_data[p]`. -/
def idOf (data : List ((ℚ × ℚ) × ℤ)) (p : ℚ × ℚ) : ℤ :=
  ((data.find? fun e => decide (e.1 = p)).map Prod.snd).getD 0

end Points

section Driver
variable (S : Sorter) (sqrt : ℚ → ℚ) (toUtc : ℤ → ℤ) (fuel : ℕ)

/-- `vrp_do_pgr_pickDeliverEuclidean` behind the data input. -/
def processEuclidean (orders : List LocatedOrder) (vehicles : List LocatedVehicle)
    (args : PgrParameters) : Except Fault (Option (Reply SolutionRt)) :=
  let data := matrixData orders vehicles
  solve S (.ofPoints (getDistance sqrt) data args.factor) fuel
    (orders.map (LocatedOrder.setNodes (idOf data)))
    (vehicles.map (LocatedVehicle.setNodes (idOf data))) args.maxCycles args.initialSolutionId.toNat

/-- `vrp_do_pgr_pickDeliverEuclidean`. -/
def vrpDoPgrPickDeliverEuclidean (ordersRows vehiclesRows : List Tuple) (args : PgrParameters) :
    Except Fault (Option (Reply SolutionRt)) :=
  match args.illegal with
  | some text => .ok (some (.err text))
  | none => caught (some ∘ .err) (
    withRows (some (.notice "Insufficient data found on 'orders' inner query"))
      (getData (ordersInfo true false) (fetchLocatedOrders toUtc (ordersInfo true false))
        ordersRows) fun orders =>
    withRows (some (.notice "Insufficient data found on 'vehicles' inner query"))
      (getData (vehiclesInfo true false false)
        (fetchLocatedVehicles toUtc (vehiclesInfo true false false)) vehiclesRows) fun vehicles =>
    processEuclidean S sqrt fuel orders vehicles args)

end Driver

/-! ### What the identifiers say -/

section Points
variable {orders : List LocatedOrder} {vehicles : List LocatedVehicle}

/-- The coordinates of a site. -/
def IsSite (orders : List LocatedOrder) (vehicles : List LocatedVehicle) (p : ℚ × ℚ) : Prop :=
  (∃ o ∈ orders, p = o.pick ∨ p = o.deliver) ∨ ∃ v ∈ vehicles, p = v.start ∨ p = v.finish

theorem mem_pointsOf {p : ℚ × ℚ} :
    toLex p ∈ pointsOf orders vehicles ↔ IsSite orders vehicles p := by
  have ho := Identifiers.mem_foldl_foldl_insert
    (fun o : LocatedOrder => [toLex o.pick, toLex o.deliver]) (z := toLex p) orders .empty
  have hv := fun s => Identifiers.mem_foldl_foldl_insert
    (fun v : LocatedVehicle => [toLex v.start, toLex v.finish]) (z := toLex p) vehicles s
  simp only [List.foldl_cons, List.foldl_nil, Identifiers.not_mem_empty, false_or,
    List.mem_pair, EmbeddingLike.apply_eq_iff_eq] at ho hv
  unfold pointsOf IsSite
  rw [hv, ho]

/-- The identifiers are the positions. -/
theorem getElem?_matrixData {i : ℕ} {p : ℚ × ℚ} (h : (pointsOf orders vehicles).ids[i]? = some (toLex p)) :
    (matrixData orders vehicles)[i]? = some (p, (i : ℤ)) := by
  unfold matrixData
  rw [List.getElem?_mapIdx, h]
  rfl

theorem keys_matrixData : (matrixData orders vehicles).map Prod.fst =
    (pointsOf orders vehicles).ids.map ofLex := by
  unfold matrixData
  exact List.ext_getElem (by simp) fun i _ _ => by simp

theorem ids_matrixData : (matrixData orders vehicles).map Prod.snd =
    (List.range (pointsOf orders vehicles).size).map Int.ofNat := by
  unfold matrixData
  exact List.ext_getElem (by simp [Identifiers.size]) fun i _ _ => by simp

theorem pairwise_ids_matrixData : ((matrixData orders vehicles).map Prod.snd).Pairwise (· < ·) := by
  rw [ids_matrixData]
  exact List.pairwise_map.mpr (List.pairwise_lt_range.imp fun h => Int.ofNat_lt.mpr h)

/-- The identifier of an entry is found by its point. -/
theorem idOf_of_entry {i : ℕ} {p : ℚ × ℚ}
    (h : (matrixData orders vehicles)[i]? = some (p, (i : ℤ))) :
    idOf (matrixData orders vehicles) p = i := by
  have hkeys : ((matrixData orders vehicles).map Prod.fst).Nodup := by
    rw [keys_matrixData]
    exact (Identifiers.nodup _).map ofLex.injective
  have hgiven : Table.given (matrixData orders vehicles) p = some (i : ℤ) :=
    (Table.given_eq_some_iff hkeys).mpr (List.mem_of_getElem? h)
  show (Table.given (matrixData orders vehicles) p).getD 0 = i
  rw [hgiven]
  rfl

/-- The entry of a site is at the position that is its identifier. -/
theorem exists_site_entry {p : ℚ × ℚ} (hp : IsSite orders vehicles p) :
    ∃ i : ℕ, (matrixData orders vehicles)[i]? = some (p, (i : ℤ)) ∧
      idOf (matrixData orders vehicles) p = i := by
  obtain ⟨i, hi⟩ := List.mem_iff_getElem?.mp (mem_pointsOf.mpr hp)
  have hentry := getElem?_matrixData hi
  exact ⟨i, hentry, idOf_of_entry hentry⟩

/-- Two sites have the same identifier exactly when they have the same coordinates. -/
theorem idOf_eq_iff {p q : ℚ × ℚ} (hp : IsSite orders vehicles p) (hq : IsSite orders vehicles q) :
    idOf (matrixData orders vehicles) p = idOf (matrixData orders vehicles) q ↔ p = q := by
  obtain ⟨i, hi, hidp⟩ := exists_site_entry hp
  obtain ⟨j, hj, hidq⟩ := exists_site_entry hq
  rw [hidp, hidq]
  refine ⟨fun h => ?_, fun h => ?_⟩
  · obtain rfl := Int.ofNat_inj.mp h
    rw [hi] at hj
    exact congrArg Prod.fst (Option.some.inj hj)
  · subst h
    exact hidp.symm.trans hidq

/-- The travel time between the identifiers of two sites is their scaled distance. -/
theorem travelTime_matrixData {distance : ℚ × ℚ → ℚ × ℚ → ℚ} (hd : ∀ p q, distance p q = distance q p)
    (factor : ℚ) {p q : ℚ × ℚ} (hp : IsSite orders vehicles p) (hq : IsSite orders vehicles q)
    (time : ℤ) :
    let data := matrixData orders vehicles
    (Matrix.ofPoints distance data factor).travelTime? (idOf data p) (idOf data q) time =
      some (if p = q then 0 else toInterval (distance p q * factor)) := by
  intro data
  obtain ⟨i, hi, hidp⟩ := exists_site_entry hp
  obtain ⟨j, hj, hidq⟩ := exists_site_entry hq
  have hids : (BaseMatrix.ofPoints distance data factor).ids = data.map Prod.snd := by
    rw [BaseMatrix.timeMatrix_ofPoints pairwise_ids_matrixData]
  have hindex : ∀ {k : ℕ} {r}, data[k]? = some (r, (k : ℤ)) →
      (Matrix.ofPoints distance data factor).getIndex k = some k := by
    intro k r hk
    have hkey : (data.map Prod.snd)[k]? = some (k : ℤ) := by simp [hk]
    have hpos : LowerBound.lowerBound (data.map Prod.snd) (k : ℤ) = k :=
      LowerBound.lowerBound_of_getElem? pairwise_ids_matrixData hkey
    show LowerBound.position? (BaseMatrix.ofPoints distance data factor).ids k = some k
    rw [hids]
    exact LowerBound.position?_eq_some_iff.mpr ⟨hpos, (List.getElem?_eq_some_iff.mp hkey).1⟩
  have hcell := BaseMatrix.cell_ofPoints distance factor pairwise_ids_matrixData hd hi hj
  have hij : i = j ↔ p = q := by
    rw [← idOf_eq_iff hp hq, hidp, hidq]
    exact Int.ofNat_inj.symm
  unfold Matrix.travelTime? Matrix.travelTimeBy?
  rw [hidp, hidq, hindex hi, hindex hj]
  show some ((BaseMatrix.ofPoints distance data factor).cell i j) = _
  rw [hcell]
  simp only [hij]

end Points

end Driver

end VrpRouting
