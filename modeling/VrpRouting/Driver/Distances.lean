import VrpRouting.Driver.Euclidean
import VrpRouting.Driver.InputOrder

/-! # The Euclidean driver is the matrix driver on a table of distances

The Euclidean driver has no matrix query. It does what the driver with a matrix does on its numbered
rows, when the matrix query returns the scaled distance of every two points
(`processEuclidean_eq`). -/

open Sorting

namespace VrpRouting.Driver

open BaseMatrix (pairsOf mem_pairsOf)

/-- The scaled distance of every two points, as rows of a matrix query. -/
def distanceCells (distance : ℚ × ℚ → ℚ × ℚ → ℚ) (factor : ℚ) (data : List ((ℚ × ℚ) × ℤ)) :
    List MatrixCell :=
  (pairsOf data).map fun r => ⟨r.1.2, r.2.2, toInterval (distance r.1.1 r.2.1 * factor)⟩

section Cells
variable {distance : ℚ × ℚ → ℚ × ℚ → ℚ} {factor : ℚ} {data : List ((ℚ × ℚ) × ℤ)}
  (hs : (data.map Prod.snd).Pairwise (· < ·))
include hs

theorem nodup_distanceCells : ((distanceCells distance factor data).map fun c =>
    (c.fromVid, c.toVid)).Nodup := by
  have hids : (data.map Prod.snd).Nodup := hs.imp ne_of_lt
  have hinj : ∀ x ∈ data, ∀ y ∈ data, x.2 = y.2 → x = y := List.inj_on_of_nodup_map hids
  have hpairs : (pairsOf data).Nodup := hids.of_map.product hids.of_map
  unfold distanceCells
  rw [List.map_map]
  refine List.Nodup.map_on (fun x hx y hy hxy => ?_) hpairs
  obtain ⟨h1, h2⟩ := Prod.mk.inj hxy
  obtain ⟨hx1, hx2⟩ := mem_pairsOf.mp hx
  obtain ⟨hy1, hy2⟩ := mem_pairsOf.mp hy
  exact Prod.ext (hinj _ hx1 _ hy1 h1) (hinj _ hx2 _ hy2 h2)

theorem scaledCost_distanceCells {p q : (ℚ × ℚ) × ℤ} (hp : p ∈ data) (hq : q ∈ data) :
    BaseMatrix.scaledCost (distanceCells distance factor data) 1 p.2 q.2 =
      some (toInterval (distance p.1 q.1 * factor)) := by
  rw [← BaseMatrix.given_entryOf]
  have hkeys : (((distanceCells distance factor data).map (BaseMatrix.entryOf 1)).map
      Prod.fst).Nodup := by
    rw [List.map_map]
    exact nodup_distanceCells hs
  have hcell : (⟨p.2, q.2, toInterval (distance p.1 q.1 * factor)⟩ : MatrixCell) ∈
      distanceCells distance factor data :=
    List.mem_map.mpr ⟨(p, q), mem_pairsOf.mpr ⟨hp, hq⟩, rfl⟩
  refine (Table.given_eq_some_iff hkeys).mpr (List.mem_map.mpr ⟨_, hcell, ?_⟩)
  simp [BaseMatrix.entryOf, BaseMatrix.entryBy, toInterval_intCast]

/-- The distances fit into the cells. -/
def DistancesFit (distance : ℚ × ℚ → ℚ × ℚ → ℚ) (factor : ℚ) (data : List ((ℚ × ℚ) × ℤ)) : Prop :=
  ∀ p ∈ data, ∀ q ∈ data, toInterval (distance p.1 q.1 * factor) < infinity

variable (hd : ∀ p q, distance p q = distance q p) (hfit : DistancesFit distance factor data)
include hd hfit

/-- **The two constructors make the same matrix.** -/
theorem ofCells_distanceCells :
    BaseMatrix.ofCells (distanceCells distance factor data) (data.map Prod.snd) 1 =
      BaseMatrix.ofPoints distance data factor := by
  have hlen : (data.map Prod.snd).length = data.length := List.length_map _
  have hcells : ∀ c ∈ distanceCells distance factor data, toInterval (c.cost * 1) < infinity := by
    intro c hc
    obtain ⟨r, hr, rfl⟩ := List.mem_map.mp hc
    obtain ⟨hp, hq⟩ := mem_pairsOf.mp hr
    simp only [mul_one, toInterval_intCast]
    exact hfit _ hp _ hq
  have htimes : (BaseMatrix.ofCells (distanceCells distance factor data) (data.map Prod.snd) 1).timeMatrix =
      (BaseMatrix.ofPoints distance data factor).timeMatrix := by
    refine Table.ext_cell (d := 0) (BaseMatrix.square_ofCells _ _)
      (hlen ▸ BaseMatrix.square_ofPoints hs distance factor) fun i hi j hj => ?_
    have hpi : data[i]? = some data[i] := List.getElem?_eq_getElem (hlen ▸ hi)
    have hpj : data[j]? = some data[j] := List.getElem?_eq_getElem (hlen ▸ hj)
    have hids : ∀ {k : ℕ} {r : (ℚ × ℚ) × ℤ}, data[k]? = some r → (data.map Prod.snd)[k]? = some r.2 := by
      intro k r h
      simp [h]
    have hleft := BaseMatrix.cell_ofCells ⟨data.map Prod.snd, hs⟩ (nodup_distanceCells hs) hcells
      (hids hpi) (hids hpj)
    have hright := BaseMatrix.cell_ofPoints distance factor hs hd hpi hpj
    have hij : i = j ↔ data[i].2 = data[j].2 := by
      constructor
      · rintro rfl
        rfl
      · intro h
        rw [← BaseMatrix.position_of_point hs hpi, ← BaseMatrix.position_of_point hs hpj, h]
    rw [scaledCost_distanceCells hs (List.getElem_mem _) (List.getElem_mem _)] at hleft
    refine hleft.trans (Eq.trans ?_ hright.symm)
    simp only [hij, Option.some_or, Option.getD_some]
  rw [BaseMatrix.ofCells_eq, BaseMatrix.timeMatrix_ofPoints hs] at htimes ⊢
  exact congrArg (BaseMatrix.mk (data.map Prod.snd)) htimes

/-- No cell is missing. -/
theorem verifyCells_ofPoints :
    verifyCells (Matrix.ofPoints distance data factor) = .ok (.ofPoints distance data factor) := by
  have hsquare := BaseMatrix.square_ofPoints hs distance factor
  have hnone : (Matrix.ofPoints distance data factor).hasNoInfinity = true := by
    by_contra hno
    have hany : ((BaseMatrix.ofPoints distance data factor).timeMatrix.any fun row =>
        row.any fun val => !(val != infinity)) = true := by
      rw [List.any_eq_not_all_not]
      simp only [Matrix.ofPoints, BaseMatrix.hasNoInfinity] at hno
      simpa [List.any_eq_not_all_not] using hno
    obtain ⟨i, hi, j, hj, hcell⟩ := (Table.any_any_iff (d := 0) hsquare _).mp hany
    have hpi : data[i]? = some data[i] := List.getElem?_eq_getElem hi
    have hpj : data[j]? = some data[j] := List.getElem?_eq_getElem hj
    have heq := BaseMatrix.cell_ofPoints distance factor hs hd hpi hpj
    have hlt := hfit _ (List.getElem_mem hi) _ (List.getElem_mem hj)
    have hinf : Table.cell 0 (BaseMatrix.ofPoints distance data factor).timeMatrix i j = infinity := by
      simpa using hcell
    have hinf : (BaseMatrix.ofPoints distance data factor).cell i j = infinity := hinf
    rw [heq] at hinf
    split_ifs at hinf
    · exact absurd hinf (by decide)
    · exact absurd hinf hlt.ne
  unfold verifyCells
  rw [hnone]
  rfl

end Cells

/-! ### The drivers -/

section Drivers
variable {orders : List LocatedOrder} {vehicles : List LocatedVehicle}

/-- The nodes of rows that get their nodes from the sites. -/
theorem mem_nodeIds_setNodes (id : ℚ × ℚ → ℤ) {x : ℤ} :
    x ∈ nodeIds (orders.map (LocatedOrder.setNodes id)) (vehicles.map (LocatedVehicle.setNodes id)) ↔
      ∃ p, IsSite orders vehicles p ∧ x = id p := by
  rw [mem_nodeIds]
  constructor
  · rintro (⟨_, ho, h⟩ | ⟨_, hv, h⟩)
    · obtain ⟨o, hmem, rfl⟩ := List.mem_map.mp ho
      rcases h with rfl | rfl
      · exact ⟨o.pick, Or.inl ⟨o, hmem, Or.inl rfl⟩, rfl⟩
      · exact ⟨o.deliver, Or.inl ⟨o, hmem, Or.inr rfl⟩, rfl⟩
    · obtain ⟨v, hmem, rfl⟩ := List.mem_map.mp hv
      rcases h with rfl | rfl
      · exact ⟨v.start, Or.inr ⟨v, hmem, Or.inl rfl⟩, rfl⟩
      · exact ⟨v.finish, Or.inr ⟨v, hmem, Or.inr rfl⟩, rfl⟩
  · rintro ⟨p, ⟨o, ho, rfl | rfl⟩ | ⟨v, hv, rfl | rfl⟩, rfl⟩
    · exact Or.inl ⟨_, List.mem_map_of_mem ho, Or.inl rfl⟩
    · exact Or.inl ⟨_, List.mem_map_of_mem ho, Or.inr rfl⟩
    · exact Or.inr ⟨_, List.mem_map_of_mem hv, Or.inl rfl⟩
    · exact Or.inr ⟨_, List.mem_map_of_mem hv, Or.inr rfl⟩

/-- Every identifier is that of a site. -/
theorem mem_ids_matrixData {x : ℤ} : x ∈ (matrixData orders vehicles).map Prod.snd ↔
    ∃ p, IsSite orders vehicles p ∧ x = idOf (matrixData orders vehicles) p := by
  constructor
  · intro hx
    rw [ids_matrixData] at hx
    obtain ⟨i, hi, rfl⟩ := List.mem_map.mp hx
    have hlt : i < (pointsOf orders vehicles).ids.length := List.mem_range.mp hi
    have hget := List.getElem?_eq_getElem hlt
    exact ⟨_, mem_pointsOf.mp (List.getElem_mem hlt),
      (idOf_of_entry (getElem?_matrixData hget)).symm⟩
  · rintro ⟨p, hp, rfl⟩
    obtain ⟨i, hi, hid⟩ := exists_site_entry hp
    rw [hid]
    exact List.mem_map.mpr ⟨_, List.mem_of_getElem? hi, rfl⟩

/-- The nodes of the numbered rows are all the identifiers. -/
theorem nodeIds_setNodes :
    (nodeIds (orders.map (LocatedOrder.setNodes (idOf (matrixData orders vehicles))))
      (vehicles.map (LocatedVehicle.setNodes (idOf (matrixData orders vehicles))))).ids =
      (matrixData orders vehicles).map Prod.snd := by
  have hset : nodeIds (orders.map (LocatedOrder.setNodes (idOf (matrixData orders vehicles))))
      (vehicles.map (LocatedVehicle.setNodes (idOf (matrixData orders vehicles)))) =
      ⟨(matrixData orders vehicles).map Prod.snd, pairwise_ids_matrixData⟩ :=
    Identifiers.ext_iff.mpr fun x => (mem_nodeIds_setNodes _).trans mem_ids_matrixData.symm
  rw [hset]

/-- **What the numbers of the points say.** They are those from 0 on, one for each point that is a
site; and the travel time between the numbers of two sites is their scaled distance. -/
theorem matrixData_numbers (orders : List LocatedOrder) (vehicles : List LocatedVehicle)
    (sqrt : ℚ → ℚ) (factor : ℚ) :
    let data := matrixData orders vehicles
    data.map Prod.snd = (List.range data.length).map Int.ofNat ∧
    (∀ p, p ∈ data.map Prod.fst ↔ IsSite orders vehicles p) ∧
    ∀ p q, IsSite orders vehicles p → IsSite orders vehicles q →
      (idOf data p = idOf data q ↔ p = q) ∧
      ∀ time, (Matrix.ofPoints (getDistance sqrt) data factor).travelTime? (idOf data p) (idOf data q)
          time = some (if p = q then 0 else toInterval (getDistance sqrt p q * factor)) := by
  intro data
  have hlen : data.length = (pointsOf orders vehicles).size := List.length_mapIdx
  refine ⟨?_, fun p => ?_, fun p q hp hq => ⟨idOf_eq_iff hp hq, fun time => ?_⟩⟩
  · rw [hlen]
    exact ids_matrixData
  · rw [keys_matrixData, ← mem_pointsOf]
    constructor
    · intro h
      obtain ⟨x, hx, rfl⟩ := List.mem_map.mp h
      exact hx
    · intro h
      exact List.mem_map.mpr ⟨_, h, rfl⟩
  · exact travelTime_matrixData (getDistance_comm sqrt) factor hp hq time

/-- **The Euclidean driver does what the driver with a matrix does** on the numbered rows and the
table of scaled distances, with the factor 1. -/
theorem processEuclidean_eq (S : Sorter) (sqrt : ℚ → ℚ) (fuel : ℕ) (args : PgrParameters)
    (hfit : DistancesFit (getDistance sqrt) args.factor (matrixData orders vehicles)) :
    let data := matrixData orders vehicles
    processEuclidean S sqrt fuel orders vehicles args =
      processPgrPickDeliver S fuel (orders.map (LocatedOrder.setNodes (idOf data)))
        (vehicles.map (LocatedVehicle.setNodes (idOf data)))
        (distanceCells (getDistance sqrt) args.factor data) { args with factor := 1 } := by
  intro data
  have hcomm := getDistance_comm sqrt
  have hmatrix : Matrix.ofCells (distanceCells (getDistance sqrt) args.factor data)
      (data.map Prod.snd) 1 = .ofPoints (getDistance sqrt) data args.factor := by
    unfold Matrix.ofCells Matrix.ofPoints
    rw [ofCells_distanceCells pairwise_ids_matrixData hcomm hfit]
  unfold processPgrPickDeliver
  rw [nodeIds_setNodes, hmatrix, verifyCells_ofPoints pairwise_ids_matrixData hcomm hfit]
  rfl

end Drivers

/-! ### A small problem in the plane -/

/-- The row of an order from the point (0, 0) to the point (3, 4). -/
def smallPointsOrderTuple (id : ℤ) : Tuple :=
  [("id", .int8 (some (.ofInt id))), ("amount", .int4 (some 1)), ("p_x", .int4 (some 0)),
    ("p_y", .int4 (some 0)), ("p_open", .int8 (some 0)), ("p_close", .int8 (some 100)),
    ("d_x", .int4 (some 3)), ("d_y", .int4 (some 4)), ("d_open", .int8 (some 0)),
    ("d_close", .int8 (some 100))]

/-- The row of a vehicle of capacity 1 at the point (0, 0). -/
def smallPointsVehicleTuple (id : ℤ) : Tuple :=
  [("id", .int8 (some (.ofInt id))), ("capacity", .int4 (some 1)), ("s_x", .int4 (some 0)),
    ("s_y", .int4 (some 0)), ("s_open", .int8 (some 0)), ("s_close", .int8 (some 100))]

def smallLocatedOrder (id : ℤ) : LocatedOrder := ⟨smallOrderData id 100, (0, 0), (3, 4)⟩

def smallLocatedVehicle (id : ℤ) : LocatedVehicle := ⟨smallVehicleData id [], (0, 0), (0, 0)⟩

/-- The square root at the two values that occur. -/
def smallSqrt (x : ℚ) : ℚ := if x = 25 then 5 else 0

theorem matrixData_numbers_small :
    let data := matrixData [smallLocatedOrder 1] [smallLocatedVehicle 7]
    (Matrix.ofPoints (getDistance smallSqrt) data 2).travelTime? (idOf data (0, 0)) (idOf data (3, 4)) 0 =
      some 10 := by
  intro data
  have h := (matrixData_numbers [smallLocatedOrder 1] [smallLocatedVehicle 7] smallSqrt 2).2.2
    (0, 0) (3, 4) (by simp [IsSite, smallLocatedOrder]) (by simp [IsSite, smallLocatedOrder])
  refine (h.2 0).trans ?_
  decide +kernel

theorem processEuclidean_eq_small :
    let data := matrixData [smallLocatedOrder 1] [smallLocatedVehicle 7]
    processEuclidean .insertion smallSqrt 3 [smallLocatedOrder 1] [smallLocatedVehicle 7] ⟨2, 1, 4⟩ =
      processPgrPickDeliver .insertion 3 [(smallLocatedOrder 1).setNodes (idOf data)]
        [(smallLocatedVehicle 7).setNodes (idOf data)]
        (distanceCells (getDistance smallSqrt) 2 data) ⟨1, 1, 4⟩ :=
  processEuclidean_eq .insertion smallSqrt 3 ⟨2, 1, 4⟩ (by unfold DistancesFit; decide +kernel)

end VrpRouting.Driver
