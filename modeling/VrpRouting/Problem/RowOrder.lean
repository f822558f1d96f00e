import VrpRouting.Common.Identifiers
import VrpRouting.Lib.Table
import VrpRouting.Problem.Cells

/-! # The order of the matrix rows

The constructor of `Base_Matrix` stores one row of the data after the other, and in the opposite
direction too when that is still missing; a later row of that direction takes its place again. It is
the filling of a table over the selected identifiers (`timeMatrix_ofCells`), so the matrix is the same
for every order of the rows. -/

namespace VrpRouting.BaseMatrix

/-- The entry of a row: its two identifiers and its scaled cost. -/
def entryBy (scaled : ℚ → ℤ) (data : MatrixCell) : (ℤ × ℤ) × ℤ :=
  ((data.fromVid, data.toVid), scaled data.cost)

/-- The entry with the exact product. -/
def entryOf (multiplier : ℚ) (data : MatrixCell) : (ℤ × ℤ) × ℤ :=
  entryBy (fun cost => toInterval (cost * multiplier)) data

/-- The scaled cost of the row from `a` to `b`. -/
def scaledCost (cells : List MatrixCell) (multiplier : ℚ) (a b : ℤ) : Option ℤ :=
  (cells.find? fun c => decide (c.fromVid = a ∧ c.toVid = b)).map fun c =>
    toInterval (c.cost * multiplier)

/-- The cell is missing. -/
def isMissing (val : ℤ) : Bool := decide (val = infinity)

section Rows
variable {scaled : ℚ → ℤ} {multiplier : ℚ}

/-- One row, as one entry of a table. -/
theorem store_eq (m : BaseMatrix) (i j : ℕ) (val : ℤ) :
    (if (m.setCell i j val).cell j i = infinity then
      (m.setCell i j val).setCell j i ((m.setCell i j val).cell i j) else m.setCell i j val) =
      { m with timeMatrix := Table.put 0 isMissing m.timeMatrix ((i, j), val) } := by
  unfold Table.put isMissing
  by_cases h : (m.setCell i j val).cell j i = infinity
  · have ht : decide (Table.cell 0 (Table.setCell m.timeMatrix i j val) j i = infinity) = true :=
      decide_eq_true h
    rw [if_pos h, if_pos ht]
    rfl
  · have ht : ¬ decide (Table.cell 0 (Table.setCell m.timeMatrix i j val) j i = infinity) = true := by
      rwa [decide_eq_true_iff]
    rw [if_neg h, if_neg ht]
    rfl

theorem getIndex_of_hasId {m : BaseMatrix} {id : ℤ} (h : m.hasId id = true) :
    m.getIndex id = some (m.lowerBound id) := by
  have hlt := (List.getElem?_eq_some_iff.mp (beq_iff_eq.mp h)).1
  rw [getIndex, if_neg (Nat.ne_of_lt hlt)]

theorem insertCellBy_eq (m : BaseMatrix) (data : MatrixCell) : m.insertCellBy scaled data =
    ((Table.locate m.ids (entryBy scaled data)).map fun r =>
      { m with timeMatrix := Table.put 0 isMissing m.timeMatrix r }).getD m := by
  unfold insertCellBy Table.locate
  by_cases hf : (m.hasId data.fromVid && m.hasId data.toVid) = true
  · obtain ⟨h1, h2⟩ := (Bool.and_eq_true _ _).mp hf
    rw [getIndex_of_hasId h1, getIndex_of_hasId h2, hf,
      if_pos (show (LowerBound.found m.ids (entryBy scaled data).1.1 &&
        LowerBound.found m.ids (entryBy scaled data).1.2) = true from hf)]
    exact store_eq m _ _ _
  · rw [if_neg (show ¬ (LowerBound.found m.ids (entryBy scaled data).1.1 &&
      LowerBound.found m.ids (entryBy scaled data).1.2) = true from hf), Bool.eq_false_iff.mpr hf]
    rfl

/-- The loop over the rows fills the table. -/
theorem foldl_insertCellBy (cells : List MatrixCell) (m : BaseMatrix) :
    cells.foldl (fun m data => m.insertCellBy scaled data) m =
      ⟨m.ids, Table.fill 0 isMissing m.timeMatrix
        ((cells.map (entryBy scaled)).filterMap (Table.locate m.ids))⟩ := by
  induction cells generalizing m with
  | nil => rfl
  | cons data cells ih =>
    rw [List.foldl_cons, insertCellBy_eq, List.map_cons, List.filterMap_cons]
    cases Table.locate m.ids (entryBy scaled data) with
    | none => exact ih m
    | some r => exact ih { m with timeMatrix := Table.put 0 isMissing m.timeMatrix r }

theorem foldl_diagonal (m : BaseMatrix) (n : ℕ) :
    (List.range n).foldl (fun m i => m.setCell i i 0) m =
      { m with timeMatrix := Table.setDiagonal 0 n m.timeMatrix } := by
  unfold Table.setDiagonal
  induction List.range n generalizing m with
  | nil => rfl
  | cons i l ih => exact ih (m.setCell i i 0)

/-- **The constructor fills a table** over the selected identifiers. -/
theorem ofCellsBy_eq (cells : List MatrixCell) (nodeIds : List ℤ) :
    ofCellsBy scaled cells nodeIds = ⟨nodeIds, Table.setDiagonal 0 nodeIds.length
      (Table.fillSelected 0 isMissing nodeIds infinity (cells.map (entryBy scaled)))⟩ := by
  unfold ofCellsBy
  rw [foldl_diagonal, foldl_insertCellBy]
  rfl

theorem ofCells_eq (cells : List MatrixCell) (nodeIds : List ℤ) :
    ofCells cells nodeIds multiplier = ⟨nodeIds, Table.setDiagonal 0 nodeIds.length
      (Table.fillSelected 0 isMissing nodeIds infinity (cells.map (entryOf multiplier)))⟩ :=
  ofCellsBy_eq cells nodeIds

theorem given_entryOf (cells : List MatrixCell) (a b : ℤ) :
    Table.given (cells.map (entryOf multiplier)) (a, b) = scaledCost cells multiplier a b := by
  unfold Table.given scaledCost
  rw [List.find?_map, Option.map_map]
  have hkey : ((fun r : (ℤ × ℤ) × ℤ => decide (r.1 = (a, b))) ∘ entryOf multiplier) =
      fun c => decide (c.fromVid = a ∧ c.toVid = b) := by
    funext c
    simp [entryOf, entryBy]
  rw [hkey]
  rfl

theorem square_ofCellsBy (cells : List MatrixCell) (nodeIds : List ℤ) :
    Table.Square nodeIds.length (ofCellsBy scaled cells nodeIds).timeMatrix := by
  rw [ofCellsBy_eq]
  exact (Table.square_fillSelected _ _).setDiagonal _ _

theorem square_ofCells (cells : List MatrixCell) (nodeIds : List ℤ) :
    Table.Square nodeIds.length (ofCells cells nodeIds multiplier).timeMatrix :=
  square_ofCellsBy cells nodeIds

/-- Off the diagonal the constructed matrix is the filled table. -/
theorem cell_ofCellsBy_eq (cells : List MatrixCell) (nodeIds : List ℤ) (i j : ℕ) :
    (ofCellsBy scaled cells nodeIds).cell i j = if i = j ∧ i < nodeIds.length then 0
      else Table.cell 0 (Table.fillSelected 0 isMissing nodeIds infinity
        (cells.map (entryBy scaled))) i j := by
  have hsquare : Table.Square nodeIds.length (Table.fillSelected 0 isMissing nodeIds infinity
      (cells.map (entryBy scaled))) := Table.square_fillSelected _ _
  rw [ofCellsBy_eq]
  exact Table.cell_setDiagonal hsquare 0 le_rfl i j

/-- Rows of other identifiers have no influence. -/
theorem ofCellsBy_filter (ids : Identifiers ℤ) (cells : List MatrixCell) :
    ofCellsBy scaled (cells.filter fun c => decide (c.fromVid ∈ ids ∧ c.toVid ∈ ids)) ids.ids =
      ofCellsBy scaled cells ids.ids := by
  rw [ofCellsBy_eq, ofCellsBy_eq, ← Table.fillSelected_filter infinity (cells.map (entryBy scaled)),
    List.filter_map]
  rfl

/-- No cell is negative when the cost of no selected row is. -/
theorem nonneg_ofCellsBy_selected {ids : Identifiers ℤ} {cells : List MatrixCell}
    (h : ∀ c ∈ cells, c.fromVid ∈ ids → c.toVid ∈ ids → 0 ≤ scaled c.cost) :
    (ofCellsBy scaled cells ids.ids).Nonneg := by
  rw [← ofCellsBy_filter]
  refine nonneg_ofCellsBy (fun c hc => ?_) _
  obtain ⟨hc, hids⟩ := List.mem_filter.mp hc
  exact h c hc (of_decide_eq_true hids).1 (of_decide_eq_true hids).2

/-- What the cells of the constructed matrix hold. -/
theorem cell_ofCells (ids : Identifiers ℤ) {cells : List MatrixCell}
    (hn : (cells.map fun c => (c.fromVid, c.toVid)).Nodup)
    (hfit : ∀ c ∈ cells, toInterval (c.cost * multiplier) < infinity) {i j : ℕ} {a b : ℤ}
    (ha : ids.ids[i]? = some a) (hb : ids.ids[j]? = some b) :
    (ofCells cells ids.ids multiplier).cell i j =
      if a = b then 0
      else ((scaledCost cells multiplier a b).or (scaledCost cells multiplier b a)).getD infinity := by
  have hi := (List.getElem?_eq_some_iff.mp ha).1
  have hkeys : ((cells.map (entryOf multiplier)).map Prod.fst).Nodup := by
    rw [List.map_map]
    exact hn
  have hval : ∀ w, Table.given (cells.map (entryOf multiplier)) (a, b) = some w →
      isMissing w = false := by
    intro w hw
    obtain ⟨c, hc, hcw⟩ := List.mem_map.mp ((Table.given_eq_some_iff hkeys).mp hw)
    obtain rfl := (Prod.mk.inj hcw).2
    exact decide_eq_false (hfit c hc).ne
  have hij : i = j ↔ a = b := by
    constructor
    · rintro rfl
      exact Option.some.inj (ha.symm.trans hb)
    · rintro rfl
      rw [← LowerBound.lowerBound_of_getElem? ids.sorted ha,
        LowerBound.lowerBound_of_getElem? ids.sorted hb]
  have hmissing : isMissing infinity = true := rfl
  have hcell := Table.cell_fillSelected (d := 0) ids.sorted hmissing hkeys ha hb hval
  rw [given_entryOf, given_entryOf] at hcell
  exact (cell_ofCellsBy_eq cells ids.ids i j).trans
    (if_congr (by rw [hij, and_iff_left hi]) rfl hcell)

end Rows

/-- **The matrix does not depend on the order of its rows.** Each cell holds its own scaled cost, else
that of the opposite direction, else `infinity`; rows of other identifiers have no influence. -/
theorem ofCells_row_order (ids : Identifiers ℤ) {multiplier : ℚ} {cells : List MatrixCell}
    (hn : (cells.map fun c => (c.fromVid, c.toVid)).Nodup)
    (hfit : ∀ c ∈ cells, toInterval (c.cost * multiplier) < infinity) :
    (∀ cells', cells'.Perm cells →
      ofCells cells' ids.ids multiplier = ofCells cells ids.ids multiplier) ∧
    (∀ i j a b, ids.ids[i]? = some a → ids.ids[j]? = some b →
      (ofCells cells ids.ids multiplier).cell i j =
        if a = b then 0
        else ((scaledCost cells multiplier a b).or (scaledCost cells multiplier b a)).getD infinity) ∧
    ofCells (cells.filter fun c => decide (c.fromVid ∈ ids ∧ c.toVid ∈ ids)) ids.ids multiplier =
      ofCells cells ids.ids multiplier := by
  refine ⟨fun cells' hp => ?_, fun i j a b ha hb => cell_ofCells ids hn hfit ha hb, ?_⟩
  · have hn' : (cells'.map fun c => (c.fromVid, c.toVid)).Nodup := (hp.map _).nodup_iff.mpr hn
    have hfit' : ∀ c ∈ cells', toInterval (c.cost * multiplier) < infinity := fun c hc =>
      hfit c (hp.mem_iff.mp hc)
    have htimes : (ofCells cells' ids.ids multiplier).timeMatrix =
        (ofCells cells ids.ids multiplier).timeMatrix := by
      refine Table.ext_cell (d := 0) (square_ofCells _ _) (square_ofCells _ _) fun i hi j hj => ?_
      have ha := List.getElem?_eq_getElem hi
      have hb := List.getElem?_eq_getElem hj
      have hcost : ∀ a b, scaledCost cells' multiplier a b = scaledCost cells multiplier a b := by
        intro a b
        rw [← given_entryOf, ← given_entryOf]
        exact Table.given_perm (by rwa [List.map_map]) (hp.map _)
      have hleft := cell_ofCells ids hn' hfit' ha hb
      rw [hcost, hcost, ← cell_ofCells ids hn hfit ha hb] at hleft
      exact hleft
    rw [ofCells_eq, ofCells_eq] at htimes ⊢
    exact congrArg (BaseMatrix.mk ids.ids) htimes
  · exact ofCellsBy_filter ids cells

/-- Both directions are given, in either order. -/
theorem ofCells_row_order_small :
    ofCells [⟨2, 1, 7⟩, ⟨1, 2, 5⟩] (((Identifiers.empty.insert 1).insert 2 : Identifiers ℤ)).ids 2 =
      ofCells [⟨1, 2, 5⟩, ⟨2, 1, 7⟩] ((Identifiers.empty.insert 1).insert 2).ids 2 :=
  (ofCells_row_order _ (by decide) (by decide +kernel)).1 _ (.swap _ _ _)

end VrpRouting.BaseMatrix
