import VrpRouting.Vroom.Matrix

/-! # The rows of the VROOM matrix

When the matrix of the VROOM functions is faithful to its rows. A row is stored as it is when its
scaled duration and its cost are below the largest 32-bit number, which stands for infinity
(`Stored`). A pair of locations without a row makes the constructor throw, whatever the other rows
are; without such a pair, the matrix is faithful exactly when all rows between different locations
are stored as they are (`construct_faithful_iff`). -/

namespace VrpRouting.Vroom.Matrix

section Rows
variable (D : DurationCast) (scalingFactor : ℚ) (rows : List VroomMatrixT) (ids : Identifiers ℤ)

/-- The row from `a` to `b`. -/
def givenRow (a b : ℤ) : Option VroomMatrixT :=
  rows.find? fun row => decide (row.startId = a ∧ row.endId = b)

/-- The row from `a` to `b`, else the opposite one. -/
def rowFor (a b : ℤ) : Option VroomMatrixT := (givenRow rows a b).or (givenRow rows b a)

/-- Two different locations have no row in either direction. -/
def MissingRow : Prop := ∃ a ∈ ids, ∃ b ∈ ids, a ≠ b ∧ rowFor rows a b = none

/-- The scaled duration and the cost are below the largest 32-bit number. -/
def Stored (row : VroomMatrixT) : Prop :=
  round (row.duration.toNat / scalingFactor : ℚ) < maxUInt32.toNat ∧ row.cost ≠ maxUInt32

instance (row : VroomMatrixT) : Decidable (Stored scalingFactor row) :=
  inferInstanceAs (Decidable (_ ∧ _))

/-- The matrix is faithful to its rows: the constructor throws exactly when a row is missing, and
otherwise the duration between two locations is that of the row for them, scaled and rounded, and the
cost is that of the row; another order of the rows changes nothing. -/
structure Faithful : Prop where
  throws_iff : (∃ e, construct D scalingFactor rows ids = .error e) ↔ MissingRow rows ids
  values : ∀ m, construct D scalingFactor rows ids = .ok m → ∀ i j a b,
    ids.ids[i]? = some a → ids.ids[j]? = some b → a ≠ b → ∃ row, rowFor rows a b = some row ∧
      ((m.duration i j).toNat : ℤ) = round (row.duration.toNat / scalingFactor : ℚ) ∧
      m.cost i j = row.cost
  order : ∀ rows', rows'.Perm rows →
    construct D scalingFactor rows' ids = construct D scalingFactor rows ids

end Rows

section Table
variable {D : DurationCast} {scalingFactor : ℚ} {rows : List VroomMatrixT} {ids : Identifiers ℤ}

/-- The entry of a row: its two locations and the pair that is stored. -/
def entryOf (D : DurationCast) (scalingFactor : ℚ) (row : VroomMatrixT) : (ℤ × ℤ) × ℤ × UInt32 :=
  ((row.startId, row.endId), scaled D scalingFactor row)

/-- The cost of the pair is missing. -/
def isMissing (val : ℤ × UInt32) : Bool := decide (val.2 = maxUInt32)

/-- The pair of a missing row. -/
def infinite : ℤ × UInt32 := (maxUInt32.toNat, maxUInt32)

theorem insertRow_eq (m : Matrix) (t : VMatrix) (row : VroomMatrixT) :
    m.insertRow D scalingFactor t row =
      ((Table.locate m.ids.ids (entryOf D scalingFactor row)).map (Table.put (0, 0) isMissing t)).getD
        t := by
  have hindex : ∀ {id : ℤ}, m.hasId id = true →
      m.getIndex id = some (LowerBound.lowerBound m.ids.ids id) := by
    intro id h
    have hlt := (List.getElem?_eq_some_iff.mp (beq_iff_eq.mp h)).1
    exact LowerBound.position?_eq_some_iff.mpr ⟨rfl, hlt⟩
  unfold insertRow Table.locate
  by_cases hf : (m.hasId row.startId && m.hasId row.endId) = true
  · obtain ⟨h1, h2⟩ := (Bool.and_eq_true _ _).mp hf
    rw [hindex h1, hindex h2, hf,
      if_pos (show (LowerBound.found m.ids.ids (entryOf D scalingFactor row).1.1 &&
        LowerBound.found m.ids.ids (entryOf D scalingFactor row).1.2) = true from hf)]
    unfold Table.put isMissing
    simp only [decide_eq_true_eq]
    rfl
  · rw [if_neg (show ¬ (LowerBound.found m.ids.ids (entryOf D scalingFactor row).1.1 &&
      LowerBound.found m.ids.ids (entryOf D scalingFactor row).1.2) = true from hf),
      Bool.eq_false_iff.mpr hf]
    rfl

theorem foldl_insertRow (m : Matrix) : ∀ (rows : List VroomMatrixT) (t : VMatrix),
    rows.foldl (m.insertRow D scalingFactor) t = Table.fill (0, 0) isMissing t
      ((rows.map (entryOf D scalingFactor)).filterMap (Table.locate m.ids.ids))
  | [], _ => rfl
  | row :: rows, t => by
    rw [List.foldl_cons, insertRow_eq, List.map_cons, List.filterMap_cons]
    cases Table.locate m.ids.ids (entryOf D scalingFactor row) with
    | none => exact foldl_insertRow m rows t
    | some r => exact foldl_insertRow m rows (Table.put (0, 0) isMissing t r)

/-- **The constructor fills a table** over the locations. -/
theorem table_eq : table D scalingFactor rows ids = Table.setDiagonal (0, 0) ids.ids.length
    (Table.fillSelected (0, 0) isMissing ids.ids infinite (rows.map (entryOf D scalingFactor))) := by
  unfold table
  simp only [foldl_insertRow]
  rfl

theorem square_table : Table.Square ids.ids.length (table D scalingFactor rows ids) := by
  rw [table_eq]
  exact (Table.square_fillSelected _ _).setDiagonal _ _

theorem given_entryOf (rows : List VroomMatrixT) (a b : ℤ) :
    Table.given (rows.map (entryOf D scalingFactor)) (a, b) =
      (givenRow rows a b).map (scaled D scalingFactor) := by
  unfold Table.given givenRow
  rw [List.find?_map, Option.map_map]
  have hkey : ((fun r : (ℤ × ℤ) × ℤ × UInt32 => decide (r.1 = (a, b))) ∘ entryOf D scalingFactor) =
      fun row => decide (row.startId = a ∧ row.endId = b) := by
    funext row
    simp [entryOf]
  rw [hkey]
  rfl

theorem nodup_entryOf (hn : (rows.map fun row => (row.startId, row.endId)).Nodup) :
    ((rows.map (entryOf D scalingFactor)).map Prod.fst).Nodup := by
  rw [List.map_map]
  exact hn

theorem givenRow_eq_some_iff (hn : (rows.map fun row => (row.startId, row.endId)).Nodup) {a b : ℤ}
    {row : VroomMatrixT} : givenRow rows a b = some row ↔
      row ∈ rows ∧ row.startId = a ∧ row.endId = b := by
  unfold givenRow
  constructor
  · intro h
    exact ⟨List.mem_of_find?_eq_some h, by simpa using List.find?_some h⟩
  · rintro ⟨hrow, rfl, rfl⟩
    simpa using Keyed.find?_key hn hrow

theorem givenRow_perm (hn : (rows.map fun row => (row.startId, row.endId)).Nodup)
    {rows' : List VroomMatrixT} (hp : rows'.Perm rows) (a b : ℤ) :
    givenRow rows' a b = givenRow rows a b := by
  have hn' : (rows'.map fun row => (row.startId, row.endId)).Nodup := (hp.map _).nodup_iff.mpr hn
  exact Option.ext fun row => by
    rw [givenRow_eq_some_iff hn', givenRow_eq_some_iff hn, hp.mem_iff]

theorem rowFor_perm (hn : (rows.map fun row => (row.startId, row.endId)).Nodup)
    {rows' : List VroomMatrixT} (hp : rows'.Perm rows) (a b : ℤ) : rowFor rows' a b = rowFor rows a b := by
  unfold rowFor
  rw [givenRow_perm hn hp, givenRow_perm hn hp]

/-! ### The cells -/

variable (D scalingFactor rows) in
/-- Every duration in the table is a 32-bit number. -/
theorem cell_table_bounds {i j : ℕ} (hi : i < ids.ids.length) (hj : j < ids.ids.length) :
    0 ≤ (Table.cell (0, 0) (table D scalingFactor rows ids) i j).1 ∧
      (Table.cell (0, 0) (table D scalingFactor rows ids) i j).1 < 2 ^ 32 := by
  rw [table_eq, Table.cell_setDiagonal (Table.square_fillSelected _ _) _ le_rfl]
  split_ifs
  · decide
  · refine Table.forall_cell_fillSelected (P := fun v : ℤ × UInt32 => 0 ≤ v.1 ∧ v.1 < 2 ^ 32)
      (fun r hr => ?_) (by decide) hi hj
    obtain ⟨row, -, rfl⟩ := List.mem_map.mp hr
    have := (D.cast (round (row.duration.toNat / scalingFactor : ℚ))).toNat_lt
    simp only [entryOf, scaled]
    omega

variable (D scalingFactor rows) in
/-- Between different locations the table is the filled one. -/
theorem cell_table_of_ne {i j : ℕ} {a b : ℤ} (ha : ids.ids[i]? = some a) (hb : ids.ids[j]? = some b)
    (hab : a ≠ b) : Table.cell (0, 0) (table D scalingFactor rows ids) i j =
      Table.cell (0, 0) (Table.fillSelected (0, 0) isMissing ids.ids infinite
        (rows.map (entryOf D scalingFactor))) i j := by
  have hij : i ≠ j := by
    rintro rfl
    exact hab (Option.some.inj (ha.symm.trans hb))
  rw [table_eq, Table.cell_setDiagonal (Table.square_fillSelected _ _) _ le_rfl,
    if_neg fun h => hij h.1]

variable (D scalingFactor) in
/-- A missing row leaves an infinite pair. -/
theorem cell_table_of_missing {i j : ℕ} {a b : ℤ} (ha : ids.ids[i]? = some a)
    (hb : ids.ids[j]? = some b) (hab : a ≠ b) (h : rowFor rows a b = none) :
    Table.cell (0, 0) (table D scalingFactor rows ids) i j = infinite := by
  obtain ⟨h1, h2⟩ := Option.or_eq_none_iff.mp h
  rw [cell_table_of_ne D scalingFactor rows ha hb hab]
  refine Table.cell_fillSelected_of_not_given ids.sorted infinite ha hb ?_ ?_
  · rw [given_entryOf, h1]
    rfl
  · rw [given_entryOf, h2]
    rfl

/-- When the row of a cell itself is stored as it is, the cell holds the pair of its row. -/
theorem cell_table (hn : (rows.map fun row => (row.startId, row.endId)).Nodup) {i j : ℕ} {a b : ℤ}
    (ha : ids.ids[i]? = some a) (hb : ids.ids[j]? = some b)
    (hs : ∀ row, givenRow rows a b = some row → row.cost ≠ maxUInt32) (hab : a ≠ b) :
    Table.cell (0, 0) (table D scalingFactor rows ids) i j =
      ((rowFor rows a b).map (scaled D scalingFactor)).getD infinite := by
  rw [cell_table_of_ne D scalingFactor rows ha hb hab]
  rw [Table.cell_fillSelected ids.sorted rfl (nodup_entryOf hn) ha hb fun w hw => ?_]
  · rw [given_entryOf, given_entryOf, rowFor, Option.map_or]
  · rw [given_entryOf] at hw
    obtain ⟨row, hrow, rfl⟩ := Option.map_eq_some_iff.mp hw
    exact decide_eq_false (hs row hrow)

theorem cell_table_diagonal {i : ℕ} (hi : i < ids.ids.length) :
    Table.cell (0, 0) (table D scalingFactor rows ids) i i = (0, 0) := by
  rw [table_eq, Table.cell_setDiagonal (Table.square_fillSelected _ _) _ le_rfl, if_pos ⟨rfl, hi⟩]

/-- A component of the pair is infinite. -/
def IsInfinite (val : ℤ × UInt32) : Prop := val.1 = maxUInt32.toNat ∨ val.2 = maxUInt32

instance (val : ℤ × UInt32) : Decidable (IsInfinite val) := inferInstanceAs (Decidable (_ ∨ _))

theorem hasInfinity_iff : hasInfinity (table D scalingFactor rows ids) = true ↔
    ∃ i < ids.ids.length, ∃ j < ids.ids.length,
      IsInfinite (Table.cell (0, 0) (table D scalingFactor rows ids) i j) := by
  unfold hasInfinity
  rw [Table.any_any_iff (d := (0, 0)) square_table]
  simp only [Bool.or_eq_true, beq_iff_eq, IsInfinite]

theorem construct_eq_error_iff : (∃ e, construct D scalingFactor rows ids = .error e) ↔
    hasInfinity (table D scalingFactor rows ids) = true := by
  unfold construct
  dsimp only
  split_ifs with h
  · exact ⟨fun _ => h, fun _ => ⟨_, rfl⟩⟩
  · exact ⟨fun ⟨_, he⟩ => (by cases he), fun h' => absurd h' h⟩

theorem construct_eq_ok {m : Matrix} (h : construct D scalingFactor rows ids = .ok m) :
    hasInfinity (table D scalingFactor rows ids) = false ∧ ∀ i j,
      m.duration i j =
        UInt32.ofNat (Table.cell (0, 0) (table D scalingFactor rows ids) i j).1.toNat ∧
      m.cost i j = (Table.cell (0, 0) (table D scalingFactor rows ids) i j).2 := by
  unfold construct at h
  dsimp only at h
  split_ifs at h with hinf
  obtain rfl := Except.ok.inj h
  refine ⟨Bool.eq_false_iff.mpr hinf, fun i j => ⟨?_, ?_⟩⟩
  · exact Table.cell_map (d := ((0, 0) : ℤ × UInt32)) (fun val => UInt32.ofNat val.1.toNat) i j
  · exact Table.cell_map (d := ((0, 0) : ℤ × UInt32)) Prod.snd i j

/-! ### Stored rows -/

theorem round_nonneg (hf : 0 < scalingFactor) (row : VroomMatrixT) :
    0 ≤ round (row.duration.toNat / scalingFactor : ℚ) := by
  rw [round_eq]
  exact Int.floor_nonneg.mpr (by positivity)

/-- A row that is stored as it is has the scaled and rounded duration. -/
theorem Stored.scaled_fst (hf : 0 < scalingFactor) {row : VroomMatrixT} (h : Stored scalingFactor row) :
    (scaled D scalingFactor row).1 = round (row.duration.toNat / scalingFactor : ℚ) := by
  obtain ⟨n, hround⟩ := Int.eq_ofNat_of_zero_le (round_nonneg hf row)
  have hlt := h.1
  have hmax : maxUInt32.toNat < 2 ^ 32 := maxUInt32.toNat_lt
  unfold scaled
  simp only [hround] at hlt ⊢
  rw [D.toNat_cast n (by omega)]

theorem Stored.not_isInfinite (hf : 0 < scalingFactor) {row : VroomMatrixT}
    (h : Stored scalingFactor row) : ¬ IsInfinite (scaled D scalingFactor row) := by
  rintro (hinf | hinf)
  · rw [h.scaled_fst hf] at hinf
    exact h.1.ne hinf
  · exact h.2 hinf

theorem construct_of_missing (h : MissingRow rows ids) : construct D scalingFactor rows ids =
    .error (.thrown
      "An Infinity value was found on the Matrix. Might be missing information of a node") := by
  obtain ⟨a, ha, b, hb, hab, hrow⟩ := h
  obtain ⟨i, hi, rfl⟩ := List.getElem_of_mem ha
  obtain ⟨j, hj, rfl⟩ := List.getElem_of_mem hb
  have hcell := cell_table_of_missing D scalingFactor
    (List.getElem?_eq_getElem hi) (List.getElem?_eq_getElem hj) hab hrow
  exact if_pos (hasInfinity_iff.mpr ⟨i, hi, j, hj, by rw [hcell]; exact Or.inl rfl⟩)

/-- The row for two locations joins them. -/
theorem rowFor_spec {a b : ℤ} {row : VroomMatrixT} (h : rowFor rows a b = some row) :
    row ∈ rows ∧ (row.startId = a ∧ row.endId = b ∨ row.startId = b ∧ row.endId = a) := by
  unfold rowFor givenRow at h
  rcases Option.or_eq_some_iff.mp h with h | ⟨-, h⟩
  · exact ⟨List.mem_of_find?_eq_some h, Or.inl (by simpa using List.find?_some h)⟩
  · exact ⟨List.mem_of_find?_eq_some h, Or.inr (by simpa using List.find?_some h)⟩

section AllStored
variable (hf : 0 < scalingFactor) (hn : (rows.map fun row => (row.startId, row.endId)).Nodup)
  (hs : ∀ row ∈ rows, row.startId ∈ ids → row.endId ∈ ids → row.startId ≠ row.endId →
    Stored scalingFactor row) (hm : ¬ MissingRow rows ids)
include hn hs hm

/-- The cell of two locations holds the pair of the row for them. -/
theorem cell_of_stored {i j : ℕ} {a b : ℤ} (ha : ids.ids[i]? = some a) (hb : ids.ids[j]? = some b)
    (hab : a ≠ b) : ∃ row, rowFor rows a b = some row ∧ Stored scalingFactor row ∧
      Table.cell (0, 0) (table D scalingFactor rows ids) i j = scaled D scalingFactor row := by
  have ha' : a ∈ ids := List.mem_of_getElem? ha
  have hb' : b ∈ ids := List.mem_of_getElem? hb
  obtain ⟨row, hrow⟩ : ∃ row, rowFor rows a b = some row := by
    by_contra hnone
    exact hm ⟨a, ha', b, hb', hab, Option.eq_none_iff_forall_ne_some.mpr fun row h => hnone ⟨row, h⟩⟩
  have hown : ∀ row, givenRow rows a b = some row → row.cost ≠ maxUInt32 := by
    intro row h
    obtain ⟨hmem, rfl, rfl⟩ := (givenRow_eq_some_iff hn).mp h
    exact (hs row hmem ha' hb' hab).2
  refine ⟨row, hrow, ?_, by rw [cell_table hn ha hb hown hab, hrow]; rfl⟩
  obtain ⟨hmem, ⟨rfl, rfl⟩ | ⟨rfl, rfl⟩⟩ := rowFor_spec hrow
  · exact hs row hmem ha' hb' hab
  · exact hs row hmem hb' ha' hab.symm

include hf

theorem hasInfinity_of_stored : hasInfinity (table D scalingFactor rows ids) = false := by
  rw [← Bool.not_eq_true, hasInfinity_iff]
  rintro ⟨i, hi, j, hj, hinf⟩
  by_cases hij : i = j
  · subst hij
    rw [cell_table_diagonal hi] at hinf
    exact absurd hinf (by decide)
  · obtain ⟨row, -, hrow, hcell⟩ := cell_of_stored (D := D) hn hs hm (List.getElem?_eq_getElem hi)
      (List.getElem?_eq_getElem hj) fun h => hij (ids.nodup.getElem_inj_iff.mp h)
    rw [hcell] at hinf
    exact hrow.not_isInfinite hf hinf

/-- Without a missing row, stored rows give a faithful matrix. -/
theorem Faithful.of_stored : Faithful D scalingFactor rows ids where
  throws_iff := by
    rw [construct_eq_error_iff, hasInfinity_of_stored hf hn hs hm]
    exact ⟨fun h => absurd h Bool.false_ne_true, fun h => absurd h hm⟩
  values m h i j a b ha hb hab := by
    obtain ⟨row, hrow, hst, hcell⟩ := cell_of_stored (D := D) hn hs hm ha hb hab
    obtain ⟨-, hvals⟩ := construct_eq_ok h
    have hbounds := cell_table_bounds D scalingFactor rows
      (List.getElem?_eq_some_iff.mp ha).1 (List.getElem?_eq_some_iff.mp hb).1
    obtain ⟨hd, hc⟩ := hvals i j
    rw [hcell] at hd hc hbounds
    refine ⟨row, hrow, ?_, hc⟩
    rw [hd, ← hst.scaled_fst (D := D) hf, UInt32.toNat_ofNat', Nat.mod_eq_of_lt (by omega)]
    omega
  order rows' hp := by
    have hn' : (rows'.map fun row => (row.startId, row.endId)).Nodup := (hp.map _).nodup_iff.mpr hn
    have hs' : ∀ row ∈ rows', row.startId ∈ ids → row.endId ∈ ids → row.startId ≠ row.endId →
        Stored scalingFactor row := fun row hrow => hs row (hp.mem_iff.mp hrow)
    have hm' : ¬ MissingRow rows' ids := by
      rintro ⟨a, ha, b, hb, hab, hnone⟩
      exact hm ⟨a, ha, b, hb, hab, rowFor_perm hn hp a b ▸ hnone⟩
    have htable : table D scalingFactor rows' ids = table D scalingFactor rows ids := by
      refine Table.ext_cell (d := (0, 0)) square_table square_table fun i hi j hj => ?_
      by_cases hij : i = j
      · subst hij
        rw [cell_table_diagonal hi, cell_table_diagonal hi]
      · have hab : ids.ids[i] ≠ ids.ids[j] := fun h => hij (ids.nodup.getElem_inj_iff.mp h)
        obtain ⟨row, hrow, -, hcell⟩ := cell_of_stored (D := D) hn hs hm (List.getElem?_eq_getElem hi)
          (List.getElem?_eq_getElem hj) hab
        obtain ⟨row', hrow', -, hcell'⟩ := cell_of_stored (D := D) hn' hs' hm'
          (List.getElem?_eq_getElem hi) (List.getElem?_eq_getElem hj) hab
        rw [rowFor_perm hn hp, hrow] at hrow'
        obtain rfl := Option.some.inj hrow'
        rw [hcell, hcell']
    unfold construct
    rw [htable]

end AllStored

theorem Faithful.of_missing (hn : (rows.map fun row => (row.startId, row.endId)).Nodup)
    (hm : MissingRow rows ids) : Faithful D scalingFactor rows ids where
  throws_iff := ⟨fun _ => hm, fun _ => ⟨_, construct_of_missing hm⟩⟩
  values m h := by
    rw [construct_of_missing hm] at h
    cases h
  order rows' hp := by
    have hm' : MissingRow rows' ids := by
      obtain ⟨a, ha, b, hb, hab, hnone⟩ := hm
      exact ⟨a, ha, b, hb, hab, (rowFor_perm hn hp a b).trans hnone⟩
    rw [construct_of_missing hm, construct_of_missing hm']

/-- In a faithful matrix without a missing row, the rows between different locations are stored as
they are. -/
theorem Faithful.stored (h : Faithful D scalingFactor rows ids)
    (hn : (rows.map fun row => (row.startId, row.endId)).Nodup) (hm : ¬ MissingRow rows ids)
    {row : VroomMatrixT} (hrow : row ∈ rows) (ha : row.startId ∈ ids) (hb : row.endId ∈ ids)
    (hab : row.startId ≠ row.endId) : Stored scalingFactor row := by
  obtain ⟨m, hc⟩ : ∃ m, construct D scalingFactor rows ids = .ok m := by
    cases hc : construct D scalingFactor rows ids with
    | error e => exact absurd (h.throws_iff.mp ⟨e, hc⟩) hm
    | ok m => exact ⟨m, rfl⟩
  obtain ⟨i, hi, hia⟩ := List.getElem_of_mem ha
  obtain ⟨j, hj, hjb⟩ := List.getElem_of_mem hb
  obtain ⟨row', hrow', hdur, hcost⟩ := h.values m hc i j _ _
    (List.getElem?_eq_some_iff.mpr ⟨hi, hia⟩) (List.getElem?_eq_some_iff.mpr ⟨hj, hjb⟩) hab
  have hown : rowFor rows row.startId row.endId = some row := by
    rw [rowFor, (givenRow_eq_some_iff hn).mpr ⟨hrow, rfl, rfl⟩, Option.some_or]
  obtain rfl := Option.some.inj (hown.symm.trans hrow')
  obtain ⟨hinf, hvals⟩ := construct_eq_ok hc
  have hcell : ¬ IsInfinite (Table.cell (0, 0) (table D scalingFactor rows ids) i j) := fun hcell =>
    Bool.eq_false_iff.mp hinf (hasInfinity_iff.mpr ⟨i, hi, j, hj, hcell⟩)
  obtain ⟨hd, hc'⟩ := hvals i j
  have hbounds := cell_table_bounds D scalingFactor rows hi hj
  have hmax : maxUInt32.toNat = 2 ^ 32 - 1 := rfl
  refine ⟨?_, fun hcost' => hcell (Or.inr (by rw [← hc', hcost, hcost']))⟩
  rw [hd, UInt32.toNat_ofNat', Nat.mod_eq_of_lt (by omega)] at hdur
  have hne : (Table.cell (0, 0) (table D scalingFactor rows ids) i j).1 ≠ maxUInt32.toNat := fun h =>
    hcell (Or.inl h)
  omega

/-- **When the matrix is faithful to its rows**: a row is missing, or every row between different
locations is stored as it is. -/
theorem construct_faithful_iff (D : DurationCast) {scalingFactor : ℚ} (hf : 0 < scalingFactor)
    {rows : List VroomMatrixT} (hn : (rows.map fun row => (row.startId, row.endId)).Nodup)
    (ids : Identifiers ℤ) : Faithful D scalingFactor rows ids ↔
      MissingRow rows ids ∨ ∀ row ∈ rows, row.startId ∈ ids → row.endId ∈ ids →
        row.startId ≠ row.endId → Stored scalingFactor row := by
  by_cases hm : MissingRow rows ids
  · exact ⟨fun _ => Or.inl hm, fun _ => .of_missing hn hm⟩
  · rw [or_iff_right hm]
    exact ⟨fun h _ => h.stored hn hm, fun hs => .of_stored hf hn hs hm⟩

/-- A duration that is divided by two and rounded up. -/
theorem construct_faithful_small :
    Faithful .wrap 2 [⟨1, 2, 7, 3⟩] ((Identifiers.empty.insert 1).insert 2) :=
  (construct_faithful_iff .wrap (by decide) (by decide) _).mpr (Or.inr (by decide +kernel))

/-- A row with the largest duration counts as missing. -/
theorem construct_largest_duration :
    let ids : Identifiers ℤ := (Identifiers.empty.insert 1).insert 2
    let rows : List VroomMatrixT := [⟨1, 2, 4294967295, 5⟩]
    (∃ e, construct .wrap 1 rows ids = .error e) ∧ ¬ MissingRow rows ids ∧
      ¬ Faithful .wrap 1 rows ids := by
  have hthrows : ∃ e, construct .wrap 1 [⟨1, 2, 4294967295, 5⟩]
      ((Identifiers.empty.insert 1).insert 2) = .error e :=
    construct_eq_error_iff.mpr (by decide +kernel)
  have hrow : ¬ MissingRow [⟨1, 2, 4294967295, 5⟩] ((Identifiers.empty.insert 1).insert 2) := by
    rintro ⟨a, ha, b, hb, hab, hnone⟩
    simp only [Identifiers.mem_insert, Identifiers.not_mem_empty, or_false] at ha hb
    rcases ha with rfl | rfl <;> rcases hb with rfl | rfl
    · exact hab rfl
    · exact absurd hnone (by decide)
    · exact absurd hnone (by decide)
    · exact hab rfl
  exact ⟨hthrows, hrow, fun h => hrow (h.throws_iff.mp hthrows)⟩

end Table

end VrpRouting.Vroom.Matrix
