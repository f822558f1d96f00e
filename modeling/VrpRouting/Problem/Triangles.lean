import VrpRouting.Lib.Walks
import VrpRouting.Problem.RowOrder

/-! # Fixing the triangle inequality

`fix_triangle_inequality` makes one update after the other (`Updates`), each of them lowers one cell,
until no triangle is left or the depth is too large; the depth is the number of updates
(`fixTriangleInequality_reports`). The cells stay lengths of real ways as long as the two cells of
each update have a sum that fits into the type (`DetourFits`). With a missing cell, which is the
largest value of the type, the sum wraps around, and the shorter way that is found is none. The same
happens to a cost whose product with the factor is no 64-bit integer (`ofCells_shortens_iff`). -/

open Walks

namespace VrpRouting.BaseMatrix

/-! ### Updates -/

/-- One update: the way over the first detour that is shorter. -/
def Update (m m' : BaseMatrix) : Prop := ∃ i j k, m.firstDetour = some (i, j, k) ∧
  m' = m.setCell i k (addIntervals (m.cell i j) (m.cell j k))

/-- So many updates, one after the other. -/
inductive Updates : ℕ → BaseMatrix → BaseMatrix → Prop
  | nil (m : BaseMatrix) : Updates 0 m m
  | cons {n : ℕ} {m m₁ m₂ : BaseMatrix} : Update m m₁ → Updates n m₁ m₂ → Updates (n + 1) m m₂

/-- One cell is lowered, the others stay. -/
def Lowers (m m' : BaseMatrix) : Prop := ∃ i k, m'.cell i k < m.cell i k ∧
  ∀ a b, ¬ (a = i ∧ b = k) → m'.cell a b = m.cell a b

/-- The triangle inequality. -/
def Obeys (m : BaseMatrix) : Prop := ∀ i < m.timeMatrix.length, ∀ j < m.timeMatrix.length,
  ∀ k < m.timeMatrix.length, m.cell i k ≤ m.cell i j + m.cell j k

/-- The two cells of the next update have a sum that fits into the type. -/
def DetourFits (m : BaseMatrix) : Prop :=
  ∀ i j k, m.firstDetour = some (i, j, k) → m.cell i j + m.cell j k ≤ infinity

section Updates
variable {m m₁ m₂ m' : BaseMatrix} {n k : ℕ}

theorem Update.unique (h₁ : Update m m₁) (h₂ : Update m m₂) : m₁ = m₂ := by
  obtain ⟨i, j, k, hd, rfl⟩ := h₁
  obtain ⟨i', j', k', hd', rfl⟩ := h₂
  rw [hd] at hd'
  obtain ⟨rfl, rfl, rfl⟩ : i = i' ∧ j = j' ∧ k = k' := by simpa using hd'
  rfl

theorem Update.ne_none (h : Update m m₁) : m.firstDetour ≠ none := by
  obtain ⟨i, j, k, hd, -⟩ := h
  rw [hd]
  exact Option.some_ne_none _

theorem Updates.snoc (h : Updates n m m₁) (hu : Update m₁ m₂) : Updates (n + 1) m m₂ := by
  induction h with
  | nil => exact .cons hu (.nil _)
  | cons hu' _ ih => exact .cons hu' (ih hu)

/-- The updates are determined, so a longer run continues a shorter one. -/
theorem Updates.rest (h : Updates k m m₁) (h' : Updates (k + n) m m') : Updates n m₁ m' := by
  induction h with
  | nil => rwa [Nat.zero_add] at h'
  | cons hu _ ih =>
    rw [Nat.succ_add] at h'
    cases h' with
    | cons hu' hrest =>
      obtain rfl := hu.unique hu'
      exact ih hrest

/-- No run is longer than one that has come to its end. -/
theorem Updates.le_of_none (h : Updates n m m') (hend : m'.firstDetour = none) (hk : Updates k m m₁) :
    k ≤ n := by
  by_contra hlt
  obtain ⟨e, rfl⟩ := Nat.exists_eq_add_of_lt (not_le.mp hlt)
  rw [Nat.add_assoc] at hk
  cases h.rest hk with
  | cons hu _ => exact hu.ne_none hend

/-- The recursion makes updates until none is left or the depth is too large. -/
theorem fixLoop_updates (passes depth : ℕ) (m : BaseMatrix) :
    ∃ n ≤ passes, ∃ m', fixLoop passes depth m = (depth + n, m') ∧ Updates n m m' ∧
      (n < passes → m'.firstDetour = none) := by
  induction passes generalizing depth m with
  | zero => exact ⟨0, le_rfl, m, rfl, .nil m, fun h => absurd h (lt_irrefl 0)⟩
  | succ passes ih =>
    unfold fixLoop
    cases hd : m.firstDetour with
    | none => exact ⟨0, Nat.zero_le _, m, rfl, .nil m, fun _ => hd⟩
    | some t =>
      obtain ⟨i, j, k⟩ := t
      obtain ⟨n, hn, m', hloop, hrun, hend⟩ :=
        ih (depth + 1) (m.setCell i k (addIntervals (m.cell i j) (m.cell j k)))
      refine ⟨n + 1, by omega, m', ?_, .cons ⟨i, j, k, hd, rfl⟩ hrun, fun h => hend (by omega)⟩
      dsimp only
      rw [hloop, Nat.add_assoc, Nat.add_comm 1 n]

/-- What every update keeps holds after all of them. -/
theorem Updates.keeps {P : BaseMatrix → Prop} (hstep : ∀ {m m₁}, Update m m₁ → P m → P m₁)
    (h : Updates n m m') (hm : P m) : P m' := by
  induction h with
  | nil => exact hm
  | cons hu _ ih => exact ih (hstep hu hm)

end Updates

/-! ### The report -/

section Report
variable {m m₁ m' : BaseMatrix} {n k : ℕ}

theorem firstDetour_eq_none_iff : m.firstDetour = none ↔ m.obeysTriangleInequality = true := by
  unfold firstDetour obeysTriangleInequality triples
  simp

theorem obeysTriangleInequality_iff (hfit : m.SumsFit) : m.obeysTriangleInequality = true ↔ m.Obeys := by
  unfold obeysTriangleInequality Obeys
  simp only [List.all_eq_true, List.mem_range, Bool.not_eq_true', decide_eq_false_iff_not, not_lt,
    gt_iff_lt]
  refine forall₂_congr fun i hi => forall₂_congr fun j hj => forall₂_congr fun k hk => ?_
  rw [hfit.addIntervals hi hj hk]

theorem Update.sumsFit (hu : Update m m₁) (h : m.SumsFit) : m₁.SumsFit := by
  obtain ⟨i, j, k, hd, rfl⟩ := hu
  obtain ⟨⟨hi, hj, hk⟩, hlt⟩ := firstDetour_eq_some hd
  rw [h.addIntervals hi hj hk] at hlt ⊢
  have h1 := (h i hi j hj).1
  have h2 := (h j hj k hk).1
  exact h.lower (by omega) hlt.le

theorem Update.square (hu : Update m m₁) (h : Table.Square n m.timeMatrix) :
    Table.Square n m₁.timeMatrix := by
  obtain ⟨i, j, k, -, rfl⟩ := hu
  exact h.setCell i k _

/-- What an update does to the cells. -/
theorem Update.cell (hu : Update m m₁) (h : Table.Square n m.timeMatrix) : ∃ i < n, ∃ j < n, ∃ k < n,
    m.firstDetour = some (i, j, k) ∧
      VrpRouting.addIntervals (m.cell i j) (m.cell j k) < m.cell i k ∧
      ∀ a b, m₁.cell a b = if a = i ∧ b = k then VrpRouting.addIntervals (m.cell i j) (m.cell j k)
        else m.cell a b := by
  obtain ⟨i, j, k, hd, rfl⟩ := hu
  obtain ⟨⟨hi, hj, hk⟩, hlt⟩ := firstDetour_eq_some hd
  rw [h.length] at hi hj hk
  exact ⟨i, hi, j, hj, k, hk, hd, hlt, Table.cell_setCell h hi hk _⟩

theorem Update.lowers (hu : Update m m₁) (h : Table.Square n m.timeMatrix) : Lowers m m₁ := by
  obtain ⟨i, -, j, -, k, -, -, hlt, hcell⟩ := hu.cell h
  refine ⟨i, k, ?_, fun a b hab => ?_⟩
  · rw [hcell, if_pos ⟨rfl, rfl⟩]
    exact hlt
  · rw [hcell, if_neg hab]

/-- **The depth is the number of updates.** At most `n` says that no triangle is left, after at most
`n` updates; the depth `n + 1` says nothing. -/
theorem fixTriangleInequality_reports (hsquare : Table.Square n m.timeMatrix) (hfit : m.SumsFit) :
    ∃ depth m', m.fixTriangleInequality 0 = (depth, m') ∧ depth ≤ n + 1 ∧ Updates depth m m' ∧
      (∀ k m₁ m₂, Updates k m m₁ → Update m₁ m₂ → Lowers m₁ m₂) ∧
      (depth ≤ n → m'.Obeys) ∧
      (depth ≤ n ↔ ∃ k ≤ n, ∃ m₁, Updates k m m₁ ∧ m₁.Obeys) := by
  obtain ⟨depth, hle, m', hloop, hrun, hend⟩ := fixLoop_updates (n + 1) 0 m
  have hobeys : ∀ {k m₁}, Updates k m m₁ → (m₁.firstDetour = none ↔ m₁.Obeys) := fun h => by
    rw [firstDetour_eq_none_iff, obeysTriangleInequality_iff (h.keeps Update.sumsFit hfit)]
  have hlast : depth ≤ n → m'.Obeys := fun h => (hobeys hrun).mp (hend (by omega))
  refine ⟨depth, m', ?_, hle, hrun, ?_, hlast, ?_⟩
  · unfold fixTriangleInequality
    rw [hsquare.length, Nat.sub_zero, hloop, Nat.zero_add]
  · intro k m₁ m₂ hk hu
    exact hu.lowers (hk.keeps (fun hu h => hu.square h) hsquare)
  · constructor
    · intro h
      exact ⟨depth, h, m', hrun, hlast h⟩
    · rintro ⟨k, hk, m₁, hk₁, h₁⟩
      exact (hk₁.le_of_none ((hobeys hk₁).mpr h₁) hrun).trans hk

/-- Two updates, for the way from 1 to 3 and for the way back. -/
theorem fixTriangleInequality_reports_small : ∃ m',
    (⟨[1, 2, 3], [[0, 1, 9], [1, 0, 1], [9, 1, 0]]⟩ : BaseMatrix).fixTriangleInequality 0 = (2, m') ∧
      m'.Obeys := by
  obtain ⟨depth, m', hfix, -, -, -, hobeys, -⟩ :=
    fixTriangleInequality_reports (m := ⟨[1, 2, 3], [[0, 1, 9], [1, 0, 1], [9, 1, 0]]⟩) (n := 3)
      ⟨rfl, by decide⟩ (by decide)
  obtain rfl : 2 = depth := Eq.trans (by decide +kernel) (congrArg Prod.fst hfix)
  exact ⟨m', hfix, hobeys (by decide)⟩

/-- The fifth update is the last one that is needed, and the depth is larger than 4. -/
theorem depth_of_last_update :
    let m : BaseMatrix := ⟨[1, 2, 3, 4], [[0, 1, 1, 1], [1, 0, 2, 10], [1, 10, 0, 10], [1, 10, 10, 0]]⟩
    m.SumsFit ∧ (m.fixTriangleInequality 0).1 = 5 ∧
      (m.fixTriangleInequality 0).2.obeysTriangleInequality = true := by
  decide +kernel

end Report

/-! ### Real ways -/

/-- A way from `i` to `j` that is on the matrix, with its time. -/
def Edge (m : BaseMatrix) (i j : ℕ) (time : ℤ) : Prop := i < m.timeMatrix.length ∧
  j < m.timeMatrix.length ∧ m.cell i j = time ∧ time ≠ infinity

/-- The cells of `m'` are shorter or the same times along the ways of `m`. -/
structure Shortens (m m' : BaseMatrix) : Prop where
  nonneg : ∀ i < m.timeMatrix.length, ∀ j < m.timeMatrix.length, 0 ≤ m'.cell i j
  diagonal : ∀ i < m.timeMatrix.length, m'.cell i i = 0
  le : ∀ i < m.timeMatrix.length, ∀ j < m.timeMatrix.length, m'.cell i j ≤ m.cell i j
  /-- A cell that is not missing is not below the distance. -/
  distance : ∀ i < m.timeMatrix.length, ∀ j < m.timeMatrix.length, m'.cell i j ≠ infinity →
    ∀ d, IsDistance m.Edge i j d → d ≤ m'.cell i j
  /-- Without any way the cell stays missing. -/
  missing : ∀ i < m.timeMatrix.length, ∀ j < m.timeMatrix.length,
    (∀ time, ¬ Walk m.Edge i j time) → m'.cell i j = infinity

/-- A matrix as the constructor builds it from products that fit into the type. -/
structure Raw (n : ℕ) (m : BaseMatrix) : Prop where
  square : Table.Square n m.timeMatrix
  nonneg : ∀ i < n, ∀ j < n, 0 ≤ m.cell i j
  le_infinity : ∀ i < n, ∀ j < n, m.cell i j ≤ infinity
  diagonal : ∀ i < n, m.cell i i = 0

section Built
variable (D : Doubles) (cells : List MatrixCell) (factor : ℚ) (nodeIds : List ℤ)

/-- The converted products are 64-bit integers. -/
theorem cell_ofCellsBy_le {i j : ℕ} (hi : i < nodeIds.length) (hj : j < nodeIds.length) :
    (ofCellsBy (fun cost => D.times cost factor) cells nodeIds).cell i j ≤ infinity := by
  rw [cell_ofCellsBy_eq]
  split_ifs
  · decide
  · refine Table.forall_cell_fillSelected (P := (· ≤ infinity)) (fun r hr => ?_) le_rfl hi hj
    obtain ⟨c, -, rfl⟩ := List.mem_map.mp hr
    exact Int.le_of_lt_add_one (D.toInt_range _).2

theorem raw_ofCellsBy
    (h : ∀ i < nodeIds.length, ∀ j < nodeIds.length,
      0 ≤ (ofCellsBy (fun cost => D.times cost factor) cells nodeIds).cell i j) :
    Raw nodeIds.length (ofCellsBy (fun cost => D.times cost factor) cells nodeIds) := by
  refine ⟨square_ofCellsBy _ _, h, ?_, ?_⟩
  · intro i hi j hj
    exact cell_ofCellsBy_le D cells factor nodeIds hi hj
  · intro i hi
    rw [cell_ofCellsBy_eq, if_pos ⟨rfl, hi⟩]

end Built

/-- What holds of the cells of `m` while the detours fit: they are bounded from below by ways of the
original matrix. -/
structure Covered (n : ℕ) (m₀ m : BaseMatrix) : Prop extends Raw n m where
  le : ∀ i < n, ∀ j < n, m.cell i j ≤ m₀.cell i j
  reaches : ∀ i < n, ∀ j < n, m.cell i j ≠ infinity → Reaches m₀.Edge i j (m.cell i j)

section Covered
variable {m₀ m m₁ m' : BaseMatrix} {n k : ℕ}

theorem Raw.covered (h : Raw n m) : Covered n m m := by
  refine ⟨h, fun i _ j _ => le_rfl, fun i hi j hj hne => .single ?_⟩
  rw [← h.square.length] at hi hj
  exact ⟨hi, hj, rfl, hne⟩

/-- An update puts two ways together. -/
theorem Covered.update (h : Covered n m₀ m) (hu : Update m m₁) (hfit : m.DetourFits) :
    Covered n m₀ m₁ := by
  obtain ⟨i, hi, j, hj, k, hk, hd, hlt, hcell⟩ := hu.cell h.square
  have hij := h.nonneg i hi j hj
  have hjk := h.nonneg j hj k hk
  have hik := h.le_infinity i hi k hk
  rw [addIntervals_eq hij hjk (hfit i j k hd)] at hlt hcell
  have hreach : Reaches m₀.Edge i k (m.cell i j + m.cell j k) :=
    (h.reaches i hi j hj (by omega)).append (h.reaches j hj k hk (by omega))
  refine ⟨⟨hu.square h.square, ?_, ?_, ?_⟩, ?_, ?_⟩
  · intro a ha b hb
    rw [hcell]
    split_ifs
    · exact add_nonneg hij hjk
    · exact h.nonneg a ha b hb
  · intro a ha b hb
    rw [hcell]
    split_ifs
    · exact hfit i j k hd
    · exact h.le_infinity a ha b hb
  · intro a ha
    rw [hcell]
    split_ifs with hab
    · -- a sum is not below the 0 of the diagonal
      obtain ⟨rfl, rfl⟩ := hab
      have hdiag := h.diagonal a ha
      omega
    · exact h.diagonal a ha
  · intro a ha b hb
    have hle := h.le a ha b hb
    rw [hcell]
    split_ifs with hab
    · obtain ⟨rfl, rfl⟩ := hab
      exact hlt.le.trans hle
    · exact hle
  · intro a ha b hb
    rw [hcell]
    split_ifs with hab
    · obtain ⟨rfl, rfl⟩ := hab
      exact fun _ => hreach
    · exact h.reaches a ha b hb

/-- The run lemma. -/
theorem Covered.updates (h : Covered n m₀ m) (hrun : Updates k m m')
    (hfit : ∀ e < k, ∀ m₁, Updates e m m₁ → m₁.DetourFits) : Covered n m₀ m' := by
  induction hrun with
  | nil => exact h
  | cons hu _ ih =>
    refine ih (h.update hu (hfit 0 (Nat.zero_lt_succ _) _ (.nil _))) fun e he m₁ hm₁ => ?_
    exact hfit (e + 1) (Nat.succ_lt_succ he) m₁ (.cons hu hm₁)

theorem Covered.shortens (h : Covered n m₀ m) (hn : m₀.timeMatrix.length = n) : Shortens m₀ m := by
  subst hn
  refine ⟨h.nonneg, h.diagonal, h.le, ?_, ?_⟩
  · intro i hi j hj hne d hd
    exact (h.reaches i hi j hj hne).distance_le hd
  · intro i hi j hj hnone
    by_contra hne
    obtain ⟨time, hwalk⟩ := (h.reaches i hi j hj hne).exists_walk
    exact hnone time hwalk

/-- Updates only lower cells. -/
theorem Updates.cell_le (hrun : Updates k m m') (h : Table.Square n m.timeMatrix) (a b : ℕ) :
    m'.cell a b ≤ m.cell a b := by
  induction hrun with
  | nil => exact le_rfl
  | cons hu _ ih =>
    refine (ih (hu.square h)).trans ?_
    obtain ⟨i, -, j, -, k, -, -, hlt, hcell⟩ := hu.cell h
    rw [hcell]
    split_ifs with hab
    · obtain ⟨rfl, rfl⟩ := hab
      exact hlt.le
    · exact le_rfl

/-- A sum that does not fit is negative. -/
theorem addIntervals_neg {a b : ℤ} (ha : 0 ≤ a) (hb : 0 ≤ b) (ha' : a ≤ infinity) (hb' : b ≤ infinity)
    (h : infinity < a + b) : addIntervals a b < 0 := by
  unfold infinity at ha' hb' h
  unfold addIntervals
  rw [Int.bmod_neg_iff (by omega) (by omega)]
  omega

/-- An update after which no cell is negative did not wrap around. -/
theorem Update.detourFits (hu : Update m m₁) (h : Table.Square n m.timeMatrix)
    (hnonneg : ∀ a < n, ∀ b < n, 0 ≤ m.cell a b) (hinf : ∀ a < n, ∀ b < n, m.cell a b ≤ infinity)
    (h₁ : ∀ a < n, ∀ b < n, 0 ≤ m₁.cell a b) : m.DetourFits := by
  intro i j k hd
  obtain ⟨i', hi, j', hj, k', hk, hd', -, hcell⟩ := hu.cell h
  rw [hd] at hd'
  obtain ⟨rfl, rfl, rfl⟩ : i = i' ∧ j = j' ∧ k = k' := by simpa using hd'
  by_contra hwrap
  have hneg := addIntervals_neg (hnonneg i hi j hj) (hnonneg j hj k hk) (hinf i hi j hj)
    (hinf j hj k hk) (not_le.mp hwrap)
  have hpos := h₁ i hi k hk
  rw [hcell, if_pos ⟨rfl, rfl⟩] at hpos
  omega

/-- Fixing only shortens when the two cells of every update have a sum that fits, and only then. -/
theorem Raw.shortens_iff (h : Raw n m) : Shortens m (m.fixTriangleInequality 0).2 ↔
    ∀ k ≤ n, ∀ m₁, Updates k m m₁ → m₁.DetourFits := by
  obtain ⟨depth, hle, m', hloop, hrun, hend⟩ := fixLoop_updates (n + 1) 0 m
  have hfix : (m.fixTriangleInequality 0).2 = m' := by
    unfold fixTriangleInequality
    rw [h.square.length, Nat.sub_zero, hloop]
  rw [hfix]
  constructor
  · intro hshort k hk m₁ hk₁ i j l hd
    -- the update is one of the run, so the matrices around it are not below the result
    have hu : Update m₁ (m₁.setCell i l (VrpRouting.addIntervals (m₁.cell i j) (m₁.cell j l))) :=
      ⟨i, j, l, hd, rfl⟩
    have hlast : k + 1 ≤ depth := by
      by_cases hfull : depth < n + 1
      · exact hrun.le_of_none (hend hfull) (hk₁.snoc hu)
      · omega
    have hsquare := hk₁.keeps (fun hu h => hu.square h) h.square
    have hpos : ∀ a < n, ∀ b < n, 0 ≤ m'.cell a b := by
      rw [← h.square.length]
      exact hshort.nonneg
    obtain ⟨e, rfl⟩ := Nat.exists_eq_add_of_le hlast
    have hrest := (hk₁.snoc hu).rest hrun
    have hrest₁ : Updates (1 + e) m₁ m' := hk₁.rest (by rwa [← Nat.add_assoc])
    refine hu.detourFits hsquare (fun a ha b hb => ?_) (fun a ha b hb => ?_) (fun a ha b hb => ?_) i j l hd
    · exact (hpos a ha b hb).trans (hrest₁.cell_le hsquare a b)
    · exact (hk₁.cell_le h.square a b).trans (h.le_infinity a ha b hb)
    · exact (hpos a ha b hb).trans (hrest.cell_le (hu.square hsquare) a b)
  · intro hfits
    refine (h.covered.updates hrun fun e he m₁ hm₁ => ?_).shortens h.square.length
    exact hfits e (by omega) m₁ hm₁

/-- When all sums fit, so do those of the updates. -/
theorem SumsFit.detourFits (h : m.SumsFit) (hrun : Updates k m m₁) : m₁.DetourFits := by
  intro i j l hd
  obtain ⟨⟨hi, hj, hl⟩, -⟩ := firstDetour_eq_some hd
  exact ((hrun.keeps Update.sumsFit h) i hi j hj).2 l hl

end Covered

/-- Cells that are not negative at the end were not negative before. -/
theorem Shortens.nonneg_before (h : Table.Square n m.timeMatrix)
    (hshort : Shortens m (m.fixTriangleInequality 0).2) :
    ∀ i < n, ∀ j < n, 0 ≤ m.cell i j := by
  obtain ⟨depth, -, m', hloop, hrun, -⟩ := fixLoop_updates (m.timeMatrix.length + 1) 0 m
  have hfix : (m.fixTriangleInequality 0).2 = m' := by
    unfold fixTriangleInequality
    rw [Nat.sub_zero, hloop]
  rw [hfix] at hshort
  intro i hi j hj
  rw [← h.length] at hi hj
  exact (hshort.nonneg i hi j hj).trans (hrun.cell_le h i j)

/-- **When fixing a constructed matrix only shortens**: no product of a cost and the factor was
converted to a negative cell, and no update adds two cells that are too large together, as every
update does that adds a missing cell and one that is not 0. -/
theorem ofCells_shortens_iff (D : Doubles) (cells : List MatrixCell) (factor : ℚ) (nodeIds : List ℤ) :
    Shortens (ofCellsBy (fun cost => D.times cost factor) cells nodeIds)
        ((ofCellsBy (fun cost => D.times cost factor) cells nodeIds).fixTriangleInequality 0).2 ↔
      (∀ i < nodeIds.length, ∀ j < nodeIds.length,
        0 ≤ (ofCellsBy (fun cost => D.times cost factor) cells nodeIds).cell i j) ∧
      ∀ k ≤ nodeIds.length, ∀ m, Updates k (ofCellsBy (fun cost => D.times cost factor) cells nodeIds) m →
        m.DetourFits := by
  constructor
  · intro hshort
    have hnonneg := hshort.nonneg_before (square_ofCellsBy cells nodeIds)
    exact ⟨hnonneg, (raw_ofCellsBy D cells factor nodeIds hnonneg).shortens_iff.mp hshort⟩
  · rintro ⟨hnonneg, hfits⟩
    exact (raw_ofCellsBy D cells factor nodeIds hnonneg).shortens_iff.mpr hfits

/-- All three rows are given. -/
theorem ofCells_shortens_full :
    let m := ofCellsBy (fun cost => Doubles.nearest.times cost 1) [⟨1, 2, 1⟩, ⟨2, 3, 1⟩, ⟨1, 3, 9⟩] [1, 2, 3]
    m.cell 0 2 = 9 ∧ (m.fixTriangleInequality 0).2.cell 0 2 = 2 ∧
      Shortens m (m.fixTriangleInequality 0).2 := by
  refine ⟨by decide +kernel, by decide +kernel, ?_⟩
  refine (ofCells_shortens_iff .nearest _ _ _).mpr ⟨by decide +kernel, fun k _ m hrun => ?_⟩
  exact SumsFit.detourFits (by decide +kernel) hrun

/-- The largest cost becomes the smallest cell. -/
example : (ofCellsBy (fun cost => Doubles.nearest.times cost 1) [⟨1, 2, infinity⟩] [1, 2]).cell 0 1 =
    -infinity - 1 := by
  decide +kernel

/-- The third node has no row, and the way to it over the second one wraps around. -/
theorem fixed_below_zero :
    let m := ofCellsBy (fun cost => Doubles.nearest.times cost 1) [⟨1, 2, 5⟩] [1, 2, 3]
    m.cell 0 2 = infinity ∧ (m.fixTriangleInequality 0).2.cell 0 2 < 0 ∧
      ¬ Shortens m (m.fixTriangleInequality 0).2 := by
  refine ⟨by decide +kernel, by decide +kernel, fun h => ?_⟩
  have hnonneg := h.nonneg 0 (by decide +kernel) 2 (by decide +kernel)
  revert hnonneg
  decide +kernel

end VrpRouting.BaseMatrix
