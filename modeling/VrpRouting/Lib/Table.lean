import Mathlib.Data.List.Nodup
import VrpRouting.Lib.Keyed
import VrpRouting.Lib.LowerBound

/-! # Square tables that are filled in both directions

A table is a list of rows, `Square n` when it has `n` rows of `n` cells. `fill` stores one entry after
the other; an entry is stored in the opposite direction too when the cell there is still missing, and
a later entry of that direction overwrites it. The result does not depend on the order of the
entries (`cell_fill`): a cell holds its own entry, else that of the opposite direction, else what was
there at the start. `fillSelected` is the same for entries between identifiers, of which some are
selected and stand at the positions of an increasing list. -/

namespace Table

variable {γ : Type}

/-- The content of the cell `(i, j)`, `d` outside the table. -/
def cell (d : γ) (t : List (List γ)) (i j : ℕ) : γ := (t.getD i []).getD j d

/-- Assignment to the cell `(i, j)`. -/
def setCell (t : List (List γ)) (i j : ℕ) (v : γ) : List (List γ) := t.modify i fun row => row.set j v

/-- The table has `n` rows of `n` cells. -/
structure Square (n : ℕ) (t : List (List γ)) : Prop where
  length : t.length = n
  row : ∀ r ∈ t, r.length = n

section Cells
variable {d : γ} {t : List (List γ)} {n i j : ℕ}

theorem Square.setCell (h : Square n t) (i j : ℕ) (v : γ) : Square n (setCell t i j v) := by
  unfold Table.setCell
  refine ⟨by rw [List.length_modify, h.length], fun r hr => ?_⟩
  obtain ⟨k, hk, rfl⟩ := List.getElem_of_mem hr
  rw [List.length_modify] at hk
  rw [List.getElem_modify]
  have hrow := h.row t[k] (List.getElem_mem hk)
  split_ifs
  · rw [List.length_set, hrow]
  · exact hrow

theorem Square.replicate (n : ℕ) (v : γ) : Square n (List.replicate n (List.replicate n v)) :=
  ⟨List.length_replicate, fun r hr => by rw [(List.mem_replicate.mp hr).2, List.length_replicate]⟩

theorem cell_replicate (hi : i < n) (hj : j < n) (v : γ) :
    cell d (List.replicate n (List.replicate n v)) i j = v := by
  simp [cell, hi, hj]

/-- Assignment changes the one cell. -/
theorem cell_setCell (h : Square n t) (hi : i < n) (hj : j < n) (v : γ) (a b : ℕ) :
    cell d (setCell t i j v) a b = if a = i ∧ b = j then v else cell d t a b := by
  obtain rfl := h.length
  have hrow := h.row t[i] (List.getElem_mem _)
  unfold cell Table.setCell
  simp only [List.getD_eq_getElem?_getD, List.getElem?_modify]
  by_cases ha : a = i
  · subst ha
    by_cases hb : b = j
    · subst hb
      simp [hrow, hi, hj]
    · simp [hi, hb, Ne.symm hb]
  · simp [ha, Ne.symm ha]

/-- Square tables with the same cells are equal. -/
theorem ext_cell {t' : List (List γ)} (h : Square n t) (h' : Square n t')
    (hc : ∀ i < n, ∀ j < n, cell d t i j = cell d t' i j) : t = t' := by
  refine List.ext_getElem (h.length.trans h'.length.symm) fun i hi hi' => ?_
  have hr := h.row t[i] (List.getElem_mem _)
  have hr' := h'.row t'[i] (List.getElem_mem _)
  refine List.ext_getElem (hr.trans hr'.symm) fun j hj hj' => ?_
  have hij := hc i (by rwa [← h.length]) j (by rwa [← hr])
  simpa [cell, hi, hi', hj, hj'] using hij

/-- Some cell passes the test. -/
theorem any_any_iff (h : Square n t) (p : γ → Bool) :
    (t.any fun row => row.any p) = true ↔ ∃ i < n, ∃ j < n, p (cell d t i j) = true := by
  simp only [List.any_eq_true]
  constructor
  · rintro ⟨row, hrow, v, hv, hp⟩
    obtain ⟨i, hi, rfl⟩ := List.getElem_of_mem hrow
    obtain ⟨j, hj, rfl⟩ := List.getElem_of_mem hv
    refine ⟨i, by rwa [← h.length], j, by rwa [← h.row _ hrow], ?_⟩
    simpa [cell, hi, hj] using hp
  · rintro ⟨i, hi, j, hj, hp⟩
    obtain rfl := h.length
    have hrow := h.row t[i] (List.getElem_mem _)
    have hj' : j < t[i].length := by rwa [hrow]
    exact ⟨t[i], List.getElem_mem _, t[i][j], List.getElem_mem _, by simpa [cell, hi, hj'] using hp⟩

theorem cell_map {δ : Type} (f : γ → δ) (i j : ℕ) :
    cell (f d) (t.map fun row => row.map f) i j = f (cell d t i j) := by
  unfold cell
  simp only [List.getD_eq_getElem?_getD, List.getElem?_map]
  cases t[i]? with
  | none => rfl
  | some row => cases h : row[j]? <;> simp [h]

end Cells

/-! ### Entries -/

section Entries
variable {κ : Type} [DecidableEq κ]

/-- The value of the first entry with the key. -/
def given (rows : List (κ × γ)) (k : κ) : Option γ :=
  (rows.find? fun r => decide (r.1 = k)).map Prod.snd

variable {rows : List (κ × γ)} {k : κ} {v : γ}

theorem given_eq_some_iff (hn : (rows.map Prod.fst).Nodup) : given rows k = some v ↔ (k, v) ∈ rows := by
  unfold given
  constructor
  · intro h
    obtain ⟨r, hr, rfl⟩ := Option.map_eq_some_iff.mp h
    have hk : r.1 = k := by simpa using List.find?_some hr
    rw [← hk]
    exact List.mem_of_find?_eq_some hr
  · intro h
    have hfind := Keyed.find?_key hn h
    rw [hfind]
    rfl

theorem given_eq_none_iff : given rows k = none ↔ ∀ r ∈ rows, r.1 ≠ k := by
  simp [given]

/-- With distinct keys the order does not matter. -/
theorem given_perm {rows' : List (κ × γ)} (hn : (rows.map Prod.fst).Nodup) (hp : rows'.Perm rows) :
    given rows' k = given rows k := by
  have hn' : (rows'.map Prod.fst).Nodup := (hp.map Prod.fst).nodup_iff.mpr hn
  exact Option.ext fun v => by rw [given_eq_some_iff hn', given_eq_some_iff hn, hp.mem_iff]

theorem given_append (rows' : List (κ × γ)) :
    given (rows ++ rows') k = (given rows k).or (given rows' k) := by
  unfold given
  rw [List.find?_append, Option.map_or]

@[simp] theorem given_singleton (r : κ × γ) : given [r] k = if r.1 = k then some r.2 else none := by
  unfold given
  split_ifs with h
  · simp [h]
  · simp [h]

end Entries

/-! ### Filling -/

section Fill
variable (d : γ) (missing : γ → Bool)

/-- An entry is stored, and in the opposite direction too when that is missing. -/
def put (t : List (List γ)) (r : (ℕ × ℕ) × γ) : List (List γ) :=
  let t' := setCell t r.1.1 r.1.2 r.2
  if missing (cell d t' r.1.2 r.1.1) then setCell t' r.1.2 r.1.1 (cell d t' r.1.1 r.1.2) else t'

def fill (t : List (List γ)) (rows : List ((ℕ × ℕ) × γ)) : List (List γ) := rows.foldl (put d missing) t

variable {d missing} {n : ℕ} {t : List (List γ)}

theorem Square.put (h : Square n t) (r : (ℕ × ℕ) × γ) : Square n (put d missing t r) := by
  unfold Table.put
  dsimp only
  split_ifs
  · exact (h.setCell _ _ _).setCell _ _ _
  · exact h.setCell _ _ _

theorem Square.fill (h : Square n t) (rows : List ((ℕ × ℕ) × γ)) : Square n (fill d missing t rows) :=
  List.foldlRecOn _ _ h fun _ ht r _ => ht.put r

/-- What one entry does to a cell. -/
theorem cell_put (h : Square n t) {a b : ℕ} (ha : a < n) (hb : b < n) (v : γ) (i j : ℕ) :
    cell d (put d missing t ((a, b), v)) i j =
      if i = a ∧ j = b then v
      else if i = b ∧ j = a ∧ missing (cell d t i j) = true then v else cell d t i j := by
  have h1 := cell_setCell (d := d) h ha hb v
  have h2 := cell_setCell (d := d) (h.setCell a b v) hb ha v
  unfold put
  simp only [h1, and_self, if_true]
  by_cases hab : b = a ∧ a = b
  · obtain ⟨rfl, -⟩ := hab
    simp only [and_self, if_true]
    split_ifs <;> simp_all
  · rw [if_neg hab]
    by_cases hm : missing (cell d t b a) = true
    · rw [if_pos hm, h2, h1]
      by_cases hij : i = b ∧ j = a
      · obtain ⟨rfl, rfl⟩ := hij
        simp [hm]
      · rw [if_neg hij]
        have : ¬ (i = b ∧ j = a ∧ missing (cell d t i j) = true) := fun h => hij ⟨h.1, h.2.1⟩
        rw [if_neg this]
    · rw [if_neg hm, h1]
      have : ¬ (i = b ∧ j = a ∧ missing (cell d t i j) = true) := by
        rintro ⟨rfl, rfl, hm'⟩
        exact hm hm'
      rw [if_neg this]

/-- Entries of other cells change nothing. -/
theorem cell_fill_of_not_given (h : Square n t) {rows : List ((ℕ × ℕ) × γ)}
    (hb : ∀ r ∈ rows, r.1.1 < n ∧ r.1.2 < n) {i j : ℕ} (h1 : given rows (i, j) = none)
    (h2 : given rows (j, i) = none) : cell d (fill d missing t rows) i j = cell d t i j := by
  induction rows generalizing t with
  | nil => rfl
  | cons r rows ih =>
    obtain ⟨⟨a, b⟩, v⟩ := r
    obtain ⟨hab, hb⟩ := List.forall_mem_cons.mp hb
    obtain ⟨hr1, h1⟩ := List.forall_mem_cons.mp (given_eq_none_iff.mp h1)
    obtain ⟨hr2, h2⟩ := List.forall_mem_cons.mp (given_eq_none_iff.mp h2)
    have hput : Square n (put d missing t ((a, b), v)) := h.put _
    have hstep := ih hput hb
      (given_eq_none_iff.mpr h1) (given_eq_none_iff.mpr h2)
    refine hstep.trans ?_
    rw [cell_put h hab.1 hab.2, if_neg, if_neg]
    · rintro ⟨rfl, rfl, -⟩
      exact hr2 rfl
    · rintro ⟨rfl, rfl⟩
      exact hr1 rfl

/-- **The filled table.** -/
theorem cell_fill (h : Square n t) {rows : List ((ℕ × ℕ) × γ)} (hn : (rows.map Prod.fst).Nodup)
    (hb : ∀ r ∈ rows, r.1.1 < n ∧ r.1.2 < n) {i j : ℕ} (hmiss : missing (cell d t i j) = true)
    (hv : ∀ w, given rows (i, j) = some w → missing w = false) : cell d (fill d missing t rows) i j =
      ((given rows (i, j)).or (given rows (j, i))).getD (cell d t i j) := by
  induction rows using List.reverseRecOn with
  | nil => rfl
  | append_singleton rows r ih =>
    obtain ⟨⟨a, b⟩, v⟩ := r
    rw [List.map_append, List.nodup_append] at hn
    obtain ⟨hn, -, hnew⟩ := hn
    obtain ⟨hin, hlast⟩ := List.forall_mem_append.mp hb
    obtain ⟨ha', hb'⟩ := hlast _ (List.mem_singleton_self _)
    have hok : ∀ w, given rows (i, j) = some w → missing w = false := fun w hw =>
      hv w (by rw [given_append, hw, Option.some_or])
    -- the new entry is the first one of its cell
    have hab : given rows (a, b) = none := given_eq_none_iff.mpr fun r hr =>
      hnew r.1 (List.mem_map_of_mem hr) (a, b) (by simp)
    have ih := ih hn hin hok
    have hfill : fill d missing t (rows ++ [((a, b), v)]) =
        put d missing (fill d missing t rows) ((a, b), v) := by
      simp [fill]
    rw [hfill, cell_put (h.fill rows) ha' hb', ih, given_append, given_append, given_singleton,
      given_singleton]
    simp only [Prod.mk.injEq]
    by_cases h1 : i = a ∧ j = b
    · obtain ⟨rfl, rfl⟩ := h1
      simp [hab]
    have h1' : ¬ (a = i ∧ b = j) := fun hr => h1 ⟨hr.1.symm, hr.2.symm⟩
    rw [if_neg h1, if_neg h1', Option.or_none]
    by_cases h2 : i = b ∧ j = a
    · obtain ⟨rfl, rfl⟩ := h2
      rw [hab, Option.or_none]
      cases hg : given rows (i, j) with
      | none => simp [hmiss]
      | some w => simp [hok w hg]
    · have h2' : ¬ (a = j ∧ b = i) := fun hr => h2 ⟨hr.2.symm, hr.1.symm⟩
      rw [if_neg fun hr => h2 ⟨hr.1, hr.2.1⟩, if_neg h2', Option.or_none]

/-- What holds of the cells at the start and of the entries holds of the filled table. -/
theorem forall_cell_fill {P : γ → Prop} (h : Square n t) {rows : List ((ℕ × ℕ) × γ)}
    (hb : ∀ r ∈ rows, r.1.1 < n ∧ r.1.2 < n) (hr : ∀ r ∈ rows, P r.2) {i j : ℕ}
    (ht : P (cell d t i j)) : P (cell d (fill d missing t rows) i j) := by
  induction rows generalizing t with
  | nil => exact ht
  | cons r rows ih =>
    obtain ⟨⟨a, b⟩, v⟩ := r
    obtain ⟨hab, hb⟩ := List.forall_mem_cons.mp hb
    obtain ⟨hv, hr⟩ := List.forall_mem_cons.mp hr
    refine ih (h.put ((a, b), v)) hb hr ?_
    rw [cell_put h hab.1 hab.2]
    split_ifs
    · exact hv
    · exact hv
    · exact ht

/-! ### Both directions at once -/

section Both
variable {d : γ} {n : ℕ} {t : List (List γ)} {g : ℕ → ℕ → γ}

/-- An entry is stored in both directions. -/
def putBoth (t : List (List γ)) (r : (ℕ × ℕ) × γ) : List (List γ) :=
  setCell (setCell t r.1.1 r.1.2 r.2) r.1.2 r.1.1 r.2

theorem Square.putBoth (h : Square n t) (r : (ℕ × ℕ) × γ) : Square n (putBoth t r) :=
  (h.setCell _ _ _).setCell _ _ _

/-- Entries with the values of a symmetric function: every cell that is written in one direction
holds its value. -/
theorem cell_foldl_putBoth (hg : ∀ i j, g i j = g j i) {rows : List ((ℕ × ℕ) × γ)}
    (h : Square n t) (hb : ∀ r ∈ rows, r.1.1 < n ∧ r.1.2 < n) (hv : ∀ r ∈ rows, r.2 = g r.1.1 r.1.2)
    (a b : ℕ) : cell d (rows.foldl putBoth t) a b =
      if (a, b) ∈ rows.map Prod.fst ∨ (b, a) ∈ rows.map Prod.fst then g a b else cell d t a b := by
  induction rows generalizing t with
  | nil => simp
  | cons r rows ih =>
    obtain ⟨⟨i, j⟩, v⟩ := r
    obtain ⟨⟨hi, hj⟩, hb'⟩ := List.forall_mem_cons.mp hb
    obtain ⟨hr, hv'⟩ := List.forall_mem_cons.mp hv
    dsimp only at hi hj hr
    subst hr
    have hput : cell d (putBoth t ((i, j), g i j)) a b =
        if (a, b) = (i, j) ∨ (b, a) = (i, j) then g a b else cell d t a b := by
      unfold putBoth
      dsimp only
      rw [cell_setCell (h.setCell i j _) hj hi, cell_setCell h hi hj]
      simp only [Prod.mk.injEq]
      by_cases h1 : a = i ∧ b = j
      · obtain ⟨rfl, rfl⟩ := h1
        simp
      · by_cases h2 : a = j ∧ b = i
        · obtain ⟨rfl, rfl⟩ := h2
          simp [hg]
        · simp [h1, h2, and_comm]
    rw [List.foldl_cons, ih (h.putBoth _) hb' hv', hput]
    simp only [List.map_cons, List.mem_cons]
    split_ifs <;> first | rfl | tauto

end Both

/-! ### The diagonal -/

/-- The first `k` cells of the diagonal are set. -/
def setDiagonal (v : γ) (k : ℕ) (t : List (List γ)) : List (List γ) :=
  (List.range k).foldl (fun t i => setCell t i i v) t

theorem Square.setDiagonal (h : Square n t) (v : γ) (k : ℕ) : Square n (setDiagonal v k t) :=
  List.foldlRecOn _ _ h fun _ ht i _ => ht.setCell i i v

theorem cell_setDiagonal (h : Square n t) (v : γ) {k : ℕ} (hk : k ≤ n) (a b : ℕ) :
    cell d (setDiagonal v k t) a b = if a = b ∧ a < k then v else cell d t a b := by
  induction k with
  | zero => simp [setDiagonal]
  | succ k ih =>
    have hlast : setDiagonal v (k + 1) t = setCell (setDiagonal v k t) k k v := by
      simp [setDiagonal, List.range_succ]
    rw [hlast, cell_setCell (h.setDiagonal v k) hk hk, ih (Nat.le_of_lt hk)]
    by_cases h1 : a = k ∧ b = k
    · rw [if_pos h1, if_pos (by omega)]
    · rw [if_neg h1]
      exact if_congr (by omega) rfl rfl

end Fill

/-! ### Selected identifiers -/

section Selected
open LowerBound
variable {ι : Type} [LinearOrder ι]

/-- The entry with the positions of its identifiers, if both are selected. -/
def locate (ids : List ι) (r : (ι × ι) × γ) : Option ((ℕ × ℕ) × γ) :=
  if found ids r.1.1 && found ids r.1.2 then
    some ((lowerBound ids r.1.1, lowerBound ids r.1.2), r.2)
  else none

variable {ids : List ι}

theorem locate_eq_some {r : (ι × ι) × γ} {r' : (ℕ × ℕ) × γ} (h : locate ids r = some r') :
    ids[r'.1.1]? = some r.1.1 ∧ ids[r'.1.2]? = some r.1.2 ∧ r'.2 = r.2 := by
  unfold locate at h
  split_ifs at h with hf
  obtain rfl := Option.some.inj h
  simp only [found, Bool.and_eq_true, beq_iff_eq] at hf
  exact ⟨hf.1, hf.2, rfl⟩

theorem locate_of_mem (hs : ids.Pairwise (· < ·)) {i j : ℕ} {a b : ι} (ha : ids[i]? = some a)
    (hb : ids[j]? = some b) (v : γ) : locate ids ((a, b), v) = some ((i, j), v) := by
  unfold locate
  rw [(found_iff hs).mpr (List.mem_of_getElem? ha), (found_iff hs).mpr (List.mem_of_getElem? hb),
    lowerBound_of_getElem? hs ha, lowerBound_of_getElem? hs hb]
  rfl

theorem lt_of_locate {rows : List ((ι × ι) × γ)} : ∀ r ∈ rows.filterMap (locate ids),
    r.1.1 < ids.length ∧ r.1.2 < ids.length := by
  intro r hr
  obtain ⟨_, -, h⟩ := List.mem_filterMap.mp hr
  obtain ⟨h1, h2, -⟩ := locate_eq_some h
  exact ⟨(List.getElem?_eq_some_iff.mp h1).1, (List.getElem?_eq_some_iff.mp h2).1⟩

theorem nodup_locate {rows : List ((ι × ι) × γ)} (hn : (rows.map Prod.fst).Nodup) :
    ((rows.filterMap (locate ids)).map Prod.fst).Nodup := by
  refine List.pairwise_map.mpr (List.pairwise_filterMap.mpr ?_)
  refine (List.pairwise_map.mp hn).imp fun {r r'} hne s hs s' hs' heq => hne ?_
  obtain ⟨h1, h2, -⟩ := locate_eq_some hs
  obtain ⟨h1', h2', -⟩ := locate_eq_some hs'
  rw [heq] at h1 h2
  exact Prod.ext (Option.some.inj (h1.symm.trans h1')) (Option.some.inj (h2.symm.trans h2'))

/-- The entry of two selected identifiers is found at their positions. -/
theorem given_locate (hs : ids.Pairwise (· < ·)) (rows : List ((ι × ι) × γ)) {i j : ℕ} {a b : ι}
    (ha : ids[i]? = some a) (hb : ids[j]? = some b) :
    given (rows.filterMap (locate ids)) (i, j) = given rows (a, b) := by
  have hkey : ∀ r : (ι × ι) × γ, ((locate ids r).any fun r' => decide (r'.1 = (i, j))) =
      decide (r.1 = (a, b)) := by
    intro r
    rw [Bool.eq_iff_iff, Option.any_eq_true, decide_eq_true_iff]
    constructor
    · rintro ⟨r', hr', hij⟩
      obtain ⟨h1, h2, -⟩ := locate_eq_some hr'
      rw [of_decide_eq_true hij] at h1 h2
      exact Prod.ext (Option.some.inj (h1.symm.trans ha)) (Option.some.inj (h2.symm.trans hb))
    · obtain ⟨k, v⟩ := r
      rintro rfl
      exact ⟨_, locate_of_mem hs ha hb v, by simp⟩
  unfold given
  rw [List.find?_filterMap]
  simp only [hkey]
  cases hf : rows.find? fun r => decide (r.1 = (a, b)) with
  | none => rfl
  | some r =>
    obtain ⟨k, v⟩ := r
    obtain rfl : k = (a, b) := by simpa using List.find?_some hf
    rw [Option.bind_some, locate_of_mem hs ha hb]
    rfl

variable (d : γ) (missing : γ → Bool)

/-- The entries between selected identifiers, in a table of missing cells. -/
def fillSelected (ids : List ι) (start : γ) (rows : List ((ι × ι) × γ)) : List (List γ) :=
  fill d missing (List.replicate ids.length (List.replicate ids.length start))
    (rows.filterMap (locate ids))

variable {d missing}

theorem square_fillSelected (start : γ) (rows : List ((ι × ι) × γ)) :
    Square ids.length (fillSelected d missing ids start rows) := (Square.replicate _ _).fill _

theorem cell_fillSelected_of_not_given (hs : ids.Pairwise (· < ·)) (start : γ)
    {rows : List ((ι × ι) × γ)} {i j : ℕ} {a b : ι} (ha : ids[i]? = some a) (hb : ids[j]? = some b)
    (h1 : given rows (a, b) = none) (h2 : given rows (b, a) = none) :
    cell d (fillSelected d missing ids start rows) i j = start := by
  rw [← given_locate hs rows ha hb] at h1
  rw [← given_locate hs rows hb ha] at h2
  refine (cell_fill_of_not_given (Square.replicate _ _) lt_of_locate h1 h2).trans ?_
  exact cell_replicate (List.getElem?_eq_some_iff.mp ha).1 (List.getElem?_eq_some_iff.mp hb).1 start

/-- **The filled table of selected identifiers.** -/
theorem cell_fillSelected (hs : ids.Pairwise (· < ·)) {start : γ} (hmiss : missing start = true)
    {rows : List ((ι × ι) × γ)} (hn : (rows.map Prod.fst).Nodup)
    {i j : ℕ} {a b : ι} (ha : ids[i]? = some a) (hb : ids[j]? = some b)
    (hv : ∀ w, given rows (a, b) = some w → missing w = false) :
    cell d (fillSelected d missing ids start rows) i j =
      ((given rows (a, b)).or (given rows (b, a))).getD start := by
  have hstart := cell_replicate (d := d) (List.getElem?_eq_some_iff.mp ha).1
    (List.getElem?_eq_some_iff.mp hb).1 start
  rw [← given_locate hs rows ha hb] at hv
  have hfill := cell_fill (d := d) (Square.replicate ids.length start) (nodup_locate hn) lt_of_locate
    (by rw [hstart, hmiss]) hv
  unfold fillSelected
  rw [hfill, given_locate hs rows ha hb, given_locate hs rows hb ha, hstart]

/-- With distinct keys and no missing value, the table does not depend on the order of the rows. -/
theorem fillSelected_perm (hs : ids.Pairwise (· < ·)) {start : γ} (hmiss : missing start = true)
    {rows rows' : List ((ι × ι) × γ)} (hn : (rows.map Prod.fst).Nodup) (hp : rows'.Perm rows)
    (hv : ∀ r ∈ rows, missing r.2 = false) :
    fillSelected d missing ids start rows' = fillSelected d missing ids start rows := by
  have hn' : (rows'.map Prod.fst).Nodup := (hp.map _).nodup_iff.mpr hn
  have hv' : ∀ k w, given rows k = some w → missing w = false := fun k w hw =>
    hv _ ((given_eq_some_iff hn).mp hw)
  refine ext_cell (d := d) (square_fillSelected _ _) (square_fillSelected _ _) fun i hi j hj => ?_
  have ha := List.getElem?_eq_getElem hi
  have hb := List.getElem?_eq_getElem hj
  rw [cell_fillSelected hs hmiss hn ha hb fun w => hv' _ w,
    cell_fillSelected hs hmiss hn' ha hb fun w hw => hv' _ w (given_perm hn hp ▸ hw),
    given_perm hn hp, given_perm hn hp]

theorem forall_cell_fillSelected {P : γ → Prop} {start : γ} {rows : List ((ι × ι) × γ)}
    (hr : ∀ r ∈ rows, P r.2) (hstart : P start) {i j : ℕ} (hi : i < ids.length) (hj : j < ids.length) :
    P (cell d (fillSelected d missing ids start rows) i j) := by
  refine forall_cell_fill (Square.replicate _ _) lt_of_locate (fun r h => ?_) ?_
  · obtain ⟨r', hr', h⟩ := List.mem_filterMap.mp h
    rw [(locate_eq_some h).2.2]
    exact hr r' hr'
  · rwa [cell_replicate hi hj]

/-- Entries of other identifiers have no influence. -/
theorem fillSelected_filter (start : γ) (rows : List ((ι × ι) × γ)) :
    fillSelected d missing ids start (rows.filter fun r => decide (r.1.1 ∈ ids ∧ r.1.2 ∈ ids)) =
      fillSelected d missing ids start rows := by
  unfold fillSelected
  rw [List.filterMap_filter]
  congr 2
  funext r
  by_cases hr : r.1.1 ∈ ids ∧ r.1.2 ∈ ids
  · simp [hr]
  · have hnone : locate ids r = none := by
      refine Option.eq_none_iff_forall_ne_some.mpr fun r' h => hr ?_
      obtain ⟨h1, h2, -⟩ := locate_eq_some h
      exact ⟨List.mem_of_getElem? h1, List.mem_of_getElem? h2⟩
    simp [hr, hnone]

end Selected

end Table
