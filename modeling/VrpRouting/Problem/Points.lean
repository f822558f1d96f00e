import Mathlib.Tactic.Ring
import VrpRouting.Problem.RowOrder

/-! # The matrix of points

The constructor for points stores the distance of every pair of points in both directions, and 0 on
the diagonal. With a distance that is symmetric, every cell holds the scaled distance of its two
points (`cell_ofPoints`), whatever the order of the loops. -/

namespace VrpRouting

theorem getDistance_comm (sqrt : ℚ → ℚ) (p q : ℚ × ℚ) : getDistance sqrt p q = getDistance sqrt q p := by
  unfold getDistance
  congr 1
  ring

namespace BaseMatrix

open LowerBound

section Points
variable {distance : ℚ × ℚ → ℚ × ℚ → ℚ} {multiplier : ℚ} {points : List ((ℚ × ℚ) × ℤ)}

/-- The entry of a pair of points. -/
def pairEntry (distance : ℚ × ℚ → ℚ × ℚ → ℚ) (multiplier : ℚ) (ids : List ℤ)
    (r : ((ℚ × ℚ) × ℤ) × ((ℚ × ℚ) × ℤ)) : (ℕ × ℕ) × ℤ :=
  ((LowerBound.lowerBound ids r.1.2, LowerBound.lowerBound ids r.2.2),
    toInterval (distance r.1.1 r.2.1 * multiplier))

theorem lowerBound_lt {ids : List ℤ} {id : ℤ} (hs : ids.Pairwise (· < ·)) (h : id ∈ ids) :
    LowerBound.lowerBound ids id < ids.length :=
  (List.getElem?_eq_some_iff.mp (getElem?_lowerBound hs h)).1

/-- One pair of points. -/
theorem insertDistanceBy_eq {m : BaseMatrix} (hs : m.ids.Pairwise (· < ·))
    (hm : Table.Square m.ids.length m.timeMatrix) {p q : (ℚ × ℚ) × ℤ} (hp : p.2 ∈ m.ids)
    (hq : q.2 ∈ m.ids) : m.insertDistanceBy (fun x => toInterval (x * multiplier)) distance p q =
      { m with timeMatrix := Table.putBoth m.timeMatrix (pairEntry distance multiplier m.ids (p, q)) } := by
  have hi : ∀ {id}, id ∈ m.ids → m.getIndex id = some (LowerBound.lowerBound m.ids id) := fun h =>
    getIndex_of_hasId ((found_iff hs).mpr h)
  have hcell : (m.setCell (LowerBound.lowerBound m.ids p.2) (LowerBound.lowerBound m.ids q.2)
      (toInterval (distance p.1 q.1 * multiplier))).cell (LowerBound.lowerBound m.ids p.2)
        (LowerBound.lowerBound m.ids q.2) =
      toInterval (distance p.1 q.1 * multiplier) :=
    (Table.cell_setCell (d := 0) hm (lowerBound_lt hs hp) (lowerBound_lt hs hq) _ _ _).trans
      (if_pos ⟨rfl, rfl⟩)
  unfold insertDistanceBy
  rw [hi hp, hi hq]
  dsimp only
  rw [hcell]
  rfl

variable (distance multiplier) in
/-- Pairs of points, one after the other. -/
theorem foldl_insertDistanceBy (pairs : List (((ℚ × ℚ) × ℤ) × ((ℚ × ℚ) × ℤ))) :
    ∀ {m : BaseMatrix}, m.ids.Pairwise (· < ·) → Table.Square m.ids.length m.timeMatrix →
      (∀ r ∈ pairs, r.1.2 ∈ m.ids ∧ r.2.2 ∈ m.ids) →
      pairs.foldl (fun m r =>
          m.insertDistanceBy (fun x => toInterval (x * multiplier)) distance r.1 r.2) m =
        { m with timeMatrix :=
            (pairs.map (pairEntry distance multiplier m.ids)).foldl Table.putBoth m.timeMatrix } := by
  induction pairs with
  | nil => exact fun _ _ _ => rfl
  | cons r pairs ih =>
    intro m hs hm hmem
    obtain ⟨⟨hp, hq⟩, hmem⟩ := List.forall_mem_cons.mp hmem
    rw [List.foldl_cons, insertDistanceBy_eq hs hm hp hq]
    exact ih hs (hm.putBoth _) hmem

/-- All pairs of points, in the order of the two loops. -/
def pairsOf (points : List ((ℚ × ℚ) × ℤ)) : List (((ℚ × ℚ) × ℤ) × ((ℚ × ℚ) × ℤ)) :=
  points.flatMap fun p => points.map fun q => (p, q)

theorem mem_pairsOf {r : ((ℚ × ℚ) × ℤ) × ((ℚ × ℚ) × ℤ)} :
    r ∈ pairsOf points ↔ r.1 ∈ points ∧ r.2 ∈ points := by
  simp only [pairsOf, List.mem_flatMap, List.mem_map]
  constructor
  · rintro ⟨p, hp, q, hq, rfl⟩
    exact ⟨hp, hq⟩
  · intro h
    exact ⟨r.1, h.1, r.2, h.2, rfl⟩

/-- The scaled distance of the points at two positions. -/
def scaledDistance (distance : ℚ × ℚ → ℚ × ℚ → ℚ) (multiplier : ℚ) (points : List ((ℚ × ℚ) × ℤ))
    (i j : ℕ) : ℤ :=
  toInterval (distance (points.getD i default).1 (points.getD j default).1 * multiplier)

section Increasing
variable (hs : (points.map Prod.snd).Pairwise (· < ·))
include hs

/-- A point stands at the position of its identifier. -/
theorem position_of_point {k : ℕ} {p : (ℚ × ℚ) × ℤ} (h : points[k]? = some p) :
    LowerBound.lowerBound (points.map Prod.snd) p.2 = k :=
  lowerBound_of_getElem? hs (by simp [h])

/-- The entry of two points holds their scaled distance. -/
theorem pairEntry_eq {r : ((ℚ × ℚ) × ℤ) × ((ℚ × ℚ) × ℤ)} (hr : r ∈ pairsOf points) :
    let e := pairEntry distance multiplier (points.map Prod.snd) r
    (e.1.1 < points.length ∧ e.1.2 < points.length) ∧
      e.2 = scaledDistance distance multiplier points e.1.1 e.1.2 := by
  obtain ⟨h1, h2⟩ := mem_pairsOf.mp hr
  obtain ⟨i, hi⟩ := List.mem_iff_getElem?.mp h1
  obtain ⟨j, hj⟩ := List.mem_iff_getElem?.mp h2
  simp only [pairEntry, position_of_point hs hi, position_of_point hs hj, scaledDistance,
    List.getD_eq_getElem?_getD, hi, hj, Option.getD_some]
  exact ⟨⟨(List.getElem?_eq_some_iff.mp hi).1, (List.getElem?_eq_some_iff.mp hj).1⟩, trivial⟩

/-- The two loops over the points fill the table. -/
theorem timeMatrix_ofPoints (distance : ℚ × ℚ → ℚ × ℚ → ℚ) (multiplier : ℚ) :
    ofPoints distance points multiplier = ⟨points.map Prod.snd,
      Table.setDiagonal 0 points.length (((pairsOf points).map
        (pairEntry distance multiplier (points.map Prod.snd))).foldl Table.putBoth
          (List.replicate points.length (List.replicate points.length infinity)))⟩ := by
  have hsquare : Table.Square (points.map Prod.snd).length
      (List.replicate points.length (List.replicate points.length infinity)) := by
    rw [List.length_map]
    exact .replicate _ _
  have hfilled := foldl_insertDistanceBy distance multiplier (pairsOf points)
    (m := ⟨points.map Prod.snd, _⟩) hs hsquare fun r hr =>
      ⟨List.mem_map_of_mem (mem_pairsOf.mp hr).1, List.mem_map_of_mem (mem_pairsOf.mp hr).2⟩
  simp only [pairsOf, List.foldl_flatMap, List.foldl_map] at hfilled
  unfold ofPoints ofPointsBy
  dsimp only
  rw [hfilled, foldl_diagonal]
  simp only [pairsOf, List.map_flatMap, List.foldl_flatMap, List.map_map, List.foldl_map]
  rfl

theorem square_ofPoints (distance : ℚ × ℚ → ℚ × ℚ → ℚ) (multiplier : ℚ) :
    Table.Square points.length (ofPoints distance points multiplier).timeMatrix := by
  rw [timeMatrix_ofPoints hs]
  exact Table.Square.setDiagonal
    (List.foldlRecOn _ _ (.replicate _ _) fun _ ht r _ => ht.putBoth r) _ _

variable (distance multiplier) in
/-- **The matrix of points**: the scaled distance of every two points, and 0 on the diagonal. -/
theorem cell_ofPoints (hd : ∀ p q, distance p q = distance q p) {i j : ℕ} {p q : (ℚ × ℚ) × ℤ}
    (hi : points[i]? = some p) (hj : points[j]? = some q) :
    (ofPoints distance points multiplier).cell i j =
      if i = j then 0 else toInterval (distance p.1 q.1 * multiplier) := by
  have hin : i < points.length := (List.getElem?_eq_some_iff.mp hi).1
  have hval : scaledDistance distance multiplier points i j =
      toInterval (distance p.1 q.1 * multiplier) := by
    simp only [scaledDistance, List.getD_eq_getElem?_getD, hi, hj, Option.getD_some]
  have hwritten : (i, j) ∈ ((pairsOf points).map
      (pairEntry distance multiplier (points.map Prod.snd))).map Prod.fst := by
    have hpair : (p, q) ∈ pairsOf points :=
      mem_pairsOf.mpr ⟨List.mem_of_getElem? hi, List.mem_of_getElem? hj⟩
    refine List.mem_map.mpr ⟨_, List.mem_map_of_mem hpair, ?_⟩
    simp only [pairEntry, position_of_point hs hi, position_of_point hs hj]
  have hsquare := Table.Square.replicate points.length infinity
  have hcell := Table.cell_foldl_putBoth (d := 0) (g := scaledDistance distance multiplier points)
    (fun i j => by unfold scaledDistance; rw [hd]) hsquare
    (List.forall_mem_map.mpr fun r hr => (pairEntry_eq hs hr).1)
    (List.forall_mem_map.mpr fun r hr => (pairEntry_eq hs hr).2) i j
  rw [if_pos (Or.inl hwritten), hval] at hcell
  rw [timeMatrix_ofPoints hs]
  refine (Table.cell_setDiagonal (d := 0) (n := points.length) ?_ 0 le_rfl i j).trans ?_
  · exact List.foldlRecOn _ _ hsquare fun _ ht r _ => ht.putBoth r
  · rw [hcell]
    simp [hin]

end Increasing

end Points

end BaseMatrix

end VrpRouting
