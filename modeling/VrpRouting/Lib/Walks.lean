import Mathlib.Algebra.Order.Monoid.Defs
import Mathlib.Order.Bounds.Basic

/-! # Walks along weighted edges

`Walk edge i j w` is a walk from `i` to `j` of the length `w`, `IsDistance` the least length of all
walks, and `Reaches edge i j w` says that some walk is not longer than `w`. What is put together from
two such bounds is again one (`Reaches.append`), and none is below the distance
(`Reaches.distance_le`). -/

namespace Walks

variable {ι W : Type} [AddMonoid W] (edge : ι → ι → W → Prop)

/-- There is a walk of the length `w`. -/
inductive Walk : ι → ι → W → Prop
  | nil (i : ι) : Walk i i 0
  | cons {i j k : ι} {v w : W} : edge i j v → Walk j k w → Walk i k (v + w)

variable {edge} {i j k : ι} {v w : W}

theorem Walk.single (h : edge i j w) : Walk edge i j w := by
  have hwalk : Walk edge i j (w + 0) := .cons h (.nil j)
  rwa [add_zero] at hwalk

theorem Walk.append (h : Walk edge i j v) (h' : Walk edge j k w) : Walk edge i k (v + w) := by
  induction h with
  | nil =>
    rw [zero_add]
    exact h'
  | cons hedge _ ih =>
    rw [add_assoc]
    exact .cons hedge (ih h')

section Bounds
variable [LE W] (edge i j)

/-- The length of a shortest walk. -/
def IsDistance (d : W) : Prop := IsLeast {w | Walk edge i j w} d

/-- Some walk is not longer than `w`. -/
def Reaches (w : W) : Prop := ∃ v ≤ w, Walk edge i j v

end Bounds

variable [Preorder W]

theorem Reaches.single (h : edge i j w) : Reaches edge i j w := ⟨w, le_rfl, .single h⟩

theorem Reaches.append [AddLeftMono W] [AddRightMono W] (h : Reaches edge i j v)
    (h' : Reaches edge j k w) : Reaches edge i k (v + w) := by
  obtain ⟨v', hv, hwalk⟩ := h
  obtain ⟨w', hw, hwalk'⟩ := h'
  exact ⟨v' + w', add_le_add hv hw, hwalk.append hwalk'⟩

theorem Reaches.distance_le (h : Reaches edge i j w) {d : W} (hd : IsDistance edge i j d) : d ≤ w := by
  obtain ⟨v, hv, hwalk⟩ := h
  exact (hd.2 hwalk).trans hv

theorem Reaches.exists_walk (h : Reaches edge i j w) : ∃ v, Walk edge i j v := by
  obtain ⟨v, -, hwalk⟩ := h
  exact ⟨v, hwalk⟩

end Walks
