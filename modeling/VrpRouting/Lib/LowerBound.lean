import Mathlib.Data.List.Basic
import Mathlib.Order.Lattice

/-! # Binary search in an increasing list

`lowerBound` is the insertion point of a value in an increasing list: the first position whose element
is not below it. A lookup that only tests whether the search has ended behind the last element
(`position?`) takes the insertion point of an absent value for its position; it is right exactly for
the values that are there and for those behind all elements (`lookup_iff`). -/

namespace LowerBound

variable {α : Type*} [LinearOrder α]

/-- `std::lower_bound`: the first position whose element is not below `a`. -/
def lowerBound (l : List α) (a : α) : ℕ := l.findIdx fun x => decide (a ≤ x)

/-- The search finds `a` itself. -/
def found (l : List α) (a : α) : Bool := l[lowerBound l a]? == some a

/-- The result of the search, unless it has ended behind the last element. -/
def position? (l : List α) (a : α) : Option ℕ :=
  if lowerBound l a = l.length then none else some (lowerBound l a)

variable {l : List α} {a : α}

theorem lowerBound_eq_length_iff : lowerBound l a = l.length ↔ ∀ x ∈ l, x < a := by
  simp [lowerBound, List.findIdx_eq_length]

theorem position?_eq_none_iff : position? l a = none ↔ ∀ x ∈ l, x < a := by
  rw [← lowerBound_eq_length_iff]
  simp [position?]

theorem position?_eq_some_iff {i : ℕ} :
    position? l a = some i ↔ lowerBound l a = i ∧ i < l.length := by
  have hle : lowerBound l a ≤ l.length := List.findIdx_le_length
  unfold position?
  split_ifs with h
  · simp only [false_iff, not_and]
    omega
  · rw [Option.some_inj]
    omega

/-- In an increasing list, the search for an element ends at its position. -/
theorem lowerBound_of_getElem? (hs : l.Pairwise (· < ·)) {i : ℕ} (h : l[i]? = some a) :
    lowerBound l a = i := by
  obtain ⟨hi, rfl⟩ := List.getElem?_eq_some_iff.mp h
  refine (List.findIdx_eq hi).mpr ⟨by simp, fun j hj => ?_⟩
  have hlt := List.pairwise_iff_getElem.mp hs j i (hj.trans hi) hi hj
  simpa using hlt

theorem getElem?_lowerBound (hs : l.Pairwise (· < ·)) (ha : a ∈ l) :
    l[lowerBound l a]? = some a := by
  obtain ⟨i, hi, rfl⟩ := List.getElem_of_mem ha
  have h := List.getElem?_eq_getElem hi
  rw [lowerBound_of_getElem? hs h, h]

theorem found_iff (hs : l.Pairwise (· < ·)) : found l a = true ↔ a ∈ l := by
  rw [found, beq_iff_eq]
  exact ⟨List.mem_of_getElem?, getElem?_lowerBound hs⟩

/-- Positions and elements belong together for the elements of the list. -/
theorem position?_eq_some_iff_of_mem (hs : l.Pairwise (· < ·)) (ha : a ∈ l) {i : ℕ} :
    position? l a = some i ↔ l[i]? = some a := by
  rw [position?_eq_some_iff]
  constructor
  · rintro ⟨rfl, -⟩
    exact getElem?_lowerBound hs ha
  · intro h
    exact ⟨lowerBound_of_getElem? hs h, (List.getElem?_eq_some_iff.mp h).1⟩

/-- **When a lookup is right**: its positions are those of the value, and it fails exactly when the
value is absent. -/
theorem lookup_iff (hs : l.Pairwise (· < ·)) :
    ((∀ i, position? l a = some i ↔ l[i]? = some a) ∧ (position? l a = none ↔ found l a = false)) ↔
      a ∈ l ∨ ∀ x ∈ l, x < a := by
  rw [← Bool.not_eq_true, found_iff hs, position?_eq_none_iff]
  constructor
  · rintro ⟨-, hnone⟩
    by_cases ha : a ∈ l
    · exact Or.inl ha
    · exact Or.inr (hnone.mpr ha)
  · rintro (ha | hlt)
    · refine ⟨fun i => position?_eq_some_iff_of_mem hs ha, fun h => ?_, fun h => absurd ha h⟩
      exact fun _ => lt_irrefl a (h a ha)
    · have ha : a ∉ l := fun ha => lt_irrefl a (hlt a ha)
      refine ⟨fun i => ⟨fun h => ?_, fun h => absurd (List.mem_of_getElem? h) ha⟩,
        fun _ => ha, fun _ => hlt⟩
      rw [position?_eq_none_iff.mpr hlt] at h
      cases h

end LowerBound
