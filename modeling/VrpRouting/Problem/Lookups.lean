import VrpRouting.Problem.RowOrder
import VrpRouting.Vroom.Matrix

/-! # Identifiers and positions

`get_index` and `get_original_id` of the two matrices. Both search the increasing list of identifiers,
and `get_index` throws only when the search ends behind the last of them: for an absent identifier
that is smaller than some stored one it returns the position of another node
(`lookups_inverse_iff`). -/

namespace VrpRouting

namespace BaseMatrix

variable (m : BaseMatrix)

/-- `get_original_id`, which throws when the index is out of range. -/
def getOriginalId (index : ℕ) : Option ℤ := m.ids[index]?

end BaseMatrix

/-- The lookups of `id` are inverse to each other and fail together. -/
structure InverseLookups (hasId : ℤ → Bool) (getIndex : ℤ → Option ℕ)
    (getOriginalId : ℕ → Option ℤ) (id : ℤ) : Prop where
  index_iff : ∀ i, getIndex id = some i ↔ getOriginalId i = some id
  throws_iff : getIndex id = none ↔ hasId id = false

/-- The lookups in an increasing list of identifiers. -/
theorem inverseLookups_iff (ids : Identifiers ℤ) (id : ℤ) :
    InverseLookups (LowerBound.found ids.ids) (LowerBound.position? ids.ids) (fun i => ids.ids[i]?) id ↔
      id ∈ ids ∨ ∀ x ∈ ids, x < id := by
  rw [Identifiers.mem_def]
  refine Iff.trans ?_ (LowerBound.lookup_iff ids.sorted)
  exact ⟨fun h => ⟨h.index_iff, h.throws_iff⟩, fun h => ⟨h.1, h.2⟩⟩

/-- **When the lookups are inverse to each other**: for the stored identifiers and for those behind
all of them, on both matrices. -/
theorem lookups_inverse_iff (ids : Identifiers ℤ) (cells : List MatrixCell) (multiplier : ℚ)
    (v : Vroom.Matrix) (id : ℤ) :
    (InverseLookups (BaseMatrix.ofCells cells ids.ids multiplier).hasId
        (BaseMatrix.ofCells cells ids.ids multiplier).getIndex
        (BaseMatrix.ofCells cells ids.ids multiplier).getOriginalId id ↔
      id ∈ ids ∨ ∀ x ∈ ids, x < id) ∧
    (InverseLookups v.hasId v.getIndex v.getOriginalId id ↔ id ∈ v.ids ∨ ∀ x ∈ v.ids, x < id) := by
  refine ⟨?_, inverseLookups_iff v.ids id⟩
  rw [BaseMatrix.ofCells_eq]
  exact inverseLookups_iff ids id

/-- The absent identifier 2 gets the position of 3. -/
theorem lookups_of_absent_id : ∃ (ids : Identifiers ℤ) (v : Vroom.Matrix),
    ids = (Identifiers.empty.insert 1).insert 3 ∧
    Vroom.Matrix.construct .wrap 1 [⟨1, 3, 5, 5⟩] ids = .ok v ∧
    v.getIndex 2 = some 1 ∧ v.getOriginalId 1 = some 3 ∧
    ¬ InverseLookups v.hasId v.getIndex v.getOriginalId 2 ∧
    ¬ InverseLookups (BaseMatrix.ofCells [⟨1, 3, 5⟩] ids.ids 1).hasId
      (BaseMatrix.ofCells [⟨1, 3, 5⟩] ids.ids 1).getIndex
      (BaseMatrix.ofCells [⟨1, 3, 5⟩] ids.ids 1).getOriginalId 2 := by
  refine ⟨_, ⟨(Identifiers.empty.insert 1).insert 3, [[0, 5], [5, 0]], [[0, 5], [5, 0]]⟩, rfl,
    by decide +kernel, by decide, by decide, fun h => ?_, fun h => ?_⟩
  · exact absurd ((h.index_iff 1).mp (by decide)) (by decide)
  · exact absurd ((h.index_iff 1).mp (by decide +kernel)) (by decide +kernel)

end VrpRouting
