import VrpRouting.Lib.ListEdit
import VrpRouting.Problem.Schedule
import VrpRouting.Problem.VehiclePickDeliver

/-! # Edits of a route

`Edited M v p k N w` says where an edited vehicle `w` stands with respect to the vehicle `v` at the
start: the first `p` stops are still those of `v`, the nodes are `N`, and the path is settled from
`p` up to `k`. Each edit of the class has one lemma. Two vehicles with the same nodes that are
settled to the end are equal (`Edited.unique`): this is why an insertion that was tried is the one
that is done later. -/

namespace VrpRouting

/-- The fields of `w` besides the path are those of `v`. -/
def SameButPath (v w : Vehicle) : Prop := w = { v with path := w.path }

theorem toTwNode_stop (v : Vehicle) (j : ℕ) :
    (v.stop j).toTwNode = (nodesOf v.path).getD j (default : VehicleNode).toTwNode := by
  simp only [nodesOf, Vehicle.stop, List.getD_eq_getElem?_getD, List.getElem?_map]
  cases v.path[j]? <;> rfl

structure Edited (M : Matrix) (v : Vehicle) (p k : ℕ) (N : List TwNode) (w : Vehicle) : Prop where
  others : SameButPath v w
  take : w.path.take p = v.path.take p
  nodes : nodesOf w.path = N
  settled : Settled M v.capacity v.speed p (w.path.take k)
  noDump : ∀ t ∈ N, t.type ≠ .kDump

section Settle
variable (M : Matrix) (cap : ℕ) (speed : ℚ)

theorem settled_of_length_le {k : ℕ} {path : List VehicleNode} (h : path.length ≤ k) :
    Settled M cap speed k path := by
  have := take_evaluatePath_self M cap speed k path
  rwa [List.take_of_length_le (by simpa using h), List.take_of_length_le h] at this

end Settle

namespace Edited

variable {M : Matrix} {v w : Vehicle} {p k : ℕ} {N : List TwNode}

/-- The vehicle before any edit. -/
theorem refl (h : NoDump v.path) : Edited M v p p (nodesOf v.path) v where
  others := rfl
  take := rfl
  nodes := rfl
  settled := settled_of_length_le M _ _ (List.length_take_le p _)
  noDump := noDump_iff_nodes.mp h

theorem path_noDump (h : Edited M v p k N w) : NoDump w.path :=
  noDump_iff_nodes.mpr (h.nodes ▸ h.noDump)

theorem length_path (h : Edited M v p k N w) : w.path.length = N.length := by
  rw [← h.nodes, length_nodesOf]

theorem others_capacity (h : Edited M v p k N w) : w.capacity = v.capacity := by rw [h.others]

theorem others_speed (h : Edited M v p k N w) : w.speed = v.speed := by rw [h.others]

theorem mono {j : ℕ} (h : Edited M v p k N w) (hj : j ≤ k) : Edited M v p j N w where
  others := h.others
  take := h.take
  nodes := h.nodes
  settled := by
    have := h.settled.take j
    rwa [List.take_take, min_eq_left hj] at this
  noDump := h.noDump

/-- Replacing the path of an edited vehicle. -/
theorem withPath {path : List VehicleNode} {N' : List TwNode} {k' : ℕ} (h : Edited M v p k N w)
    (ht : path.take p = w.path.take p) (hn : nodesOf path = N')
    (hs : Settled M v.capacity v.speed p (path.take k')) (hd : ∀ t ∈ N', t.type ≠ .kDump) :
    Edited M v p k' N' { w with path := path } where
  others := by
    have := h.others
    unfold SameButPath at *
    rw [this]
  take := ht.trans h.take
  nodes := hn
  settled := hs
  noDump := hd

/-- `evaluate(j)` settles the path to the end. -/
theorem evaluate {j : ℕ} (h : Edited M v p k N w) (hp : p ≤ j) (hj : j ≤ k) (k' : ℕ) :
    Edited M v p k' N (w.evaluate M j) := by
  have he : evaluatePath M w.capacity w.speed j w.path =
      evaluatePath M v.capacity v.speed p w.path := by
    rw [h.others_capacity, h.others_speed]
    exact evaluatePath_of_settled_take hp (h.mono hj).settled
  unfold Vehicle.evaluate
  rw [he]
  refine h.withPath (take_evaluatePath_self ..) ?_ ?_ h.noDump
  · rw [nodesOf_evaluatePath _ _ _ _ h.path_noDump, h.nodes]
  · exact (settled_evaluatePath M _ _ p _).take k'

theorem insertNode {i : ℕ} {x : VehicleNode} (h : Edited M v p k N w) (hp : p ≤ i)
    (hx : x.type ≠ .kDump) :
    Edited M v p (min k i) (N.insertIdx i x.toTwNode) (w.insertNode i x) := by
  refine h.withPath ?_ ?_ ?_ ?_
  · exact List.take_insertIdx_eq_take_of_le _ _ _ _ hp
  · rw [nodesOf_insertIdx, h.nodes]
  · rw [List.take_insertIdx_eq_take_of_le _ _ _ _ (min_le_right k i)]
    exact (h.mono (min_le_left k i)).settled
  · intro t ht
    rcases List.eq_or_mem_of_mem_insertIdx ht with rfl | ht
    · exact hx
    · exact h.noDump t ht

theorem eraseNode {i : ℕ} (h : Edited M v p k N w) (hp : p ≤ i) :
    Edited M v p (min k i) (N.eraseIdx i) (w.eraseNode i) := by
  have ht : ∀ j ≤ i, (w.path.eraseIdx i).take j = w.path.take j := fun j hj => by
    rw [List.eraseIdx_eq_take_drop_succ, List.take_append, List.take_take, min_eq_left hj]
    by_cases hl : i ≤ w.path.length
    · have : j - (w.path.take i).length = 0 := by rw [List.length_take]; omega
      rw [this, List.take_zero, List.append_nil]
    · have : w.path.drop (i + 1) = [] := List.drop_eq_nil_of_le (by omega)
      rw [this, List.take_nil, List.append_nil]
  refine h.withPath (ht p hp) ?_ ?_ ?_
  · rw [nodesOf_eraseIdx, h.nodes]
  · rw [ht _ (min_le_right k i)]
    exact (h.mono (min_le_left k i)).settled
  · exact fun t ht => h.noDump t (List.mem_of_mem_eraseIdx ht)

/-- `insert` at a position in the settled part. -/
theorem insert {i : ℕ} {x : VehicleNode} (h : Edited M v p k N w) (hp : p ≤ i) (hi : i ≤ k)
    (hx : x.type ≠ .kDump) (k' : ℕ) :
    Edited M v p k' (N.insertIdx i x.toTwNode) (w.insert M i x) :=
  (h.insertNode hp hx).evaluate hp (le_min hi le_rfl) k'

/-- `erase` of a position in the settled part. -/
theorem eraseAt {i : ℕ} (h : Edited M v p k N w) (hp : p ≤ i) (hi : i ≤ k) (k' : ℕ) :
    Edited M v p k' (N.eraseIdx i) (w.eraseAt M i) :=
  (h.eraseNode hp).evaluate hp (le_min hi le_rfl) k'

/-- `swap` of an inserted node with its right neighbour. -/
theorem swap {i : ℕ} {x : TwNode} (h : Edited M v p k (N.insertIdx i x) w) (hp : p ≤ i)
    (hi : i ≤ k) (hN : i < N.length) (k' : ℕ) :
    Edited M v p k' (N.insertIdx (i + 1) x) (w.swap M i (i + 1)) := by
  have hst : ∀ j, (w.stop j).toTwNode = (N.insertIdx i x).getD j (default : VehicleNode).toTwNode :=
    fun j => h.nodes ▸ toTwNode_stop w j
  have hset : Edited M v p i (N.insertIdx (i + 1) x)
      { w with path := (w.path.set i (w.stop (i + 1))).set (i + 1) (w.stop i) } := by
    have ht : ∀ j ≤ i, ((w.path.set i (w.stop (i + 1))).set (i + 1) (w.stop i)).take j =
        w.path.take j := fun j hj => by
      rw [List.take_set_of_le (by omega), List.take_set_of_le hj]
    refine h.withPath (ht p hp) ?_ ?_ ?_
    · rw [nodesOf, List.map_set, List.map_set, hst, hst, ← nodesOf, h.nodes]
      exact ListEdit.set_set_insertIdx x _ N i hN
    · rw [ht i le_rfl]
      exact (h.mono hi).settled
    · intro t ht
      refine h.noDump t ?_
      rcases List.eq_or_mem_of_mem_insertIdx ht with rfl | ht
      · exact List.mem_insertIdx (by omega) |>.mpr (Or.inl rfl)
      · exact List.mem_insertIdx (by omega) |>.mpr (Or.inr ht)
  have := hset.evaluate hp le_rfl k'
  unfold Vehicle.swap
  rwa [if_pos (Nat.lt_succ_self i)]

/-- The settled vehicle with given nodes is unique. -/
theorem unique {w' : Vehicle} (h : Edited M v p k N w) (h' : Edited M v p k N w')
    (hk : N.length ≤ k) : w = w' := by
  have hs := h.settled
  have hs' := h'.settled
  rw [List.take_of_length_le (by rwa [h.length_path])] at hs
  rw [List.take_of_length_le (by rwa [h'.length_path])] at hs'
  have hp : w.path = w'.path := by
    rw [← hs, ← hs']
    exact evaluatePath_congr M _ _ p (h.take.trans h'.take.symm) (h.nodes.trans h'.nodes.symm)
  rw [h.others, h'.others, hp]

/-- A vehicle that was settled at the start is settled after the edits. -/
theorem settled_path (h : Edited M v p k N w) (hk : N.length ≤ k)
    (hv : Settled M v.capacity v.speed 0 v.path) : Settled M v.capacity v.speed 0 w.path := by
  have hs := h.settled
  rw [List.take_of_length_le (by rwa [h.length_path])] at hs
  refine Settled.of_take (Nat.zero_le p) ?_ hs
  rw [h.take]
  exact hv.take p

end Edited

end VrpRouting
