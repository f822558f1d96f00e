import Mathlib.Data.List.Sort
import Mathlib.Data.Finset.Sort

/-! # Sets of identifiers

`Identifiers<T>` wraps `std::set<T>`: a finite set that is iterated in increasing order. Here the
elements are a strictly increasing list, and the field `sorted` keeps it so: two sets with the same
elements are equal (`ext_iff`), and `front` is the least element.

`back` of the source dereferences `end()`; it has no value here and is treated where it is used
(`Fleet.getTruck`). -/

namespace VrpRouting

/-- The set of identifiers, in the order `std::set` iterates over it. -/
@[ext (iff := false)]
structure Identifiers (α : Type) [LinearOrder α] where
  ids : List α
  sorted : ids.Pairwise (· < ·)
deriving DecidableEq

namespace Identifiers

variable {α : Type} [LinearOrder α]

instance : Membership α (Identifiers α) := ⟨fun s x => x ∈ s.ids⟩

instance (x : α) (s : Identifiers α) : Decidable (x ∈ s) := inferInstanceAs (Decidable (x ∈ s.ids))

theorem mem_def {x : α} {s : Identifiers α} : x ∈ s ↔ x ∈ s.ids := Iff.rfl

/-- The constructor without data. -/
def empty : Identifiers α := ⟨[], List.Pairwise.nil⟩

instance : Inhabited (Identifiers α) := ⟨empty⟩

/-- `Identifiers(number)`: the set `{0, …, number - 1}`. -/
def upTo (number : ℕ) : Identifiers ℕ := ⟨List.range number, List.pairwise_lt_range⟩

def has (s : Identifiers α) (x : α) : Bool := decide (x ∈ s)

def size (s : Identifiers α) : ℕ := s.ids.length

def isEmpty (s : Identifiers α) : Bool := s.ids.isEmpty

/-- `front()`, the least element; the source reads `*begin()` of a set it knows is not empty. -/
def front (s : Identifiers α) : Option α := s.ids.head?

/-- Insertion of `x` at its place in an increasing list, nothing if it is there. -/
def place (x : α) : List α → List α
  | [] => [x]
  | y :: ys => if x < y then x :: y :: ys else if x = y then y :: ys else y :: place x ys

theorem mem_place {x z : α} : ∀ {l : List α}, z ∈ place x l ↔ z = x ∨ z ∈ l
  | [] => by simp [place]
  | y :: ys => by
    unfold place
    split_ifs with h1 h2
    · simp
    · subst h2; simp
    · rw [List.mem_cons, mem_place, List.mem_cons]; tauto

theorem pairwise_place {x : α} : ∀ {l : List α}, l.Pairwise (· < ·) → (place x l).Pairwise (· < ·)
  | [], _ => by simp [place]
  | y :: ys, h => by
    obtain ⟨h1, h2⟩ := List.pairwise_cons.mp h
    unfold place
    split_ifs with hxy hxe
    · refine List.pairwise_cons.mpr ⟨fun z hz => ?_, h⟩
      rcases List.mem_cons.mp hz with rfl | hz
      · exact hxy
      · exact lt_trans hxy (h1 z hz)
    · exact h
    · refine List.pairwise_cons.mpr ⟨fun z hz => ?_, pairwise_place h2⟩
      rcases mem_place.mp hz with rfl | hz
      · exact lt_of_le_of_ne (not_lt.mp hxy) (Ne.symm hxe)
      · exact h1 z hz

/-- `operator +=` with an element. -/
def insert (s : Identifiers α) (x : α) : Identifiers α := ⟨place x s.ids, pairwise_place s.sorted⟩

/-- `operator -=` with an element. -/
def erase (s : Identifiers α) (x : α) : Identifiers α := ⟨s.ids.filter (· ≠ x), s.sorted.filter _⟩

/-- `operator +`: union. -/
def union (s t : Identifiers α) : Identifiers α := t.ids.foldl insert s

/-- `operator *`: intersection. -/
def inter (s t : Identifiers α) : Identifiers α := ⟨s.ids.filter (· ∈ t), s.sorted.filter _⟩

/-- `operator -`: difference. -/
def diff (s t : Identifiers α) : Identifiers α := ⟨s.ids.filter (· ∉ t), s.sorted.filter _⟩

/-- The elements that satisfy `p`. -/
def filter (p : α → Bool) (s : Identifiers α) : Identifiers α := ⟨s.ids.filter p, s.sorted.filter _⟩

/-- `operator ==`, by the two differences as in the source. -/
def same (s t : Identifiers α) : Bool := (s.diff t).isEmpty && (t.diff s).isEmpty

@[simp] theorem has_iff {s : Identifiers α} {x : α} : s.has x = true ↔ x ∈ s := by simp [has]

theorem has_eq_false {s : Identifiers α} {x : α} : s.has x = false ↔ x ∉ s := by simp [has]

@[simp] theorem not_mem_empty (x : α) : x ∉ (empty : Identifiers α) := by simp [mem_def, empty]

@[simp] theorem mem_upTo {n i : ℕ} : i ∈ upTo n ↔ i < n := by simp [mem_def, upTo]

@[simp] theorem mem_insert {s : Identifiers α} {x z : α} : z ∈ s.insert x ↔ z = x ∨ z ∈ s := mem_place

@[simp] theorem mem_erase {s : Identifiers α} {x z : α} : z ∈ s.erase x ↔ z ∈ s ∧ z ≠ x := by
  simp [mem_def, erase]

@[simp] theorem mem_inter {s t : Identifiers α} {z : α} : z ∈ s.inter t ↔ z ∈ s ∧ z ∈ t := by
  simp [mem_def, inter]

@[simp] theorem mem_diff {s t : Identifiers α} {z : α} : z ∈ s.diff t ↔ z ∈ s ∧ z ∉ t := by
  simp [mem_def, diff]

@[simp] theorem mem_filter {s : Identifiers α} {p : α → Bool} {z : α} :
    z ∈ s.filter p ↔ z ∈ s ∧ p z = true := by simp [mem_def, filter]

theorem mem_foldl_insert {z : α} : ∀ (l : List α) (s : Identifiers α),
    z ∈ l.foldl insert s ↔ z ∈ s ∨ z ∈ l
  | [], s => by simp
  | x :: l, s => by
    rw [List.foldl_cons, mem_foldl_insert l, mem_insert, List.mem_cons]; tauto

theorem mem_foldl_foldl_insert {β : Type} (f : β → List α) {z : α} :
    ∀ (l : List β) (s : Identifiers α),
      z ∈ l.foldl (fun s b => (f b).foldl insert s) s ↔ z ∈ s ∨ ∃ b ∈ l, z ∈ f b
  | [], s => by simp
  | b :: l, s => by
    rw [List.foldl_cons, mem_foldl_foldl_insert f l, mem_foldl_insert]
    simp only [List.exists_mem_cons_iff]
    tauto

@[simp] theorem mem_union {s t : Identifiers α} {z : α} : z ∈ s.union t ↔ z ∈ s ∨ z ∈ t :=
  mem_foldl_insert _ _

theorem nodup (s : Identifiers α) : s.ids.Nodup := s.sorted.imp fun h => ne_of_lt h

/-- A set is given by its elements. -/
theorem ext_iff {s t : Identifiers α} : s = t ↔ ∀ x, x ∈ s ↔ x ∈ t := by
  refine ⟨fun h x => by rw [h], fun h => Identifiers.ext ?_⟩
  have hp : s.ids.Perm t.ids := (List.perm_ext_iff_of_nodup s.nodup t.nodup).mpr h
  exact hp.eq_of_pairwise (fun a b _ _ hab hba => absurd hab (lt_asymm hba)) s.sorted t.sorted

@[simp] theorem isEmpty_iff {s : Identifiers α} : s.isEmpty = true ↔ ∀ x, x ∉ s := by
  unfold isEmpty
  rw [List.isEmpty_iff, List.eq_nil_iff_forall_not_mem]
  rfl

theorem isEmpty_eq_false {s : Identifiers α} : s.isEmpty = false ↔ ∃ x, x ∈ s := by
  rw [← Bool.not_eq_true, isEmpty_iff, not_forall]
  exact exists_congr fun x => not_not

/-- `operator ==` is equality of sets. -/
theorem same_iff {s t : Identifiers α} : s.same t = true ↔ s = t := by
  simp only [same, Bool.and_eq_true, isEmpty_iff, mem_diff, not_and, not_not, ext_iff]
  exact ⟨fun h x => ⟨h.1 x, h.2 x⟩, fun h => ⟨fun x => (h x).mp, fun x => (h x).mpr⟩⟩

theorem front_mem {s : Identifiers α} {x : α} (h : s.front = some x) : x ∈ s := List.mem_of_head? h

theorem front_of_not_isEmpty {s : Identifiers α} (h : s.isEmpty = false) :
    ∃ x, s.front = some x ∧ x ∈ s := by
  obtain ⟨z, hz⟩ := isEmpty_eq_false.mp h
  obtain ⟨x, l, hl⟩ := List.exists_cons_of_ne_nil (List.ne_nil_of_mem hz)
  have hx : s.front = some x := by unfold front; rw [hl]; rfl
  exact ⟨x, hx, front_mem hx⟩

/-- Without the least element, the rest of the list is left. -/
theorem ids_of_front {s : Identifiers α} {x : α} (h : s.front = some x) :
    s.ids = x :: (s.erase x).ids := by
  obtain ⟨l, hl⟩ := List.head?_eq_some_iff.mp h
  have hx : ∀ z ∈ l, x < z := (List.pairwise_cons.mp (hl ▸ s.sorted)).1
  have hfilter : l.filter (fun z => decide (z ≠ x)) = l :=
    List.filter_eq_self.mpr fun z hz => by simp [ne_of_gt (hx z hz)]
  change s.ids = x :: s.ids.filter fun z => decide (z ≠ x)
  rw [hl, List.filter_cons_of_neg (by simp), hfilter]

theorem size_erase_of_mem {s : Identifiers α} {x : α} (h : x ∈ s) : (s.erase x).size + 1 = s.size := by
  have hf : s.ids.filter (fun z => decide (z ≠ x)) = s.ids.erase x := by
    rw [s.nodup.erase_eq_filter]
    exact List.filter_congr fun z _ => by simp [bne, beq_eq_decide]
  unfold size erase
  simp only [hf]
  rw [List.length_erase_of_mem h]
  have := List.length_pos_of_mem h
  omega

theorem length_place_le (x : α) : ∀ l : List α, (place x l).length ≤ l.length + 1
  | [] => le_rfl
  | y :: ys => by
    have h := length_place_le x ys
    unfold place
    split_ifs
    · exact le_rfl
    · exact Nat.le_succ _
    · simpa using h

theorem size_insert_le (s : Identifiers α) (x : α) : (s.insert x).size ≤ s.size + 1 :=
  length_place_le x s.ids

theorem size_le_of_subset {s t : Identifiers α} (h : ∀ x ∈ s, x ∈ t) : s.size ≤ t.size :=
  (List.subperm_of_subset s.nodup h).length_le

theorem size_lt_of_subset {s t : Identifiers α} {x : α} (h : ∀ x ∈ s, x ∈ t) (hx : x ∈ t)
    (hxs : x ∉ s) : s.size < t.size := by
  have h1 : s.size ≤ (t.erase x).size :=
    size_le_of_subset fun z hz => mem_erase.mpr ⟨h z hz, fun e => hxs (e ▸ hz)⟩
  have h2 := size_erase_of_mem hx
  omega

end Identifiers

end VrpRouting
