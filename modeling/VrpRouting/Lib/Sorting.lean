import Mathlib.Data.List.Sort
import Mathlib.Data.Prod.Lex

/-! # Unstable sorting

A comparison function is a strict weak order (`StrictWeak`). A `Sorter` is any sorting routine: it
permutes its argument, and the result is in order when the comparison is a strict weak order. The
order of equivalent elements is left open, so what is proved for every `Sorter` holds for every
implementation of an unstable sort. `Sorter.insertion` is one of them. -/

namespace Sorting

/-- The requirement on the comparison of a sort: `lt` is a strict weak order. -/
structure StrictWeak {α : Type} (lt : α → α → Bool) : Prop where
  asymm : ∀ a b, lt a b = true → lt b a = false
  /-- Not being greater is transitive. -/
  trans : ∀ a b c, lt b a = false → lt c b = false → lt c a = false

/-- A sorting routine, for every type of elements. -/
structure Sorter where
  sort : {α : Type} → (α → α → Bool) → List α → List α
  perm : ∀ {α : Type} (lt : α → α → Bool) (l : List α), (sort lt l).Perm l
  pairwise : ∀ {α : Type} (lt : α → α → Bool) (l : List α), StrictWeak lt →
    (sort lt l).Pairwise fun a b => lt b a = false

namespace Sorter

variable (S : Sorter) {α : Type} (lt : α → α → Bool)

@[simp] theorem mem_sort {l : List α} {a : α} : a ∈ S.sort lt l ↔ a ∈ l := (S.perm lt l).mem_iff

@[simp] theorem length_sort (l : List α) : (S.sort lt l).length = l.length := (S.perm lt l).length_eq

variable {lt} in
/-- When equivalent elements are equal, the result does not depend on the order of the elements. -/
theorem sort_perm_eq (h : StrictWeak lt) {l l' : List α} (hp : l'.Perm l)
    (hd : ∀ a ∈ l, ∀ b ∈ l, lt a b = false → lt b a = false → a = b) :
    S.sort lt l' = S.sort lt l := by
  have hperm : (S.sort lt l').Perm (S.sort lt l) := (S.perm lt l').trans (hp.trans (S.perm lt l).symm)
  refine hperm.eq_of_pairwise (fun a b ha hb hab hba => ?_) (S.pairwise lt l' h) (S.pairwise lt l h)
  exact hd a (hp.mem_iff.mp ((S.mem_sort lt).mp ha)) b ((S.mem_sort lt).mp hb) hba hab

/-- Insertion sort by the comparison `¬ b < a`. -/
def insertion : Sorter where
  sort lt l := l.insertionSort fun a b => lt b a = false
  perm _ l := List.perm_insertionSort _ l
  pairwise lt l h := by
    have : Std.Total fun a b => lt b a = false := ⟨fun a b => by
      cases hab : lt b a with
      | false => exact Or.inl rfl
      | true => exact Or.inr (h.asymm _ _ hab)⟩
    have : IsTrans _ fun a b => lt b a = false := ⟨h.trans⟩
    exact List.pairwise_insertionSort _ l

end Sorter

/-- `std::stable_sort`: equivalent elements keep their order, so there is one result only. -/
def stableSort {α : Type} (lt : α → α → Bool) (l : List α) : List α :=
  l.insertionSort fun a b => lt b a = false

theorem stableSort_perm {α : Type} (lt : α → α → Bool) (l : List α) : (stableSort lt l).Perm l :=
  List.perm_insertionSort _ l

/-- A comparison by a key is a strict weak order. -/
theorem StrictWeak.of_key {α β : Type} [LinearOrder β] {lt : α → α → Bool} (key : α → β)
    (h : ∀ a b, lt a b = true ↔ key a < key b) : StrictWeak lt where
  asymm a b hab := by
    rw [← Bool.not_eq_true, h]
    exact lt_asymm ((h a b).mp hab)
  trans a b c hab hbc := by
    rw [← Bool.not_eq_true, h, not_lt] at *
    exact hab.trans hbc

end Sorting
