import Mathlib.Data.List.GetD
import Mathlib.Data.List.InsertIdx
import Mathlib.Data.List.Perm.Basic
import Mathlib.Data.Multiset.ZeroCons

/-! # Editing lists by position

What insertions, deletions and exchanges of neighbours do to a list, to its filtered sublists and to
the multiset of its elements. -/

namespace ListEdit

variable {α : Type*}

/-- Exchanging an inserted element with its right neighbour inserts it one position later. -/
theorem set_set_insertIdx (x d : α) : ∀ (l : List α) (i : ℕ), i < l.length →
    ((l.insertIdx i x).set i ((l.insertIdx i x).getD (i + 1) d)).set (i + 1)
      ((l.insertIdx i x).getD i d) = l.insertIdx (i + 1) x
  | [], i, h => by simp at h
  | a :: l, 0, _ => by simp
  | a :: l, i + 1, h => by
    have ih := set_set_insertIdx x d l i (by simpa using h)
    simpa using ih

theorem insertIdx_append_of_le {x : α} (r : List α) :
    ∀ (l : List α) (i : ℕ), i ≤ l.length → (l ++ r).insertIdx i x = l.insertIdx i x ++ r
  | l, 0, _ => by simp
  | [], i + 1, h => by simp at h
  | a :: l, i + 1, h => by
    rw [List.cons_append, List.insertIdx_succ_cons, List.insertIdx_succ_cons, List.cons_append,
      insertIdx_append_of_le r l i (by simpa using h)]

theorem insertIdx_append_add {x : α} (r : List α) (k : ℕ) :
    ∀ l : List α, (l ++ r).insertIdx (l.length + k) x = l ++ r.insertIdx k x
  | [] => by simp
  | a :: l => by
    rw [List.cons_append, List.length_cons, Nat.add_right_comm, List.insertIdx_succ_cons,
      insertIdx_append_add r k l, List.cons_append]

/-- A filter that rejects the inserted element does not see the insertion. -/
theorem filter_insertIdx_of_neg {p : α → Bool} {x : α} (h : p x = false) :
    ∀ (l : List α) (i : ℕ), (l.insertIdx i x).filter p = l.filter p
  | [], 0 => by simp [h]
  | [], i + 1 => by simp
  | a :: l, 0 => by simp [h]
  | a :: l, i + 1 => by
    rw [List.insertIdx_succ_cons, List.filter_cons, List.filter_cons, filter_insertIdx_of_neg h l i]

/-- A filter that rejects all candidates of a deletion does not see it. -/
theorem filter_eraseP_of_neg {p q : α → Bool} (h : ∀ a, q a = true → p a = false) :
    ∀ l : List α, (l.eraseP q).filter p = l.filter p
  | [] => rfl
  | a :: l => by
    by_cases ha : q a = true
    · rw [List.eraseP_cons_of_pos ha, List.filter_cons_of_neg (by simp [h a ha])]
    · rw [List.eraseP_cons_of_neg ha, List.filter_cons, List.filter_cons, filter_eraseP_of_neg h l]

/-- The first deleted element is the first one of every filter that keeps the candidates. -/
theorem filter_eraseP {p q : α → Bool} (h : ∀ a, q a = true → p a = true) :
    ∀ l : List α, (l.eraseP q).filter p = (l.filter p).eraseP q
  | [] => rfl
  | a :: l => by
    by_cases ha : q a = true
    · rw [List.eraseP_cons_of_pos ha, List.filter_cons_of_pos (h a ha), List.eraseP_cons_of_pos ha]
    · rw [List.eraseP_cons_of_neg ha, List.filter_cons, List.filter_cons, filter_eraseP h l]
      split_ifs
      · rw [List.eraseP_cons_of_neg ha]
      · rfl

/-- A filter that sees only the inserted element. -/
theorem filter_insertIdx_of_pos {p : α → Bool} {x : α} (h : p x = true) :
    ∀ (l : List α) (i : ℕ), i ≤ l.length → l.filter p = [] → (l.insertIdx i x).filter p = [x]
  | l, 0, _, hl => by simp [h, hl]
  | [], i + 1, hi, _ => by simp at hi
  | a :: l, i + 1, hi, hl => by
    obtain ⟨ha, hl⟩ : p a ≠ true ∧ l.filter p = [] := by
      by_cases ha : p a = true
      · simp [List.filter_cons_of_pos ha] at hl
      · exact ⟨ha, by rwa [List.filter_cons_of_neg ha] at hl⟩
    rw [List.insertIdx_succ_cons, List.filter_cons_of_neg ha]
    exact filter_insertIdx_of_pos h l i (by simpa using hi) hl

/-- A filter that sees only two inserted elements, the second one behind the first one. -/
theorem filter_insertIdx_insertIdx {p : α → Bool} {x y : α} (hx : p x = true) (hy : p y = true) :
    ∀ (l : List α) (i j : ℕ), i < j → j ≤ l.length + 1 → l.filter p = [] →
      ((l.insertIdx i x).insertIdx j y).filter p = [x, y]
  | l, 0, j + 1, _, hj, hl => by
    rw [List.insertIdx_zero, List.insertIdx_succ_cons, List.filter_cons_of_pos hx,
      filter_insertIdx_of_pos hy l j (by omega) hl]
  | [], i + 1, j, hij, hj, _ => by simp at hj; omega
  | a :: l, i + 1, j + 1, hij, hj, hl => by
    obtain ⟨ha, hl⟩ : p a ≠ true ∧ l.filter p = [] := by
      by_cases ha : p a = true
      · simp [List.filter_cons_of_pos ha] at hl
      · exact ⟨ha, by rwa [List.filter_cons_of_neg ha] at hl⟩
    rw [List.insertIdx_succ_cons, List.insertIdx_succ_cons, List.filter_cons_of_neg ha]
    exact filter_insertIdx_insertIdx hx hy l i j (by omega) (by simpa using hj) hl

/-- Replacing one element. -/
theorem set_perm_cons_eraseIdx {l : List α} {i : ℕ} (h : i < l.length) (a : α) :
    (l.set i a).Perm (a :: l.eraseIdx i) := by
  have h1 := List.getElem_cons_eraseIdx_perm (show i < (l.set i a).length by simpa using h)
  rw [List.getElem_set_self, List.eraseIdx_set_eq] at h1
  exact h1.symm

/-- Replacing two elements leaves the others as they are. -/
theorem exists_perm_set_set {l : List α} {i j : ℕ} (hi : i < l.length) (hj : j < l.length)
    (hij : i ≠ j) (a b d : α) :
    ∃ R, l.Perm (l.getD i d :: l.getD j d :: R) ∧ ((l.set i a).set j b).Perm (a :: b :: R) := by
  rw [List.getD_eq_getElem _ _ hi, List.getD_eq_getElem _ _ hj]
  have hl : l.Perm (l[i] :: l.eraseIdx i) := (List.getElem_cons_eraseIdx_perm hi).symm
  have hs : ((l.set i a).set j b).Perm (a :: (l.set j b).eraseIdx i) := by
    rw [List.set_comm _ _ hij]
    exact set_perm_cons_eraseIdx (by simpa using hi) a
  rcases Nat.lt_or_ge j i with h | h
  · refine ⟨(l.eraseIdx i).eraseIdx j, hl.trans (.cons _ ?_), hs.trans (.cons _ ?_)⟩
    · have hl' : j < (l.eraseIdx i).length := by rw [List.length_eraseIdx_of_lt hi]; omega
      have := List.getElem_cons_eraseIdx_perm hl'
      rw [List.getElem_eraseIdx_of_lt _ h] at this
      exact this.symm
    · rw [List.eraseIdx_set_gt h]
      exact set_perm_cons_eraseIdx (by rw [List.length_eraseIdx_of_lt hi]; omega) b
  · refine ⟨(l.eraseIdx i).eraseIdx (j - 1), hl.trans (.cons _ ?_), hs.trans (.cons _ ?_)⟩
    · have hl' : j - 1 < (l.eraseIdx i).length := by rw [List.length_eraseIdx_of_lt hi]; omega
      have := List.getElem_cons_eraseIdx_perm hl'
      rw [List.getElem_eraseIdx_of_ge _ (by omega)] at this
      simpa only [Nat.sub_add_cancel (Nat.one_le_of_lt (Nat.lt_of_le_of_ne h hij))] using this.symm
    · rw [List.eraseIdx_set_lt (Nat.lt_of_le_of_ne h hij)]
      exact set_perm_cons_eraseIdx (by rw [List.length_eraseIdx_of_lt hi]; omega) b

/-- Exactly one element passes the filter. -/
theorem exists_of_filter_cons {p : α → Bool} {x : α} {r : List α} :
    ∀ {l : List α}, l.filter p = x :: r →
      ∃ A B, l = A ++ x :: B ∧ (∀ a ∈ A, p a = false) ∧ B.filter p = r
  | [], h => by simp at h
  | a :: l, h => by
    cases hp : p a with
    | true =>
      rw [List.filter_cons_of_pos hp] at h
      obtain ⟨rfl, hr⟩ := List.cons.inj h
      exact ⟨[], l, rfl, by simp, hr⟩
    | false =>
      rw [List.filter_cons_of_neg (by simp [hp])] at h
      obtain ⟨A, B, rfl, hA, hB⟩ := exists_of_filter_cons h
      exact ⟨a :: A, B, rfl, List.forall_mem_cons.mpr ⟨hp, hA⟩, hB⟩

/-- Two pairs make up a list: the six ways to interleave them. -/
theorem interleaved {p q : α → Bool} {a b c d : α} {l : List α} (hl : ∀ t ∈ l, q t = !p t)
    (hp : l.filter p = [a, b]) (hq : l.filter q = [c, d]) :
    l ∈ [[a, b, c, d], [a, c, b, d], [a, c, d, b], [c, a, b, d], [c, a, d, b], [c, d, a, b]] := by
  have hlen : l.length = 4 := by
    have h := List.length_eq_length_filter_add (l := l) p
    rw [← List.filter_congr hl, hp, hq] at h
    exact h
  obtain ⟨x, y, z, w, rfl⟩ : ∃ x y z w, l = [x, y, z, w] := by
    match l, hlen with
    | [x, y, z, w], _ => exact ⟨x, y, z, w, rfl⟩
  simp only [List.forall_mem_cons] at hl
  obtain ⟨h1, h2, h3, h4, -⟩ := hl
  simp only [List.filter_cons, List.filter_nil, h1, h2, h3, h4] at hp hq
  cases hx : p x <;> cases hy : p y <;> cases hz : p z <;> cases hw : p w <;>
    simp [hx, hy, hz, hw] at hp hq <;> simp [hp, hq]

/-- Deletion in front of elements that are no candidates. -/
theorem eraseP_append_of_neg {q : α → Bool} {A B : List α} (hB : ∀ b ∈ B, ¬ q b = true) :
    (A ++ B).eraseP q = A.eraseP q ++ B := by
  rw [List.eraseP_append]
  split_ifs with hany
  · rfl
  · have hA : ∀ a ∈ A, ¬ q a = true := fun a ha h => hany (List.any_eq_true.mpr ⟨a, ha, h⟩)
    rw [List.eraseP_of_forall_not hA, List.eraseP_of_forall_not hB]

/-- Deletion of the first candidate, when there is one at most, leaves the other elements. -/
theorem eraseP_eq_filter {q : α → Bool} : ∀ {l : List α}, (l.filter q).length ≤ 1 →
    l.eraseP q = l.filter fun a => !q a
  | [], _ => rfl
  | a :: l, h => by
    by_cases ha : q a = true
    · rw [List.filter_cons_of_pos ha, List.length_cons] at h
      have hnil : l.filter q = [] := List.length_eq_zero_iff.mp (by omega)
      have hnone := List.filter_eq_nil_iff.mp hnil
      rw [List.eraseP_cons_of_pos ha, List.filter_cons_of_neg (by simp [ha]),
        List.filter_eq_self.mpr fun b hb => by simp [hnone b hb]]
    · rw [List.filter_cons_of_neg ha] at h
      rw [List.eraseP_cons_of_neg ha, List.filter_cons_of_pos (by simp [ha]), eraseP_eq_filter h]

theorem exists_mem_of_forall₂ {β : Type*} {r : α → β → Prop} {l : List α} {l' : List β}
    (h : List.Forall₂ r l l') {b : β} (hb : b ∈ l') : ∃ a ∈ l, r a b := by
  induction h with
  | nil => cases hb
  | cons hab _ ih =>
    rcases List.mem_cons.mp hb with rfl | hb
    · exact ⟨_, List.mem_cons_self, hab⟩
    · obtain ⟨a, ha, hr⟩ := ih hb
      exact ⟨a, List.mem_cons_of_mem _ ha, hr⟩

/-- What holds of any two elements of a list is carried over to a related list. -/
theorem pairwise_of_forall₂ {β : Type*} {r : α → β → Prop} {p : α → α → Prop} {q : β → β → Prop}
    {l : List α} {l' : List β} (h : List.Forall₂ r l l')
    (hpq : ∀ a b c d, r a c → r b d → p a b → q c d) (hl : l.Pairwise p) : l'.Pairwise q := by
  induction h with
  | nil => exact .nil
  | cons hac hrest ih =>
    obtain ⟨ha, hl⟩ := List.pairwise_cons.mp hl
    refine List.pairwise_cons.mpr ⟨fun d hd => ?_, ih hl⟩
    obtain ⟨b, hb, hbd⟩ := exists_mem_of_forall₂ hrest hd
    exact hpq _ _ _ _ hac hbd (ha b hb)

/-- The elements of a related list that satisfy what carries over are not fewer. -/
theorem countP_le_of_forall₂ {β : Type*} {r : α → β → Prop} {p : α → Bool} {q : β → Bool}
    {l : List α} {l' : List β} (h : List.Forall₂ r l l')
    (hpq : ∀ a b, r a b → p a = true → q b = true) : l.countP p ≤ l'.countP q := by
  induction h with
  | nil => exact le_rfl
  | @cons a b l l' hab _ ih =>
    rw [List.countP_cons, List.countP_cons]
    by_cases ha : p a = true
    · rw [if_pos ha, if_pos (hpq a b hab ha)]
      exact Nat.add_le_add_right ih 1
    · rw [if_neg ha]
      exact ih.trans (Nat.le_add_right _ _)

/-- A property that no two elements share holds at one position at most. -/
theorem eq_of_pairwise_not {P : α → Prop} {l : List α} (h : l.Pairwise fun a b => P a → ¬ P b)
    {k m : ℕ} (hk : k < l.length) (hm : m < l.length) (h1 : P l[k]) (h2 : P l[m]) : k = m := by
  have hp := List.pairwise_iff_getElem.mp h
  rcases Nat.lt_trichotomy k m with hlt | heq | hlt
  · exact absurd h2 (hp k m hk hm hlt h1)
  · exact heq
  · exact absurd h1 (hp m k hm hk hlt h2)

/-- Lists that are related element by element are related as multisets. -/
theorem rel_coe_of_forall₂ {β : Type*} {r : α → β → Prop} {l : List α} {l' : List β}
    (h : List.Forall₂ r l l') : Multiset.Rel r l l' := by
  induction h with
  | nil => exact .zero
  | cons hr _ ih => exact .cons hr ih

theorem insertIdx_eq (y : α) : ∀ (l : List α) (j : ℕ), j ≤ l.length →
    l.insertIdx j y = l.take j ++ y :: l.drop j
  | l, 0, _ => by simp
  | [], j + 1, hj => absurd hj (by simp)
  | a :: l, j + 1, hj => by
    rw [List.insertIdx_succ_cons, insertIdx_eq y l j (by simpa using hj)]
    rfl

/-- Two insertions, the second one behind the first. -/
theorem insertIdx_insertIdx_eq (x y : α) : ∀ (l : List α) (i j : ℕ), i < j → j ≤ l.length + 1 →
    (l.insertIdx i x).insertIdx j y =
      l.take i ++ x :: ((l.drop i).take (j - 1 - i) ++ y :: l.drop (j - 1))
  | l, 0, j + 1, _, hj => by
    rw [List.insertIdx_zero, List.insertIdx_succ_cons, insertIdx_eq y l j (by omega)]
    rfl
  | [], i + 1, j, hij, hj => by
    simp only [List.length_nil] at hj
    omega
  | a :: l, i + 1, j + 1, hij, hj => by
    rw [List.length_cons] at hj
    rw [List.insertIdx_succ_cons, List.insertIdx_succ_cons,
      insertIdx_insertIdx_eq x y l i j (by omega) (by omega)]
    obtain ⟨k, rfl⟩ : ∃ k, j = k + 1 := ⟨j - 1, by omega⟩
    rw [show k + 1 + 1 - 1 - (i + 1) = k + 1 - 1 - i by omega]
    rfl

/-- What is at and around two inserted elements is related as in an ordered list. -/
theorem pairwise_insertIdx_insertIdx {R : α → α → Prop} {l : List α} {x y : α} {i j : ℕ} (hij : i < j)
    (hj : j ≤ l.length + 1) (h : ((l.insertIdx i x).insertIdx j y).Pairwise R) :
    (∀ a ∈ l.take i, R a x) ∧ (∀ a ∈ l.drop i, R x a) ∧ (∀ a ∈ l.take (j - 1), R a y) ∧
      ∀ a ∈ l.drop (j - 1), R y a := by
  rw [insertIdx_insertIdx_eq x y l i j hij hj] at h
  obtain ⟨-, htail, hcross⟩ := List.pairwise_append.mp h
  obtain ⟨hx, hrest⟩ := List.pairwise_cons.mp htail
  obtain ⟨-, hy, hmid⟩ := List.pairwise_append.mp hrest
  have htake : l.take (j - 1) = l.take i ++ (l.drop i).take (j - 1 - i) := by
    rw [← List.take_add]
    congr 1
    omega
  have hdrop : l.drop i = (l.drop i).take (j - 1 - i) ++ l.drop (j - 1) := by
    conv_lhs => rw [← List.take_append_drop (j - 1 - i) (l.drop i)]
    rw [List.drop_drop, show i + (j - 1 - i) = j - 1 by omega]
  refine ⟨fun a ha => hcross a ha x List.mem_cons_self, fun a ha => hx a ?_, fun a ha => ?_,
    (List.pairwise_cons.mp hy).1⟩
  · rw [hdrop] at ha
    rcases List.mem_append.mp ha with ha | ha
    · exact List.mem_append_left _ ha
    · exact List.mem_append_right _ (List.mem_cons_of_mem y ha)
  · rw [htake] at ha
    rcases List.mem_append.mp ha with ha | ha
    · exact hcross a ha y (List.mem_cons_of_mem x (List.mem_append_right _ List.mem_cons_self))
    · exact hmid a ha y List.mem_cons_self

theorem le_length_takeWhile_iff {q : α → Bool} : ∀ {l : List α} {k : ℕ}, k ≤ l.length →
    (k ≤ (l.takeWhile q).length ↔ ∀ a ∈ l.take k, q a = true)
  | l, 0, _ => by simp
  | [], k + 1, hk => absurd hk (by simp)
  | a :: l, k + 1, hk => by
    have ih := le_length_takeWhile_iff (q := q) (l := l) (k := k) (by simpa using hk)
    rw [List.take_succ_cons, List.forall_mem_cons, ← ih]
    cases hq : q a with
    | false => simp [hq]
    | true => simp [hq]

/-- In an ordered list an element that is found first is the smaller one. -/
theorem rel_of_idxOf_le [DecidableEq α] {R : α → α → Prop} {l : List α}
    (h : l.Pairwise R) {a b : α} (ha : a ∈ l) (hb : b ∈ l) (hne : b ≠ a)
    (hidx : l.idxOf a ≤ l.idxOf b) : R a b := by
  have hlt := List.idxOf_lt_length_iff.mpr ha
  have hlt' := List.idxOf_lt_length_iff.mpr hb
  have hget : l[l.idxOf a] = a := List.getElem_idxOf hlt
  have hget' : l[l.idxOf b] = b := List.getElem_idxOf hlt'
  rcases lt_or_eq_of_le hidx with hidx | hidx
  · have hrel := List.pairwise_iff_getElem.mp h _ _ hlt hlt' hidx
    rwa [hget, hget'] at hrel
  · refine absurd ?_ hne
    rw [← hget, ← hget']
    simp only [hidx]

/-! ### Indexed maps -/

theorem map_mapIdx {β γ : Type*} (g : β → γ) (f : ℕ → α → β) (l : List α) :
    (l.mapIdx f).map g = l.mapIdx fun i a => g (f i a) :=
  List.ext_getElem (by simp) fun i h1 h2 => by simp

theorem mapIdx_map {β γ : Type*} (g : α → β) (f : ℕ → β → γ) (l : List α) :
    (l.map g).mapIdx f = l.mapIdx fun i a => f i (g a) :=
  List.ext_getElem (by simp) fun i h1 h2 => by simp

/-- What passes a test in an indexed map: the members that pass it, at increasing positions. -/
theorem filter_mapIdx {β : Type*} {p : α → Bool} {q : β → Bool} : ∀ {l : List α} {f : ℕ → α → β},
    (∀ j, ∀ a ∈ l, q (f j a) = p a) → ∃ is : List ℕ, is.Pairwise (· < ·) ∧
      is.length = (l.filter p).length ∧ (l.mapIdx f).filter q = List.zipWith f is (l.filter p)
  | [], _, _ => ⟨[], .nil, rfl, rfl⟩
  | a :: l, f, h => by
    obtain ⟨is, hlt, hlen, heq⟩ := filter_mapIdx (l := l) (f := fun j => f (j + 1))
      fun j b hb => h (j + 1) b (List.mem_cons_of_mem _ hb)
    have hshift : ∀ (is : List ℕ) (l : List α),
        List.zipWith (fun j => f (j + 1)) is l = List.zipWith f (is.map (· + 1)) l := fun is l => by
      rw [List.zipWith_map_left]
    have hsucc : (is.map (· + 1)).Pairwise (· < ·) := List.pairwise_map.mpr (hlt.imp fun h => by omega)
    rw [List.mapIdx_cons]
    have ha := h 0 a List.mem_cons_self
    cases hp : p a with
    | false =>
      rw [hp] at ha
      rw [List.filter_cons_of_neg (by simp [hp]), List.filter_cons_of_neg (by simp [ha]), heq, hshift]
      exact ⟨is.map (· + 1), hsucc, by rw [List.length_map, hlen], rfl⟩
    | true =>
      rw [hp] at ha
      rw [List.filter_cons_of_pos hp, List.filter_cons_of_pos ha, heq, hshift]
      refine ⟨0 :: is.map (· + 1), List.pairwise_cons.mpr ⟨fun i hi => ?_, hsucc⟩, ?_, rfl⟩
      · obtain ⟨j, -, rfl⟩ := List.mem_map.mp hi
        omega
      · rw [List.length_cons, List.length_cons, List.length_map, hlen]

/-- The parts of a list in which one member at most has a part that is not empty. -/
theorem flatten_mapIdx {β : Type*} {c : α → Bool} : ∀ {l : List α} {g : ℕ → α → List β},
    (∀ i, ∀ a ∈ l, c a = false → g i a = []) →
    (l.countP c = 0 → (l.mapIdx g).flatten = []) ∧
    (l.countP c = 1 → ∃ i, ∃ a ∈ l, c a = true ∧ (l.mapIdx g).flatten = g i a)
  | [], _, _ => ⟨fun _ => rfl, fun h => by cases h⟩
  | a :: l, g, h => by
    obtain ⟨h0, h1⟩ := flatten_mapIdx (l := l) (g := fun i => g (i + 1))
      fun i b hb => h (i + 1) b (List.mem_cons_of_mem _ hb)
    rw [List.mapIdx_cons, List.flatten_cons, List.countP_cons]
    cases hc : c a with
    | false =>
      rw [h 0 a List.mem_cons_self hc, List.nil_append]
      refine ⟨fun hn => h0 (by simpa using hn), fun hn => ?_⟩
      obtain ⟨i, b, hb, hcb, heq⟩ := h1 (by simpa using hn)
      exact ⟨i + 1, b, List.mem_cons_of_mem _ hb, hcb, heq⟩
    | true =>
      refine ⟨fun hn => by simp at hn, fun hn => ⟨0, a, List.mem_cons_self, hc, ?_⟩⟩
      rw [h0 (by simpa using hn), List.append_nil]

end ListEdit
