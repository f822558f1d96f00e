import Mathlib.Data.List.Basic

/-! # Records in groups

A map from keys to lists, filled by appending every record to the list of its key. The list of a key
then holds the records of the key, in their order (`lookup_collect`). Lists that are written record by
record under distinct keys are read back so (`group_flatMap`). -/

namespace Grouping

variable {κ α β : Type} [DecidableEq κ]

/-- `m[k].push_back(b)`; a new key has the empty list. -/
def push : List (κ × List β) → κ → β → List (κ × List β)
  | [], k, b => [(k, [b])]
  | (k', bs) :: m, k, b => if k = k' then (k', bs ++ [b]) :: m else (k', bs) :: push m k b

def collect (key : α → κ) (val : α → β) (rows : List α) : List (κ × List β) :=
  rows.foldl (fun m a => push m (key a) (val a)) []

/-- The records of a key. -/
def group (key : α → κ) (val : α → β) (rows : List α) (k : κ) : List β :=
  (rows.filter fun a => decide (key a = k)).map val

/-- The lists of a map, each of them changed. -/
theorem lookup_map_snd {κ β γ : Type} [BEq κ] (f : β → γ) (k : κ) : ∀ m : List (κ × β),
    (m.map fun e => (e.1, f e.2)).lookup k = (m.lookup k).map f
  | [] => rfl
  | e :: m => by
    rw [List.map_cons, List.lookup_cons, List.lookup_cons]
    cases k == e.1
    · exact lookup_map_snd f k m
    · rfl

section Lookup
variable [BEq κ] [LawfulBEq κ]

@[simp] theorem lookup_push_self (m : List (κ × List β)) (k : κ) (b : β) :
    (push m k b).lookup k = some ((m.lookup k).getD [] ++ [b]) := by
  induction m with
  | nil => simp [push]
  | cons e m ih =>
    obtain ⟨k', bs⟩ := e
    unfold push
    split_ifs with h
    · simp [h]
    · have hne : (k == k') = false := beq_false_of_ne h
      simp [List.lookup_cons, hne, ih]

theorem lookup_push_of_ne (m : List (κ × List β)) {k k' : κ} (h : k' ≠ k) (b : β) :
    (push m k b).lookup k' = m.lookup k' := by
  induction m with
  | nil => simp [push, List.lookup_cons, beq_false_of_ne h]
  | cons e m ih =>
    obtain ⟨l, bs⟩ := e
    unfold push
    split_ifs with heq
    · have hne : (k' == l) = false := beq_false_of_ne (heq ▸ h)
      simp [List.lookup_cons, hne]
    · simp only [List.lookup_cons, ih]

theorem lookup_foldl_push (key : α → κ) (val : α → β) (k : κ) :
    ∀ (rows : List α) (m : List (κ × List β)),
      (rows.foldl (fun m a => push m (key a) (val a)) m).lookup k =
        if group key val rows k = [] then m.lookup k
        else some ((m.lookup k).getD [] ++ group key val rows k)
  | [], m => by simp [group]
  | a :: rows, m => by
    rw [List.foldl_cons, lookup_foldl_push key val k rows]
    by_cases hk : key a = k
    · have hgroup : group key val (a :: rows) k = val a :: group key val rows k := by
        simp [group, hk]
      subst hk
      rw [hgroup, if_neg (List.cons_ne_nil _ _), lookup_push_self]
      split_ifs with h
      · rw [h]
      · simp
    · have hgroup : group key val (a :: rows) k = group key val rows k := by
        simp [group, hk]
      rw [hgroup, lookup_push_of_ne m (Ne.symm hk)]

/-- **The list of a key** holds its records; a key without records is not in the map. -/
theorem lookup_collect (key : α → κ) (val : α → β) (rows : List α) (k : κ) :
    (collect key val rows).lookup k =
      if group key val rows k = [] then none else some (group key val rows k) := by
  simpa [collect] using lookup_foldl_push key val k rows []

theorem lookup_collect_getD (key : α → κ) (val : α → β) (rows : List α) (k : κ) (d : List β) :
    ((collect key val rows).lookup k).getD d =
      if group key val rows k = [] then d else group key val rows k := by
  rw [lookup_collect]
  split_ifs
  · rfl
  · rfl

end Lookup

/-! ### Reading records back -/

section Group
variable {γ : Type} {key : α → κ} {val : α → β}

@[simp] theorem group_append (rows rows' : List α) (k : κ) :
    group key val (rows ++ rows') k = group key val rows k ++ group key val rows' k := by
  simp [group]

theorem group_flatten (key : α → κ) (val : α → β) (k : κ) : ∀ L : List (List α),
    group key val L.flatten k = L.flatMap fun rows => group key val rows k
  | [] => rfl
  | rows :: L => by rw [List.flatten_cons, group_append, group_flatten key val k L, List.flatMap_cons]

theorem group_eq_nil_iff {rows : List α} {k : κ} :
    group key val rows k = [] ↔ k ∉ rows.map key := by
  unfold group
  rw [List.map_eq_nil_iff, List.filter_eq_nil_iff]
  simp

/-- The records of one list, all with its key. -/
theorem group_map_key (k' : κ) (bs : List β) (k : κ) :
    group Prod.fst Prod.snd (bs.map fun b => (k', b)) k = if k' = k then bs else [] := by
  unfold group
  rw [List.filter_map, List.map_map]
  split_ifs with h
  · simp [Function.comp_def, h]
  · simp [Function.comp_def, h]

variable {name : γ → κ} {vals : γ → List β}

theorem group_flatMap_of_not_mem {l : List γ} {k : κ} (h : k ∉ l.map name) :
    group Prod.fst Prod.snd (l.flatMap fun c => (vals c).map fun b => (name c, b)) k = [] := by
  rw [group_eq_nil_iff, List.map_flatMap]
  intro hk
  obtain ⟨c, hc, hk⟩ := List.mem_flatMap.mp hk
  obtain ⟨row, hrow, rfl⟩ := List.mem_map.mp hk
  obtain ⟨b, -, rfl⟩ := List.mem_map.mp hrow
  exact h (List.mem_map_of_mem hc)

/-- **The list that was written** under a key is read back. -/
theorem group_flatMap : ∀ {l : List γ}, (l.map name).Nodup → ∀ c ∈ l,
    group Prod.fst Prod.snd (l.flatMap fun c => (vals c).map fun b => (name c, b)) (name c) = vals c
  | c' :: l, hn, c, hc => by
    rw [List.map_cons, List.nodup_cons] at hn
    obtain ⟨hfresh, hn⟩ := hn
    rw [List.flatMap_cons, group_append, group_map_key]
    rcases List.mem_cons.mp hc with rfl | hc
    · rw [if_pos rfl, group_flatMap_of_not_mem hfresh, List.append_nil]
    · have hne : name c' ≠ name c := fun h => hfresh (h ▸ List.mem_map_of_mem hc)
      rw [if_neg hne, group_flatMap hn c hc, List.nil_append]

/-- The groups of all keys are the records. -/
theorem flatMap_group_perm : ∀ {keys : List κ} {rows : List α}, keys.Nodup →
    (∀ a ∈ rows, key a ∈ keys) → (keys.flatMap (group key val rows)).Perm (rows.map val)
  | [], rows, _, h => by
    rw [List.eq_nil_iff_forall_not_mem.mpr fun a ha => List.not_mem_nil (h a ha)]
    exact .nil
  | k :: keys, rows, hn, h => by
    obtain ⟨hk, hn⟩ := List.nodup_cons.mp hn
    have hsplit := List.filter_append_perm (fun a => decide (key a = k)) rows
    have hrest : keys.flatMap (group key val rows) =
        keys.flatMap (group key val (rows.filter fun a => !decide (key a = k))) := by
      refine List.flatMap_congr fun k' hk' => ?_
      have hne : k' ≠ k := fun h => hk (h ▸ hk')
      unfold group
      rw [List.filter_filter]
      refine congrArg (List.map val) (List.filter_congr fun a _ => ?_)
      by_cases ha : key a = k'
      · simp [ha, hne]
      · simp [ha]
    rw [List.flatMap_cons, hrest]
    have hkeys : ∀ a ∈ rows.filter fun a => !decide (key a = k), key a ∈ keys := fun a ha => by
      obtain ⟨ha, hne⟩ := List.mem_filter.mp ha
      exact (List.mem_cons.mp (h a ha)).resolve_left (by simpa using hne)
    refine ((flatMap_group_perm hn hkeys).append_left _).trans ?_
    rw [group, ← List.map_append]
    exact hsplit.map val

end Group

end Grouping
