import Mathlib.Order.Lattice
import Mathlib.Data.List.Dedup
import Mathlib.Data.List.Destutter
import Mathlib.Data.List.Flatten
import Mathlib.Data.List.Nodup

/-! # Records with keys, and lists that share elements

Neighbours of one key are dropped from an ordered list (`map_key_destutter`), a record is found or
changed by its key (`find?_key`, `exists_modify_key`). `TwiceOnOne` is about a family of lists: every
element of one of them is there exactly twice, and in no other one. -/

namespace Keyed

variable {α κ : Type}

/-- In an ordered list, one record for each key is left. -/
theorem map_key_destutter [LinearOrder κ] {key : α → κ} {l : List α}
    (h : l.Pairwise fun a b => key a ≤ key b) :
    (l.destutter fun a b => key a ≠ key b).map key = (l.map key).dedup := by
  have hmap : (l.destutter fun a b => key a ≠ key b).map key = (l.map key).destutter (· ≠ ·) :=
    List.map_destutter fun _ _ _ _ => Iff.rfl
  rw [hmap]
  exact (List.pairwise_map.mpr h).destutter_eq_dedup

/-- In two ordered lists with the same records, in which a key has one record, the same records are
left. -/
theorem destutter_eq_of_mem_iff [LinearOrder κ] {key : α → κ} {l l' : List α}
    (hl : l.Pairwise fun a b => key a ≤ key b) (hl' : l'.Pairwise fun a b => key a ≤ key b)
    (hmem : ∀ a, a ∈ l' ↔ a ∈ l) (hinj : ∀ a ∈ l, ∀ b ∈ l, key a = key b → a = b) :
    (l'.destutter fun a b => key a ≠ key b) = l.destutter fun a b => key a ≠ key b := by
  have hs := List.destutter_sublist (fun a b => key a ≠ key b) l
  have hs' := List.destutter_sublist (fun a b => key a ≠ key b) l'
  have hkey := map_key_destutter hl
  have hkey' := map_key_destutter hl'
  have hnodup : ((l.destutter fun a b => key a ≠ key b).map key).Nodup := hkey ▸ List.nodup_dedup _
  have hnodup' : ((l'.destutter fun a b => key a ≠ key b).map key).Nodup :=
    hkey' ▸ List.nodup_dedup _
  -- Every record is left, as the only one with its key.
  have hleft : ∀ {m : List α}, (∀ a, a ∈ m ↔ a ∈ l) → (m.Pairwise fun a b => key a ≤ key b) →
      ∀ a, a ∈ (m.destutter fun a b => key a ≠ key b) ↔ a ∈ l := by
    intro m hm hsorted a
    have hsub := (List.destutter_sublist (fun a b => key a ≠ key b) m).subset
    refine ⟨fun ha => (hm a).mp (hsub ha), fun ha => ?_⟩
    have hin : key a ∈ (m.destutter fun a b => key a ≠ key b).map key := by
      rw [map_key_destutter hsorted, List.mem_dedup]
      exact List.mem_map_of_mem ((hm a).mpr ha)
    obtain ⟨b, hb, hba⟩ := List.mem_map.mp hin
    obtain rfl := hinj b ((hm b).mp (hsub hb)) a ha hba
    exact hb
  have hperm : (l'.destutter fun a b => key a ≠ key b).Perm
      (l.destutter fun a b => key a ≠ key b) := by
    rw [List.perm_ext_iff_of_nodup (.of_map key hnodup') (.of_map key hnodup)]
    exact fun a => (hleft hmem hl' a).trans (hleft (fun _ => Iff.rfl) hl a).symm
  refine hperm.eq_of_pairwise (fun a b ha hb hab hba => ?_) (hl'.sublist hs') (hl.sublist hs)
  exact hinj a ((hmem a).mp (hs'.subset ha)) b (hs.subset hb) (le_antisymm hab hba)

variable [DecidableEq κ] {key : α → κ}

theorem find?_key {l : List α} (hn : (l.map key).Nodup) {a : α} (ha : a ∈ l) :
    l.find? (fun b => decide (key b = key a)) = some a := by
  induction l with
  | nil => cases ha
  | cons b l ih =>
    obtain ⟨hb, hn⟩ := List.nodup_cons.mp hn
    rcases List.mem_cons.mp ha with rfl | ha
    · exact List.find?_cons_of_pos (by simp)
    · have hne : key b ≠ key a := fun h => hb (h ▸ List.mem_map_of_mem ha)
      rw [List.find?_cons_of_neg (by simpa using hne)]
      exact ih hn ha

/-- A list is determined by the sequence of its keys and by its records of each key. -/
theorem eq_of_map_eq {l l' : List α} (h : l.map key = l'.map key)
    (hk : ∀ a ∈ l, l.filter (fun b => decide (key b = key a)) =
      l'.filter fun b => decide (key b = key a)) : l = l' := by
  induction l generalizing l' with
  | nil => exact (List.map_eq_nil_iff.mp h.symm).symm
  | cons a l ih =>
    obtain ⟨a', l', rfl⟩ : ∃ a' l'', l' = a' :: l'' := by
      cases l' with
      | nil => cases h
      | cons a' l'' => exact ⟨a', l'', rfl⟩
    obtain ⟨haa, hll⟩ := List.cons.inj h
    have hhead := hk a (by simp)
    rw [List.filter_cons_of_pos (by simp), List.filter_cons_of_pos (by simp [haa])] at hhead
    obtain ⟨rfl, -⟩ := List.cons.inj hhead
    rw [ih hll fun b hb => ?_]
    have hb := hk b (by simp [hb])
    rw [List.filter_cons, List.filter_cons] at hb
    split_ifs at hb with hab
    · exact (List.cons.inj hb).2
    · exact hb

/-- A change of the first record with a key changes the record with this key. -/
theorem exists_modify_key {l : List α} (hn : (l.map key).Nodup) {k : κ} (hk : k ∈ l.map key)
    (f : α → α) : ∃ i, l.findIdx? (fun a => decide (key a = k)) = some i ∧
      l.modify i f = l.map fun a => if key a = k then f a else a := by
  induction l with
  | nil => cases hk
  | cons b l ih =>
    obtain ⟨hb, hn⟩ := List.nodup_cons.mp hn
    by_cases hbk : key b = k
    · subst hbk
      have hne : ∀ a ∈ l, key a ≠ key b := fun a ha h => hb (h ▸ List.mem_map_of_mem ha)
      have hl : (l.map fun a => if key a = key b then f a else a) = l.map id :=
        List.map_congr_left fun a ha => if_neg (hne a ha)
      exact ⟨0, by simp [List.findIdx?_cons], by simp [hl]⟩
    · obtain ⟨i, hi, hm⟩ := ih hn ((List.mem_cons.mp hk).resolve_left (Ne.symm hbk))
      exact ⟨i + 1, by simp [List.findIdx?_cons, hbk, hi], by simp [hbk, hm]⟩

/-- A list of lists, taken apart by a test. -/
theorem flatMap_filter_perm {β : Type} (p : α → Bool) (l : List α) (f : α → List β) :
    ((l.filter p).flatMap f ++ (l.filter fun a => !p a).flatMap f).Perm (l.flatMap f) := by
  rw [← List.flatMap_append]
  exact (List.filter_append_perm p l).flatMap_right f

/-- When every element of `l` is there twice, its length is twice the number of different ones. -/
theorem length_of_count_two {l m : List κ} (hm : m.Nodup) (h : ∀ x ∈ l, l.count x = 2)
    (hlm : ∀ x, x ∈ l ↔ x ∈ m) : l.length = m.length * 2 := by
  have hp : l.Perm (m ++ m) := List.perm_iff_count.mpr fun x => by
    rw [List.count_append]
    by_cases hx : x ∈ l
    · rw [h x hx, List.count_eq_one_of_mem hm ((hlm x).mp hx)]
    · rw [List.count_eq_zero.mpr hx, List.count_eq_zero.mpr fun hx' => hx ((hlm x).mpr hx')]
  rw [hp.length_eq, List.length_append]
  omega

/-! ### Twice on one list -/

/-- Every element of one of the lists is there exactly twice, and in no other one. -/
def TwiceOnOne (L : List (List κ)) : Prop := ∀ l ∈ L, ∀ x ∈ l, l.count x = 2 ∧ L.flatten.count x = 2

instance (L : List (List κ)) : Decidable (TwiceOnOne L) := by
  unfold TwiceOnOne
  infer_instance

theorem TwiceOnOne.count {L : List (List κ)} (h : TwiceOnOne L) {l : List κ} (hl : l ∈ L) (x : κ) :
    l.count x = 0 ∨ l.count x = 2 := by
  by_cases hx : x ∈ l
  · exact Or.inr (h l hl x hx).1
  · exact Or.inl (List.count_eq_zero.mpr hx)

theorem TwiceOnOne.perm {L L' : List (List κ)} (h : TwiceOnOne L) (hp : L'.Perm L) : TwiceOnOne L' := by
  intro l hl x hx
  obtain ⟨h1, h2⟩ := h l (hp.mem_iff.mp hl) x hx
  exact ⟨h1, by rw [hp.flatten.count_eq, h2]⟩

theorem TwiceOnOne.sublist {L L' : List (List κ)} (h : TwiceOnOne L) (hs : L'.Sublist L) :
    TwiceOnOne L' := by
  intro l hl x hx
  obtain ⟨h1, h2⟩ := h l (hs.subset hl) x hx
  have hle := hs.flatten.count_le x
  have hge := (List.sublist_flatten_of_mem hl).count_le x
  exact ⟨h1, by omega⟩

/-- The elements move to other lists, where they are twice. -/
theorem TwiceOnOne.of_perm {L L' : List (List κ)} (h : TwiceOnOne L)
    (hp : L'.flatten.Perm L.flatten) (hc : ∀ l ∈ L', ∀ x ∈ l, l.count x = 2) : TwiceOnOne L' := by
  intro l hl x hx
  obtain ⟨m, hm, hxm⟩ := List.mem_flatten.mp (hp.mem_iff.mp (List.mem_flatten.mpr ⟨l, hl, hx⟩))
  exact ⟨hc l hl x hx, by rw [hp.count_eq, (h m hm x hxm).2]⟩

theorem TwiceOnOne.append_nil {L : List (List κ)} (h : TwiceOnOne L) : TwiceOnOne (L ++ [[]]) := by
  intro l hl x hx
  rcases List.mem_append.mp hl with hl | hl
  · simpa using h l hl x hx
  · rw [List.mem_singleton.mp hl] at hx
    cases hx

theorem TwiceOnOne.pairwise : ∀ {L : List (List κ)}, TwiceOnOne L →
    L.Pairwise fun l m => ∀ x ∈ l, x ∉ m
  | [], _ => .nil
  | l :: L, h => by
    refine .cons (fun m hm x hx hxm => ?_) (TwiceOnOne.pairwise (h.sublist (List.sublist_cons_self l L)))
    obtain ⟨h1, h2⟩ := h l List.mem_cons_self x hx
    rw [List.flatten_cons, List.count_append] at h2
    have hge := (List.sublist_flatten_of_mem hm).count_le x
    have := List.count_pos_iff.mpr hxm
    omega

/-- Two records whose lists share an element are the same one. -/
theorem TwiceOnOne.eq_of_mem {f : α → List κ} {l : List α} (h : TwiceOnOne (l.map f)) {a b : α}
    (ha : a ∈ l) (hb : b ∈ l) {x : κ} (hxa : x ∈ f a) (hxb : x ∈ f b) : a = b := by
  have hsymm : Std.Symm fun a b => ∀ x ∈ f a, x ∉ f b := ⟨fun a b hab y hy hy' => hab y hy' hy⟩
  by_contra hne
  exact (List.pairwise_map.mp h.pairwise).forall ha hb hne x hxa hxb

end Keyed
