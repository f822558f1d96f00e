import Mathlib.Algebra.Notation.Defs
import Mathlib.Data.List.Basic
import Mathlib.Data.List.Induction
import Mathlib.Order.Lattice

/-! # Scans that keep the best so far

A scan keeps the element with the least score, and the score itself, in which the value 0 stands for
no element. The first of the least elements (`IsFirstLeast`) is kept unless its score is 0: then the
next element takes its place (`kept_iff`). Elements with a privilege are taken whatever their score
(`keepOr`); a scan ends below the score at the start exactly when something below it follows every
element that is taken so (`lt_iff`). Which elements fit may depend on a memory that the scan fills
(`fitting`). -/

namespace BestSoFar

variable {ι α : Type*} [LinearOrder α]

/-- `x` is the first one of the elements with the least score. -/
def IsFirstLeast (f : ι → α) (l : List ι) (x : ι) : Prop :=
  ∃ A B, l = A ++ x :: B ∧ (∀ a ∈ A, f x < f a) ∧ ∀ b ∈ B, f x ≤ f b

section FirstLeast
variable {f : ι → α} {l l' : List ι} {x y : ι}

theorem IsFirstLeast.mem (h : IsFirstLeast f l x) : x ∈ l := by
  obtain ⟨A, B, rfl, -⟩ := h
  simp

theorem IsFirstLeast.le (h : IsFirstLeast f l x) (hy : y ∈ l) : f x ≤ f y := by
  obtain ⟨A, B, rfl, hA, hB⟩ := h
  rcases List.mem_append.mp hy with hy | hy
  · exact (hA y hy).le
  · rcases List.mem_cons.mp hy with rfl | hy
    · exact le_rfl
    · exact hB y hy

theorem exists_isFirstLeast (f : ι → α) : ∀ {l : List ι}, l ≠ [] → ∃ x, IsFirstLeast f l x
  | [], h => absurd rfl h
  | [x], _ => ⟨x, [], [], rfl, by simp, by simp⟩
  | a :: b :: l, _ => by
    obtain ⟨x, h⟩ := exists_isFirstLeast f (List.cons_ne_nil b l)
    rcases le_or_gt (f a) (f x) with hle | hlt
    · exact ⟨a, [], b :: l, rfl, by simp, fun y hy => hle.trans (h.le hy)⟩
    · obtain ⟨A, B, heq, hA, hB⟩ := h
      exact ⟨x, a :: A, B, by rw [heq]; rfl, List.forall_mem_cons.mpr ⟨hlt, hA⟩, hB⟩

theorem IsFirstLeast.unique (h : IsFirstLeast f l x) (h' : IsFirstLeast f l y) : x = y := by
  have hxy : f x = f y := le_antisymm (h.le h'.mem) (h'.le h.mem)
  obtain ⟨A, B, rfl, hA, hB⟩ := h
  obtain ⟨A', B', heq, hA', hB'⟩ := h'
  rcases List.append_eq_append_iff.mp heq with ⟨C, rfl, hC⟩ | ⟨C, rfl, hC⟩
  · cases C with
    | nil => exact (List.cons.inj hC).1
    | cons c C =>
      obtain ⟨rfl, -⟩ := List.cons.inj hC
      exact absurd hxy.symm (hA' x (by simp)).ne
  · cases C with
    | nil => exact (List.cons.inj hC).1.symm
    | cons c C =>
      obtain ⟨rfl, -⟩ := List.cons.inj hC
      exact absurd hxy (hA y (by simp)).ne

/-- It is the first least element of every sublist that has it. -/
theorem IsFirstLeast.of_sublist (h : IsFirstLeast f l x) (hl : l.Nodup) (hs : l'.Sublist l)
    (hx : x ∈ l') : IsFirstLeast f l' x := by
  obtain ⟨A, B, rfl, hA, hB⟩ := h
  have hxB : x ∉ B := (List.nodup_cons.mp (List.nodup_append.mp hl).2.1).1
  obtain ⟨A', C, rfl, hA', hC⟩ := List.sublist_append_iff.mp hs
  have hmem : x ∈ C := (List.mem_append.mp hx).resolve_left fun h => (hA x (hA'.subset h)).false
  rcases List.sublist_cons_iff.mp hC with hC | ⟨B', rfl, hB'⟩
  · exact absurd (hC.subset hmem) hxB
  · exact ⟨A', B', rfl, fun a ha => hA a (hA'.subset ha), fun b hb => hB b (hB'.subset hb)⟩

/-- A loop that replaces the best one by each lesser one keeps the first least one. -/
theorem isFirstLeast_foldl (f : ι → α) (x : ι) (l : List ι) :
    IsFirstLeast f (x :: l) (l.foldl (fun best y => if f y < f best then y else best) x) := by
  induction l using List.reverseRecOn with
  | nil => exact ⟨[], [], rfl, by simp, by simp⟩
  | append_singleton l y ih =>
    rw [List.foldl_append, List.foldl_cons, List.foldl_nil, ← List.cons_append]
    split_ifs with hlt
    · exact ⟨x :: l, [], rfl, fun a ha => hlt.trans_le (ih.le ha), by simp⟩
    · obtain ⟨A, B, heq, hA, hB⟩ := ih
      refine ⟨A, B ++ [y], by rw [heq]; simp, hA, fun b hb => ?_⟩
      rcases List.mem_append.mp hb with hb | hb
      · exact hB b hb
      · rw [List.mem_singleton.mp hb]
        exact not_lt.mp hlt

/-- A loop that keeps the least value so far. -/
theorem foldl_min_spec (f : ι → α) : ∀ (l : List ι) (b : α),
    let m := l.foldl (fun m x => min m (f x)) b
    m ≤ b ∧ (∀ x ∈ l, m ≤ f x) ∧ (m = b ∨ ∃ x ∈ l, m = f x)
  | [], b => ⟨le_rfl, fun _ h => (by cases h), Or.inl rfl⟩
  | y :: l, b => by
    obtain ⟨h1, h2, h3⟩ := foldl_min_spec f l (min b (f y))
    rw [List.foldl_cons]
    refine ⟨h1.trans (min_le_left _ _), fun x hx => ?_, ?_⟩
    · rcases List.mem_cons.mp hx with rfl | hx
      · exact h1.trans (min_le_right _ _)
      · exact h2 x hx
    · rcases h3 with h3 | ⟨x, hx, h3⟩
      · rcases le_total b (f y) with h | h
        · exact Or.inl (h3.trans (min_eq_left h))
        · exact Or.inr ⟨y, List.mem_cons_self, h3.trans (min_eq_right h)⟩
      · exact Or.inr ⟨x, List.mem_cons_of_mem _ hx, h3⟩

/-- A loop that keeps the greatest value so far. -/
theorem foldl_max_spec (f : ι → α) (l : List ι) (b : α) :
    let m := l.foldl (fun m x => max m (f x)) b
    b ≤ m ∧ (∀ x ∈ l, f x ≤ m) ∧ (m = b ∨ ∃ x ∈ l, m = f x) :=
  foldl_min_spec (α := αᵒᵈ) f l b

end FirstLeast

/-! ### The scan -/

section Scan
variable [Zero α] (f : ι → α) (p : ι → Prop) [DecidablePred p]

/-- One element of the scan; a score of 0 stands for none, an element with `p` is taken anyway. -/
def keepOr (b : α × Option ι) (x : ι) : α × Option ι :=
  if f x < b.1 ∨ p x ∨ b.1 = 0 then (f x, some x) else b

/-- One element of the scan without privileges. -/
abbrev keep (b : α × Option ι) (x : ι) : α × Option ι := keepOr f (fun _ => False) b x

/-- The scan leaves what it started with, or an element with its score. -/
theorem foldl_keepOr (l : List ι) (b : α × Option ι) :
    l.foldl (keepOr f p) b = b ∨ ∃ x ∈ l, l.foldl (keepOr f p) b = (f x, some x) := by
  induction l generalizing b with
  | nil => exact Or.inl rfl
  | cons a l ih =>
    rw [List.foldl_cons]
    rcases ih (keepOr f p b a) with h | ⟨x, hx, h⟩
    · rw [h]
      unfold keepOr
      split_ifs
      · exact Or.inr ⟨a, by simp, rfl⟩
      · exact Or.inl rfl
    · exact Or.inr ⟨x, List.mem_cons_of_mem a hx, h⟩

variable {f p} in
/-- What a scan takes first it leaves, or a later element. -/
theorem foldl_keepOr_cons {b : α × Option ι} {r : ι} (h : f r < b.1 ∨ p r ∨ b.1 = 0) (l : List ι) :
    ∃ w ∈ r :: l, (r :: l).foldl (keepOr f p) b = (f w, some w) := by
  have htaken : keepOr f p b r = (f r, some r) := if_pos h
  rw [List.foldl_cons, htaken]
  rcases foldl_keepOr f p l (f r, some r) with h | ⟨x, hx, h⟩
  · exact ⟨r, by simp, h⟩
  · exact ⟨x, List.mem_cons_of_mem r hx, h⟩

variable {f p} in
theorem mem_of_foldl_keepOr {l : List ι} {c : α} {w : ι}
    (hw : (l.foldl (keepOr f p) (c, none)).2 = some w) :
    w ∈ l ∧ l.foldl (keepOr f p) (c, none) = (f w, some w) := by
  rcases foldl_keepOr f p l (c, none) with h | ⟨x, hx, h⟩
  · rw [h] at hw
    cases hw
  · rw [h] at hw
    obtain rfl := Option.some.inj hw
    exact ⟨hx, h⟩

/-- Elements that are not better than a score other than 0 are not taken. -/
theorem foldl_keep_of_le {b : α × Option ι} (hb : b.1 ≠ 0) :
    ∀ {l : List ι}, (∀ x ∈ l, b.1 ≤ f x) → l.foldl (keep f) b = b
  | [], _ => rfl
  | a :: l, h => by
    obtain ⟨ha, hl⟩ := List.forall_mem_cons.mp h
    have hkeep : keep f b a = b := if_neg (by simp [ha, hb])
    rw [List.foldl_cons, hkeep, foldl_keep_of_le hb hl]

end Scan

section Result
variable [Zero α] {f : ι → α} {l : List ι} {x w : ι} {c : α}

/-- The first least element is taken when the scan comes to it. -/
theorem IsFirstLeast.foldl_eq (h : IsFirstLeast f l x) (hc : c = 0 ∨ f x < c) :
    ∃ A B, l = A ++ x :: B ∧ (∀ b ∈ B, f x ≤ f b) ∧
      l.foldl (keep f) (c, none) = B.foldl (keep f) (f x, some x) := by
  obtain ⟨A, B, rfl, hA, hB⟩ := h
  refine ⟨A, B, rfl, hB, ?_⟩
  rw [List.foldl_append, List.foldl_cons]
  congr 1
  refine if_pos ?_
  rcases foldl_keepOr f (fun _ => False) A (c, none) with h | ⟨a, ha, h⟩
  · rw [h]
    exact hc.symm.imp_right Or.inr
  · rw [h]
    exact Or.inl (hA a ha)

/-- **With a least score other than 0 the first least element is kept.** -/
theorem IsFirstLeast.kept (h : IsFirstLeast f l x) (hx : f x ≠ 0) (hc : c = 0 ∨ f x < c) :
    l.foldl (keep f) (c, none) = (f x, some x) := by
  obtain ⟨A, B, -, hB, heq⟩ := h.foldl_eq hc
  rw [heq, foldl_keep_of_le f hx hB]

/-- When an element is taken, the first least one may be. -/
theorem IsFirstLeast.lt_of_taken (h : IsFirstLeast f l x)
    (hw : (l.foldl (keep f) (c, none)).2 = some w) : c = 0 ∨ f x < c := by
  by_contra hc
  obtain ⟨hc0, hcx⟩ := not_or.mp hc
  rw [foldl_keep_of_le f (b := (c, none)) hc0 fun y hy => (not_lt.mp hcx).trans (h.le hy)] at hw
  cases hw

/-- **The scan keeps the first least element** exactly when its score is not 0 or it is the last
element. -/
theorem IsFirstLeast.kept_iff (h : IsFirstLeast f l x) (hl : l.Nodup)
    (hw : (l.foldl (keep f) (c, none)).2 = some w) :
    w = x ↔ f x ≠ 0 ∨ l.getLast? = some x := by
  have hc := h.lt_of_taken hw
  by_cases hx : f x = 0
  · obtain ⟨A, B, rfl, hB, heq⟩ := h.foldl_eq hc
    rw [heq, hx] at hw
    have hxB : x ∉ B := (List.nodup_cons.mp (List.nodup_append.mp hl).2.1).1
    cases B with
    | nil => simpa [hx] using (Option.some.inj hw).symm
    | cons b B =>
      -- the score 0 gives way to a later element
      obtain ⟨y, hy, hfold⟩ := foldl_keepOr_cons (f := f) (p := fun _ => False) (b := (0, some x))
        (r := b) (Or.inr (Or.inr rfl)) B
      rw [hfold] at hw
      obtain rfl := Option.some.inj hw
      have hyx : y ≠ x := fun h => hxB (h ▸ hy)
      have hlast : (b :: B).getLast? ≠ some x := fun hlast => hxB (List.mem_of_getLast? hlast)
      simp [hx, hyx, hlast]
  · rw [h.kept hx hc] at hw
    simp [hx, (Option.some.inj hw).symm]

end Result

/-! ### Elements that are taken whatever their score -/

section Restarts
variable [Zero α] (f : ι → α) (p : ι → Prop) [DecidablePred p] (c : α)

/-- The last score of a scan from `c`. -/
def lastScore (A : List ι) : α := (A.getLast?.map f).getD c

/-- A negative score came, and nothing with a privilege since. -/
def Sunk (A : List ι) : Prop := A.foldl (fun sunk x => f x < 0 ∨ (sunk ∧ ¬ p x)) (c < 0)

/-- After `A` the element `r` is taken whatever its score: it has the privilege, or the score before
it is 0. -/
def Restarts (A : List ι) (r : ι) : Prop := p r ∨ (lastScore f c A = 0 ∧ ¬ Sunk f p c A)

/-- The score of the scan is negative when it has sunk, and 0 when the last one is. -/
theorem foldl_keepOr_sign (A : List ι) :
    ((A.foldl (keepOr f p) (c, none)).1 < 0 ↔ Sunk f p c A) ∧
      ((A.foldl (keepOr f p) (c, none)).1 = 0 ↔ lastScore f c A = 0 ∧ ¬ Sunk f p c A) := by
  induction A using List.reverseRecOn with
  | nil =>
    refine ⟨Iff.rfl, ?_⟩
    show c = 0 ↔ c = 0 ∧ ¬ c < 0
    exact ⟨fun h => ⟨h, by simp [h]⟩, And.left⟩
  | append_singleton A x ih =>
    obtain ⟨hneg, hzero⟩ := ih
    have hsunk : Sunk f p c (A ++ [x]) ↔ f x < 0 ∨ (Sunk f p c A ∧ ¬ p x) := by
      simp [Sunk, List.foldl_append]
    have hlast : lastScore f c (A ++ [x]) = f x := by simp [lastScore]
    rw [hsunk, hlast, List.foldl_append, List.foldl_cons, List.foldl_nil, ← hneg]
    generalize A.foldl (keepOr f p) (c, none) = b at *
    unfold keepOr
    split_ifs with htaken
    · refine ⟨⟨Or.inl, ?_⟩, ⟨fun h => ⟨h, ?_⟩, And.left⟩⟩
      · rintro (h | ⟨h, hp⟩)
        · exact h
        · rcases htaken with hlt | hx | h0
          · exact hlt.trans h
          · exact absurd hx hp
          · exact absurd h0 h.ne
      · rintro (h' | ⟨hb, hp⟩)
        · exact h'.ne h
        · rcases htaken with hlt | hx | h0
          · exact (hlt.trans hb).ne h
          · exact hp hx
          · exact hb.ne h0
    · obtain ⟨hle, hp, h0⟩ : b.1 ≤ f x ∧ ¬ p x ∧ b.1 ≠ 0 := by simpa [not_or] using htaken
      refine ⟨⟨fun h => Or.inr ⟨h, hp⟩, ?_⟩, ⟨fun h => absurd h h0, ?_⟩⟩
      · rintro (h | ⟨h, -⟩)
        · exact hle.trans_lt h
        · exact h
      · rintro ⟨hx, hn⟩
        obtain ⟨-, hn⟩ := not_or.mp hn
        have hb : ¬ b.1 < 0 := fun h => hn ⟨h, hp⟩
        exact absurd (le_antisymm (hx ▸ hle) (not_lt.mp hb)) h0

variable {f p c}

/-- **What is taken is below the score at the start** exactly when something below it follows every
element that is taken whatever its score. -/
theorem lt_iff {l : List ι} :
    (∀ w, (l.foldl (keepOr f p) (c, none)).2 = some w → f w < c) ↔
      ∀ A r B, l = A ++ r :: B → Restarts f p c A r → ∃ x ∈ r :: B, f x < c := by
  constructor
  · rintro h A r B rfl hr
    have htaken : p r ∨ (A.foldl (keepOr f p) (c, none)).1 = 0 :=
      hr.imp_right (foldl_keepOr_sign f p c A).2.mpr
    obtain ⟨w, hw, heq⟩ := foldl_keepOr_cons (f := f) (Or.inr htaken) B
    exact ⟨w, hw, h w (by rw [List.foldl_append, heq])⟩
  · -- a scan that ends above the score at the start has restarted, with nothing below it since
    intro h w hw
    by_contra hge
    suffices hs : ∀ l : List ι, c ≤ (l.foldl (keepOr f p) (c, none)).1 →
        (l.foldl (keepOr f p) (c, none)).2 ≠ none →
        ∃ A r B, l = A ++ r :: B ∧ Restarts f p c A r ∧ ∀ x ∈ r :: B, c ≤ f x by
      obtain ⟨A, r, B, rfl, hr, hle⟩ := hs l (by
        rw [(mem_of_foldl_keepOr hw).2]
        exact not_lt.mp hge) (by simp [hw])
      obtain ⟨x, hx, hlt⟩ := h A r B rfl hr
      exact (hle x hx).not_gt hlt
    intro l
    induction l using List.reverseRecOn with
    | nil => exact fun _ hne => absurd rfl hne
    | append_singleton l x ih =>
      have hsign := (foldl_keepOr_sign f p c l).2
      have hstart := foldl_keepOr f p l (c, none)
      rw [List.foldl_append, List.foldl_cons, List.foldl_nil]
      generalize l.foldl (keepOr f p) (c, none) = b at *
      have hmore : c ≤ f x → c ≤ b.1 → b.2 ≠ none →
          ∃ A r B, l ++ [x] = A ++ r :: B ∧ Restarts f p c A r ∧ ∀ x ∈ r :: B, c ≤ f x := by
        intro hx hb hne
        obtain ⟨A, r, B, rfl, hr, hle⟩ := ih hb hne
        refine ⟨A, r, B ++ [x], by simp, hr, fun y hy => ?_⟩
        rcases List.mem_append.mp (show y ∈ (r :: B) ++ [x] from hy) with hy | hy
        · exact hle y hy
        · rwa [List.mem_singleton.mp hy]
      unfold keepOr
      split_ifs with htaken
      · intro hx _
        rcases htaken with hlt | hr
        · have hcb : c < b.1 := hx.trans_lt hlt
          refine hmore hx hcb.le fun hne => ?_
          rcases hstart with hs | ⟨y, -, hs⟩
          · exact hcb.ne (by rw [hs])
          · rw [hs] at hne
            cases hne
        · exact ⟨l, x, [], rfl, hr.imp_right hsign.mp, by simpa using hx⟩
      · intro hb hne
        exact hmore (hb.trans (not_lt.mp (not_or.mp htaken).1)) hb hne

end Restarts

/-! ### A scan with a memory -/

section Memory
variable {μ : Type*} (fits : μ → ι → Prop) [∀ m x, Decidable (fits m x)] (remember : μ → ι → μ)

/-- The elements that fit, each with the memory that the scan has when it comes to it. -/
def fitting : μ → List ι → List ι
  | _, [] => []
  | m, x :: l => if fits m x then x :: fitting (remember m x) l else fitting (remember m x) l

theorem fitting_sublist (m : μ) : ∀ l : List ι, (fitting fits remember m l).Sublist l
  | [] => .slnil
  | x :: l => by
    unfold fitting
    split_ifs
    · exact (fitting_sublist _ l).cons_cons x
    · exact (fitting_sublist _ l).cons x

variable {fits remember}

theorem mem_fitting {x : ι} : ∀ {l : List ι} {m : μ}, x ∈ fitting fits remember m l →
    ∃ A B, l = A ++ x :: B ∧ fits (A.foldl remember m) x
  | [], _, h => absurd h List.not_mem_nil
  | y :: l, m, h => by
    have hstep : (∃ A B, l = A ++ x :: B ∧ fits (A.foldl remember (remember m y)) x) →
        ∃ A B, y :: l = A ++ x :: B ∧ fits (A.foldl remember m) x := by
      rintro ⟨A, B, rfl, hx⟩
      exact ⟨y :: A, B, rfl, hx⟩
    unfold fitting at h
    split_ifs at h with hy
    · rcases List.mem_cons.mp h with rfl | h
      · exact ⟨[], l, rfl, hy⟩
      · exact hstep (mem_fitting h)
    · exact hstep (mem_fitting h)

variable (fits) in
/-- A loop that takes the elements that fit, seen through `mem` and `shows`. -/
theorem foldl_fitting {σ β : Type*} (mem : σ → μ) {step : σ → ι → σ} {take : β → ι → β}
    {shows : σ → β → Prop} (hmem : ∀ s x, mem (step s x) = remember (mem s) x)
    (hfit : ∀ s b x, shows s b → fits (mem s) x → shows (step s x) (take b x))
    (hskip : ∀ s b x, shows s b → ¬ fits (mem s) x → shows (step s x) b) :
    ∀ (l : List ι) {s : σ} {b : β}, shows s b → mem (l.foldl step s) = l.foldl remember (mem s) ∧
      shows (l.foldl step s) ((fitting fits remember (mem s) l).foldl take b)
  | [], _, _, h => ⟨rfl, h⟩
  | x :: l, s, b, h => by
    unfold fitting
    rw [List.foldl_cons, List.foldl_cons, ← hmem]
    split_ifs with hx
    · exact foldl_fitting mem hmem hfit hskip l (hfit s b x h hx)
    · exact foldl_fitting mem hmem hfit hskip l (hskip s b x h hx)

end Memory

end BestSoFar
