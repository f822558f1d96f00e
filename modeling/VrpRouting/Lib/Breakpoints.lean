import Mathlib.Data.List.Basic
import Mathlib.Data.List.Find
import Mathlib.Data.List.Nodup
import Mathlib.Order.Lattice

/-! # Values that change at breakpoints

A list of breakpoints in order, each with the value that applies from it on. `inForce t` is the last
breakpoint that is not after `t`, `upcoming t` the first one that is not before `t`, and `following t`
the first one after `t`; behind all breakpoints the last two are the last breakpoint. They differ at
the breakpoints themselves: there `upcoming t` is already in force (`upcoming_eq_following_iff`). -/

namespace Breakpoints

variable {α β : Type} [LinearOrder α]

/-- The last breakpoint that is not after `t`. -/
def inForce (t : α) (l : List (α × β)) : Option (α × β) := (l.filter fun e => decide (e.1 ≤ t)).getLast?

/-- The first breakpoint that is not before `t`, else the last one. -/
def upcoming (t : α) (l : List (α × β)) : Option (α × β) :=
  (l.find? fun e => decide (t ≤ e.1)).or l.getLast?

/-- The first breakpoint after `t`, else the last one. -/
def following (t : α) (l : List (α × β)) : Option (α × β) :=
  (l.find? fun e => decide (t < e.1)).or l.getLast?

/-- `e` is a breakpoint after `t`, and there is none between them. -/
def IsNext (t : α) (l : List (α × β)) (e : α × β) : Prop :=
  e ∈ l ∧ t < e.1 ∧ ∀ e' ∈ l, t < e'.1 → e.1 ≤ e'.1

variable {l : List (α × β)} {t : α} {e : α × β}

/-- The last breakpoint is the greatest. -/
theorem le_getLast? (hs : l.Pairwise fun a b => a.1 ≤ b.1) (h : l.getLast? = some e) :
    ∀ e' ∈ l, e'.1 ≤ e.1 := by
  obtain ⟨ys, rfl⟩ := List.getLast?_eq_some_iff.mp h
  intro e' he'
  rcases List.mem_append.mp he' with hmem | hmem
  · exact (List.pairwise_append.mp hs).2.2 e' hmem e (List.mem_singleton_self e)
  · rw [List.mem_singleton.mp hmem]

theorem inForce_eq_none_iff : inForce t l = none ↔ ∀ e ∈ l, t < e.1 := by
  simp [inForce]

theorem inForce_spec (hs : l.Pairwise fun a b => a.1 ≤ b.1) (h : inForce t l = some e) :
    e ∈ l ∧ e.1 ≤ t ∧ ∀ e' ∈ l, e'.1 ≤ t → e'.1 ≤ e.1 := by
  obtain ⟨hmem, hle⟩ := List.mem_filter.mp (List.mem_of_getLast? h)
  refine ⟨hmem, of_decide_eq_true hle, fun e' he' hle' => ?_⟩
  exact le_getLast? (hs.filter _) h e' (List.mem_filter.mpr ⟨he', decide_eq_true hle'⟩)

/-- The value changes only at breakpoints. -/
theorem inForce_congr {t' : α} (h : ∀ e ∈ l, e.1 ≤ t ↔ e.1 ≤ t') : inForce t l = inForce t' l := by
  unfold inForce
  rw [List.filter_congr fun e he => decide_eq_decide.mpr (h e he)]

theorem find?_spec (hs : l.Pairwise fun a b => a.1 ≤ b.1) {p : α → Bool}
    (h : (l.find? fun e => p e.1) = some e) :
    e ∈ l ∧ p e.1 = true ∧ ∀ e' ∈ l, p e'.1 = true → e.1 ≤ e'.1 := by
  obtain ⟨hp, as, bs, rfl, has⟩ := List.find?_eq_some_iff_append.mp h
  refine ⟨by simp, hp, fun e' he' hp' => ?_⟩
  rcases List.mem_append.mp he' with hmem | hmem
  · exact absurd hp' (by simpa using has e' hmem)
  · rcases List.mem_cons.mp hmem with rfl | hmem
    · exact le_rfl
    · exact (List.pairwise_cons.mp (List.pairwise_append.mp hs).2.1).1 e' hmem

/-- The upcoming breakpoint is the first one that is not before `t`, or the last one of all, which is
then in force. -/
theorem upcoming_spec (hs : l.Pairwise fun a b => a.1 ≤ b.1) (h : upcoming t l = some e) :
    (e ∈ l ∧ t ≤ e.1 ∧ ∀ e' ∈ l, t ≤ e'.1 → e.1 ≤ e'.1) ∨
      (∀ e' ∈ l, e'.1 < t) ∧ inForce t l = some e := by
  unfold upcoming at h
  rcases Option.or_eq_some_iff.mp h with h | ⟨hnone, hlast⟩
  · obtain ⟨hmem, hle, hfirst⟩ := find?_spec (p := fun x => decide (t ≤ x)) hs h
    exact Or.inl ⟨hmem, of_decide_eq_true hle, fun e' he' hle' => hfirst e' he' (decide_eq_true hle')⟩
  · have hlt : ∀ e' ∈ l, e'.1 < t := fun e' he' => by simpa using List.find?_eq_none.mp hnone e' he'
    refine Or.inr ⟨hlt, ?_⟩
    rw [inForce, List.filter_eq_self.mpr fun e' he' => decide_eq_true (hlt e' he').le, hlast]

theorem exists_upcoming (hne : l ≠ []) (t : α) : ∃ e, upcoming t l = some e := by
  obtain ⟨e, he⟩ := List.getLast?_isSome.mpr hne |> Option.isSome_iff_exists.mp
  unfold upcoming
  rw [he]
  cases l.find? fun e => decide (t ≤ e.1) with
  | none => exact ⟨e, rfl⟩
  | some e' => exact ⟨e', rfl⟩

section Strict
variable (hs : l.Pairwise fun a b => a.1 < b.1)
include hs

/-- Breakpoints at the same place are one. -/
theorem eq_of_start_eq {e' : α × β} (he : e ∈ l) (he' : e' ∈ l) (h : e.1 = e'.1) : e = e' := by
  have hn : (l.map Prod.fst).Nodup := List.pairwise_map.mpr (hs.imp fun h => h.ne)
  exact List.inj_on_of_nodup_map hn he he' h

theorem IsNext.unique {e' : α × β} (h : IsNext t l e) (h' : IsNext t l e') : e = e' := by
  obtain ⟨he, hlt, hfirst⟩ := h
  obtain ⟨he', hlt', hfirst'⟩ := h'
  exact eq_of_start_eq hs he he' (le_antisymm (hfirst e' he' hlt') (hfirst' e he hlt))

theorem upcoming_eq_some (he : e ∈ l) (hle : t ≤ e.1) (hfirst : ∀ e' ∈ l, t ≤ e'.1 → e.1 ≤ e'.1) :
    upcoming t l = some e := by
  obtain ⟨e', he'⟩ := exists_upcoming (List.ne_nil_of_mem he) t
  rw [he']
  rcases upcoming_spec (hs.imp fun h => h.le) he' with ⟨hmem, hle', hfirst'⟩ | ⟨hall, -⟩
  · rw [eq_of_start_eq hs he hmem (le_antisymm (hfirst e' hmem hle') (hfirst' e he hle))]
  · exact absurd (hall e he) (not_lt.mpr hle)

/-- At a breakpoint, it is upcoming and in force. -/
theorem at_start (he : e ∈ l) : upcoming e.1 l = some e ∧ inForce e.1 l = some e := by
  constructor
  · exact upcoming_eq_some hs he le_rfl fun _ _ hle => hle
  · have hsome : inForce e.1 l ≠ none := fun hnone =>
      lt_irrefl _ (inForce_eq_none_iff.mp hnone e he)
    obtain ⟨e', he'⟩ := Option.ne_none_iff_exists'.mp hsome
    obtain ⟨hmem, hle, hlast⟩ := inForce_spec (hs.imp fun h => h.le) he'
    rw [he', eq_of_start_eq hs he hmem (le_antisymm (hlast e he le_rfl) hle)]

end Strict

/-- **At a breakpoint that is not the last one, the upcoming breakpoint is not the following one.** -/
theorem upcoming_eq_following_iff (hs : l.Pairwise fun a b => a.1 < b.1) :
    upcoming t l = following t l ↔ (∀ e ∈ l, e.1 ≠ t) ∨ ∀ e ∈ l, e.1 ≤ t := by
  have hs' : l.Pairwise fun a b => a.1 ≤ b.1 := hs.imp fun h => h.le
  constructor
  · intro h
    by_contra hcon
    simp only [not_or, not_forall, not_not, not_le] at hcon
    obtain ⟨⟨a, ha, rfl⟩, b, hb, hlt⟩ := hcon
    have hfollow : ∃ e, (l.find? fun e => decide (a.1 < e.1)) = some e :=
      Option.isSome_iff_exists.mp (List.find?_isSome.mpr ⟨b, hb, decide_eq_true hlt⟩)
    obtain ⟨e, he⟩ := hfollow
    rw [following, he, Option.some_or] at h
    have hgt := of_decide_eq_true (find?_spec (p := fun x => decide (a.1 < x)) hs' he).2.1
    rcases upcoming_spec hs' h with ⟨-, -, hfirst⟩ | ⟨hall, -⟩
    · exact absurd (hfirst a ha le_rfl) (not_le.mpr hgt)
    · exact lt_irrefl _ (hall a ha)
  · rintro (hne | hall)
    · unfold upcoming following
      have hfind : (l.find? fun e => decide (t ≤ e.1)) = l.find? fun e => decide (t < e.1) :=
        List.find?_congr fun e he => decide_eq_decide.mpr
          ⟨fun h => lt_of_le_of_ne h (hne e he).symm, le_of_lt⟩
      rw [hfind]
    · have hnone : (l.find? fun e => decide (t < e.1)) = none :=
        List.find?_eq_none.mpr fun e he => by simpa using hall e he
      rw [following, hnone, Option.none_or]
      unfold upcoming
      cases hf : l.find? fun e => decide (t ≤ e.1) with
      | none => rfl
      | some e =>
        -- the breakpoint at `t` is the last one
        obtain ⟨hmem, hle, -⟩ := find?_spec (p := fun x => decide (t ≤ x)) hs' hf
        have het : e.1 = t := le_antisymm (hall e hmem) (of_decide_eq_true hle)
        obtain ⟨as, bs, rfl⟩ := List.append_of_mem hmem
        cases bs with
        | nil => simp
        | cons b bs =>
          have hlt := (List.pairwise_cons.mp (List.pairwise_append.mp hs).2.1).1 b List.mem_cons_self
          have hb := hall b (by simp)
          rw [het] at hlt
          exact absurd hlt (not_lt.mpr hb)

/-! ### One step of an integer time -/

section Steps
variable {l : List (ℤ × β)} {t u v : ℤ} {e e₀ : ℤ × β}

/-- With one step the value changes only when the next breakpoint is reached. -/
theorem inForce_succ (hs : l.Pairwise fun a b => a.1 ≤ b.1) (t : ℤ) :
    inForce (t + 1) l = inForce t l ∨ ∃ e, IsNext t l e ∧ inForce (t + 1) l = some e := by
  by_cases h : ∃ a ∈ l, a.1 = t + 1
  · obtain ⟨a, ha, hat⟩ := h
    have hsome : inForce (t + 1) l ≠ none := by
      intro hnone
      have := inForce_eq_none_iff.mp hnone a ha
      omega
    obtain ⟨e, he⟩ := Option.ne_none_iff_exists'.mp hsome
    obtain ⟨hmem, hle, hlast⟩ := inForce_spec hs he
    have hge := hlast a ha hat.le
    exact Or.inr ⟨e, ⟨hmem, by omega, fun e' _ hlt => by omega⟩, he⟩
  · refine Or.inl (inForce_congr fun e he => ?_)
    have hne : e.1 ≠ t + 1 := fun heq => h ⟨e, he, heq⟩
    omega

/-- After one step the upcoming breakpoint is the next one, or the last one, already in force. -/
theorem of_upcoming_succ (hs : l.Pairwise fun a b => a.1 ≤ b.1) (h : upcoming (t + 1) l = some e) :
    IsNext t l e ∨ inForce t l = some e := by
  rcases upcoming_spec hs h with ⟨hmem, hle, hfirst⟩ | ⟨hall, hin⟩
  · exact Or.inl ⟨hmem, by omega, fun e' he' hlt => hfirst e' he' (by omega)⟩
  · right
    rw [← hin]
    refine inForce_congr fun e' he' => ?_
    have := hall e' he'
    omega

/-- Until the next breakpoint nothing changes. -/
theorem IsNext.later (h : IsNext u l e) (huv : u ≤ v) (hv : v < e.1) :
    IsNext v l e ∧ inForce v l = inForce u l := by
  obtain ⟨hmem, hlt, hfirst⟩ := h
  constructor
  · exact ⟨hmem, hv, fun e' he' hlt' => hfirst e' he' (by omega)⟩
  · refine inForce_congr fun e' he' => ?_
    have := hfirst e' he'
    omega

/-- From the breakpoint in force on, the next one is the same. -/
theorem IsNext.from_inForce (hs : l.Pairwise fun a b => a.1 ≤ b.1) (h : IsNext t l e)
    (h₀ : inForce t l = some e₀) : e₀.1 ≤ t ∧ IsNext e₀.1 l e := by
  obtain ⟨hmem, hlt, hfirst⟩ := h
  obtain ⟨-, hle, hlast⟩ := inForce_spec hs h₀
  refine ⟨hle, hmem, by omega, fun e' he' hlt' => ?_⟩
  have hle' := hlast e' he'
  exact hfirst e' he' (by omega)

/-- Before the first breakpoint, it is the next one at every time. -/
theorem IsNext.of_none (h : IsNext t l e) (h₀ : inForce t l = none) (hut : u ≤ t) : IsNext u l e := by
  obtain ⟨hmem, hlt, hfirst⟩ := h
  refine ⟨hmem, by omega, fun e' he' _ => hfirst e' he' (inForce_eq_none_iff.mp h₀ e' he')⟩

end Steps

end Breakpoints
