import Mathlib.Algebra.Ring.Int.Defs
import Mathlib.Algebra.Ring.Nat
import Mathlib.Algebra.BigOperators.Group.List.Basic
import Mathlib.Algebra.Order.BigOperators.Group.List
import VrpRouting.Lib.ListEdit

/-! # Routes with time windows and loads

A route is a list of stops of any type. `lates` counts the stops that are reached after they close,
`overloads` those at which the load is bad; `arrivals` and `loads` are the times and the loads that
they judge. When stops are left out, no other stop is reached later if the travel times satisfy the
triangle inequality (`arrivals_filter`), and no other load gets bad if what is left out has its
pickup before its delivery (`loads_remove_pair`). -/

namespace TimeWindows

section Lates
variable {α : Type} (travel : α → α → ℤ) (opens closes service : α → ℤ)

/-- The time at which the stop `b` is left when it is reached at time `t`. -/
def leave (b : α) (t : ℤ) : ℤ := max t (opens b) + service b

/-- The number of stops that are reached too late when `a` is left at time `d`. -/
def lates : ℤ → α → List α → ℕ
  | _, _, [] => 0
  | d, a, b :: l =>
    (if closes b < d + travel a b then 1 else 0) +
      lates (leave opens service b (d + travel a b)) b l

/-- The stops with the times at which they are reached when `a` is left at time `d`. -/
def arrivals : ℤ → α → List α → List (α × ℤ)
  | _, _, [] => []
  | d, a, b :: l => (b, d + travel a b) :: arrivals (leave opens service b (d + travel a b)) b l

theorem lates_eq_countP : ∀ (d : ℤ) (a : α) (l : List α), lates travel opens closes service d a l =
    (arrivals travel opens service d a l).countP fun x => decide (closes x.1 < x.2)
  | _, _, [] => rfl
  | d, a, b :: l => by
    rw [lates, arrivals, List.countP_cons, lates_eq_countP, Nat.add_comm]
    simp only [decide_eq_true_eq]

variable {travel opens closes service}

variable (opens) in
theorem le_leave {b : α} (hb : 0 ≤ service b) (t : ℤ) : t ≤ leave opens service b t := by
  unfold leave
  have := le_max_left t (opens b)
  omega

theorem leave_mono (b : α) {t t' : ℤ} (h : t ≤ t') :
    leave opens service b t ≤ leave opens service b t' := by
  unfold leave
  have := max_le_max_right (opens b) h
  omega

section Triangle
variable {S : α → Prop} (htriangle : ∀ a b c, S a → S b → S c → travel a c ≤ travel a b + travel b c)
  (hservice : ∀ a, S a → 0 ≤ service a)
include htriangle hservice

/-- The other stops are not reached later when stops are left out. -/
theorem arrivals_filter {q : α → Bool} : ∀ {l : List α} {d d' : ℤ} {a a' : α}, S a' →
    (∀ b ∈ l, S b) → (∀ b, S b → d + travel a b ≤ d' + travel a' b) →
    List.Forall₂ (fun x y => x.1 = y.1 ∧ x.2 ≤ y.2)
      (arrivals travel opens service d a (l.filter q))
      ((arrivals travel opens service d' a' l).filter fun x => q x.1)
  | [], _, _, _, _, _, _, _ => .nil
  | x :: l, d, d', a, a', ha', hl, hd => by
    obtain ⟨hx, hl⟩ := List.forall_mem_cons.mp hl
    have harrive := hd x hx
    rw [arrivals]
    by_cases hq : q x = true
    · rw [List.filter_cons_of_pos hq, arrivals, List.filter_cons_of_pos (by exact hq)]
      exact .cons ⟨rfl, harrive⟩ (arrivals_filter hx hl fun b _ =>
        Int.add_le_add_right (leave_mono x harrive) _)
    · rw [List.filter_cons_of_neg hq, List.filter_cons_of_neg (by exact hq)]
      refine arrivals_filter hx hl fun b hb => ?_
      -- The detour over `x` takes longer than the direct way to `b`.
      have h1 := hd b hb
      have h2 := htriangle a' x b ha' hx hb
      have h3 := le_leave opens (hservice x hx) (d' + travel a' x)
      omega

/-- Leaving stops out does not make the other ones late. -/
theorem lates_filter {q : α → Bool} {l : List α} {d : ℤ} {a : α} (ha : S a) (hl : ∀ b ∈ l, S b) :
    lates travel opens closes service d a (l.filter q) ≤
      lates travel opens closes service d a l := by
  rw [lates_eq_countP, lates_eq_countP]
  refine (ListEdit.countP_le_of_forall₂ (arrivals_filter htriangle hservice ha hl fun _ _ => le_rfl)
    fun x y hxy hlate => ?_).trans (List.Sublist.countP_le List.filter_sublist)
  have hlate := of_decide_eq_true hlate
  rw [hxy.1] at hlate
  exact decide_eq_true (hlate.trans_le hxy.2)

end Triangle

/-- On a route without late stops every stop can be reached directly in time. -/
theorem le_closes_of_lates {S : α → Prop}
    (htriangle : ∀ a b c, S a → S b → S c → travel a c ≤ travel a b + travel b c)
    (hservice : ∀ a, S a → 0 ≤ service a) : ∀ {l : List α} {d : ℤ} {a : α}, S a → (∀ b ∈ l, S b) →
      lates travel opens closes service d a l = 0 → ∀ b ∈ l, d + travel a b ≤ closes b
  | [], _, _, _, _, _ => by simp
  | x :: l, d, a, ha, hl, h => by
    obtain ⟨hx, hl⟩ := List.forall_mem_cons.mp hl
    obtain ⟨h1, h2⟩ := Nat.add_eq_zero_iff.mp h
    refine List.forall_mem_cons.mpr ⟨?_, fun b hb => ?_⟩
    · split_ifs at h1
      omega
    · have h3 := le_closes_of_lates htriangle hservice hx hl h2 b hb
      have h4 := le_leave opens (hservice x hx) (d + travel a x)
      have h5 := htriangle a x b ha hx (hl b hb)
      omega

/-- On a route without late stops that is left at the opening of its first stop, every stop can be
reached directly in time from the opening of every stop before it. -/
theorem pairwise_of_lates {S : α → Prop}
    (htriangle : ∀ a b c, S a → S b → S c → travel a c ≤ travel a b + travel b c)
    (hservice : ∀ a, S a → 0 ≤ service a) {l : List α} {a : α} (ha : S a) (hl : ∀ b ∈ l, S b)
    (h : lates travel opens closes service (opens a + service a) a l = 0) :
    (a :: l).Pairwise fun b c => opens b + service b + travel b c ≤ closes c := by
  have hrest : ∀ {l : List α} {d : ℤ} {a : α}, S a → (∀ b ∈ l, S b) →
      lates travel opens closes service d a l = 0 →
      l.Pairwise fun b c => opens b + service b + travel b c ≤ closes c := by
    intro l
    induction l with
    | nil => exact fun _ _ _ => .nil
    | cons x l ih =>
      intro d a ha hl h
      obtain ⟨hx, hl⟩ := List.forall_mem_cons.mp hl
      obtain ⟨-, h2⟩ := Nat.add_eq_zero_iff.mp h
      refine List.pairwise_cons.mpr ⟨fun b hb => ?_, ih hx hl h2⟩
      have h3 := le_closes_of_lates htriangle hservice hx hl h2 b hb
      have h4 : opens x + service x ≤ leave opens service x (d + travel a x) := by
        unfold leave
        omega
      omega
  exact List.pairwise_cons.mpr ⟨le_closes_of_lates htriangle hservice ha hl h, hrest ha hl h⟩

end Lates

section Loads
variable {α : Type} (demand : α → ℤ) (bad : α → ℤ → Bool)

/-- The number of stops at which the load is bad, from the load `c` on. -/
def overloads : ℤ → List α → ℕ
  | _, [] => 0
  | c, b :: l => (if bad b (c + demand b) then 1 else 0) + overloads (c + demand b) l

/-- The stops with the loads at which they are left, from the load `c` on. -/
def loads : ℤ → List α → List (α × ℤ)
  | _, [] => []
  | c, b :: l => (b, c + demand b) :: loads (c + demand b) l

theorem overloads_eq_countP : ∀ (c : ℤ) (l : List α),
    overloads demand bad c l = (loads demand c l).countP fun x => bad x.1 x.2
  | _, [] => rfl
  | c, b :: l => by
    rw [overloads, loads, List.countP_cons, overloads_eq_countP, Nat.add_comm]

/-- The load that a list of stops adds. -/
def load (l : List α) : ℤ := (l.map demand).sum

variable {demand bad}

@[simp] theorem load_nil : load demand [] = 0 := rfl

@[simp] theorem load_cons (a : α) (l : List α) : load demand (a :: l) = demand a + load demand l := by
  simp [load]

@[simp] theorem load_append (l l' : List α) :
    load demand (l ++ l') = load demand l + load demand l' := by simp [load]

theorem loads_append (l l' : List α) (c : ℤ) :
    loads demand c (l ++ l') = loads demand c l ++ loads demand (c + load demand l) l' := by
  induction l generalizing c with
  | nil => simp [loads]
  | cons a l ih => rw [List.cons_append, loads, loads, ih, load_cons, ← add_assoc c, List.cons_append]

theorem mem_of_mem_loads : ∀ {l : List α} {c : ℤ} {x : α × ℤ}, x ∈ loads demand c l → x.1 ∈ l
  | a :: l, c, x, hx => by
    rcases List.mem_cons.mp hx with rfl | hx
    · exact List.mem_cons_self
    · exact List.mem_cons_of_mem a (mem_of_mem_loads hx)

/-- Loads that are bad with less are bad with more. -/
theorem loads_mono : ∀ {l : List α} {c c' : ℤ},
    (∀ pre t post, l = pre ++ t :: post → bad t (c + load demand pre + demand t) = true →
      bad t (c' + load demand pre + demand t) = true) →
    List.Forall₂ (fun x y => x.1 = y.1 ∧ (bad x.1 x.2 = true → bad y.1 y.2 = true))
      (loads demand c l) (loads demand c' l)
  | [], _, _, _ => .nil
  | a :: l, c, c', h => by
    refine .cons ⟨rfl, ?_⟩ (loads_mono fun pre t post hl => ?_)
    · simpa only [load_nil, add_zero] using h [] a l rfl
    · have := h (a :: pre) t post (by rw [hl]; rfl)
      simpa only [load_cons, add_assoc] using this

/-- Leaving stops out does not make a load bad that was not. -/
theorem overloads_filter {q : α → Bool} : ∀ {l : List α} {c c' : ℤ},
    (∀ pre t post, l = pre ++ t :: post → q t = true →
      bad t (c + load demand pre + demand t) = false →
      bad t (c' + load demand (pre.filter q) + demand t) = false) →
    overloads demand bad c l = 0 → overloads demand bad c' (l.filter q) = 0
  | [], _, _, _, _ => rfl
  | a :: l, c, c', h, h0 => by
    obtain ⟨h1, h2⟩ := Nat.add_eq_zero_iff.mp h0
    have hgood : bad a (c + demand a) = false := by
      split_ifs at h1 with hbad
      simpa using hbad
    have hrec : ∀ c'', (q a = true → c'' = c' + demand a) → (q a = false → c'' = c') →
        overloads demand bad c'' (l.filter q) = 0 := fun c'' ht hf => by
      refine overloads_filter (fun pre t post hl hq hbad => ?_) h2
      have hstep := h (a :: pre) t post (by rw [hl]; rfl) hq (by
        simpa only [load_cons, add_assoc] using hbad)
      cases hqa : q a with
      | true =>
        rw [List.filter_cons_of_pos hqa, load_cons] at hstep
        rw [ht hqa]
        simpa only [add_assoc] using hstep
      | false =>
        rw [List.filter_cons_of_neg (by simp [hqa])] at hstep
        rw [hf hqa]
        exact hstep
    cases hqa : q a with
    | true =>
      have hhead := h [] a l rfl hqa (by simpa using hgood)
      simp only [List.filter_nil, load_nil, add_zero] at hhead
      rw [List.filter_cons_of_pos hqa, overloads, hrec _ (fun _ => rfl) (by simp [hqa]), hhead]
      rfl
    | false =>
      rw [List.filter_cons_of_neg (by simp [hqa])]
      exact hrec c' (by simp [hqa]) fun _ => rfl

section Pair
variable {x y : α} {q : α → Bool} {A B C : List α} {c : ℤ}

/-- A pickup and its delivery are left out: between them the load is less by the demand. -/
theorem loads_remove_pair (hxy : demand y = -demand x) (hx : q x = false) (hy : q y = false)
    (hq : ∀ a ∈ A ++ (B ++ C), q a = true)
    (hB : ∀ pre t post, B = pre ++ t :: post →
      bad t (c + load demand A + load demand pre + demand t) = true →
      bad t (c + load demand A + demand x + load demand pre + demand t) = true) :
    List.Forall₂ (fun u v => u.1 = v.1 ∧ (bad u.1 u.2 = true → bad v.1 v.2 = true))
      (loads demand c ((A ++ x :: (B ++ y :: C)).filter q))
      ((loads demand c (A ++ x :: (B ++ y :: C))).filter fun u => q u.1) := by
  have hfilter : (A ++ x :: (B ++ y :: C)).filter q = A ++ (B ++ C) := by
    have hABC := List.filter_eq_self.mpr hq
    simpa only [List.filter_append, List.filter_cons, hx, hy, Bool.false_eq_true, if_false] using hABC
  have hC : c + load demand A + demand x + load demand B + demand y =
      c + load demand A + load demand B := by omega
  have hself : ∀ {l : List α} {c : ℤ}, (∀ a ∈ l, q a = true) →
      (loads demand c l).filter (fun u => q u.1) = loads demand c l := fun hl =>
    List.filter_eq_self.mpr fun u hu => hl u.1 (mem_of_mem_loads hu)
  have hrefl : ∀ l : List (α × ℤ),
      List.Forall₂ (fun u v => u.1 = v.1 ∧ (bad u.1 u.2 = true → bad v.1 v.2 = true)) l l := fun l =>
    List.forall₂_same.mpr fun _ _ => ⟨rfl, id⟩
  rw [hfilter]
  simp only [loads_append, loads, List.filter_append, List.filter_cons, hx, hy, Bool.false_eq_true,
    if_false]
  rw [hC, hself fun a ha => hq a (by simp [ha]), hself fun a ha => hq a (by simp [ha]),
    hself fun a ha => hq a (by simp [ha])]
  exact List.rel_append (hrefl _) (List.rel_append (loads_mono hB) (hrefl _))

end Pair

end Loads

end TimeWindows
