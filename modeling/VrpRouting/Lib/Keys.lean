import Mathlib.Data.Int.Notation
import Mathlib.Data.List.Basic
import Mathlib.Data.Nat.Notation

/-! # Textual keys

A key is made of tokens behind separators. Tokens without separators can be read back from the key
(`joined_inj`), and numbers from their decimal digits (`natRepr_injective`, `intRepr_injective`). -/

namespace Keys

section Separators
variable {α : Type*}

/-- Two texts that agree have the same part before their first separator. -/
theorem split_inj {q : α → Prop} {c d : α} (hc : q c) (hd : q d) {X Y : List α} :
    ∀ {x y : List α}, (∀ a ∈ x, ¬ q a) → (∀ a ∈ y, ¬ q a) → x ++ c :: X = y ++ d :: Y →
      x = y ∧ c = d ∧ X = Y
  | [], [], _, _, h => ⟨rfl, List.cons.inj h⟩
  | [], b :: y, _, hy, h => absurd ((List.cons.inj h).1 ▸ hc) (hy b (by simp))
  | a :: x, [], hx, _, h => absurd ((List.cons.inj h).1 ▸ hd) (hx a (by simp))
  | a :: x, b :: y, hx, hy, h => by
    obtain ⟨rfl, htail⟩ := List.cons.inj h
    obtain ⟨rfl, hrest⟩ := split_inj hc hd (fun a ha => hx a (by simp [ha]))
      (fun a ha => hy a (by simp [ha])) htail
    exact ⟨rfl, hrest⟩

/-- The tokens of a list, each behind the separator. -/
def joined (sep : α) (tokens : List (List α)) : List α := tokens.flatMap fun t => sep :: t

/-- **The tokens can be read back**: `sep` stands before every token but the first one, and `fin`
after the last one. -/
theorem joined_inj {sep fin : α} (hne : sep ≠ fin) {X Y : List α} :
    ∀ {A B : List (List α)} {x y : List α}, (∀ t ∈ x :: A, ∀ a ∈ t, a ≠ sep ∧ a ≠ fin) →
      (∀ t ∈ y :: B, ∀ a ∈ t, a ≠ sep ∧ a ≠ fin) →
      x ++ (joined sep A ++ fin :: X) = y ++ (joined sep B ++ fin :: Y) → x = y ∧ A = B ∧ X = Y := by
  have htoken : ∀ {t : List α}, (∀ a ∈ t, a ≠ sep ∧ a ≠ fin) → ∀ a ∈ t, ¬ (a = sep ∨ a = fin) :=
    fun h a ha => not_or.mpr (h a ha)
  intro A
  induction A with
  | nil =>
    intro B x y hx hy h
    have hx := htoken (hx x (by simp))
    have hy' := htoken (hy y (by simp))
    cases B with
    | nil =>
      obtain ⟨rfl, -, hrest⟩ := split_inj (q := fun a => a = sep ∨ a = fin) (Or.inr rfl)
        (Or.inr rfl) hx hy' h
      exact ⟨rfl, rfl, hrest⟩
    | cons b B =>
      obtain ⟨-, h, -⟩ := split_inj (q := fun a => a = sep ∨ a = fin) (Or.inr rfl) (Or.inl rfl) hx
        hy' h
      exact absurd h.symm hne
  | cons a A ih =>
    intro B x y hx hy h
    have hx' := htoken (hx x (by simp))
    have hy' := htoken (hy y (by simp))
    cases B with
    | nil =>
      obtain ⟨-, h, -⟩ := split_inj (q := fun a => a = sep ∨ a = fin) (Or.inl rfl) (Or.inr rfl) hx'
        hy' h
      exact absurd h hne
    | cons b B =>
      have hassoc : ∀ (t : List α) (C : List (List α)) (Z : List α),
          joined sep (t :: C) ++ Z = sep :: (t ++ (joined sep C ++ Z)) := fun t C Z => by
        simp [joined]
      rw [hassoc, hassoc] at h
      obtain ⟨rfl, -, htail⟩ := split_inj (q := fun a => a = sep ∨ a = fin) (Or.inl rfl)
        (Or.inl rfl) hx' hy' h
      obtain ⟨rfl, rfl, hrest⟩ := ih (fun t ht => hx t (by simp [List.mem_cons.mp ht]))
        (fun t ht => hy t (by simp [List.mem_cons.mp ht])) htail
      exact ⟨rfl, rfl, hrest⟩

end Separators

/-! ### Decimal digits -/

theorem isDigit_of_mem_repr {n : ℕ} {c : Char} (h : c ∈ n.repr.toList) : c.isDigit = true := by
  rw [Nat.toList_repr] at h
  exact Nat.isDigit_of_mem_toDigits (by decide) (by decide) h

theorem natRepr_injective : Function.Injective Nat.repr := fun m n h => by
  have hdigits := congrArg (fun s : String => Nat.ofDigitChars 10 s.toList 0) h
  simpa [Nat.toList_repr, Nat.ofDigitChars_ten_toDigits] using hdigits

/-- A number begins with a minus sign exactly when it is negative. -/
theorem toList_intRepr (a : ℤ) :
    a.repr.toList = if 0 ≤ a then a.toNat.repr.toList else '-' :: (-a).toNat.repr.toList := by
  rw [Int.repr_eq_if]
  split_ifs
  · rfl
  · rw [String.toList_append]
    rfl

theorem mem_intRepr {a : ℤ} {c : Char} (h : c ∈ a.repr.toList) : c = '-' ∨ c.isDigit = true := by
  rw [toList_intRepr] at h
  split_ifs at h
  · exact Or.inr (isDigit_of_mem_repr h)
  · exact (List.mem_cons.mp h).imp_right isDigit_of_mem_repr

theorem intRepr_injective : Function.Injective Int.repr := by
  intro a b h
  have hlist : a.repr.toList = b.repr.toList := congrArg String.toList h
  -- the sign decides which digits are compared
  have hsign : ∀ {m n : ℕ}, m.repr.toList ≠ '-' :: n.repr.toList := fun {m n} heq => by
    have hdigit : Char.isDigit '-' = true := isDigit_of_mem_repr (n := m) (by rw [heq]; simp)
    exact absurd hdigit (by decide)
  rw [toList_intRepr, toList_intRepr] at hlist
  split_ifs at hlist with ha hb hb
  · have := natRepr_injective (String.toList_inj.mp hlist)
    omega
  · exact absurd hlist hsign
  · exact absurd hlist.symm hsign
  · have := natRepr_injective (String.toList_inj.mp (List.cons.inj hlist).2)
    omega

end Keys
