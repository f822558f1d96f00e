import Mathlib.Data.List.Forall2
import VrpRouting.Lib.Doubles

/-! # Basic types

The numbers of `typedefs.h`. The 64-bit signed types (`TTimestamp`, `TInterval`, `Amount`, `Id`) are
`ℤ` and the unsigned ones (`PAmount`, `Idx`, `size_t`) are `ℕ`. The floating point types are `ℚ`
(`Speed`, `Multiplier`) and `ℤ` (the `double` of an objective); `static_cast<TInterval>` of a `double`
truncates towards zero, `toInterval`.

The definitions compute without overflow and rounding. Where a result depends on them, the operations
of the machine are parameters: `Arithmetic` for the times, `Doubles` for the products and quotients.

`pgassert` is compiled to nothing by the default (release) build and is not part of the model. -/

namespace VrpRouting

/-- `std::numeric_limits<int64_t>::max()`, the "infinity" of times and intervals. -/
def infinity : ℤ := 9223372036854775807

/-- `std::numeric_limits<PAmount>::max()`. -/
def maxPAmount : ℕ := 4294967295

/-- `static_cast<TInterval>` of a floating point value: truncation towards zero. -/
def toInterval (q : ℚ) : ℤ := q.num.tdiv q.den

theorem toInterval_intCast (n : ℤ) : toInterval n = n := by
  simp [toInterval]

theorem toInterval_nonneg {q : ℚ} (h : 0 ≤ q) : 0 ≤ toInterval q := Rounding.truncate_nonneg h

theorem toInterval_neg (q : ℚ) : toInterval (-q) = -toInterval q := Rounding.truncate_neg q

theorem toInterval_eq_floor {q : ℚ} (h : 0 ≤ q) : toInterval q = ⌊q⌋ := Rounding.truncate_eq_floor h

theorem le_toInterval {n : ℤ} {q : ℚ} (hn : 0 ≤ n) (h : (n : ℚ) ≤ q) : n ≤ toInterval q := by
  rw [toInterval_eq_floor ((Int.cast_nonneg hn).trans h)]
  exact Int.le_floor.mpr h

/-- Why a call has no value: it throws (with the text of the message), or it reads through an
iterator that the C++ standard leaves undefined. -/
inductive Fault
  | thrown (text : String)
  | undefinedRead
deriving DecidableEq, Repr

theorem exists_ok {α : Type} {x : Except Fault α} (h : x.isOk = true) : ∃ a, x = .ok a := by
  cases x with
  | error _ => cases h
  | ok a => exact ⟨a, rfl⟩

/-- A call that goes on with the value of another one. -/
theorem bind_eq_ok {α β : Type} {x : Except Fault α} {f : α → Except Fault β} {b : β}
    (h : x >>= f = .ok b) : ∃ a, x = .ok a ∧ f a = .ok b := by
  cases x with
  | error _ => cases h
  | ok a => exact ⟨a, rfl, h⟩

theorem bind_eq_error {α β : Type} {x : Except Fault α} {f : α → Except Fault β} {e : Fault}
    (h : x >>= f = .error e) : x = .error e ∨ ∃ a, x = .ok a ∧ f a = .error e := by
  cases x with
  | error _ => exact Or.inl (congrArg Except.error (Except.error.inj h))
  | ok a => exact Or.inr ⟨a, rfl, h⟩

theorem map_eq_ok {α β : Type} {x : Except Fault α} {f : α → β} {b : β} (h : f <$> x = .ok b) :
    ∃ a, x = .ok a ∧ f a = b := by
  cases x with
  | error _ => cases h
  | ok a => exact ⟨a, rfl, Except.ok.inj h⟩

/-- The values of a traversal are values of its calls. -/
theorem exists_of_mapM {α β : Type} {f : α → Except Fault β} : ∀ {xs : List α} {r : List β},
    xs.mapM f = .ok r → ∀ b ∈ r, ∃ a ∈ xs, f a = .ok b
  | [], r, h, b, hb => by
    obtain rfl := Except.ok.inj h
    cases hb
  | a :: xs, r, h, b, hb => by
    rw [List.mapM_cons] at h
    obtain ⟨b', hb', h⟩ := bind_eq_ok h
    obtain ⟨r', hr', h⟩ := bind_eq_ok h
    obtain rfl := Except.ok.inj h
    rcases List.mem_cons.mp hb with rfl | hb
    · exact ⟨a, List.mem_cons_self, hb'⟩
    · obtain ⟨x, hx, hfx⟩ := exists_of_mapM hr' b hb
      exact ⟨x, List.mem_cons_of_mem _ hx, hfx⟩

/-- A traversal calls every element. -/
theorem mapM_eq_ok_iff {α β : Type} {f : α → Except Fault β} : ∀ {xs : List α} {r : List β},
    xs.mapM f = .ok r ↔ List.Forall₂ (fun a b => f a = .ok b) xs r
  | [], r => by
    rw [List.forall₂_nil_left_iff]
    exact ⟨fun h => (Except.ok.inj h).symm, fun h => h ▸ rfl⟩
  | a :: xs, r => by
    rw [List.mapM_cons, List.forall₂_cons_left_iff]
    constructor
    · intro h
      obtain ⟨b, hb, h⟩ := bind_eq_ok h
      obtain ⟨r', hr', h⟩ := bind_eq_ok h
      exact ⟨b, r', hb, mapM_eq_ok_iff.mp hr', (Except.ok.inj h).symm⟩
    · rintro ⟨b, r', hb, hr', rfl⟩
      rw [hb, mapM_eq_ok_iff.mpr hr']
      rfl

/-- A traversal has a value when its calls have. -/
theorem exists_mapM {α β : Type} {f : α → Except Fault β} {R : α → β → Prop} :
    ∀ {xs : List α}, (∀ a ∈ xs, ∃ b, f a = .ok b ∧ R a b) →
      ∃ r, xs.mapM f = .ok r ∧ List.Forall₂ R xs r
  | [], _ => ⟨[], rfl, .nil⟩
  | a :: xs, h => by
    obtain ⟨b, hb, hab⟩ := h a List.mem_cons_self
    obtain ⟨r, hr, hall⟩ := exists_mapM fun x hx => h x (List.mem_cons_of_mem _ hx)
    refine ⟨b :: r, ?_, .cons hab hall⟩
    rw [List.mapM_cons, hb, hr]
    rfl

/-- A call with a value that passes a test. -/
theorem exists_ok_and {α : Type} {x : Except Fault α} (q : α → Bool)
    (h : x.toOption.any q = true) : ∃ a, x = .ok a ∧ q a = true := by
  cases x with
  | error _ => cases h
  | ok a => exact ⟨a, rfl, h⟩

/-- Two calls, the second one with the value of the first. -/
theorem exists_ok_bind {α β : Type} {x : Except Fault α} {f : α → Except Fault β}
    (h : (x >>= f).isOk = true) : ∃ a b, x = .ok a ∧ f a = .ok b := by
  obtain ⟨b, hb⟩ := exists_ok h
  obtain ⟨a, ha, hf⟩ := bind_eq_ok hb
  exact ⟨a, b, ha, hf⟩

/-- Two calls whose value passes a test. -/
theorem exists_ok_bind_and {α β : Type} {x : Except Fault α} {f : α → Except Fault β} (q : β → Bool)
    (h : (x >>= f).toOption.any q = true) : ∃ a b, x = .ok a ∧ f a = .ok b ∧ q b = true := by
  obtain ⟨b, hb, hq⟩ := exists_ok_and q h
  obtain ⟨a, ha, hf⟩ := bind_eq_ok hb
  exact ⟨a, b, ha, hf, hq⟩

/-- A bounded run that returns a value that passes a test. -/
theorem exists_returned {α : Type} {x : Option (Except Fault α)} (q : α → Bool)
    (h : x.any (fun r => r.toOption.any q) = true) : ∃ a, x = some (.ok a) ∧ q a = true := by
  cases x with
  | none => cases h
  | some r =>
    obtain ⟨a, rfl, ha⟩ := exists_ok_and (x := r) q h
    exact ⟨a, rfl, ha⟩

end VrpRouting
