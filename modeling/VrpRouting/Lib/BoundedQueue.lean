import Mathlib.Data.List.Nodup

/-! # Bounded queues without repetitions

A queue of keys, the oldest first. A key that is there already changes nothing when it arrives; a new
one goes to the end, and the oldest ones leave when there are too many. The bound can change at any
time. A history is the list of the events so far, the last one first.

The age of a key is the number of events since it came. Along the queue the ages fall
(`pairwise_age`), so what leaves when a key arrives is what was there for longest, and a key stays
until it is one of those or the queue is emptied (`mem_after_append`). -/

namespace BoundedQueue

variable {κ : Type*}

structure Queue (κ : Type*) where
  bound : ℕ
  /-- The keys, the oldest first. -/
  held : List κ

inductive Event (κ : Type*)
  | arrive (k : κ)
  | empty
  | resize (n : ℕ)

namespace Queue

/-- The number of keys that leave when a new one arrives. -/
def excess (q : Queue κ) : ℕ := q.held.length + 1 - q.bound

variable [DecidableEq κ]

def step (q : Queue κ) : Event κ → Queue κ
  | .arrive k => if k ∈ q.held then q else { q with held := q.held.drop q.excess ++ [k] }
  | .empty => { q with held := [] }
  | .resize n => { q with bound := n }

def after (q : Queue κ) : List (Event κ) → Queue κ
  | [] => q
  | e :: es => (q.after es).step e

/-- The number of events since the key came, 0 for a key that is not there. -/
def age (q : Queue κ) (k : κ) : List (Event κ) → ℕ
  | [] => 0
  | e :: es => if k ∈ (q.after (e :: es)).held then q.age k es + 1 else 0

/-- The event takes the key out: it is one of the oldest when another one arrives, or all keys go. -/
def Drops (q : Queue κ) (k : κ) : Event κ → Prop
  | .arrive k' => k' ∉ q.held ∧ k ∈ q.held.take q.excess
  | .empty => True
  | .resize _ => False

/-- None of the later events takes the key out. -/
def Spares (q : Queue κ) (k : κ) (es : List (Event κ)) : List (Event κ) → Prop
  | [] => True
  | e :: later => q.Spares k es later ∧ ¬ (q.after (later ++ es)).Drops k e

/-! ### One event -/

section Step
variable {q : Queue κ} {k : κ}

theorem step_arrive_of_mem (h : k ∈ q.held) : q.step (.arrive k) = q := if_pos h

theorem step_arrive_of_notMem (h : k ∉ q.held) :
    q.step (.arrive k) = { q with held := q.held.drop q.excess ++ [k] } := if_neg h

theorem mem_step_arrive : k ∈ (q.step (.arrive k)).held := by
  by_cases h : k ∈ q.held
  · rwa [step_arrive_of_mem h]
  · rw [step_arrive_of_notMem h]
    simp

theorem nodup_step (h : q.held.Nodup) (e : Event κ) : (q.step e).held.Nodup := by
  cases e with
  | arrive k =>
    by_cases hk : k ∈ q.held
    · rwa [step_arrive_of_mem hk]
    · rw [step_arrive_of_notMem hk]
      refine List.nodup_append.mpr ⟨(List.drop_sublist _ _).nodup h, List.nodup_singleton k, ?_⟩
      intro a ha b hb
      rw [List.mem_singleton.mp hb]
      rintro rfl
      exact hk (List.mem_of_mem_drop ha)
  | empty => exact List.nodup_nil
  | resize n => exact h

/-- A key that is not taken out stays. -/
theorem mem_step {e : Event κ} (hk : k ∈ q.held) (h : ¬ q.Drops k e) : k ∈ (q.step e).held := by
  cases e with
  | arrive k' =>
    by_cases hk' : k' ∈ q.held
    · rwa [step_arrive_of_mem hk']
    · rw [step_arrive_of_notMem hk']
      rw [← List.take_append_drop q.excess q.held] at hk
      have hold : k ∉ q.held.take q.excess := fun ht => h ⟨hk', ht⟩
      exact List.mem_append_left _ ((List.mem_append.mp hk).resolve_left hold)
  | empty => exact absurd trivial h
  | resize n => exact hk

end Step

/-! ### Histories -/

section History
variable {q : Queue κ} {k : κ}

theorem nodup_after (h : q.held.Nodup) : ∀ es : List (Event κ), (q.after es).held.Nodup
  | [] => h
  | e :: es => nodup_step (nodup_after h es) e

/-- **A key stays until it is taken out.** -/
theorem mem_after_append {es : List (Event κ)} (hk : k ∈ (q.after es).held) :
    ∀ later : List (Event κ), q.Spares k es later → k ∈ (q.after (later ++ es)).held
  | [], _ => hk
  | _ :: later, h => mem_step (mem_after_append hk later h.1) h.2

theorem age_cons_of_mem {e : Event κ} {es : List (Event κ)} (h : k ∈ (q.after (e :: es)).held) :
    q.age k (e :: es) = q.age k es + 1 := if_pos h

theorem age_of_notMem : ∀ {es : List (Event κ)}, k ∉ (q.after es).held → q.age k es = 0
  | [], _ => rfl
  | _ :: _, h => if_neg h

theorem age_pos (h0 : q.held = []) {es : List (Event κ)} (h : k ∈ (q.after es).held) :
    0 < q.age k es := by
  cases es with
  | nil =>
    rw [after, h0] at h
    exact absurd h List.not_mem_nil
  | cons e es =>
    rw [age_cons_of_mem h]
    exact Nat.succ_pos _

/-- **Along the queue the ages fall.** -/
theorem pairwise_age (h0 : q.held = []) : ∀ es : List (Event κ),
    (q.after es).held.Pairwise fun a b => q.age b es < q.age a es
  | [] => by
    rw [after, h0]
    exact .nil
  | e :: es => by
    have ih := pairwise_age h0 es
    -- keys that were there and are there grow older together
    have hgrow : ∀ l : List κ, l.Sublist (q.after es).held →
        (∀ a ∈ l, a ∈ (q.after (e :: es)).held) →
        l.Pairwise fun a b => q.age b (e :: es) < q.age a (e :: es) := fun l hl hmem => by
      refine (ih.sublist hl).imp_of_mem fun ha hb hab => ?_
      rw [age_cons_of_mem (hmem _ ha), age_cons_of_mem (hmem _ hb)]
      exact Nat.succ_lt_succ hab
    cases e with
    | arrive k =>
      by_cases hk : k ∈ (q.after es).held
      · have hheld : (q.after (.arrive k :: es)).held = (q.after es).held := by
          rw [after, step_arrive_of_mem hk]
        rw [hheld]
        exact hgrow _ (List.Sublist.refl _) fun a ha => hheld ▸ ha
      · have hheld : (q.after (.arrive k :: es)).held =
            (q.after es).held.drop (q.after es).excess ++ [k] := by
          rw [after, step_arrive_of_notMem hk]
        have hmem : ∀ a ∈ (q.after es).held.drop (q.after es).excess,
            a ∈ (q.after (.arrive k :: es)).held := fun a ha => by
          rw [hheld]
          exact List.mem_append_left _ ha
        rw [hheld]
        refine List.pairwise_append.mpr ⟨hgrow _ (List.drop_sublist _ _) hmem,
          List.pairwise_singleton _ _, fun a ha b hb => ?_⟩
        obtain rfl := List.mem_singleton.mp hb
        -- the new key is one event old, the others were there before
        rw [age_cons_of_mem (hmem a ha), age_cons_of_mem mem_step_arrive, age_of_notMem hk]
        exact Nat.succ_lt_succ (age_pos h0 (List.mem_of_mem_drop ha))
    | empty => exact .nil
    | resize n => exact hgrow _ (List.Sublist.refl _) fun a ha => ha

/-- **What leaves was there for longest.** -/
theorem age_lt_of_excess (h0 : q.held = []) (es : List (Event κ)) {a b : κ}
    (ha : a ∈ (q.after es).held.take (q.after es).excess)
    (hb : b ∈ (q.after es).held.drop (q.after es).excess) : q.age b es < q.age a es := by
  have h := pairwise_age h0 es
  rw [← List.take_append_drop (q.after es).excess (q.after es).held] at h
  exact (List.pairwise_append.mp h).2.2 a ha b hb

end History

end Queue

end BoundedQueue
