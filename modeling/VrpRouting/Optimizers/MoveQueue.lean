import VrpRouting.Lib.BoundedQueue
import VrpRouting.Optimizers.TabuList

/-! # The tabu list as a queue

`Move` and `TabuList` with the objective values that the source stores in a move, of any type `D`.
`operator==` leaves them out, so the moves are the keys of a bounded queue without repetitions, and a
history of calls is a history of that queue (`after_keys`). The list of the search is this one without
the objective values (`forget_add`, `hasMove_forget`, `hasSwap_forget`). -/

open BoundedQueue

namespace VrpRouting.Optimizers.Tabu

variable {D : Type}

/-- A move as it is stored. -/
structure FullMove (D : Type) extends Move where
  toObjective : D
  fromObjective : D
deriving DecidableEq, Repr

namespace FullMove

def insertion (fromV toV : Vehicle) (order : Order) (toObj fromObj : D) : FullMove D :=
  ⟨.insertion fromV toV order, toObj, fromObj⟩

def swap (fromV toV : Vehicle) (fromOrder toOrder : Order) (toObj fromObj : D) : FullMove D :=
  ⟨.swap fromV toV fromOrder toOrder, toObj, fromObj⟩

/-- `operator==`. -/
def same (a b : FullMove D) : Bool :=
  decide (a.oid1 = b.oid1) && decide (a.oid2 = b.oid2) && decide (a.vid1 = b.vid1) &&
    decide (a.vid2 = b.vid2) && decide (a.isSwap = b.isSwap)

theorem same_iff {a b : FullMove D} : a.same b = true ↔ a.toMove = b.toMove := by
  obtain ⟨⟨_, _, _, _, _⟩, _, _⟩ := a
  obtain ⟨⟨_, _, _, _, _⟩, _, _⟩ := b
  simp only [same, Bool.and_eq_true, decide_eq_true_eq, Move.mk.injEq]
  tauto

end FullMove

/-- `m_max_length` and `m_tabu_list`. -/
structure FullTabuList (D : Type) where
  maxLength : ℕ
  tabuList : List (FullMove D)

/-- The calls that change the list. -/
inductive Call (D : Type)
  | add (m : FullMove D)
  | clear
  | setMaxLength (length : ℕ)

namespace FullTabuList

variable (t start : FullTabuList D)

def size : ℕ := t.tabuList.length

def has (m : FullMove D) : Bool := t.tabuList.any fun x => x.same m

/-- The loop of `add`. The source takes from an empty deque when the maximal length is 0. -/
def makeRoom (maxLength : ℕ) : List (FullMove D) → Except Fault (List (FullMove D))
  | [] => if maxLength ≤ 0 then .error .undefinedRead else .ok []
  | m :: ms => if maxLength ≤ (m :: ms).length then makeRoom maxLength ms else .ok (m :: ms)

def add (m : FullMove D) : Except Fault (FullTabuList D) :=
  if t.has m then .ok t
  else do
    let ms ← makeRoom t.maxLength t.tabuList
    return { t with tabuList := ms ++ [m] }

def clear : FullTabuList D := { t with tabuList := [] }

def setMaxLength (length : ℕ) : FullTabuList D := { t with maxLength := length }

def hasMove (fromV toV : Vehicle) (order : Order) (obj1 obj2 : D) : Bool :=
  t.has (.insertion fromV toV order obj1 obj2) || t.has (.insertion toV fromV order obj1 obj2)

def hasSwap (fromV toV : Vehicle) (fromOrder toOrder : Order) (obj1 obj2 : D) : Bool :=
  t.has (.swap fromV toV fromOrder toOrder obj1 obj2) ||
    t.has (.swap fromV toV toOrder fromOrder obj1 obj2) ||
    t.has (.swap toV fromV fromOrder toOrder obj1 obj2) ||
    t.has (.swap toV fromV toOrder fromOrder obj1 obj2)

def call : Call D → Except Fault (FullTabuList D)
  | .add m => t.add m
  | .clear => .ok t.clear
  | .setMaxLength length => .ok (t.setMaxLength length)

/-- The list after the calls, of which the last one is the first in the list. -/
def after : List (Call D) → Except Fault (FullTabuList D)
  | [] => .ok start
  | c :: calls => do call (← after calls) c

/-- For how many calls the move has been in the list without a break. -/
def heldFor (m : FullMove D) : List (Call D) → ℕ
  | [] => 0
  | c :: calls =>
    match start.after (c :: calls) with
    | .ok t => if t.has m then heldFor m calls + 1 else 0
    | .error _ => 0

/-- The call evicts the move or clears the list. -/
def Removes (m : FullMove D) : Call D → Prop
  | .add m' => t.has m' = false ∧ ∃ x ∈ t.tabuList.take (t.size + 1 - t.maxLength), x.same m = true
  | .clear => True
  | .setMaxLength _ => False

/-- None of the later calls removes the move. -/
def Undisturbed (m : FullMove D) (calls : List (Call D)) : List (Call D) → Prop
  | [] => True
  | c :: later => Undisturbed m calls later ∧
      ∀ t, start.after (later ++ calls) = .ok t → ¬ t.Removes m c

/-- The lookups find the move in all orientations, whatever the objective values. -/
structure Answers (m : FullMove D) : Prop where
  move : ∀ v w order, m.toMove = .insertion v w order → ∀ obj1 obj2,
    t.hasMove v w order obj1 obj2 = true ∧ t.hasMove w v order obj1 obj2 = true
  swap : ∀ v w order1 order2, m.toMove = .swap v w order1 order2 → ∀ obj1 obj2,
    t.hasSwap v w order1 order2 obj1 obj2 = true ∧ t.hasSwap v w order2 order1 obj1 obj2 = true ∧
    t.hasSwap w v order1 order2 obj1 obj2 = true ∧ t.hasSwap w v order2 order1 obj1 obj2 = true

/-- The maximal length is at least one all along. -/
structure Legal (calls : List (Call D)) : Prop where
  first : 1 ≤ start.maxLength
  set : ∀ n, Call.setMaxLength n ∈ calls → 1 ≤ n

/-- The list `t` after the calls is a bounded queue without repetitions. -/
structure IsQueue (calls : List (Call D)) : Prop where
  distinct : t.tabuList.Pairwise fun a b => a.same b = false
  /-- A move that is there changes nothing. -/
  present : ∀ m, t.has m = true → t.add m = .ok t
  /-- A new move leaves no more than `maxLength` moves; the moves that go were held for longest. -/
  enters : ∀ m, t.has m = false → ∃ gone kept, t.tabuList = gone ++ kept ∧
    t.add m = .ok { t with tabuList := kept ++ [m] } ∧ (kept ++ [m]).length ≤ t.maxLength ∧
    ∀ x ∈ gone, ∀ y ∈ kept, start.heldFor y calls < start.heldFor x calls
  /-- A move is found until it is removed. -/
  answers : ∀ m later earlier, calls = later ++ .add m :: earlier →
    start.Undisturbed m (.add m :: earlier) later → t.Answers m

/-! ### The keys -/

/-- The list without the objective values. -/
def keys : Queue Move := ⟨t.maxLength, t.tabuList.map FullMove.toMove⟩

end FullTabuList

def Call.event : Call D → Event Move
  | .add m => .arrive m.toMove
  | .clear => .empty
  | .setMaxLength length => .resize length

namespace FullTabuList

section Keys
variable {t start : FullTabuList D} {m : FullMove D}

theorem has_iff : t.has m = true ↔ m.toMove ∈ t.keys.held := by
  simp only [has, keys, List.any_eq_true, List.mem_map, FullMove.same_iff]

theorem has_eq_false_iff : t.has m = false ↔ m.toMove ∉ t.keys.held := by
  rw [← has_iff, Bool.not_eq_true]

theorem held_keys_of_nil (h : t.tabuList = []) : t.keys.held = [] := by
  rw [keys, h]
  rfl

theorem excess_keys : t.keys.excess = t.size + 1 - t.maxLength := by
  unfold Queue.excess keys size
  rw [List.length_map]

/-- The oldest moves leave until there is room for one more. -/
theorem makeRoom_eq {L : ℕ} (hL : 1 ≤ L) : ∀ ms : List (FullMove D),
    makeRoom L ms = .ok (ms.drop (ms.length + 1 - L))
  | [] => by
    rw [makeRoom, if_neg (by omega), List.drop_nil]
  | m :: ms => by
    rw [makeRoom, List.length_cons]
    split_ifs with h
    · rw [makeRoom_eq hL ms, show ms.length + 1 + 1 - L = ms.length + 1 - L + 1 by omega,
        List.drop_succ_cons]
    · rw [show ms.length + 1 + 1 - L = 0 by omega, List.drop_zero]

theorem add_of_has (h : t.has m = true) : t.add m = .ok t := if_pos h

theorem add_of_not_has (hL : 1 ≤ t.maxLength) (h : t.has m = false) :
    t.add m = .ok { t with tabuList := t.tabuList.drop (t.size + 1 - t.maxLength) ++ [m] } := by
  unfold add
  rw [if_neg (by rw [h]; exact Bool.false_ne_true), makeRoom_eq hL]
  rfl

/-- **A call is an event of the queue.** -/
theorem call_keys (hL : 1 ≤ t.maxLength) (c : Call D) :
    ∃ t', t.call c = .ok t' ∧ t'.keys = t.keys.step c.event := by
  cases c with
  | add m =>
    cases h : t.has m with
    | true => exact ⟨t, add_of_has h, (Queue.step_arrive_of_mem (has_iff.mp h)).symm⟩
    | false =>
      refine ⟨_, add_of_not_has hL h, ?_⟩
      rw [Call.event, Queue.step_arrive_of_notMem (has_eq_false_iff.mp h), excess_keys]
      simp [keys]
  | clear => exact ⟨_, rfl, rfl⟩
  | setMaxLength length => exact ⟨_, rfl, rfl⟩

theorem Legal.tail {c : Call D} {calls : List (Call D)} (h : start.Legal (c :: calls)) :
    start.Legal calls := ⟨h.first, fun n hn => h.set n (List.mem_cons_of_mem c hn)⟩

/-- **A history of calls is a history of the queue.** -/
theorem after_keys : ∀ {calls : List (Call D)}, start.Legal calls → ∃ t,
    start.after calls = .ok t ∧ t.keys = start.keys.after (calls.map Call.event) ∧ 1 ≤ t.maxLength
  | [], h => ⟨start, rfl, rfl, h.first⟩
  | c :: calls, h => by
    obtain ⟨t, ht, hkeys, hL⟩ := after_keys h.tail
    obtain ⟨t', ht', hkeys'⟩ := call_keys hL c
    refine ⟨t', ?_, ?_, ?_⟩
    · rw [after, ht]
      exact ht'
    · rw [hkeys', hkeys]
      rfl
    · have hbound : t'.maxLength = (t.keys.step c.event).bound := congrArg Queue.bound hkeys'
      rw [hbound]
      cases c with
      | add m =>
        by_cases hm : m.toMove ∈ t.keys.held
        · rw [Call.event, Queue.step_arrive_of_mem hm]
          exact hL
        · rw [Call.event, Queue.step_arrive_of_notMem hm]
          exact hL
      | clear => exact hL
      | setMaxLength length => exact h.set length List.mem_cons_self

theorem heldFor_eq_age (m : FullMove D) : ∀ {calls : List (Call D)}, start.Legal calls →
    start.heldFor m calls = start.keys.age m.toMove (calls.map Call.event)
  | [], _ => rfl
  | c :: calls, h => by
    obtain ⟨t, ht, hkeys, -⟩ := after_keys h
    rw [heldFor, ht]
    dsimp only
    rw [heldFor_eq_age m h.tail, List.map_cons, Queue.age, ← List.map_cons, ← hkeys]
    exact if_congr has_iff rfl rfl

theorem drops_iff {c : Call D} : t.keys.Drops m.toMove c.event ↔ t.Removes m c := by
  cases c with
  | add m' =>
    simp only [Call.event, Queue.Drops, Removes, has_eq_false_iff, excess_keys, FullMove.same_iff]
    simp only [keys, ← List.map_take, List.mem_map]
  | clear => exact Iff.rfl
  | setMaxLength length => exact Iff.rfl

theorem Undisturbed.spares {calls : List (Call D)} : ∀ {later : List (Call D)},
    start.Legal (later ++ calls) → start.Undisturbed m calls later →
    start.keys.Spares m.toMove (calls.map Call.event) (later.map Call.event)
  | [], _, _ => trivial
  | c :: later, hlegal, h => by
    have htail : start.Legal (later ++ calls) := hlegal.tail
    obtain ⟨t, ht, hkeys, -⟩ := after_keys htail
    refine ⟨h.1.spares htail, fun hdrops => h.2 t ht (drops_iff.mp ?_)⟩
    rwa [hkeys, List.map_append]

/-- The objective values do not matter. -/
theorem has_congr {x : FullMove D} (h : m.toMove = x.toMove) (hm : t.has m = true) :
    t.has x = true := by
  rw [has_iff] at hm ⊢
  rwa [← h]

theorem answers_of_has (h : t.has m = true) : t.Answers m := by
  constructor
  · intro v w order hm obj1 obj2
    have hfound : t.has (.insertion v w order obj1 obj2) = true := has_congr hm h
    simp [hasMove, hfound]
  · intro v w order1 order2 hm obj1 obj2
    have hfound : t.has (.swap v w order1 order2 obj1 obj2) = true := has_congr hm h
    simp [hasSwap, hfound]

end Keys

/-! ### The queue -/

section Queue
variable {start : FullTabuList D} (hstart : start.tabuList = []) {calls : List (Call D)}
  (hlegal : start.Legal calls) {t : FullTabuList D} (ht : start.after calls = .ok t)
include hlegal ht

theorem keys_of_after : t.keys = start.keys.after (calls.map Call.event) ∧ 1 ≤ t.maxLength := by
  obtain ⟨t', ht', hkeys, hL⟩ := after_keys hlegal
  obtain rfl := Except.ok.inj (ht.symm.trans ht')
  exact ⟨hkeys, hL⟩

/-- A move is in the list until a call removes it. -/
theorem has_of_undisturbed {m : FullMove D} {later earlier : List (Call D)}
    (hcalls : calls = later ++ .add m :: earlier)
    (h : start.Undisturbed m (.add m :: earlier) later) : t.has m = true := by
  obtain ⟨hkeys, -⟩ := keys_of_after hlegal ht
  subst hcalls
  rw [has_iff, hkeys, List.map_append]
  exact Queue.mem_after_append Queue.mem_step_arrive _ (h.spares hlegal)

include hstart

theorem distinct_of_after : t.tabuList.Pairwise fun a b => a.same b = false := by
  obtain ⟨hkeys, -⟩ := keys_of_after hlegal ht
  have hnil := held_keys_of_nil hstart
  have hnodup : t.keys.held.Nodup := by
    rw [hkeys]
    exact Queue.nodup_after (by rw [hnil]; exact List.nodup_nil) _
  refine (List.pairwise_map.mp hnodup).imp fun {a b} hne => ?_
  rw [← Bool.not_eq_true, FullMove.same_iff]
  exact hne

/-- The moves that a new one pushes out were held for longest. -/
theorem heldFor_lt {x y : FullMove D} (hx : x ∈ t.tabuList.take (t.size + 1 - t.maxLength))
    (hy : y ∈ t.tabuList.drop (t.size + 1 - t.maxLength)) :
    start.heldFor y calls < start.heldFor x calls := by
  obtain ⟨hkeys, -⟩ := keys_of_after hlegal ht
  have hnil := held_keys_of_nil hstart
  rw [heldFor_eq_age y hlegal, heldFor_eq_age x hlegal]
  refine Queue.age_lt_of_excess hnil _ ?_ ?_
  · rw [← hkeys, excess_keys, keys, ← List.map_take]
    exact List.mem_map_of_mem hx
  · rw [← hkeys, excess_keys, keys, ← List.map_drop]
    exact List.mem_map_of_mem hy

end Queue

/-- **The tabu list is a bounded queue without repetitions**, after every history of calls with maximal
lengths of at least one. -/
theorem tabu_queue {start : FullTabuList D} (hstart : start.tabuList = []) {calls : List (Call D)}
    (hlegal : start.Legal calls) : ∃ t, start.after calls = .ok t ∧ t.IsQueue start calls := by
  obtain ⟨t, ht, hkeys, hL⟩ := after_keys hlegal
  refine ⟨t, ht, distinct_of_after hstart hlegal ht, fun m => add_of_has, fun m hm => ?_,
    fun m later earlier hcalls h => answers_of_has (has_of_undisturbed hlegal ht hcalls h)⟩
  refine ⟨_, _, (List.take_append_drop (t.size + 1 - t.maxLength) _).symm, add_of_not_has hL hm, ?_,
    fun x hx y hy => heldFor_lt hstart hlegal ht hx hy⟩
  rw [List.length_append, List.length_drop, List.length_singleton, size]
  omega

/-- The insertion of an order into the vehicle 2. -/
def smallMove (oId obj : ℤ) : FullMove ℤ := ⟨⟨1, 2, oId, 0, false⟩, obj, obj⟩

/-- The second insertion of the order 1 changes nothing; the one of the order 3 evicts it, because
there is room for two moves only. -/
def smallCalls : List (Call ℤ) :=
  [.add (smallMove 3 0), .setMaxLength 2, .add (smallMove 1 9), .add (smallMove 2 0),
    .add (smallMove 1 0)]

theorem tabu_queue_small : ∃ t, after ⟨3, []⟩ smallCalls = .ok t ∧
    t.tabuList = [smallMove 2 0, smallMove 3 0] ∧ t.IsQueue ⟨3, []⟩ smallCalls := by
  have hset : ∀ n, Call.setMaxLength n ∈ smallCalls → 1 ≤ n := fun n hn => by
    have hn : n = 2 := by simpa [smallCalls] using hn
    omega
  obtain ⟨t, ht, hqueue⟩ : ∃ t, after ⟨3, []⟩ smallCalls = .ok t ∧ t.IsQueue ⟨3, []⟩ smallCalls :=
    tabu_queue rfl ⟨by decide, hset⟩
  have hlist : after ⟨3, []⟩ smallCalls = .ok ⟨2, [smallMove 2 0, smallMove 3 0]⟩ := rfl
  obtain rfl := Except.ok.inj (ht.symm.trans hlist)
  exact ⟨_, hlist, rfl, hqueue⟩

/-! ### The list of the search -/

section Forget
variable (t : FullTabuList D) (infeasible seen : List String)

/-- The list without the objective values, beside the two sets of candidates. -/
def forget : TabuList := ⟨t.maxLength, t.keys.held, infeasible, seen⟩

theorem has_forget (m : FullMove D) : (t.forget infeasible seen).has m.toMove = t.has m := by
  rw [Bool.eq_iff_iff, has_iff]
  exact decide_eq_true_iff

theorem forget_add (hL : 1 ≤ t.maxLength) (m : FullMove D) : ∃ t', t.add m = .ok t' ∧
    t'.forget infeasible seen = (t.forget infeasible seen).add m.toMove := by
  have hhas := t.has_forget infeasible seen m
  unfold TabuList.add
  rw [hhas]
  cases h : t.has m with
  | true => exact ⟨t, add_of_has h, rfl⟩
  | false =>
    refine ⟨_, add_of_not_has hL h, ?_⟩
    simp [forget, keys, size]

theorem hasMove_forget (v w : Vehicle) (order : Order) (obj1 obj2 : D) :
    (t.forget infeasible seen).hasMove v w order = t.hasMove v w order obj1 obj2 := by
  unfold TabuList.hasMove hasMove
  rw [← t.has_forget infeasible seen, ← t.has_forget infeasible seen]
  rfl

theorem hasSwap_forget (v w : Vehicle) (order1 order2 : Order) (obj1 obj2 : D) :
    (t.forget infeasible seen).hasSwap v w order1 order2 =
      t.hasSwap v w order1 order2 obj1 obj2 := by
  unfold TabuList.hasSwap hasSwap
  simp only [← t.has_forget infeasible seen]
  rfl

end Forget

end FullTabuList

end VrpRouting.Optimizers.Tabu
