import VrpRouting.InitialSol.Passes
import VrpRouting.Optimizers.Simple

/-! # The report of `move_reduce_cost`

`move_reduce_cost` works on copies of the two trucks and, unlike `swap_worse`, never writes them back.
So the fleet stays as it is whatever the result (`fleet_moveReduceCost`), and the result is right
exactly when it is false: when the loop comes to no order that it accepts (`NoneAccepted`). -/

open Sorting

namespace VrpRouting.Optimizers.Simple

open Initialsol.Simple (InitialsCode)

namespace Optimize

variable (M : Matrix)

/-! ### The result -/

/-- One order, with the value of `moved`. -/
def reduceOrderMoved (s : Bool × SwapLoop) (oId : ℕ) : Bool × SwapLoop :=
  let l := s.2
  let order := l.fromTruck.orders.get oId
  let currDuration := l.fromTruck.duration + l.toTruck.duration
  let toTruck := insertOrder M l.opt.kind l.toTruck order
  if toTruck.hasOrder order then
    let fromTruck := l.fromTruck.eraseOrder M order
    let newDuration := fromTruck.duration + toTruck.duration
    if newDuration < currDuration ∨ fromTruck.empty ∨
        newDuration < l.opt.bestSolution.duration then
      (true, ⟨⟨fromTruck, toTruck⟩, l.opt.saveIfBest⟩)
    else
      (s.1, ⟨⟨insertOrder M l.opt.kind fromTruck order, toTruck.eraseOrder M order⟩, l.opt⟩)
  else (s.1, ⟨⟨l.fromTruck, toTruck⟩, l.opt⟩)

/-- `move_reduce_cost` with its result. -/
def moveReduceCostMoved (o : Optimize) (fromPos toPos : ℕ) : Bool × Optimize :=
  let fromTruck := o.vehicle fromPos
  let toTruck := o.vehicle toPos
  if toTruck.empty then (false, o)
  else if !fromTruck.isPhony && toTruck.isPhony then (false, o)
  else
    let s := fromTruck.ordersInVehicle.ids.foldl (reduceOrderMoved M) (false, ⟨⟨fromTruck, toTruck⟩, o⟩)
    (s.1, s.2.opt)

/-- `moved` does not influence the trucks. -/
theorem reduceOrderMoved_snd (s : Bool × SwapLoop) (oId : ℕ) :
    (reduceOrderMoved M s oId).2 = reduceOrder M s.2 oId := by
  unfold reduceOrderMoved reduceOrder
  dsimp only
  split_ifs <;> rfl

/-- It is the operator of the runs. -/
theorem moveReduceCostMoved_snd (o : Optimize) (fromPos toPos : ℕ) :
    (o.moveReduceCostMoved M fromPos toPos).2 = o.moveReduceCost M fromPos toPos := by
  have hfold : ∀ (ids : List ℕ) (s : Bool × SwapLoop),
      (ids.foldl (reduceOrderMoved M) s).2 = ids.foldl (reduceOrder M) s.2 := by
    intro ids
    induction ids with
    | nil => exact fun _ => rfl
    | cons i ids ih =>
      intro s
      rw [List.foldl_cons, List.foldl_cons, ih, reduceOrderMoved_snd]
  unfold moveReduceCostMoved moveReduceCost
  extract_lets fromTruck toTruck s
  split_ifs
  · rfl
  · rfl
  · exact congrArg SwapLoop.opt (hfold _ _)

/-- **The fleet is never changed.** -/
theorem fleet_moveReduceCost (o : Optimize) (fromPos toPos : ℕ) :
    (o.moveReduceCost M fromPos toPos).fleet = o.fleet := by
  unfold moveReduceCost
  extract_lets fromTruck toTruck
  split_ifs
  · rfl
  · rfl
  · refine List.foldlRecOn (motive := fun l : SwapLoop => l.opt.fleet = o.fleet) _ _ rfl
      fun l hl i _ => ?_
    unfold reduceOrder
    extract_lets order curr toTruck fromTruck newDuration
    split_ifs
    · exact l.opt.fleet_saveIfBest.trans hl
    · exact hl
    · exact hl

/-! ### Orders that are accepted -/

section Accepted
variable (kind : InitialsCode) (best : ℤ) (t : Trucks) (order : Order)

/-- The order can be inserted in the other truck, and this makes the two trucks shorter, or empties the
first one, or beats `best`. -/
def Accepts : Prop :=
  let toTruck := insertOrder M kind t.toTruck order
  let fromTruck := t.fromTruck.eraseOrder M order
  toTruck.hasOrder order = true ∧
    (fromTruck.duration + toTruck.duration < t.fromTruck.duration + t.toTruck.duration ∨
      fromTruck.empty = true ∨ fromTruck.duration + toTruck.duration < best)

instance : Decidable (Accepts M kind best t order) := by
  unfold Accepts
  infer_instance

/-- The copies after an order that is not accepted: when it was inserted, it goes back. -/
def afterRefusal : Trucks :=
  let toTruck := insertOrder M kind t.toTruck order
  if toTruck.hasOrder order then
    ⟨insertOrder M kind (t.fromTruck.eraseOrder M order) order, toTruck.eraseOrder M order⟩
  else ⟨t.fromTruck, toTruck⟩

/-- Of the orders, tried one after the other, none is accepted. -/
def NoneAccepted : List ℕ → Trucks → Prop
  | [], _ => True
  | i :: ids, t => ¬ Accepts M kind best t (t.fromTruck.orders.get i) ∧
      NoneAccepted ids (afterRefusal M kind t (t.fromTruck.orders.get i))

end Accepted

/-- What one order does, by the test. -/
theorem reduceOrderMoved_eq (b : Bool) (l : SwapLoop) (i : ℕ) :
    reduceOrderMoved M (b, l) i =
      if Accepts M l.opt.kind l.opt.bestSolution.duration l.toTrucks (l.fromTruck.orders.get i) then
        (true, reduceOrder M l i)
      else (b, ⟨afterRefusal M l.opt.kind l.toTrucks (l.fromTruck.orders.get i), l.opt⟩) := by
  rw [← reduceOrderMoved_snd M (b, l)]
  unfold reduceOrderMoved Accepts afterRefusal
  dsimp only
  by_cases hins : (insertOrder M l.opt.kind l.toTruck (l.fromTruck.orders.get i)).hasOrder
      (l.fromTruck.orders.get i) = true
  · simp only [hins, true_and, if_true]
    split_ifs <;> rfl
  · simp only [hins, Bool.false_eq_true, false_and, if_false]

/-- **`moved` is set exactly when an order is accepted.** -/
theorem moved_iff : ∀ (ids : List ℕ) (b : Bool) (l : SwapLoop),
    (ids.foldl (reduceOrderMoved M) (b, l)).1 = true ↔ b = true ∨
      ¬ NoneAccepted M l.opt.kind l.opt.bestSolution.duration ids l.toTrucks
  | [], b, l => by simp [NoneAccepted]
  | i :: ids, b, l => by
    rw [List.foldl_cons, reduceOrderMoved_eq, NoneAccepted]
    split_ifs with h
    · rw [moved_iff ids]
      exact iff_of_true (Or.inl rfl) (Or.inr fun hnone => hnone.1 h)
    · rw [moved_iff ids]
      exact or_congr_right (not_congr (and_iff_right h).symm)

/-! ### What the result promises -/

/-- The orders have left the vehicle at `fromPos` and are on the one at `toPos`; every other order of
both is where it was, and both are feasible. -/
structure OrdersMoved (o o' : Optimize) (fromPos toPos : ℕ) (ids : List ℕ) : Prop where
  left : ∀ i ∈ ids, i ∈ (o.vehicle fromPos).ordersInVehicle ∧
    i ∉ (o'.vehicle fromPos).ordersInVehicle
  arrived : ∀ i ∈ ids, i ∈ (o'.vehicle toPos).ordersInVehicle
  others : ∀ i ∉ ids, (i ∈ (o'.vehicle fromPos).ordersInVehicle ↔
      i ∈ (o.vehicle fromPos).ordersInVehicle) ∧
    (i ∈ (o'.vehicle toPos).ordersInVehicle ↔ i ∈ (o.vehicle toPos).ordersInVehicle)
  from_feasible : (o'.vehicle fromPos).isFeasible = true
  to_feasible : (o'.vehicle toPos).isFeasible = true

/-- The result `moved` says what became of the two vehicles. -/
structure ReportsRight (o o' : Optimize) (moved : Bool) (fromPos toPos : ℕ) : Prop where
  on_true : moved = true → ∃ ids ≠ [], OrdersMoved o o' fromPos toPos ids
  on_false : moved = false → o'.vehicle fromPos = o.vehicle fromPos ∧
    o'.vehicle toPos = o.vehicle toPos

/-- **The result of `move_reduce_cost` is right exactly when no order is accepted.** -/
theorem move_reduce_cost_iff (o : Optimize) (fromPos toPos : ℕ) :
    let r := o.moveReduceCostMoved M fromPos toPos
    ReportsRight o r.2 r.1 fromPos toPos ↔
      (o.vehicle toPos).empty = true ∨
      ((o.vehicle fromPos).isPhony = false ∧ (o.vehicle toPos).isPhony = true) ∨
      NoneAccepted M o.kind o.bestSolution.duration (o.vehicle fromPos).ordersInVehicle.ids
        ⟨o.vehicle fromPos, o.vehicle toPos⟩ := by
  intro r
  have hsame : ∀ i, r.2.vehicle i = o.vehicle i := fun i => by
    unfold vehicle
    rw [moveReduceCostMoved_snd, fleet_moveReduceCost]
  have hright : ReportsRight o r.2 r.1 fromPos toPos ↔ r.1 = false := by
    constructor
    · intro h
      by_contra htrue
      -- an order that is said to be gone is still on the vehicle
      obtain ⟨ids, hne, hmoved⟩ := h.on_true (by simpa using htrue)
      obtain ⟨i, hi⟩ := List.exists_mem_of_ne_nil ids hne
      obtain ⟨hbefore, hafter⟩ := hmoved.left i hi
      rw [hsame] at hafter
      exact hafter hbefore
    · intro h
      exact ⟨fun h' => absurd (h'.symm.trans h) Bool.noConfusion, fun _ => ⟨hsame _, hsame _⟩⟩
  rw [hright]
  unfold r moveReduceCostMoved
  extract_lets fromTruck toTruck s
  split_ifs with hempty hphony
  · exact iff_of_true rfl (Or.inl hempty)
  · exact iff_of_true rfl (Or.inr (Or.inl (by simpa using hphony)))
  · have hmoved := moved_iff M fromTruck.ordersInVehicle.ids false ⟨⟨fromTruck, toTruck⟩, o⟩
    have hphony' : ¬ (fromTruck.isPhony = false ∧ toTruck.isPhony = true) := by simpa using hphony
    rw [or_iff_right hempty, or_iff_right hphony']
    show s.1 = false ↔ _
    rw [← Bool.not_eq_true, hmoved, or_iff_right Bool.false_ne_true, not_not]

/-- Two vehicles with one order each. The order of the second one fits in the first one, so the result
is true; but it stays where it is. -/
theorem move_reduce_cost_fails : ∃ p s,
    PickDeliver.build .insertion twoSites [smallOrderData 1 100, smallOrderData 2 100]
      [smallVehicleData 7 [], smallVehicleData 8 []] [] = .ok p ∧
    Initialsol.Simple.InitialSolution.doWhileFoo twoSites .onePerTruck 2 (.start p) = .ok (some s) ∧
    let o := init s.toSolution .onePerTruck
    let r := o.moveReduceCostMoved twoSites 1 0
    o.fleet.length = 2 ∧ r.1 = true ∧ ¬ ReportsRight o r.2 r.1 1 0 := by
  obtain ⟨p, r, hp, hr, hq⟩ := exists_ok_bind_and (x := PickDeliver.build .insertion twoSites
    [smallOrderData 1 100, smallOrderData 2 100] [smallVehicleData 7 [], smallVehicleData 8 []] [])
    (f := fun p => Initialsol.Simple.InitialSolution.doWhileFoo twoSites .onePerTruck 2 (.start p))
    (fun r => r.any fun s =>
      let o := init s.toSolution .onePerTruck
      let r := o.moveReduceCostMoved twoSites 1 0
      decide (o.fleet.length = 2 ∧ r.1 = true ∧ ∀ i ∈ (o.vehicle 1).ordersInVehicle,
        i ∈ (r.2.vehicle 1).ordersInVehicle)) (by decide +kernel)
  obtain ⟨s, rfl, hs⟩ := (Option.any_eq_true ..).mp hq
  obtain ⟨hlen, htrue, hstay⟩ := of_decide_eq_true hs
  refine ⟨p, s, hp, hr, hlen, htrue, fun h => ?_⟩
  obtain ⟨ids, hne, hmoved⟩ := h.on_true htrue
  obtain ⟨i, hi⟩ := List.exists_mem_of_ne_nil ids hne
  obtain ⟨hbefore, hafter⟩ := hmoved.left i hi
  exact hafter (hstay i hbefore)

end Optimize

end VrpRouting.Optimizers.Simple
