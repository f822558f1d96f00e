import VrpRouting.Problem.Solution

/-! # The simple initial solutions

`Initial_solution` of `initialsol/simple.cpp`: trucks are taken one after the other, and each is
filled with the unassigned orders that fit in it, in the way the construction kind says.

Both loops of the source are unbounded. `doWhileFeasible` takes one order out of `current_feasible`
in every pass, so it runs for as many passes as that set has elements; `doWhileFoo` need not end, and
`none` is the result of a run that is longer than its fuel. -/

namespace VrpRouting.Initialsol.Simple

inductive InitialsCode
  | oneTruck | onePerTruck | frontTruck | backTruck | bestInsert | bestBack | bestFront | oneDepot
deriving DecidableEq, Repr

/-- The code with the given value. -/
def InitialsCode.ofValue : ℕ → InitialsCode
  | 0 => .oneTruck
  | 1 => .onePerTruck
  | 2 => .frontTruck
  | 3 => .backTruck
  | 4 => .bestInsert
  | 5 => .bestBack
  | 6 => .bestFront
  | _ => .oneDepot

structure InitialSolution extends Solution where
  allOrders : Identifiers ℕ
  unassigned : Identifiers ℕ
  assigned : Identifiers ℕ
deriving DecidableEq

/-- The local state of `do_while_feasible`: the truck, the two sets and `current_feasible`. -/
structure FeasibleLoop where
  vehicle : Vehicle
  sets : Assignment
  currentFeasible : Identifiers ℕ
deriving DecidableEq

/-- The truck has taken the order. -/
def Assignment.assign (sets : Assignment) (o : ℕ) : Assignment :=
  ⟨sets.assigned.insert o, sets.unassigned.erase o⟩

namespace InitialSolution

variable (M : Matrix) (s : InitialSolution) (kind : InitialsCode)

/-- The order of the next pass. -/
def nextOrder (currentFeasible : Identifiers ℕ) : Order :=
  match kind with
  | .bestBack => s.orders.get (s.orders.findBestJ currentFeasible)
  | .bestFront => s.orders.get (s.orders.findBestI currentFeasible)
  | _ => s.orders.get (currentFeasible.front.getD 0)

/-- The switch over the kinds: how the order gets into the truck. -/
def insertByKind (vehicle : Vehicle) (order : Order) : Vehicle :=
  match kind with
  | .oneTruck => vehicle
  | .onePerTruck | .backTruck => vehicle.pushBack M order
  | .frontTruck => vehicle.pushFront M order
  | .bestInsert | .bestBack | .bestFront => (vehicle.hillClimb M order).2
  | .oneDepot => (vehicle.semiLIFO M order).2

/-- The orders that can still be tried once `order` is in the truck. -/
def narrow (order : Order) (currentFeasible : Identifiers ℕ) : Identifiers ℕ :=
  match kind with
  | .bestBack => (s.orders.get order.idx).subsetJ currentFeasible
  | .bestFront => (s.orders.get order.idx).subsetI currentFeasible
  | _ => currentFeasible

/-- One pass of the loop. The feasibility that decides about an undo is that of `m_fleet`. -/
def feasibleStep (l : FeasibleLoop) : FeasibleLoop :=
  let order := s.nextOrder kind l.currentFeasible
  let vehicle := insertByKind M kind l.vehicle order
  if !s.isFeasible then
    ⟨vehicle.eraseOrder M order, l.sets, l.currentFeasible.erase order.idx⟩
  else if vehicle.hasOrder order then
    ⟨vehicle, Assignment.assign l.sets order.idx,
      (s.narrow kind order l.currentFeasible).erase order.idx⟩
  else ⟨vehicle, l.sets, l.currentFeasible.erase order.idx⟩

/-- The loop of `do_while_feasible`. The kind `OnePerTruck` returns after the first insertion. -/
def feasibleLoop : ℕ → FeasibleLoop → FeasibleLoop
  | 0, l => l
  | passes + 1, l =>
    if l.currentFeasible.isEmpty then l
    else if kind = .onePerTruck then
      let order := s.nextOrder kind l.currentFeasible
      ⟨insertByKind M kind l.vehicle order, Assignment.assign l.sets order.idx, l.currentFeasible⟩
    else feasibleLoop passes (s.feasibleStep M kind l)

def doWhileFeasible (vehicle : Vehicle) (sets : Assignment) : Vehicle × Assignment :=
  let currentFeasible := vehicle.feasibleOrders.inter sets.unassigned
  let l := s.feasibleLoop M kind currentFeasible.size ⟨vehicle, sets, currentFeasible⟩
  (l.vehicle, l.sets)

/-- The body of the loop of `do_while_foo`; the loop runs while `unassigned` has a first element. -/
def fooStep : Except Fault InitialSolution := do
  let t ← s.trucks.getTruck (s.unassigned.front.getD 0)
  let s := { s with trucks := t.2 }
  let r := s.doWhileFeasible M kind t.1 ⟨s.assigned, s.unassigned⟩
  return { s with assigned := r.2.assigned, unassigned := r.2.unassigned, fleet := s.fleet ++ [r.1] }

/-- The loop of `do_while_foo`, at most `fuel` passes. -/
def doWhileFoo (M : Matrix) (kind : InitialsCode) :
    ℕ → InitialSolution → Except Fault (Option InitialSolution)
  | 0, s => .ok (if s.unassigned.isEmpty then some s else none)
  | fuel + 1, s =>
    if s.unassigned.isEmpty then .ok (some s)
    else do doWhileFoo M kind fuel (← s.fooStep M kind)

/-- The object before the construction. -/
def start (problem : PickDeliver) : InitialSolution :=
  ⟨.ofProblem problem, .upTo problem.orders.length, .upTo problem.orders.length, .empty⟩

/-- `one_truck_all_orders`. An order counts as assigned whether it got into the truck or not. -/
def oneTruckAllOrders : Except Fault InitialSolution := do
  let t ← s.trucks.getFirstTruck
  let truck := s.unassigned.ids.foldl (fun v o => (v.hillClimb M (v.orders.get o)).2) t.1
  return { s with
    trucks := t.2
    assigned := s.assigned.union s.unassigned
    unassigned := .empty
    fleet := s.fleet ++ [truck] }

/-- The constructor, with at most `fuel` passes of the loop. -/
def construct (fuel : ℕ) (problem : PickDeliver) : Except Fault (Option InitialSolution) :=
  match kind with
  | .oneTruck => do return some (← (start problem).oneTruckAllOrders M)
  | kind => doWhileFoo M kind fuel (start problem)

end InitialSolution

end VrpRouting.Initialsol.Simple
