import VrpRouting.Problem.Solution

/-! # The initial solution of the tabu search

`Initial_solution` of `initialsol/tabu.cpp`: the solution given by the user is processed, the
vehicles of the problem become the fleet, and each order that is still unassigned gets a phony
vehicle of its own. The field `checkpoints` is not in the source: it records the three sets at every
call of `invariant()`. -/

namespace VrpRouting.Initialsol.Tabu

/-- What `invariant()` looks at. -/
structure Checkpoint where
  allOrders : Identifiers ℕ
  assigned : Identifiers ℕ
  unassigned : Identifiers ℕ
deriving DecidableEq

/-- The two assertions of `invariant()`. -/
def Checkpoint.invariant (c : Checkpoint) : Bool :=
  c.allOrders.same (c.assigned.union c.unassigned) && (c.assigned.inter c.unassigned).isEmpty

structure InitialSolution extends Solution where
  allOrders : Identifiers ℕ
  unassigned : Identifiers ℕ
  assigned : Identifiers ℕ
  checkpoints : List Checkpoint
deriving DecidableEq

namespace InitialSolution

variable (M : Matrix) (s : InitialSolution)

/-- A call of `invariant()`. -/
def check : InitialSolution :=
  { s with checkpoints := s.checkpoints ++ [⟨s.allOrders, s.assigned, s.unassigned⟩] }

def processGivenSolutionFromUser (executionDate : ℤ) (optimize : Bool) : InitialSolution :=
  let s := s.check
  let r := s.trucks.setInitialSolution M s.orders ⟨s.assigned, s.unassigned⟩ executionDate optimize
  let s := { s with trucks := r.1, assigned := r.2.assigned, unassigned := r.2.unassigned }
  let usedV := s.trucks.getUsedTrucks
  check { s with fleet := s.fleet ++ usedV }

/-- A vehicle on which no unassigned order fits keeps all its orders. -/
def markUnusable (unassigned : Identifiers ℕ) (v : Vehicle) : Vehicle :=
  if unassigned.ids.any v.feasibleOrders.has then v else v.setUnmovable infinity

/-- The body of the loop of `process_unassigned`. -/
def placeUnassigned (s : InitialSolution) (o : ℕ) : InitialSolution :=
  let phonyV := s.trucks.getPhony
  if !phonyV.isOrderFeasible M (s.orders.get o) then
    { s with unassigned := s.unassigned.erase o, allOrders := s.allOrders.erase o }
  else
    check { s with
      assigned := s.assigned.insert o
      unassigned := s.unassigned.erase o
      fleet := s.fleet ++ [phonyV.pushBack M (s.orders.get o)] }

def processUnassigned : InitialSolution :=
  check (s.unassigned.ids.foldl (placeUnassigned M) s.check)

/-- The object when `m_all_orders` is set, before the solution of the user. -/
def start (problem : PickDeliver) : InitialSolution :=
  let s : InitialSolution := check ⟨.ofProblem problem, .empty, .empty, .empty, []⟩
  { s with allOrders := s.trucks.feasibleOrders, unassigned := s.trucks.feasibleOrders }

/-- The construction behind the solution of the user. -/
def finish : InitialSolution :=
  let s :=
    if !s.unassigned.isEmpty then { s with fleet := s.fleet.map (markUnusable s.unassigned) } else s
  let s := { s with fleet := s.fleet ++ s.trucks.getUnusedTrucks }
  check (s.processUnassigned M)

/-- The constructor. -/
def construct (executionDate : ℤ) (optimize : Bool) (problem : PickDeliver) :
    Except Fault InitialSolution :=
  if problem.trucks.vehicles.all fun v => v.stopsKnown problem.orders then
    .ok (((start problem).processGivenSolutionFromUser M executionDate optimize).finish M)
  else .error .undefinedRead

end InitialSolution

end VrpRouting.Initialsol.Tabu
