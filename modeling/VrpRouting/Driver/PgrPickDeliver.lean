import VrpRouting.Driver.PickDeliver
import VrpRouting.Optimizers.Simple
import VrpRouting.Problem.Cost

/-! # The driver of `pgr_pickDeliver`

The initial solution is that of one construction kind, or the best one of six. Neither the
construction nor the optimizer need end; `none` is the result of a run that is longer than its
fuel. -/

open Sorting

namespace VrpRouting.Driver

open Pgget
open Initialsol.Simple (InitialsCode InitialSolution)
open Optimizers.Simple (Optimize)

section Solution
variable (S : Sorter) (matrix : Matrix) (fuel : ℕ) (problem : PickDeliver)

/-- The loop over the codes: a solution takes the place of one that it is less than. -/
def tryCodes : Solution → List InitialsCode → Except Fault (Option Solution)
  | solution, [] => .ok (some solution)
  | solution, kind :: kinds => do
    match ← InitialSolution.construct matrix kind fuel problem with
    | none => return none
    | some newSol =>
      tryCodes (if newSol.toSolution.lt solution then newSol.toSolution else solution) kinds

/-- `get_initial_solution`; the code 0 stands for all the codes from 1 to 6. -/
def getInitialSolution (initialId : ℕ) : Except Fault (Option Solution) := do
  if initialId = 0 then
    match ← InitialSolution.construct matrix (.ofValue 1) fuel problem with
    | none => return none
    | some newSol =>
      tryCodes matrix fuel problem newSol.toSolution ([2, 3, 4, 5, 6].map InitialsCode.ofValue)
  else
    return (← InitialSolution.construct matrix (.ofValue initialId) fuel problem).map
      InitialSolution.toSolution

/-- From the problem to the rows. -/
def solve (orders : List OrdersT) (vehicles : List VehicleT) (maxCycles : ℤ) (initialId : ℕ) :
    Except Fault (Option (Reply SolutionRt)) := do
  let problem ← PickDeliver.build S matrix orders vehicles []
  match ← getInitialSolution matrix fuel problem initialId with
  | none => return none
  | some sol =>
    match Optimize.construct S matrix fuel sol maxCycles.toNat (.ofValue initialId) with
    | none => return none
    | some optimized =>
      return some (.tuples ((← optimized).toSolution.getPostgresResult matrix))

end Solution

section Driver
variable (S : Sorter) (toUtc : ℤ → ℤ) (fuel : ℕ)

/-- The parameters of `vrp_do_pgr_pickDeliver`. -/
structure PgrParameters where
  factor : ℚ
  maxCycles : ℤ
  initialSolutionId : ℤ
deriving DecidableEq

/-- The preconditions on the parameters: the error message, if there is one. -/
def PgrParameters.illegal (args : PgrParameters) : Option String :=
  if args.initialSolutionId < 0 ∨ args.initialSolutionId > 7 then
    some "Illegal value in parameter: initial_sol"
  else if args.maxCycles < 0 then some "Illegal value in parameter: max_cycles"
  else if args.factor ≤ 0 then some "Illegal value in parameter: factor"
  else none

/-- `vrp_do_pgr_pickDeliver` behind the data input. -/
def processPgrPickDeliver (orders : List OrdersT) (vehicles : List VehicleT)
    (costs : List MatrixCell) (args : PgrParameters) : Except Fault (Option (Reply SolutionRt)) := do
  let matrix ← verifyCells (.ofCells costs (nodeIds orders vehicles).ids args.factor)
  solve S matrix fuel orders vehicles args.maxCycles args.initialSolutionId.toNat

/-- `vrp_do_pgr_pickDeliver`. -/
def vrpDoPgrPickDeliver (ordersRows vehiclesRows matrixRows : List Tuple) (args : PgrParameters) :
    Except Fault (Option (Reply SolutionRt)) :=
  match args.illegal with
  | some text => .ok (some (.err text))
  | none => caught (some ∘ .err) (
    withRows (some (.notice "Insufficient data found on 'orders' inner query"))
      (getOrders toUtc false false ordersRows) fun orders =>
    withRows (some (.notice "Insufficient data found on 'vehicles' inner query"))
      (getVehicles toUtc false false false vehiclesRows) fun vehicles =>
    withRows (some (.notice "Insufficient data found on 'matrix' inner query"))
      (getMatrix toUtc false matrixRows) fun costs =>
    processPgrPickDeliver S fuel orders vehicles costs args)

end Driver

end VrpRouting.Driver
