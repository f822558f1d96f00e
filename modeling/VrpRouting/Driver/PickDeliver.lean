import VrpRouting.Driver.TimeMatrix
import VrpRouting.InitialSol.Tabu
import VrpRouting.Optimizers.Tabu
import VrpRouting.Pgdata.Fetchers

/-! # The drivers of `vrp_pickDeliver` and `vrp_compatibleVehicles`

The rows of the inner queries are the arguments. What the drivers write to the log is left out, and
so is the text of an exception that is not a message. -/

open Sorting

namespace VrpRouting.Driver

open Pgget

/-- What a driver hands back: a message, or rows. -/
inductive Reply (α : Type)
  | notice (text : String)
  | err (text : String)
  | tuples (rows : List α)
deriving DecidableEq

/-- The catch blocks: the text of an exception is the error message. -/
def caught {β : Type} (err : String → β) : Except Fault β → Except Fault β
  | .error (.thrown text) => .ok (err text)
  | reply => reply

/-- A reply that is no error message comes from the processing. -/
theorem caught_eq_ok {β : Type} {err : String → β} {x : Except Fault β} {reply : β}
    (h : caught err x = .ok reply) (hne : ∀ text, err text ≠ reply) : x = .ok reply := by
  unfold caught at h
  split at h
  · exact absurd (Except.ok.inj h) (hne _)
  · exact h

/-- One query of the data input; `empty` is the reply when it has no rows. -/
def withRows {γ β : Type} (empty : β) (rows : Except Fault (List γ))
    (process : List γ → Except Fault β) : Except Fault β := do
  let rows ← rows
  if rows.length = 0 then return empty else process rows

/-- The rows of the inner queries. -/
structure Queries where
  orders : List Tuple
  vehicles : List Tuple
  matrix : List Tuple
  multipliers : List Tuple
deriving DecidableEq

/-- The other parameters of `vrp_do_pickDeliver`. -/
structure Parameters where
  factor : ℚ
  maxCycles : ℤ
  executionDate : ℤ
  optimize : Bool
  stopOnAllServed : Bool
  useTimestamps : Bool
  isEuclidean : Bool
  withStops : Bool
deriving DecidableEq

/-- The orders involved. -/
def orderIds (orders : List OrdersT) : Identifiers ℤ :=
  orders.foldl (fun ids o => ids.insert o.id) .empty

/-- A vehicle lists a stop that is no order. -/
def missesOrder (orders : List OrdersT) (vehicles : List VehicleT) : Bool :=
  vehicles.any fun v => v.stops.any fun s => !(orderIds orders).has s

/-- What the drivers with time multipliers do to their matrix. -/
def timedMatrix (S : Sorter) (orders : List OrdersT) (vehicles : List VehicleT)
    (costs : List MatrixCell) (multipliers : List TimeMultipliersT) (factor : ℚ) :
    Except Fault Matrix :=
  verifyCells (verifyTriangles true
    (.ofMultipliers S costs multipliers (nodeIds orders vehicles).ids factor))

section Drivers
variable (S : Sorter) (toUtc : ℤ → ℤ)

/-- `vrp_do_pickDeliver` behind the data input. -/
def processPickDeliver (orders : List OrdersT) (vehicles : List VehicleT) (costs : List MatrixCell)
    (multipliers : List TimeMultipliersT) (args : Parameters) :
    Except Fault (Reply SolutionRt) := do
  throwIf (missesOrder orders vehicles) "Order in 'stops' information missing"
  let matrix ← timedMatrix S orders vehicles costs multipliers args.factor
  let problem ← PickDeliver.build S matrix orders vehicles []
  let executionDate := if args.useTimestamps then toUtc args.executionDate else args.executionDate
  let sol ← Initialsol.Tabu.InitialSolution.construct matrix executionDate args.optimize problem
  let sol := Optimizers.Tabu.Optimize.construct S matrix sol.toSolution args.maxCycles.toNat
    args.stopOnAllServed args.optimize
  return .tuples (sol.toSolution.getPostgresResult matrix)

/-- `vrp_do_compatibleVehicles` behind the data input. -/
def processCompatibleVehicles (orders : List OrdersT) (vehicles : List VehicleT)
    (costs : List MatrixCell) (multipliers : List TimeMultipliersT) (factor : ℚ) :
    Except Fault (Reply CompatibleVehiclesRt) := do
  let matrix ← timedMatrix S orders vehicles costs multipliers factor
  let problem ← PickDeliver.build S matrix orders vehicles []
  return .tuples problem.getPgCompatibleVehicles

/-- The data input: one query after the other, and a message when one of the first three has no
rows. -/
def withData {α : Type} (q : Queries) (isEuclidean useTimestamps withStops : Bool)
    (process : List OrdersT → List VehicleT → List MatrixCell → List TimeMultipliersT →
      Except Fault (Reply α)) : Except Fault (Reply α) :=
  withRows (.notice "Insufficient data found on 'orders' inner query")
    (getOrders toUtc isEuclidean useTimestamps q.orders) fun orders =>
  withRows (.notice "Insufficient data found on 'vehicles' inner query")
    (getVehicles toUtc isEuclidean useTimestamps withStops q.vehicles) fun vehicles =>
  withRows (.notice "Insufficient data found on 'matrix' inner query")
    (getMatrix toUtc useTimestamps q.matrix) fun costs => do
  let multipliers ← getTimeMultipliers toUtc useTimestamps q.multipliers
  process orders vehicles costs multipliers

/-- `vrp_do_pickDeliver`. -/
def vrpDoPickDeliver (q : Queries) (args : Parameters) : Except Fault (Reply SolutionRt) :=
  if args.maxCycles < 0 then .ok (.err "Illegal value in parameter: max_cycles")
  else if args.factor ≤ 0 then .ok (.err "Illegal value in parameter: factor")
  else caught .err (withData toUtc q args.isEuclidean args.useTimestamps args.withStops
    fun orders vehicles costs multipliers =>
      processPickDeliver S toUtc orders vehicles costs multipliers args)

/-- `vrp_do_compatibleVehicles`. -/
def vrpDoCompatibleVehicles (q : Queries) (factor : ℚ) (useTimestamps isEuclidean withStops : Bool) :
    Except Fault (Reply CompatibleVehiclesRt) :=
  if factor ≤ 0 then .ok (.err "Illegal value in parameter: factor")
  else caught .err (withData toUtc q isEuclidean useTimestamps withStops
    fun orders vehicles costs multipliers =>
      processCompatibleVehicles S orders vehicles costs multipliers factor)

end Drivers

end VrpRouting.Driver
