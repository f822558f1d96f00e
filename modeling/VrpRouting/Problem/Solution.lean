import Mathlib.Algebra.Ring.Int.Defs
import Mathlib.Algebra.Ring.Nat
import VrpRouting.Problem.PickDeliver

/-! # Solutions

The fleet of a solution is the deque of its routes. Totals of a solution are sums over the fleet;
those of phony vehicles are 0. -/

namespace VrpRouting

structure Solution where
  fleet : List Vehicle
  orders : Orders
  trucks : Fleet
deriving DecidableEq

namespace Solution

variable (M : Matrix) (s : Solution)

/-- The constructor from the problem. -/
def ofProblem (problem : PickDeliver) : Solution := ⟨[], problem.orders, problem.trucks⟩

def getStops : List ShortVehicle := s.fleet.map fun v => ⟨v.id, v.getStops⟩

def isFeasible : Bool := s.fleet.all Vehicle.isFeasible

def duration : ℤ := (s.fleet.map Vehicle.duration).sum

def waitTime : ℤ := (s.fleet.map Vehicle.totalWaitTime).sum

def totalTravelTime : ℤ := (s.fleet.map Vehicle.totalTravelTime).sum

def totalServiceTime : ℤ := (s.fleet.map Vehicle.totalServiceTime).sum

def twvTot : ℕ := (s.fleet.map Vehicle.twvTot).sum

def cvTot : ℕ := (s.fleet.map Vehicle.cvTot).sum

/-- The objective function, a `double` with an integer value. -/
def objective : ℤ := s.totalTravelTime

/-- The rows of a vehicle with the wait moved from the first stop to the depot. Every path has the
two sites, so the rows `data[0]` and `data[1]` are there. -/
def adjustDepot : List SolutionRt → List SolutionRt
  | depot :: first :: rows =>
    { depot with
      waitDuration := first.waitDuration
      departureTime := depot.arrivalTime + first.waitDuration } ::
    { first with
      arrivalTime := first.operationTime
      waitDuration := 0 } :: rows
  | rows => rows

/-- The rows of the vehicle `v`, the `i`-th one of the fleet. -/
def vehicleRows (i : ℕ) (v : Vehicle) : List SolutionRt :=
  adjustDepot ((v.evaluate M 0).getPostgresResult i)

/-- The row with the totals. -/
def aggregates : SolutionRt where
  vehicleSeq := -2
  vehicleId := s.twvTot
  stopSeq := s.cvTot
  orderId := -1
  stopId := -1
  stopType := -2
  cargo := -1
  travelTime := s.totalTravelTime
  arrivalTime := -1
  waitDuration := s.waitTime
  operationTime := -1
  serviceDuration := s.totalServiceTime
  departureTime := s.duration
  cvTot := s.cvTot
  twvTot := s.twvTot

def getPostgresResult : List SolutionRt :=
  (s.fleet.mapIdx fun i v => vehicleRows M (i + 1) v).flatten ++ [s.aggregates]

end Solution

end VrpRouting
