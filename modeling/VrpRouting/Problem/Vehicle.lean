import VrpRouting.Problem.Order

/-! # Vehicles

The class `Vehicle` and its only subclass `Vehicle_pickDeliver` are one record here. This module has
the base class: the path, its evaluation, the edits that keep it evaluated, and the limits of the
positions at which a node can be inserted. `path` is the `std::deque` of stops, from the starting
to the ending site.

The four overloads of `erase` are `eraseNode` (`erase_node`), `eraseAt` (a position), `eraseStop`
(a node) and, in `VehiclePickDeliver`, `eraseOrder`. The operations of `push` and `pop` on single nodes
are named after stops too; those on orders are in `VehiclePickDeliver`. -/

namespace VrpRouting

structure Vehicle where
  idx : ℕ
  id : ℤ
  path : List VehicleNode
  /-- Time window violations of the solution given by the user. -/
  userTwv : ℕ
  /-- Capacity violations of the solution given by the user. -/
  userCv : ℕ
  capacity : ℕ
  speed : ℚ
  /-- The orders the optimizers may move. -/
  ordersInVehicle : Identifiers ℕ
  /-- The orders that fit in the vehicle. -/
  feasibleOrders : Identifiers ℕ
  orders : Orders
  /-- The order identifiers of the solution given by the user. -/
  stops : List ℤ
deriving DecidableEq, Inhabited

/-! ### Evaluation of a path -/

section Evaluate
variable (M : Matrix) (cap : ℕ) (speed : ℚ)

/-- Evaluation of the stops behind `pred`. -/
def evaluateAfter (pred : VehicleNode) : List VehicleNode → List VehicleNode
  | [] => []
  | n :: ns => n.evaluate M pred cap speed :: evaluateAfter (n.evaluate M pred cap speed) ns

/-- The loop of `evaluate(from)` behind the stop `pred`. -/
def evaluateBehind (pred : VehicleNode) : ℕ → List VehicleNode → List VehicleNode
  | _, [] => []
  | 0, n :: ns => evaluateAfter M cap speed pred (n :: ns)
  | k + 1, n :: ns => n :: evaluateBehind n k ns

/-- `evaluate(from)` on a path: the stops from position `k` on are evaluated. -/
def evaluatePath : ℕ → List VehicleNode → List VehicleNode
  | _, [] => []
  | 0, n :: ns => n.evaluateStart cap :: evaluateAfter M cap speed (n.evaluateStart cap) ns
  | k + 1, n :: ns => n :: evaluateBehind M cap speed n k ns

end Evaluate

namespace Vehicle

variable (M : Matrix) (v : Vehicle)

def size : ℕ := v.path.length

/-- `at(pos)`. -/
def stop (pos : ℕ) : VehicleNode := v.path.getD pos default

def front : VehicleNode := v.stop 0

def back : VehicleNode := v.path.getLastD default

def isPhony : Bool := decide (v.id < 0)

def isReal : Bool := !v.isPhony

/-- No stops besides the starting and the ending site. -/
def empty : Bool := decide (v.size ≤ 2)

def twvTot : ℕ := v.back.twvTot

def cvTot : ℕ := v.back.cvTot

def hasTwv : Bool := decide (v.twvTot > v.userTwv)

def hasCv : Bool := decide (v.cvTot > v.userCv)

def isFeasible : Bool := !(v.hasTwv || v.hasCv)

def isOk : Bool :=
  decide (v.front.opens ≤ v.front.closes) && decide (v.back.opens ≤ v.back.closes) &&
    decide (v.capacity > 0)

def totalTravelTime : ℤ := if v.isPhony then 0 else v.back.totTravelTime

def totalWaitTime : ℤ := if v.isPhony then 0 else v.back.totWaitTime

def totalServiceTime : ℤ := if v.isPhony then 0 else v.back.totServiceTime

def duration : ℤ := if v.isPhony then 0 else v.back.arrivalTime - v.front.departureTime

/-- The objective function of a vehicle, a `double` with an integer value. -/
def objective : ℤ := if v.isPhony then 0 else v.totalTravelTime

/-- The key of the path in the memory of the tabu search. -/
def pathStr : String :=
  v.path.foldl (fun key s =>
    (if s.toTwNode = v.front.toTwNode then key else key ++ ",") ++
      (if s.isStart || s.isEnd then s.typeStr else s.typeStr ++ toString s.order)) ""

/-- The order identifiers of the stops, nothing for a phony vehicle. -/
def getStops : List ℤ :=
  if v.isPhony then [] else (v.path.filter fun s => !(s.isStart || s.isEnd)).map fun s => s.order

def getPostgresResult (vid : ℤ) : List SolutionRt :=
  v.path.mapIdx fun i s => s.getPostgresResult vid v.id (i + 1)

/-! ### Edits of the path -/

def evaluate (k : ℕ) : Vehicle := { v with path := evaluatePath M v.capacity v.speed k v.path }

def insertNode (pos : ℕ) (node : VehicleNode) : Vehicle :=
  { v with path := v.path.insertIdx pos node }

def eraseNode (pos : ℕ) : Vehicle := { v with path := v.path.eraseIdx pos }

def insert (pos : ℕ) (node : VehicleNode) : Vehicle := (v.insertNode pos node).evaluate M pos

def eraseAt (pos : ℕ) : Vehicle := (v.eraseNode pos).evaluate M pos

/-- Deletes the first stop that is the node, if there is one. -/
def eraseStop (node : VehicleNode) : Vehicle :=
  match v.path.findIdx? fun s => decide (node.idx = s.idx) with
  | some pos => v.eraseAt M pos
  | none => v

/-- `push_back(node)`. -/
def pushBackStop (node : VehicleNode) : Vehicle :=
  let v1 := v.insertNode (v.size - 1) node
  v1.evaluate M (v1.size - 2)

/-- `push_front(node)`. -/
def pushFrontStop (node : VehicleNode) : Vehicle := (v.insertNode 1 node).evaluate M 0

/-- `Vehicle::pop_back`. -/
def popBackStop : Vehicle :=
  let v1 := v.eraseNode (v.size - 2)
  v1.evaluate M (v1.size - 1)

/-- `Vehicle::pop_front`. -/
def popFrontStop : Vehicle := (v.eraseNode 1).evaluate M 0

def swap (i j : ℕ) : Vehicle :=
  { v with path := (v.path.set i (v.stop j)).set j (v.stop i) }.evaluate M (if i < j then i else j)

/-! ### Limits of the positions -/

/-- The loop of `getPosLowLimit` from position `low_limit` downwards. -/
def posLowLimitLoop (nodeI : TwNode) : ℕ → ℕ
  | 0 => 0
  | k + 1 =>
    if (v.stop k).isCompatibleIJ M nodeI 1 then posLowLimitLoop nodeI k else k + 1

/-- The lowest position for the node; the travel times are those of speed 1. -/
def getPosLowLimit (nodeI : TwNode) : ℕ := v.posLowLimitLoop M nodeI v.size

/-- The loop of `getDropPosLowLimit`. -/
def dropPosLowLimitLoop (nodeI : TwNode) : ℕ → ℕ
  | 0 => 0
  | k + 1 =>
    if (v.stop k).isCompatibleIJ M nodeI v.speed && !(v.stop k).isPickup then
      dropPosLowLimitLoop nodeI k
    else k + 1

def getDropPosLowLimit (nodeI : TwNode) : ℕ := v.dropPosLowLimitLoop M nodeI v.size

/-- The highest position for the node: the length of the stops after which it can be reached. -/
def getPosHighLimit (nodeJ : TwNode) : ℕ :=
  (v.path.takeWhile fun I => nodeJ.isCompatibleIJ M I.toTwNode v.speed).length

def positionLimits (node : TwNode) : ℕ × ℕ := (v.getPosLowLimit M node, v.getPosHighLimit M node)

def dropPositionLimits (node : TwNode) : ℕ × ℕ :=
  (v.getDropPosLowLimit M node, v.getPosHighLimit M node)

/-- The constructor of `Vehicle_pickDeliver`. -/
def construct (idx : ℕ) (id : ℤ) (startingSite endingSite : VehicleNode) (stops : List ℤ)
    (capacity : ℕ) (speed : ℚ) (orders : Orders) : Vehicle :=
  { idx := idx
    id := id
    path := evaluatePath M capacity speed 0 [startingSite, endingSite]
    userTwv := 0
    userCv := 0
    capacity := capacity
    speed := speed
    ordersInVehicle := .empty
    feasibleOrders := .empty
    orders := orders
    stops := stops }

end Vehicle

end VrpRouting
