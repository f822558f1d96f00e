import VrpRouting.Common.Input
import VrpRouting.Problem.Matrix

/-! # Nodes

`TwNode` is a node with its time window, `VehicleNode` the same node as a stop of a route, with the
fields that `evaluate` computes. The class-wide matrix pointer of `Tw_node` is the argument `M`.

The fields of a stop are functions of the node itself and of its predecessor only (`evaluate`), and
evaluation changes nothing else of a node that is not a dump (`toTwNode_evaluate`). -/

namespace VrpRouting

inductive NodeType
  | kStart | kPickup | kDelivery | kDump | kLoad | kEnd
deriving DecidableEq, Repr, Inhabited

/-- The value of the enumerator. -/
def NodeType.toInt : NodeType → ℤ
  | kStart => 0
  | kPickup => 1
  | kDelivery => 2
  | kDump => 3
  | kLoad => 4
  | kEnd => 5

structure TwNode where
  idx : ℕ
  id : ℤ
  order : ℤ
  opens : ℤ
  closes : ℤ
  serviceTime : ℤ
  demand : ℤ
  type : NodeType
deriving DecidableEq, Repr, Inhabited

namespace TwNode

variable (M : Matrix) (n I : TwNode)

/-- The node of an order. -/
def ofOrder (idx : ℕ) (data : OrdersT) (type : NodeType) : TwNode :=
  if type = .kDelivery then
    ⟨idx, data.deliverNodeId, data.id, data.deliverOpenT, data.deliverCloseT,
      data.deliverServiceT, -data.demand, type⟩
  else
    ⟨idx, data.pickNodeId, data.id, data.pickOpenT, data.pickCloseT, data.pickServiceT,
      data.demand, type⟩

/-- The starting or ending site of a vehicle. -/
def ofVehicle (idx : ℕ) (data : VehicleT) (type : NodeType) : TwNode :=
  if type = .kEnd then
    ⟨idx, data.endNodeId, 0, data.endOpenT, data.endCloseT, data.endServiceT, 0, type⟩
  else
    ⟨idx, data.startNodeId, 0, data.startOpenT, data.startCloseT, data.startServiceT, 0, type⟩

def isLateArrival (arrivalTime : ℤ) : Bool := decide (arrivalTime > n.closes)

def isEarlyArrival (arrivalTime : ℤ) : Bool := decide (arrivalTime < n.opens)

def isStart : Bool :=
  decide (n.type = .kStart ∧ n.opens < n.closes ∧ 0 ≤ n.serviceTime ∧ n.demand = 0)

def isPickup : Bool :=
  decide (n.type = .kPickup ∧ n.opens < n.closes ∧ 0 ≤ n.serviceTime ∧ 0 < n.demand)

def isDelivery : Bool :=
  decide (n.type = .kDelivery ∧ n.opens < n.closes ∧ 0 ≤ n.serviceTime ∧ n.demand < 0)

def isDump : Bool :=
  decide (n.type = .kDump ∧ n.opens < n.closes ∧ 0 ≤ n.serviceTime ∧ n.demand ≤ 0)

def isLoad : Bool :=
  decide (n.type = .kLoad ∧ n.opens < n.closes ∧ 0 ≤ n.serviceTime ∧ 0 ≤ n.demand)

def isEnd : Bool :=
  decide (n.type = .kEnd ∧ n.opens < n.closes ∧ 0 ≤ n.serviceTime ∧ n.demand = 0)

def isValid : Bool :=
  match n.type with
  | .kStart => n.isStart
  | .kPickup => n.isPickup
  | .kDelivery => n.isDelivery
  | .kDump => n.isDump
  | .kLoad => n.isLoad
  | .kEnd => n.isEnd

def typeStr : String :=
  match n.type with
  | .kStart => "S"
  | .kEnd => "E"
  | .kDump => "D"
  | .kLoad => "L"
  | .kPickup => "P"
  | .kDelivery => "D"

/-- `travel_time_to`: the time of the matrix divided by the speed. -/
def travelTimeToBy (A : Arithmetic) (other : TwNode) (time : ℤ) (speed : ℚ) : ℤ :=
  A.divide (M.travelTimeBy A n.id other.id time) speed

def travelTimeTo (other : TwNode) (time : ℤ) (speed : ℚ) : ℤ :=
  toInterval (M.travelTime n.id other.id time / speed)

@[simp] theorem travelTimeToBy_exact (other : TwNode) (time : ℤ) (speed : ℚ) :
    n.travelTimeToBy M .exact other time speed = n.travelTimeTo M other time speed := rfl

/-- The arrival at `n` when `I` is left after service at its opening time. -/
def arrivalJOpensI (speed : ℚ) : ℤ :=
  if n.type = .kStart then infinity
  else I.opens + I.serviceTime + I.travelTimeTo M n (I.opens + I.serviceTime) speed

/-- `n` can be reached in time after `I`. -/
def isCompatibleIJ (speed : ℚ) : Bool :=
  if n.type = .kStart then false
  else if I.type = .kEnd then false
  else !n.isLateArrival (n.arrivalJOpensI M I speed)

end TwNode

structure VehicleNode extends TwNode where
  travelTime : ℤ
  arrivalTime : ℤ
  waitTime : ℤ
  departureTime : ℤ
  /-- Departure time minus the departure time of the predecessor. -/
  deltaTime : ℤ
  cargo : ℤ
  twvTot : ℕ
  cvTot : ℕ
  totWaitTime : ℤ
  totTravelTime : ℤ
  totServiceTime : ℤ
deriving DecidableEq, Repr, Inhabited

/-- A row of the result for the database. -/
structure SolutionRt where
  vehicleSeq : ℤ
  vehicleId : ℤ
  stopSeq : ℤ
  orderId : ℤ
  stopId : ℤ
  stopType : ℤ
  cargo : ℤ
  travelTime : ℤ
  arrivalTime : ℤ
  waitDuration : ℤ
  operationTime : ℤ
  serviceDuration : ℤ
  departureTime : ℤ
  cvTot : ℤ
  twvTot : ℤ
deriving DecidableEq, Repr, Inhabited

namespace VehicleNode

variable (M : Matrix) (n : VehicleNode)

/-- A stop that no vehicle serves yet. -/
def ofTwNode (t : TwNode) : VehicleNode := ⟨t, 0, 0, 0, 0, 0, 0, 0, 0, 0, 0, 0⟩

def hasTwv : Bool := n.isLateArrival n.arrivalTime

def hasCv (cargoLimit : ℕ) : Bool :=
  if n.isEnd || n.isStart then decide (n.cargo ≠ 0)
  else decide (n.cargo > cargoLimit ∨ n.cargo < 0)

/-- `evaluate` of the starting site. -/
def evaluateStartBy (A : Arithmetic) (cargoLimit : ℕ) : VehicleNode :=
  let e : VehicleNode := { n with
    travelTime := 0
    arrivalTime := n.opens
    waitTime := 0
    departureTime := A.add n.opens n.serviceTime
    totTravelTime := 0
    totWaitTime := 0
    totServiceTime := n.serviceTime
    cargo := n.demand
    twvTot := 0
    cvTot := 0
    deltaTime := 0 }
  { e with cvTot := if e.hasCv cargoLimit then 1 else 0 }

def evaluateStart (cargoLimit : ℕ) : VehicleNode := n.evaluateStartBy .exact cargoLimit

/-- The demand that `evaluate` works with: a dump empties the vehicle. -/
def demandAfter (pred : VehicleNode) : ℤ :=
  if n.isDump && decide (pred.cargo ≥ 0) then -pred.cargo else n.demand

/-- `evaluate` of a stop behind `pred`. -/
def evaluateBy (A : Arithmetic) (pred : VehicleNode) (cargoLimit : ℕ) (speed : ℚ) : VehicleNode :=
  let travel := pred.travelTimeToBy M A n.toTwNode pred.departureTime speed
  let arrival := A.add pred.departureTime travel
  let wait := if n.isEarlyArrival arrival then A.sub n.opens arrival else 0
  let departure := A.add (A.add arrival wait) n.serviceTime
  let demand := n.demandAfter pred
  let e : VehicleNode := { n with
    demand := demand
    travelTime := travel
    arrivalTime := arrival
    waitTime := wait
    departureTime := departure
    totTravelTime := A.add pred.totTravelTime travel
    totWaitTime := A.add pred.totWaitTime wait
    totServiceTime := A.add pred.totServiceTime n.serviceTime
    cargo := A.add pred.cargo demand
    twvTot := 0
    cvTot := 0
    deltaTime := A.sub departure pred.departureTime }
  { e with
    twvTot := if e.hasTwv then pred.twvTot + 1 else pred.twvTot
    cvTot := if e.hasCv cargoLimit then pred.cvTot + 1 else pred.cvTot }

def evaluate (pred : VehicleNode) (cargoLimit : ℕ) (speed : ℚ) : VehicleNode :=
  n.evaluateBy M .exact pred cargoLimit speed

def getPostgresResult (vid : ℤ) (vId : ℤ) (stopSeq : ℤ) : SolutionRt where
  vehicleSeq := vid
  vehicleId := vId
  stopSeq := stopSeq
  orderId := if n.type = .kStart ∨ n.type = .kEnd then -1 else n.order
  stopId := n.id
  stopType := n.type.toInt
  cargo := n.cargo
  travelTime := n.travelTime
  arrivalTime := n.arrivalTime
  waitDuration := n.waitTime
  operationTime := n.arrivalTime + n.waitTime
  serviceDuration := n.serviceTime
  departureTime := n.departureTime
  cvTot := n.cvTot
  twvTot := n.twvTot

/-! ### The times of a stop -/

section Times
variable (pred : VehicleNode) (cap : ℕ) (speed : ℚ)

theorem arrivalTime_evaluate : (n.evaluate M pred cap speed).arrivalTime =
    pred.departureTime + pred.travelTimeTo M n.toTwNode pred.departureTime speed := rfl

/-- The wait is that for the opening. -/
theorem waitTime_evaluate : (n.evaluate M pred cap speed).waitTime =
    max (n.evaluate M pred cap speed).arrivalTime n.opens -
      (n.evaluate M pred cap speed).arrivalTime := by
  have hwait : (n.evaluate M pred cap speed).waitTime =
      if n.isEarlyArrival (n.evaluate M pred cap speed).arrivalTime then
        n.opens - (n.evaluate M pred cap speed).arrivalTime
      else 0 := rfl
  rw [hwait]
  unfold TwNode.isEarlyArrival
  split_ifs with h
  · rw [max_eq_right (of_decide_eq_true h).le]
  · have hle : n.opens ≤ (n.evaluate M pred cap speed).arrivalTime :=
      not_lt.mp fun hlt => h (decide_eq_true hlt)
    rw [max_eq_left hle, sub_self]

theorem departureTime_evaluate : (n.evaluate M pred cap speed).departureTime =
    max (n.evaluate M pred cap speed).arrivalTime n.opens + n.serviceTime := by
  have hdeparture : (n.evaluate M pred cap speed).departureTime =
      (n.evaluate M pred cap speed).arrivalTime + (n.evaluate M pred cap speed).waitTime +
        n.serviceTime := rfl
  rw [hdeparture, waitTime_evaluate]
  omega

end Times

theorem toTwNode_ofTwNode (t : TwNode) : (ofTwNode t).toTwNode = t := rfl

@[simp] theorem toTwNode_evaluateStart (cap : ℕ) :
    (n.evaluateStart cap).toTwNode = n.toTwNode := rfl

theorem toTwNode_evaluate (pred : VehicleNode) (cap : ℕ) (speed : ℚ)
    (h : n.type ≠ .kDump) : (n.evaluate M pred cap speed).toTwNode = n.toTwNode := by
  have hd : n.isDump = false := by simp [TwNode.isDump, h]
  simp [evaluate, evaluateBy, demandAfter, hd]

/-- Evaluation reads the node only, not what an earlier evaluation left in its fields. -/
theorem evaluate_congr {n n' : VehicleNode} (h : n.toTwNode = n'.toTwNode) (pred : VehicleNode)
    (cap : ℕ) (speed : ℚ) : n.evaluate M pred cap speed = n'.evaluate M pred cap speed := by
  obtain ⟨t, _, _, _, _, _, _, _, _, _, _, _⟩ := n
  obtain ⟨t', _, _, _, _, _, _, _, _, _, _, _⟩ := n'
  cases h
  rfl

theorem evaluateStart_congr {n n' : VehicleNode} (h : n.toTwNode = n'.toTwNode) (cap : ℕ) :
    n.evaluateStart cap = n'.evaluateStart cap := by
  obtain ⟨t, _, _, _, _, _, _, _, _, _, _, _⟩ := n
  obtain ⟨t', _, _, _, _, _, _, _, _, _, _, _⟩ := n'
  cases h
  rfl

end VehicleNode

end VrpRouting
