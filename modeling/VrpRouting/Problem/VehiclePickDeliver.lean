import VrpRouting.Problem.Vehicle

/-! # Vehicles with pickups and deliveries

The operations of `Vehicle_pickDeliver` on whole orders: `pushBack`, `pushFront`, `eraseOrder`, the
two insertion heuristics `hillClimb` and `semiLIFO`, and the processing of the stops given by the
user. The loops of the source run over positions; here they recurse on the number of passes left. -/

namespace VrpRouting

/-- The best positions that `hillClimb` has found so far. -/
structure BestPositions where
  pickPos : ℕ
  deliverPos : ℕ
  /-- The least change of the objective, `none` for the largest `double`. -/
  minDeltaObjective : Option ℤ
  found : Bool
deriving DecidableEq, Repr

/-- The positions `(pick, deliver)` with the change `delta` are kept when they are better. -/
def BestPositions.improve (b : BestPositions) (delta : ℤ) (pick deliver : ℕ) : BestPositions :=
  if b.minDeltaObjective.all (delta < ·) then ⟨pick, deliver, some delta, true⟩ else b

/-- The sets that `Vehicle_pickDeliver::set_initial_solution` updates. -/
structure Assignment where
  assigned : Identifiers ℕ
  unassigned : Identifiers ℕ
deriving DecidableEq

namespace Vehicle

variable (M : Matrix) (v : Vehicle)

def hasOrder (order : Order) : Bool := v.ordersInVehicle.has order.idx

def pushBack (order : Order) : Vehicle :=
  let v1 := { v with ordersInVehicle := v.ordersInVehicle.insert order.idx }
  let v2 := v1.insertNode (v1.size - 1) order.pickup
  let v3 := v2.insertNode (v2.size - 1) order.delivery
  v3.evaluate M (v3.size - 3)

def pushFront (order : Order) : Vehicle :=
  let v1 := { v with ordersInVehicle := v.ordersInVehicle.insert order.idx }
  ((v1.insertNode 1 order.delivery).insertNode 1 order.pickup).evaluate M 0

def eraseOrder (order : Order) : Vehicle :=
  let v1 := (v.eraseStop M order.pickup).eraseStop M order.delivery
  { v1 with ordersInVehicle := v1.ordersInVehicle.erase order.idx }

/-- The order of the first pickup among the stops is taken off. Without a pickup the source reads
behind the last stop; when no order has the pickup it returns 0. -/
def popFrom (stops : List VehicleNode) : Except Fault (Vehicle × ℕ) :=
  match stops.find? fun s => s.isPickup with
  | none => .error .undefinedRead
  | some s =>
    match v.orders.find? fun o => decide (o.pickup.idx = s.idx) with
    | some o => .ok (v.eraseOrder M o, o.idx)
    | none => .ok (v, 0)

/-- `pop_back`: the order that is picked up last. -/
def popBack : Except Fault (Vehicle × ℕ) := v.popFrom M v.path.reverse

/-- `pop_front`: the order that is picked up first. -/
def popFront : Except Fault (Vehicle × ℕ) := v.popFrom M v.path

/-- `get_first_order`: the index of the node at the first stop is read as the index of an order. -/
def getFirstOrder : Except Fault Order :=
  match v.orders[(v.stop 1).idx]? with
  | some o => .ok o
  | none => .error .undefinedRead

/-- The order alone on the vehicle, which is empty. -/
def isOrderFeasible (order : Order) : Bool := (v.pushBack M order).isFeasible

/-! ### `hillClimb` -/

/-- The inner loop: the delivery moves towards the end, the best positions are recorded. -/
def climbDeliver (currentObjective : ℤ) (pick : ℕ) :
    ℕ → ℕ → BestPositions → Vehicle → ℕ × BestPositions × Vehicle
  | 0, pos, best, v => (pos, best, v)
  | passes + 1, pos, best, v =>
    let best := if v.isFeasible then best.improve (v.objective - currentObjective) pick pos else best
    if (v.stop (pos + 1)).isEnd then (pos, best, v)
    else climbDeliver currentObjective pick passes (pos + 1) best (v.swap M pos (pos + 1))

/-- The outer loop: the pickup moves towards the end. -/
def climbPick (currentObjective : ℤ) (order : Order) (deliverPos : ℕ × ℕ) :
    ℕ → ℕ → BestPositions → Vehicle → ℕ × BestPositions × Vehicle
  | 0, pick, best, v => (pick, best, v)
  | passes + 1, pick, best, v =>
    let first := if deliverPos.1 ≤ pick then pick + 1 else deliverPos.1
    let r := climbDeliver M currentObjective pick (deliverPos.2 + 1 - first) first best
      (v.insert M first order.delivery)
    let v1 := r.2.2.eraseNode r.1
    if (v1.stop (pick + 1)).isEnd then (pick, r.2.1, v1)
    else climbPick currentObjective order deliverPos passes (pick + 1) r.2.1
      (v1.swap M pick (pick + 1))

/-- Inserts the order at the best feasible positions, if there are any. -/
def hillClimb (order : Order) : Bool × Vehicle :=
  let pickPos := v.positionLimits M order.pickup.toTwNode
  let deliverPos := v.positionLimits M order.delivery.toTwNode
  if pickPos.2 < pickPos.1 then (false, v)
  else if deliverPos.2 < deliverPos.1 then (false, v)
  else
    let r := climbPick M v.objective order (deliverPos.1 + 1, deliverPos.2 + 1)
      (pickPos.2 + 1 - pickPos.1) pickPos.1 ⟨v.size, v.size + 1, none, false⟩
      (v.insert M pickPos.1 order.pickup)
    let v1 := r.2.2.eraseAt M r.1
    if !r.2.1.found then (false, v1)
    else
      let v2 := (v1.insert M r.2.1.pickPos order.pickup).insert M r.2.1.deliverPos order.delivery
      (true, { v2 with ordersInVehicle := v2.ordersInVehicle.insert order.idx })

/-! ### `semiLIFO` -/

/-- The loop: the delivery is tried from its highest position downwards. -/
def lifoDeliver (order : Order) : ℕ → ℕ → Vehicle → Bool × Vehicle
  | 0, _, v => (false, v.eraseAt M 1)
  | passes + 1, pos, v =>
    let w := v.insert M pos order.delivery
    if w.isFeasible && !(w.stop (pos + 1)).isPickup then
      (true, { w with ordersInVehicle := w.ordersInVehicle.insert order.idx })
    else lifoDeliver order passes (pos - 1) (w.eraseAt M pos)

/-- Picks the order up first and delivers it as late as possible. -/
def semiLIFO (order : Order) : Bool × Vehicle :=
  let v1 := v.insert M 1 order.pickup
  let deliverPos := v1.dropPositionLimits M order.delivery.toTwNode
  if deliverPos.2 < deliverPos.1 then (false, v1.eraseAt M 1)
  else lifoDeliver M order (deliverPos.2 + 1 - deliverPos.1) deliverPos.2 v1

/-! ### The solution given by the user -/

/-- The orders on the path whose pickup opens before the execution date. -/
def unmovable (executionDate : ℤ) : Identifiers ℕ :=
  v.ordersInVehicle.filter fun o =>
    v.path.any fun s =>
      decide (s.order = (v.orders.get o).id) && s.isPickup && decide (s.opens < executionDate)

def setUnmovable (executionDate : ℤ) : Vehicle :=
  { v with ordersInVehicle := v.ordersInVehicle.diff (v.unmovable executionDate) }

/-- The local state of the loop over the stops. -/
structure StopsLoop where
  vehicle : Vehicle
  sets : Assignment
  pickedOrders : Identifiers ℕ
  i : ℕ

/-- Every stop names an order. The search for the order of a stop is dereferenced without a test, so
a vehicle with an unknown stop has no defined behaviour (`InitialSolution.construct`). -/
def stopsKnown (orders : Orders) : Bool := v.stops.all fun oId => orders.any fun o => o.id = oId

/-- One stop: the first visit of an order picks it up, the second delivers it. -/
def StopsLoop.step (orders : Orders) (s : StopsLoop) (oId : ℤ) : StopsLoop :=
  match orders.find? fun o => decide (o.id = oId) with
  | none => s
  | some order =>
    if s.pickedOrders.has order.idx then
      let v1 := s.vehicle.insert M (s.i + 1) order.delivery
      { vehicle := { v1 with ordersInVehicle := v1.ordersInVehicle.insert order.idx }
        sets := ⟨s.sets.assigned.insert order.idx, s.sets.unassigned.erase order.idx⟩
        pickedOrders := s.pickedOrders.erase order.idx
        i := s.i + 1 }
    else
      { vehicle := s.vehicle.insert M (s.i + 1) order.pickup
        sets := s.sets
        pickedOrders := s.pickedOrders.insert order.idx
        i := s.i + 1 }

/-- The vehicle with the user's stops on its path, and the sets after it. -/
def processStops (orders : Orders) (sets : Assignment) : Vehicle × Assignment :=
  let s := v.stops.foldl (StopsLoop.step M orders) ⟨v, sets, .empty, 0⟩
  (s.vehicle.evaluate M 0, s.sets)

/-- Removal of a movable order of an infeasible vehicle. -/
def removeMovable (s : Vehicle × Assignment) (o : ℕ) : Vehicle × Assignment :=
  let v1 := s.1.eraseOrder M (s.1.orders.get o)
  ({ v1 with ordersInVehicle := v1.ordersInVehicle.erase o },
    ⟨s.2.assigned.erase o, s.2.unassigned.insert o⟩)

def setInitialSolution (orders : Orders) (sets : Assignment) (executionDate : ℤ)
    (optimize : Bool) : Vehicle × Assignment :=
  if v.stops = [] then (v, sets)
  else
    let s := v.processStops M orders sets
    let v1 := s.1.setUnmovable executionDate
    if v1.isFeasible then (v1, s.2)
    else
      let r := if optimize then v1.ordersInVehicle.ids.foldl (removeMovable M) (v1, s.2) else (v1, s.2)
      ({ r.1 with userTwv := r.1.twvTot, userCv := r.1.cvTot }, r.2)

end Vehicle

end VrpRouting
