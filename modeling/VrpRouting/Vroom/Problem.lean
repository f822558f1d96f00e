import VrpRouting.Vroom.Input

/-! # The VROOM problem

`problem::Vroom` gives the rows to the VROOM library and makes rows of its answer. The library is not
part of the repository: `Input` holds the arguments that its constructors are called with, `Solution`
the fields of an answer that are read, and the solver is an argument. `maxIndex` is the largest value
of its type of indices; its durations have 32 bits. Checks for interrupts are left out. -/

namespace VrpRouting.Vroom

/-! ### What the library is given -/

inductive JobType
  | single | pickup | delivery
deriving DecidableEq

/-- The arguments that all calls of the constructors of `::vroom::Job` have. -/
structure Task where
  id : ℕ
  /-- An index of the matrices. -/
  location : ℕ
  setup : UInt32
  service : UInt32
  skills : Identifiers ℕ
  priority : UInt32
  tws : List TimeWindow
  description : String
deriving DecidableEq

/-- A single job. -/
structure Job extends Task where
  delivery : List ℤ
  pickup : List ℤ
deriving DecidableEq

/-- The pickup or the delivery of a shipment. -/
structure ShipmentJob extends Task where
  jobType : JobType
  amount : List ℤ
deriving DecidableEq

structure Break where
  id : ℕ
  tws : List TimeWindow
  service : UInt32
  description : String
deriving DecidableEq

structure Vehicle where
  id : ℕ
  startId : Option ℕ
  endId : Option ℕ
  capacity : List ℤ
  skills : Identifiers ℕ
  tw : TimeWindow
  breaks : List Break
  description : String
  speedFactor : ℚ
  maxTasks : ℕ
deriving DecidableEq

/-- `::vroom::Input`, when it is solved. -/
structure Input where
  amountSize : ℕ
  vehicles : List Vehicle
  jobs : List Job
  shipments : List (ShipmentJob × ShipmentJob)
  durations : List (List UInt32)
  costs : List (List UInt32)
deriving DecidableEq

/-! ### What it answers -/

inductive StepType
  | start | job | break_ | end_
deriving DecidableEq

structure Step where
  stepType : StepType
  /-- For a job only. -/
  jobType : JobType
  id : ℕ
  location : ℕ
  description : String
  arrival : UInt32
  duration : UInt32
  setup : UInt32
  service : UInt32
  waitingTime : UInt32
  load : List ℤ
deriving DecidableEq

/-- The totals of a route, and of a solution. -/
structure Totals where
  duration : UInt32
  setup : UInt32
  service : UInt32
  waitingTime : UInt32
deriving DecidableEq

structure Route extends Totals where
  vehicle : ℕ
  description : String
  steps : List Step
deriving DecidableEq

structure UnassignedJob where
  type : JobType
  id : ℕ
  location : ℕ
  description : String
deriving DecidableEq

structure Solution where
  routes : List Route
  unassigned : List UnassignedJob
  summary : Totals
deriving DecidableEq

/-- The arguments of `solve` of the library: the exploration level, the number of threads, and the
timeout in milliseconds, if there is one. -/
structure SolveArgs where
  explorationLevel : ℤ
  threads : ℕ
  timeout : Option ℤ
deriving DecidableEq

abbrev Solver := Input → SolveArgs → Except Fault Solution

/-! ### The problem -/

/-- `problem::Vroom`. -/
structure Problem where
  jobs : List Job
  shipments : List (ShipmentJob × ShipmentJob)
  vehicles : List Vehicle
  matrix : Matrix
deriving DecidableEq

/-- The windows of a task; the default window when it has none. -/
def windows (tws : MapTW) (id : ℕ) (kind : Char) : List TimeWindow :=
  (tws.lookup (id, kind)).getD [.whole]

namespace Problem

/-- `add_matrix`, which comes first. -/
def addMatrix (matrix : Matrix) : Problem := ⟨[], [], [], matrix⟩

variable (maxIndex : ℕ) (p : Problem)

/-- The cast of an index of the matrix to the type of the library. -/
def index (id : ℤ) : Except Fault ℕ :=
  match p.matrix.getIndex id with
  | some i => .ok (i % (maxIndex + 1))
  | none => thrown "(INTERNAL) Matrix: Unable to find node on matrix"

/-- The size of the amounts: that of the first capacity. -/
def amountSize : ℕ := p.vehicles.head?.elim 0 fun v => v.capacity.length

/-- The amount of the size, which is zero. -/
def defaultAmount : List ℤ := List.replicate p.amountSize 0

/-- An array of the query, or the default when it is empty. -/
def amountOr (amount : List ℤ) : List ℤ := if amount.isEmpty then p.defaultAmount else amount

def jobOf (tws : MapTW) (job : VroomJobT) : Except Fault Job := do
  let locationId ← p.index maxIndex job.locationId
  return { id := job.id, location := locationId, setup := job.setup, service := job.service,
           skills := job.skills, priority := job.priority, tws := windows tws job.id ' ',
           description := job.data, delivery := p.amountOr job.delivery,
           pickup := p.amountOr job.pickup }

/-- `add_jobs`. -/
def addJobs (jobs : List VroomJobT) (tws : MapTW) : Except Fault Problem := do
  let added ← jobs.mapM (p.jobOf maxIndex tws)
  return { p with jobs := p.jobs ++ added }

def shipmentOf (tws : MapTW) (shipment : VroomShipmentT) :
    Except Fault (ShipmentJob × ShipmentJob) := do
  let pLocationId ← p.index maxIndex shipment.pLocationId
  let dLocationId ← p.index maxIndex shipment.dLocationId
  return ({ id := shipment.id, location := pLocationId, setup := shipment.pSetup,
            service := shipment.pService, skills := shipment.skills, priority := shipment.priority,
            tws := windows tws shipment.id 'p', description := shipment.pData, jobType := .pickup,
            amount := shipment.amount },
          { id := shipment.id, location := dLocationId, setup := shipment.dSetup,
            service := shipment.dService, skills := shipment.skills, priority := shipment.priority,
            tws := windows tws shipment.id 'd', description := shipment.dData, jobType := .delivery,
            amount := shipment.amount })

/-- `add_shipments`. -/
def addShipments (shipments : List VroomShipmentT) (tws : MapTW) : Except Fault Problem := do
  let added ← shipments.mapM (p.shipmentOf maxIndex tws)
  return { p with shipments := p.shipments ++ added }

/-- The index of an end of a vehicle, when there is one. -/
def endIndex (id : ℤ) : Except Fault (Option ℕ) :=
  if id = -1 then .ok none else some <$> p.index maxIndex id

def breakOf (tws : MapTW) (b : VroomBreakT) : Break := ⟨b.id, windows tws b.id ' ', b.service, b.data⟩

/-- The breaks of the vehicles, by the identifier of the vehicle. -/
def breaksMap (breaks : List VroomBreakT) : List (ℕ × List VroomBreakT) :=
  Grouping.collect VroomBreakT.vehicleId id breaks

def vehicleOf (breaks : List VroomBreakT) (tws : MapTW) (vehicle : VroomVehicleT) :
    Except Fault Vehicle := do
  let vehicleBreaks := ((breaksMap breaks).lookup vehicle.id).getD []
  let startId ← p.endIndex maxIndex vehicle.startId
  let endId ← p.endIndex maxIndex vehicle.endId
  return { id := vehicle.id, startId := startId, endId := endId,
           capacity := p.amountOr vehicle.capacity, skills := vehicle.skills, tw := vehicle.tw,
           breaks := vehicleBreaks.map (breakOf tws), description := vehicle.data,
           speedFactor := vehicle.speedFactor, maxTasks := vehicle.maxTasks.toNat }

/-- `add_vehicles`; the default capacity is that of the vehicles before. -/
def addVehicles (vehicles : List VroomVehicleT) (breaks : List VroomBreakT) (tws : MapTW) :
    Except Fault Problem := do
  let added ← vehicles.mapM (p.vehicleOf maxIndex breaks tws)
  return { p with vehicles := p.vehicles ++ added }

/-- The problem that `solve` gives to the library. -/
def toInput : Input where
  amountSize := p.amountSize
  vehicles := p.vehicles
  jobs := p.jobs
  shipments := p.shipments
  durations := p.matrix.dmatrix
  costs := p.matrix.cmatrix

end Problem

/-! ### The rows of an answer -/

/-- `Vroom_rt`; its `load_size` is the length of `load`. -/
structure VroomRt where
  vehicleSeq : ℕ
  vehicleId : ℕ
  vehicleData : String
  stepSeq : ℕ
  stepType : ℕ
  taskId : ℕ
  locationId : ℤ
  taskData : String
  arrivalTime : UInt32
  travelTime : UInt32
  setupTime : UInt32
  serviceTime : UInt32
  waitingTime : UInt32
  departureTime : UInt32
  load : List ℤ
deriving DecidableEq

/-- `static_cast<Idx>(-1)`. -/
def noIdx : ℕ := 18446744073709551615

def emptyDesc : String := "\x7b\x7d"

/-- `get_job_step_type`. -/
def JobType.stepType : JobType → ℕ
  | single => 2
  | pickup => 3
  | delivery => 4

/-- `get_step_type`. -/
def Step.type (step : Step) : ℕ :=
  match step.stepType with
  | .start => 1
  | .end_ => 6
  | .break_ => 5
  | .job => step.jobType.stepType

namespace Matrix

variable (m : Matrix)

/-- `get_original_id` of an index of the answer. -/
def location (index : ℕ) : Except Fault ℤ :=
  (m.getOriginalId index).elim (thrown "(INTERNAL) Matrix: The given index is out of range") .ok

/-- The row of a step. -/
def stepRow (vehicleSeq : ℕ) (route : Route) (stepSeq : ℕ) (prevDuration : UInt32) (step : Step) :
    Except Fault VroomRt := do
  let locationId ← m.location step.location
  let isEnd := step.type = 1 ∨ step.type = 6
  return { vehicleSeq := vehicleSeq, vehicleId := route.vehicle, vehicleData := route.description,
           stepSeq := stepSeq, stepType := step.type,
           taskId := if isEnd then noIdx else step.id, locationId := locationId,
           taskData := if isEnd then emptyDesc else step.description, arrivalTime := step.arrival,
           travelTime := step.duration - prevDuration, setupTime := step.setup,
           serviceTime := step.service, waitingTime := step.waitingTime,
           departureTime := step.arrival + step.setup + step.service + step.waitingTime,
           load := step.load }

/-- The loop over the steps of a route. -/
def stepRows (vehicleSeq : ℕ) (route : Route) : ℕ → UInt32 → List Step → Except Fault (List VroomRt)
  | _, _, [] => .ok []
  | stepSeq, prevDuration, step :: steps => do
    let row ← m.stepRow vehicleSeq route stepSeq prevDuration step
    let rows ← stepRows vehicleSeq route (stepSeq + 1) step.duration steps
    return row :: rows

end Matrix

/-- The summary of a route, and that of the problem, whose sequence is 0. -/
def summaryRow (vehicleSeq vehicleId : ℕ) (vehicleData : String) (totals : Totals) : VroomRt where
  vehicleSeq := vehicleSeq
  vehicleId := vehicleId
  vehicleData := vehicleData
  stepSeq := 0
  stepType := 0
  taskId := 0
  locationId := 0
  taskData := emptyDesc
  arrivalTime := 0
  travelTime := totals.duration
  setupTime := totals.setup
  serviceTime := totals.service
  waitingTime := totals.waitingTime
  departureTime := 0
  load := []

namespace Matrix

variable (m : Matrix)

/-- The loop over the routes. -/
def routeRows : ℕ → List Route → Except Fault (List VroomRt)
  | _, [] => .ok []
  | vehicleSeq, route :: routes => do
    let rows ← m.stepRows vehicleSeq route 1 0 route.steps
    let rest ← routeRows (vehicleSeq + 1) routes
    return rows ++ summaryRow vehicleSeq route.vehicle route.description route.toTotals :: rest

/-- The loop over the unassigned jobs. -/
def unassignedRows (vehicleSeq : ℕ) : ℕ → List UnassignedJob → Except Fault (List VroomRt)
  | _, [] => .ok []
  | stepSeq, job :: jobs => do
    let locationId ← m.location job.location
    let rest ← unassignedRows vehicleSeq (stepSeq + 1) jobs
    return { vehicleSeq := vehicleSeq, vehicleId := noIdx, vehicleData := emptyDesc,
             stepSeq := stepSeq, stepType := job.type.stepType, taskId := job.id,
             locationId := locationId, taskData := job.description, arrivalTime := 0,
             travelTime := 0, setupTime := 0, serviceTime := 0, waitingTime := 0,
             departureTime := 0, load := [] } :: rest

/-- `get_results`. -/
def getResults (solution : Solution) : Except Fault (List VroomRt) := do
  let routes ← m.routeRows 1 solution.routes
  let unassigned ← m.unassignedRows (solution.routes.length + 1) 1 solution.unassigned
  return routes ++ unassigned ++ [summaryRow 0 0 emptyDesc solution.summary]

end Matrix

/-- What is left of the timeout after the time to load, in milliseconds; none when it is negative. -/
def timeoutMs (timeout loadingTime : ℤ) : Option ℤ :=
  if timeout < 0 then none
  else some (if loadingTime ≤ timeout * 1000 then timeout * 1000 - loadingTime else 0)

/-- `solve`. -/
def Problem.solve (solver : Solver) (p : Problem) (explorationLevel timeout loadingTime : ℤ) :
    Except Fault (List VroomRt) := do
  let solution ← solver p.toInput ⟨explorationLevel, 4, timeoutMs timeout loadingTime⟩
  p.matrix.getResults solution

end VrpRouting.Vroom
