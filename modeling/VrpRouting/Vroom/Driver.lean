import VrpRouting.Driver.PickDeliver
import VrpRouting.Lib.Doubles
import VrpRouting.Vroom.Problem

/-! # The driver of the VROOM functions

`vrp_do_vroom` fetches the data, checks and scales the speed factors, and solves the problem. The
queries may be missing. The speed factors are doubles, so the bound of the check is a rounded product
and a scaled factor comes from a rounded quotient. What the driver writes to the log is left out; the
time that the data input takes is an argument. -/

namespace VrpRouting.Vroom

open VrpRouting.Driver (Reply caught)

/-- The function that is used. -/
inductive FnUsed
  | vroom | vroomJobs | vroomShipments
deriving DecidableEq

structure Queries where
  jobs : Query
  jobsTws : Query
  shipments : Query
  shipmentsTws : Query
  vehicles : Query
  breaks : Query
  breaksTws : Query
  matrix : Option (List Tuple)
deriving DecidableEq

structure Parameters where
  explorationLevel : ℤ
  timeout : ℤ
  fnUsed : FnUsed
  useTimestamps : Bool
deriving DecidableEq

/-- The data behind the data input. -/
structure Data where
  jobs : List VroomJobT
  jobsTw : MapTW
  shipments : List VroomShipmentT
  shipmentsTw : MapTW
  vehicles : List VroomVehicleT
  breaks : List VroomBreakT
  breaksTw : MapTW
  costs : List VroomMatrixT
deriving DecidableEq

namespace Data

variable (d : Data)

/-- `location_ids`. -/
def locationIds : Identifiers ℤ :=
  let ofJobs : Identifiers ℤ := d.jobs.foldl (fun ids j => ids.insert j.locationId) .empty
  let ofShipments := d.shipments.foldl
    (fun ids s => (ids.insert s.pLocationId).insert s.dLocationId) ofJobs
  d.vehicles.foldl (fun ids v =>
    let ids := if v.startId ≠ -1 then ids.insert v.startId else ids
    if v.endId ≠ -1 then ids.insert v.endId else ids) ofShipments

/-- `vehicles[0].speed_factor`. -/
def firstSpeedFactor : ℚ := d.vehicles.head?.elim 0 VroomVehicleT.speedFactor

def minSpeedFactor : ℚ := d.vehicles.foldl (fun m v => min m v.speedFactor) d.firstSpeedFactor

def maxSpeedFactor : ℚ := d.vehicles.foldl (fun m v => max m v.speedFactor) d.firstSpeedFactor

variable (R : Doubles)

/-- The speed factors are positive, so `std::round` is `round`. -/
def scaledSpeedFactor (v : VroomVehicleT) : ℤ := round (R.round (v.speedFactor / d.minSpeedFactor))

def scaledVehicles : List VroomVehicleT :=
  d.vehicles.map fun v => { v with speedFactor := d.scaledSpeedFactor R v }

end Data

section Driver
variable (R : Doubles) (D : DurationCast) (maxIndex : ℕ) (solver : Solver) (showDouble : ℚ → String)
  (toUtc : ℤ → ℤ) (loadingTime : ℤ)

/-- The problem of the data. -/
def Data.problem (d : Data) (matrix : Matrix) : Except Fault Problem := do
  let problem ← (Problem.addMatrix matrix).addVehicles maxIndex (d.scaledVehicles R) d.breaks d.breaksTw
  let problem ← problem.addJobs maxIndex d.jobs d.jobsTw
  problem.addShipments maxIndex d.shipments d.shipmentsTw

/-- The part of `vrp_do_vroom` behind the test of the speed factors. -/
def solveScaled (d : Data) (args : Parameters) : Except Fault (Reply VroomRt) := do
  let matrix ← Matrix.construct D d.minSpeedFactor d.costs d.locationIds
  if matrix.ids.size > maxIndex then return .err "The size of time matrix exceeds the limit"
  else
    let problem ← d.problem R maxIndex matrix
    let results ← problem.solve solver args.explorationLevel args.timeout loadingTime
    if results.length = 0 then return .notice "No results found" else return .tuples results

/-- `vrp_do_vroom` behind the data input. -/
def process (d : Data) (args : Parameters) : Except Fault (Reply VroomRt) :=
  if d.maxSpeedFactor > R.round (5 * d.minSpeedFactor) then
    .ok (.err ("The speed_factor " ++ showDouble d.maxSpeedFactor ++
      " is more than five times the speed factor " ++ showDouble d.minSpeedFactor))
  else solveScaled R D maxIndex solver loadingTime d args

/-- The message when neither jobs nor shipments are found. -/
def noTasks (q : Queries) : FnUsed → String
  | .vroom =>
    if q.shipments.isNone || q.jobs.isNone then "Jobs SQL and/or Shipments SQL query are NULL"
    else "Insufficient data found on Jobs SQL and/or Shipments SQL query."
  | .vroomJobs =>
    if q.jobs.isSome then "Insufficient data found on Jobs SQL query." else "Jobs SQL query not found"
  | .vroomShipments =>
    if q.shipments.isSome then "Insufficient data found on Shipments SQL query."
    else "Jobs SQL query not found"

/-- The data input: the data, or the message when some are missing. -/
def fetchData (q : Queries) (args : Parameters) : Except Fault (String ⊕ Data) := do
  let jobs ← getJobs toUtc args.useTimestamps q.jobs
  let shipments ← getShipments toUtc args.useTimestamps q.shipments
  if jobs.isEmpty && shipments.isEmpty then return .inl (noTasks q args.fnUsed)
  else
    let jobsTw ← getTimewindows toUtc args.useTimestamps false q.jobsTws
    let shipmentsTw ← getTimewindows toUtc args.useTimestamps true q.shipmentsTws
    let vehicles ← getVehicles toUtc args.useTimestamps q.vehicles
    if vehicles.length = 0 then return .inl "Insufficient data found on Vehicles SQL query."
    else
      let breaks ← getBreaks toUtc args.useTimestamps q.breaks
      let breaksTw ← getTimewindows toUtc args.useTimestamps false q.breaksTws
      let costs ← getMatrix toUtc args.useTimestamps (q.matrix.getD [])
      if costs.length = 0 then return .inl "Insufficient data found on Matrix SQL query."
      else return .inr ⟨jobs, jobsTw, shipments, shipmentsTw, vehicles, breaks, breaksTw, costs⟩

/-- The message when a query that must not be NULL is. -/
def nullQuery (q : Queries) (fnUsed : FnUsed) : Option String :=
  if q.jobs.isNone && q.shipments.isNone then
    match fnUsed with
    | .vroom => some "Both Jobs SQL and Shipments NULL must not be NULL"
    | .vroomJobs => some "Jobs SQL must not be NULL"
    | .vroomShipments => some "Shipments SQL must not be NULL"
  else if q.vehicles.isNone then some "Vehicles SQL must not be NULL"
  else if q.matrix.isNone then some "Matrix SQL must not be NULL"
  else none

/-- `vrp_do_vroom`. -/
def vrpDoVroom (q : Queries) (args : Parameters) : Except Fault (Reply VroomRt) :=
  match nullQuery q args.fnUsed with
  | some text => .ok (.err text)
  | none => caught .err (do
    match ← fetchData toUtc q args with
    | .inl text => return .notice text
    | .inr data => process R D maxIndex solver showDouble loadingTime data args)

end Driver

end VrpRouting.Vroom
