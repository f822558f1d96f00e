import Mathlib.Data.List.Destutter
import VrpRouting.InitialSol.Tabu
import VrpRouting.Optimizers.Tabu

/-! # The driver of `vrp_optimize`

One processing builds the problem, its initial solution and the optimized one. With subdivision
there is one processing for each time at which an order or a vehicle opens or closes, on the
vehicles that are active at that time; the stops it returns replace those of these vehicles.

The rows of the inner queries and the matrix are arguments here: fetching, the Euclidean variants
and the repair of the matrix are not part of this module. -/

open Sorting

namespace VrpRouting.Driver

open Initialsol.Tabu Optimizers.Tabu

variable (S : Sorter) (M : Matrix)

/-- Executes an optimization with the input data. -/
def oneProcessing (orders : List OrdersT) (vehicles : List VehicleT) (newStops : List ShortVehicle)
    (maxCycles : ℕ) (executionDate : ℤ) : Except Fault (List ShortVehicle) := do
  let problem ← PickDeliver.build S M orders vehicles newStops
  let sol ← InitialSolution.construct M executionDate true problem
  return (Optimize.construct S M sol.toSolution maxCycles false true).toSolution.getStops

def processingTimesByOrder (orders : List OrdersT) : Identifiers ℤ :=
  orders.foldl (fun times o =>
    (((times.insert o.pickOpenT).insert o.pickCloseT).insert o.deliverOpenT).insert o.deliverCloseT)
    .empty

def processingTimesByVehicle (vehicles : List VehicleT) : Identifiers ℤ :=
  vehicles.foldl (fun times v =>
    (((times.insert v.startOpenT).insert v.startCloseT).insert v.endOpenT).insert v.endCloseT)
    .empty

def getInitialStops (vehicles : List VehicleT) : List ShortVehicle :=
  vehicles.map fun v => ⟨v.id, v.stops⟩

/-- The loop body of `update_stops`. The first entry with the identifier gets the new stops; the
result of the search is dereferenced also when there is none. -/
def updateStop (theStops : List ShortVehicle) (v : ShortVehicle) :
    Except Fault (List ShortVehicle) :=
  match theStops.findIdx? fun w => decide (w.id = v.id) with
  | some i => .ok (theStops.modify i fun w => { w with stops := v.stops })
  | none => .error .undefinedRead

def updateStops (theStops newValues : List ShortVehicle) : Except Fault (List ShortVehicle) :=
  newValues.foldlM updateStop theStops

/-- The stops of the vehicle in the history of stops, which has an entry for every vehicle. -/
def stopsOf (theStops : List ShortVehicle) (v : VehicleT) : List ℤ :=
  match theStops.find? fun w => decide (w.id = v.id) with
  | some w => w.stops
  | none => []

def isActive (t : ℤ) (v : VehicleT) : Bool := decide (v.startOpenT ≤ t ∧ t ≤ v.endCloseT)

/-- What the loop of `subdivide_processing` keeps. -/
structure Subdivision where
  theStops : List ShortVehicle
  prevOrdersInStops : Identifiers ℤ
deriving DecidableEq

section Subdivide
variable (orders : List OrdersT) (vehicles : List VehicleT) (maxCycles : ℕ) (executionDate : ℤ)

def activeVehicles (t : ℤ) : List VehicleT := vehicles.filter (isActive t)

/-- The orders on the stops of the active vehicles. -/
def ordersInStops (theStops : List ShortVehicle) (t : ℤ) : Identifiers ℤ :=
  (activeVehicles vehicles t).foldl (fun ids v => (stopsOf theStops v).foldl .insert ids) .empty

/-- The body of the loop over the processing times. -/
def subdivideStep (s : Subdivision) (t : ℤ) : Except Fault Subdivision :=
  let inStops := ordersInStops vehicles s.theStops t
  if inStops.isEmpty || s.prevOrdersInStops.same inStops then .ok s
  else do
    let activeOrders := orders.filter fun o => inStops.has o.id
    let newStops ← oneProcessing S M activeOrders (activeVehicles vehicles t) s.theStops maxCycles
      executionDate
    return ⟨← updateStops s.theStops newStops, inStops⟩

def processingTimes (subdivideByVehicle : Bool) : Identifiers ℤ :=
  if subdivideByVehicle then processingTimesByVehicle vehicles else processingTimesByOrder orders

def subdivideProcessing (subdivideByVehicle : Bool) : Except Fault (List ShortVehicle) := do
  let s ← (processingTimes orders vehicles subdivideByVehicle).ids.foldlM
    (subdivideStep S M orders vehicles maxCycles executionDate) ⟨getInitialStops vehicles, .empty⟩
  return s.theStops

end Subdivide

/-- What `vrp_do_optimize` hands back: a message, or rows with the announced number of them. -/
inductive Answer
  | notice (text : String)
  | err (text : String)
  | tuples (rows : List (ℤ × ℤ)) (count : ℕ)
deriving DecidableEq

/-- The vehicles to be optimized: one for each identifier, without those that close before the
execution date. -/
def vehiclesToOptimize (vehicles : List VehicleT) (executionDate : ℤ) : List VehicleT :=
  ((S.sort (fun lhs rhs => decide (lhs.id < rhs.id)) vehicles).destutter
    fun lhs rhs => lhs.id ≠ rhs.id).filter fun v => !decide (v.endCloseT < executionDate)

/-- The order identifiers on the stops of the vehicles. -/
def stopIds (vehicles : List VehicleT) : Identifiers ℤ :=
  vehicles.foldl (fun ids v => v.stops.foldl .insert ids) .empty

/-- The orders to be optimized: one for each identifier, without those on no stop. -/
def ordersToOptimize (orders : List OrdersT) (orderIds : Identifiers ℤ) : List OrdersT :=
  ((S.sort (fun lhs rhs => decide (lhs.id < rhs.id)) orders).destutter
    fun lhs rhs => lhs.id ≠ rhs.id).filter fun o => orderIds.has o.id

/-- The rows of the result. -/
def resultRows (solution : List ShortVehicle) : List (ℤ × ℤ) :=
  solution.flatMap fun row => row.stops.map fun oId => (row.id, oId)

/-- `vrp_do_optimize` behind the data input. -/
def vrpDoOptimize (orders : List OrdersT) (vehicles : List VehicleT) (factor : ℚ) (maxCycles : ℤ)
    (executionDate : ℤ) (subdivisionKind : ℤ) : Except Fault Answer :=
  if subdivisionKind < 0 ∨ subdivisionKind > 2 then
    .ok (.notice "Illegal value in parameter: subdivision_kind")
  else if maxCycles < 0 then .ok (.err "Illegal value in parameter: max_cycles")
  else if factor ≤ 0 then .ok (.err "Illegal value in parameter: factor")
  else if orders.length = 0 then .ok (.notice "Insufficient data found on 'orders' inner query")
  else if vehicles.length = 0 then .ok (.notice "Insufficient data found on 'vehicles' inner query")
  else
    let vehicles := vehiclesToOptimize S vehicles executionDate
    let orderIds := stopIds vehicles
    let orders := ordersToOptimize S orders orderIds
    let ordersFound : Identifiers ℤ := orders.foldl (fun ids o => ids.insert o.id) .empty
    if !(orderIds.diff ordersFound).isEmpty then .ok (.err "Missing orders for processing")
    else if !M.hasNoInfinity then .ok (.err "An Infinity value was found on the Matrix")
    else do
      let solution ←
        if subdivisionKind ≠ 0 then
          subdivideProcessing S M orders vehicles maxCycles.toNat executionDate
            (decide (subdivisionKind = 1))
        else oneProcessing S M orders vehicles [] maxCycles.toNat executionDate
      return .tuples (resultRows solution) (orders.length * 2)

end VrpRouting.Driver
