import VrpRouting.Lib.Grouping
import VrpRouting.Pgdata.Decoding
import VrpRouting.Pgdata.Fetchers
import VrpRouting.Vroom.Rows

/-! # The rows of the VROOM queries

`get_matrix`, `get_jobs`, `get_shipments`, `get_vehicles`, `get_breaks` and `get_timewindows`. Except for
the matrix, a row has two more types of columns than those of the other functions: characters and
JSONB. The texts of these columns stand beside the row.

A time window is tested before it is built, so it carries the order of its ends. The speed factor of a
vehicle is tested as well (`getVehicles_pos`). -/

namespace VrpRouting.Vroom

/-! ### Values -/

/-- `::vroom::TimeWindow`: that of the default constructor, or one with its two ends. -/
inductive TimeWindow
  | whole
  | between (start stop : UInt32) (ordered : start ≤ stop)
deriving DecidableEq

structure VroomBreakT where
  id : ℕ
  vehicleId : ℕ
  service : UInt32
  data : String
deriving DecidableEq

structure VroomTimeWindowT where
  id : ℕ
  kind : Char
  tw : TimeWindow
deriving DecidableEq

structure VroomJobT where
  id : ℕ
  locationId : ℤ
  setup : UInt32
  service : UInt32
  pickup : List ℤ
  delivery : List ℤ
  skills : Identifiers ℕ
  priority : UInt32
  data : String
deriving DecidableEq

structure VroomShipmentT where
  id : ℕ
  pLocationId : ℤ
  pSetup : UInt32
  pService : UInt32
  dLocationId : ℤ
  dSetup : UInt32
  dService : UInt32
  amount : List ℤ
  skills : Identifiers ℕ
  priority : UInt32
  pData : String
  dData : String
deriving DecidableEq

structure VroomVehicleT where
  id : ℕ
  /-- −1 when the vehicle has no start. -/
  startId : ℤ
  /-- −1 when the vehicle has no end. -/
  endId : ℤ
  capacity : List ℤ
  skills : Identifiers ℕ
  tw : TimeWindow
  speedFactor : ℚ
  maxTasks : ℤ
  data : String
deriving DecidableEq

/-- A row, with the texts of its columns of characters and of JSONB that are not NULL. -/
structure Row where
  tuple : Tuple
  texts : List (String × String)
deriving DecidableEq

namespace Row

variable (row : Row) (info : Info)

/-- `get_char`. -/
def getChar (optValue : Char) : Except Fault Char :=
  match row.tuple.column info with
  | some .bpchar =>
    match row.texts.lookup info.name with
    | some text => text.toList.head?.elim (.error .undefinedRead) .ok
    | none =>
      if info.strict then thrown ("Unexpected Null value in column " ++ info.name) else .ok optValue
  | _ => thrown ("Unexpected type in column type of " ++ info.name ++ ". Expected CHAR")

/-- `get_jsonb`, which makes a string of a null pointer when the value is NULL. -/
def getJsonb : Except Fault String :=
  match row.tuple.column info with
  | none => .ok "\x7b\x7d"
  | some _ => (row.texts.lookup info.name).elim (.error .undefinedRead) .ok

/-- An element of the array in `pgarray_to_unordered_set`. -/
def setElement : Option ℤ → Except Fault ℕ
  | none => thrown "NULL value found in Array!"
  | some data =>
    if data < 0 ∨ data > maxPAmount then thrown "Illegal value found on array" else .ok data.toNat

def pgarrayToUnorderedSet (elements : List (Option ℤ)) : Except Fault (Identifiers ℕ) :=
  (fun data => data.foldl Identifiers.insert .empty) <$> elements.mapM setElement

/-- `get_uint_unordered_set`: no column is like a NULL array. -/
def getUintUnorderedSet : Except Fault (Identifiers ℕ) :=
  match row.tuple.column info with
  | none => .ok .empty
  | some (.int2Array value) => pgarrayToUnorderedSet ((value.getD []).map (Option.map Int16.toInt))
  | some (.int4Array value) => pgarrayToUnorderedSet ((value.getD []).map (Option.map Int32.toInt))
  | some (.int8Array value) => pgarrayToUnorderedSet ((value.getD []).map (Option.map Int64.toInt))
  | some _ => thrown "Expected array of ANY-INTEGER"

variable (toUtc : ℤ → ℤ)

/-- `get_value<Idx>`. -/
def getIdx : Except Fault ℕ := Int.toNat <$> row.tuple.getValue info toUtc .uint64 0

/-- `get_value` of a field of 32 bits. -/
def getUInt32 (optValue : ℤ) : Except Fault UInt32 :=
  (fun n => UInt32.ofNat n.toNat) <$> row.tuple.getValue info toUtc .uint32 optValue

/-- The two columns of a time window: the window, unless it closes before it opens. -/
def getWindow (twOpen twClose : Info) (optOpen optClose : ℤ) : Except Fault TimeWindow := do
  let start ← row.getUInt32 twOpen toUtc optOpen
  let stop ← row.getUInt32 twClose toUtc optClose
  if h : stop < start then
    thrown ("Invalid time window found: '" ++ twClose.name ++ "' < '" ++ twOpen.name ++ "'")
  else return .between start stop (UInt32.not_lt.mp h)

end Row

/-! ### The getters -/

/-- A query: `none` when there is none. -/
abbrev Query := Option (List Row)

/-- The rows of a query; the columns are checked once, before the first row. -/
def getData {α : Type} (info : List Info) (fetch : Row → Except Fault α) (query : Query) :
    Except Fault (List α) :=
  match query with
  | none | some [] => .ok []
  | some (row :: rows) => do
    row.tuple.fetchColumnInfo info
    (row :: rows).mapM fetch

section Getters
variable (toUtc : ℤ → ℤ) (useTimestamps : Bool)

def durationInfo : Info := Pgget.intervalInfo useTimestamps true "duration" "duration"

def costInfo : Info := ⟨false, "cost", .integer⟩

def matrixInfo : List Info :=
  [⟨true, "start_id", .matrixIndex⟩, ⟨true, "end_id", .matrixIndex⟩, durationInfo useTimestamps,
    costInfo]

def fetchMatrix (info : List Info) (tuple : Tuple) : Except Fault VroomMatrixT := do
  let col (i : ℕ) := info.getD i default
  let startId ← tuple.getValue (col 0) toUtc .int64 (-1)
  let endId ← tuple.getValue (col 1) toUtc .int64 (-1)
  let duration ← tuple.getValue (col 2) toUtc .uint32 0
  let cost ← tuple.getValue (col 3) toUtc .uint32 duration
  return ⟨startId, endId, UInt32.ofNat duration.toNat, UInt32.ofNat cost.toNat⟩

def getMatrix : List Tuple → Except Fault (List VroomMatrixT) :=
  Pgget.getData (matrixInfo useTimestamps) (fetchMatrix toUtc (matrixInfo useTimestamps))

/-- An interval column has one name. -/
def intervalInfo (name : String) : Info := Pgget.intervalInfo useTimestamps false name name

/-- So has a column of times. -/
def timeInfo (strict : Bool) (name : String) : Info := Pgget.timeInfo useTimestamps strict name name

def breaksInfo : List Info :=
  [⟨true, "id", .anyUint⟩, ⟨true, "vehicle_id", .anyUint⟩, intervalInfo useTimestamps "service",
    ⟨false, "data", .jsonb⟩]

def fetchBreaks (info : List Info) (row : Row) : Except Fault VroomBreakT := do
  let col (i : ℕ) := info.getD i default
  let id ← row.getIdx (col 0) toUtc
  let vehicleId ← row.getIdx (col 1) toUtc
  let service ← row.getUInt32 (col 2) toUtc 0
  let data ← row.getJsonb (col 3)
  return ⟨id, vehicleId, service, data⟩

def getBreaks : Query → Except Fault (List VroomBreakT) :=
  getData (breaksInfo useTimestamps) (fetchBreaks toUtc (breaksInfo useTimestamps))

def timewindowsInfo (isShipment : Bool) : List Info :=
  [⟨true, "id", .anyInteger⟩, timeInfo useTimestamps true "tw_open",
    timeInfo useTimestamps true "tw_close", ⟨isShipment, "kind", .char1⟩]

def fetchTimewindows (isShipment : Bool) (info : List Info) (row : Row) :
    Except Fault VroomTimeWindowT := do
  let col (i : ℕ) := info.getD i default
  let id ← row.getIdx (col 0) toUtc
  let kind ← if isShipment then row.getChar (col 3) ' ' else .ok ' '
  throwIf (isShipment = true ∧ kind ≠ 'p' ∧ kind ≠ 'd')
    ("Invalid kind '" ++ kind.toString ++ "', Expecting 'p' or 'd'")
  let tw ← row.getWindow toUtc (col 1) (col 2) 0 0
  return ⟨id, kind, tw⟩

/-- `MapTW`. -/
abbrev MapTW := List ((ℕ × Char) × List TimeWindow)

/-- The loop over the rows of the time windows. -/
def windowsMap (rows : List VroomTimeWindowT) : MapTW :=
  Grouping.collect (fun w => (w.id, w.kind)) VroomTimeWindowT.tw rows

def getTimewindows (isShipment : Bool) (query : Query) : Except Fault MapTW :=
  windowsMap <$>
    getData (timewindowsInfo useTimestamps isShipment)
      (fetchTimewindows toUtc isShipment (timewindowsInfo useTimestamps isShipment)) query

def jobsInfo : List Info :=
  [⟨true, "id", .anyUint⟩, ⟨true, "location_id", .matrixIndex⟩, intervalInfo useTimestamps "setup",
    intervalInfo useTimestamps "service", ⟨false, "delivery", .anyPositiveArray⟩,
    ⟨false, "pickup", .anyPositiveArray⟩, ⟨false, "skills", .anyUintArray⟩,
    ⟨false, "priority", .positiveInteger⟩, ⟨false, "data", .jsonb⟩]

/-- The test of a priority. -/
def checkPriority (info : Info) (priority : UInt32) : Except Fault Unit :=
  throwIf (100 < priority)
    ("Invalid value in column '" ++ info.name ++ "'. Maximum value allowed 100")

def fetchJobs (info : List Info) (row : Row) : Except Fault VroomJobT := do
  let col (i : ℕ) := info.getD i default
  let id ← row.getIdx (col 0) toUtc
  let locationId ← row.tuple.getValue (col 1) toUtc .int64 0
  let setup ← row.getUInt32 (col 2) toUtc 0
  let service ← row.getUInt32 (col 3) toUtc 0
  let pickup ← row.tuple.getArray (col 5)
  let delivery ← row.tuple.getArray (col 4)
  let skills ← row.getUintUnorderedSet (col 6)
  let priority ← row.getUInt32 (col 7) toUtc 0
  let data ← row.getJsonb (col 8)
  checkPriority (col 7) priority
  return ⟨id, locationId, setup, service, pickup, delivery, skills, priority, data⟩

def getJobs : Query → Except Fault (List VroomJobT) :=
  getData (jobsInfo useTimestamps) (fetchJobs toUtc (jobsInfo useTimestamps))

def shipmentsInfo : List Info :=
  [⟨true, "id", .anyUint⟩, ⟨true, "p_location_id", .matrixIndex⟩,
    intervalInfo useTimestamps "p_setup", intervalInfo useTimestamps "p_service",
    ⟨true, "d_location_id", .matrixIndex⟩, intervalInfo useTimestamps "d_setup",
    intervalInfo useTimestamps "d_service", ⟨false, "amount", .anyPositiveArray⟩,
    ⟨false, "skills", .anyUintArray⟩, ⟨false, "priority", .positiveInteger⟩,
    ⟨false, "p_data", .jsonb⟩, ⟨false, "d_data", .jsonb⟩]

def fetchShipments (info : List Info) (row : Row) : Except Fault VroomShipmentT := do
  let col (i : ℕ) := info.getD i default
  let id ← row.getIdx (col 0) toUtc
  let pLocationId ← row.tuple.getValue (col 1) toUtc .int64 0
  let dLocationId ← row.tuple.getValue (col 4) toUtc .int64 0
  let pSetup ← row.getUInt32 (col 2) toUtc 0
  let pService ← row.getUInt32 (col 3) toUtc 0
  let dSetup ← row.getUInt32 (col 5) toUtc 0
  let dService ← row.getUInt32 (col 6) toUtc 0
  let amount ← row.tuple.getArray (col 7)
  let skills ← row.getUintUnorderedSet (col 8)
  let priority ← row.getUInt32 (col 9) toUtc 0
  let pData ← row.getJsonb (col 10)
  let dData ← row.getJsonb (col 11)
  checkPriority (col 9) priority
  return ⟨id, pLocationId, pSetup, pService, dLocationId, dSetup, dService, amount, skills, priority,
    pData, dData⟩

def getShipments : Query → Except Fault (List VroomShipmentT) :=
  getData (shipmentsInfo useTimestamps) (fetchShipments toUtc (shipmentsInfo useTimestamps))

def vehiclesInfo : List Info :=
  [⟨true, "id", .anyUint⟩, ⟨false, "start_id", .matrixIndex⟩, ⟨false, "end_id", .matrixIndex⟩,
    ⟨false, "capacity", .anyPositiveArray⟩, ⟨false, "skills", .anyUintArray⟩,
    timeInfo useTimestamps false "tw_open", timeInfo useTimestamps false "tw_close",
    ⟨false, "speed_factor", .anyNumerical⟩, ⟨false, "max_tasks", .positiveInteger⟩,
    ⟨false, "data", .jsonb⟩]

def fetchVehicles (info : List Info) (row : Row) : Except Fault VroomVehicleT := do
  let col (i : ℕ) := info.getD i default
  let id ← row.getIdx (col 0) toUtc
  let startId ← row.tuple.getValue (col 1) toUtc .int64 (-1)
  let endId ← row.tuple.getValue (col 2) toUtc .int64 (-1)
  let capacity ← row.tuple.getArray (col 3)
  let skills ← row.getUintUnorderedSet (col 4)
  let tw ← row.getWindow toUtc (col 5) (col 6) 0 maxUInt32.toNat
  let speedFactor ← row.tuple.getAnynumerical (col 7) 1
  let maxTasks ← row.tuple.getValue (col 8) toUtc .int32 2147483647
  let data ← row.getJsonb (col 9)
  throwIf (!(row.tuple.columnFound (col 1) || row.tuple.columnFound (col 2)))
    ("Missing column(s): '" ++ (col 1).name ++ "' and/or '" ++ (col 2).name ++ "' must exist")
  throwIf (speedFactor ≤ 0) ("Invalid negative or zero value in column '" ++ (col 7).name ++ "'")
  return ⟨id, startId, endId, capacity, skills, tw, speedFactor, maxTasks, data⟩

def getVehicles : Query → Except Fault (List VroomVehicleT) :=
  getData (vehiclesInfo useTimestamps) (fetchVehicles toUtc (vehiclesInfo useTimestamps))

end Getters

/-! ### Speed factors -/

theorem exists_row {α : Type} {info : List Info} {fetch : Row → Except Fault α} {query : Query}
    {data : List α} (h : getData info fetch query = .ok data) :
    ∀ a ∈ data, ∃ row, fetch row = .ok a := by
  intro a ha
  match query with
  | none | some [] =>
    obtain rfl := Except.ok.inj h
    cases ha
  | some (row :: rows) =>
    obtain ⟨_, -, h⟩ := bind_eq_ok h
    obtain ⟨row', -, hrow⟩ := exists_of_mapM h a ha
    exact ⟨row', hrow⟩

/-- A fetched vehicle has a positive speed factor. -/
theorem getVehicles_pos {toUtc : ℤ → ℤ} {useTimestamps : Bool} {query : Query}
    {vehicles : List VroomVehicleT} (h : getVehicles toUtc useTimestamps query = .ok vehicles) :
    ∀ v ∈ vehicles, 0 < v.speedFactor := by
  intro v hv
  obtain ⟨row, hrow⟩ := exists_row h v hv
  unfold fetchVehicles at hrow
  obtain ⟨id, -, hrow⟩ := bind_eq_ok hrow
  obtain ⟨startId, -, hrow⟩ := bind_eq_ok hrow
  obtain ⟨endId, -, hrow⟩ := bind_eq_ok hrow
  obtain ⟨capacity, -, hrow⟩ := bind_eq_ok hrow
  obtain ⟨skills, -, hrow⟩ := bind_eq_ok hrow
  obtain ⟨tw, -, hrow⟩ := bind_eq_ok hrow
  obtain ⟨speedFactor, -, hrow⟩ := bind_eq_ok hrow
  obtain ⟨maxTasks, -, hrow⟩ := bind_eq_ok hrow
  obtain ⟨data, -, hrow⟩ := bind_eq_ok hrow
  obtain ⟨_, -, hrow⟩ := bind_eq_ok hrow
  obtain ⟨_, hpos, hrow⟩ := bind_eq_ok hrow
  obtain rfl := Except.ok.inj hrow
  exact not_le.mp (throwIf_eq_ok hpos)

end VrpRouting.Vroom
