import VrpRouting.Vroom.Speeds
import VrpRouting.Vroom.Tasks

/-! # From the VROOM queries to the rows

What the driver does with data that pass its tests (`vrpDoVroom_solves`): the library solves the
problem of the queries, and the rows are those of its answer. When the library answers with every task
of its input once, in a route or unassigned, the rows report every task of the queries once, with the
location and the text of the queries (`vrpDoVroom_reports`). Vehicles with very different speeds are
refused, the others are scaled (`vrpDoVroom_speeds`). -/

namespace VrpRouting.Vroom

open VrpRouting.Driver (Reply caught caught_eq_ok)

/-! ### The data -/

/-- What the queries deliver. -/
structure Fetches (toUtc : ℤ → ℤ) (q : Queries) (args : Parameters) (d : Data) (w : Windows) :
    Prop where
  jobs : getJobs toUtc args.useTimestamps q.jobs = .ok d.jobs
  jobsTws : getData (timewindowsInfo args.useTimestamps false)
    (fetchTimewindows toUtc false (timewindowsInfo args.useTimestamps false)) q.jobsTws = .ok w.jobs
  shipments : getShipments toUtc args.useTimestamps q.shipments = .ok d.shipments
  shipmentsTws : getData (timewindowsInfo args.useTimestamps true)
    (fetchTimewindows toUtc true (timewindowsInfo args.useTimestamps true)) q.shipmentsTws =
      .ok w.shipments
  vehicles : getVehicles toUtc args.useTimestamps q.vehicles = .ok d.vehicles
  hasVehicles : d.vehicles ≠ []
  breaks : getBreaks toUtc args.useTimestamps q.breaks = .ok d.breaks
  breaksTws : getData (timewindowsInfo args.useTimestamps false)
    (fetchTimewindows toUtc false (timewindowsInfo args.useTimestamps false)) q.breaksTws =
      .ok w.breaks
  costs : getMatrix toUtc args.useTimestamps (q.matrix.getD []) = .ok d.costs
  holds : d.Holds w

theorem fetchData_fetches {toUtc : ℤ → ℤ} {q : Queries} {args : Parameters} {d : Data}
    (h : fetchData toUtc q args = .ok (.inr d)) : ∃ w, Fetches toUtc q args d w := by
  unfold fetchData at h
  obtain ⟨jobs, hj, h⟩ := bind_eq_ok h
  obtain ⟨shipments, hs, h⟩ := bind_eq_ok h
  split_ifs at h
  · cases Except.ok.inj h
  obtain ⟨jobsTw, hjt, h⟩ := bind_eq_ok h
  obtain ⟨shipmentsTw, hst, h⟩ := bind_eq_ok h
  obtain ⟨vehicles, hv, h⟩ := bind_eq_ok h
  split_ifs at h with hne
  · cases Except.ok.inj h
  obtain ⟨breaks, hb, h⟩ := bind_eq_ok h
  obtain ⟨breaksTw, hbt, h⟩ := bind_eq_ok h
  obtain ⟨costs, hc, h⟩ := bind_eq_ok h
  split_ifs at h
  · cases Except.ok.inj h
  obtain rfl := Sum.inr.inj (Except.ok.inj h)
  obtain ⟨w₁, hw₁, rfl⟩ := map_eq_ok hjt
  obtain ⟨w₂, hw₂, rfl⟩ := map_eq_ok hst
  obtain ⟨w₃, hw₃, rfl⟩ := map_eq_ok hbt
  exact ⟨⟨w₁, w₂, w₃⟩, hj, hw₁, hs, hw₂, hv, fun hnil => hne (List.length_eq_zero_iff.mpr hnil), hb, hw₃, hc,
    rfl, rfl, rfl⟩

theorem construct_ids {D : DurationCast} {scalingFactor : ℚ} {rows : List VroomMatrixT}
    {ids : Identifiers ℤ} {m : Matrix} (h : Matrix.construct D scalingFactor rows ids = .ok m) :
    m.ids = ids := by
  unfold Matrix.construct at h
  dsimp only at h
  split_ifs at h
  obtain rfl := Except.ok.inj h
  rfl

/-! ### The driver -/

section Driver
variable {R : Doubles} {D : DurationCast} {maxIndex : ℕ} {solver : Solver} {showDouble : ℚ → String}
  {toUtc : ℤ → ℤ} {loadingTime : ℤ} {q : Queries} {args : Parameters} {d : Data} {w : Windows}
  {m : Matrix}

/-- The arguments of the solver. -/
def Parameters.solveArgs (args : Parameters) (loadingTime : ℤ) : SolveArgs :=
  ⟨args.explorationLevel, 4, timeoutMs args.timeout loadingTime⟩

/-- An answer has rows: at least the summary of the problem. -/
theorem getResults_ne_nil {solution : Solution} {rows : List VroomRt}
    (h : m.getResults solution = .ok rows) : rows.length ≠ 0 := by
  unfold Matrix.getResults at h
  obtain ⟨routes, -, h⟩ := bind_eq_ok h
  obtain ⟨unassigned, -, h⟩ := bind_eq_ok h
  obtain rfl := Except.ok.inj h
  rw [List.length_append, List.length_singleton]
  exact Nat.succ_ne_zero _

variable (R solver showDouble loadingTime args) in
/-- Data that pass the tests are solved. -/
theorem process_solves (hw : d.Holds w) (hspeed : d.maxSpeedFactor ≤ R.round (5 * d.minSpeedFactor))
    (hm : Matrix.construct D d.minSpeedFactor d.costs d.locationIds = .ok m)
    (hsize : m.ids.size ≤ maxIndex) : ∃ input, Given R m d w input ∧
      process R D maxIndex solver showDouble loadingTime d args =
        Reply.tuples <$> (solver input (args.solveArgs loadingTime) >>= m.getResults) := by
  obtain ⟨p, hp, rfl, hgiven⟩ := Data.problem_given R hw (construct_ids hm) hsize
  refine ⟨p.toInput, hgiven, ?_⟩
  unfold process solveScaled
  rw [if_neg (not_lt.mpr hspeed), hm]
  show (if p.matrix.ids.size > maxIndex then _ else _) = _
  rw [if_neg (Nat.not_lt.mpr hsize), hp]
  have hsolve : p.solve solver args.explorationLevel args.timeout loadingTime =
      solver p.toInput (args.solveArgs loadingTime) >>= p.matrix.getResults := rfl
  show (p.solve solver args.explorationLevel args.timeout loadingTime >>= fun results =>
    if results.length = 0 then .ok (Reply.notice "No results found")
    else .ok (Reply.tuples results)) = _
  rw [← hsolve]
  cases hresults : p.solve solver args.explorationLevel args.timeout loadingTime with
  | error e => rfl
  | ok results =>
    rw [hsolve] at hresults
    obtain ⟨solution, -, hresults⟩ := bind_eq_ok hresults
    exact if_neg (getResults_ne_nil hresults)

variable (R solver showDouble loadingTime) in
/-- **The driver solves the problem of the queries** when they pass its tests, and its reply is the
answer of the library. -/
theorem vrpDoVroom_solves (hq : nullQuery q args.fnUsed = none)
    (hd : fetchData toUtc q args = .ok (.inr d))
    (hspeed : d.maxSpeedFactor ≤ R.round (5 * d.minSpeedFactor))
    (hm : Matrix.construct D d.minSpeedFactor d.costs d.locationIds = .ok m)
    (hsize : m.ids.size ≤ maxIndex) : ∃ w input, Fetches toUtc q args d w ∧ Given R m d w input ∧
      vrpDoVroom R D maxIndex solver showDouble toUtc loadingTime q args =
        caught .err
          (Reply.tuples <$> (solver input (args.solveArgs loadingTime) >>= m.getResults)) := by
  obtain ⟨w, hw⟩ := fetchData_fetches hd
  obtain ⟨input, hgiven, hprocess⟩ :=
    process_solves R solver showDouble loadingTime args hw.holds hspeed hm hsize
  refine ⟨w, input, hw, hgiven, ?_⟩
  unfold vrpDoVroom
  rw [hq, hd, ← hprocess]
  rfl

/-- A reply with rows comes from an answer of the library. -/
theorem vrpDoVroom_eq_tuples {rows : List VroomRt}
    (h : vrpDoVroom R D maxIndex solver showDouble toUtc loadingTime q args = .ok (.tuples rows)) :
    ∃ d w m input solution, Fetches toUtc q args d w ∧
      d.maxSpeedFactor ≤ R.round (5 * d.minSpeedFactor) ∧
      Matrix.construct D d.minSpeedFactor d.costs d.locationIds = .ok m ∧ Given R m d w input ∧
      solver input (args.solveArgs loadingTime) = .ok solution ∧ m.getResults solution = .ok rows := by
  unfold vrpDoVroom at h
  split at h
  · cases Except.ok.inj h
  have h := caught_eq_ok h (by simp)
  obtain ⟨r, hd, h⟩ := bind_eq_ok h
  cases r with
  | inl text => cases Except.ok.inj h
  | inr d =>
    dsimp only at h
    have hprocess := h
    -- the tests that the data have passed
    unfold process solveScaled at h
    split_ifs at h with hspeed
    · cases Except.ok.inj h
    obtain ⟨m, hm, h⟩ := bind_eq_ok h
    split_ifs at h with hsize
    · cases Except.ok.inj h
    obtain ⟨w, hw⟩ := fetchData_fetches hd
    obtain ⟨input, hgiven, heq⟩ := process_solves R solver showDouble loadingTime args hw.holds
      (not_lt.mp hspeed) hm (Nat.not_lt.mp hsize)
    rw [heq] at hprocess
    obtain ⟨rows', hrows, htuples⟩ := map_eq_ok hprocess
    obtain rfl := Reply.tuples.inj htuples
    obtain ⟨solution, hsolution, hresults⟩ := bind_eq_ok hrows
    exact ⟨d, w, m, input, solution, hw, not_lt.mp hspeed, hm, hgiven, hsolution, hresults⟩

variable (hsolver : ∀ input a solution, solver input a = .ok solution →
  solution.tasks.Perm input.tasks)
include hsolver

/-- **No task is lost, doubled or moved** between the queries and the rows, when the library answers
with every task of its input once. -/
theorem vrpDoVroom_reports {rows : List VroomRt}
    (h : vrpDoVroom R D maxIndex solver showDouble toUtc loadingTime q args = .ok (.tuples rows)) :
    ∃ d w, Fetches toUtc q args d w ∧ (rows.filterMap VroomRt.task).Perm d.tasks := by
  obtain ⟨d, w, m, input, solution, hw, -, -, hgiven, hsolution, hresults⟩ := vrpDoVroom_eq_tuples h
  refine ⟨d, w, hw, ?_⟩
  rw [getResults_tasks hresults, ← hgiven.tasks]
  exact (hsolver input _ solution hsolution).map m.record

omit hsolver

variable (R D maxIndex solver showDouble loadingTime) in
/-- **Vehicles of very different speeds are refused**; the others are scaled. -/
theorem vrpDoVroom_speeds (hq : nullQuery q args.fnUsed = none)
    (hd : fetchData toUtc q args = .ok (.inr d)) :
    (∃ u ∈ d.vehicles, ∃ v ∈ d.vehicles, R.round (5 * u.speedFactor) < v.speedFactor) ∧
        vrpDoVroom R D maxIndex solver showDouble toUtc loadingTime q args =
          .ok (.err ("The speed_factor " ++ showDouble d.maxSpeedFactor ++
            " is more than five times the speed factor " ++ showDouble d.minSpeedFactor)) ∨
      (∀ u ∈ d.vehicles, ∀ v ∈ d.vehicles, v.speedFactor ≤ R.round (5 * u.speedFactor)) ∧
        vrpDoVroom R D maxIndex solver showDouble toUtc loadingTime q args =
          caught .err (solveScaled R D maxIndex solver loadingTime d args) ∧
        ∀ v ∈ d.vehicles, Scales R d v := by
  obtain ⟨w, hw⟩ := fetchData_fetches hd
  have hreply : vrpDoVroom R D maxIndex solver showDouble toUtc loadingTime q args =
      caught .err (process R D maxIndex solver showDouble loadingTime d args) := by
    unfold vrpDoVroom
    rw [hq, hd]
    rfl
  rw [hreply]
  unfold process
  by_cases h : R.round (5 * d.minSpeedFactor) < d.maxSpeedFactor
  · rw [if_pos h]
    exact Or.inl ⟨(Data.lt_maxSpeedFactor_iff hw.hasVehicles R).mp h, rfl⟩
  · have hle : ∀ u ∈ d.vehicles, ∀ v ∈ d.vehicles, v.speedFactor ≤ R.round (5 * u.speedFactor) :=
      fun u hu v hv => not_lt.mp fun hlt =>
        h ((Data.lt_maxSpeedFactor_iff hw.hasVehicles R).mpr ⟨u, hu, v, hv, hlt⟩)
    rw [if_neg h]
    exact Or.inr ⟨hle, rfl, fun v hv => scales R hw.hasVehicles (getVehicles_pos hw.vehicles) hv hle⟩

end Driver

/-! ### A small problem -/

/-- Jobs at the location 2; the second one needs a skill. -/
def smallJobRows : List Row :=
  [⟨[("id", .int8 (some 5)), ("location_id", .int8 (some 2))], []⟩,
    ⟨[("id", .int8 (some 6)), ("location_id", .int8 (some 2)), ("skills", .int4Array (some [some 1]))],
      []⟩]

/-- A shipment from the location 2 to the location 3. -/
def smallShipmentRow : Row :=
  ⟨[("id", .int8 (some 9)), ("p_location_id", .int8 (some 2)), ("d_location_id", .int8 (some 3))], []⟩

/-- A vehicle that starts at the location 1. -/
def smallVehicleRow (id : Int64) (speedFactor : ℚ) : Row :=
  ⟨[("id", .int8 (some id)), ("start_id", .int8 (some 1)), ("speed_factor", .float8 (some speedFactor))],
    []⟩

def smallMatrixRow (startId endId : Int64) (duration : Int32) : Tuple :=
  [("start_id", .int8 (some startId)), ("end_id", .int8 (some endId)), ("duration", .int4 (some duration))]

def smallQueries (vehicles : List Row) : Queries where
  jobs := some smallJobRows
  jobsTws := none
  shipments := some [smallShipmentRow]
  shipmentsTws := none
  vehicles := some vehicles
  breaks := none
  breaksTws := none
  matrix := some [smallMatrixRow 1 2 7, smallMatrixRow 1 3 9, smallMatrixRow 2 3 4]

/-- The steps of the tasks, one after the other, without setup, service or waiting. -/
def smallSteps (durations : List (List UInt32)) : ℕ → UInt32 → List IndexedTask → List Step
  | _, _, [] => []
  | location, time, (type, id, next, text) :: tasks =>
    let time' := time + Table.cell 0 durations location next
    ⟨.job, type, id, next, text, time', time', 0, 0, 0, []⟩ :: smallSteps durations next time' tasks

/-- The tasks that need no skill, and the jobs that do. -/
def ableTasks (input : Input) : List IndexedTask :=
  (input.jobs.filter fun j => j.skills.ids.isEmpty).map (fun j => j.toTask.indexed .single) ++
    input.shipments.flatMap fun s => [s.1.toTask.indexed s.1.jobType, s.2.toTask.indexed s.2.jobType]

def skilledTasks (input : Input) : List IndexedTask :=
  (input.jobs.filter fun j => !j.skills.ids.isEmpty).map fun j => j.toTask.indexed .single

/-- A solver in which a single vehicle serves all tasks that need no skill, and several vehicles none. -/
def smallSolver : Solver := fun input _ =>
  let left (tasks : List IndexedTask) : List UnassignedJob :=
    tasks.map fun t => ⟨t.1, t.2.1, t.2.2.1, t.2.2.2⟩
  match input.vehicles with
  | [v] =>
    let depot := v.startId.getD 0
    let steps := smallSteps input.durations depot 0 (ableTasks input)
    let totals : Totals := ⟨steps.getLast?.elim 0 Step.duration, 0, 0, 0⟩
    .ok ⟨[⟨totals, v.id, v.description, ⟨.start, .single, 0, depot, "", 0, 0, 0, 0, 0, []⟩ :: steps⟩],
      left (skilledTasks input), totals⟩
  | _ => .ok ⟨[], left input.tasks, ⟨0, 0, 0, 0⟩⟩

theorem smallSteps_tasks (durations : List (List UInt32)) : ∀ (location : ℕ) (time : UInt32)
    (tasks : List IndexedTask), (smallSteps durations location time tasks).filterMap Step.task = tasks
  | _, _, [] => rfl
  | _, _, (_, _, next, _) :: tasks =>
    congrArg (List.cons _) (smallSteps_tasks durations next _ tasks)

theorem smallSolver_tasks (input : Input) (a : SolveArgs) (solution : Solution)
    (h : smallSolver input a = .ok solution) : solution.tasks.Perm input.tasks := by
  have hleft : ∀ tasks : List IndexedTask, (tasks.map fun t =>
      (⟨t.1, t.2.1, t.2.2.1, t.2.2.2⟩ : UnassignedJob)).map UnassignedJob.task = tasks := fun tasks => by
    rw [List.map_map]
    exact List.map_id tasks
  unfold smallSolver at h
  dsimp only at h
  split at h
  next v hv =>
    obtain rfl := Except.ok.inj h
    unfold Solution.tasks
    dsimp only
    rw [hleft, List.flatMap_singleton, List.filterMap_cons_none rfl, smallSteps_tasks]
    -- the jobs that need a skill come behind the shipments
    unfold ableTasks skilledTasks Input.tasks
    rw [List.append_assoc]
    refine (List.Perm.append_left _ List.perm_append_comm).trans ?_
    rw [← List.append_assoc, ← List.map_append]
    exact (List.Perm.map _ (List.filter_append_perm _ _)).append_right _
  · obtain rfl := Except.ok.inj h
    unfold Solution.tasks
    rw [List.flatMap_nil, List.nil_append, hleft]

def smallArgs : Parameters := ⟨5, -1, .vroom, false⟩

/-- The tasks of a reply with rows. -/
def repliedTasks : Reply VroomRt → Option (List TaskRecord)
  | .tuples rows => some (rows.filterMap VroomRt.task)
  | _ => none

theorem repliedTasks_eq_some {reply : Reply VroomRt} {tasks : List TaskRecord} :
    repliedTasks reply = some tasks → ∃ rows, reply = .tuples rows ∧ rows.filterMap VroomRt.task = tasks := by
  intro h
  cases reply with
  | tuples rows => exact ⟨rows, rfl, Option.some.inj h⟩
  | notice text => cases h
  | err text => cases h

/-- The job that needs a skill is left out, behind the shipment. -/
theorem vrpDoVroom_reports_small : ∃ rows d w,
    vrpDoVroom .nearest .wrap 65535 smallSolver (fun _ => "") (fun t => t) 0
      (smallQueries [smallVehicleRow 7 1]) smallArgs = .ok (.tuples rows) ∧
    rows.filterMap VroomRt.task =
      [(2, 5, 2, "{}"), (3, 9, 2, "{}"), (4, 9, 3, "{}"), (2, 6, 2, "{}")] ∧
    Fetches (fun t => t) (smallQueries [smallVehicleRow 7 1]) smallArgs d w ∧
    (rows.filterMap VroomRt.task).Perm d.tasks := by
  obtain ⟨reply, hreply, hrows⟩ := exists_ok_and (x := vrpDoVroom .nearest .wrap 65535 smallSolver
    (fun _ => "") (fun t => t) 0 (smallQueries [smallVehicleRow 7 1]) smallArgs)
    (fun reply => decide (repliedTasks reply = some [(2, 5, 2, "{}"), (3, 9, 2, "{}"),
      (4, 9, 3, "{}"), (2, 6, 2, "{}")])) (by decide +kernel)
  obtain ⟨rows, rfl, htasks⟩ := repliedTasks_eq_some (of_decide_eq_true hrows)
  obtain ⟨d, w, h⟩ := vrpDoVroom_reports smallSolver_tasks hreply
  exact ⟨rows, d, w, hreply, htasks, h⟩

/-- The data of the small problem. -/
def smallData (vehicles : List VroomVehicleT) : Data where
  jobs := [⟨5, 2, 0, 0, [], [], .empty, 0, "{}"⟩, ⟨6, 2, 0, 0, [], [], .insert .empty 1, 0, "{}"⟩]
  jobsTw := []
  shipments := [⟨9, 2, 0, 0, 3, 0, 0, [], .empty, 0, "{}", "{}"⟩]
  shipmentsTw := []
  vehicles := vehicles
  breaks := []
  breaksTw := []
  costs := [⟨1, 2, 7, 7⟩, ⟨1, 3, 9, 9⟩, ⟨2, 3, 4, 4⟩]

def smallVehicle (id : ℕ) (speedFactor : ℚ) : VroomVehicleT :=
  ⟨id, 1, -1, [], .empty, .between 0 4294967295 (by decide), speedFactor, 2147483647, "{}"⟩

/-- The durations are divided by the least speed factor. -/
theorem vrpDoVroom_solves_small : ∃ m w input,
    Matrix.construct .wrap 2 (smallData []).costs
      (smallData [smallVehicle 7 2, smallVehicle 8 3]).locationIds = .ok m ∧
    Given .nearest m (smallData [smallVehicle 7 2, smallVehicle 8 3]) w input ∧
    vrpDoVroom .nearest .wrap 65535 smallSolver (fun _ => "") (fun t => t) 0
        (smallQueries [smallVehicleRow 7 2, smallVehicleRow 8 3]) smallArgs =
      caught .err (Reply.tuples <$> (smallSolver input (smallArgs.solveArgs 0) >>= m.getResults)) := by
  obtain ⟨m, hm⟩ := exists_ok (x := Matrix.construct .wrap 2 (smallData []).costs
    (smallData [smallVehicle 7 2, smallVehicle 8 3]).locationIds) (by decide +kernel)
  have hsize : m.ids.size ≤ 65535 := by
    rw [construct_ids hm]
    decide +kernel
  have hd : fetchData (fun t => t) (smallQueries [smallVehicleRow 7 2, smallVehicleRow 8 3]) smallArgs =
      .ok (.inr (smallData [smallVehicle 7 2, smallVehicle 8 3])) := by decide +kernel
  obtain ⟨w, input, -, hgiven, hreply⟩ :=
    vrpDoVroom_solves .nearest smallSolver (fun _ => "") 0 rfl hd (by decide +kernel) hm hsize
  exact ⟨m, w, input, hm, hgiven, hreply⟩

/-- One vehicle is six times as fast as the other one. The doubles next to 0.3 and 1.5 pass the test: the
product of 5 and the first one is rounded to the second one. -/
theorem vrpDoVroom_speeds_small :
    vrpDoVroom .nearest .wrap 65535 smallSolver (fun _ => "") (fun t => t) 0
        (smallQueries [smallVehicleRow 7 1, smallVehicleRow 8 6]) smallArgs =
      .ok (.err "The speed_factor  is more than five times the speed factor ") ∧
    ScalesNear .nearest (smallData [smallVehicle 7 (5404319552844595 / 2 ^ 54), smallVehicle 8 (3 / 2)])
      (smallVehicle 8 (3 / 2)) := by
  constructor
  · have hd : fetchData (fun t => t) (smallQueries [smallVehicleRow 7 1, smallVehicleRow 8 6]) smallArgs =
        .ok (.inr (smallData [smallVehicle 7 1, smallVehicle 8 6])) := by decide +kernel
    rcases vrpDoVroom_speeds .nearest .wrap 65535 smallSolver (fun _ => "") 0 rfl hd with ⟨-, h⟩ | ⟨h, -⟩
    · exact h
    · exact absurd (h (smallVehicle 7 1) (by simp [smallData]) (smallVehicle 8 6) (by simp [smallData]))
        (by decide +kernel)
  · have hd : fetchData (fun t => t)
        (smallQueries [smallVehicleRow 7 (5404319552844595 / 2 ^ 54), smallVehicleRow 8 (3 / 2)])
          smallArgs =
        .ok (.inr (smallData [smallVehicle 7 (5404319552844595 / 2 ^ 54), smallVehicle 8 (3 / 2)])) := by
      decide +kernel
    rcases vrpDoVroom_speeds .nearest .wrap 65535 smallSolver (fun _ => "") 0 rfl hd with ⟨h, -⟩ | ⟨-, -, h⟩
    · exact absurd h (by decide +kernel)
    · exact (h _ (by simp [smallData])).near (by decide +kernel)

/-- The quotient of the doubles 0.25 and 0.1 is the double 2.5, which is rounded to 3. -/
example : (smallData [smallVehicle 7 (3602879701896397 / 2 ^ 55)]).scaledSpeedFactor .nearest
    (smallVehicle 8 (1 / 4)) = 3 := by decide +kernel

end VrpRouting.Vroom
