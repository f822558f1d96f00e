import VrpRouting.Vroom.Instance
import VrpRouting.Vroom.Results

/-! # The tasks

The tasks of the queries, of the input of the library, of an answer and of the rows: their type, their
identifier, their location and their text. The input has the tasks of the queries at the indices of
their locations (`Given.tasks`), and the rows have those of the answer at the locations of their
indices (`getResults_tasks`). -/

namespace VrpRouting.Vroom

/-- A task with the index of its location. -/
abbrev IndexedTask := JobType × ℕ × ℕ × String

/-- The type as a number, the identifier, the location and the text of a task. -/
abbrev TaskRecord := ℕ × ℕ × ℤ × String

def Task.indexed (t : Task) (type : JobType) : IndexedTask := (type, t.id, t.location, t.description)

def Input.tasks (input : Input) : List IndexedTask :=
  input.jobs.map (fun j => j.toTask.indexed .single) ++
    input.shipments.flatMap fun s => [s.1.toTask.indexed s.1.jobType, s.2.toTask.indexed s.2.jobType]

def Step.task (step : Step) : Option IndexedTask :=
  if step.stepType = .job then some (step.jobType, step.id, step.location, step.description) else none

def UnassignedJob.task (job : UnassignedJob) : IndexedTask :=
  (job.type, job.id, job.location, job.description)

/-- The tasks of an answer, in its routes and unassigned. -/
def Solution.tasks (solution : Solution) : List IndexedTask :=
  solution.routes.flatMap (fun route => route.steps.filterMap Step.task) ++
    solution.unassigned.map UnassignedJob.task

def Data.tasks (d : Data) : List TaskRecord :=
  d.jobs.map (fun j => (2, j.id, j.locationId, j.data)) ++
    d.shipments.flatMap fun s => [(3, s.id, s.pLocationId, s.pData), (4, s.id, s.dLocationId, s.dData)]

def VroomRt.task (row : VroomRt) : Option TaskRecord :=
  if row.stepType = 2 ∨ row.stepType = 3 ∨ row.stepType = 4 then
    some (row.stepType, row.taskId, row.locationId, row.taskData)
  else none

/-- The record of a task whose location has an index. -/
def Matrix.record (m : Matrix) (t : IndexedTask) : TaskRecord :=
  (t.1.stepType, t.2.1, (m.getOriginalId t.2.2.1).getD 0, t.2.2.2)

theorem filterMap_of_forall₂ {α β γ δ : Type} {f : α → Option γ} {g : β → Option δ} {r : γ → δ}
    {as : List α} {bs : List β} (h : List.Forall₂ (fun a b => g b = (f a).map r) as bs) :
    bs.filterMap g = (as.filterMap f).map r := by
  induction h with
  | nil => rfl
  | cons hab h ih =>
    rw [List.filterMap_cons, List.filterMap_cons, hab, ih]
    split <;> split <;> simp_all

section Rows
variable {m : Matrix}

theorem location_eq_ok {index : ℕ} {locationId : ℤ} (h : m.location index = .ok locationId) :
    (m.getOriginalId index).getD 0 = locationId := by
  unfold Matrix.location at h
  cases hid : m.getOriginalId index with
  | none =>
    rw [hid] at h
    cases h
  | some id =>
    rw [hid] at h
    exact Except.ok.inj h

/-- The row of a step has its task. -/
theorem stepRow_task {v stepSeq : ℕ} {route : Route} {prevDuration : UInt32} {step : Step}
    {row : VroomRt} (h : m.stepRow v route stepSeq prevDuration step = .ok row) :
    row.task = step.task.map m.record := by
  unfold Matrix.stepRow at h
  obtain ⟨locationId, hl, h⟩ := bind_eq_ok h
  obtain rfl := Except.ok.inj h
  have hl := location_eq_ok hl
  unfold VroomRt.task Step.task Matrix.record Step.type
  rw [← hl]
  cases step.stepType with
  | job =>
    cases step.jobType with
    | single => rfl
    | pickup => rfl
    | delivery => rfl
  | start => rfl
  | break_ => rfl
  | end_ => rfl

theorem routeRows_tasks : ∀ {routes : List Route} {v : ℕ} {rows : List VroomRt},
    m.routeRows v routes = .ok rows → rows.filterMap VroomRt.task =
      (routes.flatMap fun route => route.steps.filterMap Step.task).map m.record
  | [], _, rows, h => by
    obtain rfl := Except.ok.inj h
    rfl
  | route :: routes, v, rows, h => by
    unfold Matrix.routeRows at h
    obtain ⟨steps, hsteps, h⟩ := bind_eq_ok h
    obtain ⟨rest, hrest, h⟩ := bind_eq_ok h
    obtain rfl := Except.ok.inj h
    have hmade := (Matrix.stepRows_block hsteps).made
    have hroute : steps.filterMap VroomRt.task = (route.steps.filterMap Step.task).map m.record := by
      refine filterMap_of_forall₂ (hmade.imp ?_)
      rintro step row ⟨seq, prev, hrow⟩
      exact stepRow_task hrow
    have hsummary : (summaryRow v route.vehicle route.description route.toTotals).task = none := rfl
    rw [List.filterMap_append, List.filterMap_cons_none hsummary, hroute, routeRows_tasks hrest,
      List.flatMap_cons, List.map_append]

theorem unassignedRows_tasks {v : ℕ} : ∀ {jobs : List UnassignedJob} {stepSeq : ℕ} {rows : List VroomRt},
    m.unassignedRows v stepSeq jobs = .ok rows →
      rows.filterMap VroomRt.task = (jobs.map UnassignedJob.task).map m.record
  | [], _, rows, h => by
    obtain rfl := Except.ok.inj h
    rfl
  | job :: jobs, stepSeq, rows, h => by
    unfold Matrix.unassignedRows at h
    obtain ⟨locationId, hl, h⟩ := bind_eq_ok h
    obtain ⟨rest, hrest, h⟩ := bind_eq_ok h
    obtain rfl := Except.ok.inj h
    have hl := location_eq_ok hl
    rw [List.map_cons, List.map_cons, ← unassignedRows_tasks hrest]
    refine List.filterMap_cons_some ?_
    unfold VroomRt.task UnassignedJob.task Matrix.record
    rw [← hl]
    cases job.type with
    | single => rfl
    | pickup => rfl
    | delivery => rfl

/-- The rows have the tasks of the answer. -/
theorem getResults_tasks {solution : Solution} {rows : List VroomRt}
    (h : m.getResults solution = .ok rows) :
    rows.filterMap VroomRt.task = solution.tasks.map m.record := by
  unfold Matrix.getResults at h
  obtain ⟨routes, hroutes, h⟩ := bind_eq_ok h
  obtain ⟨unassigned, hunassigned, h⟩ := bind_eq_ok h
  obtain rfl := Except.ok.inj h
  have hsummary : (summaryRow 0 0 emptyDesc solution.summary).task = none := rfl
  unfold Solution.tasks
  rw [List.filterMap_append, List.filterMap_append, routeRows_tasks hroutes,
    unassignedRows_tasks hunassigned, List.filterMap_cons_none hsummary, List.map_append,
    List.filterMap_nil, List.append_nil]

end Rows

/-! ### The input -/

section Input
variable {R : Doubles} {m : Matrix} {d : Data} {w : Windows} {input : Input}

theorem TaskGiven.record {tws : List VroomTimeWindowT} {id : ℕ} {locationId : ℤ}
    {setup service : UInt32} {skills : Identifiers ℕ} {priority : UInt32} {kind : Char}
    {data : String} {t : Task}
    (h : TaskGiven m tws id locationId setup service skills priority kind data t) (type : JobType) :
    m.record (t.indexed type) = (type.stepType, id, locationId, data) := by
  obtain ⟨i, hi, rfl⟩ := h
  unfold Matrix.record Task.indexed
  dsimp only
  rw [hi]
  rfl

theorem map_eq_of_forall₂ {α β γ : Type} {f : α → γ} {g : β → γ} {as : List α} {bs : List β}
    (h : List.Forall₂ (fun a b => g b = f a) as bs) : bs.map g = as.map f := by
  induction h with
  | nil => rfl
  | cons hab h ih => rw [List.map_cons, List.map_cons, hab, ih]

/-- The input has the tasks of the queries. -/
theorem Given.tasks (h : Given R m d w input) : input.tasks.map m.record = d.tasks := by
  have hjobs : input.jobs.map (fun j => m.record (j.toTask.indexed .single)) =
      d.jobs.map fun j => (2, j.id, j.locationId, j.data) :=
    map_eq_of_forall₂ (h.jobs.imp fun j t ht => ht.1.record .single)
  have hshipments : input.shipments.map (fun s =>
      [m.record (s.1.toTask.indexed s.1.jobType), m.record (s.2.toTask.indexed s.2.jobType)]) =
      d.shipments.map fun s =>
        [(3, s.id, s.pLocationId, s.pData), (4, s.id, s.dLocationId, s.dData)] := by
    refine map_eq_of_forall₂ (h.shipments.imp ?_)
    rintro s t ⟨⟨hp, hpickup, -⟩, hd, hdelivery, -⟩
    rw [hpickup, hdelivery, hp.record, hd.record]
    rfl
  unfold Input.tasks Data.tasks
  rw [List.map_append, List.map_map, List.map_flatMap, List.flatMap_def, List.flatMap_def]
  exact congrArg₂ (· ++ ·) hjobs (congrArg List.flatten hshipments)

end Input

end VrpRouting.Vroom
