import VrpRouting.Vroom.Driver
import VrpRouting.Vroom.Rows

/-! # What the VROOM library is given

The locations of all tasks and vehicles are locations of the matrix, so no index is missing and none is
changed by its cast: the library is given every job, shipment and vehicle of the queries at the index
of its location, with its time windows and breaks in the order of their rows (`process_solves`). -/

namespace VrpRouting.Vroom

open VrpRouting.Driver (Reply)

/-! ### The locations -/

/-- The ends of a vehicle. -/
def VroomVehicleT.ends (v : VroomVehicleT) : List ℤ := [v.startId, v.endId].filter (· ≠ -1)

theorem Data.mem_locationIds {d : Data} {x : ℤ} : x ∈ d.locationIds ↔
    ((∃ j ∈ d.jobs, x = j.locationId) ∨ ∃ s ∈ d.shipments, x = s.pLocationId ∨ x = s.dLocationId) ∨
      ∃ v ∈ d.vehicles, x ∈ v.ends := by
  have hends : (fun (ids : Identifiers ℤ) (v : VroomVehicleT) =>
      let ids := if v.startId ≠ -1 then ids.insert v.startId else ids
      if v.endId ≠ -1 then ids.insert v.endId else ids) = fun ids v => v.ends.foldl .insert ids := by
    funext ids v
    unfold VroomVehicleT.ends
    simp only [List.filter_cons, List.filter_nil, decide_eq_true_eq]
    split_ifs <;> rfl
  have hjobs := Identifiers.mem_foldl_foldl_insert (fun j : VroomJobT => [j.locationId]) (z := x)
    d.jobs .empty
  have hshipments := Identifiers.mem_foldl_foldl_insert
    (fun s : VroomShipmentT => [s.pLocationId, s.dLocationId]) (z := x) d.shipments
  unfold Data.locationIds
  rw [hends, Identifiers.mem_foldl_foldl_insert]
  simp only [List.foldl_cons, List.foldl_nil] at hjobs hshipments
  rw [hshipments, hjobs]
  simp

namespace Problem

variable {maxIndex : ℕ} {p : Problem}

/-- The index of a location of the matrix. -/
theorem index_eq_ok (hsize : p.matrix.ids.size ≤ maxIndex) {id : ℤ} (h : id ∈ p.matrix.ids) :
    ∃ i, p.index maxIndex id = .ok i ∧ p.matrix.getOriginalId i = some id := by
  have hi := LowerBound.getElem?_lowerBound p.matrix.ids.sorted h
  have hlt : LowerBound.lowerBound p.matrix.ids.ids id < p.matrix.ids.size :=
    (List.getElem?_eq_some_iff.mp hi).1
  have hindex : p.matrix.getIndex id = some (LowerBound.lowerBound p.matrix.ids.ids id) :=
    (LowerBound.position?_eq_some_iff_of_mem p.matrix.ids.sorted h).mpr hi
  refine ⟨_, ?_, hi⟩
  unfold index
  rw [hindex]
  exact congrArg Except.ok (Nat.mod_eq_of_lt (by omega))

end Problem

/-! ### The problem -/

/-- The rows of the time windows. -/
structure Windows where
  jobs : List VroomTimeWindowT
  shipments : List VroomTimeWindowT
  breaks : List VroomTimeWindowT

/-- The windows of a task: those of its rows, or the default one. -/
def windowsOf (rows : List VroomTimeWindowT) (id : ℕ) (kind : Char) : List TimeWindow :=
  let given := Grouping.group (fun w => (w.id, w.kind)) VroomTimeWindowT.tw rows (id, kind)
  if given = [] then [.whole] else given

/-- The maps of the data hold the rows. -/
structure Data.Holds (d : Data) (w : Windows) : Prop where
  jobs : d.jobsTw = windowsMap w.jobs
  shipments : d.shipmentsTw = windowsMap w.shipments
  breaks : d.breaksTw = windowsMap w.breaks

theorem windows_windowsMap (rows : List VroomTimeWindowT) (id : ℕ) (kind : Char) :
    windows (windowsMap rows) id kind = windowsOf rows id kind :=
  Grouping.lookup_collect_getD (fun w : VroomTimeWindowT => (w.id, w.kind)) _ rows (id, kind) _

/-- A task is given with the values of a row and the index of its location. -/
def TaskGiven (m : Matrix) (tws : List VroomTimeWindowT) (id : ℕ) (locationId : ℤ)
    (setup service : UInt32) (skills : Identifiers ℕ) (priority : UInt32) (kind : Char)
    (data : String) (t : Task) : Prop :=
  ∃ i, m.getOriginalId i = some locationId ∧
    t = ⟨id, i, setup, service, skills, priority, windowsOf tws id kind, data⟩

/-- An array, or the zeros that stand for an empty one. -/
def orZeros (n : ℕ) (amount : List ℤ) : List ℤ := if amount = [] then List.replicate n 0 else amount

def JobGiven (m : Matrix) (tws : List VroomTimeWindowT) (n : ℕ) (j : VroomJobT) (t : Job) : Prop :=
  TaskGiven m tws j.id j.locationId j.setup j.service j.skills j.priority ' ' j.data t.toTask ∧
    t.delivery = orZeros n j.delivery ∧ t.pickup = orZeros n j.pickup

def ShipmentGiven (m : Matrix) (tws : List VroomTimeWindowT) (s : VroomShipmentT)
    (t : ShipmentJob × ShipmentJob) : Prop :=
  (TaskGiven m tws s.id s.pLocationId s.pSetup s.pService s.skills s.priority 'p' s.pData t.1.toTask ∧
      t.1.jobType = .pickup ∧ t.1.amount = s.amount) ∧
    TaskGiven m tws s.id s.dLocationId s.dSetup s.dService s.skills s.priority 'd' s.dData t.2.toTask ∧
      t.2.jobType = .delivery ∧ t.2.amount = s.amount

/-- An end of a vehicle. -/
def EndGiven (m : Matrix) (id : ℤ) (e : Option ℕ) : Prop :=
  if id = -1 then e = none else ∃ i, e = some i ∧ m.getOriginalId i = some id

def VehicleGiven (m : Matrix) (tws : List VroomTimeWindowT) (breaks : List VroomBreakT)
    (v : VroomVehicleT) (t : Vehicle) : Prop :=
  ∃ startId endId, EndGiven m v.startId startId ∧ EndGiven m v.endId endId ∧
    t = ⟨v.id, startId, endId, v.capacity, v.skills, v.tw,
      (breaks.filter fun b => decide (b.vehicleId = v.id)).map fun b =>
        ⟨b.id, windowsOf tws b.id ' ', b.service, b.data⟩, v.data, v.speedFactor, v.maxTasks.toNat⟩

/-- The problem is given to the library. -/
structure Given (R : Doubles) (m : Matrix) (d : Data) (w : Windows) (input : Input) : Prop where
  amountSize : input.amountSize = d.vehicles.head?.elim 0 fun v => v.capacity.length
  vehicles : List.Forall₂ (VehicleGiven m w.breaks d.breaks) (d.scaledVehicles R) input.vehicles
  jobs : List.Forall₂ (JobGiven m w.jobs input.amountSize) d.jobs input.jobs
  shipments : List.Forall₂ (ShipmentGiven m w.shipments) d.shipments input.shipments
  durations : input.durations = m.dmatrix
  costs : input.costs = m.cmatrix

section Problem
variable {maxIndex : ℕ} {p : Problem} (hsize : p.matrix.ids.size ≤ maxIndex)
include hsize

theorem jobOf_given (rows : List VroomTimeWindowT) {j : VroomJobT}
    (h : j.locationId ∈ p.matrix.ids) :
    ∃ t, p.jobOf maxIndex (windowsMap rows) j =
      .ok t ∧ JobGiven p.matrix rows p.amountSize j t := by
  obtain ⟨i, hi, horiginal⟩ := p.index_eq_ok hsize h
  unfold Problem.jobOf
  rw [hi, windows_windowsMap]
  refine ⟨_, rfl, ⟨i, horiginal, rfl⟩, ?_, ?_⟩
  · simp [Problem.amountOr, orZeros, Problem.defaultAmount]
  · simp [Problem.amountOr, orZeros, Problem.defaultAmount]

theorem shipmentOf_given (rows : List VroomTimeWindowT) {s : VroomShipmentT}
    (hp : s.pLocationId ∈ p.matrix.ids) (hd : s.dLocationId ∈ p.matrix.ids) :
    ∃ t, p.shipmentOf maxIndex
        (windowsMap rows) s = .ok t ∧
      ShipmentGiven p.matrix rows s t := by
  obtain ⟨i, hi, hpickup⟩ := p.index_eq_ok hsize hp
  obtain ⟨j, hj, hdelivery⟩ := p.index_eq_ok hsize hd
  unfold Problem.shipmentOf
  rw [hi, hj, windows_windowsMap, windows_windowsMap]
  exact ⟨_, rfl, ⟨⟨i, hpickup, rfl⟩, rfl, rfl⟩, ⟨j, hdelivery, rfl⟩, rfl, rfl⟩

theorem endIndex_given (id : ℤ) (h : id ≠ -1 → id ∈ p.matrix.ids) :
    ∃ e, p.endIndex maxIndex id = .ok e ∧ EndGiven p.matrix id e := by
  unfold Problem.endIndex EndGiven
  split_ifs with hid
  · exact ⟨none, rfl, rfl⟩
  · obtain ⟨i, hi, horiginal⟩ := p.index_eq_ok hsize (h hid)
    rw [hi]
    exact ⟨some i, rfl, i, rfl, horiginal⟩

/-- The first vehicles are given their capacities as they are: the default capacity is empty. -/
theorem vehicleOf_given (hnone : p.vehicles = []) (rows : List VroomTimeWindowT)
    (breaks : List VroomBreakT) {v : VroomVehicleT} (h : ∀ x ∈ v.ends, x ∈ p.matrix.ids) :
    ∃ t, p.vehicleOf maxIndex breaks
        (windowsMap rows) v = .ok t ∧
      VehicleGiven p.matrix rows breaks v t := by
  obtain ⟨startId, hs, hstart⟩ := endIndex_given hsize v.startId fun hne =>
    h _ (by simp [VroomVehicleT.ends, hne])
  obtain ⟨endId, he, hend⟩ := endIndex_given hsize v.endId fun hne =>
    h _ (by simp [VroomVehicleT.ends, hne])
  have hcapacity : p.amountOr v.capacity = v.capacity := by
    unfold Problem.amountOr Problem.defaultAmount Problem.amountSize
    rw [hnone]
    split_ifs with hempty
    · exact (List.isEmpty_iff.mp hempty).symm
    · rfl
  have hbreaks : ((Problem.breaksMap breaks).lookup v.id).getD [] =
      breaks.filter fun b => decide (b.vehicleId = v.id) := by
    unfold Problem.breaksMap
    rw [Grouping.lookup_collect_getD]
    unfold Grouping.group
    rw [List.map_id]
    split_ifs with hempty
    · exact hempty.symm
    · rfl
  unfold Problem.vehicleOf
  rw [hs, he, hbreaks, hcapacity]
  refine ⟨_, rfl, startId, endId, hstart, hend, ?_⟩
  simp [Problem.breakOf, windows_windowsMap]

end Problem

/-- The first vehicle of the problem has the capacity of the first one of the data. -/
theorem Data.capacity_scaledVehicles {R : Doubles} {d : Data} {m : Matrix} {windows : List VroomTimeWindowT}
    {breaks : List VroomBreakT} {vs : List Vehicle}
    (h : List.Forall₂ (VehicleGiven m windows breaks) (d.scaledVehicles R) vs) :
    (vs.head?.elim 0 fun v => v.capacity.length) =
      d.vehicles.head?.elim 0 fun v => v.capacity.length := by
  unfold Data.scaledVehicles at h
  cases hd : d.vehicles with
  | nil =>
    rw [hd] at h
    rw [List.forall₂_nil_left_iff.mp h]
    rfl
  | cons u us =>
    rw [hd, List.map_cons, List.forall₂_cons_left_iff] at h
    obtain ⟨t, ts, ⟨_, _, -, -, rfl⟩, -, rfl⟩ := h
    rfl

/-- **The problem of the data** is built, and given to the library as it is in the queries. -/
theorem Data.problem_given (R : Doubles) {d : Data} {w : Windows} (hw : d.Holds w) {m : Matrix}
    (hids : m.ids = d.locationIds) {maxIndex : ℕ} (hsize : m.ids.size ≤ maxIndex) :
    ∃ p, d.problem R maxIndex m = .ok p ∧ p.matrix = m ∧ Given R m d w p.toInput := by
  have hmem : ∀ {x : ℤ}, x ∈ m.ids ↔ _ := hids ▸ Data.mem_locationIds
  obtain ⟨vehicles, hv, hvehicles⟩ : ∃ r,
      (d.scaledVehicles R).mapM ((Problem.addMatrix m).vehicleOf maxIndex d.breaks d.breaksTw) = .ok r ∧
      List.Forall₂ (VehicleGiven m w.breaks d.breaks) (d.scaledVehicles R) r :=
    exists_mapM fun v hv => by
      obtain ⟨u, hu, rfl⟩ := List.mem_map.mp hv
      rw [hw.breaks]
      exact vehicleOf_given hsize rfl w.breaks d.breaks fun x hx => hmem.mpr (Or.inr ⟨u, hu, hx⟩)
  obtain ⟨jobs, hj, hjobs⟩ : ∃ r,
      d.jobs.mapM ((⟨[], [], vehicles, m⟩ : Problem).jobOf maxIndex d.jobsTw) = .ok r ∧
      List.Forall₂ (JobGiven m w.jobs (vehicles.head?.elim 0 fun v => v.capacity.length)) d.jobs r :=
    exists_mapM fun j hj => by
      rw [hw.jobs]
      exact jobOf_given (p := ⟨[], [], vehicles, m⟩) hsize w.jobs
        (hmem.mpr (Or.inl (Or.inl ⟨j, hj, rfl⟩)))
  obtain ⟨shipments, hs, hshipments⟩ : ∃ r,
      d.shipments.mapM ((⟨jobs, [], vehicles, m⟩ : Problem).shipmentOf maxIndex d.shipmentsTw) = .ok r ∧
      List.Forall₂ (ShipmentGiven m w.shipments) d.shipments r :=
    exists_mapM fun s hs => by
      rw [hw.shipments]
      exact shipmentOf_given (p := ⟨jobs, [], vehicles, m⟩) hsize w.shipments
        (hmem.mpr (Or.inl (Or.inr ⟨s, hs, Or.inl rfl⟩)))
        (hmem.mpr (Or.inl (Or.inr ⟨s, hs, Or.inr rfl⟩)))
  refine ⟨⟨jobs, shipments, vehicles, m⟩, ?_, rfl, ⟨Data.capacity_scaledVehicles hvehicles, hvehicles, hjobs,
    hshipments, rfl, rfl⟩⟩
  unfold Data.problem Problem.addVehicles Problem.addJobs Problem.addShipments
  rw [hv]
  show (do
    let problem ← (do
      let added ← d.jobs.mapM ((⟨[], [], vehicles, m⟩ : Problem).jobOf maxIndex d.jobsTw)
      return (⟨added, [], vehicles, m⟩ : Problem))
    let added ← d.shipments.mapM (problem.shipmentOf maxIndex d.shipmentsTw)
    return { problem with shipments := problem.shipments ++ added }) = _
  rw [hj]
  show (do
    let added ← d.shipments.mapM ((⟨jobs, [], vehicles, m⟩ : Problem).shipmentOf maxIndex d.shipmentsTw)
    return (⟨jobs, added, vehicles, m⟩ : Problem)) = _
  rw [hs]
  rfl

end VrpRouting.Vroom
