import Mathlib.Data.List.Perm.Basic
import Mathlib.Data.List.Nodup
import Mathlib.Data.UInt
import VrpRouting.Vroom.Problem

/-! # The rows of an answer

The rows of an answer are numbered (`getResults_rows`): the steps of a route from 1 on, followed by the
summary of the route, then the unassigned jobs, and the summary of the problem. So the two sequences
are a key of the rows. The travel times of a route, which are differences modulo `2 ^ 32`, add up to
the durations of its steps. -/

namespace VrpRouting.Vroom

/-- The two sequences. -/
def VroomRt.key (row : VroomRt) : ℕ × ℕ := (row.vehicleSeq, row.stepSeq)

/-- The keys of the rows of the routes. -/
def routeKeys : ℕ → List Route → List (ℕ × ℕ)
  | _, [] => []
  | v, route :: routes =>
    (List.range' 1 route.steps.length).map (Prod.mk v) ++ (v, 0) :: routeKeys (v + 1) routes

def resultKeys (solution : Solution) : List (ℕ × ℕ) :=
  routeKeys 1 solution.routes ++
    (List.range' 1 solution.unassigned.length).map (Prod.mk (solution.routes.length + 1)) ++ [(0, 0)]

theorem routeKeys_bounds : ∀ {v : ℕ} {routes : List Route}, ∀ k ∈ routeKeys v routes,
    v ≤ k.1 ∧ k.1 < v + routes.length
  | _, [], k, hk => by cases hk
  | v, route :: routes, k, hk => by
    unfold routeKeys at hk
    simp only [List.mem_append, List.mem_map, List.mem_cons] at hk
    rw [List.length_cons]
    rcases hk with ⟨j, -, rfl⟩ | rfl | hk
    · dsimp only
      omega
    · dsimp only
      omega
    · have h := routeKeys_bounds k hk
      omega

theorem nodup_range'_map (v n : ℕ) : ((List.range' 1 n).map (Prod.mk v)).Nodup :=
  List.Nodup.map (fun a b h => (Prod.mk.inj h).2) List.nodup_range'

theorem nodup_routeKeys : ∀ (v : ℕ) (routes : List Route), (routeKeys v routes).Nodup
  | _, [] => List.nodup_nil
  | v, route :: routes => by
    unfold routeKeys
    refine List.nodup_append.mpr ⟨nodup_range'_map v _, List.nodup_cons.mpr ⟨?_, nodup_routeKeys _ _⟩, ?_⟩
    · intro h
      have hv := (routeKeys_bounds _ h).1
      dsimp only at hv
      omega
    · rintro a ha b hb rfl
      obtain ⟨j, hj, rfl⟩ := List.mem_map.mp ha
      rcases List.mem_cons.mp hb with hb | hb
      · have h1 := (List.mem_range'_1.mp hj).1
        have h2 := (Prod.mk.inj hb).2
        omega
      · have hv := (routeKeys_bounds _ hb).1
        dsimp only at hv
        omega

theorem nodup_resultKeys (solution : Solution) : (resultKeys solution).Nodup := by
  unfold resultKeys
  have hzero : ∀ {n : ℕ} {k : ℕ × ℕ}, k ∈ (List.range' 1 n).map (Prod.mk (solution.routes.length + 1)) →
      k.1 = solution.routes.length + 1 := by
    intro n k hk
    obtain ⟨j, -, rfl⟩ := List.mem_map.mp hk
    rfl
  refine List.nodup_append.mpr ⟨List.nodup_append.mpr ⟨nodup_routeKeys _ _, nodup_range'_map _ _, ?_⟩,
    List.nodup_singleton _, ?_⟩
  · rintro a ha b hb rfl
    have h1 := (routeKeys_bounds _ ha).2
    have h2 := hzero hb
    omega
  · rintro a ha b hb rfl
    obtain rfl := List.mem_singleton.mp hb
    rcases List.mem_append.mp ha with h | h
    · have h1 := (routeKeys_bounds _ h).1
      dsimp only at h1
      omega
    · exact absurd (hzero h) (Nat.succ_ne_zero _).symm

namespace Matrix

variable {m : Matrix}

/-- The rows of the steps of a route. -/
structure StepBlock (m : Matrix) (v : ℕ) (route : Route) (stepSeq : ℕ) (prevDuration : UInt32)
    (steps : List Step) (rows : List VroomRt) : Prop where
  made : List.Forall₂
    (fun step row => ∃ seq prev, m.stepRow v route seq prev step = .ok row) steps rows
  keys : rows.map VroomRt.key = (List.range' stepSeq steps.length).map (Prod.mk v)
  times : ∀ k step, steps[k]? = some step →
    prevDuration + ((rows.take (k + 1)).map VroomRt.travelTime).sum = step.duration

/-- What the row of a step holds. -/
theorem stepRow_spec {v stepSeq : ℕ} {route : Route} {prevDuration : UInt32} {step : Step}
    {row : VroomRt} (h : m.stepRow v route stepSeq prevDuration step = .ok row) :
    row.key = (v, stepSeq) ∧ row.travelTime = step.duration - prevDuration := by
  unfold stepRow at h
  obtain ⟨locationId, -, h⟩ := bind_eq_ok h
  obtain rfl := Except.ok.inj h
  exact ⟨rfl, rfl⟩

theorem stepRows_block {v : ℕ} {route : Route} : ∀ {steps : List Step} {stepSeq : ℕ}
    {prevDuration : UInt32} {rows : List VroomRt},
    m.stepRows v route stepSeq prevDuration steps = .ok rows →
      StepBlock m v route stepSeq prevDuration steps rows
  | [], _, _, rows, h => by
    obtain rfl := Except.ok.inj h
    exact ⟨.nil, rfl, fun k step hk => by simp at hk⟩
  | step :: steps, stepSeq, prevDuration, rows, h => by
    unfold stepRows at h
    obtain ⟨row, hrow, h⟩ := bind_eq_ok h
    obtain ⟨rows', hrows, h⟩ := bind_eq_ok h
    obtain rfl := Except.ok.inj h
    have ih := stepRows_block hrows
    obtain ⟨hkey, htime⟩ := stepRow_spec hrow
    refine ⟨.cons ⟨_, _, hrow⟩ ih.made, ?_, fun k s hk => ?_⟩
    · rw [List.map_cons, hkey, ih.keys, List.length_cons, List.range'_succ, List.map_cons]
    · have hfirst : prevDuration + (step.duration - prevDuration) = step.duration := by
        rw [UInt32.add_comm, UInt32.sub_add_cancel]
      cases k with
      | zero =>
        obtain rfl := Option.some.inj hk
        simp [htime, hfirst]
      | succ k =>
        rw [List.take_succ_cons, List.map_cons, List.sum_cons, htime, ← UInt32.add_assoc, hfirst]
        exact ih.times k s hk

/-- Every row of a block has the sequence of the vehicle. -/
theorem StepBlock.vehicleSeq {v stepSeq : ℕ} {route : Route} {prevDuration : UInt32}
    {steps : List Step} {rows : List VroomRt}
    (h : StepBlock m v route stepSeq prevDuration steps rows) : ∀ row ∈ rows, row.vehicleSeq = v := by
  intro row hrow
  have hkey : row.key ∈ rows.map VroomRt.key := List.mem_map_of_mem hrow
  rw [h.keys] at hkey
  obtain ⟨j, -, hj⟩ := List.mem_map.mp hkey
  exact (congrArg Prod.fst hj).symm

/-- The rows of a vehicle, in the order in which they stand. -/
def ofVehicle (v : ℕ) (rows : List VroomRt) : List VroomRt :=
  rows.filter fun row => decide (row.vehicleSeq = v)

theorem ofVehicle_eq_self {v : ℕ} {rows : List VroomRt} (h : ∀ row ∈ rows, row.vehicleSeq = v) :
    ofVehicle v rows = rows :=
  List.filter_eq_self.mpr fun row hrow => decide_eq_true (h row hrow)

theorem ofVehicle_eq_nil {v : ℕ} {l : List VroomRt} (h : ∀ row ∈ l, row.vehicleSeq ≠ v) :
    ofVehicle v l = [] :=
  List.filter_eq_nil_iff.mpr fun row hrow => by simpa using h row hrow

theorem ofVehicle_append (v : ℕ) (rows rows' : List VroomRt) :
    ofVehicle v (rows ++ rows') = ofVehicle v rows ++ ofVehicle v rows' := List.filter_append ..

/-- The rows of a route: its steps and its summary. -/
def RouteRows (m : Matrix) (v : ℕ) (route : Route) (rows : List VroomRt) : Prop :=
  ∃ steps, StepBlock m v route 1 0 route.steps steps ∧
    rows = steps ++ [summaryRow v route.vehicle route.description route.toTotals]

theorem vehicleSeq_of_keys {rows : List VroomRt} {keys : List (ℕ × ℕ)}
    (h : rows.map VroomRt.key = keys) {q : ℕ → Prop} (hq : ∀ k ∈ keys, q k.1) :
    ∀ row ∈ rows, q row.vehicleSeq := by
  intro row hrow
  exact hq row.key (h ▸ List.mem_map_of_mem hrow)

/-- The loop over the routes: the keys, and the rows of each of them. -/
theorem routeRows_spec : ∀ {routes : List Route} {v : ℕ} {rows : List VroomRt},
    m.routeRows v routes = .ok rows → rows.map VroomRt.key = routeKeys v routes ∧
      ∀ i route, routes[i]? = some route → RouteRows m (v + i) route (ofVehicle (v + i) rows)
  | [], _, rows, h => by
    obtain rfl := Except.ok.inj h
    exact ⟨rfl, fun i route hi => by simp at hi⟩
  | route :: routes, v, rows, h => by
    unfold routeRows at h
    obtain ⟨steps, hsteps, h⟩ := bind_eq_ok h
    obtain ⟨rest, hrest, h⟩ := bind_eq_ok h
    obtain rfl := Except.ok.inj h
    have hblock := stepRows_block hsteps
    obtain ⟨hkeys, hroutes⟩ := routeRows_spec hrest
    have hlater : ∀ row ∈ rest, v + 1 ≤ row.vehicleSeq :=
      vehicleSeq_of_keys hkeys fun k hk => (routeKeys_bounds k hk).1
    have hmine : ∀ row ∈ steps ++ [summaryRow v route.vehicle route.description route.toTotals],
        row.vehicleSeq = v := by
      intro row hrow
      rcases List.mem_append.mp hrow with h | h
      · exact hblock.vehicleSeq row h
      · rw [List.mem_singleton.mp h]
        rfl
    rw [List.append_cons steps]
    refine ⟨?_, fun i r hi => ?_⟩
    · rw [← List.append_cons, List.map_append, List.map_cons, hblock.keys, hkeys]
      rfl
    · rw [ofVehicle_append]
      cases i with
      | zero =>
        obtain rfl := Option.some.inj hi
        rw [Nat.add_zero, ofVehicle_eq_self hmine, ofVehicle_eq_nil fun row hrow => by
          have := hlater row hrow
          omega, List.append_nil]
        exact ⟨steps, hblock, rfl⟩
      | succ i =>
        have h := hroutes i r hi
        rw [ofVehicle_eq_nil fun row hrow => by
          have := hmine row hrow
          omega, List.nil_append]
        rwa [show v + (i + 1) = v + 1 + i by omega]

theorem unassignedRows_keys {v : ℕ} : ∀ {jobs : List UnassignedJob} {stepSeq : ℕ} {rows : List VroomRt},
    m.unassignedRows v stepSeq jobs = .ok rows →
      rows.map VroomRt.key = (List.range' stepSeq jobs.length).map (Prod.mk v)
  | [], _, rows, h => by
    obtain rfl := Except.ok.inj h
    rfl
  | job :: jobs, stepSeq, rows, h => by
    unfold unassignedRows at h
    obtain ⟨locationId, -, h⟩ := bind_eq_ok h
    obtain ⟨rest, hrest, h⟩ := bind_eq_ok h
    obtain rfl := Except.ok.inj h
    rw [List.map_cons, unassignedRows_keys hrest, List.length_cons, List.range'_succ, List.map_cons]
    rfl

/-- **The rows of an answer** have their sequences as a key; those of a route are its steps, whose
travel times add up to the durations, and its summary. -/
theorem getResults_rows {solution : Solution} {rows : List VroomRt}
    (h : m.getResults solution = .ok rows) :
    rows.map VroomRt.key = resultKeys solution ∧ (rows.map VroomRt.key).Nodup ∧
      ∀ i route, solution.routes[i]? = some route →
        RouteRows m (i + 1) route (ofVehicle (i + 1) rows) := by
  unfold getResults at h
  obtain ⟨routes, hroutes, h⟩ := bind_eq_ok h
  obtain ⟨unassigned, hunassigned, h⟩ := bind_eq_ok h
  obtain rfl := Except.ok.inj h
  obtain ⟨hkeys, hof⟩ := routeRows_spec hroutes
  have hkeys' := unassignedRows_keys hunassigned
  have hall : (routes ++ unassigned ++ [summaryRow 0 0 emptyDesc solution.summary]).map VroomRt.key =
      resultKeys solution := by
    rw [List.map_append, List.map_append, hkeys, hkeys']
    rfl
  refine ⟨hall, hall ▸ nodup_resultKeys solution, fun i route hi => ?_⟩
  have hlt : i < solution.routes.length := (List.getElem?_eq_some_iff.mp hi).1
  have hun : ∀ row ∈ unassigned, row.vehicleSeq = solution.routes.length + 1 := by
    refine vehicleSeq_of_keys (q := fun n => n = _) hkeys' fun k hk => ?_
    obtain ⟨j, -, rfl⟩ := List.mem_map.mp hk
    rfl
  have hroute := hof i route hi
  rw [ofVehicle_append, ofVehicle_append, ofVehicle_eq_nil (l := unassigned), List.append_nil,
    ofVehicle_eq_nil (l := [_]), List.append_nil]
  · rwa [Nat.add_comm] at hroute
  · intro row hrow
    rw [List.mem_singleton.mp hrow]
    exact (Nat.succ_ne_zero i).symm
  · intro row hrow
    rw [hun row hrow]
    omega

/-- A route with a start and a job, and an unassigned job. -/
def smallSolution : Solution where
  routes := [{ duration := 7, setup := 0, service := 1, waitingTime := 0, vehicle := 7,
               description := "",
               steps := [⟨.start, .single, 0, 0, "", 0, 0, 0, 0, 0, []⟩,
                 ⟨.job, .single, 5, 1, "", 7, 7, 0, 1, 0, []⟩] }]
  unassigned := [⟨.single, 6, 1, ""⟩]
  summary := ⟨7, 0, 1, 0⟩

theorem getResults_rows_small : ∃ rows,
    (⟨(Identifiers.empty.insert 1).insert 2, [], []⟩ : Matrix).getResults smallSolution = .ok rows ∧
    rows.map VroomRt.key = [(1, 1), (1, 2), (1, 0), (2, 1), (0, 0)] ∧ (rows.map VroomRt.key).Nodup := by
  obtain ⟨rows, h⟩ := exists_ok (x := (⟨(Identifiers.empty.insert 1).insert 2, [], []⟩ :
    Matrix).getResults smallSolution) (by decide +kernel)
  obtain ⟨hkeys, hnodup, -⟩ := getResults_rows h
  exact ⟨rows, h, hkeys, hnodup⟩

end Matrix

end VrpRouting.Vroom
