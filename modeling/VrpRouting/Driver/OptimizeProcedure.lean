import VrpRouting.Driver.OptimizeUpdate
import VrpRouting.Driver.Replies

/-! # The procedure `vrp_optimize`

The procedure goes through the times at which a vehicle opens or closes. At each of them it hands the
active vehicles of the table to `vrp_pickDeliver`, with the orders on their stops, and writes the rows
back before it goes on. A vehicle that is left without orders still has the rows of its depot, so its
stops are emptied. But the row with the totals is grouped as well, under the number of time window
violations: when an inactive vehicle has this identifier, its stops are lost (`optimizeStep_spec`).
When no row names an inactive vehicle, the table stays a plan with the same stops, at every time of a
run (`optimizeProcedure_keeps_plan`).

The times are in seconds, as the driver converts them. -/

open Sorting Keyed Grouping

namespace VrpRouting

namespace Driver

open Initialsol.Tabu Initialsol.Tabu.InitialSolution Optimizers.Tabu

/-! ### The procedure -/

/-- The arguments of the procedure, with the data of the queries on other tables. -/
structure OptimizeTask where
  orders : List OrdersT
  costs : List MatrixCell
  multipliers : List TimeMultipliersT
  executionDate : ℤ
  factor : ℚ
  maxCycles : ℤ
deriving DecidableEq

/-- `date_trunc('day', time)`. -/
def dayOf (time : ℤ) : ℤ := time - time % 86400

/-- The times at which the vehicles of the day and of the days to come open or close. -/
def optimizeTimes (table : List VehicleT) (date : ℤ) : Identifiers ℤ :=
  (table.filter fun v => decide (dayOf date ≤ v.startOpenT)).foldl
    (fun times v => (times.insert v.startOpenT).insert v.endCloseT) .empty

/-- `_vrp_vehiclesAtTime`. -/
def vehiclesAtTime (table : List VehicleT) (t : ℤ) : List VehicleT :=
  stableSort (fun lhs rhs => decide (lhs.id < rhs.id)) (activeVehicles table t)

/-- The stops of each vehicle in the rows: its order identifiers without those of the depot. -/
def stopsOfRows (rows : List SolutionRt) : List (ℤ × List ℤ) :=
  (collect SolutionRt.vehicleId SolutionRt.orderId rows).map fun e =>
    (e.1, e.2.filter fun x => decide (x ≠ -1))

/-- What the loop keeps; there are no previous vehicles before the first update. -/
structure OptimizeState where
  table : List VehicleT
  prevVehicles : Option (List ℤ)
deriving DecidableEq

section Procedure
variable (S : Sorter) (task : OptimizeTask)

/-- The orders on the stops of the active vehicles. -/
def OptimizeTask.ordersAt (table : List VehicleT) (t : ℤ) : List OrdersT :=
  task.orders.filter fun o => (stopIds (vehiclesAtTime table t)).has o.id

/-- The call of `vrp_pickDeliver`. -/
def OptimizeTask.replyAt (table : List VehicleT) (t : ℤ) : Except Fault (Reply SolutionRt) :=
  pickDeliverOn S (fun time => time) (task.ordersAt table t) (vehiclesAtTime table t) task.costs
    task.multipliers
    { factor := task.factor
      maxCycles := task.maxCycles
      executionDate := task.executionDate
      optimize := true
      stopOnAllServed := false
      useTimestamps := false
      isEuclidean := false
      withStops := false }

/-- The body of the loop. A reply with an error message is an exception, which is caught; a notice
comes without rows. -/
def optimizeStep (s : OptimizeState) (t : ℤ) : Except Fault OptimizeState := do
  throwIf (t < dayOf task.executionDate) "NOT OPTIMIZING: belongs to the past"
  let currVehicles := (vehiclesAtTime s.table t).map VehicleT.id
  if s.prevVehicles = some currVehicles then return s
  if (stopIds (vehiclesAtTime s.table t)).isEmpty then return s
  match ← task.replyAt S s.table t with
  | .err _ => return s
  | .notice _ => return { s with prevVehicles := some currVehicles }
  | .tuples rows => return ⟨s.table.map (updateRow (stopsOfRows rows)), some currVehicles⟩

/-- The loop over the times of the table as it is at first. -/
def optimizeProcedure (table : List VehicleT) : Except Fault OptimizeState :=
  (optimizeTimes table task.executionDate).ids.foldlM (optimizeStep S task) ⟨table, none⟩

end Procedure

/-! ### The rows of a vehicle -/

section Rows
variable {orders : Orders} {M : Matrix} {v : Vehicle}

theorem map_orderId_vehicleRows (i : ℕ) (hd : NoDump v.path) :
    (Solution.vehicleRows M i v).map SolutionRt.orderId =
      (nodesOf v.path).map fun t => if t.type = .kStart ∨ t.type = .kEnd then -1 else t.order := by
  have h := congrArg (List.map StopName.orderId) (map_stopName_vehicleRows M i hd)
  rw [List.map_map, ListEdit.map_mapIdx] at h
  refine h.trans (List.ext_getElem (by simp) fun j h1 h2 => ?_)
  simp [TwNode.stopName]

theorem vehicleId_of_mem_vehicleRows {i : ℕ} (hd : NoDump v.path) {r : SolutionRt}
    (hr : r ∈ Solution.vehicleRows M i v) : r.vehicleId = v.id := by
  have hname : r.stopName ∈ (Solution.vehicleRows M i v).map SolutionRt.stopName :=
    List.mem_map_of_mem hr
  rw [map_stopName_vehicleRows M i hd] at hname
  obtain ⟨j, hj, h⟩ := List.mem_mapIdx.mp hname
  exact (congrArg StopName.vehicleId h).symm

/-- The order identifiers in the rows of a vehicle, without those of the depot, are its stops. -/
theorem stops_vehicleRows (i : ℕ) (ho : orders.WellFormed) (hn : orders.Named)
    (hid : ∀ j < orders.length, (orders.get j).id ≠ -1)
    (hw : ∀ j < orders.length, Carries (orders.get j) v ∨ Free (orders.get j) v)
    (hl : Listable orders v) (hreal : v.isPhony = false) (hd : NoDump v.path) :
    ((Solution.vehicleRows M i v).map SolutionRt.orderId).filter (fun x => decide (x ≠ -1)) =
      v.getStops := by
  -- The sites are left out on both sides, and the stops of orders on none.
  have hnode : ∀ t ∈ nodesOf v.path,
      ((t.type = .kStart ∨ t.type = .kEnd) ∧ (t.isStart || t.isEnd) = true) ∨
      (¬ (t.type = .kStart ∨ t.type = .kEnd) ∧ (t.isStart || t.isEnd) = false ∧ t.order ≠ -1) := by
    intro t ht
    by_cases hsite : t.type = .kStart ∨ t.type = .kEnd
    · exact Or.inl ⟨hsite, hl.sites t ht hsite⟩
    · obtain ⟨hs, he⟩ := not_or.mp hsite
      obtain ⟨j, hj, htj⟩ := ((hl.known t ht).resolve_left hs).resolve_left he
      obtain ⟨-, hord, -⟩ := order_of_isNodeOf ho hn hw ht hj htj
      exact Or.inr ⟨hsite, by simp [TwNode.isStart, TwNode.isEnd, hs, he], hord ▸ hid j hj⟩
  rw [map_orderId_vehicleRows i hd, getStops_eq hreal, List.filter_map]
  have hkept : (nodesOf v.path).filter ((fun x : ℤ => decide (x ≠ -1)) ∘
      fun t => if t.type = .kStart ∨ t.type = .kEnd then -1 else t.order) =
      (nodesOf v.path).filter fun t => !(t.isStart || t.isEnd) := by
    refine List.filter_congr fun t ht => ?_
    rcases hnode t ht with ⟨hsite, hrec⟩ | ⟨hsite, hrec, hne⟩
    · simp [hsite, hrec]
    · simp [hsite, hrec, hne]
  rw [hkept]
  refine List.map_congr_left fun t ht => ?_
  obtain ⟨ht, hrec⟩ := List.mem_filter.mp ht
  rcases hnode t ht with ⟨-, hrec'⟩ | ⟨hsite, -, -⟩
  · rw [hrec'] at hrec
    cases hrec
  · rw [if_neg hsite]

end Rows

/-! ### The rows of a solution -/

/-- A vehicle whose rows show its stops. -/
structure Shown (M : Matrix) (v : Vehicle) : Prop where
  noDump : NoDump v.path
  nonempty : v.path ≠ []
  stops : ∀ i, ((Solution.vehicleRows M i v).map SolutionRt.orderId).filter
    (fun x => decide (x ≠ -1)) = v.getStops

section Solution
variable {M : Matrix}

theorem group_vehicleRows {v : Vehicle} (hd : NoDump v.path) (i : ℕ) (x : ℤ) :
    group SolutionRt.vehicleId SolutionRt.orderId (Solution.vehicleRows M i v) x =
      if v.id = x then (Solution.vehicleRows M i v).map SolutionRt.orderId else [] := by
  have hid : ∀ r ∈ Solution.vehicleRows M i v, r.vehicleId = v.id := fun r hr =>
    vehicleId_of_mem_vehicleRows hd hr
  unfold group
  split_ifs with h
  · rw [List.filter_eq_self.mpr fun r hr => by rw [hid r hr]; exact decide_eq_true h]
  · rw [List.filter_eq_nil_iff.mpr fun r hr => by rw [hid r hr]; simpa using h]
    rfl

theorem group_resultRows_eq (x : ℤ) : ∀ solution : List ShortVehicle,
    group Prod.fst Prod.snd (resultRows solution) x =
      solution.flatMap fun w => if w.id = x then w.stops else []
  | [] => rfl
  | w :: solution => by
    have hcons : resultRows (w :: solution) =
        (w.stops.map fun oId => (w.id, oId)) ++ resultRows solution := List.flatMap_cons ..
    rw [hcons, group_append, group_map_key, group_resultRows_eq x solution, List.flatMap_cons]

/-- The rows of a solution have the stops of its vehicles. -/
theorem stops_getPostgresResult {s : Solution} (hF : ∀ v ∈ s.fleet, Shown M v) (x : ℤ) :
    (group SolutionRt.vehicleId SolutionRt.orderId (s.getPostgresResult M) x).filter
        (fun y => decide (y ≠ -1)) =
      group Prod.fst Prod.snd (resultRows s.getStops) x := by
  have htotals : (group SolutionRt.vehicleId SolutionRt.orderId [s.aggregates] x).filter
      (fun y => decide (y ≠ -1)) = [] := by
    refine List.filter_eq_nil_iff.mpr fun y hy => ?_
    obtain ⟨r, hr, rfl⟩ := List.mem_map.mp hy
    rw [List.mem_singleton.mp (List.mem_of_mem_filter hr)]
    simp [Solution.aggregates]
  have hvehicle : ∀ v ∈ s.fleet, ∀ i, (group SolutionRt.vehicleId SolutionRt.orderId
      (Solution.vehicleRows M i v) x).filter (fun y => decide (y ≠ -1)) =
      if v.id = x then v.getStops else [] := fun v hv i => by
    rw [group_vehicleRows (hF v hv).noDump]
    split_ifs
    · exact (hF v hv).stops i
    · rfl
  have hrows : ((s.fleet.mapIdx fun i v => Solution.vehicleRows M (i + 1) v).map fun rows =>
      (group SolutionRt.vehicleId SolutionRt.orderId rows x).filter fun y => decide (y ≠ -1)) =
      s.fleet.map fun v => if v.id = x then v.getStops else [] := by
    rw [ListEdit.map_mapIdx]
    refine List.ext_getElem (by simp) fun i h1 h2 => ?_
    rw [List.getElem_mapIdx, List.getElem_map]
    exact hvehicle _ (List.getElem_mem _) _
  unfold Solution.getPostgresResult
  rw [group_append, List.filter_append, htotals, List.append_nil, group_flatten, List.filter_flatMap,
    List.flatMap_def, hrows, group_resultRows_eq, Solution.getStops, List.flatMap_map, List.flatMap_def]

/-- The rows name the vehicles of the solution, and one with the number of its violations. -/
theorem mem_vehicleId_getPostgresResult {s : Solution} (hF : ∀ v ∈ s.fleet, Shown M v) {x : ℤ} :
    x ∈ (s.getPostgresResult M).map SolutionRt.vehicleId ↔
      x ∈ s.fleet.map Vehicle.id ∨ x = s.twvTot := by
  unfold Solution.getPostgresResult
  rw [List.map_append, List.mem_append, List.map_singleton, List.mem_singleton]
  refine or_congr_left ⟨fun h => ?_, fun h => ?_⟩
  · obtain ⟨r, hr, rfl⟩ := List.mem_map.mp h
    obtain ⟨rows, hrows, hr⟩ := List.mem_flatten.mp hr
    obtain ⟨i, hi, rfl⟩ := List.mem_mapIdx.mp hrows
    rw [vehicleId_of_mem_vehicleRows (hF _ (List.getElem_mem hi)).noDump hr]
    exact List.mem_map_of_mem (List.getElem_mem hi)
  · obtain ⟨v, hv, rfl⟩ := List.mem_map.mp h
    obtain ⟨i, hi, rfl⟩ := List.getElem_of_mem hv
    have hne : Solution.vehicleRows M (i + 1) s.fleet[i] ≠ [] := fun hnil => by
      have hlen := congrArg List.length (map_orderId_vehicleRows (M := M) (i + 1) (hF _ hv).noDump)
      rw [hnil, nodesOf] at hlen
      simp only [List.map_nil, List.length_nil, List.length_map] at hlen
      exact (hF _ hv).nonempty (List.length_eq_zero_iff.mp hlen.symm)
    obtain ⟨r, hr⟩ := List.exists_mem_of_ne_nil _ hne
    refine List.mem_map.mpr ⟨r, ?_, vehicleId_of_mem_vehicleRows (hF _ hv).noDump hr⟩
    exact List.mem_flatten.mpr ⟨_, List.mem_mapIdx.mpr ⟨i, hi, rfl⟩, hr⟩

end Solution

/-- The stops of an updated row. -/
theorem stops_updateRow_rows (rows : List SolutionRt) (v : VehicleT) :
    (updateRow (stopsOfRows rows) v).stops =
      if v.id ∈ rows.map SolutionRt.vehicleId then
        (group SolutionRt.vehicleId SolutionRt.orderId rows v.id).filter fun x => decide (x ≠ -1)
      else v.stops := by
  unfold updateRow stopsOfRows
  rw [lookup_map_snd, lookup_collect]
  by_cases h : v.id ∈ rows.map SolutionRt.vehicleId
  · rw [if_neg (mt group_eq_nil_iff.mp (not_not.mpr h)), if_pos h]
    rfl
  · rw [if_pos (group_eq_nil_iff.mpr h), if_neg h]
    rfl

/-! ### One processing -/

section Processing
variable {S : Sorter} {M : Matrix} {orders : List OrdersT} {vehicles : List VehicleT} {date : ℤ}

/-- The solution of an undisturbed processing distributes the stops anew, and its rows show it. -/
theorem search_replans {p : PickDeliver} {s : Initialsol.Tabu.InitialSolution}
    (hp : PickDeliver.build S M orders vehicles [] = .ok p)
    (hs : InitialSolution.construct M date true p = .ok s)
    (hu : Undisturbed S M orders vehicles [] date) (hl : ListedOnce orders vehicles [])
    (hn : (vehicles.map VehicleT.id).Nodup) (hid : ∀ o ∈ orders, o.id ≠ -1) (maxCycles : ℕ) :
    let sol := (Optimize.construct S M s.toSolution maxCycles false true).toSolution
    Replans vehicles sol.getStops ∧
      (sol.fleet.map Vehicle.id).Perm ((vehicles.filter VehicleT.takesPart).map VehicleT.id) ∧
      ∀ v ∈ sol.fleet, Shown M v := by
  intro sol
  have hb := PickDeliver.build_built hp
  have hv := construct_valid hb hs
  obtain ⟨R, hR, hids, htwice, hsame⟩ := oneProcessing_spec hu hl maxCycles
  have hone : oneProcessing S M orders vehicles [] maxCycles date = .ok sol.getStops := by
    unfold oneProcessing
    rw [hp]
    simp only [bind, Except.bind, hs]
    rfl
  obtain rfl := Except.ok.inj (hone.symm.trans hR)
  have hgetIds : sol.getStops.map ShortVehicle.id = sol.fleet.map Vehicle.id := by
    unfold Solution.getStops
    rw [List.map_map]
    rfl
  have hsub : ((vehicles.filter VehicleT.takesPart).map VehicleT.id).Sublist
      (vehicles.map VehicleT.id) := List.filter_sublist.map _
  refine ⟨⟨hids.nodup_iff.mpr (hn.sublist hsub), fun w hw => ?_, htwice, hsame⟩, hgetIds ▸ hids, ?_⟩
  · exact hsub.subset (hids.mem_iff.mp (List.mem_map_of_mem hw))
  -- the search keeps the trucks on routes on which every order is whole
  obtain ⟨horders, htrucks, hplaced, -⟩ := construct_undisturbed hb hu hl hp hs
  rw [← horders] at htrucks hplaced
  obtain ⟨ht, hconserves⟩ := construct_trucks S M hv hplaced htrucks maxCycles false true
  obtain ⟨-, hroutes⟩ := run_onTruckRoutes S hv
    (horders.symm ▸ (construct_onTruckRoutes hb hs).mono fun _ hu => hu.hasTruck) maxCycles false true
  have hnamed : ∀ j < s.orders.length, (s.orders.get j).id ≠ -1 := by
    intro j hj
    rw [horders] at hj ⊢
    obtain ⟨o, ho, hoid⟩ := List.mem_map.mp (hb.mem_ids.mpr ⟨j, hj, rfl⟩)
    exact hoid ▸ hid o ho
  intro v hvF
  obtain ⟨u, -, hroute⟩ := hroutes v hvF
  refine ⟨hroute.route.noDump, fun hnil => ?_, fun i => ?_⟩
  · obtain ⟨a, mids, e, hnodes, -⟩ := hroute.route.route
    rw [hnil] at hnodes
    cases hnodes
  · exact stops_vehicleRows i hv.orders (horders ▸ hb.named) hnamed (hconserves.whole v hvF)
      (ht.listable v hvF) (ht.real v hvF) hroute.route.noDump

end Processing

/-! ### Steps and runs -/

/-- The vehicles at a time are those of the table that are active. -/
theorem vehiclesAtTime_perm (table : List VehicleT) (t : ℤ) :
    (vehiclesAtTime table t).Perm (table.filter (isActive t)) :=
  stableSort_perm _ _

theorem known_of_missesOrder {orders : List OrdersT} {vehicles : List VehicleT}
    (h : missesOrder orders vehicles = false) :
    ∀ d ∈ vehicles, ∀ x ∈ d.stops, x ∈ orders.map OrdersT.id := by
  intro d hd x hx
  have hfound : (orderIds orders).has x = true := by
    have hnone := List.any_eq_false.mp (Bool.eq_false_iff.mpr (List.any_eq_false.mp h d hd)) x hx
    simpa using hnone
  obtain ⟨o, ho, rfl⟩ := mem_orderIds.mp (Identifiers.has_iff.mp hfound)
  exact List.mem_map_of_mem ho

section Steps
variable (S : Sorter) (task : OptimizeTask)

/-- The step calls `vrp_pickDeliver`: other vehicles are active than at the last update, and they have
orders. -/
def Processes (s : OptimizeState) (t : ℤ) : Bool :=
  decide (s.prevVehicles ≠ some ((vehiclesAtTime s.table t).map VehicleT.id)) &&
    !(stopIds (vehiclesAtTime s.table t)).isEmpty

/-- The processing of the step, if there is one, is undisturbed. -/
def OptimizeTask.Calm (s : OptimizeState) (t : ℤ) : Prop :=
  Processes s t = true → ∀ M, timedMatrix S (task.ordersAt s.table t) (vehiclesAtTime s.table t)
    task.costs task.multipliers task.factor = .ok M →
    Undisturbed S M (task.ordersAt s.table t) (vehiclesAtTime s.table t) [] task.executionDate

/-- No row of the step names an inactive vehicle that has stops. -/
def OptimizeTask.NamesActive (s : OptimizeState) (t : ℤ) : Prop :=
  Processes s t = true → ∀ rows, task.replyAt S s.table t = .ok (.tuples rows) →
    ∀ v ∈ s.table, isActive t v = false → v.stops ≠ [] → v.id ∉ rows.map SolutionRt.vehicleId

/-- The table is a plan with the stops of the table `table₀`. -/
structure KeepsPlan (table₀ table : List VehicleT) : Prop where
  plan : Plan table
  stops : (table.flatMap VehicleT.stops).Perm (table₀.flatMap VehicleT.stops)

variable {S task} {s : OptimizeState} {t : ℤ}

/-- The orders of the step are those on the stops of its vehicles. -/
theorem OptimizeTask.listedOnce (hids : (task.orders.map OrdersT.id).Nodup) (hp : Plan s.table)
    (hmiss : missesOrder (task.ordersAt s.table t) (vehiclesAtTime s.table t) = false) :
    ListedOnce (task.ordersAt s.table t) (vehiclesAtTime s.table t) [] where
  distinct := hids.sublist (List.filter_sublist.map _)
  twice := (hp.twice.sublist (List.filter_sublist.map _)).perm ((vehiclesAtTime_perm _ t).map _)
  known := known_of_missesOrder hmiss
  listed x hx := by
    obtain ⟨o, ho, rfl⟩ := List.mem_map.mp hx
    exact mem_stopIds.mp (Identifiers.has_iff.mp (List.mem_filter.mp ho).2)

/-- What a reply with rows comes from. -/
theorem OptimizeTask.reply_replans (hids : (task.orders.map OrdersT.id).Nodup)
    (hne : ∀ o ∈ task.orders, o.id ≠ -1) (hp : Plan s.table) (hc : task.Calm S s t)
    (hdo : Processes s t = true) {rows : List SolutionRt}
    (h : task.replyAt S s.table t = .ok (.tuples rows)) :
    ∃ M, ∃ sol : Solution, rows = sol.getPostgresResult M ∧
      Undisturbed S M (task.ordersAt s.table t) (vehiclesAtTime s.table t) [] task.executionDate ∧
      Replans (vehiclesAtTime s.table t) sol.getStops ∧
      (sol.fleet.map Vehicle.id).Perm
        (((vehiclesAtTime s.table t).filter VehicleT.takesPart).map VehicleT.id) ∧
      ∀ v ∈ sol.fleet, Shown M v := by
  obtain ⟨hmiss, M, p, sol₀, hM, hb, hs, rfl⟩ := pickDeliverOn_eq_tuples h
  have hl := task.listedOnce hids hp hmiss
  have hn : ((vehiclesAtTime s.table t).map VehicleT.id).Nodup :=
    ((vehiclesAtTime_perm _ t).map _).nodup_iff.mpr
      (hp.ids.sublist (List.filter_sublist.map _))
  have hu := hc hdo M hM
  exact ⟨M, _, rfl, hu, search_replans hb hs hu hl hn
    (fun o ho => hne o (List.mem_of_mem_filter ho)) _⟩

/-- **The update of a step**: the plan keeps its stops exactly when no row names an inactive vehicle
that has stops. -/
theorem OptimizeTask.update_spec (hids : (task.orders.map OrdersT.id).Nodup)
    (hne : ∀ o ∈ task.orders, o.id ≠ -1) (hp : Plan s.table) (hc : task.Calm S s t)
    (hdo : Processes s t = true) {rows : List SolutionRt}
    (h : task.replyAt S s.table t = .ok (.tuples rows)) :
    KeepsPlan s.table (s.table.map (updateRow (stopsOfRows rows))) ↔
      ∀ v ∈ s.table, isActive t v = false → v.stops ≠ [] →
        v.id ∉ rows.map SolutionRt.vehicleId := by
  obtain ⟨M, sol, rfl, hu, hsol, hfleet, hshown⟩ := task.reply_replans hids hne hp hc hdo h
  have hV := vehiclesAtTime_perm s.table t
  have hstops : ∀ v : VehicleT, (updateRow (stopsOfRows (sol.getPostgresResult M)) v).stops =
      if v.id ∈ (sol.getPostgresResult M).map SolutionRt.vehicleId then
        group Prod.fst Prod.snd (resultRows sol.getStops) v.id else v.stops := fun v => by
    rw [stops_updateRow_rows, stops_getPostgresResult hshown]
  -- a vehicle that is not named takes no part, so it has no stops
  have hin : ∀ v ∈ s.table, isActive t v = true →
      (updateRow (stopsOfRows (sol.getPostgresResult M)) v).stops =
        group Prod.fst Prod.snd (resultRows sol.getStops) v.id := by
    intro v hv hactive
    rw [hstops]
    split_ifs with hnamed
    · rfl
    have hvA := hV.mem_iff.mpr (List.mem_filter.mpr ⟨hv, hactive⟩)
    have hnot : v.id ∉ sol.fleet.map Vehicle.id := fun hid =>
      hnamed ((mem_vehicleId_getPostgresResult hshown).mpr (Or.inl hid))
    have hidle : v.takesPart = false := by
      by_contra htakes
      refine hnot (hfleet.mem_iff.mpr (List.mem_map_of_mem (List.mem_filter.mpr ⟨hvA, ?_⟩)))
      simpa using htakes
    have hnil : v.stops = [] := hu.idle v hvA hidle
    rw [hnil, group_resultRows_of_not_mem]
    unfold Solution.getStops
    rw [List.map_map]
    exact hnot
  have hgone : ∀ v ∈ s.table, isActive t v = false →
      group Prod.fst Prod.snd (resultRows sol.getStops) v.id = [] := fun v hv hinactive =>
    hsol.group_of_not_selected hp.ids hV hv hinactive
  constructor
  · intro hkeeps v hv hinactive hstopsne hnamed
    have hsame := hkeeps.stops
    rw [List.flatMap_map] at hsame
    refine hsol.loses hp.ids hV hin hp.twice (fun u hu hui => ?_) hv hinactive hstopsne ?_ hsame
    · rw [hstops]
      split_ifs
      · rw [hgone u hu hui]
        exact List.nil_subset _
      · exact List.Subset.refl _
    · rw [hstops, if_pos hnamed, hgone v hv hinactive]
  · intro hnames
    have hout : ∀ v ∈ s.table, isActive t v = false →
        (updateRow (stopsOfRows (sol.getPostgresResult M)) v).stops = v.stops := by
      intro v hv hinactive
      rw [hstops]
      split_ifs with hnamed
      · rw [hgone v hv hinactive]
        by_contra hnil
        exact hnames v hv hinactive (Ne.symm hnil) hnamed
      · rfl
    refine ⟨⟨?_, ?_⟩, ?_⟩
    · rw [map_id_updateRow]
      exact hp.ids
    · rw [List.map_map]
      exact hsol.plan hp.ids hV hin hout hp.twice
    · rw [List.flatMap_map]
      exact hsol.conserves hp.ids hV hin hout

/-- The step behind its first test. -/
theorem optimizeStep_eq (hday : dayOf task.executionDate ≤ t) : optimizeStep S task s t =
    if Processes s t then do
      match ← task.replyAt S s.table t with
      | .err _ => return s
      | .notice _ => return { s with
          prevVehicles := some ((vehiclesAtTime s.table t).map VehicleT.id) }
      | .tuples rows => return ⟨s.table.map (updateRow (stopsOfRows rows)),
          some ((vehiclesAtTime s.table t).map VehicleT.id)⟩
    else .ok s := by
  have hpast : throwIf (t < dayOf task.executionDate) "NOT OPTIMIZING: belongs to the past" = .ok () :=
    if_neg (not_lt.mpr hday)
  unfold optimizeStep Processes
  rw [hpast]
  by_cases hprev : s.prevVehicles = some ((vehiclesAtTime s.table t).map VehicleT.id)
  · simp [bind, Except.bind, pure, Except.pure, hprev]
  · cases hempty : (stopIds (vehiclesAtTime s.table t)).isEmpty
    · simp only [bind, Except.bind, if_neg hprev]
      simp [hprev]
    · simp [bind, Except.bind, pure, Except.pure, hprev]

theorem KeepsPlan.refl {table : List VehicleT} (hp : Plan table) : KeepsPlan table table :=
  ⟨hp, .refl _⟩

theorem KeepsPlan.trans {table₀ table₁ table₂ : List VehicleT} (h : KeepsPlan table₀ table₁)
    (h' : KeepsPlan table₁ table₂) : KeepsPlan table₀ table₂ :=
  ⟨h'.plan, h'.stops.trans h.stops⟩

/-- **One step** moves stops only, and keeps the plan with its stops exactly when no row names an
inactive vehicle that has stops. -/
theorem optimizeStep_spec (hids : (task.orders.map OrdersT.id).Nodup)
    (hne : ∀ o ∈ task.orders, o.id ≠ -1) (hday : dayOf task.executionDate ≤ t) (hp : Plan s.table)
    (hc : task.Calm S s t) : ∃ s', optimizeStep S task s t = .ok s' ∧
      s'.table.map (fun v => { v with stops := [] }) =
        s.table.map (fun v => { v with stops := [] }) ∧
      (KeepsPlan s.table s'.table ↔ task.NamesActive S s t) := by
  rw [optimizeStep_eq hday]
  cases hdo : Processes s t with
  | false =>
    refine ⟨s, rfl, rfl, iff_of_true (.refl hp) fun h => ?_⟩
    rw [hdo] at h
    cases h
  | true =>
    obtain ⟨reply, hreply⟩ : ∃ reply, task.replyAt S s.table t = .ok reply :=
      pickDeliverOn_replies S _ _ _ _ _ _
    have hmessage : (∀ rows, reply ≠ .tuples rows) → task.NamesActive S s t :=
      fun hno _ rows h => absurd (Except.ok.inj (hreply.symm.trans h)) (hno rows)
    simp only [if_true, hreply, bind, Except.bind]
    cases reply with
    | err text => exact ⟨s, rfl, rfl, iff_of_true (.refl hp) (hmessage (by simp))⟩
    | notice text => exact ⟨_, rfl, rfl, iff_of_true (.refl hp) (hmessage (by simp))⟩
    | tuples rows =>
      refine ⟨_, rfl, map_columns_updateRow _ _, ?_⟩
      rw [task.update_spec hids hne hp hc hdo hreply]
      refine ⟨fun h _ rows' hrows => ?_, fun h => h hdo rows hreply⟩
      obtain rfl : rows = rows' := by simpa using hreply.symm.trans hrows
      exact h

variable (S task)

/-- Every step of the run is calm, and no row of it names an inactive vehicle that has stops. -/
def OptimizeTask.CalmRun : List ℤ → OptimizeState → Prop
  | [], _ => True
  | t :: times, s => task.Calm S s t ∧ task.NamesActive S s t ∧
      ∀ s', optimizeStep S task s t = .ok s' → OptimizeTask.CalmRun times s'

variable {S task}

/-- **A run** over any times keeps the plan with its stops. -/
theorem optimizeRun_spec (hids : (task.orders.map OrdersT.id).Nodup)
    (hne : ∀ o ∈ task.orders, o.id ≠ -1) : ∀ {times : List ℤ} {s : OptimizeState},
    (∀ t ∈ times, dayOf task.executionDate ≤ t) → Plan s.table → task.CalmRun S times s →
    ∀ pre post, times = pre ++ post → ∃ s', pre.foldlM (optimizeStep S task) s = .ok s' ∧
      s'.table.map (fun v => { v with stops := [] }) =
        s.table.map (fun v => { v with stops := [] }) ∧ KeepsPlan s.table s'.table
  | [], s, _, hp, _, pre, post, he => by
    obtain ⟨rfl, -⟩ := List.append_eq_nil_iff.mp he.symm
    exact ⟨s, rfl, rfl, .refl hp⟩
  | t :: times, s, hday, hp, ⟨hc, hnames, hrest⟩, pre, post, he => by
    obtain ⟨ht, htimes⟩ := List.forall_mem_cons.mp hday
    cases pre with
    | nil => exact ⟨s, rfl, rfl, .refl hp⟩
    | cons u pre =>
      obtain ⟨rfl, hpost⟩ := List.cons.inj he
      obtain ⟨s₁, hs₁, hcols₁, hkeeps₁⟩ := optimizeStep_spec hids hne ht hp hc
      have hk₁ := hkeeps₁.mpr hnames
      obtain ⟨s₂, hs₂, hcols₂, hk₂⟩ := optimizeRun_spec hids hne htimes hk₁.plan (hrest s₁ hs₁) pre post
        hpost
      refine ⟨s₂, ?_, hcols₂.trans hcols₁, hk₁.trans hk₂⟩
      rw [List.foldlM_cons, hs₁]
      exact hs₂

/-- The loop does not look at the past. -/
theorem dayOf_le_optimizeTimes {table : List VehicleT} {date : ℤ}
    (h : ∀ v ∈ table, v.startOpenT ≤ v.endCloseT) :
    ∀ t ∈ (optimizeTimes table date).ids, dayOf date ≤ t := by
  intro t ht
  have hmem := (Identifiers.mem_foldl_foldl_insert
    (fun v : VehicleT => [v.startOpenT, v.endCloseT]) (z := t)
    (table.filter fun v => decide (dayOf date ≤ v.startOpenT)) .empty).mp ht
  rcases hmem with hnone | ⟨v, hv, htv⟩
  · exact absurd hnone (Identifiers.not_mem_empty t)
  · obtain ⟨hv, hday⟩ := List.mem_filter.mp hv
    have hle := h v hv
    have hday := of_decide_eq_true hday
    rcases List.mem_pair.mp htv with rfl | rfl
    · exact hday
    · omega

end Steps

/-- **The procedure keeps the plan.** A step at which the processing is calm moves stops only, and
keeps the plan with its stops exactly when no row names an inactive vehicle that has stops. When every
step is so, the procedure comes to its end, and after each of its times the table is a plan with the
stops that it had at first. -/
theorem optimizeProcedure_keeps_plan (S : Sorter) (task : OptimizeTask)
    (hids : (task.orders.map OrdersT.id).Nodup) (hne : ∀ o ∈ task.orders, o.id ≠ -1) :
    (∀ s t, dayOf task.executionDate ≤ t → Plan s.table → task.Calm S s t →
      ∃ s', optimizeStep S task s t = .ok s' ∧
        s'.table.map (fun v => { v with stops := [] }) =
          s.table.map (fun v => { v with stops := [] }) ∧
        (KeepsPlan s.table s'.table ↔ task.NamesActive S s t)) ∧
    ∀ table, Plan table → (∀ v ∈ table, v.startOpenT ≤ v.endCloseT) →
      task.CalmRun S (optimizeTimes table task.executionDate).ids ⟨table, none⟩ →
      (∃ s, optimizeProcedure S task table = .ok s ∧ KeepsPlan table s.table) ∧
      ∀ pre post, (optimizeTimes table task.executionDate).ids = pre ++ post →
        ∃ s, pre.foldlM (optimizeStep S task) ⟨table, none⟩ = .ok s ∧
          s.table.map (fun v => { v with stops := [] }) =
            table.map (fun v => { v with stops := [] }) ∧ KeepsPlan table s.table := by
  refine ⟨fun s t hday hp hc => optimizeStep_spec hids hne hday hp hc, fun table hp hle hrun => ?_⟩
  have hday : ∀ t ∈ (optimizeTimes table task.executionDate).ids, dayOf task.executionDate ≤ t :=
    dayOf_le_optimizeTimes hle
  refine ⟨?_, optimizeRun_spec hids hne hday hp hrun⟩
  obtain ⟨s, hs, -, hkeeps⟩ := optimizeRun_spec hids hne hday hp hrun _ [] (List.append_nil _).symm
  exact ⟨s, hs, hkeeps⟩

/-! ### Two vehicles, one after the other -/

section Decide
variable (S : Sorter) (task : OptimizeTask)

instance (s : OptimizeState) (t : ℤ) : Decidable (task.Calm S s t) :=
  decidable_of_iff (Processes s t = true →
    ∀ M ∈ (timedMatrix S (task.ordersAt s.table t) (vehiclesAtTime s.table t) task.costs
      task.multipliers task.factor).toOption,
    Undisturbed S M (task.ordersAt s.table t) (vehiclesAtTime s.table t) [] task.executionDate) <| by
    unfold OptimizeTask.Calm
    refine imp_congr_right fun _ => forall_congr' fun M => imp_congr_left ?_
    cases timedMatrix S (task.ordersAt s.table t) (vehiclesAtTime s.table t) task.costs
      task.multipliers task.factor <;> simp [Except.toOption]

instance (s : OptimizeState) (t : ℤ) : Decidable (task.NamesActive S s t) :=
  match h : task.replyAt S s.table t with
  | .ok (.tuples rows) => decidable_of_iff (Processes s t = true → ∀ v ∈ s.table,
      isActive t v = false → v.stops ≠ [] → v.id ∉ rows.map SolutionRt.vehicleId)
      ⟨fun hall hdo rows' h' => by
        obtain rfl : rows = rows' := by simpa [h] using h'
        exact hall hdo,
      fun hall hdo => hall hdo rows h⟩
  | .ok (.notice _) => .isTrue fun _ _ h' => by simp [h] at h'
  | .ok (.err _) => .isTrue fun _ _ h' => by simp [h] at h'
  | .error _ => .isTrue fun _ _ h' => by simp [h] at h'

instance OptimizeTask.CalmRun.decidable : ∀ (times : List ℤ) (s : OptimizeState),
    Decidable (task.CalmRun S times s)
  | [], _ => .isTrue trivial
  | t :: times, s =>
    match h : optimizeStep S task s t with
    | .ok s' =>
      have := OptimizeTask.CalmRun.decidable times s'
      decidable_of_iff (task.Calm S s t ∧ task.NamesActive S s t ∧ task.CalmRun S times s')
        (by simp [OptimizeTask.CalmRun, h])
    | .error _ => decidable_of_iff (task.Calm S s t ∧ task.NamesActive S s t)
        (by simp [OptimizeTask.CalmRun, h])

end Decide

/-- The vehicle 7 until the time 100, and another one from the time 200 on. -/
def shiftTable (id : ℤ) : List VehicleT :=
  [smallVehicleData 7 [1, 1], { smallVehicleData id [2, 2] with
    startOpenT := 200, startCloseT := 300, endOpenT := 200, endCloseT := 300 }]

def smallTask : OptimizeTask :=
  ⟨[smallOrderData 1 100, smallOrderData 2 1000], [⟨1, 2, 5⟩], [⟨0, 1⟩], 0, 1, 1⟩

theorem optimizeProcedure_keeps_plan_small :
    (∃ s', optimizeStep .insertion smallTask ⟨shiftTable 0, none⟩ 0 = .ok s' ∧
      (KeepsPlan (shiftTable 0) s'.table ↔
        smallTask.NamesActive .insertion ⟨shiftTable 0, none⟩ 0)) ∧
    ∃ s, optimizeProcedure .insertion smallTask (shiftTable 8) = .ok s ∧
      KeepsPlan (shiftTable 8) s.table := by
  obtain ⟨hstep, hrun⟩ := optimizeProcedure_keeps_plan .insertion smallTask (by decide) (by decide)
  obtain ⟨s', hs', -, hiff⟩ := hstep ⟨shiftTable 0, none⟩ 0 (by decide) (by decide) (by decide +kernel)
  exact ⟨⟨s', hs', hiff⟩, (hrun (shiftTable 8) (by decide) (by decide) (by decide +kernel)).1⟩

/-- The row with the totals has no violations, so it has the identifier of the vehicle 0, which is
not active yet: the order 2 is lost. -/
example :
    Plan (shiftTable 0) ∧ smallTask.Calm .insertion ⟨shiftTable 0, none⟩ 0 ∧
    (optimizeStep .insertion smallTask ⟨shiftTable 0, none⟩ 0).map
      (fun s => s.table.map VehicleT.stops) = .ok [[1, 1], []] := by
  refine ⟨by decide, ?_, ?_⟩ <;> decide +kernel

end Driver

end VrpRouting
