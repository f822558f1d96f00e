import VrpRouting.Driver.Distances
import VrpRouting.Driver.Service
import VrpRouting.InitialSol.SimpleService
import VrpRouting.Lib.BestSoFar
import VrpRouting.Optimizers.SimpleProgress

/-! # The replies of `pgr_pickDeliver`

With the initial solution 0 the driver starts from the first least one of six constructions
(`getInitialSolution_firstLeast`), and the optimizer does not make it worse, so the reply needs no
more vehicles than any of the six that is without violations (`vrpDoPgrPickDeliver_least`). Whatever the
initial solution, a reply with rows serves every order (`vrpDoPgrPickDeliver_serves`): a construction
that ends has put each order on one truck, and the optimizer conserves the orders. -/

open Sorting

namespace VrpRouting.Driver

open Pgget
open BestSoFar (IsFirstLeast)
open Initialsol.Simple (InitialsCode InitialSolution)
open Initialsol.Simple.InitialSolution (Reached)
open Optimizers.Simple (Optimize score)

/-! ### The initial solution -/

section Initial
variable {M : Matrix} {fuel : ℕ} {p : PickDeliver} {sol sol' : Solution}

/-- The construction of a kind ends with the solution. -/
def Constructs (M : Matrix) (fuel : ℕ) (p : PickDeliver) (kind : InitialsCode) (sol : Solution) : Prop :=
  ∃ s, InitialSolution.construct M kind fuel p = .ok (some s) ∧ s.toSolution = sol

/-- The loop over the codes keeps the best one of the solutions. -/
theorem tryCodes_eq : ∀ {kinds : List InitialsCode} {sol : Solution},
    tryCodes M fuel p sol kinds = .ok (some sol') →
    ∃ sols, List.Forall₂ (Constructs M fuel p) kinds sols ∧ sol' = sols.foldl
      (fun best s => if s.costKey < best.costKey then s else best) sol
  | [], sol, h => by
    obtain rfl := Option.some.inj (Except.ok.inj h)
    exact ⟨[], .nil, rfl⟩
  | kind :: kinds, sol, h => by
    unfold tryCodes at h
    obtain ⟨r, hr, h⟩ := bind_eq_ok h
    cases r with
    | none => cases Except.ok.inj h
    | some s =>
      obtain ⟨sols, hsols, heq⟩ := tryCodes_eq h
      refine ⟨s.toSolution :: sols, .cons ⟨s, hr, rfl⟩ hsols, ?_⟩
      rw [heq, List.foldl_cons]
      simp only [Solution.lt_iff]

/-- **The code 0 stands for the first least one of six solutions.** -/
theorem getInitialSolution_firstLeast (h : getInitialSolution M fuel p 0 = .ok (some sol)) :
    ∃ sols, List.Forall₂ (Constructs M fuel p) ([1, 2, 3, 4, 5, 6].map InitialsCode.ofValue) sols ∧
      IsFirstLeast Solution.costKey sols sol := by
  unfold getInitialSolution at h
  rw [if_pos rfl] at h
  obtain ⟨r, hr, h⟩ := bind_eq_ok h
  cases r with
  | none => cases Except.ok.inj h
  | some s =>
    obtain ⟨sols, hsols, rfl⟩ := tryCodes_eq h
    exact ⟨s.toSolution :: sols, .cons ⟨s, hr, rfl⟩ hsols, BestSoFar.isFirstLeast_foldl _ _ _⟩

/-- A constructed solution is the end of a loop over trucks. -/
theorem Constructs.reached {kind : InitialsCode} (hk : kind ≠ .oneTruck)
    (h : Constructs M fuel p kind sol) :
    ∃ s, Reached M kind p s ∧ s.unassigned.isEmpty = true ∧ s.toSolution = sol := by
  obtain ⟨s, hs, rfl⟩ := h
  have hfoo : InitialSolution.doWhileFoo M kind fuel (InitialSolution.start p) = .ok (some s) := by
    unfold InitialSolution.construct at hs
    split at hs
    · exact absurd rfl hk
    · exact hs
  obtain ⟨hreach, hend⟩ := InitialSolution.reaches_of_doWhileFoo fuel hfoo
  exact ⟨s, hreach, hend, rfl⟩

theorem ofValue_ne_oneTruck {n : ℕ} (h : n ≠ 0) : InitialsCode.ofValue n ≠ .oneTruck := by
  unfold InitialsCode.ofValue
  split <;> simp at h ⊢

theorem getInitialSolution_reached {id : ℕ} (h : getInitialSolution M fuel p id = .ok (some sol)) :
    ∃ kind s, Reached M kind p s ∧ s.unassigned.isEmpty = true ∧ s.toSolution = sol := by
  by_cases hid : id = 0
  · subst hid
    obtain ⟨sols, hsols, hleast⟩ := getInitialSolution_firstLeast h
    obtain ⟨kind, hkind, hc⟩ := ListEdit.exists_mem_of_forall₂ hsols hleast.mem
    have hne : kind ≠ .oneTruck := by
      obtain ⟨n, hn, rfl⟩ := List.mem_map.mp hkind
      refine ofValue_ne_oneTruck ?_
      rintro rfl
      simp at hn
    exact ⟨kind, hc.reached hne⟩
  · unfold getInitialSolution at h
    rw [if_neg hid] at h
    obtain ⟨r, hr, h⟩ := bind_eq_ok h
    obtain ⟨s, rfl, hs⟩ := Option.map_eq_some_iff.mp (Except.ok.inj h)
    exact ⟨_, Constructs.reached (ofValue_ne_oneTruck hid) ⟨s, hr, hs⟩⟩

end Initial

/-! ### From the problem to the rows -/

/-- What lies behind the rows of a reply. -/
structure Solves (S : Sorter) (M : Matrix) (fuel : ℕ) (orders : List OrdersT)
    (vehicles : List VehicleT) (maxCycles : ℤ) (initialId : ℕ) (rows : List SolutionRt)
    (p : PickDeliver) (sol : Solution) (o : Optimize) : Prop where
  problem : PickDeliver.build S M orders vehicles [] = .ok p
  initial : getInitialSolution M fuel p initialId = .ok (some sol)
  optimized : Optimize.construct S M fuel sol maxCycles.toNat (.ofValue initialId) =
    some (.ok o)
  rows : rows = o.toSolution.getPostgresResult M

section Solve
variable {S : Sorter} {M : Matrix} {fuel : ℕ} {orders : List OrdersT} {vehicles : List VehicleT}
  {maxCycles : ℤ} {id : ℕ} {rows : List SolutionRt}

theorem solve_eq_tuples
    (h : solve S M fuel orders vehicles maxCycles id = .ok (some (.tuples rows))) :
    ∃ p sol o, Solves S M fuel orders vehicles maxCycles id rows p sol o := by
  unfold solve at h
  obtain ⟨p, hp, h⟩ := bind_eq_ok h
  obtain ⟨r, hr, h⟩ := bind_eq_ok h
  cases r with
  | none => cases Except.ok.inj h
  | some sol =>
    dsimp only at h
    split at h
    · cases Except.ok.inj h
    · next r ho =>
      obtain ⟨o, rfl, h⟩ := bind_eq_ok h
      cases Option.some.inj (Except.ok.inj h)
      exact ⟨p, sol, o, hp, hr, ho, rfl⟩

/-- What the rows say about the orders: each one is served once, with a given vehicle or a phony one,
and no other row is that of a pickup or a delivery. -/
structure ServesAll (orders : List OrdersT) (vehicles : List VehicleT) (rows : List SolutionRt) :
    Prop where
  order : ∀ o ∈ orders, ∃ order : Order, (order.id = o.id ∧ order.pickup.id = o.pickNodeId ∧
    order.delivery.id = o.deliverNodeId) ∧
    ∃ vehicleId, (vehicleId = -1 ∨ ∃ d ∈ vehicles, d.id = vehicleId) ∧ ServesOnce order vehicleId rows
  row : ∀ r ∈ rows, r.stopType = 1 ∨ r.stopType = 2 → ∃ o ∈ orders, r.orderId = o.id

/-- The pickups of a problem are valid when their windows are more than an instant. -/
theorem isPickup_of_build {p : PickDeliver} (hb : p.Built S M orders vehicles [])
    (hf : ∀ o ∈ orders, o.Accepted) (hstrict : ∀ o ∈ orders, o.pickOpenT < o.pickCloseT) :
    ∀ i < p.orders.length, (p.orders.get i).pickup.isPickup = true := by
  intro i hi
  have hlt : i < (S.sort ordersLt orders).length := by
    rw [S.length_sort, ← hb.length]
    exact hi
  have hmem := (S.mem_sort ordersLt).mp (List.getElem_mem hlt)
  have hacc := hf _ hmem
  rw [← hb.orders.pickup, sortedOrders, Orders.get_ofData hlt]
  have h1 := hacc.demand
  have h2 := hacc.pickService
  have h3 := hstrict _ hmem
  show (TwNode.ofOrder _ _ .kPickup).isPickup = true
  simp [TwNode.isPickup, TwNode.ofOrder, h1, h2, h3]

/-- **A solution serves every order.** -/
theorem solve_serves (h : solve S M fuel orders vehicles maxCycles id = .ok (some (.tuples rows)))
    (hf : ∀ o ∈ orders, o.Accepted) (hids : (orders.map OrdersT.id).Nodup)
    (hstrict : ∀ o ∈ orders, o.pickOpenT < o.pickCloseT) : ServesAll orders vehicles rows := by
  obtain ⟨p, sol, o, hsolve⟩ := solve_eq_tuples h
  have hb := PickDeliver.build_built hsolve.problem
  obtain ⟨kind, s, hreach, hend, rfl⟩ := getInitialSolution_reached hsolve.initial
  obtain ⟨hsound, hkeeps, hone⟩ := hreach.sound_keeps hb (isPickup_of_build hb hf hstrict) hend
  have horders : s.orders = p.orders := (InitialSolution.Reached.ofProblem hb hreach).orders
  -- the optimizer conserves the orders and keeps the trucks on routes
  have hrun := Optimizers.Simple.construct_run hsolve.optimized
  have hkept : Optimizers.Simple.Keeps p.orders s.fleet o.fleet := by
    have h := (hsound.run_keeps (by rw [horders]; exact hkeeps) S M (.ofValue id) o.acts).fleet
    rw [← hrun, horders] at h
    exact h
  have hroutes : OnTruckRoutes M p.orders p.HasTruck o.fleet := by
    have h := (Reachable.simpleFleet (.simpleSolution hreach) horders (.ofValue id)
      o.acts).onTruckRoutes (S := S) hb
    rwa [← hrun] at h
  have hF : ∀ v ∈ o.fleet, NoDump v.path ∧ KnownStops p.orders v := fun v hv => by
    obtain ⟨u, hu, hroute⟩ := hroutes v hv
    exact ⟨hroute.route.noDump, hroute.knownStops hb hu⟩
  have hd := hb.distinct hids
  rw [hsolve.rows]
  constructor
  · intro d hd'
    obtain ⟨i, hi, hdata⟩ := hb.exists_index hd'
    obtain ⟨hserves, -⟩ := o.toSolution.serves_of_carriers M hb.wellFormed hb.named hd hF hi
      fun v hv => (hkept.tidy v hv).whole i hi
    obtain ⟨v, hv, -, hs⟩ := hserves ((hkept.same i hi).trans (hone i hi))
    obtain ⟨u, hu, hroute⟩ := hroutes v hv
    exact ⟨p.orders.get i, hdata, v.id, hroute.id ▸ PickDeliver.HasTruck.id_eq hb hu, hs⟩
  · intro r hr hk
    obtain ⟨i, hi, hid⟩ := o.toSolution.exists_order_of_row M hb.named hF hr hk
    obtain ⟨d, hd', hdid⟩ := List.mem_map.mp (hb.mem_ids.mpr ⟨i, hi, rfl⟩)
    exact ⟨d, hd', hid.trans hdid.symm⟩

/-- The optimizer does not make a solution worse. -/
theorem construct_score_le {sol : Solution} {times : ℕ} {kind : InitialsCode} {o : Optimize}
    (h : Optimize.construct S M fuel sol times kind = some (.ok o)) :
    score o.fleet ≤ score sol.fleet := by
  have himproves : Optimizers.Simple.Improves sol.fleet
      (Optimizers.Simple.run S M (.init sol kind) o.acts) :=
    List.foldlRecOn (motive := Optimizers.Simple.Improves sol.fleet) o.acts _ (.init sol kind)
      fun _ h a _ => h.act S M a
  rw [← Optimizers.Simple.construct_run h] at himproves
  have hperm := Optimizers.Simple.construct_fleet h
  exact (Optimizers.Simple.score_perm hperm).trans_le himproves.neverWorse.le

/-- **The reply for the code 0 is no worse than any of the six constructions**: there is a fleet
behind the rows with at most as many vehicles as each one of them that is without violations. -/
theorem solve_least (h : solve S M fuel orders vehicles maxCycles 0 = .ok (some (.tuples rows))) :
    ∃ p sols best o, PickDeliver.build S M orders vehicles [] = .ok p ∧
      List.Forall₂ (Constructs M fuel p) ([1, 2, 3, 4, 5, 6].map InitialsCode.ofValue) sols ∧
      IsFirstLeast Solution.costKey sols best ∧
      rows = Solution.getPostgresResult M o ∧ score o.fleet ≤ score best.fleet ∧
      ∀ s ∈ sols, s.twvTot = 0 → s.cvTot = 0 → o.fleet.length ≤ s.fleet.length := by
  obtain ⟨p, best, o, hsolve⟩ := solve_eq_tuples h
  obtain ⟨sols, hsols, hleast⟩ := getInitialSolution_firstLeast hsolve.initial
  have hscore := construct_score_le hsolve.optimized
  refine ⟨p, sols, best, o.toSolution, hsolve.problem, hsols, hleast, hsolve.rows, hscore, ?_⟩
  intro s hs htwv hcv
  obtain ⟨-, -, hle⟩ := Solution.of_costKey_le (hleast.le hs) htwv hcv
  rcases (Prod.Lex.toLex_le_toLex).mp hscore with hlt | ⟨heq, -⟩
  · exact hlt.le.trans hle
  · exact heq.le.trans hle

end Solve

/-! ### The drivers -/

section Drivers
variable {S : Sorter} {toUtc : ℤ → ℤ} {fuel : ℕ} {args : PgrParameters} {rows : List SolutionRt}

theorem withRows_eq_ok {γ β : Type} {empty reply : β} {x : Except Fault (List γ)}
    {process : List γ → Except Fault β} (h : withRows empty x process = .ok reply)
    (hne : empty ≠ reply) : ∃ r, x = .ok r ∧ process r = .ok reply := by
  obtain ⟨r, hr, h⟩ := bind_eq_ok h
  split_ifs at h
  · exact absurd (Except.ok.inj h) hne
  · exact ⟨r, hr, h⟩

/-- What lies behind a reply of `pgr_pickDeliver` with rows. -/
theorem vrpDoPgrPickDeliver_eq_tuples {ordersRows vehiclesRows matrixRows : List Tuple}
    (h : vrpDoPgrPickDeliver S toUtc fuel ordersRows vehiclesRows matrixRows args =
      .ok (some (.tuples rows))) :
    ∃ orders vehicles costs M, getOrders toUtc false false ordersRows = .ok orders ∧
      getVehicles toUtc false false false vehiclesRows = .ok vehicles ∧
      getMatrix toUtc false matrixRows = .ok costs ∧
      verifyCells (.ofCells costs (nodeIds orders vehicles).ids args.factor) = .ok M ∧
      solve S M fuel orders vehicles args.maxCycles args.initialSolutionId.toNat =
        .ok (some (.tuples rows)) := by
  unfold vrpDoPgrPickDeliver at h
  split at h
  · cases Option.some.inj (Except.ok.inj h)
  have h := caught_eq_ok h (by simp)
  obtain ⟨orders, ho, h⟩ := withRows_eq_ok h (by simp)
  obtain ⟨vehicles, hv, h⟩ := withRows_eq_ok h (by simp)
  obtain ⟨costs, hc, h⟩ := withRows_eq_ok h (by simp)
  obtain ⟨M, hM, h⟩ := bind_eq_ok h
  exact ⟨orders, vehicles, costs, M, ho, hv, hc, hM, h⟩

/-- What lies behind a reply of `pgr_pickDeliverEuclidean` with rows. -/
theorem vrpDoPgrPickDeliverEuclidean_eq_tuples {sqrt : ℚ → ℚ} {ordersRows vehiclesRows : List Tuple}
    (h : vrpDoPgrPickDeliverEuclidean S sqrt toUtc fuel ordersRows vehiclesRows args =
      .ok (some (.tuples rows))) :
    ∃ orders vehicles,
      getData (ordersInfo true false) (fetchLocatedOrders toUtc (ordersInfo true false)) ordersRows =
        .ok orders ∧
      getData (vehiclesInfo true false false)
        (fetchLocatedVehicles toUtc (vehiclesInfo true false false)) vehiclesRows = .ok vehicles ∧
      processEuclidean S sqrt fuel orders vehicles args = .ok (some (.tuples rows)) := by
  unfold vrpDoPgrPickDeliverEuclidean at h
  split at h
  · cases Option.some.inj (Except.ok.inj h)
  have h := caught_eq_ok h (by simp)
  obtain ⟨orders, ho, h⟩ := withRows_eq_ok h (by simp)
  obtain ⟨vehicles, hv, h⟩ := withRows_eq_ok h (by simp)
  exact ⟨orders, vehicles, ho, hv, h⟩

/-- The coordinates do not matter for what is accepted. -/
theorem accepted_setNodes {tuple : Tuple} {o : LocatedOrder}
    (h : fetchLocatedOrders toUtc (ordersInfo true false) tuple = .ok o)
    (id : ℚ × ℚ → ℤ) : (o.setNodes id).Accepted := by
  unfold fetchLocatedOrders at h
  obtain ⟨d, hd, h⟩ := bind_eq_ok h
  obtain ⟨pick, -, h⟩ := bind_eq_ok h
  obtain ⟨deliver, -, h⟩ := bind_eq_ok h
  obtain rfl := Except.ok.inj h
  exact OrdersT.Fetched.accepted ⟨toUtc, true, false, tuple, d, _, _, hd, rfl⟩

/-- **A reply with rows serves every order once**, with and without a matrix query. -/
theorem vrpDoPgrPickDeliver_serves (S : Sorter) (sqrt : ℚ → ℚ) (toUtc : ℤ → ℤ) (fuel : ℕ)
    (ordersRows vehiclesRows matrixRows : List Tuple) (args : PgrParameters) :
    (∀ orders rows, getOrders toUtc false false ordersRows = .ok orders →
      (orders.map OrdersT.id).Nodup → (∀ o ∈ orders, o.pickOpenT < o.pickCloseT) →
      vrpDoPgrPickDeliver S toUtc fuel ordersRows vehiclesRows matrixRows args =
        .ok (some (.tuples rows)) →
      ∃ vehicles, getVehicles toUtc false false false vehiclesRows = .ok vehicles ∧
        ServesAll orders vehicles rows) ∧
    ∀ orders rows,
      getData (ordersInfo true false) (fetchLocatedOrders toUtc (ordersInfo true false)) ordersRows =
        .ok orders →
      (orders.map fun o => o.id).Nodup → (∀ o ∈ orders, o.pickOpenT < o.pickCloseT) →
      vrpDoPgrPickDeliverEuclidean S sqrt toUtc fuel ordersRows vehiclesRows args =
        .ok (some (.tuples rows)) →
      ∃ vehicles,
        getData (vehiclesInfo true false false)
          (fetchLocatedVehicles toUtc (vehiclesInfo true false false)) vehiclesRows = .ok vehicles ∧
        ServesAll (orders.map (LocatedOrder.setNodes (idOf (matrixData orders vehicles))))
          (vehicles.map (LocatedVehicle.setNodes (idOf (matrixData orders vehicles)))) rows := by
  constructor
  · intro orders rows ho hids hstrict h
    obtain ⟨orders', vehicles, costs, M, ho', hv, -, -, hsolve⟩ := vrpDoPgrPickDeliver_eq_tuples h
    obtain rfl := Except.ok.inj (ho.symm.trans ho')
    exact ⟨vehicles, hv, solve_serves hsolve (fun o hmem => (getOrders_fetched ho o hmem).accepted)
      hids hstrict⟩
  · intro orders rows ho hids hstrict h
    obtain ⟨orders', vehicles, ho', hv, hsolve⟩ := vrpDoPgrPickDeliverEuclidean_eq_tuples h
    obtain rfl := Except.ok.inj (ho.symm.trans ho')
    refine ⟨vehicles, hv, solve_serves hsolve (fun o hmem => ?_) ?_ fun o hmem => ?_⟩
    · obtain ⟨l, hl, rfl⟩ := List.mem_map.mp hmem
      obtain ⟨t, -, ht⟩ := exists_fetched ho l hl
      exact accepted_setNodes ht _
    · rw [List.map_map]
      exact hids
    · obtain ⟨l, hl, rfl⟩ := List.mem_map.mp hmem
      exact hstrict l hl

/-- **With the initial solution 0 a reply needs no more vehicles than any of the six constructions**
that is without violations. -/
theorem vrpDoPgrPickDeliver_least (S : Sorter) (toUtc : ℤ → ℤ) (fuel : ℕ)
    (ordersRows vehiclesRows matrixRows : List Tuple) (args : PgrParameters) (rows : List SolutionRt)
    (hid : args.initialSolutionId = 0)
    (h : vrpDoPgrPickDeliver S toUtc fuel ordersRows vehiclesRows matrixRows args =
      .ok (some (.tuples rows))) :
    ∃ orders vehicles costs M p, getOrders toUtc false false ordersRows = .ok orders ∧
      getVehicles toUtc false false false vehiclesRows = .ok vehicles ∧
      getMatrix toUtc false matrixRows = .ok costs ∧
      verifyCells (.ofCells costs (nodeIds orders vehicles).ids args.factor) = .ok M ∧
      PickDeliver.build S M orders vehicles [] = .ok p ∧
      ∃ sols best o,
        List.Forall₂ (Constructs M fuel p) ([1, 2, 3, 4, 5, 6].map InitialsCode.ofValue) sols ∧
        IsFirstLeast Solution.costKey sols best ∧
        rows = Solution.getPostgresResult M o ∧ score o.fleet ≤ score best.fleet ∧
        ∀ s ∈ sols, s.twvTot = 0 → s.cvTot = 0 → o.fleet.length ≤ s.fleet.length := by
  obtain ⟨orders, vehicles, costs, M, ho, hv, hc, hM, hsolve⟩ := vrpDoPgrPickDeliver_eq_tuples h
  rw [hid] at hsolve
  obtain ⟨p, sols, best, o, hp, hleast⟩ := solve_least hsolve
  exact ⟨orders, vehicles, costs, M, p, ho, hv, hc, hM, hp, sols, best, o, hleast⟩

/-- The reply has rows. -/
def hasRows : Option (Reply SolutionRt) → Bool
  | some (.tuples _) => true
  | _ => false

theorem exists_rows {x : Except Fault (Option (Reply SolutionRt))}
    (h : x.toOption.any hasRows = true) : ∃ rows, x = .ok (some (.tuples rows)) := by
  obtain ⟨r, hr, hrows⟩ := exists_ok_and hasRows h
  unfold hasRows at hrows
  split at hrows
  · exact ⟨_, hr⟩
  · cases hrows

/-- Two orders and a vehicle, with the kind `BestInsert`. -/
theorem vrpDoPgrPickDeliver_serves_small :
    (∃ rows vehicles, vrpDoPgrPickDeliver .insertion (fun t => t) 3 smallQueries.orders
      smallQueries.vehicles smallQueries.matrix ⟨1, 1, 4⟩ = .ok (some (.tuples rows)) ∧
      ServesAll [smallOrderData 1 100, smallOrderData 2 100] vehicles rows) ∧
    ∃ orders vehicles rows, vrpDoPgrPickDeliverEuclidean .insertion smallSqrt (fun t => t) 3
      [smallPointsOrderTuple 1, smallPointsOrderTuple 2] [smallPointsVehicleTuple 7] ⟨1, 1, 4⟩ =
        .ok (some (.tuples rows)) ∧ ServesAll orders vehicles rows := by
  constructor
  · obtain ⟨rows, hrows⟩ := exists_rows (x := vrpDoPgrPickDeliver .insertion (fun t => t) 3
      smallQueries.orders smallQueries.vehicles smallQueries.matrix ⟨1, 1, 4⟩) (by decide +kernel)
    obtain ⟨vehicles, -, h⟩ := (vrpDoPgrPickDeliver_serves .insertion smallSqrt (fun t => t) 3
      smallQueries.orders smallQueries.vehicles smallQueries.matrix ⟨1, 1, 4⟩).1 _ rows
      smallQueries_fetches.getOrders (by decide) (by decide) hrows
    exact ⟨rows, vehicles, hrows, h⟩
  · obtain ⟨rows, hrows⟩ := exists_rows (x := vrpDoPgrPickDeliverEuclidean .insertion smallSqrt
      (fun t => t) 3 [smallPointsOrderTuple 1, smallPointsOrderTuple 2] [smallPointsVehicleTuple 7]
      ⟨1, 1, 4⟩) (by decide +kernel)
    obtain ⟨orders, ho, htest⟩ := exists_ok_and (x := getData (ordersInfo true false)
      (fetchLocatedOrders (fun t => t) (ordersInfo true false))
      [smallPointsOrderTuple 1, smallPointsOrderTuple 2]) (fun orders =>
        decide ((orders.map fun o : LocatedOrder => o.id).Nodup ∧ ∀ o ∈ orders, o.pickOpenT < o.pickCloseT))
      (by decide +kernel)
    obtain ⟨hids, hstrict⟩ := of_decide_eq_true htest
    obtain ⟨vehicles, -, h⟩ := (vrpDoPgrPickDeliver_serves .insertion smallSqrt (fun t => t) 3
      [smallPointsOrderTuple 1, smallPointsOrderTuple 2] [smallPointsVehicleTuple 7] []
      ⟨1, 1, 4⟩).2 orders rows ho hids hstrict hrows
    exact ⟨_, _, rows, hrows, h⟩

theorem vrpDoPgrPickDeliver_least_small : ∃ rows M p sols best o,
    vrpDoPgrPickDeliver .insertion (fun t => t) 3 smallQueries.orders smallQueries.vehicles
      smallQueries.matrix ⟨1, 1, 0⟩ = .ok (some (.tuples rows)) ∧
    List.Forall₂ (Constructs M 3 p) ([1, 2, 3, 4, 5, 6].map InitialsCode.ofValue) sols ∧
    IsFirstLeast Solution.costKey sols best ∧
    rows = Solution.getPostgresResult M o ∧ score o.fleet ≤ score best.fleet := by
  obtain ⟨rows, hrows⟩ := exists_rows (x := vrpDoPgrPickDeliver .insertion (fun t => t) 3
    smallQueries.orders smallQueries.vehicles smallQueries.matrix ⟨1, 1, 0⟩) (by decide +kernel)
  obtain ⟨_, _, _, M, p, -, -, -, -, -, sols, best, o, hsols, hleast, hresult, hscore, -⟩ :=
    vrpDoPgrPickDeliver_least .insertion (fun t => t) 3 smallQueries.orders smallQueries.vehicles
      smallQueries.matrix ⟨1, 1, 0⟩ rows rfl hrows
  exact ⟨rows, M, p, sols, best, o, hrows, hsols, hleast, hresult, hscore⟩

end Drivers

end VrpRouting.Driver
