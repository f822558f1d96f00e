import VrpRouting.Driver.Distances

/-! # The order of the rows for `pgr_pickDeliver`

The two drivers sort their orders and vehicles like the other ones, and the numbers of the points
come from a map, so their replies do not depend on the order of the rows either. -/

open Sorting

namespace VrpRouting.Driver

open Pgget

section Data
variable {orders orders' : List LocatedOrder} {vehicles vehicles' : List LocatedVehicle}

/-- The numbers of the points do not depend on the order of the rows. -/
theorem matrixData_perm (ho : orders'.Perm orders) (hv : vehicles'.Perm vehicles) :
    matrixData orders' vehicles' = matrixData orders vehicles := by
  have hpoints : pointsOf orders' vehicles' = pointsOf orders vehicles :=
    Identifiers.ext_iff.mpr fun x => by
      rw [show x = toLex (ofLex x) from rfl, mem_pointsOf, mem_pointsOf]
      simp only [IsSite, ho.mem_iff, hv.mem_iff]
  unfold matrixData
  rw [hpoints]

end Data

section Replies
variable {S : Sorter} {toUtc : ℤ → ℤ} {fuel : ℕ}

theorem solve_perm {M : Matrix} {orders orders' : List OrdersT} {vehicles vehicles' : List VehicleT}
    (ho : orders'.Perm orders) (hno : (orders.map OrdersT.id).Nodup) (hv : vehicles'.Perm vehicles)
    (hnv : (vehicles.map VehicleT.id).Nodup) (maxCycles : ℤ) (id : ℕ) :
    solve S M fuel orders' vehicles' maxCycles id = solve S M fuel orders vehicles maxCycles id := by
  unfold solve
  rw [PickDeliver.build_perm S M [] ho hno hv hnv]

/-- Rows in another order are processed alike. -/
theorem withRows_perm {γ β : Type} (empty : β) {r r' : List γ} (hp : r'.Perm r)
    {f g : List γ → Except Fault β} (h : g r' = f r) :
    withRows empty (.ok r') g = withRows empty (.ok r) f := by
  show (if r'.length = 0 then _ else g r') = if r.length = 0 then _ else f r
  rw [hp.length_eq, h]

/-- **The replies of the two drivers do not depend on the order of the rows.** -/
theorem vrpDoPgrPickDeliver_row_order (S : Sorter) (sqrt : ℚ → ℚ) (toUtc : ℤ → ℤ) (fuel : ℕ)
    (args : PgrParameters) {qo qo' qv qv' qm qm' : List Tuple} (hso : SameColumns qo)
    (hsv : SameColumns qv) (hsm : SameColumns qm) (hpo : qo'.Perm qo) (hpv : qv'.Perm qv)
    (hpm : qm'.Perm qm) :
    (∀ orders vehicles costs, getOrders toUtc false false qo = .ok orders →
      getVehicles toUtc false false false qv = .ok vehicles → getMatrix toUtc false qm = .ok costs →
      DistinctKeys orders vehicles costs [] args.factor →
      vrpDoPgrPickDeliver S toUtc fuel qo' qv' qm' args =
        vrpDoPgrPickDeliver S toUtc fuel qo qv qm args) ∧
    ∀ orders vehicles,
      getData (ordersInfo true false) (fetchLocatedOrders toUtc (ordersInfo true false)) qo =
        .ok orders →
      getData (vehiclesInfo true false false)
        (fetchLocatedVehicles toUtc (vehiclesInfo true false false)) qv = .ok vehicles →
      (orders.map fun o => o.id).Nodup → (vehicles.map fun v => v.id).Nodup →
      vrpDoPgrPickDeliverEuclidean S sqrt toUtc fuel qo' qv' args =
        vrpDoPgrPickDeliverEuclidean S sqrt toUtc fuel qo qv args := by
  constructor
  · intro orders vehicles costs ho hv hc hk
    obtain ⟨orders', ho', hpo⟩ := getData_perm hso hpo ho
    obtain ⟨vehicles', hv', hpv⟩ := getData_perm hsv hpv hv
    obtain ⟨costs', hc', hpc⟩ := getData_perm hsm hpm hc
    have hprocess : processPgrPickDeliver S fuel orders' vehicles' costs' args =
        processPgrPickDeliver S fuel orders vehicles costs args := by
      unfold processPgrPickDeliver Matrix.ofCells
      rw [nodeIds_perm hpo hpv, BaseMatrix.ofCells_perm _ hk.pairs hk.fit hpc]
      simp only [solve_perm hpo hk.orderIds hpv hk.vehicleIds]
    unfold vrpDoPgrPickDeliver getOrders getVehicles getMatrix at *
    rw [ho, ho', hv, hv', hc, hc']
    split
    · rfl
    refine congrArg (caught _) (withRows_perm _ hpo ?_)
    refine withRows_perm _ hpv ?_
    refine withRows_perm _ hpc ?_
    exact hprocess
  · intro orders vehicles ho hv hno hnv
    obtain ⟨orders', ho', hpo⟩ := getData_perm hso hpo ho
    obtain ⟨vehicles', hv', hpv⟩ := getData_perm hsv hpv hv
    have hprocess : processEuclidean S sqrt fuel orders' vehicles' args =
        processEuclidean S sqrt fuel orders vehicles args := by
      unfold processEuclidean
      rw [matrixData_perm hpo hpv]
      refine solve_perm (hpo.map _) ?_ (hpv.map _) ?_ _ _
      · rw [List.map_map]
        exact hno
      · rw [List.map_map]
        exact hnv
    unfold vrpDoPgrPickDeliverEuclidean
    rw [ho, ho', hv, hv']
    split
    · rfl
    refine congrArg (caught _) (withRows_perm _ hpo ?_)
    refine withRows_perm _ hpv ?_
    exact hprocess

end Replies

/-- The two orders of the small problems in the other order. -/
theorem vrpDoPgrPickDeliver_row_order_small :
    vrpDoPgrPickDeliver .insertion (fun t => t) 3 smallQueries.orders.reverse smallQueries.vehicles
        smallQueries.matrix ⟨1, 1, 4⟩ =
      vrpDoPgrPickDeliver .insertion (fun t => t) 3 smallQueries.orders smallQueries.vehicles
        smallQueries.matrix ⟨1, 1, 4⟩ :=
  (vrpDoPgrPickDeliver_row_order .insertion smallSqrt (fun t => t) 3 ⟨1, 1, 4⟩ (by decide +kernel)
    (by decide +kernel) (by decide +kernel) (List.reverse_perm _) (.refl _) (.refl _)).1 _ _ _
    smallQueries_fetches.getOrders smallQueries_fetches.getVehicles smallQueries_fetches.getMatrix
    ⟨by decide, by decide, by decide, by decide +kernel, by decide⟩

end VrpRouting.Driver
