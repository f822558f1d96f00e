import VrpRouting.Driver.Subdivision

/-! # The rows of `vrp_optimize`

`vrp_do_optimize` announces two rows for each order. The processed vehicles and orders have distinct
identifiers, and the orders are those on the stops (`listedOnce_toOptimize`); so the rows are as many
as announced when the stops are conserved (`vrpDoOptimize_rows`). -/

open Sorting Keyed

namespace VrpRouting.Driver

/-! ### The vehicles and the orders that are optimized -/

/-- One record for each identifier is left. -/
theorem nodup_unique {α : Type} (S : Sorter) (key : α → ℤ) (l : List α) :
    (((S.sort (fun lhs rhs => decide (key lhs < key rhs)) l).destutter
      fun lhs rhs => key lhs ≠ key rhs).map key).Nodup := by
  have hsorted := S.pairwise (fun lhs rhs => decide (key lhs < key rhs)) l
    (.of_key key fun a b => by simp)
  rw [map_key_destutter (hsorted.imp fun h => not_lt.mp (of_decide_eq_false h))]
  exact List.nodup_dedup _

theorem nodup_vehiclesToOptimize (S : Sorter) (vehicles : List VehicleT) (date : ℤ) :
    ((vehiclesToOptimize S vehicles date).map VehicleT.id).Nodup :=
  (nodup_unique S VehicleT.id vehicles).sublist (List.filter_sublist.map _)

theorem nodup_ordersToOptimize (S : Sorter) (orders : List OrdersT) (ids : Identifiers ℤ) :
    ((ordersToOptimize S orders ids).map OrdersT.id).Nodup :=
  (nodup_unique S OrdersT.id orders).sublist (List.filter_sublist.map _)

theorem mem_stopIds {vehicles : List VehicleT} {x : ℤ} :
    x ∈ stopIds vehicles ↔ ∃ v ∈ vehicles, x ∈ v.stops := by
  unfold stopIds
  rw [Identifiers.mem_foldl_foldl_insert]
  simp

theorem twice_vehiclesToOptimize {S : Sorter} {vehicles : List VehicleT}
    (h : TwiceOnOne (vehicles.map VehicleT.stops)) (date : ℤ) :
    TwiceOnOne ((vehiclesToOptimize S vehicles date).map VehicleT.stops) := by
  refine (h.perm ((S.perm (fun lhs rhs => decide (lhs.id < rhs.id)) vehicles).map _)).sublist ?_
  exact (List.filter_sublist.trans (List.destutter_sublist _ _)).map _

/-- When no order is missing, every stop is an order. -/
theorem known_toOptimize {S : Sorter} {vehicles : List VehicleT} {orders : List OrdersT}
    (hmissing : ((stopIds vehicles).diff ((ordersToOptimize S orders (stopIds vehicles)).foldl
      (fun ids o => ids.insert o.id) .empty)).isEmpty = true) :
    ∀ d ∈ vehicles, ∀ x ∈ d.stops,
      x ∈ (ordersToOptimize S orders (stopIds vehicles)).map OrdersT.id := fun d hd x hx => by
  have hin := mt (fun hnot => Identifiers.mem_diff.mpr ⟨mem_stopIds.mpr ⟨d, hd, hx⟩, hnot⟩)
    (Identifiers.isEmpty_iff.mp hmissing x)
  rw [not_not, ← List.foldl_map (f := OrdersT.id) (g := Identifiers.insert),
    Identifiers.mem_foldl_insert] at hin
  exact hin.resolve_left (Identifiers.not_mem_empty x)

/-- When no order is missing, the orders are those on the stops. -/
theorem listedOnce_toOptimize {S : Sorter} {vehicles : List VehicleT} (orders : List OrdersT)
    {date : ℤ} (h : TwiceOnOne (vehicles.map VehicleT.stops))
    (hmissing : ((stopIds (vehiclesToOptimize S vehicles date)).diff
      ((ordersToOptimize S orders (stopIds (vehiclesToOptimize S vehicles date))).foldl
        (fun ids o => ids.insert o.id) .empty)).isEmpty = true) :
    ListedOnce (ordersToOptimize S orders (stopIds (vehiclesToOptimize S vehicles date)))
      (vehiclesToOptimize S vehicles date) [] := by
  refine ⟨nodup_ordersToOptimize S orders _, twice_vehiclesToOptimize h date, fun d hd x hx => ?_,
    fun x hx => ?_⟩
  · exact known_toOptimize hmissing d hd x hx
  · obtain ⟨o, ho, rfl⟩ := List.mem_map.mp hx
    exact mem_stopIds.mp (Identifiers.has_iff.mp (List.mem_filter.mp ho).2)

/-! ### The rows -/

theorem length_resultRows (solution : List ShortVehicle) :
    (resultRows solution).length = (solution.flatMap ShortVehicle.stops).length := by
  simp [resultRows, List.length_flatMap]

/-- Conserved stops give two rows for each order. -/
theorem length_rows {orders : List OrdersT} {vehicles : List VehicleT}
    (hl : ListedOnce orders vehicles []) {solution : List ShortVehicle}
    (hp : (solution.flatMap ShortVehicle.stops).Perm (vehicles.flatMap VehicleT.stops)) :
    (resultRows solution).length = orders.length * 2 := by
  rw [length_resultRows, hp.length_eq, ← List.length_map OrdersT.id]
  refine length_of_count_two hl.distinct (fun x hx => ?_) fun x => ⟨fun hx => ?_, fun hx => ?_⟩
  · obtain ⟨d, hd, hxd⟩ := List.mem_flatMap.mp hx
    rw [List.flatMap_def]
    exact (hl.twice _ (List.mem_map_of_mem hd) x hxd).2
  · obtain ⟨d, hd, hxd⟩ := List.mem_flatMap.mp hx
    exact hl.known d hd x hxd
  · obtain ⟨d, hd, hxd⟩ := hl.listed x hx
    exact List.mem_flatMap.mpr ⟨d, hd, hxd⟩

section Rows
variable (S : Sorter) (M : Matrix) (orders : List OrdersT) (vehicles : List VehicleT) (date kind : ℤ)
  (maxCycles : ℤ)

/-- The condition on a request: the processing, or every step of the subdivision, is undisturbed. -/
def CalmRequest : Prop :=
  let vehicles := vehiclesToOptimize S vehicles date
  let orders := ordersToOptimize S orders (stopIds vehicles)
  if kind = 0 then Undisturbed S M orders vehicles [] date
  else CalmRun S M orders vehicles maxCycles.toNat date
    (processingTimes orders vehicles (decide (kind = 1))).ids (startOf vehicles)

variable {S M orders vehicles date kind maxCycles}

instance : Decidable (CalmRequest S M orders vehicles date kind maxCycles) := by
  unfold CalmRequest
  infer_instance

/-- **A calm request writes the rows that it announces.** -/
theorem vrpDoOptimize_rows (htwice : TwiceOnOne (vehicles.map VehicleT.stops)) (factor : ℚ)
    (hc : CalmRequest S M orders vehicles date kind maxCycles) :
    ∃ a, vrpDoOptimize S M orders vehicles factor maxCycles date kind = .ok a ∧
      ∀ rows count, a = .tuples rows count → rows.length = count := by
  have hn := nodup_vehiclesToOptimize S vehicles date
  have hearly : ∀ b : Answer, (∀ rows count, b ≠ .tuples rows count) →
      ∃ a, (.ok b : Except Fault Answer) = .ok a ∧
        ∀ rows count, a = .tuples rows count → rows.length = count := fun b hb =>
    ⟨b, rfl, fun rows count h => absurd h (hb rows count)⟩
  unfold CalmRequest at hc
  dsimp only at hc
  unfold vrpDoOptimize
  extract_lets V ids O found
  split_ifs with h1 h2 h3 h4 h5 hmissing h7 hkind
  iterate 7 exact hearly _ (by simp)
  · have hl := listedOnce_toOptimize orders htwice (by simpa using hmissing)
    rw [if_neg hkind] at hc
    obtain ⟨⟨s, hs, hcons⟩, -⟩ := (conserved_startOf hl).run hn hl hc
    have hrun : subdivideProcessing S M O V maxCycles.toNat date (decide (kind = 1)) =
        .ok s.theStops := by
      unfold subdivideProcessing
      exact congrArg (fun x : Except Fault Subdivision => x >>= fun s => return s.theStops) hs
    rw [hrun]
    refine ⟨_, rfl, fun rows count h => ?_⟩
    cases h
    exact length_rows hl hcons.same
  · have hl := listedOnce_toOptimize orders htwice (by simpa using hmissing)
    rw [if_pos (not_not.mp hkind)] at hc
    obtain ⟨R, hR, -, -, hsame⟩ := oneProcessing_spec hc hl maxCycles.toNat
    rw [hR]
    refine ⟨_, rfl, fun rows count h => ?_⟩
    cases h
    exact length_rows hl hsame

end Rows

/-- **Conservation of the stops.** In a run of calm steps over any times, every step conserves the
stops and redistributes those of the active vehicles; a calm request writes the rows that it
announces. -/
theorem vrp_conserves_stops (S : Sorter) (M : Matrix) :
    (∀ (orders : List OrdersT) (vehicles : List VehicleT) (maxCycles : ℕ) (date : ℤ),
      (vehicles.map VehicleT.id).Nodup → ListedOnce orders vehicles [] →
      ∀ times, CalmRun S M orders vehicles maxCycles date times (startOf vehicles) →
      (∃ s, times.foldlM (subdivideStep S M orders vehicles maxCycles date) (startOf vehicles) =
        .ok s ∧ Conserved vehicles s) ∧
      ∀ pre t post, times = pre ++ t :: post → ∃ s s',
        pre.foldlM (subdivideStep S M orders vehicles maxCycles date) (startOf vehicles) = .ok s ∧
        subdivideStep S M orders vehicles maxCycles date s t = .ok s' ∧
        Conserved vehicles s ∧ Conserved vehicles s' ∧ Redistributed vehicles t s s') ∧
    ∀ (orders : List OrdersT) (vehicles : List VehicleT) (factor : ℚ) (maxCycles date kind : ℤ),
      TwiceOnOne (vehicles.map VehicleT.stops) →
      CalmRequest S M orders vehicles date kind maxCycles →
      ∃ a, vrpDoOptimize S M orders vehicles factor maxCycles date kind = .ok a ∧
        ∀ rows count, a = .tuples rows count → rows.length = count :=
  ⟨fun _ _ _ _ hn hl _ hc => (conserved_startOf hl).run hn hl hc,
    fun _ _ factor _ _ _ htwice hc => vrpDoOptimize_rows htwice factor hc⟩

/-! ### Two small requests -/

theorem vrp_conserves_stops_small :
    let orders := [smallOrderData 1 100, smallOrderData 2 100]
    let vehicles := [smallVehicleData 7 [1, 1], smallVehicleData 8 [2, 2]]
    (∃ s, [0, 50].foldlM (subdivideStep .insertion twoSites orders vehicles 1 0)
      (startOf vehicles) = .ok s ∧ Conserved vehicles s) ∧
    ∃ a, vrpDoOptimize .insertion twoSites orders vehicles 1 1 0 1 = .ok a ∧
      ∀ rows count, a = .tuples rows count → rows.length = count := by
  intro orders vehicles
  have h := vrp_conserves_stops .insertion twoSites
  exact ⟨(h.1 orders vehicles 1 0 (by decide) ⟨by decide, by decide, by decide, by decide⟩ [0, 50]
    (by decide +kernel)).1, h.2 orders vehicles 1 1 0 1 (by decide) (by decide +kernel)⟩

/-- An order that does not fit in its vehicle ends on a phony vehicle: its rows are missing, and the
update of the stops looks for the phony vehicle. -/
theorem vrp_conserves_stops_fails :
    let orders := [{ smallOrderData 1 100 with demand := 2 }]
    let vehicles := [smallVehicleData 7 [1, 1]]
    (vehicles.map VehicleT.id).Nodup ∧ ListedOnce orders vehicles [] ∧
    vrpDoOptimize .insertion twoSites orders vehicles 1 1 0 0 = .ok (.tuples [] 2) ∧
    subdivideStep .insertion twoSites orders vehicles 1 0 (startOf vehicles) 0 =
      .error .undefinedRead := by
  refine ⟨by decide, ⟨by decide, by decide, by decide, by decide⟩, ?_, ?_⟩ <;> decide +kernel

end VrpRouting.Driver
