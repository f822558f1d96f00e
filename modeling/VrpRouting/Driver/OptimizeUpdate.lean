import VrpRouting.Driver.PickDeliver
import VrpRouting.Driver.Result
import VrpRouting.Lib.Grouping

/-! # The stops in the table of the vehicles

`vrp_optimizeUpdateRaw` reads the vehicles from the table whose stops it updates with the rows of
`vrp_optimize`. The rows are aggregated for each vehicle, so a vehicle without rows keeps its stops
also when the optimization has moved them to another vehicle. The table stays a plan, with every order
twice on one vehicle, exactly when this happens to no vehicle (`vrpOptimizeUpdateRaw_keeps_plan`). -/

open Sorting Keyed Grouping

namespace VrpRouting.Driver

/-! ### The procedure -/

/-- One row of the table: it gets the stops that are aggregated for its identifier. -/
def updateRow (newStops : List (ℤ × List ℤ)) (v : VehicleT) : VehicleT :=
  match newStops.lookup v.id with
  | some stops => { v with stops }
  | none => v

/-- `UPDATE ... FROM new_stops`, with the orders of each vehicle in the sequence of the rows. -/
def updateTable (rows : List (ℤ × ℤ)) (table : List VehicleT) : List VehicleT :=
  table.map (updateRow (collect Prod.fst Prod.snd rows))

/-- The other arguments of one call, with the matrix that is prepared for it. -/
structure Request where
  matrix : Matrix
  orders : List OrdersT
  factor : ℚ
  maxCycles : ℤ
  executionDate : ℤ
  subdivisionKind : ℤ
deriving DecidableEq

section Call
variable (S : Sorter) (r : Request) (table : List VehicleT)

def Request.answer : Except Fault Answer :=
  caught .err (vrpDoOptimize S r.matrix r.orders table r.factor r.maxCycles r.executionDate
    r.subdivisionKind)

/-- `vrp_optimizeUpdateRaw`. An error undoes the statement and a notice comes without rows; the
announced rows are read whether they were written or not. -/
def vrpOptimizeUpdateRaw : Except Fault (List VehicleT) := do
  match ← r.answer S table with
  | .tuples rows count =>
    if rows.length = count then return updateTable rows table else .error .undefinedRead
  | .notice _ => return table
  | .err _ => return table

/-- The table of the vehicles is a plan: every order on it is twice on one vehicle. -/
structure Plan (table : List VehicleT) : Prop where
  ids : (table.map VehicleT.id).Nodup
  twice : TwiceOnOne (table.map VehicleT.stops)

instance (table : List VehicleT) : Decidable (Plan table) :=
  decidable_of_iff ((table.map VehicleT.id).Nodup ∧ TwiceOnOne (table.map VehicleT.stops))
    ⟨fun h => ⟨h.1, h.2⟩, fun h => ⟨h.ids, h.twice⟩⟩

/-- The call moves stops only: the other columns stay, and so do the stops of the vehicles that close
before the execution date. -/
structure MovesStops (date : ℤ) (table table' : List VehicleT) : Prop where
  columns : table'.map (fun v => { v with stops := [] }) = table.map fun v => { v with stops := [] }
  closed : (table'.filter fun v => decide (v.endCloseT < date)) =
    table.filter fun v => decide (v.endCloseT < date)

/-- No vehicle loses all its stops: when there are rows, every vehicle that is optimized and has stops
is in one of them. -/
def Request.EmptiesNone : Prop :=
  ∀ rows count, r.answer S table = .ok (.tuples rows count) →
    ∀ v ∈ table, r.executionDate ≤ v.endCloseT → v.stops ≠ [] → v.id ∈ rows.map Prod.fst

def Request.Calm : Prop :=
  CalmRequest S r.matrix r.orders table r.executionDate r.subdivisionKind r.maxCycles

instance : Decidable (r.Calm S table) := by
  unfold Request.Calm
  infer_instance

instance : Decidable (r.EmptiesNone S table) :=
  match h : r.answer S table with
  | .ok (.tuples rows count) => decidable_of_iff
      (∀ v ∈ table, r.executionDate ≤ v.endCloseT → v.stops ≠ [] → v.id ∈ rows.map Prod.fst)
      ⟨fun hall rows' count' h' => by
        obtain ⟨rfl, -⟩ : rows = rows' ∧ count = count' := by simpa [h] using h'
        exact hall,
      fun hall => hall rows count h⟩
  | .ok (.notice _) => .isTrue fun _ _ h' => by simp [h] at h'
  | .ok (.err _) => .isTrue fun _ _ h' => by simp [h] at h'
  | .error _ => .isTrue fun _ _ h' => by simp [h] at h'

end Call

/-! ### The vehicles of a request -/

/-- Without repeated keys there is nothing to remove. -/
theorem destutter_sort_eq {α : Type} (S : Sorter) (key : α → ℤ) {l : List α} (hn : (l.map key).Nodup) :
    (S.sort (fun lhs rhs => decide (key lhs < key rhs)) l).destutter
      (fun lhs rhs => key lhs ≠ key rhs) =
      S.sort (fun lhs rhs => decide (key lhs < key rhs)) l := by
  have hsorted := S.pairwise (fun lhs rhs => decide (key lhs < key rhs)) l
    (.of_key key fun a b => by simp)
  have hmap := map_key_destutter (hsorted.imp fun h => not_lt.mp (of_decide_eq_false h))
  have hnodup : ((S.sort (fun lhs rhs => decide (key lhs < key rhs)) l).map key).Nodup :=
    ((S.perm _ l).map key).nodup_iff.mpr hn
  rw [hnodup.dedup] at hmap
  refine (List.destutter_sublist _ _).eq_of_length ?_
  simpa using congrArg List.length hmap

section Selected
variable {S : Sorter} {table : List VehicleT} {date : ℤ}

theorem vehiclesToOptimize_perm (hn : (table.map VehicleT.id).Nodup) :
    (vehiclesToOptimize S table date).Perm (table.filter fun v => !decide (v.endCloseT < date)) := by
  unfold vehiclesToOptimize
  rw [destutter_sort_eq S VehicleT.id hn]
  exact (S.perm _ table).filter _

end Selected

/-! ### The rows of a request -/

/-- What a processing hands back: the stops of the vehicles, distributed anew. -/
structure Replans (vehicles : List VehicleT) (solution : List ShortVehicle) : Prop where
  ids : (solution.map ShortVehicle.id).Nodup
  known : ∀ w ∈ solution, w.id ∈ vehicles.map VehicleT.id
  twice : TwiceOnOne (solution.map ShortVehicle.stops)
  same : (solution.flatMap ShortVehicle.stops).Perm (vehicles.flatMap VehicleT.stops)

/-- A calm request has a message or writes what it has planned. -/
theorem vrpDoOptimize_replans {S : Sorter} {M : Matrix} {orders : List OrdersT}
    {vehicles : List VehicleT} {date kind maxCycles : ℤ}
    (htwice : TwiceOnOne (vehicles.map VehicleT.stops))
    (hc : CalmRequest S M orders vehicles date kind maxCycles) (factor : ℚ) :
    (∃ text, vrpDoOptimize S M orders vehicles factor maxCycles date kind = .ok (.notice text)) ∨
    (∃ text, vrpDoOptimize S M orders vehicles factor maxCycles date kind = .ok (.err text)) ∨
    ∃ solution, vrpDoOptimize S M orders vehicles factor maxCycles date kind =
      .ok (.tuples (resultRows solution) (resultRows solution).length) ∧
      Replans (vehiclesToOptimize S vehicles date) solution := by
  have hn := nodup_vehiclesToOptimize S vehicles date
  unfold CalmRequest at hc
  dsimp only at hc
  unfold vrpDoOptimize
  extract_lets V ids O found
  split_ifs with h1 h2 h3 h4 h5 hmissing h7 hkind
  · exact Or.inl ⟨_, rfl⟩
  · exact Or.inr (Or.inl ⟨_, rfl⟩)
  · exact Or.inr (Or.inl ⟨_, rfl⟩)
  · exact Or.inl ⟨_, rfl⟩
  · exact Or.inl ⟨_, rfl⟩
  · exact Or.inr (Or.inl ⟨_, rfl⟩)
  · exact Or.inr (Or.inl ⟨_, rfl⟩)
  · have hl := listedOnce_toOptimize orders htwice (by simpa using hmissing)
    rw [if_neg hkind] at hc
    obtain ⟨⟨s, hs, hcons⟩, -⟩ := (conserved_startOf hl).run hn hl hc
    have hrun : subdivideProcessing S M O V maxCycles.toNat date (decide (kind = 1)) =
        .ok s.theStops := by
      unfold subdivideProcessing
      exact congrArg (fun x : Except Fault Subdivision => x >>= fun s => return s.theStops) hs
    refine Or.inr (Or.inr ⟨s.theStops, ?_, hcons.ids ▸ hn, fun w hw => ?_, hcons.twice, hcons.same⟩)
    · rw [hrun, length_rows hl hcons.same]
      rfl
    · exact hcons.ids ▸ List.mem_map_of_mem hw
  · have hl := listedOnce_toOptimize orders htwice (by simpa using hmissing)
    rw [if_pos (not_not.mp hkind)] at hc
    obtain ⟨R, hR, hids, htwiceR, hsame⟩ := oneProcessing_spec hc hl maxCycles.toNat
    have hsub : ((V.filter VehicleT.takesPart).map VehicleT.id).Sublist (V.map VehicleT.id) :=
      List.filter_sublist.map _
    refine Or.inr (Or.inr ⟨R, ?_, hids.nodup_iff.mpr (hn.sublist hsub), fun w hw => ?_, htwiceR, hsame⟩)
    · rw [hR, length_rows hl hsame]
      rfl
    · exact hsub.subset (hids.mem_iff.mp (List.mem_map_of_mem hw))

theorem group_resultRows {solution : List ShortVehicle} (hn : (solution.map ShortVehicle.id).Nodup)
    {w : ShortVehicle} (hw : w ∈ solution) :
    group Prod.fst Prod.snd (resultRows solution) w.id = w.stops :=
  group_flatMap hn w hw

theorem group_resultRows_of_not_mem {solution : List ShortVehicle} {x : ℤ}
    (h : x ∉ solution.map ShortVehicle.id) :
    group Prod.fst Prod.snd (resultRows solution) x = [] :=
  group_flatMap_of_not_mem h

theorem map_snd_resultRows (solution : List ShortVehicle) :
    (resultRows solution).map Prod.snd = solution.flatMap ShortVehicle.stops := by
  unfold resultRows
  rw [List.map_flatMap]
  simp [Function.comp_def]

/-! ### Stops that are distributed anew -/

section Redistribution
variable {table V : List VehicleT} {selected : VehicleT → Bool} {solution : List ShortVehicle}
  (h : Replans V solution)
include h

/-- What is planned for the vehicles are the stops that they had. -/
theorem Replans.flatMap_group (hn : (V.map VehicleT.id).Nodup) :
    (V.flatMap fun v => group Prod.fst Prod.snd (resultRows solution) v.id).Perm
      (V.flatMap VehicleT.stops) := by
  have hkeys : ∀ row ∈ resultRows solution, row.1 ∈ V.map VehicleT.id := by
    intro row hrow
    obtain ⟨w, hw, hrow⟩ := List.mem_flatMap.mp hrow
    obtain ⟨x, -, rfl⟩ := List.mem_map.mp hrow
    exact h.known w hw
  have hgroups : ((V.map VehicleT.id).flatMap
      (group Prod.fst Prod.snd (resultRows solution))).Perm ((resultRows solution).map Prod.snd) :=
    flatMap_group_perm hn hkeys
  rw [List.flatMap_map, map_snd_resultRows] at hgroups
  exact hgroups.trans h.same

theorem Replans.count_group {y x : ℤ} (hx : x ∈ group Prod.fst Prod.snd (resultRows solution) y) :
    (group Prod.fst Prod.snd (resultRows solution) y).count x = 2 := by
  by_cases hid : y ∈ solution.map ShortVehicle.id
  · obtain ⟨w, hw, rfl⟩ := List.mem_map.mp hid
    rw [group_resultRows h.ids hw] at hx ⊢
    exact (h.twice _ (List.mem_map_of_mem hw) x hx).1
  · rw [group_resultRows_of_not_mem hid] at hx
    cases hx

variable (hn : (table.map VehicleT.id).Nodup) (hV : V.Perm (table.filter selected))
include hn hV

/-- Nothing is planned for the other vehicles. -/
theorem Replans.group_of_not_selected {v : VehicleT} (hv : v ∈ table) (hs : selected v = false) :
    group Prod.fst Prod.snd (resultRows solution) v.id = [] := by
  refine group_resultRows_of_not_mem fun hid => ?_
  obtain ⟨w, hw, hwv⟩ := List.mem_map.mp hid
  obtain ⟨u, hu, huw⟩ := List.mem_map.mp (h.known w hw)
  obtain ⟨hu, hsel⟩ := List.mem_filter.mp (hV.mem_iff.mp hu)
  obtain rfl := List.inj_on_of_nodup_map hn hu hv (huw.trans hwv)
  rw [hs] at hsel
  cases hsel

/-- A stop of a selected vehicle is planned for one of them. -/
theorem Replans.exists_planned {v : VehicleT} (hv : v ∈ table) (hs : selected v = true) {x : ℤ}
    (hx : x ∈ v.stops) :
    ∃ u ∈ table, selected u = true ∧ x ∈ group Prod.fst Prod.snd (resultRows solution) u.id := by
  have hold : x ∈ V.flatMap VehicleT.stops :=
    List.mem_flatMap.mpr ⟨v, hV.mem_iff.mpr (List.mem_filter.mpr ⟨hv, hs⟩), hx⟩
  have hnodup : (V.map VehicleT.id).Nodup :=
    (hV.map _).nodup_iff.mpr (hn.sublist (List.filter_sublist.map _))
  obtain ⟨u, hu, hxu⟩ := List.mem_flatMap.mp ((h.flatMap_group hnodup).mem_iff.mpr hold)
  obtain ⟨hu, hsel⟩ := List.mem_filter.mp (hV.mem_iff.mp hu)
  exact ⟨u, hu, hsel, hxu⟩

variable {f : VehicleT → List ℤ}
  (hin : ∀ v ∈ table, selected v = true →
    f v = group Prod.fst Prod.snd (resultRows solution) v.id)
include hin

/-- When one of the others loses its stops, they are gone. -/
theorem Replans.loses (htwice : TwiceOnOne (table.map VehicleT.stops))
    (hsub : ∀ v ∈ table, selected v = false → f v ⊆ v.stops) {v : VehicleT} (hv : v ∈ table)
    (hs : selected v = false) (hne : v.stops ≠ []) (hf : f v = []) :
    ¬ (table.flatMap f).Perm (table.flatMap VehicleT.stops) := by
  intro hp
  obtain ⟨x, hx⟩ := List.exists_mem_of_ne_nil _ hne
  obtain ⟨u, hu, hxu⟩ := List.mem_flatMap.mp (hp.mem_iff.mpr (List.mem_flatMap.mpr ⟨v, hv, hx⟩))
  have hnodup : (V.map VehicleT.id).Nodup :=
    (hV.map _).nodup_iff.mpr (hn.sublist (List.filter_sublist.map _))
  cases hsu : selected u with
  | true =>
    rw [hin u hu hsu] at hxu
    have hplanned : x ∈ V.flatMap fun v => group Prod.fst Prod.snd (resultRows solution) v.id :=
      List.mem_flatMap.mpr ⟨u, hV.mem_iff.mpr (List.mem_filter.mpr ⟨hu, hsu⟩), hxu⟩
    obtain ⟨w, hw, hxw⟩ := List.mem_flatMap.mp ((h.flatMap_group hnodup).mem_iff.mp hplanned)
    obtain ⟨hw, hsw⟩ := List.mem_filter.mp (hV.mem_iff.mp hw)
    obtain rfl := htwice.eq_of_mem hw hv hxw hx
    rw [hs] at hsw
    cases hsw
  | false =>
    obtain rfl := htwice.eq_of_mem hu hv (hsub u hu hsu hxu) hx
    rw [hf] at hxu
    cases hxu

variable (hout : ∀ v ∈ table, selected v = false → f v = v.stops)
include hout

/-- When the selected vehicles get what is planned for them and the others keep their stops, the stops
are the same. -/
theorem Replans.conserves : (table.flatMap f).Perm (table.flatMap VehicleT.stops) := by
  have hnodup : (V.map VehicleT.id).Nodup :=
    (hV.map _).nodup_iff.mpr (hn.sublist (List.filter_sublist.map _))
  have hselected : ∀ v ∈ table.filter selected,
      f v = group Prod.fst Prod.snd (resultRows solution) v.id := fun v hv =>
    hin v (List.mem_filter.mp hv).1 (List.mem_filter.mp hv).2
  have hothers : ∀ v ∈ table.filter fun v => !selected v, f v = v.stops := fun v hv => by
    obtain ⟨hv, hs⟩ := List.mem_filter.mp hv
    exact hout v hv (by simpa using hs)
  refine (flatMap_filter_perm selected table f).symm.trans ?_
  refine .trans ?_ (flatMap_filter_perm selected table VehicleT.stops)
  refine .append ?_ (.of_eq (List.flatMap_congr hothers))
  refine (List.Perm.of_eq (List.flatMap_congr hselected)).trans ?_
  exact (hV.symm.flatMap_right _).trans ((h.flatMap_group hnodup).trans (hV.flatMap_right _))

theorem Replans.plan (htwice : TwiceOnOne (table.map VehicleT.stops)) : TwiceOnOne (table.map f) := by
  refine htwice.of_perm ?_ fun l hl x hx => ?_
  · simpa only [List.flatMap_def] using h.conserves hn hV hin hout
  · obtain ⟨v, hv, rfl⟩ := List.mem_map.mp hl
    cases hs : selected v with
    | true =>
      rw [hin v hv hs] at hx ⊢
      exact h.count_group hx
    | false =>
      rw [hout v hv hs] at hx ⊢
      exact (htwice _ (List.mem_map_of_mem hv) x hx).1

end Redistribution

/-! ### The updated table -/

section Row
variable (newStops : List (ℤ × List ℤ)) (v : VehicleT)

theorem columns_updateRow :
    ({ updateRow newStops v with stops := [] } : VehicleT) = { v with stops := [] } := by
  unfold updateRow
  cases newStops.lookup v.id <;> rfl

@[simp] theorem id_updateRow : (updateRow newStops v).id = v.id := by
  unfold updateRow
  cases newStops.lookup v.id <;> rfl

@[simp] theorem endCloseT_updateRow : (updateRow newStops v).endCloseT = v.endCloseT := by
  unfold updateRow
  cases newStops.lookup v.id <;> rfl

theorem map_id_updateRow (table : List VehicleT) :
    (table.map (updateRow newStops)).map VehicleT.id = table.map VehicleT.id := by
  rw [List.map_map]
  exact List.map_congr_left fun v _ => id_updateRow newStops v

theorem map_columns_updateRow (table : List VehicleT) :
    (table.map (updateRow newStops)).map (fun v => { v with stops := [] }) =
      table.map fun v => { v with stops := [] } := by
  rw [List.map_map]
  exact List.map_congr_left fun v _ => columns_updateRow newStops v

variable {v} {rows : List (ℤ × ℤ)}

/-- The stops of an updated row. -/
theorem stops_updateRow : (updateRow (collect Prod.fst Prod.snd rows) v).stops =
    if group Prod.fst Prod.snd rows v.id = [] then v.stops
    else group Prod.fst Prod.snd rows v.id := by
  unfold updateRow
  rw [lookup_collect]
  split_ifs
  · rfl
  · rfl

theorem updateRow_of_no_row (h : group Prod.fst Prod.snd rows v.id = []) :
    updateRow (collect Prod.fst Prod.snd rows) v = v := by
  unfold updateRow
  rw [lookup_collect, if_pos h]

end Row

section Update
variable {S : Sorter} {table : List VehicleT} {date : ℤ} {solution : List ShortVehicle}
  (h : Replans (vehiclesToOptimize S table date) solution) (hn : (table.map VehicleT.id).Nodup)
include h hn

/-- Only stops are moved. -/
theorem Replans.movesStops : MovesStops date table (updateTable (resultRows solution) table) where
  columns := map_columns_updateRow _ table
  closed := by
    unfold updateTable
    rw [List.filter_map]
    have hcomp : ((fun v : VehicleT => decide (v.endCloseT < date)) ∘
        updateRow (collect Prod.fst Prod.snd (resultRows solution))) =
        fun v => decide (v.endCloseT < date) := by
      funext v
      simp
    rw [hcomp]
    refine (List.map_congr_left fun v hv => ?_).trans (List.map_id _)
    obtain ⟨hv, hclosed⟩ := List.mem_filter.mp hv
    exact updateRow_of_no_row (h.group_of_not_selected hn (vehiclesToOptimize_perm hn) hv
      (by simpa using hclosed))

/-- When no vehicle loses all its stops, the table stays a plan with the stops that it had. -/
theorem Replans.updateTable_plan (htwice : TwiceOnOne (table.map VehicleT.stops))
    (hnone : ∀ v ∈ table, date ≤ v.endCloseT → v.stops ≠ [] →
      v.id ∈ (resultRows solution).map Prod.fst) :
    TwiceOnOne ((updateTable (resultRows solution) table).map VehicleT.stops) ∧
    ((updateTable (resultRows solution) table).flatMap VehicleT.stops).Perm
      (table.flatMap VehicleT.stops) := by
  have hV : (vehiclesToOptimize S table date).Perm
      (table.filter fun v => !decide (v.endCloseT < date)) := vehiclesToOptimize_perm hn
  have hin : ∀ v ∈ table, (!decide (v.endCloseT < date)) = true →
      (updateRow (collect Prod.fst Prod.snd (resultRows solution)) v).stops =
        group Prod.fst Prod.snd (resultRows solution) v.id := by
    intro v hv hdate
    rw [stops_updateRow]
    split_ifs with hnil
    · rw [hnil]
      by_contra hstops
      exact group_eq_nil_iff.mp hnil (hnone v hv (by simpa using hdate) hstops)
    · rfl
  have hout : ∀ v ∈ table, (!decide (v.endCloseT < date)) = false →
      (updateRow (collect Prod.fst Prod.snd (resultRows solution)) v).stops = v.stops := by
    intro v hv hclosed
    rw [updateRow_of_no_row (h.group_of_not_selected hn hV hv hclosed)]
  unfold updateTable
  rw [List.map_map, List.flatMap_map]
  exact ⟨h.plan hn hV hin hout htwice, h.conserves hn hV hin hout⟩

/-- A vehicle that loses all its stops shares them with the vehicles that they were moved to. -/
theorem Replans.not_plan {v : VehicleT} (hv : v ∈ table) (hdate : date ≤ v.endCloseT)
    (hstops : v.stops ≠ []) (hrow : v.id ∉ (resultRows solution).map Prod.fst) :
    ¬ TwiceOnOne ((updateTable (resultRows solution) table).map VehicleT.stops) := by
  intro htwice
  obtain ⟨x, hx⟩ := List.exists_mem_of_ne_nil _ hstops
  have hnil : group Prod.fst Prod.snd (resultRows solution) v.id = [] := group_eq_nil_iff.mpr hrow
  obtain ⟨u, hu, -, hxu⟩ := h.exists_planned hn (vehiclesToOptimize_perm hn) hv
    (by simpa using hdate) hx
  have hne : v ≠ u := by
    rintro rfl
    rw [hnil] at hxu
    cases hxu
  have hxu' : x ∈ (updateRow (collect Prod.fst Prod.snd (resultRows solution)) u).stops := by
    rw [stops_updateRow, if_neg (List.ne_nil_of_mem hxu)]
    exact hxu
  have hxv : x ∈ (updateRow (collect Prod.fst Prod.snd (resultRows solution)) v).stops := by
    rwa [updateRow_of_no_row hnil]
  unfold updateTable at htwice
  rw [List.map_map] at htwice
  exact hne (htwice.eq_of_mem hv hu hxv hxu')

end Update

/-! ### Runs of the procedure -/

section Run
variable {S : Sorter} {r : Request} {table : List VehicleT}

theorem MovesStops.refl (date : ℤ) (table : List VehicleT) : MovesStops date table table := ⟨rfl, rfl⟩

/-- **One call** leaves a plan exactly when no vehicle loses all its stops. -/
theorem vrpOptimizeUpdateRaw_spec (hp : Plan table) (hc : r.Calm S table) :
    ∃ table', vrpOptimizeUpdateRaw S r table = .ok table' ∧
      MovesStops r.executionDate table table' ∧ (Plan table' ↔ r.EmptiesNone S table) ∧
      (r.EmptiesNone S table →
        (table'.flatMap VehicleT.stops).Perm (table.flatMap VehicleT.stops)) := by
  have hanswer : ∀ a, vrpDoOptimize S r.matrix r.orders table r.factor r.maxCycles r.executionDate
      r.subdivisionKind = .ok a → r.answer S table = .ok a := fun a ha => by
    unfold Request.answer
    rw [ha]
    rfl
  have hmessage : ∀ a, r.answer S table = .ok a → (∀ rows count, a ≠ .tuples rows count) →
      r.EmptiesNone S table := fun a ha hno rows count h =>
    absurd (Except.ok.inj (ha.symm.trans h)) (hno rows count)
  rcases vrpDoOptimize_replans hp.twice hc r.factor with ⟨text, h⟩ | ⟨text, h⟩ | ⟨solution, h, hsol⟩
  · have hnone := hmessage _ (hanswer _ h) (by simp)
    refine ⟨table, ?_, .refl _ _, iff_of_true hp hnone, fun _ => .refl _⟩
    unfold vrpOptimizeUpdateRaw
    rw [hanswer _ h]
    rfl
  · have hnone := hmessage _ (hanswer _ h) (by simp)
    refine ⟨table, ?_, .refl _ _, iff_of_true hp hnone, fun _ => .refl _⟩
    unfold vrpOptimizeUpdateRaw
    rw [hanswer _ h]
    rfl
  · have hrows : r.EmptiesNone S table ↔ ∀ v ∈ table, r.executionDate ≤ v.endCloseT → v.stops ≠ [] →
        v.id ∈ (resultRows solution).map Prod.fst := by
      refine ⟨fun hnone => hnone _ _ (hanswer _ h), fun hall rows count hr => ?_⟩
      obtain ⟨rfl, -⟩ : resultRows solution = rows ∧ _ = count := by
        simpa using (hanswer _ h).symm.trans hr
      exact hall
    refine ⟨updateTable (resultRows solution) table, ?_, hsol.movesStops hp.ids, ?_, fun hnone => ?_⟩
    · unfold vrpOptimizeUpdateRaw
      rw [hanswer _ h]
      exact if_pos rfl
    · refine ⟨fun hplan => ?_, fun hnone => ?_⟩
      · rw [hrows]
        intro v hv hdate hstops
        by_contra hrow
        exact hsol.not_plan hp.ids hv hdate hstops hrow hplan.twice
      · refine ⟨?_, (hsol.updateTable_plan hp.ids hp.twice (hrows.mp hnone)).1⟩
        unfold updateTable
        rw [map_id_updateRow]
        exact hp.ids
    · exact (hsol.updateTable_plan hp.ids hp.twice (hrows.mp hnone)).2

/-- Every call of the run is calm on the table that it finds, and no vehicle loses all its stops. -/
def KeptRun (S : Sorter) : List Request → List VehicleT → Prop
  | [], _ => True
  | r :: requests, table => r.Calm S table ∧ r.EmptiesNone S table ∧
      ∀ table', vrpOptimizeUpdateRaw S r table = .ok table' → KeptRun S requests table'

/-- The calls one after the other. -/
def runRequests (S : Sorter) (requests : List Request) (table : List VehicleT) :
    Except Fault (List VehicleT) :=
  requests.foldlM (fun table r => vrpOptimizeUpdateRaw S r table) table

theorem runRequests_cons (requests : List Request) : runRequests S (r :: requests) table =
    vrpOptimizeUpdateRaw S r table >>= runRequests S requests := List.foldlM_cons ..

/-- **A run of calls** keeps the plan. -/
theorem runRequests_spec : ∀ {requests : List Request} {table : List VehicleT}, Plan table →
    KeptRun S requests table → ∃ table', runRequests S requests table = .ok table' ∧ Plan table' ∧
      table'.map (fun v => { v with stops := [] }) = table.map (fun v => { v with stops := [] }) ∧
      (table'.flatMap VehicleT.stops).Perm (table.flatMap VehicleT.stops)
  | [], table, hp, _ => ⟨table, rfl, hp, rfl, .refl _⟩
  | r :: requests, table, hp, ⟨hc, hnone, hrest⟩ => by
    obtain ⟨t₁, ht₁, hmoves, hplan, hsame⟩ := vrpOptimizeUpdateRaw_spec hp hc
    obtain ⟨t₂, ht₂, hp₂, hcolumns, hsame₂⟩ := runRequests_spec (hplan.mpr hnone) (hrest t₁ ht₁)
    refine ⟨t₂, ?_, hp₂, hcolumns.trans hmoves.columns, hsame₂.trans (hsame hnone)⟩
    rw [runRequests_cons, ht₁]
    exact ht₂

theorem KeptRun.of_append : ∀ {requests rest : List Request} {table : List VehicleT},
    KeptRun S (requests ++ rest) table → KeptRun S requests table
  | [], _, _, _ => trivial
  | _ :: _, _, _, ⟨hc, hnone, hrest⟩ => ⟨hc, hnone, fun t ht => (hrest t ht).of_append⟩

end Run

/-- **The table of the vehicles stays a plan.** A calm call of `vrp_optimizeUpdateRaw` moves stops only,
and leaves a plan exactly when no vehicle loses all its stops; then the table has the same stops as
before. So after every call of a run in which this holds the table is a plan with the stops that it
had. -/
theorem vrpOptimizeUpdateRaw_keeps_plan (S : Sorter) :
    (∀ (r : Request) (table : List VehicleT), Plan table → r.Calm S table →
      ∃ table', vrpOptimizeUpdateRaw S r table = .ok table' ∧
        MovesStops r.executionDate table table' ∧ (Plan table' ↔ r.EmptiesNone S table) ∧
        (r.EmptiesNone S table →
          (table'.flatMap VehicleT.stops).Perm (table.flatMap VehicleT.stops))) ∧
    ∀ (requests rest : List Request) (table : List VehicleT), Plan table →
      KeptRun S (requests ++ rest) table →
      ∃ table', runRequests S requests table = .ok table' ∧ Plan table' ∧
        table'.map (fun v => { v with stops := [] }) = table.map (fun v => { v with stops := [] }) ∧
        (table'.flatMap VehicleT.stops).Perm (table.flatMap VehicleT.stops) :=
  ⟨fun _ _ hp hc => vrpOptimizeUpdateRaw_spec hp hc,
    fun _ _ _ hp hrun => runRequests_spec hp hrun.of_append⟩

/-! ### Two requests on a small table -/

instance KeptRun.decidable (S : Sorter) : ∀ (requests : List Request) (table : List VehicleT),
    Decidable (KeptRun S requests table)
  | [], _ => .isTrue trivial
  | r :: requests, table =>
    match h : vrpOptimizeUpdateRaw S r table with
    | .ok table' =>
      have := KeptRun.decidable S requests table'
      decidable_of_iff (r.Calm S table ∧ r.EmptiesNone S table ∧ KeptRun S requests table')
        (by simp [KeptRun, h])
    | .error _ => decidable_of_iff (r.Calm S table ∧ r.EmptiesNone S table) (by simp [KeptRun, h])

/-- Two vehicles with one order each. -/
def smallTable (capacity : ℕ) : List VehicleT :=
  [{ smallVehicleData 7 [1, 1] with capacity }, { smallVehicleData 8 [2, 2] with capacity }]

def smallRequest (kind : ℤ) : Request :=
  ⟨twoSites, [smallOrderData 1 100, smallOrderData 2 100], 1, 1, 0, kind⟩

theorem vrpOptimizeUpdateRaw_keeps_plan_small :
    (∃ table', vrpOptimizeUpdateRaw .insertion (smallRequest 0) (smallTable 2) = .ok table' ∧
      (Plan table' ↔ (smallRequest 0).EmptiesNone .insertion (smallTable 2))) ∧
    ∃ table', runRequests .insertion [smallRequest 0, smallRequest 1] (smallTable 1) = .ok table' ∧
      Plan table' := by
  have h := vrpOptimizeUpdateRaw_keeps_plan .insertion
  obtain ⟨table, hok, -, hiff, -⟩ := h.1 (smallRequest 0) (smallTable 2) (by decide)
    (by decide +kernel)
  obtain ⟨table', hrun, hplan, -, -⟩ := h.2 [smallRequest 0, smallRequest 1] [] (smallTable 1)
    (by decide) (by decide +kernel)
  exact ⟨⟨table, hok, hiff⟩, table', hrun, hplan⟩

/-- Vehicles with room for both orders: the first one takes them, and the order 2 stays in the row of
the second one as well. -/
example :
    Plan (smallTable 2) ∧ (smallRequest 0).Calm .insertion (smallTable 2) ∧
    (vrpOptimizeUpdateRaw .insertion (smallRequest 0) (smallTable 2)).map
      (List.map VehicleT.stops) = .ok [[2, 1, 2, 1], [2, 2]] := by
  refine ⟨by decide, ?_, ?_⟩ <;> decide +kernel

end VrpRouting.Driver
