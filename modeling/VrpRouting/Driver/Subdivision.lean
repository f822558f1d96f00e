import VrpRouting.Driver.Processing

/-! # The subdivision conserves the stops

The history of stops has an entry for each vehicle, in the order of the vehicles. `update_stops`
changes the entries of the vehicles in the result of a processing (`updateStops_ok`); so a step
redistributes the stops of the active vehicles and leaves the other ones alone (`Redistributed`), and
each order stays twice on one vehicle (`Conserved`). -/

open Sorting Keyed

namespace VrpRouting.Driver

/-! ### The history of stops -/

/-- The entry `w` after the update with the values `R`. -/
def merged (R : List ShortVehicle) (w : ShortVehicle) : ShortVehicle :=
  { w with
    stops := match R.find? fun v => decide (v.id = w.id) with
      | some v => v.stops
      | none => w.stops }

/-- The entry `w` after the update with the stops of `v`. -/
def updated (v w : ShortVehicle) : ShortVehicle :=
  if w.id = v.id then { w with stops := v.stops } else w

theorem id_updated (v w : ShortVehicle) : (updated v w).id = w.id := by
  unfold updated
  split_ifs <;> rfl

theorem map_id_updated (v : ShortVehicle) (theStops : List ShortVehicle) :
    (theStops.map (updated v)).map ShortVehicle.id = theStops.map ShortVehicle.id := by
  rw [List.map_map]
  exact List.map_congr_left fun w _ => id_updated v w

/-- The search for the vehicle finds its entry. -/
theorem updateStop_ok {theStops : List ShortVehicle} {v : ShortVehicle}
    (hs : (theStops.map ShortVehicle.id).Nodup) (hv : v.id ∈ theStops.map ShortVehicle.id) :
    updateStop theStops v = .ok (theStops.map (updated v)) := by
  obtain ⟨i, hi, hmod⟩ := exists_modify_key hs hv fun w => { w with stops := v.stops }
  unfold updateStop
  rw [hi]
  exact congrArg Except.ok hmod

theorem updateStops_ok : ∀ {R theStops : List ShortVehicle},
    (theStops.map ShortVehicle.id).Nodup → (R.map ShortVehicle.id).Nodup →
    (∀ v ∈ R, v.id ∈ theStops.map ShortVehicle.id) →
    updateStops theStops R = .ok (theStops.map (merged R))
  | [], theStops, _, _, _ => by
    have h : theStops.map (merged []) = theStops := List.map_id'' (fun _ => rfl) _
    rw [h]
    rfl
  | v :: R, theStops, hs, hr, hsub => by
    obtain ⟨hv, hR⟩ := List.nodup_cons.mp hr
    obtain ⟨hvs, hsub⟩ := List.forall_mem_cons.mp hsub
    have hids := map_id_updated v theStops
    unfold updateStops
    rw [List.foldlM_cons, updateStop_ok hs hvs]
    refine (updateStops_ok (hids ▸ hs) hR (hids ▸ hsub)).trans (congrArg Except.ok ?_)
    rw [List.map_map]
    refine List.map_congr_left fun w _ => ?_
    simp only [Function.comp]
    by_cases hwv : w.id = v.id
    · have hnone : R.find? (fun u => decide (u.id = w.id)) = none :=
        List.find?_eq_none.mpr fun u hu => by
          simpa [hwv] using fun h : u.id = v.id => hv (h ▸ List.mem_map_of_mem hu)
      simp [updated, merged, hwv, hwv ▸ hnone]
    · simp [updated, merged, hwv, Ne.symm hwv]

/-- When every vehicle has an entry, all searches succeed; each entry keeps its stops or gets those of
a vehicle. -/
theorem updateStops_found {P : List ℤ → Prop} : ∀ {R theStops : List ShortVehicle},
    (theStops.map ShortVehicle.id).Nodup → (∀ v ∈ R, v.id ∈ theStops.map ShortVehicle.id) →
    (∀ w ∈ theStops, P w.stops) → (∀ v ∈ R, P v.stops) →
    ∃ theStops', updateStops theStops R = .ok theStops' ∧
      theStops'.map ShortVehicle.id = theStops.map ShortVehicle.id ∧ ∀ w ∈ theStops', P w.stops
  | [], theStops, _, _, hold, _ => ⟨theStops, rfl, rfl, hold⟩
  | v :: R, theStops, hs, hsub, hold, hnew => by
    obtain ⟨hv, hsub⟩ := List.forall_mem_cons.mp hsub
    obtain ⟨hvP, hnew⟩ := List.forall_mem_cons.mp hnew
    have hids := map_id_updated v theStops
    obtain ⟨theStops', hok, hids', hP⟩ := updateStops_found (P := P) (hids ▸ hs) (hids ▸ hsub)
      (fun w' hw' => by
        obtain ⟨w, hw, rfl⟩ := List.mem_map.mp hw'
        unfold updated
        split_ifs
        · exact hvP
        · exact hold w hw) hnew
    refine ⟨theStops', ?_, hids'.trans hids, hP⟩
    unfold updateStops at hok ⊢
    rw [List.foldlM_cons, updateStop_ok hs hv]
    exact hok

/-- What the loop keeps: an entry for each vehicle, the stops of the given vehicles, twice on one
vehicle each. -/
structure Conserved (vehicles : List VehicleT) (s : Subdivision) : Prop where
  ids : s.theStops.map ShortVehicle.id = vehicles.map VehicleT.id
  twice : TwiceOnOne (s.theStops.map ShortVehicle.stops)
  same : (s.theStops.flatMap ShortVehicle.stops).Perm (vehicles.flatMap VehicleT.stops)

/-- A step at time `t` moves stops between the active vehicles only. -/
structure Redistributed (vehicles : List VehicleT) (t : ℤ) (s s' : Subdivision) : Prop where
  inactive : ∀ d ∈ vehicles, isActive t d = false → stopsOf s'.theStops d = stopsOf s.theStops d
  active : ((activeVehicles vehicles t).flatMap (stopsOf s'.theStops)).Perm
    ((activeVehicles vehicles t).flatMap (stopsOf s.theStops))

section History
variable {theStops : List ShortVehicle} {vehicles : List VehicleT}
  (hn : (vehicles.map VehicleT.id).Nodup)
  (hids : theStops.map ShortVehicle.id = vehicles.map VehicleT.id)
include hn hids

/-- Every vehicle has its entry. -/
theorem exists_entry {d : VehicleT} (hd : d ∈ vehicles) : ∃ w ∈ theStops, w.id = d.id ∧
    theStops.find? (fun v => decide (v.id = d.id)) = some w := by
  have hmem : d.id ∈ theStops.map ShortVehicle.id := hids ▸ List.mem_map_of_mem hd
  obtain ⟨w, hw, hwd⟩ := List.mem_map.mp hmem
  exact ⟨w, hw, hwd, hwd ▸ find?_key (hids ▸ hn) hw⟩

theorem map_stopsOf : vehicles.map (stopsOf theStops) = theStops.map ShortVehicle.stops := by
  have hlen : theStops.length = vehicles.length := by simpa using congrArg List.length hids
  refine List.ext_getElem (by simp [hlen]) fun k h1 h2 => ?_
  rw [List.length_map] at h1 h2
  simp only [List.getElem_map]
  have hid : theStops[k].id = vehicles[k].id := by
    have := congrArg (fun l => l[k]?) hids
    simpa [h1, h2] using this
  unfold stopsOf
  rw [← hid, find?_key (hids ▸ hn) (List.getElem_mem h2)]

theorem heldStops_eq {d : VehicleT} (hd : d ∈ vehicles) :
    heldStops theStops d = stopsOf theStops d := by
  obtain ⟨w, -, -, hw⟩ := exists_entry hn hids hd
  unfold heldStops stopsOf
  rw [hw]

theorem stopsOf_merged (R : List ShortVehicle) {d : VehicleT} (hd : d ∈ vehicles) :
    stopsOf (theStops.map (merged R)) d =
      match R.find? fun v => decide (v.id = d.id) with
      | some v => v.stops
      | none => stopsOf theStops d := by
  obtain ⟨w, -, hwd, hw⟩ := exists_entry hn hids hd
  have hf : (theStops.map (merged R)).find? (fun v => decide (v.id = d.id)) = some (merged R w) := by
    rw [List.find?_map]
    exact congrArg (Option.map (merged R)) hw
  unfold stopsOf
  rw [hf, hw]
  simp only [merged, hwd]

/-- The vehicles in the result get its stops. -/
theorem map_merged {R : List ShortVehicle} (hR : (R.map ShortVehicle.id).Nodup) {L : List VehicleT}
    (hL : L ⊆ vehicles) (hp : (R.map ShortVehicle.id).Perm (L.map VehicleT.id)) :
    (L.map (stopsOf (theStops.map (merged R)))).Perm (R.map ShortVehicle.stops) := by
  let g : ℤ → List ℤ := fun x => match R.find? fun v => decide (v.id = x) with
    | some v => v.stops
    | none => []
  have hg : ∀ v ∈ R, g v.id = v.stops := fun v hv => by
    simp only [g]
    rw [find?_key hR hv]
  have h1 : (R.map ShortVehicle.id).map g = R.map ShortVehicle.stops := by
    rw [List.map_map]
    exact List.map_congr_left hg
  have h2 : (L.map VehicleT.id).map g = L.map (stopsOf (theStops.map (merged R))) := by
    rw [List.map_map]
    refine List.map_congr_left fun d hd => ?_
    obtain ⟨v, hv, hvd⟩ := List.mem_map.mp (hp.mem_iff.mpr (List.mem_map_of_mem hd))
    rw [stopsOf_merged hn hids R (hL hd), ← hvd, find?_key hR hv, Function.comp, ← hvd]
    exact hg v hv
  rw [← h1, ← h2]
  exact (hp.map g).symm

/-- The other vehicles keep their stops. -/
theorem stopsOf_merged_other {R : List ShortVehicle} {d : VehicleT} (hd : d ∈ vehicles)
    (hR : d.id ∉ R.map ShortVehicle.id) :
    stopsOf (theStops.map (merged R)) d = stopsOf theStops d := by
  have hnone : R.find? (fun v => decide (v.id = d.id)) = none :=
    List.find?_eq_none.mpr fun v hv => by
      simpa using fun h : v.id = d.id => hR (h ▸ List.mem_map_of_mem hv)
  rw [stopsOf_merged hn hids R hd, hnone]

end History

/-! ### One step -/

section Step
variable {S : Sorter} {M : Matrix} {orders : List OrdersT} {vehicles : List VehicleT}
  {maxCycles : ℕ} {date : ℤ}

/-- Redistributed stops are those of all vehicles. -/
theorem Redistributed.all {s s' : Subdivision} {t : ℤ} (h : Redistributed vehicles t s s') :
    (vehicles.flatMap (stopsOf s'.theStops)).Perm (vehicles.flatMap (stopsOf s.theStops)) := by
  refine (flatMap_filter_perm (isActive t) vehicles _).symm.trans
    (List.Perm.trans ?_ (flatMap_filter_perm (isActive t) vehicles _))
  have heq : (vehicles.filter fun d => !isActive t d).flatMap (stopsOf s'.theStops) =
      (vehicles.filter fun d => !isActive t d).flatMap (stopsOf s.theStops) := by
    rw [List.flatMap_def, List.flatMap_def]
    refine congrArg List.flatten (List.map_congr_left fun d hd => ?_)
    obtain ⟨hdV, ht⟩ := List.mem_filter.mp hd
    exact h.inactive d hdV (by simpa using ht)
  rw [heq]
  exact h.active.append_right _

section Update
variable (hn : (vehicles.map VehicleT.id).Nodup) {s : Subdivision} (h : Conserved vehicles s) {t : ℤ}
  {R : List ShortVehicle}
  (hp : (R.map ShortVehicle.id).Perm
    (((activeVehicles vehicles t).filter VehicleT.takesPart).map VehicleT.id))
include hn h hp

/-- A vehicle that takes no part keeps its stops. -/
theorem Conserved.stopsOf_other {d : VehicleT} (hd : d ∈ vehicles)
    (hdL : d ∉ (activeVehicles vehicles t).filter VehicleT.takesPart) :
    stopsOf (s.theStops.map (merged R)) d = stopsOf s.theStops d := by
  refine stopsOf_merged_other hn h.ids hd fun hmem => hdL ?_
  obtain ⟨e, he, hed⟩ := List.mem_map.mp (hp.mem_iff.mp hmem)
  rwa [← List.inj_on_of_nodup_map hn (List.mem_filter.mp (List.mem_filter.mp he).1).1 hd hed]

/-- The update with the result of a processing that conserves the stops. -/
theorem Conserved.update (inStops : Identifiers ℤ)
    (hidle : ∀ d ∈ activeVehicles vehicles t, d.takesPart = false → stopsOf s.theStops d = [])
    (htwice : TwiceOnOne (R.map ShortVehicle.stops))
    (hsame : (R.flatMap ShortVehicle.stops).Perm
      ((activeVehicles vehicles t).flatMap (stopsOf s.theStops))) :
    ∃ theStops, updateStops s.theStops R = .ok theStops ∧
      Conserved vehicles ⟨theStops, inStops⟩ ∧ Redistributed vehicles t s ⟨theStops, inStops⟩ := by
  have hAV : activeVehicles vehicles t ⊆ vehicles := fun d hd => (List.mem_filter.mp hd).1
  have hLV : (activeVehicles vehicles t).filter VehicleT.takesPart ⊆ vehicles := fun d hd =>
    hAV (List.mem_filter.mp hd).1
  have hR : (R.map ShortVehicle.id).Nodup := hp.nodup_iff.mpr
    (hn.sublist ((List.filter_sublist.trans List.filter_sublist).map _))
  have hids : (s.theStops.map (merged R)).map ShortVehicle.id = vehicles.map VehicleT.id := by
    rw [List.map_map]
    exact h.ids
  have hmerged := map_merged hn h.ids hR hLV hp
  have hred : Redistributed vehicles t s ⟨s.theStops.map (merged R), inStops⟩ := by
    refine ⟨fun d hd ht => h.stopsOf_other hn hp hd fun hdL => ?_, ?_⟩
    · rw [(List.mem_filter.mp (List.mem_filter.mp hdL).1).2] at ht
      cases ht
    · have hnil : ((activeVehicles vehicles t).filter fun d => !d.takesPart).flatMap
          (stopsOf (s.theStops.map (merged R))) = [] := by
        refine List.flatMap_eq_nil_iff.mpr fun d hd => ?_
        obtain ⟨hdA, htake⟩ := List.mem_filter.mp hd
        rw [h.stopsOf_other hn hp (hAV hdA) fun hdL => by simp [(List.mem_filter.mp hdL).2] at htake]
        exact hidle d hdA (by simpa using htake)
      have hsplit := flatMap_filter_perm VehicleT.takesPart (activeVehicles vehicles t)
        (stopsOf (s.theStops.map (merged R)))
      rw [hnil, List.append_nil] at hsplit
      refine hsplit.symm.trans (List.Perm.trans ?_ hsame)
      rw [List.flatMap_def, List.flatMap_def]
      exact hmerged.flatten
  have hall := hred.all
  rw [List.flatMap_def, List.flatMap_def, map_stopsOf hn hids, map_stopsOf hn h.ids] at hall
  refine ⟨_, updateStops_ok (h.ids ▸ hn) hR fun v hv => ?_, ⟨hids, h.twice.of_perm hall ?_, ?_⟩, hred⟩
  · obtain ⟨d, hd, hdv⟩ := List.mem_map.mp (hp.mem_iff.mp (List.mem_map_of_mem hv))
    rw [h.ids, ← hdv]
    exact List.mem_map_of_mem (hLV hd)
  · rw [← map_stopsOf hn hids]
    intro l hl x hx
    obtain ⟨d, hd, rfl⟩ := List.mem_map.mp hl
    by_cases hdL : d ∈ (activeVehicles vehicles t).filter VehicleT.takesPart
    · exact (htwice _ (hmerged.mem_iff.mp (List.mem_map_of_mem hdL)) x hx).1
    · rw [h.stopsOf_other hn hp hd hdL] at hx ⊢
      refine (h.twice _ ?_ x hx).1
      rw [← map_stopsOf hn h.ids]
      exact List.mem_map_of_mem hd
  · refine List.Perm.trans ?_ h.same
    rw [List.flatMap_def, List.flatMap_def]
    exact hall

end Update

theorem mem_ordersInStops {theStops : List ShortVehicle} {t x : ℤ} :
    x ∈ ordersInStops vehicles theStops t ↔
      ∃ d ∈ activeVehicles vehicles t, x ∈ stopsOf theStops d := by
  unfold ordersInStops
  rw [Identifiers.mem_foldl_foldl_insert]
  simp

variable (S M orders vehicles maxCycles date) in
/-- The condition on a step: when there is something to do, the processing is undisturbed. -/
def CalmStep (s : Subdivision) (t : ℤ) : Prop :=
  let inStops := ordersInStops vehicles s.theStops t
  (inStops.isEmpty || s.prevOrdersInStops.same inStops) = false →
    Undisturbed S M (orders.filter fun o => inStops.has o.id) (activeVehicles vehicles t) s.theStops
      date

/-- The condition on a run: all its steps are calm. -/
def CalmRun (S : Sorter) (M : Matrix) (orders : List OrdersT) (vehicles : List VehicleT)
    (maxCycles : ℕ) (date : ℤ) : List ℤ → Subdivision → Prop
  | [], _ => True
  | t :: times, s => CalmStep S M orders vehicles date s t ∧
      ∀ s', subdivideStep S M orders vehicles maxCycles date s t = .ok s' →
        CalmRun S M orders vehicles maxCycles date times s'

instance (s : Subdivision) (t : ℤ) : Decidable (CalmStep S M orders vehicles date s t) := by
  unfold CalmStep
  infer_instance

instance CalmRun.decidable : ∀ (times : List ℤ) (s : Subdivision),
    Decidable (CalmRun S M orders vehicles maxCycles date times s)
  | [], _ => .isTrue trivial
  | t :: times, s =>
    match hs : subdivideStep S M orders vehicles maxCycles date s t with
    | .ok s' =>
      have := CalmRun.decidable times s'
      decidable_of_iff (CalmStep S M orders vehicles date s t ∧
        CalmRun S M orders vehicles maxCycles date times s') (by simp [CalmRun, hs])
    | .error _ => decidable_of_iff (CalmStep S M orders vehicles date s t) (by simp [CalmRun, hs])

variable (hn : (vehicles.map VehicleT.id).Nodup) (hl : ListedOnce orders vehicles [])
include hn hl

/-- The orders and vehicles of a step. -/
theorem Conserved.listedOnce {s : Subdivision} (h : Conserved vehicles s) (t : ℤ) :
    ListedOnce (orders.filter fun o => (ordersInStops vehicles s.theStops t).has o.id)
      (activeVehicles vehicles t) s.theStops := by
  have hAV : activeVehicles vehicles t ⊆ vehicles := fun d hd => (List.mem_filter.mp hd).1
  have hheld : ∀ d ∈ activeVehicles vehicles t, heldStops s.theStops d = stopsOf s.theStops d :=
    fun d hd => heldStops_eq hn h.ids (hAV hd)
  refine ⟨hl.distinct.sublist (List.filter_sublist.map _), ?_, fun d hd x hx => ?_, fun x hx => ?_⟩
  · rw [List.map_congr_left hheld]
    have htwice := h.twice
    rw [← map_stopsOf hn h.ids] at htwice
    exact htwice.sublist (List.filter_sublist.map _)
  · rw [hheld d hd] at hx
    have hmem : x ∈ vehicles.flatMap VehicleT.stops := by
      refine h.same.mem_iff.mp ?_
      rw [List.flatMap_def, ← map_stopsOf hn h.ids, ← List.flatMap_def]
      exact List.mem_flatMap.mpr ⟨d, hAV hd, hx⟩
    obtain ⟨e, he, hxe⟩ := List.mem_flatMap.mp hmem
    obtain ⟨o, ho, rfl⟩ := List.mem_map.mp (hl.known e he x hxe)
    exact List.mem_map_of_mem (List.mem_filter.mpr ⟨ho, Identifiers.has_iff.mpr
      (mem_ordersInStops.mpr ⟨d, hd, hx⟩)⟩)
  · obtain ⟨o, ho, rfl⟩ := List.mem_map.mp hx
    obtain ⟨d, hd, hxd⟩ := mem_ordersInStops.mp (Identifiers.has_iff.mp (List.mem_filter.mp ho).2)
    exact ⟨d, hd, by rwa [hheld d hd]⟩

variable (maxCycles) in
/-- **A calm step conserves the stops.** -/
theorem Conserved.step {s : Subdivision} (h : Conserved vehicles s) {t : ℤ}
    (hc : CalmStep S M orders vehicles date s t) :
    ∃ s', subdivideStep S M orders vehicles maxCycles date s t = .ok s' ∧ Conserved vehicles s' ∧
      Redistributed vehicles t s s' := by
  unfold subdivideStep
  dsimp only
  cases hskip : (ordersInStops vehicles s.theStops t).isEmpty ||
      s.prevOrdersInStops.same (ordersInStops vehicles s.theStops t) with
  | true => exact ⟨s, rfl, h, fun _ _ _ => rfl, .refl _⟩
  | false =>
    have hu := hc hskip
    obtain ⟨R, hR, hp, htwice, hsame⟩ := oneProcessing_spec hu (h.listedOnce hn hl t) maxCycles
    have hheld : ∀ d ∈ activeVehicles vehicles t, heldStops s.theStops d = stopsOf s.theStops d :=
      fun d hd => heldStops_eq hn h.ids (List.mem_filter.mp hd).1
    rw [List.flatMap_def (f := heldStops _), List.map_congr_left hheld, ← List.flatMap_def] at hsame
    obtain ⟨theStops, hok, hcons, hred⟩ := h.update hn hp (ordersInStops vehicles s.theStops t)
      (fun d hd ht => by rw [← hheld d hd]; exact hu.idle d hd ht) htwice hsame
    refine ⟨_, ?_, hcons, hred⟩
    simp only [Bool.false_eq_true, if_false, bind, Except.bind, hR, hok]
    rfl

/-- **A calm run conserves the stops**, in every step and at its end. -/
theorem Conserved.run : ∀ {times : List ℤ} {s : Subdivision}, Conserved vehicles s →
    CalmRun S M orders vehicles maxCycles date times s →
    (∃ s', times.foldlM (subdivideStep S M orders vehicles maxCycles date) s = .ok s' ∧
      Conserved vehicles s') ∧
    ∀ pre t post, times = pre ++ t :: post → ∃ s₁ s₂,
      pre.foldlM (subdivideStep S M orders vehicles maxCycles date) s = .ok s₁ ∧
      subdivideStep S M orders vehicles maxCycles date s₁ t = .ok s₂ ∧
      Conserved vehicles s₁ ∧ Conserved vehicles s₂ ∧ Redistributed vehicles t s₁ s₂
  | [], s, h, _ => ⟨⟨s, rfl, h⟩, fun pre t post he => by simp at he⟩
  | t :: times, s, h, hc => by
    obtain ⟨s', hs', h', hred⟩ := h.step maxCycles hn hl hc.1
    obtain ⟨⟨s'', hs'', h''⟩, hsteps⟩ := Conserved.run h' (hc.2 s' hs')
    refine ⟨⟨s'', ?_, h''⟩, fun pre u post he => ?_⟩
    · rw [List.foldlM_cons, hs']
      exact hs''
    · cases pre with
      | nil =>
        obtain ⟨rfl, -⟩ := List.cons.inj he
        exact ⟨s, s', rfl, hs', h, h', hred⟩
      | cons v pre =>
        obtain ⟨rfl, hpost⟩ := List.cons.inj he
        obtain ⟨s₁, s₂, hs₁, hrest⟩ := hsteps pre u post hpost
        refine ⟨s₁, s₂, ?_, hrest⟩
        rw [List.foldlM_cons, hs']
        exact hs₁

end Step

/-- The loop before its first step. -/
def startOf (vehicles : List VehicleT) : Subdivision := ⟨getInitialStops vehicles, .empty⟩

theorem conserved_startOf {orders : List OrdersT} {vehicles : List VehicleT}
    (hl : ListedOnce orders vehicles []) : Conserved vehicles (startOf vehicles) := by
  have hstops : (getInitialStops vehicles).map ShortVehicle.stops = vehicles.map VehicleT.stops := by
    unfold getInitialStops
    rw [List.map_map]
    rfl
  refine ⟨?_, ?_, ?_⟩
  · unfold startOf getInitialStops
    rw [List.map_map]
    rfl
  · exact hstops ▸ hl.twice
  · exact .of_eq (by rw [List.flatMap_def, List.flatMap_def]; exact congrArg _ hstops)

end VrpRouting.Driver
