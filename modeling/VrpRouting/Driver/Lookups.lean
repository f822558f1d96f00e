import VrpRouting.Driver.Result
import VrpRouting.Optimizers.TruckRoutes

/-! # The lookups of the subdivision

A step of the subdivision searches the entry of each active vehicle in the history of stops, the
order of each stop of the problem's vehicles, and the entry of each vehicle of the result. The
searches are dereferenced without a test. They find their targets (`Lookups`) as long as the history
has an entry for every vehicle and lists orders only (`Listed`), and the result has no phony vehicle
without an entry: so no order may be left over for a phony vehicle (`Resolvable`). -/

open Sorting

namespace VrpRouting

/-! ### The phony vehicle of the initial solution -/

namespace Initialsol.Tabu.InitialSolution

/-- An order that is unassigned after the user's solution is left over. -/
theorem leftOver_of_unassigned {M : Matrix} {orders : Orders} (ho : orders.WellFormed) (date : ℤ)
    (optimize : Bool) : ∀ (vs : List Vehicle) (sets : Assignment), (∀ v ∈ vs, Fresh M orders v) →
    ∀ i ∈ (Fleet.setInitialSolutions M orders date optimize vs sets).2.unassigned,
      LeftOver M orders date optimize vs sets.unassigned i
  | [], _, _, _, hi => Or.inl ⟨hi, by simp⟩
  | v :: vs, sets, hf, i, hi => by
    obtain ⟨hv, hvs⟩ := List.forall_mem_cons.mp hf
    rcases leftOver_of_unassigned ho date optimize vs _ hvs i hi with ⟨hr, hnot⟩ | ⟨w, hw, hlost⟩
    · rcases ((setInitialSolution_spec ho hv sets date optimize).unassigned i).mp hr with
        ⟨hs, hnv⟩ | hgone
      · exact Or.inl ⟨hs, List.forall_mem_cons.mpr ⟨hnv, hnot⟩⟩
      · exact Or.inr ⟨v, List.mem_cons_self, hgone⟩
    · exact Or.inr ⟨w, List.mem_cons_of_mem _ hw, hlost⟩

/-- No order that is left over fits in the phony truck. -/
def NothingLeft (M : Matrix) (date : ℤ) (optimize : Bool) (p : PickDeliver) : Prop :=
  ∀ i < p.orders.length,
    LeftOver M p.orders date optimize p.trucks.vehicles p.trucks.feasibleOrders i →
      p.trucks.getPhony.isOrderFeasible M (p.orders.get i) = false

theorem NothingLeft.placedOrders {S : Sorter} {M : Matrix} {pOrders : List OrdersT}
    {pVehicles : List VehicleT} {newStops : List ShortVehicle} {p : PickDeliver} {date : ℤ}
    {optimize : Bool} (h : NothingLeft M date optimize p)
    (hb : p.Built S M pOrders pVehicles newStops) (hn : NoPhonyStops newStops) :
    placedOrders M date optimize p = [] := by
  refine List.eq_nil_iff_forall_not_mem.mpr fun o ho => ?_
  have hlt := placed_lt hb date optimize o ho
  obtain ⟨hun, hfits⟩ := List.mem_filter.mp ho
  have hleft := leftOver_of_unassigned hb.wellFormed date optimize p.trucks.vehicles
    ⟨.empty, p.trucks.feasibleOrders⟩ hb.fresh o hun
  rw [(getPhony_userFleet hb date optimize hn).2, h o hlt hleft] at hfits
  cases hfits

instance (M : Matrix) (date : ℤ) (optimize : Bool) (p : PickDeliver) :
    Decidable (NothingLeft M date optimize p) := by
  unfold NothingLeft LeftOver Visited
  infer_instance

end Initialsol.Tabu.InitialSolution

open Initialsol.Tabu.InitialSolution

instance : DecidablePred VehicleT.IsUsable := fun d =>
  inferInstanceAs (Decidable (0 < d.cantV ∧ 0 ≤ d.id ∧ 0 < d.capacity))

/-! ### Problems without a fault -/

section Build
variable {S : Sorter} {M : Matrix} {pOrders : List OrdersT} {pVehicles : List VehicleT}
  {newStops : List ShortVehicle}

theorem addVehicles_error {orders : Orders} {f : Fault} : ∀ {l : List VehicleT}
    {s : List Vehicle × ℕ}, l.foldlM (Fleet.addVehicle M newStops orders) s = .error f →
    f ≠ .undefinedRead
  | [], _, h => by cases h
  | d :: l, s, h => by
    rw [List.foldlM_cons] at h
    rcases bind_eq_error h with h | ⟨t, -, h⟩
    · unfold Fleet.addVehicle at h
      split_ifs at h
      obtain rfl := Except.error.inj h
      exact fun h => by cases h
    · exact addVehicles_error h

/-- When there is a vehicle, building a problem has no undefined read. -/
theorem build_error (hne : pVehicles ≠ []) {f : Fault}
    (h : PickDeliver.build S M pOrders pVehicles newStops = .error f) : f ≠ .undefinedRead := by
  rcases bind_eq_error h with h | ⟨t, -, h⟩
  · rcases bind_eq_error h with h | ⟨s, -, h⟩
    · exact addVehicles_error h
    · cases hsort : S.sort vehicleLt pVehicles with
      | nil =>
        have hlen := S.length_sort vehicleLt pVehicles
        rw [hsort] at hlen
        exact absurd (List.length_eq_zero_iff.mp hlen.symm) hne
      | cons first rest =>
        rw [hsort] at h
        rcases bind_eq_error h with h | ⟨s', -, h⟩
        · exact addVehicles_error (l := [Fleet.phonyVehicle first]) (s := s) (by
            rw [List.foldlM_cons, h]
            rfl)
        · cases h
  · cases h

end Build

namespace Driver

/-! ### One processing -/

section Processing
variable {S : Sorter} {M : Matrix} {pOrders : List OrdersT} {pVehicles : List VehicleT}
  {newStops : List ShortVehicle} {maxCycles : ℕ} {date : ℤ}

/-- The returned vehicles: given ones, and the phony one when an order was left over. Their stops are
orders of the problem, when the sites of the usable vehicles are recognised. -/
theorem oneProcessing_returns {R : List ShortVehicle}
    (hR : oneProcessing S M pOrders pVehicles newStops maxCycles date = .ok R)
    (hproper : ∀ d ∈ pVehicles, d.IsUsable → d.Proper) :
    ∃ p, PickDeliver.build S M pOrders pVehicles newStops = .ok p ∧
      ∀ v ∈ R, (v.id ∈ pVehicles.map VehicleT.id ∨
        (v.id = -1 ∧ placedOrders M date true p ≠ [])) ∧
        ∀ x ∈ v.stops, x ∈ pOrders.map OrdersT.id := by
  obtain ⟨p, hp, hR⟩ := bind_eq_ok hR
  obtain ⟨s, hs, hR⟩ := bind_eq_ok hR
  obtain rfl := Except.ok.inj hR
  refine ⟨p, hp, fun w hw => ?_⟩
  have hb := PickDeliver.build_built hp
  have horders : s.orders = p.orders := by
    obtain ⟨first, rest, -, hf⟩ := hb.fleet
    exact (construct_fleet hs hf.used).1
  have hstart := construct_onTruckRoutes hb hs
  rw [← horders] at hstart
  obtain ⟨v, hv, rfl⟩ := List.mem_map.mp hw
  obtain ⟨u, hu, hroute⟩ := (Optimizers.Tabu.run_onTruckRoutes S (construct_valid hb hs) hstart
    maxCycles false true).2 v hv
  dsimp only
  rw [horders] at hroute
  rw [hroute.id]
  rcases hu with ⟨hu, hreal, hok⟩ | ⟨hlast, hleft⟩
  · obtain ⟨d, hd, husable, k, hm⟩ := exists_usable hb hu hok hreal
    refine ⟨Or.inl ?_, fun x hx => ?_⟩
    · obtain ⟨n, -, hn⟩ := hm
      rw [hn]
      exact List.mem_map_of_mem hd
    · exact hb.mem_ids.mpr (hroute.mem_getStops hb.named (hm.recognised (hproper d hd husable)) hx)
  · obtain ⟨first, rest, -, n, -, hn⟩ := made_phony hb hlast
    have hid : u.id = -1 := by rw [hn]; rfl
    refine ⟨Or.inr ⟨hid, hleft⟩, fun x hx => ?_⟩
    have hphony : v.isPhony = true := by
      unfold Vehicle.isPhony
      rw [hroute.id, hid]
      rfl
    unfold Vehicle.getStops at hx
    rw [if_pos hphony] at hx
    cases hx

end Processing

/-! ### The steps -/

/-- There is an entry for each vehicle, and the stops are orders. -/
structure Listed (orders : List OrdersT) (vehicles : List VehicleT) (s : Subdivision) : Prop where
  ids : s.theStops.map ShortVehicle.id = vehicles.map VehicleT.id
  known : ∀ w ∈ s.theStops, ∀ x ∈ w.stops, x ∈ orders.map OrdersT.id

/-- The body of the loop has something to do at time `t`. -/
def processes (vehicles : List VehicleT) (s : Subdivision) (t : ℤ) : Bool :=
  !((ordersInStops vehicles s.theStops t).isEmpty ||
    s.prevOrdersInStops.same (ordersInStops vehicles s.theStops t))

/-- The orders that are processed at time `t`. -/
def activeOrders (orders : List OrdersT) (vehicles : List VehicleT) (s : Subdivision) (t : ℤ) :
    List OrdersT :=
  orders.filter fun o => (ordersInStops vehicles s.theStops t).has o.id

section Steps
variable (S : Sorter) (M : Matrix) (orders : List OrdersT) (vehicles : List VehicleT)
  (maxCycles : ℕ) (date : ℤ)

/-- The problem of a processing. -/
def problemAt (s : Subdivision) (t : ℤ) : Except Fault PickDeliver :=
  PickDeliver.build S M (activeOrders orders vehicles s t) (activeVehicles vehicles t) s.theStops

/-- The result of a processing. -/
def resultAt (s : Subdivision) (t : ℤ) : Except Fault (List ShortVehicle) :=
  oneProcessing S M (activeOrders orders vehicles s t) (activeVehicles vehicles t) s.theStops
    maxCycles date

/-- The searches of a step find their targets: the entry of each active vehicle, the order of each
stop of the problem, and the entry of each vehicle of the result. -/
structure Lookups (s : Subdivision) (t : ℤ) : Prop where
  active : ∀ d ∈ activeVehicles vehicles t, ∃ w ∈ s.theStops, w.id = d.id
  stops : processes vehicles s t = true → ∀ p, problemAt S M orders vehicles s t = .ok p →
    ∀ v ∈ p.trucks.vehicles, ∀ x ∈ v.stops, ∃ o ∈ p.orders, o.id = x
  returned : processes vehicles s t = true → ∀ R, resultAt S M orders vehicles maxCycles date s t =
    .ok R → ∀ v ∈ R, ∃ w ∈ s.theStops, w.id = v.id

/-- The condition on a step that processes something: the sites of usable active vehicles are
recognised; when no vehicle has the identifier -1, no order is left over for the phony vehicle, and
otherwise the stops of that vehicle are those of active ones. -/
def Resolvable (s : Subdivision) (t : ℤ) : Prop :=
  processes vehicles s t = true →
    (∀ d ∈ activeVehicles vehicles t, d.IsUsable → d.Proper) ∧
    ((∀ w ∈ s.theStops, w.id ≠ -1) →
      ∀ p, problemAt S M orders vehicles s t = .ok p → NothingLeft M date true p) ∧
    ∀ w ∈ s.theStops, w.id = -1 → ∀ x ∈ w.stops, x ∈ ordersInStops vehicles s.theStops t

/-- The condition on a run: it holds at every step. -/
def ResolvableRun : List ℤ → Subdivision → Prop
  | [], _ => True
  | t :: times, s => Resolvable S M orders vehicles date s t ∧
      ∀ s', subdivideStep S M orders vehicles maxCycles date s t = .ok s' → ResolvableRun times s'

instance (s : Subdivision) (t : ℤ) : Decidable (Resolvable S M orders vehicles date s t) :=
  decidable_of_iff (processes vehicles s t = true →
    (∀ d ∈ activeVehicles vehicles t, d.IsUsable → d.Proper) ∧
    ((∀ w ∈ s.theStops, w.id ≠ -1) →
      ∀ p ∈ (problemAt S M orders vehicles s t).toOption, NothingLeft M date true p) ∧
    ∀ w ∈ s.theStops, w.id = -1 → ∀ x ∈ w.stops, x ∈ ordersInStops vehicles s.theStops t) <| by
  have heq : ∀ q : PickDeliver → Prop, (∀ p ∈ (problemAt S M orders vehicles s t).toOption, q p) ↔
      ∀ p, problemAt S M orders vehicles s t = .ok p → q p := fun q => by
    cases problemAt S M orders vehicles s t <;> simp [Except.toOption]
  unfold Resolvable
  rw [heq]

instance ResolvableRun.decidable : ∀ (times : List ℤ) (s : Subdivision),
    Decidable (ResolvableRun S M orders vehicles maxCycles date times s)
  | [], _ => .isTrue trivial
  | t :: times, s =>
    match hs : subdivideStep S M orders vehicles maxCycles date s t with
    | .ok s' =>
      have := ResolvableRun.decidable times s'
      decidable_of_iff (Resolvable S M orders vehicles date s t ∧
        ResolvableRun S M orders vehicles maxCycles date times s') (by simp [ResolvableRun, hs])
    | .error _ => decidable_of_iff (Resolvable S M orders vehicles date s t)
        (by simp [ResolvableRun, hs])

variable {S M orders vehicles maxCycles date}

theorem subdivideStep_eq (s : Subdivision) (t : ℤ) :
    subdivideStep S M orders vehicles maxCycles date s t =
      if processes vehicles s t then do
        let newStops ← resultAt S M orders vehicles maxCycles date s t
        return ⟨← updateStops s.theStops newStops, ordersInStops vehicles s.theStops t⟩
      else .ok s := by
  unfold subdivideStep processes
  dsimp only
  cases (ordersInStops vehicles s.theStops t).isEmpty ||
    s.prevOrdersInStops.same (ordersInStops vehicles s.theStops t) <;> rfl

variable {s : Subdivision} {t : ℤ} (hn : (vehicles.map VehicleT.id).Nodup)
  (h : Listed orders vehicles s)
include h

theorem Listed.exists_entry {x : ℤ} (hx : x ∈ vehicles.map VehicleT.id) :
    ∃ w ∈ s.theStops, w.id = x := by
  rw [← h.ids] at hx
  exact List.mem_map.mp hx

/-- The stops of an entry are orders. -/
theorem Listed.known_stopsOf {d : VehicleT} {x : ℤ} (hx : x ∈ stopsOf s.theStops d) :
    x ∈ orders.map OrdersT.id := by
  unfold stopsOf at hx
  split at hx
  · next w hw => exact h.known w (List.mem_of_find?_eq_some hw) x hx
  · cases hx

theorem Listed.mem_activeOrders {x : ℤ} (hx : x ∈ ordersInStops vehicles s.theStops t) :
    x ∈ (activeOrders orders vehicles s t).map OrdersT.id := by
  obtain ⟨d, -, hd⟩ := mem_ordersInStops.mp hx
  obtain ⟨o, ho, rfl⟩ := List.mem_map.mp (h.known_stopsOf hd)
  exact List.mem_map_of_mem (List.mem_filter.mpr ⟨ho, Identifiers.has_iff.mpr hx⟩)

/-- The stops of the vehicles of a problem are active orders. -/
theorem Listed.stops (hc : Resolvable S M orders vehicles date s t)
    (hdo : processes vehicles s t = true) {p : PickDeliver}
    (hp : problemAt S M orders vehicles s t = .ok p) {v : Vehicle} (hv : v ∈ p.trucks.vehicles)
    {x : ℤ} (hx : x ∈ v.stops) : ∃ o ∈ p.orders, o.id = x := by
  have hb := PickDeliver.build_built hp
  suffices hin : x ∈ ordersInStops vehicles s.theStops t by
    obtain ⟨i, hi, hid⟩ := hb.mem_ids.mp (h.mem_activeOrders hin)
    exact ⟨_, Orders.get_mem hi, hid⟩
  obtain ⟨k, d, ⟨n, -, hm⟩, hd⟩ := hb.exists_made hv
  have hstops : v.stops = Fleet.stopsFor s.theStops d := by rw [hm]; rfl
  rw [hstops] at hx
  unfold Fleet.stopsFor at hx
  split_ifs at hx
  swap
  · cases hx
  cases hfind : s.theStops.find? fun w => decide (w.id = d.id) with
  | some w =>
    rw [hfind] at hx
    rcases hd with ⟨hactive, -⟩ | ⟨first, -, rfl⟩
    · refine mem_ordersInStops.mpr ⟨d, hactive, ?_⟩
      unfold stopsOf
      rw [hfind]
      exact hx
    · have hid := List.find?_some hfind
      exact (hc hdo).2.2 w (List.mem_of_find?_eq_some hfind) (of_decide_eq_true hid) x hx
  | none =>
    rw [hfind] at hx
    rcases hd with ⟨hactive, -⟩ | ⟨first, -, rfl⟩
    · obtain ⟨w, hw, hwd⟩ := h.exists_entry (List.mem_map_of_mem (List.mem_filter.mp hactive).1)
      exact absurd hwd (by simpa using List.find?_eq_none.mp hfind w hw)
    · cases hx

/-- The returned vehicles have entries, and their stops are orders. -/
theorem Listed.returned (hc : Resolvable S M orders vehicles date s t)
    (hdo : processes vehicles s t = true) {R : List ShortVehicle}
    (hR : resultAt S M orders vehicles maxCycles date s t = .ok R) :
    (∀ v ∈ R, ∃ w ∈ s.theStops, w.id = v.id) ∧
      ∀ v ∈ R, ∀ x ∈ v.stops, x ∈ orders.map OrdersT.id := by
  obtain ⟨hproper, hleft, -⟩ := hc hdo
  obtain ⟨p, hp, hret⟩ := oneProcessing_returns hR hproper
  refine ⟨fun v hv => ?_, fun v hv x hx => ?_⟩
  · rcases (hret v hv).1 with hid | ⟨hid, hplaced⟩
    · obtain ⟨d, hd, hdv⟩ := List.mem_map.mp hid
      exact h.exists_entry (List.mem_map.mpr ⟨d, (List.mem_filter.mp hd).1, hdv⟩)
    · rw [hid]
      by_contra hnone
      have hno : ∀ w ∈ s.theStops, w.id ≠ -1 := fun w hw hid => hnone ⟨w, hw, hid⟩
      refine hplaced ((hleft hno p hp).placedOrders (PickDeliver.build_built hp) fun w hw => ?_)
      exact absurd (by simpa using List.find?_some hw) (hno w (List.mem_of_find?_eq_some hw))
  · obtain ⟨o, ho, rfl⟩ := List.mem_map.mp ((hret v hv).2 x hx)
    exact List.mem_map_of_mem (List.mem_filter.mp ho).1

theorem Listed.lookups (hc : Resolvable S M orders vehicles date s t) (maxCycles : ℕ) :
    Lookups S M orders vehicles maxCycles date s t where
  active _ hd := h.exists_entry (List.mem_map_of_mem (List.mem_filter.mp hd).1)
  stops hdo _ hp _ hv _ hx := h.stops hc hdo hp hv hx
  returned hdo _ hR := (h.returned hc hdo hR).1

include hn

/-- **A resolvable step** has no undefined read, and keeps the history. -/
theorem Listed.step (hc : Resolvable S M orders vehicles date s t) :
    (∀ s', subdivideStep S M orders vehicles maxCycles date s t = .ok s' →
      Listed orders vehicles s') ∧
    subdivideStep S M orders vehicles maxCycles date s t ≠ .error .undefinedRead := by
  rw [subdivideStep_eq]
  cases hdo : processes vehicles s t with
  | false => exact ⟨fun s' h' => Except.ok.inj h' ▸ h, fun h' => by cases h'⟩
  | true =>
    rw [if_pos rfl]
    have hupdate : ∀ R, resultAt S M orders vehicles maxCycles date s t = .ok R →
        ∃ theStops, updateStops s.theStops R = .ok theStops ∧
          theStops.map ShortVehicle.id = s.theStops.map ShortVehicle.id ∧
          ∀ w ∈ theStops, ∀ x ∈ w.stops, x ∈ orders.map OrdersT.id := fun R hR => by
      obtain ⟨hfound, hknown⟩ := h.returned hc hdo hR
      exact updateStops_found (P := fun l => ∀ x ∈ l, x ∈ orders.map OrdersT.id) (h.ids ▸ hn)
        (fun v hv => List.mem_map.mpr (hfound v hv)) h.known hknown
    refine ⟨fun s' h' => ?_, fun h' => ?_⟩
    · obtain ⟨R, hR, h'⟩ := bind_eq_ok h'
      obtain ⟨theStops, hok, hids, hknown⟩ := hupdate R hR
      rw [hok] at h'
      obtain rfl := Except.ok.inj h'
      exact ⟨hids.trans h.ids, hknown⟩
    · rcases bind_eq_error h' with hR | ⟨R, hR, h'⟩
      · rcases bind_eq_error hR with hp | ⟨p, hp, hR⟩
        · refine build_error (fun hnil => ?_) hp rfl
          have hempty : ordersInStops vehicles s.theStops t = .empty := by
            unfold ordersInStops
            rw [hnil]
            rfl
          unfold processes at hdo
          rw [hempty] at hdo
          cases hdo
        · rcases bind_eq_error hR with hs | ⟨s', -, hR⟩
          · unfold construct at hs
            rw [if_pos] at hs
            · cases hs
            · refine List.all_eq_true.mpr fun v hv => List.all_eq_true.mpr fun x hx => ?_
              obtain ⟨o, ho, hid⟩ := h.stops hc hdo hp hv hx
              exact List.any_eq_true.mpr ⟨o, ho, by simpa using hid⟩
          · cases hR
      · obtain ⟨theStops, hok, -⟩ := hupdate R hR
        rw [hok] at h'
        cases h'

omit h in
/-- **A resolvable run** finds every target, and has no undefined read. -/
theorem Listed.run : ∀ {times : List ℤ} {s : Subdivision}, Listed orders vehicles s →
    ResolvableRun S M orders vehicles maxCycles date times s →
    (∀ pre t post s', times = pre ++ t :: post →
      pre.foldlM (subdivideStep S M orders vehicles maxCycles date) s = .ok s' →
      Lookups S M orders vehicles maxCycles date s' t) ∧
    times.foldlM (subdivideStep S M orders vehicles maxCycles date) s ≠ .error .undefinedRead
  | [], s, _, _ => ⟨fun pre t post s' he => by simp at he, fun h' => by cases h'⟩
  | t :: times, s, h, hc => by
    have hstep : (∀ s', subdivideStep S M orders vehicles maxCycles date s t = .ok s' →
        Listed orders vehicles s') ∧
        subdivideStep S M orders vehicles maxCycles date s t ≠ .error .undefinedRead :=
      h.step hn hc.1
    obtain ⟨hkeep, hok⟩ := hstep
    refine ⟨fun pre u post s' he hs' => ?_, fun h' => ?_⟩
    · cases pre with
      | nil =>
        obtain ⟨rfl, -⟩ := List.cons.inj he
        obtain rfl := Except.ok.inj hs'
        exact h.lookups hc.1 maxCycles
      | cons v pre =>
        obtain ⟨rfl, hpost⟩ := List.cons.inj he
        rw [List.foldlM_cons] at hs'
        obtain ⟨s₁, hs₁, hs'⟩ := bind_eq_ok hs'
        exact (Listed.run (hkeep s₁ hs₁) (hc.2 s₁ hs₁)).1 pre u post s' hpost hs'
    · rw [List.foldlM_cons] at h'
      rcases bind_eq_error h' with h' | ⟨s₁, hs₁, h'⟩
      · exact hok h'
      · exact (Listed.run (hkeep s₁ hs₁) (hc.2 s₁ hs₁)).2 h'

end Steps

/-! ### Requests -/

section Request
variable (S : Sorter) (M : Matrix) (orders : List OrdersT) (vehicles : List VehicleT)
  (date kind maxCycles : ℤ)

/-- The condition on a request with subdivision. -/
def ResolvableRequest : Prop :=
  let vehicles := vehiclesToOptimize S vehicles date
  let orders := ordersToOptimize S orders (stopIds vehicles)
  ResolvableRun S M orders vehicles maxCycles.toNat date
    (processingTimes orders vehicles (decide (kind = 1))).ids (startOf vehicles)

variable {S M orders vehicles date kind maxCycles}

instance : Decidable (ResolvableRequest S M orders vehicles date kind maxCycles) := by
  unfold ResolvableRequest
  infer_instance

end Request

theorem listed_startOf {orders : List OrdersT} {vehicles : List VehicleT}
    (hknown : ∀ d ∈ vehicles, ∀ x ∈ d.stops, x ∈ orders.map OrdersT.id) :
    Listed orders vehicles (startOf vehicles) where
  ids := by
    unfold startOf getInitialStops
    rw [List.map_map]
    rfl
  known w hw := by
    obtain ⟨d, hd, rfl⟩ := List.mem_map.mp hw
    exact hknown d hd

/-- **The lookups of the subdivision succeed** in every step of a resolvable run over any times; so
a resolvable request with subdivision has no undefined read. -/
theorem subdivision_lookups (S : Sorter) (M : Matrix) :
    (∀ (orders : List OrdersT) (vehicles : List VehicleT) (maxCycles : ℕ) (date : ℤ),
      (vehicles.map VehicleT.id).Nodup →
      (∀ d ∈ vehicles, ∀ x ∈ d.stops, x ∈ orders.map OrdersT.id) →
      ∀ times, ResolvableRun S M orders vehicles maxCycles date times (startOf vehicles) →
      ∀ pre t post s, times = pre ++ t :: post →
        pre.foldlM (subdivideStep S M orders vehicles maxCycles date) (startOf vehicles) = .ok s →
        Lookups S M orders vehicles maxCycles date s t) ∧
    ∀ (orders : List OrdersT) (vehicles : List VehicleT) (factor : ℚ) (maxCycles date kind : ℤ),
      kind ≠ 0 → ResolvableRequest S M orders vehicles date kind maxCycles →
      vrpDoOptimize S M orders vehicles factor maxCycles date kind ≠ .error .undefinedRead := by
  refine ⟨fun orders vehicles maxCycles date hn hknown times hc =>
    ((listed_startOf hknown).run hn hc).1, fun orders vehicles factor maxCycles date kind hkind hc => ?_⟩
  have hn := nodup_vehiclesToOptimize S vehicles date
  unfold vrpDoOptimize
  extract_lets V ids O found
  split_ifs with h1 h2 h3 h4 h5 hmissing h7
  iterate 7 exact fun h => by cases h
  have hknown := known_toOptimize (by simpa using hmissing)
  have hrun := ((listed_startOf hknown).run hn hc).2
  intro h
  rcases bind_eq_error h with h | ⟨solution, -, h⟩
  · rcases bind_eq_error h with h | ⟨s, -, h⟩
    · exact hrun h
    · cases h
  · cases h

/-! ### A request with and without a phony vehicle -/

theorem subdivision_lookups_small :
    let orders := [smallOrderData 1 100, smallOrderData 2 100]
    let vehicles := [smallVehicleData 7 [1, 1], smallVehicleData 8 [2, 2]]
    Lookups .insertion twoSites orders vehicles 1 0 (startOf vehicles) 0 ∧
    vrpDoOptimize .insertion twoSites orders vehicles 1 1 0 1 ≠ .error .undefinedRead := by
  intro orders vehicles
  have h := subdivision_lookups .insertion twoSites
  exact ⟨h.1 orders vehicles 1 0 (by decide) (by decide) [0, 50] (by decide +kernel) [] 0 [50] _ rfl
    rfl, h.2 orders vehicles 1 1 0 1 (by decide) (by decide +kernel)⟩

/-- An order that does not fit in its vehicle is left over: its phony vehicle is returned and has no
entry. -/
theorem subdivision_lookups_fail :
    let orders := [{ smallOrderData 1 100 with demand := 2 }]
    let vehicles := [smallVehicleData 7 [1, 1]]
    ¬ Lookups .insertion twoSites orders vehicles 1 0 (startOf vehicles) 0 ∧
    vrpDoOptimize .insertion twoSites orders vehicles 1 1 0 1 = .error .undefinedRead := by
  intro orders vehicles
  refine ⟨fun h => ?_, by decide +kernel⟩
  obtain ⟨R, hR, hphony⟩ := exists_ok_and
    (x := resultAt .insertion twoSites orders vehicles 1 0 (startOf vehicles) 0)
    (fun R => R.any fun v => decide (v.id = -1)) (by decide +kernel)
  obtain ⟨v, hv, hid⟩ := List.any_eq_true.mp hphony
  obtain ⟨w, hw, hwv⟩ := h.returned (by decide +kernel) R hR v hv
  obtain rfl := List.mem_singleton.mp hw
  rw [of_decide_eq_true hid] at hwv
  cases hwv

end Driver

end VrpRouting
