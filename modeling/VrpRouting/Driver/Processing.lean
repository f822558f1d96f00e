import VrpRouting.Driver.Optimize
import VrpRouting.InitialSol.Placement
import VrpRouting.Lib.Keyed
import VrpRouting.Optimizers.Listing

/-! # One processing

A processing on legal vehicles has a result (`exists_build`, `oneProcessing_spec`). When it is
`Undisturbed` the trucks of the problem are the vehicles that take part, each with the stops that it
had, every order is on one of them, and no phony vehicle is needed; so the result has the same
vehicles and the same stops, twice on one vehicle each. -/

open Sorting Keyed

namespace VrpRouting

/-! ### The problem is built -/

section Build
variable {M : Matrix}

theorem addVehicle_ok (newStops : List ShortVehicle) (orders : Orders) (s : List Vehicle × ℕ)
    {d : VehicleT} (h : d.Legal) : ∃ t, Fleet.addVehicle M newStops orders s d = .ok t := by
  unfold Fleet.addVehicle
  rw [if_neg (by obtain ⟨h1, h2⟩ := h; omega)]
  exact ⟨_, rfl⟩

theorem addVehicles_ok (newStops : List ShortVehicle) (orders : Orders) :
    ∀ (l : List VehicleT) (s : List Vehicle × ℕ),
    (∀ d ∈ l, d.Legal) → ∃ t, l.foldlM (Fleet.addVehicle M newStops orders) s = .ok t
  | [], s, _ => ⟨s, rfl⟩
  | d :: l, s, h => by
    obtain ⟨hd, hl⟩ := List.forall_mem_cons.mp h
    obtain ⟨t, ht⟩ := addVehicle_ok newStops orders s hd
    obtain ⟨u, hu⟩ := addVehicles_ok newStops orders l t hl
    refine ⟨u, ?_⟩
    rw [List.foldlM_cons, ht]
    exact hu

theorem legal_phonyVehicle (first : VehicleT) : (Fleet.phonyVehicle first).Legal :=
  ⟨by show (0 : ℤ) ≤ infinity; decide, by show (0 : ℤ) ≤ infinity; decide⟩

/-- A problem with legal vehicles is built. -/
theorem exists_build (S : Sorter) (newStops : List ShortVehicle) (pOrders : List OrdersT)
    {pVehicles : List VehicleT} (hne : pVehicles ≠ []) (h : ∀ d ∈ pVehicles, d.Legal) :
    ∃ p, PickDeliver.build S M pOrders pVehicles newStops = .ok p := by
  obtain ⟨s, hs⟩ := addVehicles_ok (M := M) newStops
    (Orders.ofData (S.sort ordersLt pOrders)) (S.sort vehicleLt pVehicles)
    ([], 2 * (Orders.ofData (S.sort ordersLt pOrders)).length) fun d hd => h d ((S.mem_sort _).mp hd)
  unfold PickDeliver.build Fleet.build
  dsimp only
  rw [hs]
  cases hsort : S.sort vehicleLt pVehicles with
  | nil =>
    have hlen := S.length_sort vehicleLt pVehicles
    rw [hsort] at hlen
    exact absurd (List.length_eq_zero_iff.mp hlen.symm) hne
  | cons first rest =>
    obtain ⟨t, ht⟩ := addVehicle_ok (M := M) newStops
      (Orders.ofData (S.sort ordersLt pOrders)) s (legal_phonyVehicle first)
    simp only [bind, Except.bind, ht]
    exact ⟨_, rfl⟩

end Build

/-! ### The vehicles of the problem -/

/-- The stops of a vehicle: those of `new_stops` when its identifier is found there. -/
def heldStops (newStops : List ShortVehicle) (d : VehicleT) : List ℤ :=
  match newStops.find? fun v => decide (v.id = d.id) with
  | some v => v.stops
  | none => d.stops

/-- There is one usable real vehicle with this description. -/
def VehicleT.takesPart (d : VehicleT) : Bool := decide (d.cantV = 1 ∧ 0 ≤ d.id ∧ 0 < d.capacity)

/-- There are usable real vehicles with this description. -/
def VehicleT.IsUsable (d : VehicleT) : Prop := 0 < d.cantV ∧ 0 ≤ d.id ∧ 0 < d.capacity

/-- The two sites are recognised as such by `is_start` and `is_end`. -/
structure VehicleT.Proper (d : VehicleT) : Prop where
  start : d.startOpenT < d.startCloseT ∧ 0 ≤ d.startServiceT
  finish : d.endOpenT < d.endCloseT ∧ 0 ≤ d.endServiceT

theorem stopsFor_eq (newStops : List ShortVehicle) (d : VehicleT) :
    Fleet.stopsFor newStops d = if d.cantV = 1 then heldStops newStops d else [] := rfl

theorem copies_eq_filter : ∀ {l : List VehicleT}, (∀ d ∈ l, d.cantV ≤ 1) →
    copies l = l.filter fun d => decide (d.cantV = 1)
  | [], _ => rfl
  | d :: l, h => by
    obtain ⟨hd, hl⟩ := List.forall_mem_cons.mp h
    have hc : copies (d :: l) = List.replicate d.cantV d ++ copies l := List.flatMap_cons ..
    rw [hc, copies_eq_filter hl]
    rcases Nat.le_one_iff_eq_zero_or_eq_one.mp hd with h0 | h1
    · rw [h0, List.filter_cons_of_neg (by simp [h0])]
      rfl
    · rw [h1, List.filter_cons_of_pos (by simp [h1])]
      rfl

section Made
variable {M : Matrix} {newStops : List ShortVehicle} {orders : Orders} {nodes : ℕ}
  {vs : List Vehicle} {ds : List VehicleT}

theorem Made.isOk {v : Vehicle} {k : ℕ} {d : VehicleT} (h : Made M newStops orders nodes v k d)
    (hd : d.Legal) : v.isOk = decide (0 < d.capacity) := by
  obtain ⟨n, -, hN⟩ := h.nodesOf
  have hcap : v.capacity = d.capacity := by obtain ⟨m, -, hm⟩ := h; rw [hm]; rfl
  obtain ⟨x, y, hp, hx, hy⟩ : ∃ x y, v.path = [x, y] ∧ x.toTwNode = .ofVehicle n d .kStart ∧
      y.toTwNode = .ofVehicle (n + 1) d .kEnd := by
    obtain ⟨x, l, hp, hx, hl⟩ := List.map_eq_cons_iff.mp hN
    obtain ⟨y, l', hl', hy, hnil⟩ := List.map_eq_cons_iff.mp hl
    obtain rfl := List.map_eq_nil_iff.mp hnil
    exact ⟨x, y, by rw [hp, hl'], hx, hy⟩
  have hfront : v.front = x := front_of_path hp
  have hback : v.back = y := back_of_path (show v.path = [x] ++ [y] from hp)
  unfold Vehicle.isOk
  rw [hfront, hback, hx, hy, hcap]
  have h1 : (TwNode.ofVehicle n d .kStart).opens ≤ (TwNode.ofVehicle n d .kStart).closes := hd.1
  have h2 : (TwNode.ofVehicle (n + 1) d .kEnd).opens ≤ (TwNode.ofVehicle (n + 1) d .kEnd).closes :=
    hd.2
  simp [h1, h2]

/-- What a vehicle has from its description, for all of them. -/
theorem MadeFrom.map_eq (h : MadeFrom M newStops orders nodes vs ds) {β : Type} {f : Vehicle → β}
    {g : VehicleT → β} (hfg : ∀ v k, ∀ d ∈ ds, Made M newStops orders nodes v k d → f v = g d) :
    vs.map f = ds.map g := by
  refine List.ext_getElem (by simpa using h.length) fun k h1 h2 => ?_
  simp only [List.getElem_map]
  rw [List.length_map] at h1 h2
  exact hfg _ k _ (List.getElem_mem h2)
    (h.made k _ _ (List.getElem?_eq_getElem h1) (List.getElem?_eq_getElem h2))

theorem Made.recognised {v : Vehicle} {k : ℕ} {d : VehicleT}
    (h : Made M newStops orders nodes v k d) (hd : d.Proper) :
    ∀ t ∈ VrpRouting.nodesOf v.path, (t.isStart || t.isEnd) = true := by
  obtain ⟨n, -, hN⟩ := h.nodesOf
  intro t ht
  rw [hN, List.mem_pair] at ht
  rcases ht with rfl | rfl
  · simp [TwNode.isStart, TwNode.ofVehicle, hd.start.1, hd.start.2]
  · simp [TwNode.isEnd, TwNode.ofVehicle, hd.finish.1, hd.finish.2]

theorem Made.listable {orders' : Orders} {v : Vehicle} {k : ℕ} {d : VehicleT}
    (h : Made M newStops orders nodes v k d) (hd : d.Proper) : Listable orders' v := by
  obtain ⟨n, -, hN⟩ := h.nodesOf
  refine ⟨fun t ht _ => h.recognised hd t ht, fun t ht => ?_⟩
  rw [hN, List.mem_pair] at ht
  rcases ht with rfl | rfl <;> simp [TwNode.ofVehicle]

end Made

/-- The user's solution adds nodes of orders. -/
theorem UserResult.listable {M : Matrix} {orders : Orders} {v : Vehicle} {sets : Assignment}
    {date : ℤ} {gone : List ℕ} {r : Vehicle × Assignment}
    (h : UserResult M orders v sets date gone r) (hl : Listable orders v) : Listable orders r.1 := by
  refine ⟨fun t ht hs => ?_, fun t ht => ?_⟩
  · rcases h.nodes t ht with hv | ⟨i, hi, hti⟩
    · exact hl.sites t hv hs
    · rw [h.route.sites t ht hs i hi] at hti
      cases hti
  · exact (h.nodes t ht).elim (hl.known t) fun ho => Or.inr (Or.inr ho)

/-! ### Undisturbed processings -/

/-- The condition on a processing: the active vehicles are legal, at most one for each identifier,
and recognised by their sites; those that take no part have no stops, neither has the phony vehicle;
no order is taken off the route that the stops give to its vehicle. -/
structure Undisturbed (S : Sorter) (M : Matrix) (orders : List OrdersT) (vehicles : List VehicleT)
    (newStops : List ShortVehicle) (date : ℤ) : Prop where
  nonempty : vehicles ≠ []
  legal : ∀ d ∈ vehicles, d.Legal
  single : ∀ d ∈ vehicles, d.cantV ≤ 1
  idle : ∀ d ∈ vehicles, d.takesPart = false → heldStops newStops d = []
  proper : ∀ d ∈ vehicles, d.takesPart = true → d.Proper
  phony : Initialsol.Tabu.InitialSolution.NoPhonyStops newStops
  kept : ∀ p, PickDeliver.build S M orders vehicles newStops = .ok p →
    ∀ v ∈ p.trucks.vehicles, v.lostOrders M p.orders date true = []

instance (d : VehicleT) : Decidable d.Legal := by
  unfold VehicleT.Legal
  infer_instance

instance (d : VehicleT) : Decidable d.Proper :=
  decidable_of_iff ((d.startOpenT < d.startCloseT ∧ 0 ≤ d.startServiceT) ∧
    d.endOpenT < d.endCloseT ∧ 0 ≤ d.endServiceT) ⟨fun h => ⟨h.1, h.2⟩, fun h => ⟨h.start, h.finish⟩⟩

instance (newStops : List ShortVehicle) :
    Decidable (Initialsol.Tabu.InitialSolution.NoPhonyStops newStops) :=
  decidable_of_iff (∀ v ∈ newStops.find? fun v : ShortVehicle => decide (v.id = -1), v.stops = [])
    Iff.rfl

instance (S : Sorter) (M : Matrix) (orders : List OrdersT) (vehicles : List VehicleT)
    (newStops : List ShortVehicle) (date : ℤ) :
    Decidable (Undisturbed S M orders vehicles newStops date) :=
  decidable_of_iff (vehicles ≠ [] ∧ (∀ d ∈ vehicles, d.Legal) ∧ (∀ d ∈ vehicles, d.cantV ≤ 1) ∧
    (∀ d ∈ vehicles, d.takesPart = false → heldStops newStops d = []) ∧
    (∀ d ∈ vehicles, d.takesPart = true → d.Proper) ∧
    Initialsol.Tabu.InitialSolution.NoPhonyStops newStops ∧
    ∀ p ∈ (PickDeliver.build S M orders vehicles newStops).toOption,
      ∀ v ∈ p.trucks.vehicles, v.lostOrders M p.orders date true = [])
    ⟨fun ⟨h1, h2, h3, h4, h5, h6, h7⟩ => ⟨h1, h2, h3, h4, h5, h6, fun p hp => h7 p (by rw [hp]; rfl)⟩,
      fun h => ⟨h.nonempty, h.legal, h.single, h.idle, h.proper, h.phony, fun p hp => h.kept p (by
        cases hb : PickDeliver.build S M orders vehicles newStops with
        | error _ => rw [hb] at hp; cases hp
        | ok q => rw [hb] at hp; exact congrArg Except.ok (Option.some.inj hp))⟩⟩

/-- The stops are those of the orders, each twice and on one vehicle. -/
structure ListedOnce (orders : List OrdersT) (vehicles : List VehicleT)
    (newStops : List ShortVehicle) : Prop where
  distinct : (orders.map OrdersT.id).Nodup
  twice : TwiceOnOne (vehicles.map (heldStops newStops))
  known : ∀ d ∈ vehicles, ∀ x ∈ heldStops newStops d, x ∈ orders.map OrdersT.id
  listed : ∀ x ∈ orders.map OrdersT.id, ∃ d ∈ vehicles, x ∈ heldStops newStops d

open Initialsol.Tabu.InitialSolution

section Problem
variable {S : Sorter} {M : Matrix} {pOrders : List OrdersT} {pVehicles : List VehicleT}
  {newStops : List ShortVehicle} {p : PickDeliver} (hb : p.Built S M pOrders pVehicles newStops)
  {date : ℤ}
include hb

/-- The user's solution keeps the identifiers. -/
theorem id_userFleet {k : ℕ} (hk : k < p.trucks.size) :
    ((userFleet M date true p).1.vehicle k).id = (p.trucks.vehicle k).id := by
  have h := served_userFleet hb date true
  have hk' : k < (userFleet M date true p).1.vehicles.length := h.length_eq ▸ hk
  obtain ⟨sets, r, hr, hres⟩ := h.get hk hk'
  obtain ⟨path, movable, twv, cv, hothers⟩ := hres.others
  have hget : (userFleet M date true p).1.vehicle k = r.1 := (Fleet.vehicle_eq_getElem hk').trans hr
  rw [hget, hothers, Fleet.vehicle_eq_getElem hk]
  rfl

/-- A usable real vehicle of the problem has a description of its kind. -/
theorem exists_usable {v : Vehicle} (hv : v ∈ p.trucks.vehicles) (hok : v.isOk = true)
    (hreal : v.isPhony = false) : ∃ d ∈ pVehicles, d.IsUsable ∧
      ∃ k, Made M newStops (sortedOrders S pOrders) (2 * pOrders.length) v k d := by
  obtain ⟨k, d, hm, hd⟩ := hb.exists_made hv
  have hid : v.id = d.id := by obtain ⟨n, -, hn⟩ := hm; rw [hn]; rfl
  have hnonneg : 0 ≤ d.id := by
    rw [← hid]
    exact not_lt.mp (of_decide_eq_false hreal)
  rcases hd with ⟨hd, hcant⟩ | ⟨first, -, rfl⟩
  · rw [hm.isOk (hb.legal d hd)] at hok
    exact ⟨d, hd, ⟨hcant, hnonneg, of_decide_eq_true hok⟩, k, hm⟩
  · exact absurd hnonneg (show ¬ (0 : ℤ) ≤ -1 by decide)

variable (hu : Undisturbed S M pOrders pVehicles newStops date)
  (hl : ListedOnce pOrders pVehicles newStops)
include hu

/-- The stops of the vehicles of the problem. -/
theorem map_stops : p.trucks.vehicles.map Vehicle.stops =
    ((S.sort vehicleLt pVehicles).filter fun d => decide (d.cantV = 1)).map (heldStops newStops) ++
      [[]] := by
  obtain ⟨first, rest, hsort, hf⟩ := hb.fleet
  have hsingle : ∀ d ∈ first :: rest, d.cantV ≤ 1 := fun d hd =>
    hu.single d ((S.mem_sort _).mp (hsort ▸ hd))
  rw [hf.made.map_eq (f := Vehicle.stops) (g := Fleet.stopsFor newStops)
    fun v k d _ h => by obtain ⟨n, -, hm⟩ := h; rw [hm]; rfl]
  rw [List.map_append, copies_eq_filter hsingle, hsort]
  congr 1
  · refine List.map_congr_left fun d hd => ?_
    rw [stopsFor_eq, if_pos (by simpa using (List.mem_filter.mp hd).2)]
  · rw [List.map_singleton, hu.phony.stopsFor]

/-- The vehicle of the problem for a description that takes part. -/
theorem exists_truck {d : VehicleT} (hd : d ∈ pVehicles) (ht : d.takesPart = true) :
    ∃ v ∈ p.trucks.vehicles, v.isOk = true ∧ v.isPhony = false ∧ v.stops = heldStops newStops d := by
  obtain ⟨first, rest, hsort, hf⟩ := hb.fleet
  obtain ⟨hc, hid, hcap⟩ : d.cantV = 1 ∧ 0 ≤ d.id ∧ 0 < d.capacity := of_decide_eq_true ht
  have hmem : d ∈ copies (first :: rest) ++ [Fleet.phonyVehicle first] := by
    refine List.mem_append_left _ (List.mem_flatMap.mpr ⟨d, ?_, by simp [hc]⟩)
    rw [← hsort]
    exact (S.mem_sort _).mpr hd
  obtain ⟨k, hk, hget⟩ := List.getElem_of_mem hmem
  have hk' : k < p.trucks.vehicles.length := hf.made.length ▸ hk
  have hm := hf.made.made k _ _ (List.getElem?_eq_getElem hk') (List.getElem?_eq_getElem hk)
  rw [hget] at hm
  refine ⟨_, List.getElem_mem hk', ?_, ?_, ?_⟩
  · rw [hm.isOk (hu.legal d hd)]
    simpa using hcap
  · obtain ⟨n, -, hn⟩ := hm
    rw [hn]
    exact decide_eq_false (not_lt.mpr hid)
  · obtain ⟨n, -, hn⟩ := hm
    rw [hn]
    change Fleet.stopsFor newStops d = _
    rw [stopsFor_eq, if_pos hc]

/-- A usable real vehicle of the problem is one that takes part. -/
theorem exists_description {v : Vehicle} (hv : v ∈ p.trucks.vehicles) (hok : v.isOk = true)
    (hreal : v.isPhony = false) : ∃ d ∈ pVehicles, d.takesPart = true ∧
      ∃ k, Made M newStops (sortedOrders S pOrders) (2 * pOrders.length) v k d := by
  obtain ⟨d, hd, ⟨hcant, hid, hcap⟩, hm⟩ := exists_usable hb hv hok hreal
  have hone : d.cantV = 1 := by have := hu.single d hd; omega
  exact ⟨d, hd, decide_eq_true ⟨hone, hid, hcap⟩, hm⟩

/-- The usable real vehicles of the problem are those that take part. -/
theorem usable_ids : ((p.trucks.vehicles.filter fun v => v.isOk && !v.isPhony).map Vehicle.id).Perm
    ((pVehicles.filter VehicleT.takesPart).map VehicleT.id) := by
  obtain ⟨first, rest, hsort, hf⟩ := hb.fleet
  have hmem : ∀ {d}, d ∈ first :: rest → d ∈ pVehicles := fun hd =>
    (S.mem_sort _).mp (hsort ▸ hd)
  have hlegal : ∀ d ∈ copies (first :: rest) ++ [Fleet.phonyVehicle first], d.Legal := by
    intro d hd
    rcases List.mem_append.mp hd with hd | hd
    · obtain ⟨e, he, hde⟩ := List.mem_flatMap.mp hd
      rw [(List.mem_replicate.mp hde).2]
      exact hu.legal e (hmem he)
    · rw [List.mem_singleton.mp hd]
      exact legal_phonyVehicle first
  have hpair : p.trucks.vehicles.map (fun v => (v.isOk, v.id)) =
      (copies (first :: rest) ++ [Fleet.phonyVehicle first]).map
        fun d => (decide (0 < d.capacity), d.id) :=
    hf.made.map_eq fun v k d hd h => by
      have hid : v.id = d.id := by obtain ⟨n, -, hm⟩ := h; rw [hm]; rfl
      rw [h.isOk (hlegal d hd), hid]
  have hfilter := congrArg (fun l : List (Bool × ℤ) =>
    (l.filter fun x => x.1 && !decide (x.2 < 0)).map Prod.snd) hpair
  simp only [List.filter_map, List.map_map] at hfilter
  refine (List.Perm.of_eq hfilter).trans ?_
  rw [copies_eq_filter fun d hd => hu.single d (hmem hd), List.filter_append, ← hsort,
    List.filter_filter]
  have hphony : [Fleet.phonyVehicle first].filter ((fun x : Bool × ℤ => x.1 && !decide (x.2 < 0)) ∘
      fun d : VehicleT => (decide (0 < d.capacity), d.id)) = [] := by
    simp [Fleet.phonyVehicle]
  rw [hphony, List.append_nil]
  refine (List.Perm.of_eq ?_).trans (((S.perm vehicleLt pVehicles).filter VehicleT.takesPart).map _)
  refine congrArg (List.map VehicleT.id) (List.filter_congr fun d _ => ?_)
  simp only [Function.comp, VehicleT.takesPart, Bool.decide_and, not_lt, Bool.and_comm,
    Bool.and_assoc, decide_not.symm]

theorem getUnusedTrucks_ids : ((userFleet M date true p).1.getUnusedTrucks.map Vehicle.id).Perm
      ((pVehicles.filter VehicleT.takesPart).map VehicleT.id) := by
  obtain ⟨first, rest, -, hf⟩ := hb.fleet
  have hmem : ∀ k, k ∈ p.trucks.unused.ids ↔ k < p.trucks.size ∧ (p.trucks.vehicle k).isOk = true := by
    intro k
    refine (hf.unused k).trans ⟨fun ⟨v, hv, hok⟩ => ?_, fun ⟨hk, hok⟩ => ?_⟩
    · obtain ⟨hk, rfl⟩ := List.getElem?_eq_some_iff.mp hv
      exact ⟨hk, by rwa [Fleet.vehicle_eq_getElem hk]⟩
    · rw [Fleet.vehicle_eq_getElem hk] at hok
      exact ⟨_, List.getElem?_eq_getElem hk, hok⟩
  have hids : p.trucks.unused.ids.Perm
      ((List.range p.trucks.size).filter fun k => (p.trucks.vehicle k).isOk) :=
    (List.perm_ext_iff_of_nodup (Identifiers.nodup _) (List.nodup_range.filter _)).mpr fun k => by
      rw [hmem, List.mem_filter, List.mem_range]
  have hrange : (List.range p.trucks.size).map p.trucks.vehicle = p.trucks.vehicles := by
    refine List.ext_getElem (by simp [Fleet.size]) fun k h1 h2 => ?_
    simp only [List.getElem_map, List.getElem_range]
    exact Fleet.vehicle_eq_getElem h2
  have hserved : ∀ k ∈ p.trucks.unused.ids,
      ((userFleet M date true p).1.vehicle k).id = (p.trucks.vehicle k).id := fun k hk =>
    id_userFleet hb ((hmem k).mp hk).1
  have hreal : (fun v : Vehicle => !v.isPhony) = (fun x : ℤ => !decide (x < 0)) ∘ Vehicle.id := rfl
  have hunused : (userFleet M date true p).1.getUnusedTrucks.map Vehicle.id =
      (p.trucks.unused.ids.map fun k => (p.trucks.vehicle k).id).filter fun x => !decide (x < 0) := by
    unfold Fleet.getUnusedTrucks
    rw [hreal, ← List.filter_map, List.map_map]
    exact congrArg _ (List.map_congr_left hserved)
  rw [hunused]
  refine ((hids.map _).filter _).trans ((List.Perm.of_eq ?_).trans (usable_ids hb hu))
  conv_rhs => rw [← hrange]
  simp only [List.filter_map, List.map_map, List.filter_filter]
  exact congrArg _ (List.filter_congr fun k _ => Bool.and_comm _ _)

include hl

/-- Each order is listed on the vehicles of the problem twice, on one of them. -/
theorem wellFormedStops : WellFormedStops p.trucks.vehicles := by
  have htwice : TwiceOnOne (p.trucks.vehicles.map Vehicle.stops) := by
    rw [map_stops hb hu]
    have hsort := hl.twice.perm ((S.perm vehicleLt pVehicles).map (heldStops newStops))
    exact (hsort.sublist ((List.filter_sublist ..).map _)).append_nil
  exact ⟨fun v hv oId => htwice.count (List.mem_map_of_mem hv) oId,
    List.pairwise_map.mp htwice.pairwise⟩

/-- Every order stays on a truck. -/
theorem onTruck {i : ℕ} (hi : i < p.orders.length)
    (hp : PickDeliver.build S M pOrders pVehicles newStops = .ok p) : OnTruck M date true p i := by
  obtain ⟨d, hd, hx⟩ := hl.listed _ (hb.mem_ids.mpr ⟨i, hi, rfl⟩)
  cases ht : d.takesPart with
  | false =>
    rw [hu.idle d hd ht] at hx
    cases hx
  | true =>
    obtain ⟨v, hv, hok, hreal, hstops⟩ := exists_truck hb hu hd ht
    have htwice := (hl.twice _ (List.mem_map_of_mem hd) _ hx).1
    refine ⟨v, hv, hok, hreal, ?_, ?_⟩
    · unfold Visited
      rw [count_stopIdxs hb.wellFormed (resolve_id hb.wellFormed (hb.distinct hl.distinct) hi),
        hstops, htwice]
    · rw [hu.kept p hp v hv]
      exact List.not_mem_nil

/-- No phony vehicle is needed. -/
theorem placedOrders_eq_nil (hp : PickDeliver.build S M pOrders pVehicles newStops = .ok p) :
    placedOrders M date true p = [] := by
  refine List.eq_nil_iff_forall_not_mem.mpr fun o ho => ?_
  have hw := wellFormedStops hb hu hl
  have hleft := ((userFleet_sets hb hw date true).2 o).mp (List.mem_of_mem_filter ho)
  obtain ⟨v, hv, -, -, hkept⟩ := onTruck hb hu hl (placed_lt hb date true o ho) hp
  exact not_kept_of_leftOver hb hw hleft v hv hkept

/-- All stops name orders. -/
theorem exists_construct : ∃ s, construct M date true p = .ok s := by
  unfold construct
  rw [if_pos]
  · exact ⟨_, rfl⟩
  refine List.all_eq_true.mpr fun v hv => List.all_eq_true.mpr fun x hx => ?_
  have hstops : v.stops ∈ p.trucks.vehicles.map Vehicle.stops := List.mem_map_of_mem hv
  rw [map_stops hb hu] at hstops
  rcases List.mem_append.mp hstops with hstops | hstops
  · obtain ⟨d, hd, hds⟩ := List.mem_map.mp hstops
    have hmem := hl.known d ((S.mem_sort _).mp (List.mem_filter.mp hd).1) x (hds ▸ hx)
    rw [← ((S.perm ordersLt pOrders).map OrdersT.id).mem_iff, ← hb.ids] at hmem
    obtain ⟨o, ho, hox⟩ := List.mem_map.mp hmem
    exact List.any_eq_true.mpr ⟨o, ho, by simpa using hox⟩
  · rw [List.mem_singleton.mp hstops] at hx
    cases hx

/-- The constructed solution: the vehicles that take part, with every order on one of them. -/
theorem construct_undisturbed (hp : PickDeliver.build S M pOrders pVehicles newStops = .ok p)
    {s : Initialsol.Tabu.InitialSolution} (h : construct M date true p = .ok s) :
    s.orders = p.orders ∧
    Optimizers.Tabu.Trucks p.orders ((pVehicles.filter VehicleT.takesPart).map VehicleT.id) s.fleet ∧
    Optimizers.Tabu.WellPlaced p.orders s.fleet ∧
    ∀ i < p.orders.length, carriers (p.orders.get i) s.fleet = 1 := by
  have hw := wellFormedStops hb hu hl
  obtain ⟨first, rest, -, hf⟩ := hb.fleet
  obtain ⟨horders, -, hfleet⟩ := construct_fleet h hf.used
  rw [placedOrders_eq_nil hb hu hl hp, List.map_nil, List.append_nil] at hfleet
  have hone : ∀ i < p.orders.length, carriers (p.orders.get i) s.fleet = 1 := fun i hi => by
    rw [hfleet]
    exact (carriers_getUnusedTrucks hb hw date true hi).1 (onTruck hb hu hl hi hp)
  have hreal : ∀ v ∈ s.fleet, v.isPhony = false := fun v hv =>
    (mem_getUnusedTrucks hb (hfleet ▸ hv)).1
  have hwhole : ∀ v ∈ s.fleet, ∀ i < p.orders.length,
      Carries (p.orders.get i) v ∨ Free (p.orders.get i) v := fun v hv i hi =>
    (carriers_construct hb hw hu.phony h hi).2 v hv
  refine ⟨horders, ⟨hreal, fun v hv => ?_, ?_⟩, ⟨hwhole, fun i hi => (hone i hi).le,
    fun v hv i hi => ?_, fun v hv hphony => ?_⟩, hone⟩
  · obtain ⟨-, k, u, hget, -, hok, sets, r, rfl, hr⟩ := mem_getUnusedTrucks hb (hfleet ▸ hv)
    have hphony : u.isPhony = false := by
      rw [← hreal _ hv]
      obtain ⟨path, movable, twv, cv, hothers⟩ := hr.others
      rw [hothers]
      rfl
    obtain ⟨d, hd, ht, k', hm⟩ := exists_description hb hu (List.mem_of_getElem? hget) hok hphony
    exact hr.listable (hm.listable (hu.proper d hd ht))
  · rw [hfleet]
    exact getUnusedTrucks_ids hb hu
  · have hlt : i < p.orders.length := by
      rw [← horders]
      exact ((construct_valid hb h).fleet v hv).movable i hi
    refine ⟨hlt, (hwhole v hv i hlt).resolve_right fun hfree => ?_⟩
    have hheld := construct_held hb h v hv i hi
    rw [horders, hfree] at hheld
    simp [Order.stops] at hheld
  · rw [hreal v hv] at hphony
    cases hphony

end Problem

/-! ### The stops of the result -/

/-- The two stops of an order for each vehicle that carries it. -/
theorem count_flatMap_getStops {o : Order} {x : ℤ} : ∀ {F : List Vehicle},
    (∀ v ∈ F, v.getStops.count x = if Carries o v then 2 else 0) →
      (F.flatMap Vehicle.getStops).count x = 2 * carriers o F
  | [], _ => rfl
  | v :: F, h => by
    obtain ⟨hv, hF⟩ := List.forall_mem_cons.mp h
    rw [List.flatMap_cons, List.count_append, hv, count_flatMap_getStops hF, carriers_cons]
    split_ifs <;> omega

/-- When each order is on one truck, the stops of the trucks are those of the orders, twice on one
truck each. -/
theorem Optimizers.Tabu.Trucks.stops {orders : Orders} {ids : List ℤ} {F : List Vehicle}
    (ht : Trucks orders ids F) (ho : orders.WellFormed) (hn : orders.Named) (hd : orders.Distinct)
    (hw : ∀ v ∈ F, ∀ i < orders.length, Carries (orders.get i) v ∨ Free (orders.get i) v)
    (hone : ∀ i < orders.length, carriers (orders.get i) F = 1) :
    TwiceOnOne (F.map Vehicle.getStops) ∧
    (∀ i < orders.length, (F.flatMap Vehicle.getStops).count (orders.get i).id = 2) ∧
    ∀ x ∈ F.flatMap Vehicle.getStops, ∃ i < orders.length, (orders.get i).id = x := by
  have hlisted := fun v (hv : v ∈ F) x (hx : x ∈ v.getStops) =>
    mem_getStops ho hn (hw v hv) (ht.listable v hv) (ht.real v hv) hx
  have hcount : ∀ v ∈ F, ∀ i < orders.length,
      v.getStops.count (orders.get i).id = if Carries (orders.get i) v then 2 else 0 := by
    intro v hv i hi
    rw [count_getStops ho hn (hw v hv) (ht.listable v hv) (ht.real v hv) hd hi]
    rcases hw v hv i hi with hc | hf
    · rw [if_pos hc, hc]
      rfl
    · rw [if_neg hf.not_carries, hf]
      rfl
  have htwo : ∀ i < orders.length, (F.flatMap Vehicle.getStops).count (orders.get i).id = 2 :=
    fun i hi => by rw [count_flatMap_getStops fun v hv => hcount v hv i hi, hone i hi]
  refine ⟨fun l hl x hx => ?_, htwo, fun x hx => ?_⟩
  · obtain ⟨v, hv, rfl⟩ := List.mem_map.mp hl
    obtain ⟨i, hi, rfl, hc⟩ := hlisted v hv x hx
    exact ⟨by rw [hcount v hv i hi, if_pos hc], htwo i hi⟩
  · obtain ⟨v, hv, hx⟩ := List.mem_flatMap.mp hx
    obtain ⟨i, hi, hid, -⟩ := hlisted v hv x hx
    exact ⟨i, hi, hid⟩

namespace Driver

variable {S : Sorter} {M : Matrix} {orders : List OrdersT} {vehicles : List VehicleT}
  {newStops : List ShortVehicle} {date : ℤ}

/-- **An undisturbed processing conserves the stops.** -/
theorem oneProcessing_spec (hu : Undisturbed S M orders vehicles newStops date)
    (hl : ListedOnce orders vehicles newStops) (maxCycles : ℕ) :
    ∃ R, oneProcessing S M orders vehicles newStops maxCycles date = .ok R ∧
      (R.map ShortVehicle.id).Perm ((vehicles.filter VehicleT.takesPart).map VehicleT.id) ∧
      TwiceOnOne (R.map ShortVehicle.stops) ∧
      (R.flatMap ShortVehicle.stops).Perm (vehicles.flatMap (heldStops newStops)) := by
  obtain ⟨p, hp⟩ := exists_build (M := M) S newStops orders hu.nonempty hu.legal
  have hb := PickDeliver.build_built hp
  obtain ⟨s, hs⟩ := exists_construct hb hu hl
  obtain ⟨horders, htrucks, hplaced, hone⟩ := construct_undisturbed hb hu hl hp hs
  rw [← horders] at htrucks hplaced hone
  obtain ⟨ht, hsame⟩ := Optimizers.Tabu.construct_trucks S M (construct_valid hb hs) hplaced htrucks
    maxCycles false true
  obtain ⟨htwice, htwo, hlisted⟩ := ht.stops (construct_valid hb hs).orders (horders ▸ hb.named)
    (horders ▸ hb.distinct hl.distinct) hsame.whole fun i hi => (hsame.same i hi).trans (hone i hi)
  set F := (Optimizers.Tabu.Optimize.construct S M s.toSolution maxCycles false true).fleet
  have hmem : ∀ x, x ∈ orders.map OrdersT.id ↔ ∃ i < s.orders.length, (s.orders.get i).id = x :=
    fun x => horders ▸ hb.mem_ids
  refine ⟨F.map fun v => ⟨v.id, v.getStops⟩, ?_, ?_, ?_, List.perm_iff_count.mpr fun x => ?_⟩
  · unfold oneProcessing
    rw [hp]
    simp only [bind, Except.bind, hs]
    rfl
  · rw [List.map_map]
    exact ht.ids
  · rw [List.map_map]
    exact htwice
  · rw [List.flatMap_map]
    by_cases hx : x ∈ orders.map OrdersT.id
    · obtain ⟨i, hi, rfl⟩ := (hmem x).mp hx
      obtain ⟨d, hd, hxd⟩ := hl.listed _ hx
      rw [htwo i hi, List.flatMap_def]
      exact (hl.twice _ (List.mem_map_of_mem hd) _ hxd).2.symm
    · rw [List.count_eq_zero.mpr fun h => hx ((hmem x).mpr (hlisted x h)), List.count_eq_zero.mpr]
      intro h
      obtain ⟨d, hd, hxd⟩ := List.mem_flatMap.mp h
      exact hx (hl.known d hd x hxd)

end Driver

end VrpRouting
