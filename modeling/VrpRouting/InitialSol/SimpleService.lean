import VrpRouting.InitialSol.SimpleFeasibility
import VrpRouting.InitialSol.TruckRoutes
import VrpRouting.Optimizers.SimpleConservation

/-! # What a finished construction leaves

A pass that undoes its insertions adds an infeasible truck, or none of the later passes can keep
one, so no pass of a construction that ends has undone anything (`keeps_of_ends`). Then every truck
carries its movable orders, and each order is on one truck (`Reached.sound_keeps`). -/

open Sorting

namespace VrpRouting.Initialsol.Simple.InitialSolution

open Optimizers.Simple (Tidy Keeps Sound)
open Optimizers.Tabu (gained_of_inserted)

/-! ### One truck -/

/-- The movable orders are on the path, the pickup before the delivery. -/
def CarriesMovable (orders : Orders) (v : Vehicle) : Prop :=
  ∀ i ∈ v.ordersInVehicle, Carries (orders.get i) v

section Truck
variable {M : Matrix} {kind : InitialsCode} {v w : Vehicle}

/-- An insertion puts the delivery behind the pickup; `semiLIFO` does so when the pickup is valid. -/
theorem insertByKind_inserted {o : Order} (hv : IsRoute (nodesOf v.path)) (ho : o.Typed)
    (hp : o.pickup.isPickup = true) (h : inserts M kind v o = true) :
    Inserted M v o (insertByKind M kind v o) := by
  have hclimb : (v.hillClimb M o).1 = true → Inserted M v o (v.hillClimb M o).2 := fun h => by
    rcases hillClimb_spec (M := M) hv ho with ⟨-, hi, -⟩ | ⟨hn, -⟩
    · exact hi
    · rw [h] at hn
      cases hn
  cases kind with
  | oneTruck => cases h
  | onePerTruck | backTruck => exact pushBack_spec hv ho
  | frontTruck => exact pushFront_spec hv ho
  | bestInsert | bestBack | bestFront => exact hclimb h
  | oneDepot =>
    have h : (v.semiLIFO M o).1 = true := h
    rcases semiLIFO_outcome (M := M) hv ho hp with ⟨-, hi, -⟩ | ⟨hn, -⟩
    · exact hi
    · rw [h] at hn
      cases hn

variable {orders : Orders} (ho : orders.WellFormed)

include ho in
theorem CarriesMovable.inserted (h : CarriesMovable orders v) (hr : RouteOf orders v) {o : ℕ}
    (hlt : o < orders.length) (hf : Free (orders.get o) v) (hw : Inserted M v (orders.get o) w) :
    CarriesMovable orders w := by
  have hg := gained_of_inserted ho hlt hw hf
  intro i hi
  rcases (hg.movable i).mp hi with rfl | hi
  · exact hg.carries
  · exact (hg.carries_iff (hr.movable i hi)).mpr (Or.inr (h i hi))

end Truck

section Loop
variable {M : Matrix} {s : InitialSolution} (ho : s.orders.WellFormed)
  (hp : ∀ i < s.orders.length, (s.orders.get i).pickup.isPickup = true) {kind : InitialsCode}
  {t : Vehicle} {sets : Assignment}
include ho hp

theorem Filling.carriesMovable (hs : s.isFeasible = true) (hk : kind ≠ .onePerTruck) :
    ∀ (passes : ℕ) (l : FeasibleLoop), Filling M s.orders kind t sets l →
      CarriesMovable s.orders l.vehicle →
      CarriesMovable s.orders (s.feasibleLoop M kind passes l).vehicle
  | 0, _, _, hc => hc
  | passes + 1, l, h, hc => by
    unfold feasibleLoop
    cases hne : l.currentFeasible.isEmpty with
    | true => exact hc
    | false =>
      obtain ⟨o, hmem, -, hstep, hcase⟩ := h.step ho hs hne
      obtain ⟨hlt, -, hnew⟩ := h.within o hmem
      rw [if_neg Bool.false_ne_true, if_neg hk]
      refine Filling.carriesMovable hs hk passes _ hstep ?_
      rcases hcase with ⟨hi, -, hv, -, -⟩ | ⟨-, heq⟩
      · rw [hv]
        exact hc.inserted ho h.filled.route hlt (h.filled.free o hlt hnew)
          (insertByKind_inserted h.filled.route.route (ho.typed o hlt) (hp o hlt) hi)
      · rw [heq]
        exact hc

variable (sets) in
theorem doWhileFeasible_carriesMovable (hk : s.keeps kind) (ht : Fresh M s.orders t)
    (hlt : ∀ i ∈ sets.unassigned, i < s.orders.length) :
    CarriesMovable s.orders (s.doWhileFeasible M kind t sets).1 := by
  have hno : ∀ i, i ∉ t.ordersInVehicle := fun i => ht.movable ▸ Identifiers.not_mem_empty i
  have hstart : CarriesMovable s.orders t := fun i hi => absurd hi (hno i)
  by_cases hone : kind = .onePerTruck
  · subst hone
    cases hne : (t.feasibleOrders.inter sets.unassigned).isEmpty with
    | true =>
      have hl : ∀ passes, s.feasibleLoop M .onePerTruck passes
          ⟨t, sets, t.feasibleOrders.inter sets.unassigned⟩ = ⟨t, sets, _⟩ :=
        feasibleLoop_of_isEmpty hne
      unfold doWhileFeasible
      dsimp only
      rw [hl]
      exact hstart
    | false =>
      obtain ⟨o, hfront, hmem⟩ := Identifiers.front_of_not_isEmpty hne
      have ho' := hlt o (Identifiers.mem_inter.mp hmem).2
      have hl := feasibleLoop_onePerTruck (M := M) (s := s)
        (l := ⟨t, sets, t.feasibleOrders.inter sets.unassigned⟩) ho hfront ho'
      unfold doWhileFeasible
      dsimp only at hl ⊢
      rw [hl]
      exact hstart.inserted ho ht.route ho' (ht.free o ho')
        (pushBack_spec ht.route.route (ho.typed o ho'))
  · refine Filling.carriesMovable ho hp (hk.resolve_left hone) hone _ _ ⟨.start ht sets, fun i hi => ?_,
      fun _ ⟨i, hi⟩ => absurd hi (hno i)⟩ hstart
    have hun := (Identifiers.mem_inter.mp hi).2
    exact ⟨hlt i hun, hun, hno i⟩

end Loop

/-! ### Passes -/

/-- The trucks carry their movable orders only, and an order is on one of them when it is assigned,
else on none. -/
structure Serving (p : PickDeliver) (s : InitialSolution) : Prop where
  tidy : ∀ v ∈ s.fleet, Tidy p.orders v
  carriers : ∀ i < p.orders.length, carriers (p.orders.get i) s.fleet =
    if i ∈ s.unassigned then 0 else 1

section Run
variable {S : Sorter} {M : Matrix} {pOrders : List OrdersT} {pVehicles : List VehicleT}
  {newStops : List ShortVehicle} {p : PickDeliver} (hb : p.Built S M pOrders pVehicles newStops)
  (hp : ∀ i < p.orders.length, (p.orders.get i).pickup.isPickup = true)
  {kind : InitialsCode} {s s' : InitialSolution}
include hb

/-- No pass of a construction that ends undoes its insertions. -/
theorem keeps_of_ends (hs : OfProblem p s) (h : Relation.ReflTransGen (Step M kind) s s')
    (hend : s'.unassigned.isEmpty = true) (hne : s.unassigned.isEmpty = false) : s.keeps kind := by
  by_contra hk
  suffices hall : ∀ r, Relation.ReflTransGen (Step M kind) s r →
      OfProblem p r ∧ ¬ r.keeps kind ∧ r.unassigned.isEmpty = false by
    rw [(hall s' h).2.2] at hend
    cases hend
  intro r hr
  induction hr with
  | refl => exact ⟨hs, hk, hne⟩
  | tail _ hstep ih =>
    obtain ⟨hr, hkr, hner⟩ := ih
    obtain ⟨t, w, ht⟩ := hstep.took hb hr
    have hsets := congrArg Assignment.unassigned (ht.pass.undone hkr)
    dsimp only at hsets
    obtain ⟨hone, hfeas⟩ := not_or.mp hkr
    refine ⟨ht.ofProblem, not_or.mpr ⟨hone, ?_⟩, hsets ▸ hner⟩
    simp [ht.isFeasible, hfeas]

include hp

/-- A pass adds a truck that carries its movable orders. -/
theorem Step.carriesMovable (hs : OfProblem p s) (hk : s.keeps kind) (h : Step M kind s s') {w : Vehicle}
    (hw : s'.fleet = s.fleet ++ [w]) : CarriesMovable p.orders w := by
  obtain ⟨-, h⟩ := h
  unfold fooStep at h
  obtain ⟨⟨t, f⟩, hg, h⟩ := bind_eq_ok h
  obtain rfl := Except.ok.inj h
  obtain rfl := List.singleton_inj.mp (List.append_cancel_left hw)
  obtain ⟨hmem, -, -⟩ := getTruck_spec hg
  have ht : Fresh M s.orders t := hs.orders ▸ hb.fresh t (hs.trucks ▸ hmem)
  have hlt : ∀ i ∈ s.unassigned, i < s.orders.length := fun i hi => hs.orders ▸ hs.known i hi
  have hcarries := doWhileFeasible_carriesMovable (M := M) (s := { s with trucks := f })
    (hs.orders ▸ hb.wellFormed) (hs.orders ▸ hp) ⟨s.assigned, s.unassigned⟩ hk ht hlt
  rw [← hs.orders]
  exact hcarries

/-- **One pass.** -/
theorem Serving.step (h : Serving p s) (hs : OfProblem p s) (hk : s.keeps kind)
    (hstep : Step M kind s s') : Serving p s' := by
  obtain ⟨t, w, ht⟩ := hstep.took hb hs
  have hf := ht.pass.filled hk
  have hcarries := hstep.carriesMovable hb hp hs hk ht.fleet
  have hw : Tidy p.orders w := by
    have hlt : ∀ i ∈ w.ordersInVehicle, i < p.orders.length := fun i hi =>
      hs.known i (hf.taken i hi)
    have hfree : ∀ i < p.orders.length, i ∉ w.ordersInVehicle → Free (p.orders.get i) w :=
      hs.orders ▸ hf.free
    refine ⟨fun i hi => ?_, fun i => ⟨fun hi => ⟨hlt i hi, hcarries i hi⟩, fun hi => ?_⟩⟩
    · by_cases hin : i ∈ w.ordersInVehicle
      · exact Or.inl (hcarries i hin)
      · exact Or.inr (hfree i hi hin)
    · by_contra hin
      exact (hfree i hi.1 hin).not_carries hi.2
  refine ⟨?_, fun i hi => ?_⟩
  · rw [ht.fleet]
    exact List.forall_mem_append.mpr ⟨h.tidy, List.forall_mem_singleton.mpr hw⟩
  · have hsum : VrpRouting.carriers (p.orders.get i) s'.fleet =
        VrpRouting.carriers (p.orders.get i) s.fleet +
          if i ∈ w.ordersInVehicle then 1 else 0 := by
      rw [ht.fleet]
      simp only [VrpRouting.carriers, List.countP_append, List.countP_singleton, decide_eq_true_eq,
        hw.carries_iff hi]
    have hun : i ∈ s'.unassigned ↔ i ∈ s.unassigned ∧ i ∉ w.ordersInVehicle := hf.unassigned i
    rw [hsum, h.carriers i hi]
    by_cases hin : i ∈ w.ordersInVehicle
    · simp [hun, hin, show i ∈ s.unassigned from hf.taken i hin]
    · simp [hun, hin]

/-- **A construction that ends leaves every order on one truck.** -/
theorem Reached.serving (hr : Reached M kind p s) {e : InitialSolution}
    (h : Relation.ReflTransGen (Step M kind) s e) (hend : e.unassigned.isEmpty = true) :
    Serving p s := by
  induction hr with
  | refl =>
    refine ⟨fun v hv => absurd hv List.not_mem_nil, fun i hi => ?_⟩
    have hun : i ∈ (start p).unassigned := Identifiers.mem_upTo.mpr hi
    rw [if_pos hun]
    rfl
  | tail hr hstep ih =>
    have hs := Reached.ofProblem hb hr
    have hreach := Relation.ReflTransGen.head hstep h
    exact (ih hreach).step hb hp hs (keeps_of_ends hb hs hreach hend hstep.1) hstep

/-- The start of the optimizer. -/
theorem Reached.sound_keeps (hr : Reached M kind p s) (hend : s.unassigned.isEmpty = true) :
    Sound s.toSolution ∧ Keeps p.orders s.fleet s.fleet ∧
      ∀ i < p.orders.length, VrpRouting.carriers (p.orders.get i) s.fleet = 1 := by
  have horders := (Reached.ofProblem hb hr).orders
  have hserving := hr.serving hb hp .refl hend
  have hone : ∀ i < p.orders.length, VrpRouting.carriers (p.orders.get i) s.fleet = 1 := by
    intro i hi
    rw [hserving.carriers i hi, if_neg (Identifiers.isEmpty_iff.mp hend i)]
  refine ⟨⟨horders ▸ hb.wellFormed, horders ▸ hp, fun v hv => ?_⟩,
    ⟨hserving.tidy, fun _ _ => rfl, fun i hi => (hone i hi).le⟩, hone⟩
  obtain ⟨u, hu, hroute⟩ := hr.onTruckRoutes hb v hv
  rw [show s.toSolution.orders = p.orders from horders]
  exact ⟨hroute.route, hroute.knows ▸ (hb.fresh u hu).orders.symm⟩

end Run

end VrpRouting.Initialsol.Simple.InitialSolution
