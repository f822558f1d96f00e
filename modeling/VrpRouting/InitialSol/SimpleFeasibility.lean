import VrpRouting.InitialSol.Passes

/-! # The feasibility of the simple initial solutions

An infeasible truck in the fleet makes every later pass undo its insertions, so the loop does not end
behind one. The kinds that test an insertion on the truck itself give feasible trucks only. The kinds
`FrontTruck` and `BackTruck` push all the orders of a truck into it and consult the fleet without
the truck, so their result is feasible exactly when every loaded truck is
(`doWhileFoo_feasible_iff`). -/

open Sorting

namespace VrpRouting.Initialsol.Simple.InitialSolution

/-- In a pass of `FrontTruck` or `BackTruck`, the truck with all the unassigned orders that fit in it
alone is feasible. -/
def Loadable (M : Matrix) (kind : InitialsCode) (s : InitialSolution) : Prop :=
  kind = .frontTruck ∨ kind = .backTruck → ∀ t f,
    s.trucks.getTruck (s.unassigned.front.getD 0) = .ok (t, f) →
    (load M kind s.orders t (t.feasibleOrders.inter s.unassigned).ids).isFeasible = true

/-- The fleet is feasible, or the loop does not end. -/
def FeasibleSoFar (kind : InitialsCode) (s : InitialSolution) : Prop :=
  s.isFeasible = true ∨ ¬ s.keeps kind ∧ s.unassigned.isEmpty = false

section Run
variable {S : Sorter} {M : Matrix} {pOrders : List OrdersT} {pVehicles : List VehicleT}
  {newStops : List ShortVehicle} {p : PickDeliver} (hb : p.Built S M pOrders pVehicles newStops)
  {kind : InitialsCode} {s s' : InitialSolution} {t w : Vehicle}

theorem Took.isFeasible (h : Took M kind p s t w s') :
    s'.isFeasible = (s.isFeasible && w.isFeasible) := by
  simp [Solution.isFeasible, h.fleet]

include hb

/-- An order that fits in a vehicle is feasible on it alone. -/
theorem isOrderFeasible_of_mem {v : Vehicle} (hv : v ∈ p.trucks.vehicles) {o : ℕ}
    (ho : o ∈ v.feasibleOrders) : v.isOrderFeasible M (p.orders.get o) = true := by
  obtain ⟨first, rest, -, hf⟩ := hb.fleet
  obtain ⟨k, hk, rfl⟩ := List.getElem_of_mem hv
  have htakes := ((hf.feasible k _ (List.getElem?_eq_getElem hk) o).mp ho).2
  simp only [Vehicle.takes, Vehicle.accepts, Bool.or_eq_true, Bool.and_eq_true] at htakes
  exact htakes.elim (fun h => h.2) (fun h => h.2)

/-- A pass that undoes nothing adds a feasible truck, or an empty one. -/
theorem Took.feasible (hs : OfProblem p s) (h : Took M kind p s t w s') (hk : s.keeps kind)
    (hl : Loadable M kind s) (hfl : s.isFeasible = true) :
    w.isFeasible = true ∨ (kind ≠ .onePerTruck ∧ ∀ i, i ∉ w.ordersInVehicle) := by
  obtain ⟨f, hg⟩ := h.truck
  obtain ⟨o, hfront⟩ := h.front
  have ho := Identifiers.mem_inter.mp (Identifiers.front_mem hfront)
  cases hpush : kind.pushes with
  | false =>
    by_cases hany : ∃ i, i ∈ w.ordersInVehicle
    · exact Or.inl (h.pass.feasible hk hpush hany)
    · exact Or.inr ⟨fun e => (by rw [e] at hpush; cases hpush), not_exists.mp hany⟩
  | true =>
    refine Or.inl ?_
    by_cases hone : kind = .onePerTruck
    · have hw : w = t.pushBack M (s.orders.get o) := h.pass.single hone o hfront
      rw [hw, hs.orders]
      exact isOrderFeasible_of_mem hb h.mem ho.1
    · have hfb : kind = .frontTruck ∨ kind = .backTruck := by
        cases kind <;> simp [InitialsCode.pushes] at hpush hone ⊢
      have hw : w = load M kind s.orders t (t.feasibleOrders.inter s.unassigned).ids :=
        h.pass.loaded hfl hfb
      rw [hw]
      exact hl hfb t f hg

/-- One pass. -/
theorem FeasibleSoFar.step (hs : OfProblem p s) (h : FeasibleSoFar kind s)
    (hl : Loadable M kind s) (hstep : Step M kind s s') : FeasibleSoFar kind s' := by
  obtain ⟨t, w, ht⟩ := hstep.took hb hs
  have hsets : ∀ {r : Assignment}, (⟨s'.assigned, s'.unassigned⟩ : Assignment) = r →
      s'.unassigned = r.unassigned := fun hr => congrArg Assignment.unassigned hr
  rcases h with h | ⟨hk, hne⟩
  · have hk : s.keeps kind := Or.inr h
    rcases ht.feasible hb hs hk hl h with hw | ⟨hone, hempty⟩
    · exact Or.inl (by rw [ht.isFeasible, h, hw]; rfl)
    · have hun : s'.unassigned.isEmpty = false := by
        obtain ⟨x, hx⟩ := Identifiers.isEmpty_eq_false.mp hstep.1
        exact Identifiers.isEmpty_eq_false.mpr
          ⟨x, ((ht.pass.filled hk).unassigned x).mpr ⟨hx, hempty x⟩⟩
      cases hw : s'.isFeasible with
      | true => exact Or.inl hw
      | false => exact Or.inr ⟨fun h' => h'.elim hone (by simp [hw]), hun⟩
  · rw [keeps, not_or, Bool.not_eq_true] at hk
    refine Or.inr ⟨fun h' => h'.elim hk.1 ?_, ?_⟩
    · simp [ht.isFeasible, hk.2]
    · rw [hsets (ht.pass.undone fun h' => h'.elim hk.1 (by simp [hk.2]))]
      exact hne

/-- All passes. -/
theorem Reached.feasibleSoFar (hl : ∀ s, Reached M kind p s → s.unassigned.isEmpty = false →
    Loadable M kind s) (h : Reached M kind p s) : FeasibleSoFar kind s := by
  induction h with
  | refl => exact Or.inl rfl
  | tail hr hstep ih =>
    exact ih.step hb (Reached.ofProblem hb hr) (hl _ hr hstep.1) hstep

end Run

/-- **When the construction ends, all vehicles are feasible exactly if every loaded truck is.** -/
theorem doWhileFoo_feasible_iff {S : Sorter} {M : Matrix} {pOrders : List OrdersT}
    {pVehicles : List VehicleT} {p : PickDeliver}
    (hp : PickDeliver.build S M pOrders pVehicles [] = .ok p) {kind : InitialsCode} {fuel : ℕ}
    {s : InitialSolution} (h : doWhileFoo M kind fuel (start p) = .ok (some s)) :
    (∀ v ∈ s.fleet, v.isFeasible = true) ↔
      ∀ r, Reached M kind p r → r.unassigned.isEmpty = false → Loadable M kind r := by
  have hb := PickDeliver.build_built hp
  obtain ⟨hreach, hend⟩ := reaches_of_doWhileFoo fuel h
  have hiff : s.isFeasible = true ↔ ∀ v ∈ s.fleet, v.isFeasible = true := List.all_eq_true
  rw [← hiff]
  constructor
  · intro hs r hr hne hfb t f hg
    -- the fleets of the reached states are parts of the last one
    have hsub : ∀ {b}, Relation.ReflTransGen (Step M kind) r b →
        Relation.ReflTransGen (Step M kind) b s → b.isFeasible = true := fun hrb hbs =>
      List.all_eq_true.mpr fun v hv =>
        hiff.mp hs v ((reaches_spec hb (Reached.ofProblem hb (hr.trans hrb)) hbs).2 hv)
    have hrs := reaches_end hr hreach hend
    have hfr : r.isFeasible = true := hsub .refl hrs
    rcases hrs.cases_head with rfl | ⟨r', hstep, hr's⟩
    · rw [hne] at hend
      cases hend
    · obtain ⟨t', w, ht⟩ := hstep.took hb (Reached.ofProblem hb hr)
      obtain ⟨f', hg'⟩ := ht.truck
      obtain ⟨rfl, rfl⟩ := Prod.mk.inj (Except.ok.inj (hg'.symm.trans hg))
      have hw := hsub (.single hstep) hr's
      rw [ht.isFeasible, hfr, Bool.true_and] at hw
      rw [← hw]
      exact congrArg Vehicle.isFeasible (ht.pass.loaded hfr hfb).symm
  · intro hl
    rcases Reached.feasibleSoFar hb hl hreach with hs | ⟨-, hne⟩
    · exact hs
    · rw [hend] at hne
      cases hne

/-- Two orders that one vehicle can serve, but not one after the other. -/
def tightOrders : List OrdersT := [smallOrderData 1 12, smallOrderData 2 12]

/-- A run of `BestInsert`, with a truck for each order. -/
theorem doWhileFoo_feasible_small : ∃ p s,
    PickDeliver.build .insertion twoSites tightOrders [smallVehicleData 7 []] [] = .ok p ∧
    doWhileFoo twoSites .bestInsert 2 (start p) = .ok (some s) ∧
    ((∀ v ∈ s.fleet, v.isFeasible = true) ↔
      ∀ r, Reached twoSites .bestInsert p r → r.unassigned.isEmpty = false →
        Loadable twoSites .bestInsert r) := by
  obtain ⟨p, hp, h⟩ := exists_ok_and (x := PickDeliver.build .insertion twoSites tightOrders
    [smallVehicleData 7 []] []) (fun p =>
      (doWhileFoo twoSites .bestInsert 2 (start p)).toOption.any Option.isSome) (by decide +kernel)
  obtain ⟨r, hr, hsome⟩ := exists_ok_and _ h
  obtain ⟨s, rfl⟩ := Option.isSome_iff_exists.mp hsome
  exact ⟨p, s, hp, hr, doWhileFoo_feasible_iff hp hr⟩

/-- `BackTruck` pushes both orders into the first truck, which is then too late. -/
theorem doWhileFoo_backTruck_fails : ∃ p s,
    PickDeliver.build .insertion twoSites tightOrders [smallVehicleData 7 []] [] = .ok p ∧
    (∀ i < p.orders.length, ∃ v ∈ p.trucks.vehicles, v.isReal = true ∧
      v.isOrderFeasible twoSites (p.orders.get i) = true) ∧
    doWhileFoo twoSites .backTruck 1 (start p) = .ok (some s) ∧
    ∃ v ∈ s.fleet, v.isFeasible = false := by
  obtain ⟨p, hp, h⟩ := exists_ok_and (x := PickDeliver.build .insertion twoSites tightOrders
    [smallVehicleData 7 []] []) (fun p =>
      decide (∀ i < p.orders.length, ∃ v ∈ p.trucks.vehicles, v.isReal = true ∧
        v.isOrderFeasible twoSites (p.orders.get i) = true) &&
      (doWhileFoo twoSites .backTruck 1 (start p)).toOption.any fun r =>
        r.any fun s => decide (∃ v ∈ s.fleet, v.isFeasible = false)) (by decide +kernel)
  obtain ⟨halone, h⟩ := Bool.and_eq_true_iff.mp h
  obtain ⟨r, hr, hany⟩ := exists_ok_and _ h
  obtain ⟨s, rfl, hs⟩ := (Option.any_eq_true ..).mp hany
  exact ⟨p, s, hp, of_decide_eq_true halone, hr, of_decide_eq_true hs⟩

end VrpRouting.Initialsol.Simple.InitialSolution
