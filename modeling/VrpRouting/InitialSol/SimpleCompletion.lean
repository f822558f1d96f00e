import VrpRouting.InitialSol.Passes

/-! # Completion of the simple initial solutions

A pass moves an order from the unassigned to the assigned ones exactly when there is a truck for the
first unassigned order, no insertion is undone, and one of the insertions into the empty truck
succeeds (`CanTake`). When that is so in every pass, the loop ends, and then each order is on one
vehicle (`complete_iff`). -/

open Sorting

namespace VrpRouting.Initialsol.Simple.InitialSolution

section Statement
variable (M : Matrix) (kind : InitialsCode)

/-- The next pass moves an order from `unassigned` to `assigned`. -/
def Progress (s : InitialSolution) : Prop :=
  ∃ s', s.fooStep M kind = .ok s' ∧ ∃ o ∈ s.unassigned, o ∈ s'.assigned ∧ o ∉ s'.unassigned

/-- There is a truck, its orders stay in it, and one of them can be inserted. -/
def CanTake (s : InitialSolution) : Prop :=
  ∃ t f, s.trucks.getTruck (s.unassigned.front.getD 0) = .ok (t, f) ∧ s.keeps kind ∧
    ∃ o ∈ t.feasibleOrders.inter s.unassigned, inserts M kind t (s.orders.get o) = true

/-- The order is picked up once and delivered once by one vehicle, and no other one visits it. -/
def OnOne (orders : Orders) (fleet : List Vehicle) (o : ℕ) : Prop :=
  ∃ A w B, fleet = A ++ w :: B ∧
    (visits (orders.get o) (nodesOf w.path)).Perm (orders.get o).stops ∧
    ∀ v ∈ A ++ B, Free (orders.get o) v

/-- Every pass makes progress, and the loop ends with each order on one vehicle. -/
structure Complete (p : PickDeliver) : Prop where
  progress : ∀ s, Reached M kind p s → s.unassigned.isEmpty = false → s.Progress M kind
  ends : ∃ fuel s, doWhileFoo M kind fuel (start p) = .ok (some s) ∧
    s.unassigned = .empty ∧ s.assigned = s.allOrders ∧ s.allOrders = .upTo p.orders.length ∧
    ∀ o < p.orders.length, OnOne p.orders s.fleet o

end Statement

/-- The two sets divide the orders; the assigned ones are on one vehicle, the other ones on none. -/
structure Divided (p : PickDeliver) (s : InitialSolution) : Prop where
  all : s.allOrders = .upTo p.orders.length
  covers : ∀ i < p.orders.length, i ∈ s.assigned ∨ i ∈ s.unassigned
  known : ∀ i ∈ s.assigned, i < p.orders.length ∧ i ∉ s.unassigned
  on : ∀ i ∈ s.assigned, OnOne p.orders s.fleet i
  free : ∀ i ∈ s.unassigned, ∀ v ∈ s.fleet, Free (p.orders.get i) v

section Run
variable {S : Sorter} {M : Matrix} {pOrders : List OrdersT} {pVehicles : List VehicleT}
  {newStops : List ShortVehicle} {p : PickDeliver} (hb : p.Built S M pOrders pVehicles newStops)
  {kind : InitialsCode} {s s' : InitialSolution} {t w : Vehicle}

theorem exists_fooStep (kind : InitialsCode) {f : Fleet}
    (h : s.trucks.getTruck (s.unassigned.front.getD 0) = .ok (t, f)) :
    ∃ s', s.fooStep M kind = .ok s' := by
  unfold fooStep
  rw [h]
  exact ⟨_, rfl⟩

include hb

/-- A pass makes progress exactly when a truck can take an order. -/
theorem progress_iff (hs : OfProblem p s) (hne : s.unassigned.isEmpty = false) :
    s.Progress M kind ↔ s.CanTake M kind := by
  constructor
  · rintro ⟨s', hstep, o, ho, ha, hu⟩
    obtain ⟨t, w, h⟩ := Step.took hb hs ⟨hne, hstep⟩
    obtain ⟨f, hg⟩ := h.truck
    have hk : s.keeps kind := by
      by_contra hk
      have hsets : s'.unassigned = s.unassigned := congrArg Assignment.unassigned (h.pass.undone hk)
      exact hu (hsets ▸ ho)
    have hw : o ∈ w.ordersInVehicle := by
      by_contra hw
      exact hu (((h.pass.filled hk).unassigned o).mpr ⟨ho, hw⟩)
    exact ⟨t, f, hg, hk, (h.pass.moved hk).mp ⟨o, hw⟩⟩
  · rintro ⟨t, f, hg, hk, hins⟩
    obtain ⟨s', hstep⟩ := exists_fooStep (M := M) kind hg
    obtain ⟨t', w, h⟩ := Step.took hb hs ⟨hne, hstep⟩
    obtain ⟨f', hg'⟩ := h.truck
    obtain ⟨rfl, -⟩ := Prod.mk.inj (Except.ok.inj (hg'.symm.trans hg))
    obtain ⟨o, ho⟩ := (h.pass.moved hk).mpr hins
    have hf := h.pass.filled hk
    exact ⟨s', hstep, o, hf.taken o ho, (hf.assigned o).mpr (Or.inr ho),
      fun hu => ((hf.unassigned o).mp hu).2 ho⟩

/-- A pass that undoes nothing divides the orders again. -/
theorem Divided.step (h : Divided p s) (hs : OfProblem p s) (hk : s.keeps kind)
    (hstep : Step M kind s s') : Divided p s' := by
  obtain ⟨t, w, ht⟩ := hstep.took hb hs
  have hf := ht.pass.filled hk
  have hun : ∀ i, i ∈ s'.unassigned ↔ i ∈ s.unassigned ∧ i ∉ w.ordersInVehicle := hf.unassigned
  have has : ∀ i, i ∈ s'.assigned ↔ i ∈ s.assigned ∨ i ∈ w.ordersInVehicle := hf.assigned
  have hfree : ∀ i < p.orders.length, i ∉ w.ordersInVehicle → Free (p.orders.get i) w :=
    hs.orders ▸ hf.free
  have hall : s'.allOrders = s.allOrders := by
    obtain ⟨-, hstep⟩ := hstep
    unfold fooStep at hstep
    cases hg : s.trucks.getTruck (s.unassigned.front.getD 0) with
    | error e => rw [hg] at hstep; cases hstep
    | ok r =>
      rw [hg] at hstep
      obtain rfl := Except.ok.inj hstep
      rfl
  refine ⟨hall.trans h.all, fun i hi => ?_, fun i hi => ?_, fun i hi => ?_, fun i hi v hv => ?_⟩
  · rw [has, hun]
    rcases h.covers i hi with hi | hi
    · exact Or.inl (Or.inl hi)
    · by_cases hw : i ∈ w.ordersInVehicle
      · exact Or.inl (Or.inr hw)
      · exact Or.inr ⟨hi, hw⟩
  · rw [hun]
    rcases (has i).mp hi with hi | hi
    · exact ⟨(h.known i hi).1, fun hu => (h.known i hi).2 hu.1⟩
    · exact ⟨hs.known i (hf.taken i hi), fun hu => hu.2 hi⟩
  · rw [ht.fleet]
    rcases (has i).mp hi with hi | hi
    · obtain ⟨hlt, hnot⟩ := h.known i hi
      obtain ⟨A, u, B, hsplit, hu, hfr⟩ := h.on i hi
      refine ⟨A, u, B ++ [w], by rw [hsplit]; simp, hu, ?_⟩
      rw [← List.append_assoc]
      exact List.forall_mem_append.mpr ⟨hfr, List.forall_mem_singleton.mpr
        (hfree i hlt fun hw => hnot (hf.taken i hw))⟩
    · refine ⟨s.fleet, w, [], rfl, ?_, ?_⟩
      · rw [← hs.orders]
        exact hf.on i hi
      · rw [List.append_nil]
        exact h.free i (hf.taken i hi)
  · obtain ⟨hi, hw⟩ := (hun i).mp hi
    rw [ht.fleet] at hv
    rcases List.mem_append.mp hv with hv | hv
    · exact h.free i hi v hv
    · rw [List.mem_singleton.mp hv]
      exact hfree i (hs.known i hi) hw

theorem Reached.divided (hc : ∀ s, Reached M kind p s → s.unassigned.isEmpty = false →
    s.CanTake M kind) (h : Reached M kind p s) : Divided p s := by
  induction h with
  | refl =>
    exact ⟨rfl, fun i hi => Or.inr (Identifiers.mem_upTo.mpr hi),
      fun i hi => absurd hi (Identifiers.not_mem_empty i),
      fun i hi => absurd hi (Identifiers.not_mem_empty i), fun i _ v hv => absurd hv List.not_mem_nil⟩
  | tail hr hstep ih =>
    obtain ⟨t, f, -, hk, -⟩ := hc _ hr hstep.1
    exact ih.step hb (Reached.ofProblem hb hr) hk hstep

end Run

/-- **The construction is complete exactly when in every pass a truck can take an order.** -/
theorem complete_iff {S : Sorter} {M : Matrix} {pOrders : List OrdersT} {pVehicles : List VehicleT}
    {p : PickDeliver} (hp : PickDeliver.build S M pOrders pVehicles [] = .ok p)
    (kind : InitialsCode) :
    Complete M kind p ↔
      ∀ s, Reached M kind p s → s.unassigned.isEmpty = false → s.CanTake M kind := by
  have hb := PickDeliver.build_built hp
  refine ⟨fun h s hs hne => (progress_iff hb (Reached.ofProblem hb hs) hne).mp (h.progress s hs hne),
    fun h => ?_⟩
  have hprog : ∀ s, Reached M kind p s → s.unassigned.isEmpty = false → s.Progress M kind :=
    fun s hs hne => (progress_iff hb (Reached.ofProblem hb hs) hne).mpr (h s hs hne)
  obtain ⟨s, hs⟩ := doWhileFoo_ends (M := M) kind p.orders.length (start p)
    (by simp [start, Identifiers.size, Identifiers.upTo]) fun r hr hne => by
      obtain ⟨r', hstep, o, ho, -, hu⟩ := hprog r hr hne
      obtain ⟨t, w, ht⟩ := Step.took hb (Reached.ofProblem hb hr) ⟨hne, hstep⟩
      obtain ⟨_, _, -, hk, -⟩ := h r hr hne
      exact ⟨r', hstep, Identifiers.size_lt_of_subset
        (fun i hi => (((ht.pass.filled hk).unassigned i).mp hi).1) ho hu⟩
  obtain ⟨hreach, hend⟩ := reaches_of_doWhileFoo _ hs
  have hd := Reached.divided hb h hreach
  have hnone := Identifiers.isEmpty_iff.mp hend
  have hassigned : ∀ i < p.orders.length, i ∈ s.assigned :=
    fun i hi => (hd.covers i hi).resolve_right (hnone i)
  refine ⟨hprog, _, s, hs, ?_, ?_, hd.all, fun o ho => hd.on o (hassigned o ho)⟩
  · exact Identifiers.ext_iff.mpr fun i => iff_of_false (hnone i) (Identifiers.not_mem_empty i)
  · rw [hd.all]
    exact Identifiers.ext_iff.mpr fun i =>
      ⟨fun hi => Identifiers.mem_upTo.mpr (hd.known i hi).1,
        fun hi => hassigned i (Identifiers.mem_upTo.mp hi)⟩

/-- Two orders that fit one by one in a vehicle of capacity 1, and one that does not. -/
def mixedOrders : List OrdersT :=
  [smallOrderData 1 12, smallOrderData 2 12, { smallOrderData 3 100 with demand := 2 }]

def mixedVehicles : List VehicleT :=
  [smallVehicleData 7 [], { smallVehicleData 8 [] with capacity := 2 }]

theorem complete_iff_small : ∃ p,
    PickDeliver.build .insertion twoSites mixedOrders mixedVehicles [] = .ok p ∧
    (Complete twoSites .bestInsert p ↔ ∀ s, Reached twoSites .bestInsert p s →
      s.unassigned.isEmpty = false → s.CanTake twoSites .bestInsert) := by
  obtain ⟨p, hp⟩ := exists_ok (x := PickDeliver.build .insertion twoSites mixedOrders
    mixedVehicles []) (by decide +kernel)
  exact ⟨p, hp, complete_iff hp .bestInsert⟩

/-- `BackTruck` pushes two orders into the first truck, which is then too late; no later pass keeps
the third order. -/
theorem complete_backTruck_fails : ∃ p,
    PickDeliver.build .insertion twoSites mixedOrders mixedVehicles [] = .ok p ∧
    ¬ Complete twoSites .backTruck p := by
  obtain ⟨p, hp, h⟩ := exists_ok_and (x := PickDeliver.build .insertion twoSites mixedOrders
    mixedVehicles []) (fun p => !(start p).unassigned.isEmpty &&
      ((start p).fooStep twoSites .backTruck).toOption.any fun s =>
        !s.unassigned.isEmpty && (s.fooStep twoSites .backTruck).toOption.any fun s' =>
          decide (s'.unassigned = s.unassigned)) (by decide +kernel)
  obtain ⟨hstart, h⟩ := Bool.and_eq_true_iff.mp h
  obtain ⟨s, hs, h⟩ := exists_ok_and _ h
  obtain ⟨hne, h⟩ := Bool.and_eq_true_iff.mp h
  obtain ⟨s', hs', hsame⟩ := exists_ok_and _ h
  refine ⟨p, hp, fun hc => ?_⟩
  obtain ⟨r, hr, o, ho, -, hu⟩ := hc.progress s (.single ⟨by simpa using hstart, hs⟩) (by simpa using hne)
  obtain rfl := Except.ok.inj (hs'.symm.trans hr)
  exact hu (of_decide_eq_true hsame ▸ ho)

end VrpRouting.Initialsol.Simple.InitialSolution
