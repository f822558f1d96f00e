import VrpRouting.InitialSol.Construction
import VrpRouting.InitialSol.Simple

/-! # Filling one truck

What `do_while_feasible` does with a truck. When the solution built so far is feasible, no insertion
is undone, and the orders that got into the truck are those that left the unassigned ones (`Filled`);
when it is not, every insertion is undone. `Pass` says both, and which insertions succeed. -/

namespace VrpRouting

/-- A loaded order is picked up once and delivered once. -/
theorem Loaded.visits_perm {M : Matrix} {o : Order} {v w : Vehicle} (h : Loaded M v o w)
    (hf : Free o v) : (visits o (nodesOf w.path)).Perm o.stops := by
  obtain ⟨p, d, -, hp, -, hd, hN⟩ := h.positions
  have hlen := length_nodesOf v.path
  have hperm : (nodesOf w.path).Perm
      (o.delivery.toTwNode :: o.pickup.toTwNode :: nodesOf v.path) := by
    rw [hN]
    refine (List.perm_insertIdx _ _ ?_).trans ((List.perm_insertIdx _ _ (by omega)).cons _)
    rw [List.length_insertIdx_of_le_length (by omega)]
    omega
  refine (hperm.filter _).trans ?_
  have hv : (nodesOf v.path).filter (isNodeOf o) = [] := hf
  rw [List.filter_cons_of_pos (by simp [isNodeOf]), List.filter_cons_of_pos (by simp [isNodeOf]), hv]
  exact List.Perm.swap _ _ _

namespace Initialsol.Simple

/-- The kinds that push an order into the truck without a test. -/
def InitialsCode.pushes : InitialsCode → Bool
  | .onePerTruck | .frontTruck | .backTruck => true
  | _ => false

namespace InitialSolution

section Insert
variable (M : Matrix) (kind : InitialsCode) {v : Vehicle} {o : Order}

/-- The insertion of the kind puts the order into the truck. -/
def inserts (v : Vehicle) (o : Order) : Bool :=
  match kind with
  | .oneTruck => false
  | .onePerTruck | .backTruck | .frontTruck => true
  | .bestInsert | .bestBack | .bestFront => (v.hillClimb M o).1
  | .oneDepot => (v.semiLIFO M o).1

theorem insertByKind_spec (hv : IsRoute (nodesOf v.path)) (ho : o.Typed) :
    (inserts M kind v o = true ∧ Loaded M v o (insertByKind M kind v o) ∧
      (kind.pushes = false → (insertByKind M kind v o).isFeasible = true)) ∨
    (inserts M kind v o = false ∧ Unchanged M v (insertByKind M kind v o)) := by
  have hclimb : ((v.hillClimb M o).1 = true ∧ Loaded M v o (v.hillClimb M o).2 ∧
      (v.hillClimb M o).2.isFeasible = true) ∨
      ((v.hillClimb M o).1 = false ∧ Unchanged M v (v.hillClimb M o).2) := by
    rcases hillClimb_spec (M := M) hv ho with ⟨h1, h2, h3⟩ | h
    · exact Or.inl ⟨h1, h2.loaded, h3⟩
    · exact Or.inr h
  cases kind with
  | oneTruck => exact Or.inr ⟨rfl, .refl M v⟩
  | onePerTruck | backTruck =>
    exact Or.inl ⟨rfl, (pushBack_spec hv ho).loaded, by simp [InitialsCode.pushes]⟩
  | frontTruck => exact Or.inl ⟨rfl, (pushFront_spec hv ho).loaded, by simp [InitialsCode.pushes]⟩
  | bestInsert | bestBack | bestFront =>
    exact hclimb.imp (fun h => ⟨h.1, h.2.1, fun _ => h.2.2⟩) id
  | oneDepot => exact (semiLIFO_spec hv ho).imp (fun h => ⟨h.1, h.2.1, fun _ => h.2.2⟩) id

end Insert

/-! ### The order of a pass -/

theorem findBest_mem (size : ℕ → ℕ) {within : Identifiers ℕ} {x : ℕ} (hx : within.front = some x) :
    Orders.findBest size within ∈ within := by
  have hfold : ∀ (l : List ℕ) (best : ℕ × ℕ), (∀ o ∈ l, o ∈ within) → best.1 ∈ within →
      (l.foldl (fun (best : ℕ × ℕ) o => if best.2 < size o then (o, size o) else best) best).1 ∈
        within := by
    intro l
    induction l with
    | nil => exact fun _ _ h => h
    | cons o l ih =>
      intro best hl hb
      obtain ⟨ho, hl⟩ := List.forall_mem_cons.mp hl
      refine ih _ hl ?_
      dsimp only
      split_ifs
      · exact ho
      · exact hb
  refine hfold within.ids _ (fun o ho => ho) ?_
  rw [hx]
  exact Identifiers.front_mem hx

/-- The order of a pass is one of those that can still be tried. -/
theorem exists_nextOrder (s : InitialSolution) (kind : InitialsCode) {cf : Identifiers ℕ}
    (h : cf.isEmpty = false) : ∃ o ∈ cf, s.nextOrder kind cf = s.orders.get o ∧
      (kind.pushes = true → cf.front = some o) := by
  obtain ⟨x, hx, hmem⟩ := Identifiers.front_of_not_isEmpty h
  cases kind with
  | bestBack => exact ⟨_, findBest_mem _ hx, rfl, by simp [InitialsCode.pushes]⟩
  | bestFront => exact ⟨_, findBest_mem _ hx, rfl, by simp [InitialsCode.pushes]⟩
  | _ => exact ⟨x, hmem, by simp [nextOrder, hx], fun _ => hx⟩

theorem narrow_subset (s : InitialSolution) (kind : InitialsCode) (o : Order) {cf : Identifiers ℕ}
    {i : ℕ} (h : i ∈ s.narrow kind o cf) : i ∈ cf := by
  cases kind with
  | bestBack | bestFront => exact (Identifiers.mem_inter.mp h).2
  | _ => exact h

/-! ### The loop -/

/-- The truck `t` with the orders of its set on the path; the same orders went from the unassigned
to the assigned ones. -/
structure Filled (M : Matrix) (orders : Orders) (t : Vehicle) (sets : Assignment) (v : Vehicle)
    (sets' : Assignment) : Prop where
  route : RouteOf orders v
  settled : Settled M v.capacity v.speed 0 v.path
  on : ∀ i ∈ v.ordersInVehicle, (visits (orders.get i) (nodesOf v.path)).Perm (orders.get i).stops
  free : ∀ i < orders.length, i ∉ v.ordersInVehicle → Free (orders.get i) v
  taken : ∀ i ∈ v.ordersInVehicle, i ∈ sets.unassigned
  assigned : ∀ i, i ∈ sets'.assigned ↔ i ∈ sets.assigned ∨ i ∈ v.ordersInVehicle
  unassigned : ∀ i, i ∈ sets'.unassigned ↔ i ∈ sets.unassigned ∧ i ∉ v.ordersInVehicle
  untouched : (∀ i, i ∉ v.ordersInVehicle) → v = t

section Filled
variable {M : Matrix} {orders : Orders} (ho : orders.WellFormed) {t v w : Vehicle}
  {sets sets' : Assignment}

theorem Filled.start (h : Fresh M orders t) (sets : Assignment) : Filled M orders t sets t sets where
  route := h.route
  settled := h.settled
  on i hi := absurd (h.movable ▸ hi) (Identifiers.not_mem_empty i)
  free i hi _ := h.free i hi
  taken i hi := absurd (h.movable ▸ hi) (Identifiers.not_mem_empty i)
  assigned i := by simp [h.movable]
  unassigned i := by simp [h.movable]
  untouched _ := rfl

include ho

/-- One more order in the truck. -/
theorem Filled.load (h : Filled M orders t sets v sets') {o : ℕ} (hlt : o < orders.length)
    (hun : o ∈ sets.unassigned) (hnew : o ∉ v.ordersInVehicle)
    (hw : Loaded M v (orders.get o) w) :
    Filled M orders t sets w (Assignment.assign sets' o) := by
  have hmem : ∀ i, i ∈ w.ordersInVehicle ↔ i = o ∨ i ∈ v.ordersInVehicle := fun i => by
    rw [hw.others, Identifiers.mem_insert, ho.idx o hlt]
  refine ⟨h.route.loaded hlt ho hw, ?_, fun i hi => ?_, fun i hi hni => ?_, fun i hi => ?_,
    fun i => ?_, fun i => ?_, fun hnone => absurd ((hmem o).mpr (Or.inl rfl)) (hnone o)⟩
  · have hs := hw.settled h.settled
    rw [hw.others]
    exact hs
  · rcases (hmem i).mp hi with rfl | hi
    · exact hw.visits_perm (h.free i hlt hnew)
    · have hio : i ≠ o := fun e => hnew (e ▸ hi)
      rw [hw.visits_other ho (h.route.movable i hi) hlt hio]
      exact h.on i hi
  · have hni' := mt (hmem i).mpr hni
    push Not at hni'
    unfold Free
    rw [hw.visits_other ho hi hlt hni'.1]
    exact h.free i hi hni'.2
  · rcases (hmem i).mp hi with rfl | hi
    · exact hun
    · exact h.taken i hi
  · rw [hmem, Assignment.assign, Identifiers.mem_insert, h.assigned]
    tauto
  · rw [hmem, Assignment.assign, Identifiers.mem_erase, h.unassigned]
    tauto

end Filled

/-- The invariant of the loop when the solution built so far is feasible. -/
structure Filling (M : Matrix) (orders : Orders) (kind : InitialsCode) (t : Vehicle)
    (sets : Assignment) (l : FeasibleLoop) : Prop where
  filled : Filled M orders t sets l.vehicle l.sets
  within : ∀ i ∈ l.currentFeasible, i < orders.length ∧ i ∈ sets.unassigned ∧
    i ∉ l.vehicle.ordersInVehicle
  feasible : kind.pushes = false → (∃ i, i ∈ l.vehicle.ordersInVehicle) → l.vehicle.isFeasible = true

section Loop
variable {M : Matrix} {s : InitialSolution} (ho : s.orders.WellFormed) {kind : InitialsCode}
  {t : Vehicle} {sets : Assignment}
include ho

/-- One pass: the order of the pass gets into the truck, or it is not tried again. -/
theorem Filling.step (hs : s.isFeasible = true) {l : FeasibleLoop}
    (h : Filling M s.orders kind t sets l) (hne : l.currentFeasible.isEmpty = false) :
    ∃ o ∈ l.currentFeasible, (kind.pushes = true → l.currentFeasible.front = some o) ∧
      Filling M s.orders kind t sets (s.feasibleStep M kind l) ∧
      ((inserts M kind l.vehicle (s.orders.get o) = true ∧
          o ∈ (s.feasibleStep M kind l).vehicle.ordersInVehicle ∧
          (s.feasibleStep M kind l).vehicle = insertByKind M kind l.vehicle (s.orders.get o) ∧
          (∀ i ∈ (s.feasibleStep M kind l).currentFeasible, i ∈ l.currentFeasible.erase o) ∧
          (kind.pushes = true →
            (s.feasibleStep M kind l).currentFeasible = l.currentFeasible.erase o)) ∨
        (inserts M kind l.vehicle (s.orders.get o) = false ∧
          s.feasibleStep M kind l = ⟨l.vehicle, l.sets, l.currentFeasible.erase o⟩)) := by
  obtain ⟨o, hmem, hnext, hfront⟩ := s.exists_nextOrder kind hne
  obtain ⟨hlt, hun, hnew⟩ := h.within o hmem
  refine ⟨o, hmem, hfront, ?_⟩
  unfold feasibleStep
  simp only [hnext, hs, Bool.not_true, Bool.false_eq_true, if_false, ho.idx o hlt]
  rcases insertByKind_spec M kind h.filled.route.route (ho.typed o hlt) with ⟨hi, hl, hf⟩ | ⟨hi, hu⟩
  · have hin : o ∈ (insertByKind M kind l.vehicle (s.orders.get o)).ordersInVehicle := by
      rw [hl.others, Identifiers.mem_insert, ho.idx o hlt]
      exact Or.inl rfl
    have hhas : (insertByKind M kind l.vehicle (s.orders.get o)).hasOrder (s.orders.get o) = true :=
      (hasOrder_get_iff ho hlt _).mpr hin
    have hsub : ∀ i ∈ (s.narrow kind (s.orders.get o) l.currentFeasible).erase o,
        i ∈ l.currentFeasible.erase o := fun i hi => by
      rw [Identifiers.mem_erase] at hi ⊢
      exact ⟨s.narrow_subset kind _ hi.1, hi.2⟩
    rw [if_pos hhas]
    refine ⟨⟨h.filled.load ho hlt hun hnew hl, fun i hi => ?_, fun hp _ => hf hp⟩,
      Or.inl ⟨hi, hin, rfl, hsub, fun hp => ?_⟩⟩
    · obtain ⟨hi, hio⟩ := Identifiers.mem_erase.mp (hsub i hi)
      obtain ⟨h1, h2, h3⟩ := h.within i hi
      refine ⟨h1, h2, ?_⟩
      rw [hl.others, Identifiers.mem_insert, ho.idx o hlt]
      exact fun hor => hor.elim hio h3
    · cases kind <;> first | rfl | simp [InitialsCode.pushes] at hp
  · have hv : insertByKind M kind l.vehicle (s.orders.get o) = l.vehicle := hu.settled h.filled.settled
    have hhas : l.vehicle.hasOrder (s.orders.get o) = false := by
      rw [Vehicle.hasOrder, ho.idx o hlt]
      exact Identifiers.has_eq_false.mpr hnew
    rw [hv, hhas]
    exact ⟨⟨h.filled, fun i hi => h.within i (Identifiers.mem_erase.mp hi).1, h.feasible⟩,
      Or.inr ⟨hi, rfl⟩⟩

/-- The whole loop. -/
theorem Filling.run (hs : s.isFeasible = true) (hk : kind ≠ .onePerTruck) :
    ∀ (passes : ℕ) (l : FeasibleLoop), Filling M s.orders kind t sets l →
      l.currentFeasible.size ≤ passes →
      Filling M s.orders kind t sets (s.feasibleLoop M kind passes l) ∧
      ((∃ i, i ∈ (s.feasibleLoop M kind passes l).vehicle.ordersInVehicle) ↔
        (∃ i, i ∈ l.vehicle.ordersInVehicle) ∨
        ∃ o ∈ l.currentFeasible, inserts M kind t (s.orders.get o) = true)
  | 0, l, h, hsize => by
    have hnone : ∀ o, o ∉ l.currentFeasible := by
      have h0 : l.currentFeasible.ids = [] := List.length_eq_zero_iff.mp (Nat.le_zero.mp hsize)
      simp [Identifiers.mem_def, h0]
    exact ⟨h, by simp [feasibleLoop, hnone]⟩
  | passes + 1, l, h, hsize => by
    unfold feasibleLoop
    cases hne : l.currentFeasible.isEmpty with
    | true =>
      have hnone := Identifiers.isEmpty_iff.mp hne
      exact ⟨by simpa using h, by simp [hnone]⟩
    | false =>
      obtain ⟨o, hmem, -, hstep, hcase⟩ := h.step ho hs hne
      have herase := Identifiers.size_erase_of_mem hmem
      rw [if_neg (by simp), if_neg hk]
      rcases hcase with ⟨hi, hin, -, hsub, -⟩ | ⟨hi, heq⟩
      · have hle := Identifiers.size_le_of_subset hsub
        obtain ⟨h1, h2⟩ := Filling.run hs hk passes _ hstep (by omega)
        refine ⟨h1, h2.trans ⟨fun _ => ?_, fun _ => Or.inl ⟨o, hin⟩⟩⟩
        -- the first insertion is one into the truck as it was at the start
        by_cases hany : ∃ i, i ∈ l.vehicle.ordersInVehicle
        · exact Or.inl hany
        · rw [h.filled.untouched (not_exists.mp hany)] at hi
          exact Or.inr ⟨o, hmem, hi⟩
      · rw [heq] at hstep ⊢
        obtain ⟨h1, h2⟩ := Filling.run hs hk passes _ hstep (by dsimp only; omega)
        refine ⟨h1, h2.trans ⟨Or.imp_right fun ⟨i, hi', hins⟩ =>
          ⟨i, (Identifiers.mem_erase.mp hi').1, hins⟩, fun hor => ?_⟩⟩
        by_cases hany : ∃ i, i ∈ l.vehicle.ordersInVehicle
        · exact Or.inl hany
        · obtain ⟨i, hi', hins⟩ := hor.resolve_left hany
          refine Or.inr ⟨i, Identifiers.mem_erase.mpr ⟨hi', fun hio => ?_⟩, hins⟩
          rw [h.filled.untouched (not_exists.mp hany), ← hio, hins] at hi
          cases hi

end Loop

/-- The truck with the orders pushed into it one after the other. -/
def load (M : Matrix) (kind : InitialsCode) (orders : Orders) (t : Vehicle) (ids : List ℕ) : Vehicle :=
  ids.foldl (fun v o => insertByKind M kind v (orders.get o)) t

/-- A pushing kind pushes every order. -/
theorem Filling.run_load {M : Matrix} {s : InitialSolution} (ho : s.orders.WellFormed)
    {kind : InitialsCode} {t : Vehicle} {sets : Assignment} (hs : s.isFeasible = true)
    (hk : kind ≠ .onePerTruck) (hp : kind.pushes = true) :
    ∀ (passes : ℕ) (l : FeasibleLoop), Filling M s.orders kind t sets l →
      l.currentFeasible.size ≤ passes →
      (s.feasibleLoop M kind passes l).vehicle = load M kind s.orders l.vehicle l.currentFeasible.ids
  | 0, l, _, hsize => by
    have h0 : l.currentFeasible.ids = [] := List.length_eq_zero_iff.mp (Nat.le_zero.mp hsize)
    rw [h0]
    rfl
  | passes + 1, l, h, hsize => by
    unfold feasibleLoop
    cases hne : l.currentFeasible.isEmpty with
    | true =>
      have h0 : l.currentFeasible.ids = [] := List.isEmpty_iff.mp hne
      rw [h0]
      rfl
    | false =>
      obtain ⟨o, hmem, hfront, hstep, hcase⟩ := h.step ho hs hne
      have herase := Identifiers.size_erase_of_mem hmem
      have hins : inserts M kind l.vehicle (s.orders.get o) = true := by
        cases kind <;> first | rfl | simp [InitialsCode.pushes] at hp
      obtain ⟨-, -, hv, -, hcf⟩ := hcase.resolve_right (by simp [hins])
      rw [if_neg (by simp), if_neg hk, Filling.run_load ho hs hk hp passes _ hstep
        (by rw [hcf hp]; omega), hv, hcf hp, Identifiers.ids_of_front (hfront hp)]
      rfl

/-- When the solution built so far is not feasible, no order leaves the unassigned ones. -/
theorem feasibleLoop_undone {M : Matrix} {s : InitialSolution} {kind : InitialsCode}
    (hs : s.isFeasible = false) (hk : kind ≠ .onePerTruck) :
    ∀ (passes : ℕ) (l : FeasibleLoop), (s.feasibleLoop M kind passes l).sets = l.sets
  | 0, _ => rfl
  | passes + 1, l => by
    unfold feasibleLoop
    rw [if_neg hk]
    split_ifs
    · rfl
    · rw [feasibleLoop_undone hs hk passes]
      simp [feasibleStep, hs]

/-! ### One truck -/

/-- No insertion of the next pass is undone. -/
def keeps (s : InitialSolution) (kind : InitialsCode) : Prop :=
  kind = .onePerTruck ∨ s.isFeasible = true

/-- What `do_while_feasible` makes of the truck `t` and the sets. -/
structure Pass (M : Matrix) (s : InitialSolution) (kind : InitialsCode) (t : Vehicle)
    (sets : Assignment) (r : Vehicle × Assignment) : Prop where
  filled : s.keeps kind → Filled M s.orders t sets r.1 r.2
  moved : s.keeps kind → ((∃ i, i ∈ r.1.ordersInVehicle) ↔
    ∃ o ∈ t.feasibleOrders.inter sets.unassigned, inserts M kind t (s.orders.get o) = true)
  feasible : s.keeps kind → kind.pushes = false → (∃ i, i ∈ r.1.ordersInVehicle) →
    r.1.isFeasible = true
  single : kind = .onePerTruck → ∀ o, (t.feasibleOrders.inter sets.unassigned).front = some o →
    r.1 = t.pushBack M (s.orders.get o)
  loaded : s.isFeasible = true → kind = .frontTruck ∨ kind = .backTruck →
    r.1 = load M kind s.orders t (t.feasibleOrders.inter sets.unassigned).ids
  undone : ¬ s.keeps kind → r.2 = sets

/-- Without a feasible order the truck stays as it is. -/
theorem feasibleLoop_of_isEmpty {M : Matrix} {s : InitialSolution} {kind : InitialsCode}
    {l : FeasibleLoop} (hne : l.currentFeasible.isEmpty = true) (passes : ℕ) :
    s.feasibleLoop M kind passes l = l := by
  cases passes with
  | zero => rfl
  | succ passes => rw [feasibleLoop, if_pos hne]

/-- The first feasible order is the only one on the truck. -/
theorem feasibleLoop_onePerTruck {M : Matrix} {s : InitialSolution} (ho : s.orders.WellFormed)
    {l : FeasibleLoop} {o : ℕ} (hfront : l.currentFeasible.front = some o)
    (hlt : o < s.orders.length) :
    s.feasibleLoop M .onePerTruck l.currentFeasible.size l =
      ⟨l.vehicle.pushBack M (s.orders.get o), Assignment.assign l.sets o, l.currentFeasible⟩ := by
  have hmem := Identifiers.front_mem hfront
  have hne : l.currentFeasible.isEmpty = false := by
    rw [Identifiers.isEmpty_eq_false]
    exact ⟨o, hmem⟩
  have hnext : s.nextOrder .onePerTruck l.currentFeasible = s.orders.get o := by
    simp [nextOrder, hfront]
  rw [← Identifiers.size_erase_of_mem hmem, feasibleLoop, hne, if_neg Bool.false_ne_true, if_pos rfl]
  dsimp only
  rw [hnext, ho.idx o hlt]
  rfl

section Pass
variable {M : Matrix} {s : InitialSolution} (ho : s.orders.WellFormed) (kind : InitialsCode)
  {t : Vehicle} (ht : Fresh M s.orders t) (sets : Assignment)
  (hlt : ∀ i ∈ sets.unassigned, i < s.orders.length)
include ho ht hlt

theorem onePerTruck_pass : Pass M s .onePerTruck t sets (s.doWhileFeasible M .onePerTruck t sets) := by
  have hno : ∀ i, i ∉ t.ordersInVehicle := fun i => ht.movable ▸ Identifiers.not_mem_empty i
  unfold doWhileFeasible
  extract_lets cf l
  cases hne : cf.isEmpty with
  | true =>
    have hnone := Identifiers.isEmpty_iff.mp hne
    have hl : l = ⟨t, sets, cf⟩ := feasibleLoop_of_isEmpty hne cf.size
    rw [hl]
    exact
      { filled := fun _ => .start ht sets
        moved := fun _ => ⟨fun ⟨i, hi⟩ => absurd hi (hno i), fun ⟨o, h, _⟩ => absurd h (hnone o)⟩
        feasible := fun _ hp => by cases hp
        single := fun _ o hfront => absurd (Identifiers.front_mem hfront) (hnone o)
        loaded := fun _ h => by simp at h
        undone := fun h => absurd (Or.inl rfl) h }
  | false =>
    obtain ⟨o, hfront, hmem⟩ := Identifiers.front_of_not_isEmpty hne
    have hun := (Identifiers.mem_inter.mp hmem).2
    have ho' := hlt o hun
    have hl : l = ⟨t.pushBack M (s.orders.get o), Assignment.assign sets o, cf⟩ :=
      feasibleLoop_onePerTruck (l := ⟨t, sets, cf⟩) ho hfront ho'
    have hload := (pushBack_spec (M := M) ht.route.route (ho.typed o ho')).loaded
    have hon : o ∈ (t.pushBack M (s.orders.get o)).ordersInVehicle := by
      rw [hload.others, Identifiers.mem_insert, ho.idx o ho']
      exact Or.inl rfl
    rw [hl]
    exact
      { filled := fun _ => (Filled.start ht sets).load ho ho' hun (hno o) hload
        moved := fun _ => ⟨fun _ => ⟨o, hmem, rfl⟩, fun _ => ⟨o, hon⟩⟩
        feasible := fun _ hp => by cases hp
        single := fun _ o' hfront' => by
          obtain rfl : o = o' := Option.some.inj (hfront.symm.trans hfront')
          rfl
        loaded := fun _ h => by simp at h
        undone := fun h => absurd (Or.inl rfl) h }

theorem doWhileFeasible_pass : Pass M s kind t sets (s.doWhileFeasible M kind t sets) := by
  by_cases hk : kind = .onePerTruck
  · rw [hk]
    exact onePerTruck_pass ho ht sets hlt
  · have hno : ∀ i, i ∉ t.ordersInVehicle := fun i => ht.movable ▸ Identifiers.not_mem_empty i
    have hstart : Filling M s.orders kind t sets ⟨t, sets, t.feasibleOrders.inter sets.unassigned⟩ :=
      ⟨.start ht sets, fun i hi => ⟨hlt i (Identifiers.mem_inter.mp hi).2,
        (Identifiers.mem_inter.mp hi).2, hno i⟩, fun _ ⟨i, hi⟩ => absurd hi (hno i)⟩
    unfold doWhileFeasible
    extract_lets cf l
    have hrun := fun h => Filling.run ho h hk cf.size _ hstart le_rfl
    exact
      { filled := fun h => (hrun (h.resolve_left hk)).1.filled
        moved := fun h => by
          rw [(hrun (h.resolve_left hk)).2]
          exact or_iff_right fun ⟨i, hi⟩ => hno i hi
        feasible := fun h hp hany => (hrun (h.resolve_left hk)).1.feasible hp hany
        single := fun h => absurd h hk
        loaded := fun h hfb =>
          Filling.run_load ho h hk (by rcases hfb with rfl | rfl <;> rfl) cf.size _ hstart le_rfl
        undone := fun h => by
          have hs : s.isFeasible = false := by
            rw [← Bool.not_eq_true]
            exact fun hs => h (Or.inr hs)
          exact feasibleLoop_undone hs hk cf.size _ }

end Pass

end InitialSolution

end Initialsol.Simple

end VrpRouting
