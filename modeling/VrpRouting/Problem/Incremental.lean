import VrpRouting.Problem.HillClimb

/-! # Incremental evaluation

Every mutator of a vehicle evaluates from the position that it edits, so a path that is settled up
to that position is settled to its end afterwards (`SettledTo.evaluate`). An edit from position `k`
on keeps the path settled up to `k`; the lemmas for the mutators put these two together, and a run
of them leaves the fields of every node as one evaluation from the first position gives them
(`incremental_evaluation`). -/

namespace VrpRouting

/-! ### Vehicles that are up to date -/

/-- The fields of the first `k` stops are those that evaluation gives. -/
def SettledTo (M : Matrix) (k : ℕ) (v : Vehicle) : Prop :=
  Settled M v.capacity v.speed 0 (v.path.take k)

/-- One evaluation from the first position changes no field. -/
def UpToDate (M : Matrix) (v : Vehicle) : Prop := (v.evaluate M 0).path = v.path

instance (M : Matrix) (v : Vehicle) : Decidable (UpToDate M v) := by
  unfold UpToDate
  infer_instance

section Edits
variable {M : Matrix} {v : Vehicle} {j k : ℕ}

theorem UpToDate.settledTo (h : UpToDate M v) (k : ℕ) : SettledTo M k v := Settled.take h k

theorem settledTo_zero : SettledTo M 0 v := by
  unfold SettledTo
  rw [List.take_zero]
  rfl

theorem SettledTo.mono (h : SettledTo M k v) (hj : j ≤ k) : SettledTo M j v := by
  have := Settled.take h j
  rwa [List.take_take, min_eq_left hj] at this

/-- Evaluation from the position up to which the path is settled. -/
theorem SettledTo.evaluate (h : SettledTo M k v) : UpToDate M (v.evaluate M k) := by
  have hk : evaluatePath M v.capacity v.speed k v.path = evaluatePath M v.capacity v.speed 0 v.path :=
    evaluatePath_of_settled_take (Nat.zero_le k) h
  change evaluatePath M v.capacity v.speed 0 (evaluatePath M v.capacity v.speed k v.path) =
    evaluatePath M v.capacity v.speed k v.path
  rw [hk]
  exact settled_evaluatePath M v.capacity v.speed 0 v.path

theorem SettledTo.insertNode (h : SettledTo M k v) {pos : ℕ} (hk : k ≤ pos) (node : VehicleNode) :
    SettledTo M k (v.insertNode pos node) := by
  unfold SettledTo Vehicle.insertNode
  rwa [List.take_insertIdx_eq_take_of_le _ _ _ _ hk]

theorem SettledTo.eraseNode (h : SettledTo M k v) {pos : ℕ} (hk : k ≤ pos) :
    SettledTo M k (v.eraseNode pos) := by
  unfold SettledTo Vehicle.eraseNode
  rwa [List.take_eraseIdx_eq_take_of_le _ _ _ hk]

theorem SettledTo.insert (h : SettledTo M k v) (node : VehicleNode) : UpToDate M (v.insert M k node) :=
  (h.insertNode le_rfl node).evaluate

theorem SettledTo.eraseAt (h : SettledTo M k v) : UpToDate M (v.eraseAt M k) :=
  (h.eraseNode le_rfl).evaluate

theorem SettledTo.swap {i : ℕ} (h : SettledTo M (min i j) v) : UpToDate M (v.swap M i j) := by
  have hset : SettledTo M (min i j)
      { v with path := (v.path.set i (v.stop j)).set j (v.stop i) } := by
    unfold SettledTo
    rwa [List.take_set_of_le (min_le_right i j), List.take_set_of_le (min_le_left i j)]
  unfold Vehicle.swap
  rw [show (if i < j then i else j) = min i j by split_ifs <;> omega]
  exact hset.evaluate

variable (h : UpToDate M v)
include h

theorem UpToDate.eraseStop (node : VehicleNode) : UpToDate M (v.eraseStop M node) := by
  unfold Vehicle.eraseStop
  split
  · exact (h.settledTo _).eraseAt
  · exact h

omit h in
theorem size_insertNode_le (pos : ℕ) (node : VehicleNode) :
    (v.insertNode pos node).size ≤ v.size + 1 := List.length_insertIdx_le_succ

theorem UpToDate.pushBackStop (node : VehicleNode) : UpToDate M (v.pushBackStop M node) := by
  unfold Vehicle.pushBackStop
  extract_lets v1
  have hsize : v1.size ≤ v.size + 1 := size_insertNode_le _ node
  exact ((h.settledTo (v1.size - 2)).insertNode (by omega) node).evaluate

theorem UpToDate.popBackStop : UpToDate M (v.popBackStop M) := by
  unfold Vehicle.popBackStop
  extract_lets v1
  have hsize : v1.size = if v.size - 2 < v.size then v.size - 1 else v.size := List.length_eraseIdx ..
  exact ((h.settledTo (v1.size - 1)).eraseNode (by split_ifs at hsize <;> omega)).evaluate

/-- The two nodes are inserted behind the position from which `push_back` evaluates. -/
theorem UpToDate.pushBack (o : Order) : UpToDate M (v.pushBack M o) := by
  unfold Vehicle.pushBack
  extract_lets v1 v2 v3
  have hsize2 : v2.size ≤ v1.size + 1 := size_insertNode_le _ o.pickup
  have hsize3 : v3.size ≤ v2.size + 1 := size_insertNode_le _ o.delivery
  have h1 : UpToDate M v1 := h
  have h2 : SettledTo M (v3.size - 3) v2 :=
    (h1.settledTo (v3.size - 3)).insertNode (by omega) o.pickup
  have h3 : SettledTo M (v3.size - 3) v3 := h2.insertNode (by omega) o.delivery
  exact h3.evaluate

theorem UpToDate.eraseOrder (o : Order) : UpToDate M (v.eraseOrder M o) :=
  (h.eraseStop o.pickup).eraseStop o.delivery

theorem UpToDate.popFrom {stops : List VehicleNode} {r : Vehicle × ℕ}
    (hr : v.popFrom M stops = .ok r) : UpToDate M r.1 := by
  unfold Vehicle.popFrom at hr
  split at hr
  · cases hr
  · split at hr
    · obtain rfl := Except.ok.inj hr
      exact h.eraseOrder _
    · obtain rfl := Except.ok.inj hr
      exact h

end Edits

/-! ### The insertion heuristics -/

section Heuristics
variable {M : Matrix} {v : Vehicle} {o : Order}

/-- The inner loop exchanges neighbours, and does not move back. -/
theorem climbDeliver_upToDate (cur : ℤ) (pick : ℕ) : ∀ (passes pos : ℕ) (b : BestPositions)
    (w : Vehicle), UpToDate M w →
    UpToDate M (Vehicle.climbDeliver M cur pick passes pos b w).2.2 ∧
      pos ≤ (Vehicle.climbDeliver M cur pick passes pos b w).1
  | 0, pos, b, w, hw => ⟨hw, le_rfl⟩
  | passes + 1, pos, b, w, hw => by
    unfold Vehicle.climbDeliver
    simp only
    split_ifs
    · exact ⟨hw, le_rfl⟩
    · exact ⟨hw, le_rfl⟩
    · obtain ⟨h1, h2⟩ := climbDeliver_upToDate cur pick passes (pos + 1) _ _
        (SettledTo.swap (hw.settledTo _))
      exact ⟨h1, by omega⟩
    · obtain ⟨h1, h2⟩ := climbDeliver_upToDate cur pick passes (pos + 1) _ _
        (SettledTo.swap (hw.settledTo _))
      exact ⟨h1, by omega⟩

/-- The delivery is taken off behind the pickup, so the path is settled up to the pickup. -/
theorem climbPick_settledTo (cur : ℤ) (o : Order) (dpos : ℕ × ℕ) : ∀ (passes pick : ℕ)
    (b : BestPositions) (w : Vehicle), UpToDate M w →
    SettledTo M (Vehicle.climbPick M cur o dpos passes pick b w).1
      (Vehicle.climbPick M cur o dpos passes pick b w).2.2
  | 0, pick, b, w, hw => hw.settledTo pick
  | passes + 1, pick, b, w, hw => by
    unfold Vehicle.climbPick
    simp only
    generalize hfirst : (if dpos.1 ≤ pick then pick + 1 else dpos.1) = first
    have hlt : pick < first := by split_ifs at hfirst <;> omega
    obtain ⟨h1, h2⟩ := climbDeliver_upToDate cur pick (dpos.2 + 1 - first) first b
      (w.insert M first o.delivery) (SettledTo.insert (hw.settledTo first) o.delivery)
    generalize Vehicle.climbDeliver M cur pick (dpos.2 + 1 - first) first b
      (w.insert M first o.delivery) = r at h1 h2 ⊢
    have herase : SettledTo M r.1 (r.2.2.eraseNode r.1) := (h1.settledTo r.1).eraseNode le_rfl
    split_ifs
    · exact herase.mono (by omega)
    · exact climbPick_settledTo cur o dpos passes (pick + 1) _ _
        (SettledTo.swap (herase.mono (by omega)))

variable (h : UpToDate M v)
include h

theorem UpToDate.hillClimb (o : Order) : UpToDate M (v.hillClimb M o).2 := by
  unfold Vehicle.hillClimb
  extract_lets pickPos deliverPos r v1 v2
  have hr : SettledTo M r.1 r.2.2 := climbPick_settledTo v.objective o _ _ _ _ _
    (SettledTo.insert (h.settledTo pickPos.1) o.pickup)
  have h1 : UpToDate M v1 := hr.eraseAt
  have h2 : UpToDate M v2 := SettledTo.insert
    (UpToDate.settledTo (SettledTo.insert (h1.settledTo _) o.pickup) _) o.delivery
  split_ifs
  · exact h
  · exact h
  · exact h1
  · exact h2

omit h in
theorem lifoDeliver_upToDate (o : Order) : ∀ (passes pos : ℕ) (w : Vehicle), UpToDate M w →
    UpToDate M (w.lifoDeliver M o passes pos).2
  | 0, _, w, hw => SettledTo.eraseAt (hw.settledTo 1)
  | passes + 1, pos, w, hw => by
    have hins : UpToDate M (w.insert M pos o.delivery) :=
      SettledTo.insert (hw.settledTo pos) o.delivery
    unfold Vehicle.lifoDeliver
    simp only
    split_ifs
    · exact hins
    · exact lifoDeliver_upToDate o passes (pos - 1) _ (SettledTo.eraseAt (hins.settledTo pos))

theorem UpToDate.semiLIFO (o : Order) : UpToDate M (v.semiLIFO M o).2 := by
  have hins : UpToDate M (v.insert M 1 o.pickup) := SettledTo.insert (h.settledTo 1) o.pickup
  unfold Vehicle.semiLIFO
  simp only
  split_ifs
  · exact SettledTo.eraseAt (hins.settledTo 1)
  · exact lifoDeliver_upToDate o _ _ _ hins

/-- The user's stops are evaluated as a whole; the removals of movable orders keep that. -/
theorem UpToDate.setInitialSolution (orders : Orders) (sets : Assignment) (executionDate : ℤ)
    (optimize : Bool) : UpToDate M (v.setInitialSolution M orders sets executionDate optimize).1 := by
  have hstops : UpToDate M (v.processStops M orders sets).1 := settledTo_zero.evaluate
  have hremove : ∀ (os : List ℕ) (s : Vehicle × Assignment), UpToDate M s.1 →
      UpToDate M (os.foldl (Vehicle.removeMovable M) s).1 := by
    intro os
    induction os with
    | nil => exact fun s hs => hs
    | cons i os ih => exact fun s hs => ih _ (hs.eraseOrder (s.1.orders.get i))
  unfold Vehicle.setInitialSolution
  extract_lets s v1 r
  have h1 : UpToDate M v1 := hstops
  have hr : UpToDate M r.1 := by
    unfold r
    split_ifs
    · exact hremove v1.ordersInVehicle.ids (v1, s.2) h1
    · exact h1
  split_ifs
  · exact h
  · exact h1
  · exact hr

end Heuristics

/-! ### Runs -/

/-- The operations that change a path. -/
inductive Mutator
  | insert (pos : ℕ) (node : VehicleNode)
  | eraseAt (pos : ℕ)
  | eraseStop (node : VehicleNode)
  | swap (i j : ℕ)
  | pushBackStop (node : VehicleNode)
  | pushFrontStop (node : VehicleNode)
  | popBackStop
  | popFrontStop
  | pushBack (order : Order)
  | pushFront (order : Order)
  | popBack
  | popFront
  | eraseOrder (order : Order)
  | hillClimb (order : Order)
  | semiLIFO (order : Order)
  | setInitialSolution (orders : Orders) (sets : Assignment) (executionDate : ℤ) (optimize : Bool)

/-- The vehicle after an operation. -/
def Vehicle.mutate (M : Matrix) (v : Vehicle) : Mutator → Except Fault Vehicle
  | .insert pos node => .ok (v.insert M pos node)
  | .eraseAt pos => .ok (v.eraseAt M pos)
  | .eraseStop node => .ok (v.eraseStop M node)
  | .swap i j => .ok (v.swap M i j)
  | .pushBackStop node => .ok (v.pushBackStop M node)
  | .pushFrontStop node => .ok (v.pushFrontStop M node)
  | .popBackStop => .ok (v.popBackStop M)
  | .popFrontStop => .ok (v.popFrontStop M)
  | .pushBack order => .ok (v.pushBack M order)
  | .pushFront order => .ok (v.pushFront M order)
  | .popBack => Prod.fst <$> v.popBack M
  | .popFront => Prod.fst <$> v.popFront M
  | .eraseOrder order => .ok (v.eraseOrder M order)
  | .hillClimb order => .ok (v.hillClimb M order).2
  | .semiLIFO order => .ok (v.semiLIFO M order).2
  | .setInitialSolution orders sets date optimize =>
    .ok (v.setInitialSolution M orders sets date optimize).1

/-- The vehicle after a sequence of operations. -/
def Vehicle.mutateAll (M : Matrix) (v : Vehicle) (ops : List Mutator) : Except Fault Vehicle :=
  ops.foldlM (Vehicle.mutate M) v

/-- **Every operation keeps the fields up to date.** -/
theorem UpToDate.mutate {M : Matrix} {v w : Vehicle} (h : UpToDate M v) (op : Mutator)
    (hw : v.mutate M op = .ok w) : UpToDate M w := by
  cases op with
  | popBack =>
    obtain ⟨r, hr, rfl⟩ := map_eq_ok hw
    exact h.popFrom hr
  | popFront =>
    obtain ⟨r, hr, rfl⟩ := map_eq_ok hw
    exact h.popFrom hr
  | insert pos node =>
    obtain rfl := Except.ok.inj hw
    exact SettledTo.insert (h.settledTo pos) node
  | eraseAt pos =>
    obtain rfl := Except.ok.inj hw
    exact SettledTo.eraseAt (h.settledTo pos)
  | eraseStop node =>
    obtain rfl := Except.ok.inj hw
    exact h.eraseStop node
  | swap i j =>
    obtain rfl := Except.ok.inj hw
    exact SettledTo.swap (h.settledTo (min i j))
  | pushBackStop node =>
    obtain rfl := Except.ok.inj hw
    exact h.pushBackStop node
  | pushFrontStop node =>
    obtain rfl := Except.ok.inj hw
    exact settledTo_zero.evaluate
  | popBackStop =>
    obtain rfl := Except.ok.inj hw
    exact h.popBackStop
  | popFrontStop =>
    obtain rfl := Except.ok.inj hw
    exact settledTo_zero.evaluate
  | pushBack order =>
    obtain rfl := Except.ok.inj hw
    exact h.pushBack order
  | pushFront order =>
    obtain rfl := Except.ok.inj hw
    exact settledTo_zero.evaluate
  | eraseOrder order =>
    obtain rfl := Except.ok.inj hw
    exact h.eraseOrder order
  | hillClimb order =>
    obtain rfl := Except.ok.inj hw
    exact h.hillClimb order
  | semiLIFO order =>
    obtain rfl := Except.ok.inj hw
    exact h.semiLIFO order
  | setInitialSolution orders sets date optimize =>
    obtain rfl := Except.ok.inj hw
    exact h.setInitialSolution orders sets date optimize

/-- The constructor evaluates. -/
theorem construct_upToDate (M : Matrix) (idx : ℕ) (id : ℤ) (startingSite endingSite : VehicleNode)
    (stops : List ℤ) (capacity : ℕ) (speed : ℚ) (orders : Orders) :
    UpToDate M (.construct M idx id startingSite endingSite stops capacity speed orders) :=
  settled_evaluatePath M capacity speed 0 [startingSite, endingSite]

theorem UpToDate.mutateAll {M : Matrix} {v : Vehicle} (h : UpToDate M v) :
    ∀ {ops : List Mutator} {w : Vehicle}, v.mutateAll M ops = .ok w → UpToDate M w := by
  intro ops
  induction ops generalizing v with
  | nil =>
    intro w hw
    obtain rfl := Except.ok.inj hw
    exact h
  | cons op ops ih =>
    intro w hw
    unfold Vehicle.mutateAll at hw
    rw [List.foldlM_cons] at hw
    obtain ⟨u, hu, hw⟩ := bind_eq_ok hw
    exact ih (h.mutate op hu) hw

/-- **Incremental evaluation equals full evaluation**: in a new vehicle, and after every operation of
every sequence on an evaluated one. -/
theorem incremental_evaluation (M : Matrix) :
    (∀ idx id startingSite endingSite stops capacity speed orders, UpToDate M
      (.construct M idx id startingSite endingSite stops capacity speed orders)) ∧
    ∀ {v : Vehicle}, UpToDate M v → ∀ {ops : List Mutator} {w : Vehicle},
      v.mutateAll M ops = .ok w → UpToDate M w :=
  ⟨construct_upToDate M, fun h _ _ hw => h.mutateAll hw⟩

/-- An order is inserted, taken off and pushed to the front. -/
theorem incremental_evaluation_small : ∃ w, climbTrip.mutateAll twoSites
    [.hillClimb (climbOrders.get 0), .popBack, .pushFront (climbOrders.get 0), .swap 1 2] = .ok w ∧
    UpToDate twoSites w := by
  obtain ⟨w, hw⟩ := exists_ok (x := climbTrip.mutateAll twoSites
    [.hillClimb (climbOrders.get 0), .popBack, .pushFront (climbOrders.get 0), .swap 1 2])
    (by decide +kernel)
  have hnew := (incremental_evaluation twoSites).1 0 7
    (.ofTwNode (.ofVehicle 4 (smallVehicleData 7 []) .kStart))
    (.ofTwNode (.ofVehicle 5 (smallVehicleData 7 []) .kEnd)) [] 2 1 climbOrders
  exact ⟨w, hw, (incremental_evaluation twoSites).2 hnew hw⟩

end VrpRouting
