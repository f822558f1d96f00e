import VrpRouting.Problem.Vehicle

/-! # Schedules

What `evaluate(from)` does to a path. The nodes stay (`nodesOf_evaluatePath`); the result depends on
the stops before `from` and on the nodes only (`evaluatePath_congr`). A path is *settled* from `k`
on when `evaluate(k)` does not change it, and evaluation settles it (`settled_evaluatePath`), also
with dumps. Evaluation from a later position of a path that is settled up to there gives the same as
evaluation from `k` (`evaluatePath_of_settled_take`), so a sequence of edits that each evaluate from
the edited position leaves the path that one evaluation from the first of them would give. -/

namespace VrpRouting

/-- The nodes of the stops of a path. -/
def nodesOf (path : List VehicleNode) : List TwNode := path.map VehicleNode.toTwNode

/-- No stop is a dump, the only node that evaluation changes. -/
def NoDump (path : List VehicleNode) : Prop := ∀ s ∈ path, s.type ≠ .kDump

@[simp] theorem nodesOf_cons (n : VehicleNode) (ns : List VehicleNode) :
    nodesOf (n :: ns) = n.toTwNode :: nodesOf ns := rfl

@[simp] theorem length_nodesOf (path : List VehicleNode) : (nodesOf path).length = path.length := by
  simp [nodesOf]

theorem front_of_path {v : Vehicle} {n : VehicleNode} {ns : List VehicleNode} (h : v.path = n :: ns) :
    v.front = n := by
  unfold Vehicle.front Vehicle.stop
  rw [h]
  rfl

theorem back_of_path {v : Vehicle} {n : VehicleNode} {ns : List VehicleNode}
    (h : v.path = ns ++ [n]) : v.back = n := by
  unfold Vehicle.back
  rw [h, List.getLastD_concat]

theorem front_of_nodes {v : Vehicle} {a : TwNode} {N : List TwNode} (h : nodesOf v.path = a :: N) :
    v.front.toTwNode = a := by
  obtain ⟨x, path, hp, rfl, -⟩ := List.map_eq_cons_iff.mp h
  rw [front_of_path hp]

theorem back_of_nodes {v : Vehicle} {b : TwNode} {N : List TwNode}
    (h : nodesOf v.path = N ++ [b]) : v.back.toTwNode = b := by
  obtain ⟨path, last, hp, -, hlast⟩ := List.map_eq_append_iff.mp h
  obtain ⟨x, rest, rfl, rfl, hrest⟩ := List.map_eq_cons_iff.mp hlast
  obtain rfl := List.map_eq_nil_iff.mp hrest
  rw [back_of_path hp]

theorem nodesOf_insertIdx (k : ℕ) (n : VehicleNode) (path : List VehicleNode) :
    nodesOf (path.insertIdx k n) = (nodesOf path).insertIdx k n.toTwNode := List.map_insertIdx ..

theorem nodesOf_eraseIdx (k : ℕ) (path : List VehicleNode) :
    nodesOf (path.eraseIdx k) = (nodesOf path).eraseIdx k := by simp [nodesOf, List.eraseIdx_map]

theorem NoDump.of_cons {n : VehicleNode} {ns : List VehicleNode} (h : NoDump (n :: ns)) :
    n.type ≠ .kDump ∧ NoDump ns := List.forall_mem_cons.mp h

theorem noDump_iff_nodes {path : List VehicleNode} :
    NoDump path ↔ ∀ t ∈ nodesOf path, t.type ≠ .kDump := by
  simp [NoDump, nodesOf]

section Evaluate
variable (M : Matrix) (cap : ℕ) (speed : ℚ)

@[simp] theorem length_evaluateAfter (pred : VehicleNode) (path : List VehicleNode) :
    (evaluateAfter M cap speed pred path).length = path.length := by
  induction path generalizing pred with
  | nil => rfl
  | cons n ns ih => simp [evaluateAfter, ih]

@[simp] theorem length_evaluateBehind (pred : VehicleNode) (k : ℕ) (path : List VehicleNode) :
    (evaluateBehind M cap speed pred k path).length = path.length := by
  induction path generalizing pred k with
  | nil => simp [evaluateBehind]
  | cons n ns ih => cases k <;> simp [evaluateBehind, ih]

@[simp] theorem length_evaluatePath (k : ℕ) (path : List VehicleNode) :
    (evaluatePath M cap speed k path).length = path.length := by
  cases path <;> cases k <;> simp [evaluatePath]

/-! ### The nodes stay -/

theorem nodesOf_evaluateAfter (pred : VehicleNode) {path : List VehicleNode} (h : NoDump path) :
    nodesOf (evaluateAfter M cap speed pred path) = nodesOf path := by
  induction path generalizing pred with
  | nil => rfl
  | cons n ns ih =>
    obtain ⟨hn, hns⟩ := h.of_cons
    simp only [evaluateAfter, nodesOf_cons, ih _ hns, VehicleNode.toTwNode_evaluate M n pred _ _ hn]

theorem nodesOf_evaluateBehind (pred : VehicleNode) (k : ℕ) {path : List VehicleNode}
    (h : NoDump path) : nodesOf (evaluateBehind M cap speed pred k path) = nodesOf path := by
  induction path generalizing pred k with
  | nil => simp [evaluateBehind]
  | cons n ns ih =>
    cases k with
    | zero => exact nodesOf_evaluateAfter M cap speed pred h
    | succ k => simp only [evaluateBehind, nodesOf_cons, ih _ k h.of_cons.2]

theorem nodesOf_evaluatePath (k : ℕ) {path : List VehicleNode} (h : NoDump path) :
    nodesOf (evaluatePath M cap speed k path) = nodesOf path := by
  cases path with
  | nil => rfl
  | cons n ns =>
    cases k with
    | zero =>
      simp only [evaluatePath, nodesOf_cons, nodesOf_evaluateAfter M cap speed _ h.of_cons.2,
        VehicleNode.toTwNode_evaluateStart]
    | succ k =>
      simp only [evaluatePath, nodesOf_cons, nodesOf_evaluateBehind M cap speed _ k h.of_cons.2]

/-! ### What the result depends on -/

theorem evaluateAfter_congr (pred : VehicleNode) {path path' : List VehicleNode}
    (h : nodesOf path = nodesOf path') :
    evaluateAfter M cap speed pred path = evaluateAfter M cap speed pred path' := by
  induction path generalizing pred path' with
  | nil => cases path' with
    | nil => rfl
    | cons n' ns' => cases h
  | cons n ns ih => cases path' with
    | nil => cases h
    | cons n' ns' =>
      obtain ⟨hn, hns⟩ := List.cons.inj h
      rw [evaluateAfter, evaluateAfter, VehicleNode.evaluate_congr M hn, ih _ hns]

theorem evaluateBehind_congr (pred : VehicleNode) (k : ℕ) {path path' : List VehicleNode}
    (h : path.take k = path'.take k) (hn : nodesOf path = nodesOf path') :
    evaluateBehind M cap speed pred k path = evaluateBehind M cap speed pred k path' := by
  induction path generalizing pred k path' with
  | nil => cases path' with
    | nil => rfl
    | cons n' ns' => cases hn
  | cons n ns ih => cases path' with
    | nil => cases hn
    | cons n' ns' =>
      cases k with
      | zero => exact evaluateAfter_congr M cap speed pred hn
      | succ k =>
        obtain ⟨rfl, hk⟩ := List.cons.inj h
        rw [evaluateBehind, evaluateBehind, ih _ k hk (List.cons.inj hn).2]

/-- Evaluation from `k` reads the stops before `k` and the nodes behind them. -/
theorem evaluatePath_congr (k : ℕ) {path path' : List VehicleNode}
    (h : path.take k = path'.take k) (hn : nodesOf path = nodesOf path') :
    evaluatePath M cap speed k path = evaluatePath M cap speed k path' := by
  cases path with
  | nil => cases path' with
    | nil => rfl
    | cons n' ns' => cases hn
  | cons n ns => cases path' with
    | nil => cases hn
    | cons n' ns' =>
      obtain ⟨h1, h2⟩ := List.cons.inj hn
      cases k with
      | zero =>
        rw [evaluatePath, evaluatePath, VehicleNode.evaluateStart_congr h1,
          evaluateAfter_congr M cap speed _ h2]
      | succ k =>
        obtain ⟨rfl, hk⟩ := List.cons.inj h
        rw [evaluatePath, evaluatePath, evaluateBehind_congr M cap speed n k hk h2]

theorem take_evaluateAfter (pred : VehicleNode) (j : ℕ) (path : List VehicleNode) :
    (evaluateAfter M cap speed pred path).take j = evaluateAfter M cap speed pred (path.take j) := by
  induction path generalizing pred j with
  | nil => simp [evaluateAfter]
  | cons n ns ih => cases j with
    | zero => simp [evaluateAfter]
    | succ j => simp [evaluateAfter, ih]

theorem take_evaluateBehind (pred : VehicleNode) (k j : ℕ) (path : List VehicleNode) :
    (evaluateBehind M cap speed pred k path).take j =
      evaluateBehind M cap speed pred k (path.take j) := by
  induction path generalizing pred k j with
  | nil => simp [evaluateBehind]
  | cons n ns ih => cases j with
    | zero => simp [evaluateBehind]
    | succ j => cases k with
      | zero => exact take_evaluateAfter M cap speed pred (j + 1) (n :: ns)
      | succ k => simp [evaluateBehind, ih]

theorem take_evaluatePath (k j : ℕ) (path : List VehicleNode) :
    (evaluatePath M cap speed k path).take j = evaluatePath M cap speed k (path.take j) := by
  cases path with
  | nil => simp [evaluatePath]
  | cons n ns => cases j with
    | zero => simp [evaluatePath]
    | succ j => cases k with
      | zero => simp [evaluatePath, take_evaluateAfter]
      | succ k => simp [evaluatePath, take_evaluateBehind]

theorem take_evaluateBehind_self (pred : VehicleNode) (k : ℕ) (path : List VehicleNode) :
    (evaluateBehind M cap speed pred k path).take k = path.take k := by
  induction path generalizing pred k with
  | nil => simp [evaluateBehind]
  | cons n ns ih => cases k with
    | zero => simp
    | succ k => simp [evaluateBehind, ih]

/-- The stops before the starting position stay. -/
theorem take_evaluatePath_self (k : ℕ) (path : List VehicleNode) :
    (evaluatePath M cap speed k path).take k = path.take k := by
  cases path with
  | nil => simp [evaluatePath]
  | cons n ns => cases k with
    | zero => simp
    | succ k => simp [evaluatePath, take_evaluateBehind_self]

/-! ### Evaluation is idempotent -/

/-- A dump that was evaluated empties the same load again. -/
theorem demandAfter_evaluate (n pred : VehicleNode) :
    (n.evaluate M pred cap speed).demandAfter pred = n.demandAfter pred := by
  have hdemand : (n.evaluate M pred cap speed).demand = n.demandAfter pred := rfl
  have hdump : (n.evaluate M pred cap speed).isDump =
      decide (n.type = .kDump ∧ n.opens < n.closes ∧ 0 ≤ n.serviceTime ∧
        n.demandAfter pred ≤ 0) := rfl
  have hold : n.isDump =
      decide (n.type = .kDump ∧ n.opens < n.closes ∧ 0 ≤ n.serviceTime ∧ n.demand ≤ 0) := rfl
  have heq : ∀ m : VehicleNode, m.demandAfter pred =
      if m.isDump && decide (pred.cargo ≥ 0) then -pred.cargo else m.demand := fun _ => rfl
  by_cases h : (n.isDump && decide (pred.cargo ≥ 0)) = true
  · have hload : n.demandAfter pred = -pred.cargo := by rw [heq, if_pos h]
    rw [heq, hdemand, hload]
    split_ifs <;> rfl
  · have hload : n.demandAfter pred = n.demand := by rw [heq, if_neg h]
    rw [heq, hdump, hdemand, hload, ← hold, if_neg h]

theorem evaluate_evaluate (n pred : VehicleNode) :
    (n.evaluate M pred cap speed).evaluate M pred cap speed = n.evaluate M pred cap speed := by
  have h := demandAfter_evaluate M cap speed n pred
  generalize he : n.evaluate M pred cap speed = e at h
  have hnode : e.toTwNode = { n.toTwNode with demand := n.demandAfter pred } := by rw [← he]; rfl
  unfold VehicleNode.evaluate VehicleNode.evaluateBy at he ⊢
  rw [h]
  simp only [hnode]
  exact he

theorem evaluateAfter_idem : ∀ (ns : List VehicleNode) (pred : VehicleNode),
    evaluateAfter M cap speed pred (evaluateAfter M cap speed pred ns) =
      evaluateAfter M cap speed pred ns
  | [], _ => rfl
  | n :: ns, pred => by
    rw [evaluateAfter, evaluateAfter, evaluate_evaluate, evaluateAfter_idem ns]

theorem evaluateBehind_idem : ∀ (ns : List VehicleNode) (pred : VehicleNode) (k : ℕ),
    evaluateBehind M cap speed pred k (evaluateBehind M cap speed pred k ns) =
      evaluateBehind M cap speed pred k ns
  | [], _, _ => by simp [evaluateBehind]
  | n :: ns, pred, 0 => evaluateAfter_idem M cap speed (n :: ns) pred
  | n :: ns, pred, k + 1 => by rw [evaluateBehind, evaluateBehind, evaluateBehind_idem ns n k]

/-! ### Settled paths -/

/-- Evaluation from `k` does not change the path. -/
def Settled (k : ℕ) (path : List VehicleNode) : Prop := evaluatePath M cap speed k path = path

/-- Evaluation settles a path. -/
theorem settled_evaluatePath : ∀ (k : ℕ) (path : List VehicleNode),
    Settled M cap speed k (evaluatePath M cap speed k path)
  | k, [] => by simp [Settled, evaluatePath]
  | 0, n :: ns => by
    unfold Settled
    rw [evaluatePath, evaluatePath, VehicleNode.evaluateStart_congr (n.toTwNode_evaluateStart cap),
      evaluateAfter_idem]
  | k + 1, n :: ns => by
    unfold Settled
    rw [evaluatePath, evaluatePath, evaluateBehind_idem]

variable {M cap speed}

theorem Settled.take {k : ℕ} {path : List VehicleNode} (h : Settled M cap speed k path) (j : ℕ) :
    Settled M cap speed k (path.take j) := by
  unfold Settled at *
  rw [← take_evaluatePath, h]

theorem evaluateBehind_of_settled_after {pred : VehicleNode} {j : ℕ} {path : List VehicleNode}
    (h : evaluateAfter M cap speed pred (path.take j) = path.take j) :
    evaluateBehind M cap speed pred j path = evaluateAfter M cap speed pred path := by
  induction path generalizing pred j with
  | nil => simp [evaluateBehind, evaluateAfter]
  | cons n ns ih => cases j with
    | zero => rfl
    | succ j =>
      obtain ⟨h1, h2⟩ := List.cons.inj h
      rw [h1] at h2
      rw [evaluateBehind, evaluateAfter, h1, ih h2]

theorem evaluateBehind_of_settled_take {pred : VehicleNode} {k j : ℕ} {path : List VehicleNode}
    (hkj : k ≤ j) (h : evaluateBehind M cap speed pred k (path.take j) = path.take j) :
    evaluateBehind M cap speed pred j path = evaluateBehind M cap speed pred k path := by
  induction path generalizing pred k j with
  | nil => simp [evaluateBehind]
  | cons n ns ih => cases k with
    | zero => cases j with
      | zero => rfl
      | succ j => exact evaluateBehind_of_settled_after h
    | succ k => cases j with
      | zero => omega
      | succ j => rw [evaluateBehind, evaluateBehind, ih (by omega) (List.cons.inj h).2]

/-- On a path that is settled up to `j`, it does not matter whether evaluation starts at `j`. -/
theorem evaluatePath_of_settled_take {k j : ℕ} {path : List VehicleNode} (hkj : k ≤ j)
    (h : Settled M cap speed k (path.take j)) :
    evaluatePath M cap speed j path = evaluatePath M cap speed k path := by
  cases path with
  | nil => rfl
  | cons n ns => cases k with
    | zero => cases j with
      | zero => rfl
      | succ j =>
        obtain ⟨h1, h2⟩ := List.cons.inj h
        rw [h1] at h2
        rw [evaluatePath, evaluatePath, h1, evaluateBehind_of_settled_after h2]
    | succ k => cases j with
      | zero => omega
      | succ j =>
        rw [evaluatePath, evaluatePath,
          evaluateBehind_of_settled_take (by omega) (List.cons.inj h).2]

/-- A path that is settled from `k` on and up to `k` is settled from the beginning. -/
theorem Settled.of_take {k j : ℕ} {path : List VehicleNode} (hkj : k ≤ j)
    (h : Settled M cap speed k (path.take j)) (hj : Settled M cap speed j path) :
    Settled M cap speed k path := (evaluatePath_of_settled_take hkj h).symm.trans hj

end Evaluate

end VrpRouting
