import VrpRouting.Problem.HillClimb

/-! # Vehicles of one kind

The nodes of two vehicles differ in their labels `idx` even when the vehicles are described alike.
Neither the evaluation of a path nor the limits of positions read labels. So vehicles of the same
kind, on evaluated paths over the same stops, can take the same orders (`Alike.canTake_iff`). -/

namespace VrpRouting

/-- The node without its label. -/
def TwNode.unlabelled (t : TwNode) : TwNode := { t with idx := 0 }

/-- The stop without its label. -/
def VehicleNode.unlabelled (n : VehicleNode) : VehicleNode := { n with idx := 0 }

/-- What the feasibility of a route depends on, besides its stops. -/
structure Vehicle.Kind where
  capacity : ℕ
  speed : ℚ
  userTwv : ℕ
  userCv : ℕ
  startingSite : TwNode
  endingSite : TwNode
deriving DecidableEq

def Vehicle.kind (v : Vehicle) : Vehicle.Kind where
  capacity := v.capacity
  speed := v.speed
  userTwv := v.userTwv
  userCv := v.userCv
  startingSite := v.front.toTwNode.unlabelled
  endingSite := v.back.toTwNode.unlabelled

/-- The order fits somewhere in the vehicle. -/
def Vehicle.CanTake (M : Matrix) (v : Vehicle) (o : Order) : Prop := ∃ p d, v.FitsAt M o p d

/-! ### Evaluation does not read labels -/

section Evaluate
variable (M : Matrix) (cap : ℕ) (speed : ℚ)

theorem unlabelled_evaluate (pred n : VehicleNode) :
    (n.evaluate M pred cap speed).unlabelled =
      n.unlabelled.evaluate M pred.unlabelled cap speed := rfl

theorem evaluateAfter_unlabelled (pred : VehicleNode) : ∀ path : List VehicleNode,
    (evaluateAfter M cap speed pred path).map VehicleNode.unlabelled =
      evaluateAfter M cap speed pred.unlabelled (path.map VehicleNode.unlabelled)
  | [] => rfl
  | n :: ns => by
    rw [evaluateAfter, List.map_cons, List.map_cons, evaluateAfter, evaluateAfter_unlabelled _ ns,
      unlabelled_evaluate]

theorem evaluateBehind_unlabelled (pred : VehicleNode) : ∀ (k : ℕ) (path : List VehicleNode),
    (evaluateBehind M cap speed pred k path).map VehicleNode.unlabelled =
      evaluateBehind M cap speed pred.unlabelled k (path.map VehicleNode.unlabelled)
  | _, [] => by simp [evaluateBehind]
  | 0, n :: ns => evaluateAfter_unlabelled M cap speed pred (n :: ns)
  | k + 1, n :: ns => by
    rw [evaluateBehind, List.map_cons, List.map_cons, evaluateBehind,
      evaluateBehind_unlabelled n k ns]

/-- **Evaluation does not read labels.** -/
theorem evaluatePath_unlabelled (k : ℕ) (path : List VehicleNode) :
    (evaluatePath M cap speed k path).map VehicleNode.unlabelled =
      evaluatePath M cap speed k (path.map VehicleNode.unlabelled) := by
  cases path with
  | nil => simp [evaluatePath]
  | cons n ns => cases k with
    | zero =>
      rw [evaluatePath, List.map_cons, List.map_cons, evaluatePath, evaluateAfter_unlabelled]
      rfl
    | succ k =>
      rw [evaluatePath, List.map_cons, List.map_cons, evaluatePath, evaluateBehind_unlabelled]

end Evaluate

/-! ### Vehicles that agree but for labels -/

namespace Vehicle

/-- The vehicles agree in all that the feasibility of a route depends on. -/
structure Alike (v w : Vehicle) : Prop where
  capacity : v.capacity = w.capacity
  speed : v.speed = w.speed
  userTwv : v.userTwv = w.userTwv
  userCv : v.userCv = w.userCv
  path : v.path.map VehicleNode.unlabelled = w.path.map VehicleNode.unlabelled

namespace Alike

variable {M : Matrix} {v w : Vehicle} (h : Alike v w)
include h

theorem symm : Alike w v :=
  ⟨h.capacity.symm, h.speed.symm, h.userTwv.symm, h.userCv.symm, h.path.symm⟩

theorem length : v.path.length = w.path.length := by
  simpa using congrArg List.length h.path

theorem stop (k : ℕ) : (v.stop k).unlabelled = (w.stop k).unlabelled := by
  have hget := congrArg (fun path => path.getD k (default : VehicleNode).unlabelled) h.path
  simp only [List.getD_map] at hget
  exact hget

theorem back : v.back.unlabelled = w.back.unlabelled := by
  have hlast := congrArg (fun path => path.getLastD (default : VehicleNode).unlabelled) h.path
  simp only [List.getLastD_map] at hlast
  exact hlast

theorem isFeasible : v.isFeasible = w.isFeasible := by
  have htwv : v.twvTot = w.twvTot := (congrArg VehicleNode.twvTot h.back :)
  have hcv : v.cvTot = w.cvTot := (congrArg VehicleNode.cvTot h.back :)
  unfold Vehicle.isFeasible Vehicle.hasTwv Vehicle.hasCv
  rw [htwv, hcv, h.userTwv, h.userCv]

theorem insert (p : ℕ) (n : VehicleNode) : Alike (v.insert M p n) (w.insert M p n) where
  capacity := h.capacity
  speed := h.speed
  userTwv := h.userTwv
  userCv := h.userCv
  path := by
    show (evaluatePath M v.capacity v.speed p (v.path.insertIdx p n)).map _ =
      (evaluatePath M w.capacity w.speed p (w.path.insertIdx p n)).map _
    rw [evaluatePath_unlabelled, evaluatePath_unlabelled, List.map_insertIdx, List.map_insertIdx,
      h.path, h.capacity, h.speed]

theorem posLowLimitLoop (n : TwNode) : ∀ k,
    v.posLowLimitLoop M n k = w.posLowLimitLoop M n k
  | 0 => rfl
  | k + 1 => by
    have hstop : (v.stop k).isCompatibleIJ M n 1 = (w.stop k).isCompatibleIJ M n 1 :=
      (congrArg (fun s : VehicleNode => s.isCompatibleIJ M n 1) (h.stop k) :)
    rw [Vehicle.posLowLimitLoop, Vehicle.posLowLimitLoop, hstop, posLowLimitLoop n k]

/-- **The limits of the positions** do not depend on labels. -/
theorem positionLimits (n : TwNode) : v.positionLimits M n = w.positionLimits M n := by
  have hlow : v.getPosLowLimit M n = w.getPosLowLimit M n := by
    unfold Vehicle.getPosLowLimit Vehicle.size
    rw [h.length, h.posLowLimitLoop]
  have hhigh : v.getPosHighLimit M n = w.getPosHighLimit M n := by
    have htake := congrArg (fun path : List VehicleNode =>
      (path.takeWhile fun I => n.isCompatibleIJ M I.toTwNode v.speed).length) h.path
    simp only [List.takeWhile_map, List.length_map] at htake
    unfold Vehicle.getPosHighLimit
    rw [← h.speed]
    exact htake
  unfold Vehicle.positionLimits
  rw [hlow, hhigh]

theorem fitsAt {o : Order} {p d : ℕ} (hfit : v.FitsAt M o p d) : w.FitsAt M o p d where
  pickLow := h.positionLimits (M := M) _ ▸ hfit.pickLow
  pickHigh := h.positionLimits (M := M) _ ▸ hfit.pickHigh
  deliverLow := h.positionLimits (M := M) _ ▸ hfit.deliverLow
  deliverHigh := h.positionLimits (M := M) _ ▸ hfit.deliverHigh
  beforeEnd := h.length ▸ hfit.beforeEnd
  feasible := ((h.insert p o.pickup).insert d o.delivery).isFeasible ▸ hfit.feasible

/-- **Alike vehicles can take the same orders.** -/
theorem canTake_iff {o : Order} : v.CanTake M o ↔ w.CanTake M o :=
  ⟨fun ⟨p, d, hfit⟩ => ⟨p, d, h.fitsAt hfit⟩, fun ⟨p, d, hfit⟩ => ⟨p, d, h.symm.fitsAt hfit⟩⟩

end Alike

/-- Vehicles of one kind, on evaluated paths over the same stops, are alike. -/
theorem alike_of_kind {M : Matrix} {v w : Vehicle} (hkind : v.kind = w.kind)
    (hv : Settled M v.capacity v.speed 0 v.path) (hw : Settled M w.capacity w.speed 0 w.path)
    {mids : List TwNode} (hN : nodesOf v.path = v.front.toTwNode :: (mids ++ [v.back.toTwNode]))
    (hN' : nodesOf w.path = w.front.toTwNode :: (mids ++ [w.back.toTwNode])) : Alike v w := by
  have hcap : v.capacity = w.capacity := congrArg Kind.capacity hkind
  have hspeed : v.speed = w.speed := congrArg Kind.speed hkind
  refine ⟨hcap, hspeed, congrArg Kind.userTwv hkind, congrArg Kind.userCv hkind, ?_⟩
  have hnodes : ∀ path : List VehicleNode,
      nodesOf (path.map VehicleNode.unlabelled) = (nodesOf path).map TwNode.unlabelled := fun path => by
    unfold nodesOf
    rw [List.map_map, List.map_map]
    rfl
  have hsame : nodesOf (v.path.map VehicleNode.unlabelled) =
      nodesOf (w.path.map VehicleNode.unlabelled) := by
    have hstart : v.front.toTwNode.unlabelled = w.front.toTwNode.unlabelled :=
      congrArg Kind.startingSite hkind
    have hend : v.back.toTwNode.unlabelled = w.back.toTwNode.unlabelled :=
      congrArg Kind.endingSite hkind
    simp only [hnodes, hN, hN', List.map_cons, List.map_append, hstart, hend]
  calc v.path.map VehicleNode.unlabelled
      = evaluatePath M v.capacity v.speed 0 (v.path.map VehicleNode.unlabelled) := by
        rw [← evaluatePath_unlabelled, hv]
    _ = evaluatePath M w.capacity w.speed 0 (w.path.map VehicleNode.unlabelled) := by
        rw [hcap, hspeed]
        exact evaluatePath_congr M _ _ 0 (by simp) hsame
    _ = w.path.map VehicleNode.unlabelled := by rw [← evaluatePath_unlabelled, hw]

end Vehicle

end VrpRouting
