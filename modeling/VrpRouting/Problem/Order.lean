import Mathlib.Data.List.GetD
import VrpRouting.Common.Identifiers
import VrpRouting.Problem.Node

/-! # Orders

An order is a pickup and a delivery node, with the sets of orders that can be placed after and
before it. `Orders` is the vector of all orders; the index of an order is its position. -/

namespace VrpRouting

structure Order where
  idx : ℕ
  id : ℤ
  pickup : VehicleNode
  delivery : VehicleNode
  /-- The orders that can be placed after this one. -/
  compatibleJ : Identifiers ℕ
  /-- The orders that can be placed before this one. -/
  compatibleI : Identifiers ℕ
deriving DecidableEq, Inhabited

namespace Order

variable (M : Matrix) (o : Order)

/-- The constructor. -/
def ofNodes (idx : ℕ) (id : ℤ) (pickup delivery : VehicleNode) : Order :=
  ⟨idx, id, pickup, delivery, .empty, .empty⟩

def subsetI (I : Identifiers ℕ) : Identifiers ℕ := o.compatibleI.inter I

def subsetJ (J : Identifiers ℕ) : Identifiers ℕ := o.compatibleJ.inter J

/-- Order `I` can be placed before this order. -/
def isCompatibleIJ (I : Order) (speed : ℚ) : Bool :=
  let comp (second first : VehicleNode) := second.isCompatibleIJ M first.toTwNode speed
  let allCases := comp o.pickup I.pickup && comp o.delivery I.pickup
  -- I(P) I(D) this(P) this(D)
  let case1 := comp o.pickup I.delivery && comp o.delivery I.delivery
  -- I(P) this(P) I(D) this(D)
  let case2 := comp I.delivery o.pickup && comp o.delivery I.delivery
  -- I(P) this(P) this(D) I(D)
  let case3 := comp I.delivery o.pickup && comp I.delivery o.delivery
  allCases && (case1 || case2 || case3)

def setCompatibles (J : Order) (speed : ℚ) : Order :=
  if J.idx = o.idx then o else
  { o with
    compatibleJ :=
      if J.isCompatibleIJ M o speed then o.compatibleJ.insert J.idx else o.compatibleJ
    compatibleI :=
      if o.isCompatibleIJ M J speed then o.compatibleI.insert J.idx else o.compatibleI }

end Order

abbrev Orders := List Order

namespace Orders

variable (M : Matrix) (orders : Orders)

/-- `orders[i]`. -/
def get (i : ℕ) : Order := orders.getD i default

variable {orders} in
theorem get_eq_getElem {i : ℕ} (hi : i < orders.length) : orders.get i = orders[i] :=
  List.getD_eq_getElem _ _ hi

variable {orders} in
theorem get_mem {i : ℕ} (hi : i < orders.length) : orders.get i ∈ orders := by
  rw [get_eq_getElem hi]
  exact List.getElem_mem hi

/-- The loop of `find_best_J` and `find_best_I`: the first order with the largest `size`. -/
def findBest (size : ℕ → ℕ) (within : Identifiers ℕ) : ℕ :=
  (within.ids.foldl (fun (best : ℕ × ℕ) o => if best.2 < size o then (o, size o) else best)
    (within.front.getD 0, 0)).1

def findBestJ (within : Identifiers ℕ) : ℕ :=
  findBest (fun o => ((orders.get o).subsetJ within).size) within

def findBestI (within : Identifiers ℕ) : ℕ :=
  findBest (fun o => ((orders.get o).subsetI within).size) within

/-- The compatibility tables of all orders. The inner loop reads the nodes of `J` only, which
`Order.setCompatibles` does not change. -/
def setCompatibles (speed : ℚ) : Orders :=
  orders.map fun I => orders.foldl (fun I J => I.setCompatibles M J speed) I

end Orders

end VrpRouting
