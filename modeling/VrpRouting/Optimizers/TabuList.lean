import VrpRouting.Problem.VehiclePickDeliver

/-! # The memory of the tabu search

A `Move` is compared by its orders, its vehicles and its kind; the two objective values that the
source stores with it are compared by nothing and are left out. The two sets of candidates are only
asked for membership, so they are lists without repetitions. -/

namespace VrpRouting.Optimizers.Tabu

structure Move where
  vid1 : ℤ
  vid2 : ℤ
  oid1 : ℤ
  oid2 : ℤ
  isSwap : Bool
deriving DecidableEq, Repr

/-- The insertion of an order. -/
def Move.insertion (fromV toV : Vehicle) (order : Order) : Move :=
  ⟨fromV.id, toV.id, order.id, 0, false⟩

/-- The swap of two orders. -/
def Move.swap (fromV toV : Vehicle) (fromOrder toOrder : Order) : Move :=
  ⟨fromV.id, toV.id, fromOrder.id, toOrder.id, true⟩

structure TabuList where
  maxLength : ℕ
  tabuList : List Move
  infeasibleList : List String
  seenList : List String
deriving DecidableEq

namespace TabuList

variable (t : TabuList)

def empty : TabuList := ⟨0, [], [], []⟩

def has (m : Move) : Bool := decide (m ∈ t.tabuList)

/-- A new move goes to the end; the oldest ones leave when the list is full. -/
def add (m : Move) : TabuList :=
  if t.has m then t
  else { t with tabuList := t.tabuList.drop (t.tabuList.length + 1 - t.maxLength) ++ [m] }

def clear : TabuList := { t with tabuList := [] }

def hasMove (fromV toV : Vehicle) (order : Order) : Bool :=
  t.has (.insertion fromV toV order) || t.has (.insertion toV fromV order)

def hasSwap (fromV toV : Vehicle) (fromOrder toOrder : Order) : Bool :=
  t.has (.swap fromV toV fromOrder toOrder) || t.has (.swap fromV toV toOrder fromOrder) ||
    t.has (.swap toV fromV fromOrder toOrder) || t.has (.swap toV fromV toOrder fromOrder)

def setMaxLength (length : ℕ) : TabuList := { t with maxLength := length }

def hasInfeasible (candidate : String) : Bool := decide (candidate ∈ t.infeasibleList)

def addInfeasible (candidate : String) : TabuList :=
  { t with infeasibleList := t.infeasibleList.insert candidate }

def hasSeen (candidate : String) : Bool := decide (candidate ∈ t.seenList)

def addSeen (candidate : String) : TabuList := { t with seenList := t.seenList.insert candidate }

end TabuList

end VrpRouting.Optimizers.Tabu
