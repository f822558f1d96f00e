import VrpRouting.InitialSol.Simple

/-! # The simple optimizer

`Optimize` of `optimizers/simple.cpp`. References to vehicles of `m_fleet` are positions in the
fleet; the copies on which the operators work are local values. The results of `inter_swap` and
`swap_worse` are read by nothing and are left out, as are `swap_order`, `sort_by_id` and
`sort_for_move`, which nothing calls; what `move_reduce_cost` reports is in `ReduceCost`.

Two fields are not in the source: `bestLog` records the fleets that `best_solution` has had, and
`acts` the operations that were carried out. -/

open Sorting

namespace VrpRouting.Optimizers.Simple

open Initialsol.Simple (InitialsCode)

/-- The operations on the fleet; vehicles are named by their positions. -/
inductive Act
  | sortBySize
  | decreaseTruck (position : ℕ)
  | deleteEmptyTruck
  | saveIfBest
  | swapWorse (toPos fromPos : ℕ)
  | moveReduceCost (fromPos toPos : ℕ)
  /-- The first vehicle goes to the end. -/
  | rotate
  /-- The fleet of the best solution is taken. -/
  | takeBest
deriving DecidableEq, Repr

structure Optimize extends Solution where
  bestSolution : Solution
  kind : InitialsCode
  /-- The fleets of `best_solution`, the last one first. -/
  bestLog : List (List Vehicle)
  /-- The operations so far. -/
  acts : List Act

/-- The two trucks of an operator. -/
structure Trucks where
  fromTruck : Vehicle
  toTruck : Vehicle

/-- The local state of `swap_worse`: the object and the copies of the two trucks. -/
structure SwapLoop extends Trucks where
  opt : Optimize

namespace Optimize

variable (S : Sorter) (M : Matrix) (o : Optimize)

/-- The members before `inter_swap`. -/
def init (oldSolution : Solution) (kind : InitialsCode) : Optimize where
  toSolution := oldSolution
  bestSolution := oldSolution
  kind := kind
  bestLog := [oldSolution.fleet]
  acts := []

/-- The vehicle at a position of the fleet. -/
def vehicle (i : ℕ) : Vehicle := o.fleet.getD i default

/-- Replaces the vehicle at a position of the fleet. -/
def setVehicle (i : ℕ) (v : Vehicle) : Optimize := { o with fleet := o.fleet.set i v }

/-- `best_solution = (*this)`. -/
def saveBest : Optimize :=
  { o with bestSolution := o.toSolution, bestLog := o.fleet :: o.bestLog }

def saveIfBest : Optimize :=
  let o := if o.toSolution.duration < o.bestSolution.duration then o.saveBest else o
  if o.fleet.length < o.bestSolution.fleet.length then o.saveBest else o

theorem fleet_saveIfBest : o.saveIfBest.fleet = o.fleet := by
  unfold saveIfBest saveBest
  extract_lets o₁
  have h : o₁.fleet = o.fleet := by
    simp only [o₁]
    split_ifs <;> rfl
  split_ifs
  · exact h
  · exact h

/-- The comparison of `sort_by_duration`. -/
def durationLt (lhs rhs : Vehicle) : Bool := decide (lhs.duration > rhs.duration)

/-- The comparison of `sort_by_size`. -/
def sizeLt (lhs rhs : Vehicle) : Bool :=
  decide (lhs.ordersInVehicle.size > rhs.ordersInVehicle.size)

def sortByDuration : Optimize := { o with fleet := S.sort durationLt o.fleet }

def sortBySize : Optimize :=
  let o := o.sortByDuration S
  { o with fleet := stableSort sizeLt o.fleet }

def deleteEmptyTruck : Optimize :=
  saveIfBest { o with fleet := o.fleet.filter fun v => !v.ordersInVehicle.isEmpty }

/-- `semiLIFO` for one depot, `hillClimb` for the other kinds. -/
def insertOrder (kind : InitialsCode) (v : Vehicle) (order : Order) : Vehicle :=
  if kind = .oneDepot then (v.semiLIFO M order).2 else (v.hillClimb M order).2

/-- `move_order` on the trucks. -/
def moveOrder (kind : InitialsCode) (order : Order) (t : Trucks) : Bool × Trucks :=
  if t.toTruck.empty then (false, t)
  else if !t.fromTruck.isPhony && t.toTruck.isPhony then (false, t)
  else if t.fromTruck.size > t.toTruck.size then (false, t)
  else
    let toTruck := insertOrder M kind t.toTruck order
    if toTruck.hasOrder order then (true, ⟨t.fromTruck.eraseOrder M order, toTruck⟩)
    else (false, ⟨t.fromTruck, toTruck⟩)

/-! ### `swapWorse` -/

section SwapWorse
variable (toPos fromPos : ℕ)

/-- Writes the copies back. -/
def keep (o : Optimize) (t : Trucks) : SwapLoop :=
  ⟨t, (o.setVehicle toPos t.toTruck).setVehicle fromPos t.fromTruck⟩

/-- The loop over the orders of the truck at `toPos`, which is left after a swap. -/
def trySwaps (fromOrder : Order) (currFromDuration : ℤ) : List ℕ → SwapLoop → SwapLoop
  | [], l => l
  | toOrderId :: rest, l =>
    let toOrder := (l.opt.vehicle toPos).orders.get toOrderId
    if !l.toTruck.hasOrder toOrder then trySwaps fromOrder currFromDuration rest l
    else
      let currToDuration := l.toTruck.duration
      let fromTruck := insertOrder M l.opt.kind (l.fromTruck.eraseOrder M fromOrder) toOrder
      let toTruck := insertOrder M l.opt.kind (l.toTruck.eraseOrder M toOrder) fromOrder
      let newFromDuration := fromTruck.duration
      let newToDuration := toTruck.duration
      let estimatedDelta :=
        -(currFromDuration + currToDuration) + (newToDuration + newFromDuration)
      let estimatedDuration := l.opt.toSolution.duration + estimatedDelta
      if (fromTruck.hasOrder toOrder && toTruck.hasOrder fromOrder) &&
          decide (newFromDuration < currFromDuration ∨ estimatedDelta < 0 ∨
            estimatedDuration < l.opt.bestSolution.duration) then
        keep toPos fromPos l.opt ⟨fromTruck, toTruck⟩
      else
        trySwaps fromOrder currFromDuration rest
          ⟨⟨l.opt.vehicle fromPos, l.opt.vehicle toPos⟩, l.opt⟩

/-- One order of the truck at `fromPos`; `toOrders` are those that the other one had at first. -/
def swapOrder (toOrders : List ℕ) (l : SwapLoop) (fromOrderId : ℕ) : SwapLoop :=
  let fromOrder := l.fromTruck.orders.get fromOrderId
  let r := moveOrder M l.opt.kind fromOrder l.toTrucks
  if r.1 then keep toPos fromPos l.opt r.2
  else trySwaps M toPos fromPos fromOrder r.2.fromTruck.duration toOrders ⟨r.2, l.opt⟩

def swapWorse : Optimize :=
  let fromTruck := o.vehicle fromPos
  let toTruck := o.vehicle toPos
  (fromTruck.ordersInVehicle.ids.foldl (swapOrder M toPos fromPos toTruck.ordersInVehicle.ids)
    ⟨⟨fromTruck, toTruck⟩, o⟩).opt

end SwapWorse

/-! ### `moveReduceCost` -/

/-- One order of the truck that wants to be shorter; the trucks are copies that stay copies. -/
def reduceOrder (l : SwapLoop) (oId : ℕ) : SwapLoop :=
  let order := l.fromTruck.orders.get oId
  let currDuration := l.fromTruck.duration + l.toTruck.duration
  let toTruck := insertOrder M l.opt.kind l.toTruck order
  if toTruck.hasOrder order then
    let fromTruck := l.fromTruck.eraseOrder M order
    let newDuration := fromTruck.duration + toTruck.duration
    if newDuration < currDuration ∨ fromTruck.empty ∨
        newDuration < l.opt.bestSolution.duration then
      ⟨⟨fromTruck, toTruck⟩, l.opt.saveIfBest⟩
    else
      ⟨⟨insertOrder M l.opt.kind fromTruck order, toTruck.eraseOrder M order⟩, l.opt⟩
  else ⟨⟨l.fromTruck, toTruck⟩, l.opt⟩

def moveReduceCost (fromPos toPos : ℕ) : Optimize :=
  let fromTruck := o.vehicle fromPos
  let toTruck := o.vehicle toPos
  if toTruck.empty then o
  else if !fromTruck.isPhony && toTruck.isPhony then o
  else (fromTruck.ordersInVehicle.ids.foldl (reduceOrder M) ⟨⟨fromTruck, toTruck⟩, o⟩).opt

/-! ### `decreaseTruck` -/

/-- The order goes to the first truck that takes it, from the truck `i` on; `passes` are left. -/
def decreaseOrder (position : ℕ) (order : Order) : ℕ → ℕ → Optimize → Optimize
  | 0, _, o => o
  | passes + 1, i, o =>
    let o := o.setVehicle i ((o.vehicle i).hillClimb M order).2
    if (o.vehicle i).hasOrder order then
      o.setVehicle position ((o.vehicle position).eraseOrder M order)
    else decreaseOrder position order passes (i + 1) o

/-- `decrease_truck(cycle)`: the orders of a truck go to the trucks before it. -/
def decreaseTruckAt (position : ℕ) : Optimize :=
  (o.vehicle position).ordersInVehicle.ids.foldl (fun o oId =>
    decreaseOrder M position ((o.vehicle position).orders.get oId) position 0 o) o

/-! ### Operations and their loops -/

/-- The fleet of the best solution is taken. -/
def takeBest : Optimize := { o with fleet := o.bestSolution.fleet }

/-- The effect of an operation; `inter_swap` leaves its inner loop at the truck itself. -/
def perform : Act → Optimize
  | .sortBySize => o.sortBySize S
  | .decreaseTruck position => o.decreaseTruckAt M position
  | .deleteEmptyTruck => o.deleteEmptyTruck
  | .saveIfBest => o.saveIfBest
  | .swapWorse toPos fromPos => if toPos < fromPos then o.swapWorse M toPos fromPos else o
  | .moveReduceCost fromPos toPos => o.moveReduceCost M fromPos toPos
  | .rotate => { o with fleet := o.fleet.rotate 1 }
  | .takeBest => o.takeBest

/-- An operation is carried out and recorded. -/
def act (a : Act) : Optimize := { o.perform S M a with acts := o.acts ++ [a] }

/-- The body of the loop of `decrease_truck`. -/
def decreaseNext (s : Bool × Optimize) (position : ℕ) : Bool × Optimize :=
  let o := s.2.act S M (.decreaseTruck position)
  ((o.vehicle position).ordersInVehicle.isEmpty || s.1, o)

/-- `decrease_truck()`, with at most `fuel` nested calls. -/
def decreaseTruck : ℕ → Optimize → Option Optimize
  | 0, _ => none
  | fuel + 1, o =>
    let r := (List.range' 1 (o.fleet.length - 1)).foldl (decreaseNext S M) (false, o)
    if r.1 then
      let o := (r.2.act S M .deleteEmptyTruck).act S M .saveIfBest
      (decreaseTruck fuel o).map fun o => o.act S M .saveIfBest
    else some (r.2.act S M .saveIfBest)

/-- The body of the two loops of `inter_swap`. -/
def interSwapPair (fromPos : ℕ) (o : Optimize) (toPos : ℕ) : Optimize :=
  (o.act S M (.swapWorse toPos fromPos)).act S M (.moveReduceCost fromPos toPos)

/-- `inter_swap()`: every truck with those before it. -/
def interSwap : Optimize :=
  let o := o.act S M .deleteEmptyTruck
  let o := (List.range o.fleet.length).foldl (fun o fromPos =>
    (List.range fromPos).foldl (interSwapPair S M fromPos) o) o
  o.act S M .deleteEmptyTruck

/-- The loop of `inter_swap(times)`. The rotation of an empty fleet reads behind its end. -/
def interSwapLoop : ℕ → Optimize → Except Fault Optimize
  | 0, o => .ok o
  | times + 1, o =>
    let o := o.interSwap S M
    if o.fleet.isEmpty then .error .undefinedRead
    else interSwapLoop times (o.act S M .rotate)

/-- `inter_swap(times)`, `none` when the fuel of `decrease_truck` is used up. -/
def interSwapTimes (fuel times : ℕ) : Option (Except Fault Optimize) :=
  ((o.act S M .sortBySize).decreaseTruck S M fuel).map fun o =>
    (o.act S M .sortBySize).interSwapLoop S M times

/-- The constructor. -/
def construct (fuel : ℕ) (oldSolution : Solution) (times : ℕ) (kind : InitialsCode) :
    Option (Except Fault Optimize) :=
  ((init oldSolution kind).interSwapTimes S M fuel times).map fun r => r.map fun o =>
    (o.act S M .takeBest).act S M .sortBySize

end Optimize

end VrpRouting.Optimizers.Simple
