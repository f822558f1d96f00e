import VrpRouting.Problem.Solution
import VrpRouting.Optimizers.TabuList

/-! # The tabu search

`Optimize` of `optimizers/tabu.cpp`. References to vehicles of `m_fleet` are positions in the fleet.
A search looks at every candidate with the fleet fixed, changing only the memory and what it has
found so far; the winner is applied to the fleet afterwards.

The field `bestLog` is not in the source: it records the fleets that `best_solution` has had. -/

open Sorting

namespace VrpRouting.Optimizers.Tabu

structure Optimize extends Solution where
  bestSolution : Solution
  tabuList : TabuList
  maxCycles : ℕ
  stopOnAllServed : Bool
  optimize : Bool
  standardLimit : ℕ
  unassignedOrders : Identifiers ℕ
  /-- The fleets of `best_solution`, the last one first. -/
  bestLog : List (List Vehicle)

/-- The orders on the phony vehicles. -/
def setUnassignedOrders (fleet : List Vehicle) : Identifiers ℕ :=
  fleet.foldl (fun u v => if v.isPhony then u.union v.ordersInVehicle else u) .empty

def areAllServed (unassigned : Identifiers ℕ) : Bool := unassigned.isEmpty

/-- What `move_2_real` has found for one order. -/
structure BestVehicle where
  bestScore : ℤ
  /-- The position of the vehicle; at the start it is the phony vehicle. -/
  bestVehicleRef : ℕ
deriving DecidableEq

/-- What a neighbourhood search has found. -/
structure SearchState where
  tabuList : TabuList
  found : Bool
  bestScore : ℤ
  bestFrom : ℕ
  bestTo : ℕ
  bestFromOrder : Order
  bestToOrder : Order
  bestCandidate1 : String
  bestCandidate2 : String
  hasPhony : Bool

namespace Optimize

variable (S : Sorter) (M : Matrix) (o : Optimize)

/-- The members before `tabu_search`. -/
def init (oldSolution : Solution) (maxCycles : ℕ) (stopOnAllServed optimize : Bool) : Optimize where
  toSolution := oldSolution
  bestSolution := oldSolution
  tabuList := .empty
  maxCycles := maxCycles
  stopOnAllServed := stopOnAllServed
  optimize := optimize
  standardLimit := 30
  unassignedOrders := .empty
  bestLog := [oldSolution.fleet]

/-- The vehicle at a position of the fleet. -/
def vehicle (i : ℕ) : Vehicle := o.fleet.getD i default

/-- Replaces the vehicle at a position of the fleet. -/
def setVehicle (i : ℕ) (v : Vehicle) : Optimize := { o with fleet := o.fleet.set i v }

/-- `best_solution = (*this)`. -/
def saveBest : Optimize :=
  { o with bestSolution := o.toSolution, bestLog := o.fleet :: o.bestLog }

def saveIfBest : Optimize :=
  if o.toSolution.objective < o.bestSolution.objective then o.saveBest else o

/-- The comparison of `sort_by_size`. -/
def sizeLt (asc : Bool) (lhs rhs : Vehicle) : Bool :=
  if lhs.ordersInVehicle.size = rhs.ordersInVehicle.size then
    if asc then decide (lhs.id < rhs.id) else decide (lhs.id > rhs.id)
  else if asc then decide (lhs.ordersInVehicle.size < rhs.ordersInVehicle.size)
  else decide (lhs.ordersInVehicle.size > rhs.ordersInVehicle.size)

/-- Sorts by the number of orders, then leaves the phony vehicles at the beginning. -/
def sortBySize (asc : Bool) : Optimize :=
  let sorted := S.sort (sizeLt asc) o.fleet
  { o with fleet := sorted.filter Vehicle.isPhony ++ sorted.filter fun v => !v.isPhony }

def deleteEmptyTruck : Optimize :=
  { o with fleet := o.fleet.filter fun v => !(v.ordersInVehicle.isEmpty && v.isPhony) }

/-! ### `move2Real` -/

/-- The vehicle at position `i` as destination of the order. -/
def tryReal (phony oId : ℕ) (b : BestVehicle) (i : ℕ) : BestVehicle :=
  let order := o.orders.get oId
  let phonyVehicle := o.vehicle phony
  let realVehicle := o.vehicle i
  if phony = i then b
  else if realVehicle.isPhony then b
  else if !realVehicle.feasibleOrders.has oId then b
  else if realVehicle.hasOrder order then b
  else
    let realVehicleCopy := (realVehicle.hillClimb M order).2
    if !realVehicleCopy.hasOrder order then b
    else
      let currTravelTime := phonyVehicle.totalTravelTime + realVehicle.totalTravelTime
      let newTravelTime := phonyVehicle.totalTravelTime + realVehicleCopy.totalTravelTime
      let estimatedObjective := o.toSolution.objective + (newTravelTime - currTravelTime)
      if b.bestScore = 0 ∨ estimatedObjective < b.bestScore then ⟨estimatedObjective, i⟩ else b

/-- The best vehicle for the order; a score of 0 stands for none. -/
def bestReal (phony oId : ℕ) : BestVehicle :=
  (List.range o.fleet.length).foldl (o.tryReal M phony oId) ⟨0, phony⟩

/-- One order of a phony vehicle. -/
def moveOrder (phony : ℕ) (s : Bool × Optimize) (oId : ℕ) : Bool × Optimize :=
  let o := s.2
  let order := o.orders.get oId
  let b := o.bestReal M phony oId
  if b.bestScore ≠ 0 then
    let o1 := o.setVehicle phony ((o.vehicle phony).eraseOrder M order)
    let o2 := o1.setVehicle b.bestVehicleRef ((o1.vehicle b.bestVehicleRef).hillClimb M order).2
    (true, saveBest { o2 with unassignedOrders := o2.unassignedOrders.erase order.idx })
  else s

/-- The vehicle at a position, as a phony one. -/
def emptyPhony (s : Bool × Optimize) (phony : ℕ) : Bool × Optimize :=
  let v := s.2.vehicle phony
  if v.isReal || v.empty then s else v.ordersInVehicle.ids.foldl (moveOrder M phony) s

def move2Real : Bool × Optimize :=
  if areAllServed o.unassignedOrders then (false, o)
  else
    let s := (List.range o.fleet.length).foldl (emptyPhony M) (false, o)
    (s.1, if s.1 then { s.2 with tabuList := s.2.tabuList.clear } else s.2)

/-! ### The neighbourhood searches -/

/-- The local variables before a search. -/
def startSearch (intensify : Bool) : SearchState where
  tabuList := o.tabuList
  found := false
  bestScore := if intensify then o.toSolution.objective else 0
  bestFrom := 0
  bestTo := 0
  bestFromOrder := o.orders.get 0
  bestToOrder := o.orders.get 0
  bestCandidate1 := ""
  bestCandidate2 := ""
  hasPhony := false

/-- The identifier of an insertion in the memory. -/
def candidate (v : Vehicle) (oId : ℕ) : String := v.pathStr ++ ":" ++ toString oId

/-- The insertion of the order `oId` of the vehicle at `i` into the one at `j`. -/
def tryInsertion (diversify : Bool) (i oId : ℕ) (s : SearchState) (j : ℕ) : SearchState :=
  let order := o.orders.get oId
  let fromVehicle := o.vehicle i
  let toV := o.vehicle j
  if i = j then s
  else if toV.isPhony then { s with hasPhony := true }
  else if !s.hasPhony && toV.empty then s
  else if !toV.feasibleOrders.has oId then s
  else
    let candidate := candidate toV oId
    if s.tabuList.hasInfeasible candidate then s
    else if diversify && s.tabuList.hasSeen candidate then s
    else
      let toVCopy := (toV.hillClimb M order).2
      if !toVCopy.hasOrder order then { s with tabuList := s.tabuList.addInfeasible candidate }
      else
        let fromVCopy := fromVehicle.eraseOrder M order
        if fromVCopy.hasOrder order || !fromVCopy.isFeasible then s
        else
          let currTravelTime := fromVehicle.totalTravelTime + toV.totalTravelTime
          let newTravelTime := fromVCopy.totalTravelTime + toVCopy.totalTravelTime
          let estimatedObjective := o.toSolution.objective + (newTravelTime - currTravelTime)
          if estimatedObjective ≥ s.bestScore ∧ ¬ fromVCopy.empty ∧ s.bestScore ≠ 0 then s
          else if s.tabuList.hasMove fromVCopy toVCopy order ∧
              estimatedObjective ≥ o.bestSolution.objective ∧ ¬ fromVCopy.empty then s
          else if estimatedObjective < s.bestScore ∨ fromVCopy.empty ∨ s.bestScore = 0 then
            { s with
              found := true
              bestScore := estimatedObjective
              bestFrom := i
              bestTo := j
              bestFromOrder := order
              bestCandidate1 := candidate }
          else s

/-- The vehicle at a position as origin of an insertion. -/
def insertionsFrom (diversify : Bool) (s : SearchState) (i : ℕ) : SearchState :=
  let fromVehicle := o.vehicle i
  if fromVehicle.isPhony || fromVehicle.empty then s
  else
    fromVehicle.ordersInVehicle.ids.foldl (fun s oId =>
      (List.range o.fleet.length).foldl (o.tryInsertion M diversify i oId) s) s

/-- The search of `single_pair_insertion`. -/
def searchInsertion (intensify diversify : Bool) : SearchState :=
  (List.range o.fleet.length).foldl (o.insertionsFrom M diversify) (o.startSearch intensify)

/-- The best insertion is done. -/
def applyInsertion (s : SearchState) : Optimize :=
  let fromV := o.vehicle s.bestFrom
  let toV := o.vehicle s.bestTo
  let order := s.bestFromOrder
  let tabuList := (s.tabuList.add (.insertion fromV toV order)).addSeen s.bestCandidate1
  let o1 := { o with tabuList := tabuList }.setVehicle s.bestTo (toV.hillClimb M order).2
  let o2 := o1.setVehicle s.bestFrom ((o1.vehicle s.bestFrom).eraseOrder M order)
  saveIfBest { o2 with
    unassignedOrders :=
      if fromV.isPhony then o2.unassignedOrders.erase order.idx else o2.unassignedOrders }

def singlePairInsertion (intensify diversify : Bool) : Bool × Optimize :=
  let o := o.sortBySize S true
  let s := o.searchInsertion M intensify diversify
  (s.found, if s.found then o.applyInsertion M s else { o with tabuList := s.tabuList })

/-- The swap of the order `oId1` of the vehicle at `i` and `oId2` of the one at `j`. -/
def trySwap (diversify : Bool) (i oId1 j : ℕ) (s : SearchState) (oId2 : ℕ) : SearchState :=
  let order1 := o.orders.get oId1
  let order2 := o.orders.get oId2
  let fromVehicle := o.vehicle i
  let toV := o.vehicle j
  if !fromVehicle.feasibleOrders.has oId2 then s
  else
    let toV1 := toV.eraseOrder M order2
    if toV1.ordersInVehicle.has oId2 || !toV1.isFeasible then s
    else
      let candidate1 := candidate toV1 oId1
      if s.tabuList.hasInfeasible candidate1 then s
      else
        let fromV1 := fromVehicle.eraseOrder M order1
        if fromV1.ordersInVehicle.has oId1 || !fromV1.isFeasible then s
        else
          let candidate2 := candidate fromV1 oId2
          if diversify && s.tabuList.hasSeen candidate1 && s.tabuList.hasSeen candidate2 then s
          else if s.tabuList.hasInfeasible candidate2 then s
          else
            let toV2 := (toV1.hillClimb M order1).2
            if !toV2.hasOrder order1 || !toV2.isFeasible then
              { s with tabuList := s.tabuList.addInfeasible candidate1 }
            else
              let fromV2 := (fromV1.hillClimb M order2).2
              if !fromV2.hasOrder order2 || !fromV2.isFeasible then
                { s with tabuList := s.tabuList.addInfeasible candidate2 }
              else
                let estimatedDelta :=
                  toV2.objective + fromV2.objective - (fromVehicle.objective + toV.objective)
                let estimatedObjective := o.toSolution.objective + estimatedDelta
                if estimatedObjective ≥ s.bestScore ∧ s.bestScore ≠ 0 then s
                else if s.tabuList.hasSwap fromV2 toV2 order1 order2 ∧
                    estimatedObjective ≥ o.bestSolution.objective then s
                else if estimatedObjective < s.bestScore ∨ s.bestScore = 0 then
                  { s with
                    found := true
                    bestScore := estimatedObjective
                    bestFrom := i
                    bestTo := j
                    bestFromOrder := order1
                    bestToOrder := order2
                    bestCandidate1 := candidate1
                    bestCandidate2 := candidate2 }
                else s

/-- The swaps of one order with those of the vehicle at `j`. -/
def swapsWith (diversify : Bool) (i oId1 : ℕ) (s : SearchState) (j : ℕ) : SearchState :=
  let toV := o.vehicle j
  if i = j then s
  else if toV.isPhony || toV.empty then s
  else if !toV.feasibleOrders.has oId1 then s
  else toV.ordersInVehicle.ids.foldl (o.trySwap M diversify i oId1 j) s

/-- The vehicle at a position as the first one of a swap. -/
def swapsFrom (diversify : Bool) (s : SearchState) (i : ℕ) : SearchState :=
  let fromVehicle := o.vehicle i
  if fromVehicle.isPhony || fromVehicle.empty then s
  else
    fromVehicle.ordersInVehicle.ids.foldl (fun s oId1 =>
      (List.range' (i + 1) (o.fleet.length - (i + 1))).foldl
        (o.swapsWith M diversify i oId1) s) s

/-- The search of `swap_between_routes`. -/
def searchSwap (intensify diversify : Bool) : SearchState :=
  (List.range o.fleet.length).foldl (o.swapsFrom M diversify) (o.startSearch intensify)

/-- The best swap is done. -/
def applySwap (s : SearchState) : Optimize :=
  let fromV := o.vehicle s.bestFrom
  let toV := o.vehicle s.bestTo
  let fromOrder := s.bestFromOrder
  let toOrder := s.bestToOrder
  let tabuList := ((s.tabuList.add (.swap fromV toV fromOrder toOrder)).addSeen
    s.bestCandidate1).addSeen s.bestCandidate2
  let o1 := { o with tabuList := tabuList }.setVehicle s.bestFrom (fromV.eraseOrder M fromOrder)
  let o2 := o1.setVehicle s.bestTo ((o1.vehicle s.bestTo).eraseOrder M toOrder)
  let o3 := o2.setVehicle s.bestFrom ((o2.vehicle s.bestFrom).hillClimb M toOrder).2
  let o4 := o3.setVehicle s.bestTo ((o3.vehicle s.bestTo).hillClimb M fromOrder).2
  let u := o4.unassignedOrders
  let u := if fromV.isPhony then (u.erase fromOrder.idx).insert toOrder.idx else u
  let u := if toV.isPhony then (u.erase toOrder.idx).insert fromOrder.idx else u
  saveIfBest { o4 with unassignedOrders := u }

def swapBetweenRoutes (intensify diversify : Bool) : Bool × Optimize :=
  let o := o.sortBySize S false
  let s := o.searchSwap M intensify diversify
  (s.found, if s.found then o.applySwap M s else { o with tabuList := s.tabuList })

/-! ### Phases of the search -/

/-- `move_2_real` when some order is not served. -/
def serve : Optimize := if areAllServed o.unassignedOrders then o else (o.move2Real M).2

/-- The first loop of `intensify`, with the last value of `do_spi`. -/
def intensifySpi : ℕ → Bool → Optimize → Bool × Optimize
  | 0, doSpi, o => (doSpi, o)
  | passes + 1, doSpi, o =>
    if !doSpi then (doSpi, o)
    else
      let r := o.singlePairInsertion S M true false
      intensifySpi passes r.1 (if r.1 then r.2.serve M else r.2)

/-- The second loop of `intensify`, which still asks the flag of the first one. -/
def intensifySbr (doSpi : Bool) : ℕ → Bool → Optimize → Optimize
  | 0, _, o => o
  | passes + 1, doSbr, o =>
    if !doSbr then o
    else
      let r := o.swapBetweenRoutes S M true false
      intensifySbr doSpi passes r.1 (if doSpi then r.2.serve M else r.2)

/-- Back to the best solution; only moves that improve it. -/
def intensify : Optimize :=
  let r := intensifySpi S M 20 true { o with fleet := o.bestSolution.fleet }
  intensifySbr S M r.1 20 true r.2

/-- One pass of `diversify`. -/
def diversifyStep : Bool × Optimize :=
  let r := o.singlePairInsertion S M false true
  let r := if !r.1 then r.2.swapBetweenRoutes S M false true else r
  let r := if !r.1 then r.2.swapBetweenRoutes S M false false else r
  (r.1, if r.1 then r.2.serve M else r.2)

def diversifyLoop : ℕ → Bool → Optimize → Bool × Optimize
  | 0, swapsWereDone, o => (swapsWereDone, o)
  | passes + 1, swapsWereDone, o =>
    if !swapsWereDone then (swapsWereDone, o)
    else
      let r := o.diversifyStep S M
      diversifyLoop passes r.1 r.2

def diversify : Bool × Optimize :=
  diversifyLoop S M (min o.fleet.length (o.orders.length / 10)) true o

def setTabuListLength : Optimize :=
  { o with tabuList := o.tabuList.setMaxLength (max o.orders.length o.standardLimit) }

end Optimize

/-! ### The main loop -/

/-- The local variables of the loop of `tabu_search`. -/
structure SearchLoop where
  opt : Optimize
  noMoves : ℕ
  diversification : Bool
  intensification : Bool
  stuckCounter : ℕ

namespace SearchLoop

variable (S : Sorter) (M : Matrix) (l : SearchLoop)

/-- The neighbourhood of the pass; `do_spi` is never changed. -/
def spi : Bool := decide (l.noMoves < 2)

/-- One move in the neighbourhood of the pass. -/
def moveStep (spi : Bool) (o : Optimize) : Bool × Optimize :=
  if spi then
    let r := o.singlePairInsertion S M false false
    let o := r.2.deleteEmptyTruck
    (r.1, if r.1 then o.serve M else o)
  else
    let r := o.swapBetweenRoutes S M false false
    (r.1, if r.1 then r.2.serve M else r.2)

/-- The check for aimless wandering. -/
def wander (currBest : ℤ) : SearchLoop :=
  if currBest = l.opt.bestSolution.objective then
    let l := { l with stuckCounter := l.stuckCounter + 1 }
    if l.stuckCounter % 100 = 0 then
      let l := { l with
        intensification := !l.intensification
        diversification := !l.diversification }
      let o := if l.intensification then l.opt.intensify S M else l.opt
      { l with opt := if l.diversification then (o.diversify S M).2 else o }
    else l
  else { l with stuckCounter := 0 }

/-- One pass of the loop; the flag says that the loop was left with `break`. -/
def cycle : Bool × SearchLoop :=
  let currBest := l.opt.bestSolution.objective
  let stuck := decide (l.stuckCounter = 1000)
  let o := if stuck then l.opt.intensify S M else l.opt
  if stuck && decide (o.bestSolution.objective = currBest) then (true, { l with opt := o })
  else
    let r := moveStep S M l.spi o
    let served := r.2.stopOnAllServed && areAllServed r.2.unassignedOrders
    if served then (true, { l with opt := r.2 })
    else
      let o := if !r.1 && !l.spi then r.2.intensify S M else r.2
      let noMoves := if !r.1 then l.noMoves + 1 else 0
      let l := { l with opt := o, noMoves := noMoves }
      if noMoves ≥ 4 then (true, l)
      else if o.stopOnAllServed && areAllServed o.unassignedOrders then (true, l)
      else (false, l.wander S M currBest)

/-- The loop, for the cycles that are left. -/
def run : ℕ → SearchLoop → SearchLoop
  | 0, l => l
  | cycles + 1, l =>
    let r := l.cycle S M
    if r.1 then r.2 else run cycles r.2

end SearchLoop

namespace Optimize

variable (S : Sorter) (M : Matrix) (o : Optimize)

/-- The beginning of `tabu_search`: the fleet is sorted, the unserved orders are collected. -/
def initialise : Optimize :=
  let o := o.sortBySize S true
  { o with unassignedOrders := setUnassignedOrders o.fleet }

def tabuSearch : Optimize :=
  let o := ((o.initialise S).move2Real M).2.deleteEmptyTruck
  if !o.optimize then o
  else if o.stopOnAllServed && areAllServed o.unassignedOrders then o
  else (SearchLoop.run S M o.maxCycles ⟨o.setTabuListLength, 0, true, false, 0⟩).opt

/-- The constructor: the search, and the best fleet at the end. -/
def construct (oldSolution : Solution) (maxCycles : ℕ) (stopOnAllServed optimize : Bool) :
    Optimize :=
  let o := ((init oldSolution maxCycles stopOnAllServed optimize).tabuSearch S M).deleteEmptyTruck
  { o with fleet := o.bestSolution.fleet }

end Optimize

end VrpRouting.Optimizers.Tabu
