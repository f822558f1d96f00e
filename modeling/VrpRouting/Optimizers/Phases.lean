import VrpRouting.Optimizers.Tabu

/-! # The phases of the tabu search

`intensify` and `diversify` are made of the two neighbourhood searches, `move_2_real` and the way back
to the best solution. What these operations keep, whatever their result (`Kept`), the phases keep. -/

open Sorting

namespace VrpRouting.Optimizers.Tabu

/-- A property of the search that every operation keeps. -/
structure Kept (S : Sorter) (M : Matrix) (P : Optimize → Prop) : Prop where
  move2Real : ∀ {o : Optimize}, P o → P (o.move2Real M).2
  singlePairInsertion : ∀ {o : Optimize} (i d : Bool), P o → P (o.singlePairInsertion S M i d).2
  swapBetweenRoutes : ∀ {o : Optimize} (i d : Bool), P o → P (o.swapBetweenRoutes S M i d).2
  /-- `m_fleet = best_solution.fleet()`. -/
  reset : ∀ {o : Optimize}, P o → P { o with fleet := o.bestSolution.fleet }
  deleteEmptyTruck : ∀ {o : Optimize}, P o → P o.deleteEmptyTruck
  setTabuListLength : ∀ {o : Optimize}, P o → P o.setTabuListLength

namespace Kept

variable {S : Sorter} {M : Matrix} {P : Optimize → Prop} (hP : Kept S M P) {o : Optimize}
include hP

theorem serve (h : P o) : P (o.serve M) := iteInduction (fun _ => h) fun _ => hP.move2Real h

/-- A move, and `serve` when it asks for it. -/
theorem serveIf (b : Bool) (h : P o) : P (if b then o.serve M else o) :=
  iteInduction (fun _ => hP.serve h) fun _ => h

theorem intensifySpi : ∀ (passes : ℕ) (doSpi : Bool) {o : Optimize}, P o →
    P (Optimize.intensifySpi S M passes doSpi o).2
  | 0, _, _, h => h
  | passes + 1, doSpi, _, h => by
    unfold Optimize.intensifySpi
    refine iteInduction (motive := fun r : Bool × Optimize => P r.2) (fun _ => h) fun _ => ?_
    exact intensifySpi passes _ (hP.serveIf _ (hP.singlePairInsertion true false h))

theorem intensifySbr (doSpi : Bool) : ∀ (passes : ℕ) (doSbr : Bool) {o : Optimize}, P o →
    P (Optimize.intensifySbr S M doSpi passes doSbr o)
  | 0, _, _, h => h
  | passes + 1, doSbr, _, h => by
    unfold Optimize.intensifySbr
    refine iteInduction (fun _ => h) fun _ => ?_
    exact intensifySbr doSpi passes _ (hP.serveIf _ (hP.swapBetweenRoutes true false h))

theorem intensify (h : P o) : P (o.intensify S M) :=
  hP.intensifySbr _ 20 true (hP.intensifySpi 20 true (hP.reset h))

theorem diversifyStep (h : P o) : P (o.diversifyStep S M).2 := by
  unfold Optimize.diversifyStep
  extract_lets r r1 r2
  have h0 : P r.2 := hP.singlePairInsertion false true h
  have h1 : P r1.2 := iteInduction (motive := fun r : Bool × Optimize => P r.2)
    (fun _ => hP.swapBetweenRoutes false true h0) fun _ => h0
  have h2 : P r2.2 := iteInduction (motive := fun r : Bool × Optimize => P r.2)
    (fun _ => hP.swapBetweenRoutes false false h1) fun _ => h1
  exact hP.serveIf _ h2

theorem diversifyLoop : ∀ (passes : ℕ) (b : Bool) {o : Optimize}, P o →
    P (Optimize.diversifyLoop S M passes b o).2
  | 0, _, _, h => h
  | passes + 1, b, _, h => by
    unfold Optimize.diversifyLoop
    refine iteInduction (motive := fun r : Bool × Optimize => P r.2) (fun _ => h) fun _ => ?_
    exact diversifyLoop passes _ (hP.diversifyStep h)

theorem diversify (h : P o) : P (o.diversify S M).2 := hP.diversifyLoop _ true h

end Kept

/-- The states of the search between its operations, from `start` on. -/
inductive SearchedFrom (S : Sorter) (M : Matrix) (start : Optimize) : Optimize → Prop
  | start : SearchedFrom S M start start
  | move2Real {o : Optimize} (h : SearchedFrom S M start o) : SearchedFrom S M start (o.move2Real M).2
  | singlePairInsertion {o : Optimize} (i d : Bool) (h : SearchedFrom S M start o) :
      SearchedFrom S M start (o.singlePairInsertion S M i d).2
  | swapBetweenRoutes {o : Optimize} (i d : Bool) (h : SearchedFrom S M start o) :
      SearchedFrom S M start (o.swapBetweenRoutes S M i d).2
  | reset {o : Optimize} (h : SearchedFrom S M start o) :
      SearchedFrom S M start { o with fleet := o.bestSolution.fleet }
  | deleteEmptyTruck {o : Optimize} (h : SearchedFrom S M start o) :
      SearchedFrom S M start o.deleteEmptyTruck
  | setTabuListLength {o : Optimize} (h : SearchedFrom S M start o) :
      SearchedFrom S M start o.setTabuListLength

/-- The phases go through states that are visited. -/
theorem searchedFrom_kept (S : Sorter) (M : Matrix) (start : Optimize) :
    Kept S M (SearchedFrom S M start) where
  move2Real := .move2Real
  singlePairInsertion := .singlePairInsertion
  swapBetweenRoutes := .swapBetweenRoutes
  reset := .reset
  deleteEmptyTruck := .deleteEmptyTruck
  setTabuListLength := .setTabuListLength

/-- **What the operations keep holds in every state that is visited.** -/
theorem SearchedFrom.of_kept {S : Sorter} {M : Matrix} {P : Optimize → Prop} (hP : Kept S M P)
    {start o : Optimize} (h : SearchedFrom S M start o) (h0 : P start) : P o := by
  induction h with
  | start => exact h0
  | move2Real _ ih => exact hP.move2Real ih
  | singlePairInsertion i d _ ih => exact hP.singlePairInsertion i d ih
  | swapBetweenRoutes i d _ ih => exact hP.swapBetweenRoutes i d ih
  | reset _ ih => exact hP.reset ih
  | deleteEmptyTruck _ ih => exact hP.deleteEmptyTruck ih
  | setTabuListLength _ ih => exact hP.setTabuListLength ih

end VrpRouting.Optimizers.Tabu
