import VrpRouting.Driver.Optimize
import VrpRouting.Optimizers.Estimates

/-! # Intensification

With `intensify` a search starts from the objective of the fleet. Still it takes some moves whatever
their estimate: those that empty their origin, and those after an estimate of 0, which stands for
none. A call improves the objective exactly when something better than the start follows each of
these (`intensify_improves`), and while the calls improve it the objective decreases along the passes
of `intensify`, as long as `move_2_real` has no success. -/

open Sorting BestSoFar

namespace VrpRouting.Optimizers.Tabu

namespace Optimize

variable (S : Sorter) (M : Matrix) (o : Optimize)

/-- An insertion that is taken whatever its estimate is followed by one that improves the
objective. -/
def InsertionsImprove (d : Bool) : Prop :=
  ∀ A r B, o.admissibleInsertions M d = A ++ r :: B →
    Restarts (o.insertionEstimate M) (o.Empties M) o.toSolution.objective A r →
    ∃ x ∈ r :: B, o.insertionEstimate M x < o.toSolution.objective

/-- A swap that is taken whatever its estimate is followed by one that improves the objective. -/
def SwapsImprove (d : Bool) : Prop :=
  ∀ A r B, o.admissibleSwaps M d = A ++ r :: B →
    Restarts (o.swapEstimate M) (fun _ => False) o.toSolution.objective A r →
    ∃ x ∈ r :: B, o.swapEstimate M x < o.toSolution.objective

variable {S M o}

/-- A call that makes the best move, when there is one, gives less than `start` exactly when the
score of the best move is below it. -/
theorem call_improves_iff {ι : Type*} {score : ι → ℤ} {start result : ℤ} {best : Option ι}
    {found : Bool} (hfound : found = best.isSome)
    (hmade : found = true → ∃ c, best = some c ∧ result = score c) :
    (found = true → result < start) ↔ ∀ w, best = some w → score w < start := by
  constructor
  · intro h w hw
    have htrue : found = true := by rw [hfound, hw]; rfl
    obtain ⟨c, hc, hresult⟩ := hmade htrue
    obtain rfl := Option.some.inj (hw.symm.trans hc)
    exact hresult ▸ h htrue
  · intro h htrue
    obtain ⟨c, hc, hresult⟩ := hmade htrue
    rw [hresult]
    exact h c hc

theorem singlePairInsertion_improves_iff (d : Bool) :
    ((o.singlePairInsertion S M true d).1 = true →
      (o.singlePairInsertion S M true d).2.toSolution.objective < o.toSolution.objective) ↔
    (o.sortBySize S true).InsertionsImprove M d := by
  unfold InsertionsImprove
  rw [← lt_iff, ← objective_sortBySize (S := S) (o := o) true]
  refine call_improves_iff ((o.sortBySize S true).searchInsertion_shows M true d).2.found
    fun hfound => ?_
  obtain ⟨c, -, hbest, hmade⟩ := singlePairInsertion_made hfound
  exact ⟨c, congrArg Prod.snd hbest, hmade.objective⟩

theorem swapBetweenRoutes_improves_iff (d : Bool) :
    ((o.swapBetweenRoutes S M true d).1 = true →
      (o.swapBetweenRoutes S M true d).2.toSolution.objective < o.toSolution.objective) ↔
    (o.sortBySize S false).SwapsImprove M d := by
  unfold SwapsImprove
  rw [← lt_iff, ← objective_sortBySize (S := S) (o := o) false]
  refine call_improves_iff ((o.sortBySize S false).searchSwap_shows M true d).2.found
    fun hfound => ?_
  obtain ⟨c, -, hbest, hmade⟩ := swapBetweenRoutes_made hfound
  exact ⟨c, congrArg Prod.snd hbest, hmade.objective⟩

/-! ### `move_2_real` without success -/

theorem moveOrder_eq_or (phony oId : ℕ) (s : Bool × Optimize) :
    moveOrder M phony s oId = s ∨ (moveOrder M phony s oId).1 = true := by
  unfold moveOrder
  dsimp only
  split_ifs
  · exact Or.inr rfl
  · exact Or.inl rfl

/-- `move_2_real` changes nothing when it returns false. -/
theorem move2Real_of_false (h : (o.move2Real M).1 = false) : (o.move2Real M).2 = o := by
  have hfold : ∀ s : Bool × Optimize, s = (List.range o.fleet.length).foldl (emptyPhony M) (false, o) →
      s.1 = true ∨ s = (false, o) := by
    rintro s rfl
    refine List.foldlRecOn (motive := fun s : Bool × Optimize => s.1 = true ∨ s = (false, o)) _
      (emptyPhony M) (Or.inr rfl) fun s hs phony _ => ?_
    unfold emptyPhony
    extract_lets v
    split_ifs
    · exact hs
    · refine List.foldlRecOn (motive := fun s : Bool × Optimize => s.1 = true ∨ s = (false, o)) _
        (moveOrder M phony) hs fun s hs oId _ => ?_
      rcases moveOrder_eq_or phony oId s with heq | htrue
      · rwa [heq]
      · exact Or.inl htrue
  unfold move2Real at h ⊢
  split_ifs at h ⊢ with hserved
  · rfl
  · rcases hfold _ rfl with htrue | heq
    · rw [htrue] at h
      cases h
    · rw [heq]
      rfl

theorem serve_of_false (h : (o.move2Real M).1 = false) : o.serve M = o := by
  unfold serve
  rw [move2Real_of_false h, ite_self]

end Optimize

open Optimize

/-! ### The passes of `intensify` -/

/-- A pass of the first loop, or one of the second loop with the flag of the first one. -/
inductive Pass
  | spi
  | sbr (doSpi : Bool)
deriving DecidableEq, Repr

namespace Pass

variable (S : Sorter) (M : Matrix) (o : Optimize)

/-- The search of the pass. -/
def search : Pass → Bool × Optimize
  | .spi => o.singlePairInsertion S M true false
  | .sbr _ => o.swapBetweenRoutes S M true false

/-- The pass goes on with `move_2_real`. -/
def asks : Pass → Bool
  | .spi => (Pass.spi.search S M o).1
  | .sbr doSpi => doSpi

def next (p : Pass) : Optimize :=
  if p.asks S M o then (p.search S M o).2.serve M else (p.search S M o).2

/-- `move_2_real` has a success. -/
def Succeeds (p : Pass) : Prop :=
  p.asks S M o = true ∧ ((p.search S M o).2.move2Real M).1 = true

/-- The condition under which the search of the pass improves the objective. -/
def Improves : Pass → Prop
  | .spi => (o.sortBySize S true).InsertionsImprove M false
  | .sbr _ => (o.sortBySize S false).SwapsImprove M false

end Pass

section Passes
variable (S : Sorter) (M : Matrix)

def runPasses (o : Optimize) (ps : List Pass) : Optimize := ps.foldl (fun o p => p.next S M o) o

/-- The passes of the first loop. -/
def passesSpi : ℕ → Bool → Optimize → List Pass
  | 0, _, _ => []
  | passes + 1, doSpi, o =>
    if !doSpi then []
    else .spi :: passesSpi passes (Pass.spi.search S M o).1 (Pass.spi.next S M o)

/-- The passes of the second loop. -/
def passesSbr (doSpi : Bool) : ℕ → Bool → Optimize → List Pass
  | 0, _, _ => []
  | passes + 1, doSbr, o =>
    if !doSbr then []
    else .sbr doSpi :: passesSbr doSpi passes ((Pass.sbr doSpi).search S M o).1
      ((Pass.sbr doSpi).next S M o)

/-- The passes of `intensify`, after it went back to the best solution. -/
def intensifyPasses (o : Optimize) : List Pass :=
  let r := intensifySpi S M 20 true o
  passesSpi S M 20 true o ++ passesSbr S M r.1 20 true r.2

/-- In every pass the search improves the objective, and `move_2_real` has no success. -/
def Calm : Optimize → List Pass → Prop
  | _, [] => True
  | o, p :: ps => p.Improves S M o ∧ ¬ p.Succeeds S M o ∧ Calm (p.next S M o) ps

/-- The number of passes whose search returns true. -/
def moves : Optimize → List Pass → ℕ
  | _, [] => 0
  | o, p :: ps => (p.search S M o).1.toNat + moves (p.next S M o) ps

variable {S M}

theorem runPasses_append (o : Optimize) (ps qs : List Pass) :
    runPasses S M o (ps ++ qs) = runPasses S M (runPasses S M o ps) qs := List.foldl_append ..

theorem passesSpi_run : ∀ (passes : ℕ) (doSpi : Bool) (o : Optimize),
    runPasses S M o (passesSpi S M passes doSpi o) = (intensifySpi S M passes doSpi o).2
  | 0, _, _ => rfl
  | passes + 1, doSpi, o => by
    unfold passesSpi intensifySpi
    cases doSpi with
    | false => rfl
    | true => exact passesSpi_run passes _ _

theorem passesSbr_run (doSpi : Bool) : ∀ (passes : ℕ) (doSbr : Bool) (o : Optimize),
    runPasses S M o (passesSbr S M doSpi passes doSbr o) =
      intensifySbr S M doSpi passes doSbr o
  | 0, _, _ => rfl
  | passes + 1, doSbr, o => by
    unfold passesSbr intensifySbr
    cases doSbr with
    | false => rfl
    | true => exact passesSbr_run doSpi passes _ _

/-- **`intensify` runs its passes.** -/
theorem intensifyPasses_run (o : Optimize) :
    runPasses S M { o with fleet := o.bestSolution.fleet }
      (intensifyPasses S M { o with fleet := o.bestSolution.fleet }) = o.intensify S M := by
  unfold intensifyPasses Optimize.intensify
  rw [runPasses_append, passesSpi_run, passesSbr_run]

/-- The search of a pass that improves the objective, when it makes a move. -/
theorem Pass.search_objective {p : Pass} {o : Optimize} (h : p.Improves S M o) :
    (p.search S M o).2.toSolution.objective + (p.search S M o).1.toNat ≤ o.toSolution.objective := by
  have hle : ∀ {b : Bool} {x y : ℤ}, (b = true → x < y) → (b = false → x = y) → x + b.toNat ≤ y := by
    intro b x y htrue hfalse
    cases b with
    | false => simp [hfalse rfl]
    | true => exact Int.add_one_le_of_lt (htrue rfl)
  cases p with
  | spi => exact hle ((singlePairInsertion_improves_iff false).mpr h) objective_singlePairInsertion
  | sbr doSpi => exact hle ((swapBetweenRoutes_improves_iff false).mpr h) objective_swapBetweenRoutes

theorem Pass.next_of_not_succeeds {p : Pass} {o : Optimize} (h : ¬ p.Succeeds S M o) :
    p.next S M o = (p.search S M o).2 := by
  unfold Pass.next
  split_ifs with hasks
  · exact serve_of_false (by simpa [Pass.Succeeds, hasks] using h)
  · rfl

/-- **Along calm passes** the objective decreases with every move. -/
theorem Calm.objective : ∀ {ps : List Pass} {o : Optimize}, Calm S M o ps →
    (runPasses S M o ps).toSolution.objective + moves S M o ps ≤ o.toSolution.objective
  | [], o, _ => by simp [runPasses, moves]
  | p :: ps, o, ⟨himp, hsucc, hcalm⟩ => by
    have hp := Pass.search_objective himp
    have hps := Calm.objective hcalm
    rw [← Pass.next_of_not_succeeds hsucc] at hp
    have hrun : runPasses S M o (p :: ps) = runPasses S M (p.next S M o) ps := rfl
    rw [hrun]
    simp only [moves]
    push_cast
    omega

end Passes

/-- **Intensification improves the objective.** A call with `intensify` that returns true improves
the objective exactly when something better follows every move that is taken whatever its estimate;
and when the calls of successive passes of `intensify` do, the objective decreases with every move as
long as `move_2_real` has no success. -/
theorem intensify_improves (S : Sorter) (M : Matrix) (o : Optimize) :
    (∀ d, ((o.singlePairInsertion S M true d).1 = true →
        (o.singlePairInsertion S M true d).2.toSolution.objective < o.toSolution.objective) ↔
      (o.sortBySize S true).InsertionsImprove M d) ∧
    (∀ d, ((o.swapBetweenRoutes S M true d).1 = true →
        (o.swapBetweenRoutes S M true d).2.toSolution.objective < o.toSolution.objective) ↔
      (o.sortBySize S false).SwapsImprove M d) ∧
    let start : Optimize := { o with fleet := o.bestSolution.fleet }
    runPasses S M start (intensifyPasses S M start) = o.intensify S M ∧
      ∀ A B C, intensifyPasses S M start = A ++ B ++ C → Calm S M (runPasses S M start A) B →
        (runPasses S M start (A ++ B)).toSolution.objective + moves S M (runPasses S M start A) B ≤
          (runPasses S M start A).toSolution.objective := by
  refine ⟨singlePairInsertion_improves_iff, swapBetweenRoutes_improves_iff, intensifyPasses_run o, ?_⟩
  intro A B C _ hcalm
  rw [runPasses_append]
  exact hcalm.objective

/-! ### Two vehicles with one order each -/

/-- Two real vehicles of capacity 2, with one order each. -/
def roomySolution : Solution :=
  ⟨[{ smallVehicle 0 7 with capacity := 2 }, { smallVehicle 1 8 with capacity := 2 }], smallOrders,
    ⟨[], .empty, .empty, .empty⟩⟩

/-- The first pass brings the two orders together. -/
theorem intensify_improves_small :
    let o := started .insertion roomySolution 0 false true
    moves .insertion twoSites o [.spi] = 1 ∧
      (runPasses .insertion twoSites o [.spi]).toSolution.objective + moves .insertion twoSites o
        [.spi] ≤ o.toSolution.objective := by
  have himp := ((intensify_improves .insertion twoSites
    (started .insertion roomySolution 0 false true)).1 false).mp fun _ => by decide +kernel
  refine ⟨by decide +kernel, ?_⟩
  exact (intensify_improves .insertion twoSites (started .insertion roomySolution 0 false true)).2.2.2
    [] [.spi] _ rfl ⟨himp, fun h => absurd h.2 (by decide +kernel), trivial⟩

open Initialsol.Tabu

def twoVehicles : List VehicleT := [smallVehicleData 7 [1, 1], smallVehicleData 8 [2, 2]]

/-- With capacity 1 an order goes to the other vehicle for the same objective, as its origin is empty
then. -/
theorem intensify_improves_fails : ∃ p sol,
    PickDeliver.build .insertion twoSites [smallOrderData 1 100, smallOrderData 2 100] twoVehicles
      (Driver.getInitialStops twoVehicles) = .ok p ∧
    InitialSolution.construct twoSites 0 true p = .ok sol ∧
    let o := started .insertion sol.toSolution 3 false true
    (o.singlePairInsertion .insertion twoSites true false).1 = true ∧
      ¬ (o.singlePairInsertion .insertion twoSites true false).2.toSolution.objective <
        o.toSolution.objective := by
  obtain ⟨p, sol, hp, hsol, hq⟩ := exists_ok_bind_and (x := PickDeliver.build .insertion twoSites
    [smallOrderData 1 100, smallOrderData 2 100] twoVehicles (Driver.getInitialStops twoVehicles))
    (f := InitialSolution.construct twoSites 0 true)
    (fun sol => let o := started .insertion sol.toSolution 3 false true
      decide ((o.singlePairInsertion .insertion twoSites true false).1 = true ∧
        ¬ (o.singlePairInsertion .insertion twoSites true false).2.toSolution.objective <
          o.toSolution.objective)) (by decide +kernel)
  exact ⟨p, sol, hp, hsol, of_decide_eq_true hq⟩

end VrpRouting.Optimizers.Tabu
