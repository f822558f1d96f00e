import VrpRouting.Optimizers.Neighbourhoods

/-! # Runs of the tabu search

A run is any sequence of operations. The main loop of `tabu_search`, for every number of cycles and
all flags, is one of them (`tabuSearch_run`), and the solution that the constructor leaves is the
best one of the run (`construct_run`). So what is proved for every run holds between any two
operations of the program and at its end. -/

open Sorting

namespace VrpRouting.Optimizers.Tabu

/-- The operations of `Optimize`. -/
inductive Op
  | move2Real
  | singlePairInsertion (intensify diversify : Bool)
  | swapBetweenRoutes (intensify diversify : Bool)
  | intensify
  | diversify
  | deleteEmptyTruck
  | setTabuListLength
deriving DecidableEq, Repr

variable (S : Sorter) (M : Matrix)

def perform (o : Optimize) : Op → Optimize
  | .move2Real => (o.move2Real M).2
  | .singlePairInsertion i d => (o.singlePairInsertion S M i d).2
  | .swapBetweenRoutes i d => (o.swapBetweenRoutes S M i d).2
  | .intensify => o.intensify S M
  | .diversify => (o.diversify S M).2
  | .deleteEmptyTruck => o.deleteEmptyTruck
  | .setTabuListLength => o.setTabuListLength

/-- The operations, one after the other. -/
def run (o : Optimize) (ops : List Op) : Optimize := ops.foldl (perform S M) o

variable {S M} in
theorem Kept.perform {P : Optimize → Prop} (hP : Kept S M P) {o : Optimize} (h : P o) :
    ∀ op, P (Tabu.perform S M o op)
  | .move2Real => hP.move2Real h
  | .singlePairInsertion i d => hP.singlePairInsertion i d h
  | .swapBetweenRoutes i d => hP.swapBetweenRoutes i d h
  | .intensify => hP.intensify h
  | .diversify => hP.diversify h
  | .deleteEmptyTruck => hP.deleteEmptyTruck h
  | .setTabuListLength => hP.setTabuListLength h

variable {S M} in
/-- **What the operations keep, runs keep.** -/
theorem Kept.run {P : Optimize → Prop} (hP : Kept S M P) {o : Optimize} (h : P o) (ops : List Op) :
    P (Tabu.run S M o ops) := List.foldlRecOn ops _ h fun _ h op _ => hP.perform h op

/-- **A run is a sequence of steps.** -/
theorem run_sim (ops : List Op) {o : Optimize} (hr : o.Ready) : Sim M o (run S M o ops) :=
  (Optimize.sim_kept S M hr).run (.refl M o) ops

/-! ### The main loop is a run -/

/-- `o'` is the end of a run from `o`. -/
def Reaches (o o' : Optimize) : Prop := ∃ ops, run S M o ops = o'

variable {S M} {o o₁ o₂ : Optimize}

theorem Reaches.refl (o : Optimize) : Reaches S M o o := ⟨[], rfl⟩

theorem Reaches.trans (h : Reaches S M o o₁) (h' : Reaches S M o₁ o₂) : Reaches S M o o₂ := by
  obtain ⟨ops, rfl⟩ := h
  obtain ⟨ops', rfl⟩ := h'
  exact ⟨ops ++ ops', List.foldl_append ..⟩

theorem Reaches.perform (h : Reaches S M o o₁) (op : Op) : Reaches S M o (perform S M o₁ op) :=
  h.trans ⟨[op], rfl⟩

theorem Reaches.ite {c : Prop} [Decidable c] (h : Reaches S M o o₁) (h' : Reaches S M o o₂) :
    Reaches S M o (if c then o₁ else o₂) := iteInduction (fun _ => h) fun _ => h'

theorem Reaches.serve (h : Reaches S M o o₁) : Reaches S M o (o₁.serve M) :=
  h.ite (h.perform .move2Real)

theorem moveStep_reaches (spi : Bool) (h : Reaches S M o o₁) :
    Reaches S M o (SearchLoop.moveStep S M spi o₁).2 := by
  unfold SearchLoop.moveStep
  refine iteInduction (motive := fun r : Bool × Optimize => Reaches S M o r.2) (fun _ => ?_)
    fun _ => ?_
  · have h1 := (h.perform (.singlePairInsertion false false)).perform .deleteEmptyTruck
    exact h1.serve.ite h1
  · have h1 := h.perform (.swapBetweenRoutes false false)
    exact h1.serve.ite h1

theorem wander_reaches {l : SearchLoop} (best : ℤ) (h : Reaches S M o l.opt) :
    Reaches S M o (l.wander S M best).opt := by
  unfold SearchLoop.wander
  refine iteInduction (motive := fun l : SearchLoop => Reaches S M o l.opt) (fun _ => ?_) fun _ => h
  refine iteInduction (motive := fun l : SearchLoop => Reaches S M o l.opt) (fun _ => ?_) fun _ => h
  have h1 := (h.perform .intensify).ite (c := (!l.intensification) = true) h
  exact (h1.perform .diversify).ite h1

theorem cycle_reaches {l : SearchLoop} (h : Reaches S M o l.opt) :
    Reaches S M o (l.cycle S M).2.opt := by
  unfold SearchLoop.cycle
  extract_lets best stuck o1 r served o2 noMoves l1
  have h1 : Reaches S M o o1 := (h.perform .intensify).ite h
  have h2 : Reaches S M o r.2 := moveStep_reaches _ h1
  have h3 : Reaches S M o o2 := (h2.perform .intensify).ite h2
  refine iteInduction (motive := fun r : Bool × SearchLoop => Reaches S M o r.2.opt)
    (fun _ => h1) fun _ => ?_
  refine iteInduction (motive := fun r : Bool × SearchLoop => Reaches S M o r.2.opt)
    (fun _ => h2) fun _ => ?_
  refine iteInduction (motive := fun r : Bool × SearchLoop => Reaches S M o r.2.opt)
    (fun _ => h3) fun _ => ?_
  refine iteInduction (motive := fun r : Bool × SearchLoop => Reaches S M o r.2.opt)
    (fun _ => h3) fun _ => ?_
  exact wander_reaches best h3

theorem searchLoop_reaches : ∀ (cycles : ℕ) (l : SearchLoop), Reaches S M o l.opt →
    Reaches S M o (l.run S M cycles).opt
  | 0, _, h => h
  | cycles + 1, l, h => by
    have h1 := cycle_reaches h
    unfold SearchLoop.run
    refine iteInduction (motive := fun l : SearchLoop => Reaches S M o l.opt) (fun _ => h1)
      fun _ => ?_
    exact searchLoop_reaches cycles _ h1

variable (S M)

/-- `tabu_search` is a run from the initialised state. -/
theorem tabuSearch_run (o : Optimize) :
    ∃ ops, o.tabuSearch S M = run S M (o.initialise S) ops := by
  have h1 := ((Reaches.refl (S := S) (M := M) (o.initialise S)).perform .move2Real).perform
    .deleteEmptyTruck
  have h : Reaches S M (o.initialise S) (o.tabuSearch S M) := by
    unfold Optimize.tabuSearch
    refine iteInduction (fun _ => h1) fun _ => iteInduction (fun _ => h1) fun _ => ?_
    exact searchLoop_reaches _ _ (h1.perform .setTabuListLength)
  obtain ⟨ops, hops⟩ := h
  exact ⟨ops, hops.symm⟩

/-- The state in which `tabu_search` has initialised the search. -/
def started (sol : Solution) (maxCycles : ℕ) (stopOnAllServed optimize : Bool) : Optimize :=
  (Optimize.init sol maxCycles stopOnAllServed optimize).initialise S

/-- The constructor leaves the best solution of a run, in both of its fleets. -/
theorem construct_run (sol : Solution) (maxCycles : ℕ) (stopOnAllServed optimize : Bool) :
    ∃ ops, let o := run S M (started S sol maxCycles stopOnAllServed optimize) ops
      (Optimize.construct S M sol maxCycles stopOnAllServed optimize).fleet = o.bestSolution.fleet ∧
      (Optimize.construct S M sol maxCycles stopOnAllServed optimize).bestSolution =
        o.bestSolution ∧
      (Optimize.construct S M sol maxCycles stopOnAllServed optimize).bestLog = o.bestLog := by
  obtain ⟨ops, hops⟩ := tabuSearch_run S M (Optimize.init sol maxCycles stopOnAllServed optimize)
  refine ⟨ops, ?_⟩
  unfold started
  rw [← hops]
  exact ⟨rfl, rfl, rfl⟩

theorem started_perm (sol : Solution) (maxCycles : ℕ) (stopOnAllServed optimize : Bool) :
    (started S sol maxCycles stopOnAllServed optimize).fleet.Perm sol.fleet :=
  (Optimize.init sol maxCycles stopOnAllServed optimize).sortBySize_perm S true

end VrpRouting.Optimizers.Tabu

namespace VrpRouting

open Optimizers.Tabu

/-- The search starts in a state from which every operation makes steps. -/
theorem Solution.Valid.ready {sol : Solution} (h : sol.Valid) (S : Sorter) (maxCycles : ℕ)
    (stopOnAllServed optimize : Bool) :
    (started S sol maxCycles stopOnAllServed optimize).Ready where
  orders := h.orders
  view :=
    { fleet := fun v hv =>
        h.fleet v ((started_perm S sol maxCycles stopOnAllServed optimize).mem_iff.mp hv)
      best := h.fleet }

/-- **The run lemma.** What holds at the start and is kept by every step holds between any two
operations; and the constructor leaves the best fleet of a state where it holds. -/
theorem Solution.Valid.run_invariant {sol : Solution} (hv : sol.Valid) (S : Sorter) (M : Matrix)
    (maxCycles : ℕ) (stopOnAllServed optimize : Bool) {P : View → Prop}
    (hstep : ∀ s s', s.Ready sol.orders → P s → Step M sol.orders s s' → P s')
    (hstart : P (started S sol maxCycles stopOnAllServed optimize).view) :
    (∀ ops, P (run S M (started S sol maxCycles stopOnAllServed optimize) ops).view) ∧
      ∃ s, P s ∧
        (Optimize.construct S M sol maxCycles stopOnAllServed optimize).fleet = s.best ∧
        (Optimize.construct S M sol maxCycles stopOnAllServed optimize).bestSolution.fleet = s.best ∧
        (Optimize.construct S M sol maxCycles stopOnAllServed optimize).bestLog = s.log := by
  have hr := hv.ready S maxCycles stopOnAllServed optimize
  have hrun : ∀ ops, P (run S M (started S sol maxCycles stopOnAllServed optimize) ops).view :=
    fun ops => ((run_sim S M ops hr).steps.invariant (P := fun s => s.Ready sol.orders ∧ P s)
      (fun _ _ hs hst => ⟨hst.ready hv.orders hs.1, hstep _ _ hs.1 hs.2 hst⟩) ⟨hr.view, hstart⟩).2
  obtain ⟨ops, h1, h2, h3⟩ := construct_run S M sol maxCycles stopOnAllServed optimize
  exact ⟨hrun, _, hrun ops, h1, congrArg Solution.fleet h2, h3⟩

end VrpRouting
