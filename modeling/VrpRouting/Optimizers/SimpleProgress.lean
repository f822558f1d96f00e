import Mathlib.Algebra.BigOperators.Group.List.Basic
import Mathlib.Algebra.Ring.Int.Defs
import VrpRouting.Optimizers.Conservation
import VrpRouting.Optimizers.SimpleRuns

/-! # The simple optimizer never makes a solution worse

The score of a fleet is its number of vehicles, then its duration. `save_if_best` compares the two
in separate branches. No operation adds a vehicle, so the fleet never has more vehicles than the
best one (`Improves.length`), and then a smaller duration is a smaller score. -/

open Sorting

namespace VrpRouting.Optimizers.Simple

open Optimize
open Initialsol.Simple (InitialsCode)

/-- Number of vehicles, then duration, in lexicographic order. -/
def score (F : List Vehicle) : ℕ ×ₗ ℤ := toLex (F.length, fleetDuration F)

theorem score_perm {F F' : List Vehicle} (h : F.Perm F') : score F = score F' := by
  unfold score fleetDuration
  rw [h.length_eq, (h.map _).sum_eq]

/-- The best fleet, with its history: each replacement of the fleet `F₀` has decreased the score. -/
structure Improves (F₀ : List Vehicle) (o : Optimize) : Prop where
  length : o.fleet.length ≤ o.bestSolution.fleet.length
  head : o.bestLog.head? = some o.bestSolution.fleet
  last : o.bestLog.getLast? = some F₀
  decreasing : o.bestLog.Pairwise fun newer older => score newer < score older

theorem Improves.init (sol : Solution) (kind : InitialsCode) :
    Improves sol.fleet (Optimize.init sol kind) :=
  ⟨le_rfl, rfl, rfl, List.pairwise_singleton _ _⟩

section Improves
variable {F₀ : List Vehicle} {o o' : Optimize} (h : Improves F₀ o)
include h

/-- A fleet with a smaller score becomes the best one. -/
theorem Improves.saveBest (hlt : score o.fleet < score o.bestSolution.fleet) :
    Improves F₀ o.saveBest where
  length := le_rfl
  head := rfl
  last := by
    obtain ⟨rest, hrest⟩ := List.head?_eq_some_iff.mp h.head
    show (o.fleet :: o.bestLog).getLast? = _
    rw [hrest, List.getLast?_cons_cons, ← hrest]
    exact h.last
  decreasing := by
    obtain ⟨rest, hrest⟩ := List.head?_eq_some_iff.mp h.head
    refine List.pairwise_cons.mpr ⟨fun F hF => ?_, h.decreasing⟩
    have hlog := h.decreasing
    rw [hrest] at hF hlog
    rcases List.mem_cons.mp hF with rfl | hF
    · exact hlt
    · exact hlt.trans ((List.pairwise_cons.mp hlog).1 F hF)

/-- **`save_if_best`** replaces the best fleet by one with a smaller score. -/
theorem Improves.saveIfBest : Improves F₀ o.saveIfBest := by
  unfold Optimize.saveIfBest
  extract_lets o₁
  have h₁ : Improves F₀ o₁ := by
    simp only [o₁]
    split_ifs with hd
    · refine h.saveBest (Prod.Lex.toLex_lt_toLex.mpr ?_)
      rcases h.length.lt_or_eq with hl | hl
      · exact Or.inl hl
      · exact Or.inr ⟨hl, hd⟩
    · exact h
  split_ifs with hl
  · exact h₁.saveBest (Prod.Lex.toLex_lt_toLex.mpr (Or.inl hl))
  · exact h₁

end Improves

/-! ### The operations -/

/-- The best solution stays, and no vehicle is added. -/
structure Rearranged (o o' : Optimize) : Prop where
  best : o'.bestSolution = o.bestSolution
  log : o'.bestLog = o.bestLog
  length : o'.fleet.length ≤ o.fleet.length

theorem Improves.rearranged {F₀ : List Vehicle} {o o' : Optimize} (h : Improves F₀ o)
    (ho : Rearranged o o') : Improves F₀ o' :=
  ⟨ho.best ▸ ho.length.trans h.length, ho.log ▸ ho.best ▸ h.head, ho.log ▸ h.last,
    ho.log ▸ h.decreasing⟩

namespace Rearranged

variable {o o₁ o₂ : Optimize}

theorem refl (o : Optimize) : Rearranged o o := ⟨rfl, rfl, le_rfl⟩

theorem setVehicle (h : Rearranged o o₁) (i : ℕ) (v : Vehicle) :
    Rearranged o (o₁.setVehicle i v) :=
  ⟨h.best, h.log, (List.length_set ..).le.trans h.length⟩

theorem keep (h : Rearranged o o₁) (toPos fromPos : ℕ) (t : Trucks) :
    Rearranged o (Optimize.keep toPos fromPos o₁ t).opt :=
  (h.setVehicle toPos t.toTruck).setVehicle fromPos t.fromTruck

theorem decreaseOrder (M : Matrix) (position : ℕ) (order : Order) : ∀ (passes i : ℕ)
    {o₁ : Optimize}, Rearranged o o₁ →
    Rearranged o (Optimize.decreaseOrder M position order passes i o₁)
  | 0, _, _, h => h
  | passes + 1, i, _, h => by
    unfold Optimize.decreaseOrder
    exact iteInduction (fun _ => (h.setVehicle _ _).setVehicle _ _) fun _ =>
      decreaseOrder M position order passes (i + 1) (h.setVehicle _ _)

theorem decreaseTruckAt (M : Matrix) (position : ℕ) (o : Optimize) :
    Rearranged o (o.decreaseTruckAt M position) :=
  List.foldlRecOn (motive := fun o₁ => Rearranged o o₁) _ _ (.refl o) fun _ h _ _ =>
    decreaseOrder M position _ position 0 h

theorem trySwaps (M : Matrix) (toPos fromPos : ℕ) (fromOrder : Order) (duration : ℤ) :
    ∀ (toOrders : List ℕ) {l : SwapLoop}, Rearranged o l.opt →
      Rearranged o (Optimize.trySwaps M toPos fromPos fromOrder duration toOrders l).opt
  | [], _, h => h
  | y :: rest, l, h => by
    unfold Optimize.trySwaps
    extract_lets toOrder currTo fromTruck toTruck newFrom newTo delta estimated
    split_ifs
    · exact trySwaps M toPos fromPos fromOrder duration rest h
    · exact h.keep toPos fromPos _
    · exact trySwaps M toPos fromPos fromOrder duration rest h

theorem swapWorse (M : Matrix) (toPos fromPos : ℕ) (o : Optimize) :
    Rearranged o (o.swapWorse M toPos fromPos) := by
  refine List.foldlRecOn (motive := fun l : SwapLoop => Rearranged o l.opt) _ _ (.refl o)
    fun l h x _ => ?_
  unfold Optimize.swapOrder
  extract_lets fromOrder r
  split_ifs
  · exact h.keep toPos fromPos _
  · exact trySwaps M toPos fromPos fromOrder _ _ h

end Rearranged

theorem Improves.moveReduceCost {F₀ : List Vehicle} {o : Optimize} (h : Improves F₀ o) (M : Matrix)
    (fromPos toPos : ℕ) : Improves F₀ (o.moveReduceCost M fromPos toPos) := by
  unfold Optimize.moveReduceCost
  extract_lets fromTruck toTruck
  split_ifs
  · exact h
  · exact h
  · refine List.foldlRecOn (motive := fun l : SwapLoop => Improves F₀ l.opt) _ _ h
      fun l h x _ => ?_
    unfold reduceOrder
    extract_lets order curr toTruck fromTruck newDuration
    split_ifs
    · exact h.saveIfBest
    · exact h
    · exact h

/-- **An operation keeps the score of the best fleet or decreases it.** -/
theorem Improves.act {F₀ : List Vehicle} {o : Optimize} (h : Improves F₀ o) (S : Sorter)
    (M : Matrix) (a : Act) : Improves F₀ (o.act S M a) := by
  have hperform : Improves F₀ (o.perform S M a) := by
    cases a with
    | sortBySize => exact h.rearranged ⟨rfl, rfl, (o.sortBySize_perm S).length_eq.le⟩
    | decreaseTruck position => exact h.rearranged (.decreaseTruckAt M position o)
    | deleteEmptyTruck =>
      have h' : Improves F₀ { o with fleet := withoutEmpty o.fleet } :=
        h.rearranged ⟨rfl, rfl, List.length_filter_le ..⟩
      exact h'.saveIfBest
    | saveIfBest => exact h.saveIfBest
    | swapWorse toPos fromPos =>
      exact iteInduction (fun _ => h.rearranged (.swapWorse M toPos fromPos o)) fun _ => h
    | moveReduceCost fromPos toPos => exact h.moveReduceCost M fromPos toPos
    | rotate => exact h.rearranged ⟨rfl, rfl, (o.fleet.rotate_perm 1).length_eq.le⟩
    | takeBest => exact ⟨le_rfl, h.head, h.last, h.decreasing⟩
  exact ⟨hperform.length, hperform.head, hperform.last, hperform.decreasing⟩

/-! ### Runs -/

/-- The fleet `best`, with its history `log`, is no worse than the fleet `F₀` at the start. -/
structure NeverWorse (F₀ best : List Vehicle) (log : List (List Vehicle)) : Prop where
  head : log.head? = some best
  last : log.getLast? = some F₀
  decreasing : log.Pairwise fun newer older => score newer < score older
  le : score best ≤ score F₀

theorem Improves.neverWorse {F₀ : List Vehicle} {o : Optimize} (h : Improves F₀ o) :
    NeverWorse F₀ o.bestSolution.fleet o.bestLog := by
  refine ⟨h.head, h.last, h.decreasing, ?_⟩
  obtain ⟨rest, hrest⟩ := List.head?_eq_some_iff.mp h.head
  have hlog := h.decreasing
  have hmem := List.mem_of_getLast? h.last
  rw [hrest] at hlog hmem
  rcases List.mem_cons.mp hmem with rfl | hmem
  · exact le_rfl
  · exact ((List.pairwise_cons.mp hlog).1 F₀ hmem).le

/-- **The best solution only improves**, in every run and in the constructor, which leaves it in the
fleet. -/
theorem simple_never_worse (S : Sorter) (M : Matrix) (sol : Solution) (kind : InitialsCode) :
    (∀ acts, let o := run S M (init sol kind) acts
      NeverWorse sol.fleet o.bestSolution.fleet o.bestLog) ∧
    ∀ fuel times o, construct S M fuel sol times kind = some (.ok o) →
      NeverWorse sol.fleet o.bestSolution.fleet o.bestLog ∧ score o.fleet ≤ score sol.fleet := by
  have hrun : ∀ acts, Improves sol.fleet (run S M (init sol kind) acts) := fun acts =>
    List.foldlRecOn (motive := Improves sol.fleet) acts _ (.init sol kind) fun _ h a _ => h.act S M a
  refine ⟨fun acts => (hrun acts).neverWorse, fun fuel times o ho => ?_⟩
  have h := (hrun o.acts).neverWorse
  rw [← construct_run ho] at h
  refine ⟨h, (score_perm ?_).trans_le h.le⟩
  exact construct_fleet ho

/-- A run of one cycle on the small solution. -/
theorem simple_never_worse_small : ∃ o,
    construct .insertion twoSites 3 Tabu.smallSolution 1 .bestInsert = some (.ok o) ∧
    NeverWorse Tabu.smallSolution.fleet o.bestSolution.fleet o.bestLog ∧
    score o.fleet ≤ score Tabu.smallSolution.fleet := by
  obtain ⟨o, ho, -⟩ := exists_returned
    (x := construct .insertion twoSites 3 Tabu.smallSolution 1 .bestInsert) (fun _ => true)
    (by decide +kernel)
  exact ⟨o, ho, (simple_never_worse .insertion twoSites Tabu.smallSolution .bestInsert).2 3 1 o ho⟩

end VrpRouting.Optimizers.Simple
