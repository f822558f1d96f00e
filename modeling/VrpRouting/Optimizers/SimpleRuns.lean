import VrpRouting.Optimizers.Conservation
import VrpRouting.Optimizers.SimpleSimulation

/-! # Runs of the simple optimizer

A run is any sequence of operations. The constructor is one of them, for every number of cycles and
every kind: it is the run of the operations that it has recorded (`construct_run`). So what is proved
for every run holds between any two operations of the program and at its end. -/

open Sorting

namespace VrpRouting.Optimizers.Simple

open Optimize
open Initialsol.Simple (InitialsCode)

variable (S : Sorter) (M : Matrix)

/-- The operations, one after the other. -/
def run (o : Optimize) (acts : List Act) : Optimize := acts.foldl (Optimize.act S M) o

/-- Every operation is calm in the state before it. -/
def CalmRun : Optimize → List Act → Prop
  | _, [] => True
  | o, a :: acts => o.Calm a ∧ CalmRun (o.act S M a) acts

instance CalmRun.decidable : ∀ (acts : List Act) (o : Optimize), Decidable (CalmRun S M o acts)
  | [], _ => inferInstanceAs (Decidable True)
  | a :: acts, o =>
    have := CalmRun.decidable acts (o.act S M a)
    inferInstanceAs (Decidable (o.Calm a ∧ CalmRun S M (o.act S M a) acts))

/-- **A run is a sequence of steps**, none of which is unserving when the run is calm. -/
theorem run_sim {unserving : Prop} : ∀ (acts : List Act) {o : Optimize}, o.Ready →
    (unserving ∨ CalmRun S M o acts) → Sim M unserving o (run S M o acts)
  | [], o, _, _ => .refl M unserving o
  | a :: acts, o, hr, hc => by
    have h1 : Sim M unserving o (o.act S M a) := act_sim a hr (hc.imp id And.left)
    rw [show run S M o (a :: acts) = run S M (o.act S M a) acts from rfl]
    exact h1.trans (run_sim acts (h1.ready hr) (hc.imp id And.right))

/-! ### The constructor is a run -/

/-- `o'` is the end of a run from `o`, which is in its record. -/
def Follows (o o' : Optimize) : Prop := ∃ acts, o'.acts = o.acts ++ acts ∧ o' = run S M o acts

section Follows
variable {S M} {o o₁ o₂ : Optimize}

theorem Follows.refl (o : Optimize) : Follows S M o o := ⟨[], by simp, rfl⟩

theorem Follows.act (h : Follows S M o o₁) (a : Act) : Follows S M o (o₁.act S M a) := by
  obtain ⟨acts, h1, h2⟩ := h
  refine ⟨acts ++ [a], ?_, ?_⟩
  · rw [show (o₁.act S M a).acts = o₁.acts ++ [a] from rfl, h1, List.append_assoc]
  · rw [run, List.foldl_append, h2]
    rfl

theorem Follows.foldl {α : Type} {f : Optimize → α → Optimize}
    (hf : ∀ o₁ x, Follows S M o o₁ → Follows S M o (f o₁ x)) (l : List α)
    (h : Follows S M o o₁) : Follows S M o (l.foldl f o₁) :=
  List.foldlRecOn (motive := fun o₁ => Follows S M o o₁) l f h fun o₁ h x _ => hf o₁ x h

theorem decreaseTruck_follows : ∀ (fuel : ℕ) {o₁ o₂ : Optimize}, Follows S M o o₁ →
    o₁.decreaseTruck S M fuel = some o₂ → Follows S M o o₂
  | 0, _, _, _, h2 => by simp [decreaseTruck] at h2
  | fuel + 1, o₁, _, h, h2 => by
    have hloop : Follows S M o ((List.range' 1 (o₁.fleet.length - 1)).foldl (decreaseNext S M)
        (false, o₁)).2 :=
      List.foldlRecOn (motive := fun s : Bool × Optimize => Follows S M o s.2) _ (decreaseNext S M)
        h fun s hs position _ => hs.act (.decreaseTruck position)
    unfold decreaseTruck at h2
    extract_lets r o' at h2
    split_ifs at h2
    · obtain ⟨o₃, h3, rfl⟩ := Option.map_eq_some_iff.mp h2
      exact (decreaseTruck_follows fuel ((hloop.act _).act _) h3).act _
    · obtain rfl := Option.some.inj h2
      exact hloop.act _

theorem interSwap_follows (h : Follows S M o o₁) : Follows S M o (o₁.interSwap S M) := by
  unfold interSwap
  extract_lets o' o''
  have h' : Follows S M o o' := h.act _
  refine Follows.act (Follows.foldl (fun o₁ fromPos h => ?_) _ h') _
  exact h.foldl (fun o₁ toPos h => (h.act _).act _) _

theorem interSwapLoop_follows (times : ℕ) (h : Follows S M o o₁)
    (h2 : o₁.interSwapLoop S M times = .ok o₂) : Follows S M o o₂ := by
  induction times generalizing o₁ with
  | zero =>
    obtain rfl := Except.ok.inj h2
    exact h
  | succ times ih =>
    unfold interSwapLoop at h2
    extract_lets o' at h2
    split_ifs at h2
    exact ih ((interSwap_follows h).act .rotate) h2

/-- **The constructor is the run of the operations that it records.** -/
theorem construct_run {fuel times : ℕ} {sol : Solution} {kind : InitialsCode}
    (h : construct S M fuel sol times kind = some (.ok o)) :
    o = run S M (init sol kind) o.acts := by
  unfold construct interSwapTimes at h
  obtain ⟨r, h, hr⟩ := Option.map_eq_some_iff.mp h
  obtain ⟨o₁, h1, rfl⟩ := Option.map_eq_some_iff.mp h
  have hf := decreaseTruck_follows fuel ((Follows.refl (init sol kind)).act .sortBySize) h1
  cases h2 : (o₁.act S M .sortBySize).interSwapLoop S M times with
  | error e => rw [h2] at hr; cases hr
  | ok o₂ =>
    rw [h2] at hr
    obtain rfl := Except.ok.inj hr
    obtain ⟨acts, hacts, heq⟩ :=
      ((interSwapLoop_follows times (hf.act _) h2).act .takeBest).act .sortBySize
    rw [show acts = _ from hacts.symm] at heq
    exact heq

/-- The constructor leaves the best solution in its fleet. -/
theorem construct_fleet {fuel times : ℕ} {sol : Solution} {kind : InitialsCode}
    (h : construct S M fuel sol times kind = some (.ok o)) :
    o.fleet.Perm o.bestSolution.fleet := by
  unfold construct at h
  obtain ⟨r, -, hr⟩ := Option.map_eq_some_iff.mp h
  cases r with
  | error e => cases hr
  | ok o₁ =>
    obtain rfl := Except.ok.inj hr
    exact sortBySize_perm S _

end Follows

/-! ### Invariants of runs -/

/-- A solution of a problem with valid pickups. -/
structure Sound (sol : Solution) : Prop where
  orders : sol.orders.WellFormed
  pickups : ∀ i < sol.orders.length, (sol.orders.get i).pickup.isPickup = true
  fleet : ∀ v ∈ sol.fleet, VehicleOf sol.orders v

variable {sol : Solution}

theorem Sound.ready (h : Sound sol) (kind : InitialsCode) : (init sol kind).Ready :=
  ⟨h.orders, h.pickups, ⟨h.fleet, h.fleet⟩⟩

/-- **The run lemma.** What holds at the start and is kept by every step holds after every run. -/
theorem Sound.run_invariant (h : Sound sol) (kind : InitialsCode) {unserving : Prop}
    {P : View → Prop}
    (hstep : ∀ s s', s.Ready sol.orders → P s → Step M sol.orders unserving s s' → P s')
    (hstart : P ⟨sol.fleet, sol.fleet⟩) {acts : List Act}
    (hc : unserving ∨ CalmRun S M (init sol kind) acts) :
    P (run S M (init sol kind) acts).view :=
  ((run_sim S M acts (h.ready kind) hc).steps.invariant (P := fun s => s.Ready sol.orders ∧ P s)
    (fun _ _ hs hst => ⟨hst.ready h.orders hs.1, hstep _ _ hs.1 hs.2 hst⟩)
    ⟨(h.ready kind).view, hstart⟩).2

/-! ### Small solutions -/

/-- The vehicle with the given stops between its sites and the given movable orders. -/
def vehicleWith (M : Matrix) (orders : Orders) (i : ℕ) (id : ℤ) (capacity : ℕ)
    (start finish : VehicleNode) (stops : List VehicleNode) (movable : List ℕ) : Vehicle :=
  { Vehicle.construct M i id start finish [] capacity 1 orders with
    path := evaluatePath M capacity 1 0 (start :: (stops ++ [finish]))
    ordersInVehicle := movable.foldl Identifiers.insert .empty
    feasibleOrders := .upTo orders.length }

/-- The path of a small vehicle leads from its start over orders to its end. -/
theorem vehicleWith_route {M : Matrix} {orders : Orders} {i capacity : ℕ} {id : ℤ}
    {start finish : VehicleNode} {stops : List VehicleNode} {movable : List ℕ}
    (hs : start.type = .kStart) (he : finish.type = .kEnd)
    (hstops : ∀ n ∈ stops, n.type = .kPickup ∨ n.type = .kDelivery) :
    IsRoute (nodesOf (vehicleWith M orders i id capacity start finish stops movable).path) := by
  have hr : IsRoute (nodesOf (start :: (stops ++ [finish]))) := by
    refine ⟨start.toTwNode, nodesOf stops, finish.toTwNode, by simp [nodesOf], hs, he, ?_⟩
    intro t ht
    obtain ⟨n, hn, rfl⟩ := List.mem_map.mp ht
    exact hstops n hn
  have hpath : (vehicleWith M orders i id capacity start finish stops movable).path =
      evaluatePath M capacity 1 0 (start :: (stops ++ [finish])) := rfl
  rw [hpath, nodesOf_evaluatePath _ _ _ 0 (noDump_iff_nodes.mpr hr.noDump)]
  exact hr

theorem smallSolution_sound : Sound Tabu.smallSolution where
  orders := Tabu.smallOrders_wellFormed
  pickups := by decide +kernel
  fleet v hv := by
    have hknows : ∀ v ∈ Tabu.smallSolution.fleet, v.orders = Tabu.smallSolution.orders := by
      decide +kernel
    exact ⟨Tabu.smallSolution_valid.fleet v hv, by rw [hknows v hv]; rfl⟩

end VrpRouting.Optimizers.Simple
