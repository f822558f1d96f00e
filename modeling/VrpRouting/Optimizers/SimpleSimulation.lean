import Mathlib.Data.List.GetD
import Mathlib.Data.List.Rotate
import VrpRouting.Optimizers.SimpleSteps

/-! # The operators make steps

Every operator of the simple optimizer is a sequence of steps (`Sim`), from any state whose vehicles
are those of a problem. It makes an unserving step only when it is not `Calm`: the vehicles that give
and take orders are compared before the operator starts, and no operator changes an identifier.

The copies of `swap_worse` are the trucks of the fleet, evaluated again (`SwapLoop.Fits`). -/

open Sorting

namespace VrpRouting.Optimizers.Simple

open Tabu (Placed)
open Initialsol.Simple (InitialsCode)

namespace Optimize

def view (o : Optimize) : View := ⟨o.fleet, o.bestSolution.fleet⟩

/-- The orders are those of a problem, their pickups are valid, and every vehicle is a route. -/
structure Ready (o : Optimize) : Prop where
  orders : o.orders.WellFormed
  pickups : ∀ i < o.orders.length, (o.orders.get i).pickup.isPickup = true
  view : o.view.Ready o.orders

theorem Ready.vehicle {o : Optimize} (h : o.Ready) {i : ℕ} (hi : i < o.fleet.length) :
    VehicleOf o.orders (o.vehicle i) := by
  unfold Optimize.vehicle
  rw [List.getD_eq_getElem _ _ hi]
  exact h.view.fleet _ (List.getElem_mem hi)

/-- The operation makes no unserving step: no order can go from a real truck to a phony one. -/
def Calm (o : Optimize) : Act → Prop
  | .decreaseTruck position => (o.vehicle position).ordersInVehicle.isEmpty = true ∨
      ∀ i < position, ¬ Unserves (o.vehicle position) (o.vehicle i)
  | .swapWorse toPos fromPos => (o.vehicle fromPos).ordersInVehicle.isEmpty = true ∨
      (o.vehicle toPos).ordersInVehicle.isEmpty = true ∨
      (o.vehicle fromPos).isPhony = (o.vehicle toPos).isPhony
  | _ => True

instance (o : Optimize) : DecidablePred o.Calm
  | .decreaseTruck position => inferInstanceAs (Decidable
      ((o.vehicle position).ordersInVehicle.isEmpty = true ∨
        ∀ i < position, ¬ Unserves (o.vehicle position) (o.vehicle i)))
  | .swapWorse toPos fromPos => inferInstanceAs (Decidable
      ((o.vehicle fromPos).ordersInVehicle.isEmpty = true ∨
        (o.vehicle toPos).ordersInVehicle.isEmpty = true ∨
        (o.vehicle fromPos).isPhony = (o.vehicle toPos).isPhony))
  | .sortBySize | .deleteEmptyTruck | .saveIfBest | .moveReduceCost _ _ | .rotate | .takeBest =>
    inferInstanceAs (Decidable True)

end Optimize

open Optimize

/-- `o'` is reached from `o` by steps. -/
structure Sim (M : Matrix) (unserving : Prop) (o o' : Optimize) : Prop where
  orders : o'.orders = o.orders
  steps : Steps M o.orders unserving o.view o'.view

namespace Sim

variable {M : Matrix} {unserving : Prop} {o o₁ o₂ : Optimize}

theorem of_view (ho : o₁.orders = o.orders) (h : o₁.view = o.view) : Sim M unserving o o₁ :=
  ⟨ho, by rw [h]⟩

theorem refl (M : Matrix) (unserving : Prop) (o : Optimize) : Sim M unserving o o := .of_view rfl rfl

theorem of_step (ho : o₁.orders = o.orders) (h : Step M o.orders unserving o.view o₁.view) :
    Sim M unserving o o₁ := ⟨ho, .single h⟩

theorem ready (h : Sim M unserving o o₁) (hr : o.Ready) : o₁.Ready where
  orders := by rw [h.orders]; exact hr.orders
  pickups := by rw [h.orders]; exact hr.pickups
  view := by
    rw [h.orders]
    exact h.steps.invariant (fun _ _ hs hst => hst.ready hr.orders hs) hr.view

theorem trans (h : Sim M unserving o o₁) (h' : Sim M unserving o₁ o₂) : Sim M unserving o o₂ :=
  ⟨h'.orders.trans h.orders, h.steps.trans (by have := h'.steps; rwa [h.orders] at this)⟩

end Sim

namespace Optimize

variable (S : Sorter) (M : Matrix) (o : Optimize)

/-! ### Vehicles by position -/

theorem vehicle_setVehicle_self {i : ℕ} (hi : i < o.fleet.length) (v : Vehicle) :
    (o.setVehicle i v).vehicle i = v := by
  simp [vehicle, setVehicle, List.getD_eq_getElem?_getD, hi]

theorem vehicle_setVehicle_ne {i j : ℕ} (hij : i ≠ j) (v : Vehicle) :
    (o.setVehicle i v).vehicle j = o.vehicle j := by
  simp [vehicle, setVehicle, List.getD_eq_getElem?_getD, List.getElem?_set_ne hij]

theorem vehicle_of_length_le {i : ℕ} (hi : o.fleet.length ≤ i) : o.vehicle i = default := by
  unfold vehicle
  exact List.getD_eq_default _ _ hi

/-- The two vehicles of a move, and the other ones. -/
theorem exists_perm_vehicles {i j : ℕ} (hi : i < o.fleet.length) (hj : j < o.fleet.length)
    (hij : i ≠ j) (a b : Vehicle) :
    ∃ R, o.fleet.Perm (o.vehicle i :: o.vehicle j :: R) ∧
      ((o.fleet.set i a).set j b).Perm (a :: b :: R) :=
  ListEdit.exists_perm_set_set hi hj hij a b default

/-! ### Insertions -/

/-- An insertion heuristic that leaves the order in the vehicle has placed it there. -/
theorem placed_of_outcome {M : Matrix} {v : Vehicle} {order order' : Order} {r : Bool × Vehicle}
    (h : Outcome M v order r) (hn : order.nodes = order'.nodes) :
    (r.2.hasOrder order = true → Placed M v order' r.2) ∧
      (r.2.hasOrder order = false → Unchanged M v r.2) := by
  rcases h with ⟨-, h, hf⟩ | ⟨-, h⟩
  · refine ⟨fun _ => Or.inl ⟨h.of_nodes hn, hf⟩, fun hno => ?_⟩
    rw [Vehicle.hasOrder, h.others, Identifiers.has_eq_false] at hno
    exact absurd (Identifiers.mem_insert.mpr (Or.inl rfl)) hno
  · refine ⟨fun hyes => Or.inr ⟨h, ?_⟩, fun _ => h⟩
    rw [← hasOrder_of_nodes hn.symm, Vehicle.hasOrder, ← h.ordersInVehicle]
    exact hyes

variable {M} {orders : Orders} {v : Vehicle} {order : Order} {i : ℕ}

theorem hillClimb_placed (ho : orders.WellFormed) (hv : VehicleOf orders v) (hi : i < orders.length)
    (hn : (orders.get i).nodes = order.nodes) :
    ((v.hillClimb M order).2.hasOrder order = true →
      Placed M v (orders.get i) (v.hillClimb M order).2) ∧
    ((v.hillClimb M order).2.hasOrder order = false → Unchanged M v (v.hillClimb M order).2) :=
  placed_of_outcome (hillClimb_spec hv.route ((ho.typed i hi).of_nodes hn)) hn.symm

theorem insertOrder_placed (kind : InitialsCode) (ho : orders.WellFormed)
    (hp : (orders.get i).pickup.isPickup = true) (hv : VehicleOf orders v) (hi : i < orders.length)
    (hn : (orders.get i).nodes = order.nodes) :
    ((insertOrder M kind v order).hasOrder order = true →
      Placed M v (orders.get i) (insertOrder M kind v order)) ∧
    ((insertOrder M kind v order).hasOrder order = false →
      Unchanged M v (insertOrder M kind v order)) := by
  have ht := (ho.typed i hi).of_nodes hn
  obtain ⟨J, I, rfl⟩ := Order.exists_eq_of_nodes hn
  unfold insertOrder
  split_ifs with hk
  · exact placed_of_outcome (semiLIFO_outcome hv.route ht hp) hn.symm
  · exact placed_of_outcome (hillClimb_spec hv.route ht) hn.symm

/-- One side of an exchange: the order `i` takes the place of the order `j`. -/
theorem insertOrder_swapped (kind : InitialsCode) (ho : orders.WellFormed) (hv : VehicleOf orders v)
    {j : ℕ} (hj : j < orders.length) {gone : Order} (hgone : (orders.get j).nodes = gone.nodes)
    (hp : (orders.get i).pickup.isPickup = true) (hi : i < orders.length)
    (hn : (orders.get i).nodes = order.nodes)
    (h : (insertOrder M kind (v.eraseOrder M gone) order).hasOrder order = true) :
    Placed M (v.eraseOrder M (orders.get j)) (orders.get i)
      (insertOrder M kind (v.eraseOrder M gone) order) := by
  rw [eraseOrder_of_nodes hgone] at h ⊢
  exact (insertOrder_placed kind ho hp (hv.eraseOrder hj) hi hn).1 h

theorem hasOrder_iff (ho : orders.WellFormed) (hi : i < orders.length)
    (hn : (orders.get i).nodes = order.nodes) (v : Vehicle) :
    v.hasOrder order = true ↔ i ∈ v.ordersInVehicle := by
  rw [hasOrder_of_nodes hn, hasOrder_get_iff ho hi]

/-! ### Bookkeeping operations -/

section Bookkeeping
variable (S : Sorter) (M : Matrix) (unserving : Prop) (o : Optimize)

theorem saveIfBest_sim : Sim M unserving o o.saveIfBest := by
  have hsave : ∀ o : Optimize, Sim M unserving o o.saveBest := fun _ => .of_step rfl .save
  have h1 : Sim M unserving o
      (if o.toSolution.duration < o.bestSolution.duration then o.saveBest else o) := by
    split_ifs
    · exact hsave o
    · exact .refl M unserving o
  unfold saveIfBest
  extract_lets o1
  split_ifs
  · exact h1.trans (hsave o1)
  · exact h1

theorem sortBySize_perm : (o.sortBySize S).fleet.Perm o.fleet :=
  (stableSort_perm _ _).trans (S.perm _ _)

theorem sortBySize_sim : Sim M unserving o (o.sortBySize S) :=
  .of_step rfl (.permute (o.sortBySize_perm S).symm)

theorem deleteEmptyTruck_sim : Sim M unserving o o.deleteEmptyTruck := by
  have h : Sim M unserving o { o with fleet := withoutEmpty o.fleet } := .of_step rfl .dropEmpty
  exact h.trans (saveIfBest_sim M unserving _)

end Bookkeeping

/-! ### Vehicles that are evaluated again -/

/-- `o'` is `o` with vehicles that are evaluated again. -/
structure Refreshed (M : Matrix) (o o' : Optimize) : Prop where
  others : o' = { o with fleet := o'.fleet }
  length : o'.fleet.length = o.fleet.length
  vehicle : ∀ i, Unchanged M (o.vehicle i) (o'.vehicle i)

section Refreshed
variable {M : Matrix} {o o₁ o₂ : Optimize}

theorem Refreshed.refl (M : Matrix) (o : Optimize) : Refreshed M o o :=
  ⟨rfl, rfl, fun i => .refl M (o.vehicle i)⟩

theorem Refreshed.trans (h : Refreshed M o o₁) (h' : Refreshed M o₁ o₂) : Refreshed M o o₂ where
  others := by rw [h'.others, h.others]
  length := h'.length.trans h.length
  vehicle i := (h.vehicle i).trans (h'.vehicle i)

theorem Refreshed.setVehicle {i : ℕ} {w : Vehicle} (h : Unchanged M (o.vehicle i) w) :
    Refreshed M o (o.setVehicle i w) where
  others := rfl
  length := List.length_set ..
  vehicle j := by
    by_cases hij : i = j
    · subst hij
      by_cases hi : i < o.fleet.length
      · rw [o.vehicle_setVehicle_self hi]
        exact h
      · have : o.setVehicle i w = o := by
          unfold Optimize.setVehicle
          rw [List.set_eq_of_length_le (by omega)]
        rw [this]
        exact .refl M _
    · rw [o.vehicle_setVehicle_ne hij]
      exact .refl M _

theorem Refreshed.sim (h : Refreshed M o o₁) (unserving : Prop) : Sim M unserving o o₁ := by
  have hv : List.Forall₂ (Unchanged M) o.fleet o₁.fleet := by
    refine List.forall₂_iff_get.mpr ⟨h.length.symm, fun i h1 h2 => ?_⟩
    have := h.vehicle i
    unfold Optimize.vehicle at this
    rw [List.getD_eq_getElem _ _ h1, List.getD_eq_getElem _ _ h2] at this
    exact this
  have hst : Step M o.orders unserving o.view ⟨o₁.fleet, o.bestSolution.fleet⟩ := .refresh hv
  refine .of_step (by rw [h.others]) ?_
  rw [h.others]
  exact hst

end Refreshed

/-! ### `decreaseTruckAt` -/

/-- The truck at `j` has taken the order `x` of the truck at `position`, which is behind it. -/
def Handed (M : Matrix) (position x : ℕ) (o o' : Optimize) : Prop :=
  ∃ j w, j < position ∧ Placed M (o.vehicle j) (o.orders.get x) w ∧
    o' = (o.setVehicle j w).setVehicle position
      ((o.vehicle position).eraseOrder M (o.orders.get x))

section Decrease
variable {M : Matrix} {o : Optimize} {position x : ℕ}

/-- The order is handed to a truck, or all of them stay as they are. -/
theorem decreaseOrder_cases {order : Order} (hx : x < o.orders.length)
    (hn : (o.orders.get x).nodes = order.nodes) (hp : position < o.fleet.length) :
    ∀ (passes i : ℕ) (o₁ : Optimize), i + passes = position → o₁.Ready → Refreshed M o o₁ →
      ∃ o₂, Refreshed M o o₂ ∧ o₂.Ready ∧ (decreaseOrder M position order passes i o₁ = o₂ ∨
        Handed M position x o₂ (decreaseOrder M position order passes i o₁))
  | 0, i, o₁, _, hr, href => ⟨o₁, href, hr, Or.inl rfl⟩
  | passes + 1, i, o₁, hi, hr, href => by
    have hlt : i < o₁.fleet.length := by rw [href.length]; omega
    have horders : o₁.orders = o.orders := by rw [href.others]
    obtain ⟨hyes, hno⟩ := hillClimb_placed (M := M) hr.orders (hr.vehicle hlt)
      (horders ▸ hx) (horders ▸ hn)
    unfold decreaseOrder
    extract_lets o'
    have hv : o'.vehicle i = ((o₁.vehicle i).hillClimb M order).2 :=
      o₁.vehicle_setVehicle_self hlt _
    split_ifs with h
    · rw [hv] at h
      refine ⟨o₁, href, hr, Or.inr ⟨i, _, by omega, hyes h, ?_⟩⟩
      have hpos : o'.vehicle position = o₁.vehicle position :=
        o₁.vehicle_setVehicle_ne (by omega) _
      rw [hpos, horders, ← eraseOrder_of_nodes hn]
    · rw [hv, Bool.not_eq_true] at h
      have hset : Refreshed M o₁ o' := .setVehicle (hno h)
      exact decreaseOrder_cases hx hn hp passes (i + 1) o' (by omega)
        ((hset.sim True).ready hr) (href.trans hset)

/-- What an operator keeps of the vehicle at each position. -/
structure SameTrucks (o o' : Optimize) : Prop where
  length : o'.fleet.length = o.fleet.length
  isPhony : ∀ i, (o'.vehicle i).isPhony = (o.vehicle i).isPhony

theorem SameTrucks.refl (o : Optimize) : SameTrucks o o := ⟨rfl, fun _ => rfl⟩

theorem SameTrucks.trans {o₁ o₂ : Optimize} (h : SameTrucks o o₁) (h' : SameTrucks o₁ o₂) :
    SameTrucks o o₂ :=
  ⟨h'.length.trans h.length, fun i => (h'.isPhony i).trans (h.isPhony i)⟩

theorem Refreshed.sameTrucks {o' : Optimize} (h : Refreshed M o o') : SameTrucks o o' :=
  ⟨h.length, fun i => (h.vehicle i).isPhony⟩

theorem SameTrucks.setVehicle {i : ℕ} {w : Vehicle} (h : w.isPhony = (o.vehicle i).isPhony)
    (hi : i < o.fleet.length) : SameTrucks o (o.setVehicle i w) where
  length := List.length_set ..
  isPhony j := by
    by_cases hij : i = j
    · subst hij
      rw [o.vehicle_setVehicle_self hi, h]
    · rw [o.vehicle_setVehicle_ne hij]

/-- What is known of the truck at `position` while its orders are handed over. -/
structure Giving (o : Optimize) (position : ℕ) (rest : List ℕ) : Prop where
  lt : position < o.fleet.length
  rest : ∀ x ∈ rest, x ∈ (o.vehicle position).ordersInVehicle

theorem Refreshed.giving {o' : Optimize} {rest : List ℕ} (h : Refreshed M o o')
    (hg : Giving o position rest) : Giving o' position rest where
  lt := h.length ▸ hg.lt
  rest y hy := by
    rw [(h.vehicle position).ordersInVehicle]
    exact hg.rest y hy

section Handed
variable {o' : Optimize} {rest : List ℕ} (h : Handed M position x o o')
  (hg : Giving o position (x :: rest))
include h hg

theorem Handed.sameTrucks : SameTrucks o o' := by
  obtain ⟨j, w, hj, hw, rfl⟩ := h
  have hlt := hg.lt
  have h1 : SameTrucks o (o.setVehicle j w) := .setVehicle hw.isPhony (by omega)
  refine h1.trans (.setVehicle ?_ (h1.length ▸ hlt))
  rw [h1.isPhony, isPhony_eraseOrder]

theorem Handed.giving (hr : o.Ready) (hn : x ∉ rest) : Giving o' position rest := by
  have hlen := (h.sameTrucks hg).length
  have hlt := hg.lt
  obtain ⟨j, w, hj, hw, rfl⟩ := h
  refine ⟨hlen ▸ hlt, fun y hy => ?_⟩
  have hx := (hr.vehicle hlt).movable x (hg.rest x (by simp))
  rw [vehicle_setVehicle_self _ (by simpa [setVehicle] using hlt), eraseOrder_others,
    Identifiers.mem_erase, hr.orders.idx x hx]
  exact ⟨hg.rest y (by simp [hy]), fun hyx => hn (hyx ▸ hy)⟩

theorem Handed.sim {unserving : Prop}
    (hu : unserving ∨ ∀ i < position, ¬ Unserves (o.vehicle position) (o.vehicle i)) :
    Sim M unserving o o' := by
  have hlt := hg.lt
  obtain ⟨j, w, hj, hw, rfl⟩ := h
  obtain ⟨R, hF, hF'⟩ := o.exists_perm_vehicles (by omega) hlt (show j ≠ position by omega) w
    ((o.vehicle position).eraseOrder M (o.orders.get x))
  exact .of_step rfl (Step.move (s := o.view) (hF.trans (.swap ..)) (hu.imp id fun h => h j hj)
    (hg.rest x (by simp)) hw (hF'.trans (.swap ..)))

end Handed

/-- **Induction over `decrease_truck(position)`**: vehicles are evaluated again, and orders of the
truck at `position` are handed to trucks before it. -/
theorem decreaseOrders_induction {P : Optimize → Prop} (o₀ : Optimize)
    (hrefresh : ∀ o o', o.Ready → SameTrucks o₀ o → P o → Refreshed M o o' → P o')
    (hhand : ∀ o o' x rest, o.Ready → SameTrucks o₀ o → P o → Giving o position (x :: rest) →
      Handed M position x o o' → P o') :
    ∀ (rest : List ℕ) (o : Optimize), o.Ready → Giving o position rest → rest.Nodup →
      SameTrucks o₀ o → P o → P (rest.foldl (fun o oId =>
        decreaseOrder M position ((o.vehicle position).orders.get oId) position 0 o) o)
  | [], _, _, _, _, _, h => h
  | x :: rest, o, hr, hg, hn, hs, h => by
    obtain ⟨hnx, hn⟩ := List.nodup_cons.mp hn
    have hv := hr.vehicle hg.lt
    obtain ⟨o₂, href, hr₂, hcase⟩ := decreaseOrder_cases (M := M) (hv.movable x (hg.rest x (by simp)))
      (hv.knows.get x) hg.lt position 0 o (by omega) hr (.refl M o)
    have hg₂ := href.giving hg
    have hs₂ := hs.trans href.sameTrucks
    have h₂ := hrefresh o o₂ hr hs h href
    rw [List.foldl_cons]
    rcases hcase with heq | hand
    · rw [heq]
      exact decreaseOrders_induction o₀ hrefresh hhand rest o₂ hr₂
        ⟨hg₂.lt, fun y hy => hg₂.rest y (by simp [hy])⟩ hn hs₂ h₂
    · have hsim : Sim M True o₂ _ := hand.sim hg₂ (Or.inl trivial)
      have hr' := hsim.ready hr₂
      exact decreaseOrders_induction o₀ hrefresh hhand rest _ hr' (hand.giving hg₂ hr₂ hnx) hn
        (hs₂.trans (hand.sameTrucks hg₂)) (hhand o₂ _ x rest hr₂ hs₂ h₂ hg₂ hand)

theorem decreaseTruckAt_induction {P : Optimize → Prop} (hr : o.Ready) (h : P o)
    (hrefresh : ∀ o₁ o₂, o₁.Ready → SameTrucks o o₁ → P o₁ → Refreshed M o₁ o₂ → P o₂)
    (hhand : ∀ o₁ o₂ x rest, o₁.Ready → SameTrucks o o₁ → P o₁ → Giving o₁ position (x :: rest) →
      Handed M position x o₁ o₂ → P o₂) : P (o.decreaseTruckAt M position) := by
  unfold decreaseTruckAt
  rcases Nat.lt_or_ge position o.fleet.length with hlt | hge
  · exact decreaseOrders_induction o hrefresh hhand _ o hr ⟨hlt, fun _ h => h⟩
      (o.vehicle position).ordersInVehicle.nodup (.refl o) h
  · rw [o.vehicle_of_length_le hge]
    exact h

theorem decreaseTruckAt_sim {unserving : Prop} (hr : o.Ready)
    (hu : unserving ∨ o.Calm (.decreaseTruck position)) :
    Sim M unserving o (o.decreaseTruckAt M position) := by
  rcases hu.imp_right fun h : _ ∨ _ => h with hu | hempty | hu
  · exact decreaseTruckAt_induction hr (.refl M unserving o)
      (fun _ _ _ _ h href => h.trans (href.sim unserving))
      fun _ _ _ _ _ _ h hg hand => h.trans (hand.sim hg (Or.inl hu))
  · unfold decreaseTruckAt
    rw [List.isEmpty_iff.mp hempty]
    exact .refl M unserving o
  · refine decreaseTruckAt_induction hr (.refl M unserving o)
      (fun _ _ _ _ h href => h.trans (href.sim unserving))
      fun o₁ _ _ _ _ hs h hg hand => h.trans (hand.sim hg (Or.inr fun i hi hun => hu i hi ?_))
    -- the trucks are as real or phony as they were at first
    unfold Unserves at *
    rwa [hs.isPhony, hs.isPhony] at hun

end Decrease

end Optimize

namespace SwapLoop

/-! ### `swapWorse` -/

/-- The copies are the two trucks of the fleet, the second one possibly evaluated again. -/
structure Fits (M : Matrix) (toPos fromPos : ℕ) (l : SwapLoop) : Prop where
  from_lt : fromPos < l.opt.fleet.length
  to_lt : toPos < l.opt.fleet.length
  ne : toPos ≠ fromPos
  from_eq : l.fromTruck = l.opt.vehicle fromPos
  to_unchanged : Unchanged M (l.opt.vehicle toPos) l.toTruck

section Swap
variable {M : Matrix} {toPos fromPos : ℕ} {l : SwapLoop} {a' b' : Vehicle} {unserving : Prop}

theorem Fits.restore (h : l.Fits M toPos fromPos) :
    Fits M toPos fromPos ⟨⟨l.opt.vehicle fromPos, l.opt.vehicle toPos⟩, l.opt⟩ :=
  ⟨h.from_lt, h.to_lt, h.ne, rfl, .refl M _⟩

theorem Fits.keep (h : l.Fits M toPos fromPos) :
    (Optimize.keep toPos fromPos l.opt ⟨a', b'⟩).Fits M toPos fromPos := by
  have hlen : (Optimize.keep toPos fromPos l.opt ⟨a', b'⟩).opt.fleet.length = l.opt.fleet.length := by
    simp [Optimize.keep, setVehicle]
  refine ⟨hlen ▸ h.from_lt, hlen ▸ h.to_lt, h.ne, ?_, ?_⟩
  · exact (vehicle_setVehicle_self _ (by simpa [setVehicle] using h.from_lt) a').symm
  · have : (Optimize.keep toPos fromPos l.opt ⟨a', b'⟩).opt.vehicle toPos = b' :=
      (vehicle_setVehicle_ne _ h.ne.symm _).trans (vehicle_setVehicle_self _ h.to_lt _)
    rw [this]
    exact .refl M b'

theorem Fits.sameTrucks (h : l.Fits M toPos fromPos)
    (ha : a'.isPhony = l.fromTruck.isPhony) (hb : b'.isPhony = l.toTruck.isPhony) :
    SameTrucks l.opt (Optimize.keep toPos fromPos l.opt ⟨a', b'⟩).opt := by
  have h1 : SameTrucks l.opt (l.opt.setVehicle toPos b') :=
    .setVehicle (hb.trans h.to_unchanged.isPhony) h.to_lt
  exact h1.trans (.setVehicle (by rw [ha, h.from_eq, h1.isPhony]) (h1.length ▸ h.from_lt))

variable (unserving) in
/-- The fleet with the second truck evaluated again, and the fleet after a write back. -/
theorem Fits.exists_perm (h : l.Fits M toPos fromPos) (a' b' : Vehicle) :
    ∃ R, Steps M l.opt.orders unserving l.opt.view
        ⟨l.fromTruck :: l.toTruck :: R, l.opt.bestSolution.fleet⟩ ∧
      (Optimize.keep toPos fromPos l.opt ⟨a', b'⟩).opt.fleet.Perm (a' :: b' :: R) := by
  obtain ⟨R, hF, hF'⟩ := l.opt.exists_perm_vehicles h.to_lt h.from_lt h.ne b' a'
  have hsame : List.Forall₂ (Unchanged M) R R := List.forall₂_same.mpr fun v _ => .refl M v
  refine ⟨R, ?_, hF'.trans (.swap ..)⟩
  rw [h.from_eq]
  exact (Relation.ReflTransGen.single (.permute (s := l.opt.view) (hF.trans (.swap ..)))).tail
    (.refresh (.cons (.refl M _) (.cons h.to_unchanged hsame)))

theorem Fits.move_sim (h : l.Fits M toPos fromPos) {x : ℕ}
    (hx : x ∈ l.fromTruck.ordersInVehicle) (hb' : Placed M l.toTruck (l.opt.orders.get x) b')
    (hu : ¬ Unserves l.fromTruck l.toTruck) : Sim M unserving l.opt
      (Optimize.keep toPos fromPos l.opt
        ⟨l.fromTruck.eraseOrder M (l.opt.orders.get x), b'⟩).opt := by
  obtain ⟨R, hst, hF⟩ := h.exists_perm unserving
    (l.fromTruck.eraseOrder M (l.opt.orders.get x)) b'
  exact ⟨rfl, hst.tail (.move (.refl _) (Or.inr hu) hx hb' hF)⟩

theorem Fits.exchange_sim (h : l.Fits M toPos fromPos) {x y : ℕ}
    (hx : x ∈ l.fromTruck.ordersInVehicle) (hy : y ∈ l.toTruck.ordersInVehicle)
    (ha' : Placed M (l.fromTruck.eraseOrder M (l.opt.orders.get x)) (l.opt.orders.get y) a')
    (hb' : Placed M (l.toTruck.eraseOrder M (l.opt.orders.get y)) (l.opt.orders.get x) b')
    (hu : unserving ∨ l.fromTruck.isPhony = l.toTruck.isPhony) : Sim M unserving l.opt
      (Optimize.keep toPos fromPos l.opt ⟨a', b'⟩).opt := by
  obtain ⟨R, hst, hF⟩ := h.exists_perm unserving a' b'
  exact ⟨rfl, hst.tail (.exchange (.refl _) hu hx hy ha' hb' hF)⟩

end Swap

/-- What the operator has done with the order `x` of the truck at `fromPos`. -/
structure Swapped (M : Matrix) (unserving : Prop) (toPos fromPos x : ℕ) (l l' : SwapLoop) : Prop where
  sim : Sim M unserving l.opt l'.opt
  fits : l'.Fits M toPos fromPos
  trucks : SameTrucks l.opt l'.opt
  members : ∀ y ≠ x, y ∈ l.fromTruck.ordersInVehicle → y ∈ l'.fromTruck.ordersInVehicle

section Swapped
variable {M : Matrix} {toPos fromPos x : ℕ} {l : SwapLoop} {unserving : Prop}

theorem Fits.from_vehicleOf (h : l.Fits M toPos fromPos) (hr : l.opt.Ready) :
    VehicleOf l.opt.orders l.fromTruck := h.from_eq ▸ hr.vehicle h.from_lt

theorem Fits.to_vehicleOf (h : l.Fits M toPos fromPos) (hr : l.opt.Ready) :
    VehicleOf l.opt.orders l.toTruck := (hr.vehicle h.to_lt).unchanged h.to_unchanged

/-- The loop makes one exchange, or none. -/
theorem trySwaps_swapped {fromOrder : Order} (currFromDuration : ℤ) :
    ∀ (toOrders : List ℕ) (l : SwapLoop), l.opt.Ready → l.Fits M toPos fromPos →
      x ∈ l.fromTruck.ordersInVehicle → (l.opt.orders.get x).nodes = fromOrder.nodes →
      (∀ y ∈ toOrders, y < l.opt.orders.length) →
      (unserving ∨ l.fromTruck.isPhony = l.toTruck.isPhony) →
      Swapped M unserving toPos fromPos x l
        (trySwaps M toPos fromPos fromOrder currFromDuration toOrders l)
  | [], l, _, hf, _, _, _, _ => ⟨.refl M _ _, hf, .refl _, fun _ _ h => h⟩
  | y :: rest, l, hr, hf, hx, hn, hy, hu => by
    obtain ⟨hy, hrest⟩ := List.forall_mem_cons.mp hy
    have hvx := hf.from_vehicleOf hr
    have hxlt := hvx.movable x hx
    have hny : (l.opt.orders.get y).nodes = ((l.opt.vehicle toPos).orders.get y).nodes :=
      (hr.vehicle hf.to_lt).knows.get y
    unfold trySwaps
    extract_lets toOrder currTo fromTruck toTruck newFrom newTo delta duration
    split_ifs with h1 h2
    · exact trySwaps_swapped currFromDuration rest l hr hf hx hn hrest hu
    · -- the exchange is accepted, so each truck has the order of the other one
      have hyto : y ∈ l.toTruck.ordersInVehicle := by
        rw [← hasOrder_iff hr.orders hy hny]
        simpa using h1
      simp only [Bool.and_eq_true] at h2
      have ha' := insertOrder_swapped l.opt.kind hr.orders hvx hxlt hn (hr.pickups y hy) hy hny h2.1.1
      have hb' := insertOrder_swapped l.opt.kind hr.orders (hf.to_vehicleOf hr) hy hny
        (hr.pickups x hxlt) hxlt hn h2.1.2
      refine ⟨hf.exchange_sim hx hyto ha' hb' hu, hf.keep, hf.sameTrucks ?_ ?_, fun z hz hzl => ?_⟩
      · rw [ha'.isPhony, isPhony_eraseOrder]
      · rw [hb'.isPhony, isPhony_eraseOrder]
      · exact ha'.mem ((mem_eraseOrder_iff hr.orders hxlt _ M).mpr ⟨hzl, hz⟩)
    · have h := trySwaps_swapped currFromDuration rest
        ⟨⟨l.opt.vehicle fromPos, l.opt.vehicle toPos⟩, l.opt⟩ hr hf.restore (hf.from_eq ▸ hx) hn hrest
        (hu.imp id fun hu => by rw [← hf.from_eq, hu, hf.to_unchanged.isPhony])
      exact ⟨h.sim, h.fits, h.trucks, fun z hz hzl => h.members z hz (hf.from_eq ▸ hzl)⟩

/-- `move_order` places the order in the second truck, or evaluates that truck again. -/
theorem moveOrder_cases {orders : Orders} (kind : InitialsCode) {order : Order} {t : Trucks}
    (ho : orders.WellFormed) (hp : (orders.get x).pickup.isPickup = true)
    (hv : VehicleOf orders t.toTruck) (hx : x < orders.length)
    (hn : (orders.get x).nodes = order.nodes) :
    (∃ w, Optimize.moveOrder M kind order t =
        (true, ⟨t.fromTruck.eraseOrder M (orders.get x), w⟩) ∧
      Placed M t.toTruck (orders.get x) w ∧ ¬ Unserves t.fromTruck t.toTruck) ∨
    (∃ w, Optimize.moveOrder M kind order t = (false, ⟨t.fromTruck, w⟩) ∧
      Unchanged M t.toTruck w) := by
  unfold Optimize.moveOrder
  extract_lets toTruck
  obtain ⟨hyes, hno⟩ := insertOrder_placed (M := M) kind ho hp hv hx hn
  split_ifs with h1 h2 h3 h4
  · exact Or.inr ⟨_, rfl, .refl M _⟩
  · exact Or.inr ⟨_, rfl, .refl M _⟩
  · exact Or.inr ⟨_, rfl, .refl M _⟩
  · refine Or.inl ⟨_, by rw [eraseOrder_of_nodes hn], hyes h4, fun hu => h2 ?_⟩
    rw [hu.1, hu.2]
    rfl
  · exact Or.inr ⟨_, rfl, hno (by simpa using h4)⟩

theorem swapOrder_swapped {toOrders : List ℕ} (hr : l.opt.Ready) (hf : l.Fits M toPos fromPos)
    (hx : x ∈ l.fromTruck.ordersInVehicle) (hy : ∀ y ∈ toOrders, y < l.opt.orders.length)
    (hu : toOrders = [] ∨ unserving ∨ l.fromTruck.isPhony = l.toTruck.isPhony) :
    Swapped M unserving toPos fromPos x l (swapOrder M toPos fromPos toOrders l x) := by
  have hvx := hf.from_vehicleOf hr
  have hxlt := hvx.movable x hx
  have hn := hvx.knows.get x
  unfold swapOrder
  extract_lets fromOrder r
  rcases moveOrder_cases (M := M) l.opt.kind hr.orders (hr.pickups x hxlt)
    (hf.to_vehicleOf hr) hxlt hn with ⟨w, hw, hplaced, hun⟩ | ⟨w, hw, hunch⟩
  · have hr' : r = _ := hw
    rw [if_pos (by rw [hr']), hr']
    refine ⟨hf.move_sim hx hplaced hun, hf.keep, hf.sameTrucks ?_ hplaced.isPhony,
      fun z hz hzl => (mem_eraseOrder_iff hr.orders hxlt _ M).mpr ⟨hzl, hz⟩⟩
    rw [isPhony_eraseOrder]
  · have hr' : r = _ := hw
    rw [if_neg (by rw [hr']; simp), hr']
    have hf' : Fits M toPos fromPos ⟨⟨l.fromTruck, w⟩, l.opt⟩ :=
      ⟨hf.from_lt, hf.to_lt, hf.ne, hf.from_eq, hf.to_unchanged.trans hunch⟩
    rcases hu with rfl | hu
    · exact ⟨.refl M _ _, hf', .refl _, fun _ _ h => h⟩
    · have h : Swapped M unserving .. := trySwaps_swapped l.fromTruck.duration toOrders
        ⟨⟨l.fromTruck, w⟩, l.opt⟩ hr hf' hx hn hy (hu.imp id fun hu => by rw [hu, hunch.isPhony])
      exact ⟨h.sim, h.fits, h.trucks, h.members⟩

theorem swapOrders_sim {toOrders : List ℕ} : ∀ (rest : List ℕ) (l : SwapLoop), l.opt.Ready →
    l.Fits M toPos fromPos → rest.Nodup → (∀ x ∈ rest, x ∈ l.fromTruck.ordersInVehicle) →
    (∀ y ∈ toOrders, y < l.opt.orders.length) →
    (toOrders = [] ∨ unserving ∨
      (l.opt.vehicle fromPos).isPhony = (l.opt.vehicle toPos).isPhony) →
    Sim M unserving l.opt (rest.foldl (swapOrder M toPos fromPos toOrders) l).opt
  | [], l, _, _, _, _, _, _ => .refl M unserving l.opt
  | x :: rest, l, hr, hf, hn, hx, hy, hu => by
    obtain ⟨hnx, hn⟩ := List.nodup_cons.mp hn
    obtain ⟨hx, hrest⟩ := List.forall_mem_cons.mp hx
    have h : Swapped M unserving .. := swapOrder_swapped hr hf hx hy
      (hu.imp id fun hu => hu.imp id fun hu => by rw [hf.from_eq, hu, hf.to_unchanged.isPhony])
    rw [List.foldl_cons]
    refine h.sim.trans (swapOrders_sim rest _ (h.sim.ready hr) h.fits hn
      (fun y hyr => h.members y (fun e => hnx (e ▸ hyr)) (hrest y hyr)) ?_
      (hu.imp id fun hu => hu.imp id fun hu => by rw [h.trucks.isPhony, h.trucks.isPhony, hu]))
    rw [h.sim.orders]
    exact hy

end Swapped

end SwapLoop

namespace Optimize

variable {S : Sorter} {M : Matrix} {o : Optimize} {unserving : Prop}

theorem swapWorse_sim {toPos fromPos : ℕ} (hr : o.Ready) (hlt : toPos < fromPos)
    (hu : unserving ∨ o.Calm (.swapWorse toPos fromPos)) :
    Sim M unserving o (o.swapWorse M toPos fromPos) := by
  unfold swapWorse
  extract_lets fromTruck toTruck
  rcases Nat.lt_or_ge fromPos o.fleet.length with hfrom | hfrom
  · have hto : toPos < o.fleet.length := by omega
    have hfits : SwapLoop.Fits M toPos fromPos ⟨⟨fromTruck, toTruck⟩, o⟩ :=
      ⟨hfrom, hto, by omega, rfl, .refl M _⟩
    have hsim : _ → Sim M unserving o _ := fun h => SwapLoop.swapOrders_sim
      fromTruck.ordersInVehicle.ids ⟨⟨fromTruck, toTruck⟩, o⟩ hr hfits
      fromTruck.ordersInVehicle.nodup (fun _ h => h) (hr.vehicle hto).movable h
    rcases hu.imp_right fun h : _ ∨ _ ∨ _ => h with hu | hempty | hempty | hu
    · exact hsim (Or.inr (Or.inl hu))
    · rw [show fromTruck.ordersInVehicle.ids = [] from List.isEmpty_iff.mp hempty]
      exact .refl M unserving o
    · exact hsim (Or.inl (List.isEmpty_iff.mp hempty))
    · exact hsim (Or.inr (Or.inr hu))
  · rw [show fromTruck = default from o.vehicle_of_length_le hfrom]
    exact .refl M unserving o

theorem moveReduceCost_sim (fromPos toPos : ℕ) :
    Sim M unserving o (o.moveReduceCost M fromPos toPos) := by
  unfold moveReduceCost
  extract_lets fromTruck toTruck
  have hfold := List.foldlRecOn (motive := fun l : SwapLoop => Sim M unserving o l.opt)
    fromTruck.ordersInVehicle.ids (reduceOrder M) (b := ⟨⟨fromTruck, toTruck⟩, o⟩)
    (.refl M unserving o) fun l hl x _ => by
      unfold reduceOrder
      extract_lets order curr toTruck fromTruck newDuration
      split_ifs
      · exact hl.trans (saveIfBest_sim M unserving l.opt)
      · exact hl
      · exact hl
  split_ifs
  · exact .refl M unserving o
  · exact .refl M unserving o
  · exact hfold

/-- **An operation is a sequence of steps**, none of which is unserving when it is calm. -/
theorem act_sim (a : Act) (hr : o.Ready) (hu : unserving ∨ o.Calm a) :
    Sim M unserving o (o.act S M a) := by
  have hperform : Sim M unserving o (o.perform S M a) := by
    cases a with
    | sortBySize => exact sortBySize_sim S M unserving o
    | decreaseTruck position => exact decreaseTruckAt_sim hr hu
    | deleteEmptyTruck => exact deleteEmptyTruck_sim M unserving o
    | saveIfBest => exact saveIfBest_sim M unserving o
    | swapWorse toPos fromPos =>
      unfold perform
      dsimp only
      split_ifs with h
      · exact swapWorse_sim hr h hu
      · exact .refl M unserving o
    | moveReduceCost fromPos toPos => exact moveReduceCost_sim fromPos toPos
    | rotate => exact .of_step rfl (.permute (o.fleet.rotate_perm 1).symm)
    | takeBest => exact .of_step rfl .reset
  exact hperform.trans (.of_view rfl rfl)

variable (S M) in
/-- Whatever the operation, the optimizer is ready after it. -/
theorem Ready.act (hr : o.Ready) (a : Act) : (o.act S M a).Ready :=
  have hsim : Sim M True o (o.act S M a) := act_sim a hr (Or.inl trivial)
  hsim.ready hr

end Optimize

end VrpRouting.Optimizers.Simple
