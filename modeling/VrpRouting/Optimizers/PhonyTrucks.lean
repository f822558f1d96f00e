import VrpRouting.Optimizers.Conservation

/-! # Phony vehicles without orders

The constructor deletes the phony vehicles without orders from the fleet of the search, and then takes
the fleet of `best_solution` in its place. `move_2_real` saves the best solution right after it took
an order off a phony vehicle, so a phony vehicle that lost its last order stays in the result, unless a
better solution is saved later. A run spares the phony vehicles when no order is served from a phony
vehicle that holds no other one (`SparingRun`); the real vehicles stay in any case. -/

open Sorting

namespace VrpRouting

/-- The vehicle without what the search changes. -/
def Vehicle.bare (v : Vehicle) : Vehicle := { v with path := [], ordersInVehicle := .empty }

section Bare
variable {M : Matrix}

theorem isPhony_of_bare {v w : Vehicle} (h : w.bare = v.bare) : w.isPhony = v.isPhony := by
  have hid : w.bare.id = v.bare.id := congrArg Vehicle.id h
  unfold Vehicle.isPhony
  exact congrArg (fun id : ℤ => decide (id < 0)) hid

theorem bare_eraseOrder (v : Vehicle) (o : Order) : (v.eraseOrder M o).bare = v.bare := by
  rw [eraseOrder_others]
  rfl

@[simp] theorem bare_insert (v : Vehicle) (pos : ℕ) (n : VehicleNode) :
    (v.insert M pos n).bare = v.bare := rfl

@[simp] theorem bare_eraseAt (v : Vehicle) (pos : ℕ) : (v.eraseAt M pos).bare = v.bare := rfl

@[simp] theorem bare_eraseNode (v : Vehicle) (pos : ℕ) : (v.eraseNode pos).bare = v.bare := rfl

@[simp] theorem bare_swap (v : Vehicle) (i j : ℕ) : (v.swap M i j).bare = v.bare := rfl

@[simp] theorem bare_withOrders (v : Vehicle) (s : Identifiers ℕ) :
    ({ v with ordersInVehicle := s } : Vehicle).bare = v.bare := rfl

theorem bare_climbDeliver (cur : ℤ) (pick : ℕ) : ∀ (passes pos : ℕ) (b : BestPositions) (v : Vehicle),
    (Vehicle.climbDeliver M cur pick passes pos b v).2.2.bare = v.bare
  | 0, _, _, _ => rfl
  | passes + 1, pos, b, v => by
    unfold Vehicle.climbDeliver
    extract_lets best
    split_ifs
    · rfl
    · rw [bare_climbDeliver cur pick passes, bare_swap]

theorem bare_climbPick (cur : ℤ) (o : Order) (dpos : ℕ × ℕ) :
    ∀ (passes pick : ℕ) (b : BestPositions) (v : Vehicle),
      (Vehicle.climbPick M cur o dpos passes pick b v).2.2.bare = v.bare
  | 0, _, _, _ => rfl
  | passes + 1, pick, b, v => by
    unfold Vehicle.climbPick
    extract_lets first r v1
    have h1 : v1.bare = v.bare := by
      rw [bare_eraseNode, bare_climbDeliver, bare_insert]
    split_ifs
    · exact h1
    · rw [bare_climbPick cur o dpos passes, bare_swap, h1]

theorem bare_hillClimb (v : Vehicle) (o : Order) : (v.hillClimb M o).2.bare = v.bare := by
  unfold Vehicle.hillClimb
  extract_lets pickPos deliverPos r v1 v2
  have h1 : v1.bare = v.bare := by
    rw [bare_eraseAt, bare_climbPick, bare_insert]
  have h2 : v2.bare = v1.bare := by
    rw [bare_insert, bare_insert]
  clear_value v2 v1 r
  split_ifs
  · rfl
  · rfl
  · exact h1
  · rw [bare_withOrders, h2, h1]

end Bare

namespace Optimizers.Tabu

/-- Every phony vehicle of the fleet has an order. -/
def NoEmptyPhony (F : List Vehicle) : Prop :=
  ∀ v ∈ F, v.isPhony = true → v.ordersInVehicle.isEmpty = false

instance (F : List Vehicle) : Decidable (NoEmptyPhony F) := by unfold NoEmptyPhony; infer_instance

/-- The real vehicles of the fleet, without what the search changes. -/
def realTrucks (F : List Vehicle) : List Vehicle :=
  (F.filter fun v => !v.isPhony).map Vehicle.bare

/-! ### Fleets -/

section Fleets
variable {F F' R : List Vehicle} {a b a' b' : Vehicle}

theorem NoEmptyPhony.perm (h : NoEmptyPhony F) (hF : F'.Perm F) : NoEmptyPhony F' :=
  fun v hv => h v (hF.mem_iff.mp hv)

theorem NoEmptyPhony.withoutEmpty (h : NoEmptyPhony F) : NoEmptyPhony (withoutEmpty F) :=
  fun v hv => h v (List.mem_filter.mp hv).1

theorem realTrucks_perm (h : F.Perm F') : (realTrucks F).Perm (realTrucks F') := (h.filter _).map _

theorem realTrucks_withoutEmpty : realTrucks (withoutEmpty F) = realTrucks F := by
  unfold realTrucks withoutEmpty
  rw [List.filter_filter]
  congr 1
  refine List.filter_congr fun v _ => ?_
  cases v.isPhony <;> simp

/-- Two vehicles change what they carry. -/
theorem realTrucks_replace (hF : F.Perm (a :: b :: R)) (hF' : F'.Perm (a' :: b' :: R))
    (ha : a'.bare = a.bare) (hb : b'.bare = b.bare) :
    (realTrucks F').Perm (realTrucks F) := by
  have h : realTrucks (a' :: b' :: R) = realTrucks (a :: b :: R) := by
    simp only [realTrucks, List.filter_cons, isPhony_of_bare ha, isPhony_of_bare hb]
    cases a.isPhony <;> cases b.isPhony <;> simp [ha, hb]
  exact (realTrucks_perm hF').trans ((List.Perm.of_eq h).trans (realTrucks_perm hF).symm)

end Fleets

/-! ### The elementary operations of the search -/

/-- What the search does between two looks at its flags. -/
inductive Act
  /-- The order `oId` of the phony vehicle at a position, in `move_2_real`. -/
  | moveOrder (phony oId : ℕ)
  | clearMemory
  | singlePairInsertion (intensify diversify : Bool)
  | swapBetweenRoutes (intensify diversify : Bool)
  /-- `m_fleet = best_solution.fleet()`. -/
  | reset
  | deleteEmptyTruck
  | setTabuListLength
deriving DecidableEq, Repr

namespace Optimize

variable (S : Sorter) (M : Matrix) (o : Optimize)

def act (o : Optimize) : Act → Optimize
  | .moveOrder phony oId =>
    if (o.vehicle phony).isPhony then (moveOrder M phony (false, o) oId).2 else o
  | .clearMemory => { o with tabuList := o.tabuList.clear }
  | .singlePairInsertion i d => (o.singlePairInsertion S M i d).2
  | .swapBetweenRoutes i d => (o.swapBetweenRoutes S M i d).2
  | .reset => { o with fleet := o.bestSolution.fleet }
  | .deleteEmptyTruck => o.deleteEmptyTruck
  | .setTabuListLength => o.setTabuListLength

/-- A phony vehicle from which an order is served holds another one. -/
def Spares : Act → Prop
  | .moveOrder phony oId => (o.vehicle phony).isPhony = true → (o.bestReal M phony oId).bestScore ≠ 0 →
      ∃ i ∈ (o.vehicle phony).ordersInVehicle.ids, i ≠ (o.orders.get oId).idx
  | _ => True

instance (a : Act) : Decidable (o.Spares M a) := by
  cases a <;> unfold Spares <;> infer_instance

end Optimize

open Optimize

variable (S : Sorter) (M : Matrix)

def runActs (o : Optimize) (acts : List Act) : Optimize := acts.foldl (Optimize.act S M) o

/-- Every operation spares the phony vehicles, in the state before it. -/
def SparingRun : Optimize → List Act → Prop
  | _, [] => True
  | o, a :: acts => o.Spares M a ∧ SparingRun (o.act S M a) acts

instance SparingRun.decidable : ∀ (acts : List Act) (o : Optimize), Decidable (SparingRun S M o acts)
  | [], _ => inferInstanceAs (Decidable True)
  | a :: acts, o =>
    have := SparingRun.decidable acts (o.act S M a)
    inferInstanceAs (Decidable (o.Spares M a ∧ SparingRun S M (o.act S M a) acts))

/-! ### What an operation does to the fleets -/

/-- A property of fleets that the vehicles of a move between real vehicles do not matter for. -/
structure Closed (P : List Vehicle → Prop) : Prop where
  perm : ∀ {F F'}, F'.Perm F → P F → P F'
  withoutEmpty : ∀ {F}, P F → P (withoutEmpty F)
  replace : ∀ {F F' R a b a' b'}, F.Perm (a :: b :: R) → F'.Perm (a' :: b' :: R) →
    a.isPhony = false → b.isPhony = false → a'.bare = a.bare → b'.bare = b.bare → P F → P F'

theorem noEmptyPhony_closed : Closed NoEmptyPhony where
  perm hF h := h.perm hF
  withoutEmpty h := h.withoutEmpty
  replace hF hF' ha hb ha' hb' h := by
    refine forall_mem_of_perm₂ (P := fun v => v.isPhony = true → v.ordersInVehicle.isEmpty = false)
      hF hF' h fun _ _ => ⟨fun hp => ?_, fun hp => ?_⟩
    · rw [isPhony_of_bare ha', ha] at hp
      cases hp
    · rw [isPhony_of_bare hb', hb] at hp
      cases hp

theorem realTrucks_closed (F₀ : List Vehicle) :
    Closed fun F => (realTrucks F).Perm (realTrucks F₀) where
  perm hF h := (realTrucks_perm hF).trans h
  withoutEmpty h := by rwa [realTrucks_withoutEmpty]
  replace hF hF' _ _ ha hb h := (realTrucks_replace hF hF' ha hb).trans h

/-- The property holds of both fleets of the search. -/
structure Both (P : List Vehicle → Prop) (o : Optimize) : Prop where
  fleet : P o.fleet
  best : P o.bestSolution.fleet

section Effect
variable {S M} {P : List Vehicle → Prop} {o : Optimize}

theorem Both.saveIfBest (h : Both P o) : Both P o.saveIfBest := by
  unfold Optimize.saveIfBest
  split_ifs
  · exact ⟨h.fleet, h.fleet⟩
  · exact h

theorem Both.replace (hP : Closed P) (h : Both P o) {i j : ℕ} (hp : o.RealPair i j) {a b : Vehicle}
    (ha : a.bare = (o.vehicle i).bare) (hb : b.bare = (o.vehicle j).bare) :
    P ((o.fleet.set i a).set j b) := by
  obtain ⟨R, hF, hF'⟩ := o.exists_perm_vehicles hp.from_lt hp.to_lt hp.ne a b
  exact hP.replace hF hF' hp.from_real hp.to_real ha hb h.fleet

theorem Both.singlePairInsertion (hP : Closed P) (h : Both P o) (i d : Bool) :
    Both P (o.singlePairInsertion S M i d).2 := by
  unfold Optimize.singlePairInsertion
  extract_lets o1 s
  have h1 : Both P o1 := ⟨hP.perm (o.sortBySize_perm S true) h.fleet, h.best⟩
  split_ifs with hs
  · have ht := o1.searchInsertion_found M i d hs
    have hfl := o1.fleet_applyInsertion M s ht.ne
    have h2 := h1.replace hP ht.toRealPair (bare_eraseOrder (M := M) _ s.bestFromOrder)
      (bare_hillClimb (M := M) _ s.bestFromOrder)
    rw [← hfl] at h2
    simp only [applyInsertion, fleet_saveIfBest] at h2 ⊢
    exact Both.saveIfBest ⟨h2, h1.best⟩
  · exact ⟨h1.fleet, h1.best⟩

theorem Both.swapBetweenRoutes (hP : Closed P) (h : Both P o) (i d : Bool) :
    Both P (o.swapBetweenRoutes S M i d).2 := by
  unfold Optimize.swapBetweenRoutes
  extract_lets o1 s
  have h1 : Both P o1 := ⟨hP.perm (o.sortBySize_perm S false) h.fleet, h.best⟩
  split_ifs with hs
  · have ht := o1.searchSwap_found M i d hs
    have hfl := o1.fleet_applySwap M s ht.toRealPair
    have h2 := h1.replace hP ht.toRealPair
      ((bare_hillClimb (M := M) _ s.bestToOrder).trans (bare_eraseOrder (M := M) _ s.bestFromOrder))
      ((bare_hillClimb (M := M) _ s.bestFromOrder).trans (bare_eraseOrder (M := M) _ s.bestToOrder))
    rw [← hfl] at h2
    simp only [applySwap, fleet_saveIfBest] at h2 ⊢
    exact Both.saveIfBest ⟨h2, h1.best⟩
  · exact ⟨h1.fleet, h1.best⟩

/-- An order that is served: its phony vehicle loses it, and the new fleet is the best one. -/
theorem moveOrder_fleet {phony oId : ℕ} (hp : (o.vehicle phony).isPhony = true)
    (hs : (o.bestReal M phony oId).bestScore ≠ 0) : ∃ b b' R,
      o.fleet.Perm (o.vehicle phony :: b :: R) ∧ b.isPhony = false ∧ b'.bare = b.bare ∧
      (o.act S M (.moveOrder phony oId)).fleet.Perm
        ((o.vehicle phony).eraseOrder M (o.orders.get oId) :: b' :: R) ∧
      (o.act S M (.moveOrder phony oId)).bestSolution.fleet =
        (o.act S M (.moveOrder phony oId)).fleet := by
  have ht := o.bestReal_tried M hs
  have hlt : phony < o.fleet.length := by
    by_contra hlt
    have hd : o.vehicle phony = default := List.getD_eq_default _ _ (by omega)
    rw [hd] at hp
    exact absurd hp (by decide)
  obtain ⟨R, hF, hF'⟩ := o.exists_perm_vehicles hlt ht.lt ht.ne
    ((o.vehicle phony).eraseOrder M (o.orders.get oId))
    ((o.vehicle (o.bestReal M phony oId).bestVehicleRef).hillClimb M (o.orders.get oId)).2
  have hfl : (o.act S M (.moveOrder phony oId)).fleet =
      (o.fleet.set phony ((o.vehicle phony).eraseOrder M (o.orders.get oId))).set
        (o.bestReal M phony oId).bestVehicleRef
        ((o.vehicle (o.bestReal M phony oId).bestVehicleRef).hillClimb M (o.orders.get oId)).2 := by
    rw [← vehicle_setVehicle_ne o ht.ne ((o.vehicle phony).eraseOrder M (o.orders.get oId))]
    unfold Optimize.act moveOrder
    simp only [hp, if_true, if_pos hs]
    rfl
  refine ⟨_, _, R, hF, ht.real, bare_hillClimb (M := M) _ (o.orders.get oId), ?_, ?_⟩
  · rw [hfl]
    exact hF'
  · unfold Optimize.act moveOrder
    simp only [hp, if_true, if_pos hs]
    rfl

/-- No order is served: nothing changes. -/
theorem moveOrder_eq {phony oId : ℕ}
    (h : ¬ ((o.vehicle phony).isPhony = true ∧ (o.bestReal M phony oId).bestScore ≠ 0)) :
    o.act S M (.moveOrder phony oId) = o := by
  unfold Optimize.act moveOrder
  by_cases hp : (o.vehicle phony).isPhony = true
  · simp only [hp, if_true]
    rw [if_neg fun hs => h ⟨hp, hs⟩]
  · simp only [if_neg hp]

/-- **An operation keeps the property**, if serving an order does. -/
theorem Both.act (hP : Closed P) (h : Both P o) (a : Act)
    (hserve : ∀ phony oId, a = .moveOrder phony oId → (o.vehicle phony).isPhony = true →
      (o.bestReal M phony oId).bestScore ≠ 0 → P (o.act S M a).fleet) : Both P (o.act S M a) := by
  cases a with
  | moveOrder phony oId =>
    by_cases hc : (o.vehicle phony).isPhony = true ∧ (o.bestReal M phony oId).bestScore ≠ 0
    · have h1 := hserve phony oId rfl hc.1 hc.2
      obtain ⟨-, -, -, -, -, -, -, hbest⟩ := moveOrder_fleet (S := S) hc.1 hc.2
      exact ⟨h1, hbest ▸ h1⟩
    · rw [moveOrder_eq hc]
      exact h
  | clearMemory => exact ⟨h.fleet, h.best⟩
  | singlePairInsertion i d => exact h.singlePairInsertion hP i d
  | swapBetweenRoutes i d => exact h.swapBetweenRoutes hP i d
  | reset => exact ⟨h.best, h.best⟩
  | deleteEmptyTruck => exact ⟨hP.withoutEmpty h.fleet, h.best⟩
  | setTabuListLength => exact ⟨h.fleet, h.best⟩

end Effect

/-! ### Sparing runs -/

section Sparing
variable {S M} {o : Optimize}

theorem Both.spares (h : Both NoEmptyPhony o) {a : Act} (ha : o.Spares M a) :
    Both NoEmptyPhony (o.act S M a) := by
  refine h.act noEmptyPhony_closed a ?_
  rintro phony oId rfl hp hs
  obtain ⟨b, b', R, hF, hb, hb', hF', -⟩ := moveOrder_fleet (S := S) hp hs
  refine forall_mem_of_perm₂ (P := fun v => v.isPhony = true → v.ordersInVehicle.isEmpty = false)
    hF hF' h.fleet fun _ _ => ⟨fun _ => ?_, fun hp' => ?_⟩
  · obtain ⟨i, hi, hne⟩ := ha hp hs
    rw [Identifiers.isEmpty_eq_false, eraseOrder_others]
    exact ⟨i, Identifiers.mem_erase.mpr ⟨hi, hne⟩⟩
  · rw [isPhony_of_bare hb', hb] at hp'
    cases hp'

/-- When an operation does not spare them, the best solution has an empty phony vehicle. -/
theorem spares_of_best {a : Act} (h : NoEmptyPhony (o.act S M a).bestSolution.fleet) :
    o.Spares M a := by
  cases a with
  | moveOrder phony oId =>
    intro hp hs
    obtain ⟨b, b', R, -, -, -, hF', hbest⟩ := moveOrder_fleet (S := S) hp hs
    have hmem : (o.vehicle phony).eraseOrder M (o.orders.get oId) ∈
        (o.act S M (.moveOrder phony oId)).bestSolution.fleet := by
      rw [hbest]
      exact hF'.mem_iff.mpr (by simp)
    have hne := h _ hmem (by rw [isPhony_eraseOrder]; exact hp)
    rw [Identifiers.isEmpty_eq_false, eraseOrder_others] at hne
    obtain ⟨i, hi⟩ := hne
    exact ⟨i, Identifiers.mem_erase.mp hi⟩
  | _ => exact trivial

variable (S M)

/-- **A run keeps its best solutions without empty phony vehicles exactly when it spares them.** -/
theorem sparingRun_iff : ∀ (acts : List Act) {o : Optimize}, Both NoEmptyPhony o →
    ((∀ pre, pre <+: acts → NoEmptyPhony (runActs S M o pre).bestSolution.fleet) ↔
      SparingRun S M o acts)
  | [], o, h => by
    refine ⟨fun _ => trivial, fun _ pre hpre => ?_⟩
    rw [List.prefix_nil.mp hpre]
    exact h.best
  | a :: acts, o, h => by
    constructor
    · intro hall
      have ha : o.Spares M a := spares_of_best (S := S) (hall [a] (by simp))
      refine ⟨ha, (sparingRun_iff acts (h.spares ha)).mp fun pre hpre => ?_⟩
      exact hall (a :: pre) (List.cons_prefix_cons.mpr ⟨rfl, hpre⟩)
    · rintro ⟨ha, hacts⟩ pre hpre
      rcases List.prefix_cons_iff.mp hpre with rfl | ⟨pre', rfl, hpre'⟩
      · exact h.best
      · exact (sparingRun_iff acts (h.spares ha)).mpr hacts pre' hpre'

theorem runActs_realTrucks (F₀ : List Vehicle) : ∀ (acts : List Act) {o : Optimize},
    Both (fun F => (realTrucks F).Perm (realTrucks F₀)) o →
    Both (fun F => (realTrucks F).Perm (realTrucks F₀)) (runActs S M o acts)
  | [], _, h => h
  | a :: acts, o, h => by
    refine runActs_realTrucks F₀ acts (h.act (realTrucks_closed F₀) a ?_)
    rintro phony oId rfl hp hs
    obtain ⟨b, b', R, hF, -, hb', hF', -⟩ := moveOrder_fleet (S := S) hp hs
    exact (realTrucks_replace hF hF' (bare_eraseOrder _ _) hb').trans h.fleet

end Sparing

/-! ### The search is a run -/

section Search
variable {S M} {o o₁ o₂ : Optimize}

/-- `o'` is the end of a run of elementary operations from `o`. -/
def Leads (S : Sorter) (M : Matrix) (o o' : Optimize) : Prop := ∃ acts, runActs S M o acts = o'

theorem Leads.refl (o : Optimize) : Leads S M o o := ⟨[], rfl⟩

theorem Leads.trans (h : Leads S M o o₁) (h' : Leads S M o₁ o₂) : Leads S M o o₂ := by
  obtain ⟨acts, rfl⟩ := h
  obtain ⟨acts', rfl⟩ := h'
  exact ⟨acts ++ acts', List.foldl_append ..⟩

theorem Leads.act (h : Leads S M o o₁) (a : Act) : Leads S M o (o₁.act S M a) :=
  h.trans ⟨[a], rfl⟩

theorem Leads.ite {c : Prop} [Decidable c] (h : Leads S M o o₁) (h' : Leads S M o o₂) :
    Leads S M o (if c then o₁ else o₂) := iteInduction (fun _ => h) fun _ => h'

theorem isPhony_setVehicle {i : ℕ} {v : Vehicle} (h : v.isPhony = (o.vehicle i).isPhony) (j : ℕ) :
    ((o.setVehicle i v).vehicle j).isPhony = (o.vehicle j).isPhony := by
  by_cases hij : i = j
  · subst hij
    by_cases hi : i < o.fleet.length
    · rw [o.vehicle_setVehicle_self hi, h]
    · unfold Optimize.vehicle Optimize.setVehicle
      rw [List.set_eq_of_length_le (by omega)]
  · rw [o.vehicle_setVehicle_ne hij]

theorem isPhony_moveOrder (s : Bool × Optimize) (phony oId j : ℕ) :
    ((moveOrder M phony s oId).2.vehicle j).isPhony = (s.2.vehicle j).isPhony := by
  unfold moveOrder
  extract_lets o order b o1 o2
  split_ifs
  · have h1 := isPhony_setVehicle (o := o) (i := phony) (isPhony_eraseOrder (M := M) _ order) j
    have h2 := isPhony_setVehicle (o := o1) (i := b.bestVehicleRef)
      (isPhony_of_bare (bare_hillClimb (M := M) _ order)) j
    exact h2.trans h1
  · rfl

/-- The orders of a phony vehicle, one after the other. -/
theorem moveOrders_leads (phony : ℕ) : ∀ (l : List ℕ) (s : Bool × Optimize),
    (s.2.vehicle phony).isPhony = true → Leads S M o s.2 →
    Leads S M o (l.foldl (moveOrder M phony) s).2
  | [], _, _, h => h
  | oId :: l, s, hp, h => by
    refine moveOrders_leads phony l _ ((isPhony_moveOrder s phony oId phony).trans hp) ?_
    have h1 := h.act (.moveOrder phony oId)
    unfold Optimize.act at h1
    simp only [hp, if_true] at h1
    unfold moveOrder at h1 ⊢
    dsimp only at h1 ⊢
    split_ifs with hc
    · rwa [if_pos hc] at h1
    · exact h

theorem move2Real_leads (h : Leads S M o o₁) : Leads S M o (o₁.move2Real M).2 := by
  unfold Optimize.move2Real
  refine iteInduction (motive := fun r : Bool × Optimize => Leads S M o r.2) (fun _ => h) fun _ => ?_
  have hfold : Leads S M o ((List.range o₁.fleet.length).foldl (emptyPhony M) (false, o₁)).2 := by
    refine List.foldlRecOn (motive := fun s : Bool × Optimize => Leads S M o s.2) _ (emptyPhony M) h
      fun s hs phony _ => ?_
    unfold emptyPhony
    extract_lets v
    split_ifs with hc
    · exact hs
    · simp only [Vehicle.isReal, Bool.or_eq_true, Bool.not_eq_true', not_or, Bool.not_eq_false] at hc
      exact moveOrders_leads phony _ s hc.1 hs
  exact (hfold.act .clearMemory).ite hfold

theorem leads_kept : Kept S M (Leads S M o) where
  move2Real := move2Real_leads
  singlePairInsertion i d h := h.act (.singlePairInsertion i d)
  swapBetweenRoutes i d h := h.act (.swapBetweenRoutes i d)
  reset h := h.act .reset
  deleteEmptyTruck h := h.act .deleteEmptyTruck
  setTabuListLength h := h.act .setTabuListLength

end Search

/-! ### The result of the search -/

/-- **Phony vehicles without orders, and the real vehicles.** The best solutions of a run have no
phony vehicle without orders exactly when the starting fleet has none and the run spares them; the
constructor leaves the best solution of such a run; and its fleet has the real vehicles that the
starting fleet has. -/
theorem construct_phony_trucks (S : Sorter) (M : Matrix) (sol : Solution) (maxCycles : ℕ)
    (stopOnAllServed optimize : Bool) :
    let start := started S sol maxCycles stopOnAllServed optimize
    let o := Optimize.construct S M sol maxCycles stopOnAllServed optimize
    (∀ acts, (∀ pre, pre <+: acts → NoEmptyPhony (runActs S M start pre).bestSolution.fleet) ↔
      NoEmptyPhony sol.fleet ∧ SparingRun S M start acts) ∧
    (∃ acts, (runActs S M start acts).bestSolution.fleet = o.fleet ∧
      (runActs S M start acts).bestLog = o.bestLog ∧
      (NoEmptyPhony sol.fleet ∧ SparingRun S M start acts → NoEmptyPhony o.fleet)) ∧
    (realTrucks o.fleet).Perm (realTrucks sol.fleet) := by
  intro start o
  have hperm : start.fleet.Perm sol.fleet := started_perm S sol maxCycles stopOnAllServed optimize
  have hboth : NoEmptyPhony sol.fleet → Both NoEmptyPhony start := fun h => ⟨h.perm hperm, h⟩
  have hruns : ∀ acts, (∀ pre, pre <+: acts →
      NoEmptyPhony (runActs S M start pre).bestSolution.fleet) ↔
      NoEmptyPhony sol.fleet ∧ SparingRun S M start acts := by
    intro acts
    constructor
    · intro h
      have h0 : NoEmptyPhony sol.fleet := h [] List.nil_prefix
      exact ⟨h0, (sparingRun_iff S M acts (hboth h0)).mp h⟩
    · rintro ⟨h0, hacts⟩
      exact (sparingRun_iff S M acts (hboth h0)).mpr hacts
  obtain ⟨ops, hfleet, -, hlog⟩ := construct_run S M sol maxCycles stopOnAllServed optimize
  obtain ⟨acts, hacts⟩ := (leads_kept (S := S) (M := M)).run (Leads.refl start) ops
  have hbest : (runActs S M start acts).bestSolution.fleet = o.fleet := by
    rw [hacts]
    exact hfleet.symm
  refine ⟨hruns, ⟨acts, hbest, ?_, fun h => ?_⟩, ?_⟩
  · rw [hacts]
    exact hlog.symm
  · rw [← hbest]
    exact (hruns acts).mpr h acts List.prefix_rfl
  · have hreal := (runActs_realTrucks S M sol.fleet acts ⟨realTrucks_perm hperm, .refl _⟩).best
    rwa [hbest] at hreal

/-- The order of the phony vehicle is served, and the vehicle stays in the result. -/
theorem construct_keeps_empty_phony :
    ∃ v ∈ (Optimize.construct .insertion twoSites smallSolution 0 false false).fleet,
      v.isPhony = true ∧ v.ordersInVehicle.isEmpty = true := by decide +kernel

/-- A real vehicle without orders in which the order 0 fits, and a phony one with both orders. -/
def sparedSolution : Solution :=
  ⟨[{ Vehicle.construct twoSites 0 7 (smallStart 0) (smallEnd 0) [] 1 1 smallOrders with
      feasibleOrders := .upTo 1 },
    { smallVehicle 1 (-1) with
      path := evaluatePath twoSites 1 1 0 [smallStart 1, (smallOrder 0).pickup,
        (smallOrder 0).delivery, (smallOrder 1).pickup, (smallOrder 1).delivery, smallEnd 1]
      ordersInVehicle := .upTo 2 }], smallOrders, ⟨[], .empty, .empty, .empty⟩⟩

/-- The order 0 is served, the phony vehicle keeps the order 1. -/
theorem construct_phony_trucks_small : NoEmptyPhony (runActs .insertion twoSites
    (started .insertion sparedSolution 0 false false)
    [.moveOrder 0 0, .moveOrder 0 1, .clearMemory, .deleteEmptyTruck]).bestSolution.fleet :=
  ((construct_phony_trucks .insertion twoSites sparedSolution 0 false false).1
    [.moveOrder 0 0, .moveOrder 0 1, .clearMemory, .deleteEmptyTruck]).mpr
      ⟨by decide +kernel, by decide +kernel⟩ _ List.prefix_rfl

end Optimizers.Tabu

end VrpRouting
