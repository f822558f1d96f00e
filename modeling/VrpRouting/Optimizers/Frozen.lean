import VrpRouting.Optimizers.Conservation

/-! # Frozen orders stay put

An order is frozen on a vehicle when it is on its path and the vehicle may not give it away, which is
what `set_unmovable` does to the orders that start before the execution date. When a frozen order is
in no movable set, no step touches one of its stops: the label of every real vehicle, its stops of
frozen orders, is the same after every run. -/

open Sorting

namespace VrpRouting.Optimizers.Tabu

/-- The order is on the path of the vehicle, and not among the orders it may give away. -/
structure FrozenOn (orders : Orders) (v : Vehicle) (i : ℕ) : Prop where
  lt : i < orders.length
  visited : visits (orders.get i) (nodesOf v.path) ≠ []
  fixed : i ∉ v.ordersInVehicle

instance (orders : Orders) (v : Vehicle) (i : ℕ) : Decidable (FrozenOn orders v i) :=
  decidable_of_iff (i < orders.length ∧ visits (orders.get i) (nodesOf v.path) ≠ [] ∧
    i ∉ v.ordersInVehicle) ⟨fun h => ⟨h.1, h.2.1, h.2.2⟩, fun h => ⟨h.lt, h.visited, h.fixed⟩⟩

/-- The node belongs to an order of `Z`. -/
def ofOrders (orders : Orders) (Z : ℕ → Bool) (t : TwNode) : Bool :=
  (List.range orders.length).any fun i => Z i && isNodeOf (orders.get i) t

/-- The stops of the orders of `Z`, in the order of the path. -/
def stopsIn (orders : Orders) (Z : ℕ → Bool) (v : Vehicle) : List TwNode :=
  (nodesOf v.path).filter (ofOrders orders Z)

/-- The identity of a vehicle with its stops of orders of `Z`. -/
def label (orders : Orders) (Z : ℕ → Bool) (v : Vehicle) : ℕ × ℤ × List TwNode :=
  (v.idx, v.id, stopsIn orders Z v)

def labels (orders : Orders) (Z : ℕ → Bool) (F : List Vehicle) : List (ℕ × ℤ × List TwNode) :=
  (F.filter fun v => !v.isPhony).map (label orders Z)

section Label
variable {M : Matrix} {orders : Orders} (ho : orders.WellFormed) {Z : ℕ → Bool} {v w : Vehicle}
  {o : ℕ}

theorem ofOrders_iff {t : TwNode} : ofOrders orders Z t = true ↔
    ∃ i < orders.length, Z i = true ∧ isNodeOf (orders.get i) t = true := by
  simp [ofOrders]

theorem ofOrders_eq_false {t : TwNode} (h : ∀ i < orders.length, Z i = true →
    isNodeOf (orders.get i) t = false) : ofOrders orders Z t = false := by
  rw [← Bool.not_eq_true, ofOrders_iff]
  rintro ⟨i, hi, hz, ht⟩
  rw [h i hi hz] at ht
  cases ht

theorem label_isPhony (h : label orders Z w = label orders Z v) : w.isPhony = v.isPhony := by
  unfold Vehicle.isPhony
  rw [show w.id = v.id from congrArg (fun l => l.2.1) h]

include ho in
theorem label_eraseOrder (hlt : o < orders.length) (hv : NoDump v.path) (hz : Z o = false) :
    label orders Z (v.eraseOrder M (orders.get o)) = label orders Z v := by
  have hne : ∀ i, Z i = true → i ≠ o := by
    rintro i hi rfl
    rw [hz] at hi
    cases hi
  have hs : stopsIn orders Z (v.eraseOrder M (orders.get o)) = stopsIn orders Z v := by
    unfold stopsIn
    rw [eraseOrder_nodes hv, ListEdit.filter_eraseP_of_neg, ListEdit.filter_eraseP_of_neg]
    · exact fun t ht => ofOrders_eq_false fun i hi hzi =>
        isNodeOf_of_hasIdx_pickup ho hi hlt (hne i hzi) t ht
    · exact fun t ht => ofOrders_eq_false fun i hi hzi =>
        isNodeOf_of_hasIdx_delivery ho hi hlt (hne i hzi) t ht
  unfold label
  rw [hs, eraseOrder_others]

include ho in
theorem label_inserted (hlt : o < orders.length) (h : Inserted M v (orders.get o) w)
    (hz : Z o = false) : label orders Z w = label orders Z v := by
  have hne : ∀ i, Z i = true → i ≠ o := by
    rintro i hi rfl
    rw [hz] at hi
    cases hi
  obtain ⟨p, d, -, -, -, hN⟩ := h.positions
  have hs : stopsIn orders Z w = stopsIn orders Z v := by
    unfold stopsIn
    rw [hN, ListEdit.filter_insertIdx_of_neg, ListEdit.filter_insertIdx_of_neg]
    · exact ofOrders_eq_false fun i hi hzi => isNodeOf_pickup ho hi hlt (hne i hzi)
    · exact ofOrders_eq_false fun i hi hzi => isNodeOf_delivery ho hi hlt (hne i hzi)
  unfold label
  rw [hs, h.others]

include ho in
theorem label_placed (hlt : o < orders.length) (h : Placed M v (orders.get o) w)
    (hz : Z o = false) : label orders Z w = label orders Z v := by
  rcases h with ⟨h, -⟩ | ⟨h, -⟩
  · exact label_inserted ho hlt h hz
  · have hs : stopsIn orders Z w = stopsIn orders Z v := by
      unfold stopsIn
      rw [h.nodes]
    have := h.others
    unfold SameButPath at this
    unfold label
    rw [hs, this]

end Label

/-! ### The invariant -/

/-- No vehicle may give away an order of `Z`. -/
def Keeps (Z : ℕ → Bool) (F : List Vehicle) : Prop := ∀ v ∈ F, ∀ i ∈ v.ordersInVehicle, Z i = false

/-- The invariant of a run. -/
structure View.Labelled (orders : Orders) (Z : ℕ → Bool) (F₀ : List Vehicle) (s : View) : Prop where
  fleet : (labels orders Z s.fleet).Perm (labels orders Z F₀)
  best : (labels orders Z s.best).Perm (labels orders Z F₀)
  keeps_fleet : Keeps Z s.fleet
  keeps_best : Keeps Z s.best

section Run
variable {M : Matrix} {orders : Orders} {Z : ℕ → Bool} {F F' F₀ R : List Vehicle}
  {a b a' b' : Vehicle}

theorem labels_perm (h : F.Perm F') : (labels orders Z F).Perm (labels orders Z F') :=
  (h.filter _).map _

theorem labels_withoutEmpty : labels orders Z (withoutEmpty F) = labels orders Z F := by
  unfold labels withoutEmpty
  rw [List.filter_filter]
  congr 1
  refine List.filter_congr fun v _ => ?_
  cases v.isPhony <;> simp

/-- Two vehicles are replaced by two with the same labels. -/
theorem labels_replace (hF : F.Perm (a :: b :: R)) (hF' : F'.Perm (a' :: b' :: R))
    (ha : label orders Z a' = label orders Z a) (hb : label orders Z b' = label orders Z b) :
    (labels orders Z F').Perm (labels orders Z F) := by
  have h : labels orders Z (a' :: b' :: R) = labels orders Z (a :: b :: R) := by
    simp only [labels, List.filter_cons, label_isPhony ha, label_isPhony hb]
    cases a.isPhony <;> cases b.isPhony <;> simp [ha, hb]
  exact (labels_perm hF').trans ((List.Perm.of_eq h).trans (labels_perm hF).symm)

theorem Keeps.replace (hk : Keeps Z F) (hF : F.Perm (a :: b :: R))
    (hF' : F'.Perm (a' :: b' :: R))
    (ha : ∀ i ∈ a'.ordersInVehicle, i ∈ a.ordersInVehicle ∨ i ∈ b.ordersInVehicle)
    (hb : ∀ i ∈ b'.ordersInVehicle, i ∈ a.ordersInVehicle ∨ i ∈ b.ordersInVehicle) :
    Keeps Z F' := by
  refine forall_mem_of_perm₂ (P := fun v => ∀ i ∈ v.ordersInVehicle, Z i = false) hF hF' hk
    fun hka hkb => ⟨fun i hi => ?_, fun i hi => ?_⟩
  · exact (ha i hi).elim (hka i) (hkb i)
  · exact (hb i hi).elim (hka i) (hkb i)

theorem Step.labelled (ho : orders.WellFormed) {s s' : View} (hr : s.Ready orders)
    (hs : s.Labelled orders Z F₀) (h : Step M orders s s') : s'.Labelled orders Z F₀ := by
  have hfleet : ∀ {F : List Vehicle}, (labels orders Z F).Perm (labels orders Z s.fleet) →
      Keeps Z F → View.Labelled orders Z F₀ { s with fleet := F } :=
    fun h hk => ⟨h.trans hs.fleet, hs.best, hk, hs.keeps_best⟩
  cases h with
  | permute h => exact hfleet (labels_perm h.symm) fun v hv => hs.keeps_fleet v (h.mem_iff.mpr hv)
  | dropEmpty =>
    exact hfleet (.of_eq labels_withoutEmpty) fun v hv => hs.keeps_fleet v (List.mem_filter.mp hv).1
  | @serve a b b' R F o hF ha hb hao hbo hb' hf hF' =>
    obtain ⟨ham, hbm⟩ := and_of_perm₂ hF fun _ h => h
    have hlt := (hr.fleet a ham).movable o hao
    have hz := hs.keeps_fleet a ham o hao
    have hl := (labels_replace hF hF' (label_eraseOrder (M := M) ho hlt (hr.fleet a ham).noDump hz)
      (label_inserted ho hlt hb' hz)).trans hs.fleet
    have hplaced : Placed M b (orders.get o) b' := Or.inl ⟨hb', hf⟩
    have hk := hs.keeps_fleet.replace hF hF' (fun i hi => Or.inl (mem_of_mem_eraseOrder hi)) fun i hi =>
      ((hplaced.mem_iff ho hlt).mp hi).imp (fun h : i = o => h ▸ hao) id
    exact ⟨hl, hl, hk, hk⟩
  | @relocate a b b' R F o hF ha hb hao hb' hf hF' =>
    obtain ⟨ham, hbm⟩ := and_of_perm₂ hF fun _ h => h
    have hlt := (hr.fleet a ham).movable o hao
    have hz := hs.keeps_fleet a ham o hao
    exact hfleet (labels_replace hF hF' (label_eraseOrder (M := M) ho hlt (hr.fleet a ham).noDump hz)
      (label_placed ho hlt hb' hz)) (hs.keeps_fleet.replace hF hF'
      (fun i hi => Or.inl (mem_of_mem_eraseOrder hi)) fun i hi =>
        ((hb'.mem_iff ho hlt).mp hi).imp (fun h : i = o => h ▸ hao) id)
  | @exchange a b a' b' R F o₁ o₂ hF ha hb hao hbo ha' hb' hfa hfb hF' =>
    obtain ⟨ham, hbm⟩ := and_of_perm₂ hF fun _ h => h
    have hlt₁ := (hr.fleet a ham).movable o₁ hao
    have hlt₂ := (hr.fleet b hbm).movable o₂ hbo
    have hz₁ := hs.keeps_fleet a ham o₁ hao
    have hz₂ := hs.keeps_fleet b hbm o₂ hbo
    refine hfleet (labels_replace hF hF' ?_ ?_) (hs.keeps_fleet.replace hF hF' ?_ ?_)
    · exact (label_placed ho hlt₂ ha' hz₂).trans
        (label_eraseOrder ho hlt₁ (hr.fleet a ham).noDump hz₁)
    · exact (label_placed ho hlt₁ hb' hz₁).trans
        (label_eraseOrder ho hlt₂ (hr.fleet b hbm).noDump hz₂)
    · exact fun i hi => (((ha'.mem_iff ho hlt₂).mp hi).imp (fun h : i = o₂ => h ▸ hbo)
        mem_of_mem_eraseOrder).symm
    · exact fun i hi => ((hb'.mem_iff ho hlt₁).mp hi).imp (fun h : i = o₁ => h ▸ hao)
        mem_of_mem_eraseOrder
  | save _ => exact ⟨hs.fleet, hs.fleet, hs.keeps_fleet, hs.keeps_fleet⟩
  | reset => exact ⟨hs.best, hs.best, hs.keeps_best, hs.keeps_best⟩

end Run

/-! ### Runs -/

/-- The orders that are frozen on the vehicle. -/
def frozenOrders (orders : Orders) (v : Vehicle) (i : ℕ) : Bool := decide (FrozenOn orders v i)

/-- In the fleet `F` there is exactly one vehicle with the index of `v`; the frozen orders of `v` are
still on it, and their stops are in the same order. -/
def KeepsFrozen (orders : Orders) (v : Vehicle) (F : List Vehicle) : Prop :=
  ∃ w ∈ F, w.isPhony = false ∧ w.idx = v.idx ∧ w.id = v.id ∧
    (∀ i, FrozenOn orders v i →
      visits (orders.get i) (nodesOf w.path) = visits (orders.get i) (nodesOf v.path)) ∧
    stopsIn orders (frozenOrders orders v) w = stopsIn orders (frozenOrders orders v) v ∧
    ∀ u ∈ F, u.isPhony = false → u.idx = v.idx → u = w

/-- Fewer orders: the stops of `Z'` are found among the stops of `Z`. -/
theorem stopsIn_of_label {orders : Orders} {Z : ℕ → Bool} {q : TwNode → Bool} {v w : Vehicle}
    (hq : ∀ t, q t = true → ofOrders orders Z t = true)
    (h : label orders Z w = label orders Z v) :
    (nodesOf w.path).filter q = (nodesOf v.path).filter q := by
  have hf : ∀ u : Vehicle, (nodesOf u.path).filter q = (stopsIn orders Z u).filter q := fun u => by
    unfold stopsIn
    rw [List.filter_filter]
    refine List.filter_congr fun t _ => ?_
    cases hqt : q t with
    | false => simp
    | true => simp [hq t hqt]
  rw [hf, hf, show stopsIn orders Z w = stopsIn orders Z v from congrArg (fun l => l.2.2) h]

theorem keepsFrozen_of_labels {orders : Orders} {Z : ℕ → Bool} {F F₀ : List Vehicle} {v : Vehicle}
    (hv : v ∈ F₀) (hreal : v.isPhony = false) (hZ : ∀ i, FrozenOn orders v i → Z i = true)
    (hidx : ((F₀.filter fun v => !v.isPhony).map Vehicle.idx).Nodup)
    (h : (labels orders Z F).Perm (labels orders Z F₀)) : KeepsFrozen orders v F := by
  have hnodup : ((F.filter fun v => !v.isPhony).map Vehicle.idx).Nodup := by
    have hm : ∀ G : List Vehicle, (labels orders Z G).map Prod.fst =
        (G.filter fun v => !v.isPhony).map Vehicle.idx := fun G => by
      unfold labels
      rw [List.map_map]
      rfl
    rw [← hm]
    exact (h.map Prod.fst).nodup_iff.mpr (by rwa [hm])
  have hmem : label orders Z v ∈ labels orders Z F := by
    rw [h.mem_iff]
    exact List.mem_map.mpr ⟨v, List.mem_filter.mpr ⟨hv, by simp [hreal]⟩, rfl⟩
  obtain ⟨w, hw, hlab⟩ := List.mem_map.mp hmem
  obtain ⟨hwF, hwreal⟩ := List.mem_filter.mp hw
  refine ⟨w, hwF, by simpa using hwreal, congrArg (fun l => l.1) hlab,
    congrArg (fun l => l.2.1) hlab, fun i hi => ?_, ?_, fun u hu hureal huidx => ?_⟩
  · exact stopsIn_of_label (fun t ht => ofOrders_iff.mpr ⟨i, hi.lt, hZ i hi, ht⟩) hlab
  · refine stopsIn_of_label (fun t ht => ?_) hlab
    obtain ⟨i, hi, hf, ht⟩ := ofOrders_iff.mp ht
    exact ofOrders_iff.mpr ⟨i, hi, hZ i (of_decide_eq_true hf), ht⟩
  · refine List.inj_on_of_nodup_map hnodup (List.mem_filter.mpr ⟨hu, by simp [hureal]⟩) hw ?_
    rw [huidx]
    exact (congrArg (fun l => l.1) hlab).symm

/-- **Frozen orders stay put.** -/
theorem run_keeps_frozen (S : Sorter) (M : Matrix) (sol : Solution) (hv : sol.Valid)
    (hidx : ((sol.fleet.filter fun v => !v.isPhony).map Vehicle.idx).Nodup)
    (hfrozen : ∀ v ∈ sol.fleet, ∀ i, FrozenOn sol.orders v i →
      ∀ w ∈ sol.fleet, i ∉ w.ordersInVehicle)
    (maxCycles : ℕ) (stopOnAllServed optimize : Bool) :
    ∀ v ∈ sol.fleet, v.isPhony = false →
      (∀ ops, let o := run S M (started S sol maxCycles stopOnAllServed optimize) ops
        KeepsFrozen sol.orders v o.fleet ∧ KeepsFrozen sol.orders v o.bestSolution.fleet) ∧
      let o := Optimize.construct S M sol maxCycles stopOnAllServed optimize
      KeepsFrozen sol.orders v o.fleet ∧ KeepsFrozen sol.orders v o.bestSolution.fleet := by
  intro v hvF hreal
  let Z : ℕ → Bool := fun i => sol.fleet.any fun v => frozenOrders sol.orders v i
  have hZ : ∀ i, FrozenOn sol.orders v i → Z i = true := fun i hi =>
    List.any_eq_true.mpr ⟨v, hvF, decide_eq_true hi⟩
  have hkeeps : Keeps Z sol.fleet := fun w hw i hi => by
    rw [← Bool.not_eq_true]
    intro hz
    obtain ⟨u, hu, hfz⟩ := List.any_eq_true.mp hz
    exact hfrozen u hu i (of_decide_eq_true hfz) w hw hi
  have hperm := started_perm S sol maxCycles stopOnAllServed optimize
  obtain ⟨hrun, s, hs, h1, h2, -⟩ := hv.run_invariant S M maxCycles stopOnAllServed optimize
    (P := View.Labelled sol.orders Z sol.fleet)
    (fun _ _ hr hs hst => hst.labelled hv.orders hr hs)
    ⟨labels_perm hperm, .refl _, fun w hw => hkeeps w (hperm.mem_iff.mp hw), hkeeps⟩
  have hkf := fun (F : List Vehicle) => keepsFrozen_of_labels (F := F) hvF hreal hZ hidx
  refine ⟨fun ops => ⟨hkf _ (hrun ops).fleet, hkf _ (hrun ops).best⟩, ?_⟩
  dsimp only
  rw [h1, h2]
  exact ⟨hkf _ hs.best, hkf _ hs.best⟩

/-! ### A small solution with a frozen order -/

theorem routeOf_setUnmovable {orders : Orders} {v : Vehicle} (h : RouteOf orders v) (date : ℤ) :
    RouteOf orders (v.setUnmovable date) :=
  ⟨h.route, h.sites, fun i hi => h.movable i (Identifiers.mem_diff.mp hi).1⟩

/-- The order of the real vehicle of the small solution is frozen at time 1. -/
def frozenSolution : Solution :=
  ⟨smallSolution.fleet.map fun v => if v.isPhony then v else v.setUnmovable 1, smallOrders,
    smallSolution.trucks⟩

theorem frozenSolution_valid : frozenSolution.Valid where
  orders := smallOrders_wellFormed
  fleet v hv := by
    obtain ⟨u, hu, rfl⟩ := List.mem_map.mp hv
    have h := smallSolution_valid.fleet u hu
    split_ifs
    · exact h
    · exact routeOf_setUnmovable h 1

/-- The frozen order stays on its vehicle while the other order is served and swaps are tried. -/
theorem run_keeps_frozen_small :
    FrozenOn smallOrders ((smallVehicle 0 7).setUnmovable 1) 0 ∧
    KeepsFrozen smallOrders ((smallVehicle 0 7).setUnmovable 1)
      (run .insertion twoSites (started .insertion frozenSolution 5 false true)
        [.move2Real, .swapBetweenRoutes false true]).fleet :=
  ⟨by decide +kernel, ((run_keeps_frozen .insertion twoSites frozenSolution frozenSolution_valid
    (by decide +kernel) (by
      have h : ∀ v ∈ frozenSolution.fleet, ∀ i < 2, FrozenOn smallOrders v i →
          ∀ w ∈ frozenSolution.fleet, i ∉ w.ordersInVehicle := by decide +kernel
      exact fun v hv i hi => h v hv i hi.lt hi) 5 false true _ List.mem_cons_self
    (by decide +kernel)).1 [.move2Real, .swapBetweenRoutes false true]).1⟩

end VrpRouting.Optimizers.Tabu
