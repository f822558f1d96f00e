import VrpRouting.Driver.Optimize
import VrpRouting.Optimizers.Estimates
import VrpRouting.Optimizers.PathKeys
import VrpRouting.Optimizers.TruckRoutes
import VrpRouting.Problem.Alike

/-! # The memory of infeasible insertions

The search remembers a failed insertion by the key of the route and the order, and never forgets it.
Each entry is a refusal by some vehicle in some situation (`Refusals`); the key does not show which
vehicle it was. So the memory can be trusted when any two vehicles that show the same key take the same
orders (`Interchangeable`). -/

open Sorting

namespace VrpRouting

variable {M : Matrix} {orders : Orders} {v : Vehicle} {o : Order}

/-- A vehicle that ends without the order, or infeasible, has refused it. -/
theorem hillClimb_refused (hv : IsRoute (nodesOf v.path)) (ho : o.Typed)
    (h : (v.hillClimb M o).2.hasOrder o = false ∨ (v.hillClimb M o).2.isFeasible = false) :
    (v.hillClimb M o).1 = false := by
  rcases hillClimb_spec (M := M) hv ho with ⟨-, hins, hf⟩ | ⟨hnot, -⟩
  · have hhas : (v.hillClimb M o).2.hasOrder o = true := by
      rw [Vehicle.hasOrder, hins.others, Identifiers.has_iff, Identifiers.mem_insert]
      exact Or.inl rfl
    rcases h with h | h
    · exact absurd (hhas.symm.trans h) Bool.noConfusion
    · exact absurd (hf.symm.trans h) Bool.noConfusion
  · exact hnot

/-! ### The sites of a route -/

theorem sites_of_nodes {s e : TwNode} {mids : List TwNode} (h : nodesOf v.path = s :: (mids ++ [e])) :
    v.front.toTwNode = s ∧ v.back.toTwNode = e := by
  have hfirst := congrArg (fun N => N.getD 0 (default : VehicleNode).toTwNode) h
  have hlast := congrArg (fun N => N.getLastD (default : VehicleNode).toTwNode) h
  simp only [nodesOf, List.getD_map, List.getLastD_map] at hfirst hlast
  refine ⟨hfirst, hlast.trans ?_⟩
  rw [← List.cons_append, List.getLastD_eq_getLast?, List.getLast?_concat]
  rfl

/-- On a route only the first node is a starting site and only the last one an ending site. -/
theorem IsRoute.site_cases {N : List TwNode} {t : TwNode} (h : IsRoute N) (ht : t ∈ N) :
    ∃ s mids e, N = s :: (mids ++ [e]) ∧ (t.type = .kStart → t = s) ∧ (t.type = .kEnd → t = e) := by
  obtain ⟨s, mids, e, rfl, hs, he, hm⟩ := h
  refine ⟨s, mids, e, by simp, fun hstart => ?_, fun hend => ?_⟩
  all_goals
    rcases List.mem_cons.mp ht with rfl | ht
  · rfl
  · rcases List.mem_append.mp ht with ht | ht
    · rcases hm t ht with h | h <;> rw [hstart] at h <;> cases h
    · rw [List.mem_singleton.mp ht, he] at hstart
      cases hstart
  · rw [hs] at hend
    cases hend
  · rcases List.mem_append.mp ht with ht | ht
    · rcases hm t ht with h | h <;> rw [hend] at h <;> cases h
    · exact List.mem_singleton.mp ht

namespace TruckRoute

variable {u : Vehicle}

/-- The sites of a truck are the same on every route. -/
theorem sites (h : TruckRoute M orders u v) (ho : orders.WellFormed) (hu : IsRoute (nodesOf u.path)) :
    v.front.toTwNode = u.front.toTwNode ∧ v.back.toTwNode = u.back.toTwNode := by
  obtain ⟨s, mids, e, hN, hs, he, -⟩ := h.route.route
  obtain ⟨hfront, hback⟩ := sites_of_nodes hN
  -- a site is no stop of an order, so it is on the route of the truck
  have hsite : ∀ t ∈ nodesOf v.path, t.type = .kStart ∨ t.type = .kEnd → t ∈ nodesOf u.path := by
    intro t ht htype
    refine (h.nodes t ht).resolve_right ?_
    rintro ⟨i, hi, hti⟩
    have htyped := ho.typed i hi
    rcases List.mem_pair.mp hti with rfl | rfl
    · rw [htyped.pickup] at htype
      rcases htype with h | h <;> cases h
    · rw [htyped.delivery] at htype
      rcases htype with h | h <;> cases h
  have hsu := hsite s (by rw [hN]; simp) (Or.inl hs)
  have heu := hsite e (by rw [hN]; simp) (Or.inr he)
  obtain ⟨s', mids', e', hNu, hfirst, -⟩ := hu.site_cases hsu
  obtain ⟨s'', mids'', e'', hNu', -, hlast⟩ := hu.site_cases heu
  rw [hfront, hback, (sites_of_nodes hNu).1, (sites_of_nodes hNu').2]
  exact ⟨hfirst hs, hlast he⟩

/-- Between its sites, a truck has stops of orders only. -/
theorem shape (h : TruckRoute M orders u v) (hu : Fresh M orders u) :
    ∃ mids, nodesOf v.path = v.front.toTwNode :: (mids ++ [v.back.toTwNode]) ∧
      v.front.type = .kStart ∧ v.back.type = .kEnd ∧
      ∀ t ∈ mids, ∃ i < orders.length, t ∈ (orders.get i).stops := by
  obtain ⟨s, mids, e, hN, hs, he, hm⟩ := h.route.route
  obtain ⟨hfront, hback⟩ := sites_of_nodes hN
  refine ⟨mids, by rw [hN, hfront, hback], by rw [hfront]; exact hs, by rw [hback]; exact he,
    fun t ht => ?_⟩
  refine (h.nodes t (by rw [hN]; simp [ht])).resolve_left fun htu => ?_
  -- the truck itself has two nodes, its sites
  obtain ⟨s', mids', e', hN', hs', he', -⟩ := hu.route.route
  have hlen := congrArg List.length hN'
  have hempty : mids' = [] := by
    unfold nodesOf at hlen
    rw [List.length_map, hu.empty] at hlen
    exact List.length_eq_zero_iff.mp (by simpa using hlen)
  rw [hN', hempty] at htu
  rcases List.mem_pair.mp htu with rfl | rfl
  · rcases hm t ht with h | h <;> rw [hs'] at h <;> cases h
  · rcases hm t ht with h | h <;> rw [he'] at h <;> cases h

end TruckRoute

namespace Optimizers.Tabu

/-! ### The vehicles that are shown to the memory -/

/-- The vehicles whose keys a search reads: the real ones, and those without one of their orders. -/
inductive Shown (M : Matrix) (orders : Orders) (s : View) : Vehicle → Prop
  | whole {v : Vehicle} (hv : v ∈ s.fleet) (hreal : v.isPhony = false) : Shown M orders s v
  | without {v : Vehicle} {i : ℕ} (hv : v ∈ s.fleet) (hreal : v.isPhony = false)
      (hi : i ∈ v.ordersInVehicle) : Shown M orders s (v.eraseOrder M (orders.get i))

/-- In no two situations to which moves of the search can lead from `s₀`, vehicles with the same key
differ in the orders that they can take. -/
def Interchangeable (M : Matrix) (orders : Orders) (s₀ : View) : Prop :=
  ∀ s s', Steps M orders s₀ s → Steps M orders s₀ s' → ∀ v v', Shown M orders s v →
    Shown M orders s' v' → v.pathStr = v'.pathStr → ∀ i < orders.length,
    v.CanTake M (orders.get i) → v'.CanTake M (orders.get i)

theorem Shown.onTruckRoute {truck : Vehicle → Prop} {s : View}
    (hs : s.OnTruckRoutes M orders truck) (h : Shown M orders s v) :
    OnTruckRoute M orders truck v := by
  cases h with
  | whole hv _ => exact hs.fleet v hv
  | without hv _ hi =>
    obtain ⟨u, hu, hvu⟩ := hs.fleet _ hv
    exact ⟨u, hu, hvu.eraseOrder (hvu.route.movable _ hi)⟩

/-! ### What the memory has -/

/-- Each entry is the refusal of an order by a vehicle that was shown in some situation. -/
def Refusals (M : Matrix) (orders : Orders) (s₀ : View) (t : TabuList) : Prop :=
  ∀ key ∈ t.infeasibleList, ∃ s v, ∃ i < orders.length, Steps M orders s₀ s ∧ Shown M orders s v ∧
    (v.hillClimb M (orders.get i)).1 = false ∧ key = Optimize.candidate v i

/-- **The memory can be trusted** by vehicles that are interchangeable. -/
theorem Refusals.answer {s₀ s : View} {t : TabuList} {truck : Vehicle → Prop}
    (ht : Refusals M orders s₀ t) (ho : orders.WellFormed)
    (hroutes : ∀ s, Steps M orders s₀ s → s.OnTruckRoutes M orders truck)
    (hfair : Interchangeable M orders s₀) (hs : Steps M orders s₀ s) (hv : Shown M orders s v) {i : ℕ}
    (hi : i < orders.length) (h : t.hasInfeasible (Optimize.candidate v i) = true) :
    (v.hillClimb M (orders.get i)).1 = false := by
  obtain ⟨s', v', i', hi', hs', hv', href, hkey⟩ := ht _ (of_decide_eq_true h)
  obtain ⟨hpath, rfl⟩ := Optimize.candidate_inj hkey
  obtain ⟨_, -, hvu⟩ := hv.onTruckRoute (hroutes s hs)
  obtain ⟨_, -, hvu'⟩ := hv'.onTruckRoute (hroutes s' hs')
  have hfound := hillClimb_found_iff hvu.route.route (ho.typed i hi) hvu.settled
  have hfound' := hillClimb_found_iff hvu'.route.route (ho.typed i hi) hvu'.settled
  by_contra hne
  rw [Bool.not_eq_false] at hne
  have htake := hfair s s' hs hs' v v' hv hv' hpath i hi (hfound.mp hne)
  exact absurd (href.symm.trans (hfound'.mpr htake)) Bool.noConfusion

theorem Refusals.congr {s₀ : View} {t t' : TabuList} (h : Refusals M orders s₀ t)
    (ht : t'.infeasibleList = t.infeasibleList) : Refusals M orders s₀ t' := by
  unfold Refusals
  rwa [ht]

/-- A new refusal. -/
theorem Refusals.addInfeasible {s₀ s : View} {t : TabuList} (h : Refusals M orders s₀ t) {i : ℕ}
    (hi : i < orders.length) (hs : Steps M orders s₀ s) (hv : Shown M orders s v)
    (href : (v.hillClimb M (orders.get i)).1 = false) :
    Refusals M orders s₀ (t.addInfeasible (Optimize.candidate v i)) := by
  intro key hkey
  rcases List.mem_insert_iff.mp hkey with rfl | hkey
  · exact ⟨s, v, i, hi, hs, hv, href, rfl⟩
  · exact h key hkey

/-- Moves and seen candidates leave the refusals as they are. -/
theorem infeasibleList_add (t : TabuList) (m : Move) :
    (t.add m).infeasibleList = t.infeasibleList := by
  unfold TabuList.add
  split_ifs <;> rfl

namespace Optimize

/-! ### The scans -/

theorem testInsertion_refused {M : Matrix} {o : Optimize} {d phony : Bool} {t : TabuList}
    {c : InsertionMove} {key : String} (h : o.testInsertion M d t phony c = .refused key) :
    (o.vehicle c.j).isPhony = false ∧ (o.insertionTo M c).hasOrder (o.orders.get c.oId) = false ∧
      key = candidate (o.vehicle c.j) c.oId := by
  unfold testInsertion at h
  split_ifs at h with h1 h2 h3 h4 h5 h6 h7
  exact ⟨by simpa using h2, by simpa using h7, (CandidateTest.refused.inj h).symm⟩

theorem testSwap_refused {M : Matrix} {o : Optimize} {d : Bool} {t : TabuList} {c : SwapMove}
    {key : String} (h : o.testSwap M d t c = .refused key) :
    (key = candidate (o.swapTo1 M c) c.oId1 ∧
      ((o.swapTo2 M c).hasOrder (o.orders.get c.oId1) = false ∨ (o.swapTo2 M c).isFeasible = false)) ∨
    (key = candidate (o.swapFrom1 M c) c.oId2 ∧
      ((o.swapFrom2 M c).hasOrder (o.orders.get c.oId2) = false ∨
        (o.swapFrom2 M c).isFeasible = false)) := by
  unfold testSwap at h
  split_ifs at h with h1 h2 h3 h4 h5 h6 h7 h8
  · exact Or.inl ⟨(CandidateTest.refused.inj h).symm, by simpa using h7⟩
  · exact Or.inr ⟨(CandidateTest.refused.inj h).symm, by simpa using h8⟩

theorem vehicle_mem {o : Optimize} {i : ℕ} (hi : i < o.fleet.length) : o.vehicle i ∈ o.fleet := by
  unfold vehicle
  rw [List.getD_eq_getElem _ _ hi]
  exact List.getElem_mem hi

section Scans
variable {o : Optimize} (hr : o.Ready) {s₀ : View} (hs : Steps M o.orders s₀ o.view)
  {t : TabuList} (ht : Refusals M o.orders s₀ t)

include hr hs

/-- **The tests of an insertion** remember refusals. -/
theorem refusals_rememberInsertion {d : Bool} {m : TabuList × Bool}
    (hm : Refusals M o.orders s₀ m.1) {c : InsertionMove} (hc : c ∈ o.insertionScan) :
    Refusals M o.orders s₀ (o.rememberInsertion M d m c).1 := by
  unfold rememberInsertion
  cases htest : o.testInsertion M d m.1 m.2 c with
  | skipped => exact hm
  | fits => exact hm
  | refused key =>
    obtain ⟨hreal, hnot, rfl⟩ := testInsertion_refused htest
    obtain ⟨hi, -, -, hmov, hj⟩ := mem_insertionScan.mp hc
    have hid := (hr.vehicle hi).movable c.oId hmov
    exact hm.addInfeasible hid hs (.whole (vehicle_mem hj) hreal)
      (hillClimb_refused (hr.vehicle hj).route (hr.orders.typed _ hid) (Or.inl hnot))

/-- **The tests of a swap** remember refusals. -/
theorem refusals_rememberSwap {d : Bool} (ht : Refusals M o.orders s₀ t) {c : SwapMove}
    (hc : c ∈ o.swapScan) : Refusals M o.orders s₀ (o.rememberSwap M d t c) := by
  unfold rememberSwap
  cases htest : o.testSwap M d t c with
  | skipped => exact ht
  | fits => exact ht
  | refused key =>
    obtain ⟨hij, hj, hreal, -, htoreal, -, hm1, hm2, -⟩ := mem_swapScan.mp hc
    have hi := hij.trans hj
    have hid1 := (hr.vehicle hi).movable _ hm1
    have hid2 := (hr.vehicle hj).movable _ hm2
    rcases testSwap_refused htest with ⟨rfl, hnot⟩ | ⟨rfl, hnot⟩
    · exact ht.addInfeasible hid1 hs (.without (vehicle_mem hj) htoreal hm2)
        (hillClimb_refused ((hr.vehicle hj).eraseOrder hid2).route (hr.orders.typed _ hid1) hnot)
    · exact ht.addInfeasible hid2 hs (.without (vehicle_mem hi) hreal hm1)
        (hillClimb_refused ((hr.vehicle hi).eraseOrder hid1).route (hr.orders.typed _ hid2) hnot)

include ht

theorem refusals_insertionScan (d : Bool) {A : List InsertionMove} (hA : ∀ c ∈ A, c ∈ o.insertionScan) :
    Refusals M o.orders s₀ (A.foldl (o.rememberInsertion M d) (t, false)).1 :=
  List.foldlRecOn (motive := fun m : TabuList × Bool => Refusals M o.orders s₀ m.1) A _ ht
    fun _ hm c hc => refusals_rememberInsertion hr hs hm (hA c hc)

theorem refusals_swapScan (d : Bool) {A : List SwapMove} (hA : ∀ c ∈ A, c ∈ o.swapScan) :
    Refusals M o.orders s₀ (A.foldl (o.rememberSwap M d) t) :=
  List.foldlRecOn A _ ht fun _ ht c hc => refusals_rememberSwap hr hs ht (hA c hc)

end Scans

/-! ### The operations -/

theorem infeasibleList_move2Real (M : Matrix) (o : Optimize) :
    (o.move2Real M).2.tabuList.infeasibleList = o.tabuList.infeasibleList := by
  have hfold : ((List.range o.fleet.length).foldl (emptyPhony M) (false, o)).2.tabuList =
      o.tabuList := by
    refine List.foldlRecOn (motive := fun s : Bool × Optimize => s.2.tabuList = o.tabuList) _ _ rfl
      fun s hs phony _ => ?_
    unfold emptyPhony
    extract_lets v
    split_ifs
    · exact hs
    · refine List.foldlRecOn (motive := fun s : Bool × Optimize => s.2.tabuList = o.tabuList) _ _ hs
        fun s hs oId _ => ?_
      unfold moveOrder
      extract_lets o1 order b o2 o3
      split_ifs
      · exact hs
      · exact hs
  have hlist := congrArg TabuList.infeasibleList hfold
  unfold move2Real
  split_ifs
  · rfl
  · extract_lets s
    split_ifs
    · exact hlist
    · exact hlist

/-- After a search for insertions the memory has the refusals of the scan. -/
theorem infeasibleList_singlePairInsertion (S : Sorter) (M : Matrix) (o : Optimize) (i d : Bool) :
    let o₁ := o.sortBySize S true
    (o.singlePairInsertion S M i d).2.tabuList.infeasibleList =
      (o₁.insertionScan.foldl (o₁.rememberInsertion M d) (o.tabuList, false)).1.infeasibleList := by
  intro o₁
  have hscan := congrArg Prod.fst (o₁.searchInsertion_shows M i d).1
  rw [show (o.tabuList, false) = (o₁.tabuList, false) from rfl, ← hscan]
  unfold singlePairInsertion
  dsimp only
  split_ifs
  · unfold applyInsertion
    rw [tabuList_saveIfBest]
    exact infeasibleList_add _ _
  · rfl

theorem infeasibleList_swapBetweenRoutes (S : Sorter) (M : Matrix) (o : Optimize) (i d : Bool) :
    let o₁ := o.sortBySize S false
    (o.swapBetweenRoutes S M i d).2.tabuList.infeasibleList =
      (o₁.swapScan.foldl (o₁.rememberSwap M d) o.tabuList).infeasibleList := by
  intro o₁
  have hscan := (o₁.searchSwap_shows M i d).1
  rw [show o.tabuList = o₁.tabuList from rfl, ← hscan]
  unfold swapBetweenRoutes
  dsimp only
  split_ifs
  · unfold applySwap
    rw [tabuList_saveIfBest]
    exact infeasibleList_add _ _
  · rfl

/-- The situation can be reached from the start, and the memory has refusals of such situations. -/
structure Remembering (M : Matrix) (o₀ o : Optimize) : Prop where
  sim : Sim M o₀ o
  refusals : Refusals M o.orders o₀.view o.tabuList

section Operations
variable {S : Sorter} {M : Matrix} {o₀ o : Optimize}

theorem Remembering.steps (h : Remembering M o₀ o) : Steps M o.orders o₀.view o.view := by
  rw [h.sim.orders]
  exact h.sim.steps

/-- A step of the search that leaves the refusals as they are. -/
theorem Remembering.next {o' : Optimize} (h : Remembering M o₀ o) (hs : Sim M o₀ o')
    (ht : o'.tabuList.infeasibleList = o.tabuList.infeasibleList) : Remembering M o₀ o' where
  sim := hs
  refusals := by
    rw [hs.orders, ← h.sim.orders]
    exact h.refusals.congr ht

theorem Remembering.sortBySize (h : Remembering M o₀ o) (asc : Bool) :
    Remembering M o₀ (o.sortBySize S asc) :=
  h.next (h.sim.trans (o.sortBySize_sim S M asc)) rfl

/-- **Every operation** remembers refusals only. -/
theorem remembering_kept (hr : o₀.Ready) : Kept S M (Remembering M o₀) where
  move2Real h := h.next ((sim_kept S M hr).move2Real h.sim) (infeasibleList_move2Real M _)
  singlePairInsertion {o} i d h := by
    have hsort := h.sortBySize (S := S) true
    have hsim := (sim_kept S M hr).singlePairInsertion i d h.sim
    refine ⟨hsim, ?_⟩
    rw [hsim.orders, ← hsort.sim.orders]
    exact (refusals_insertionScan (hsort.sim.ready hr) hsort.steps hsort.refusals d
      fun _ => id).congr (infeasibleList_singlePairInsertion S M o i d)
  swapBetweenRoutes {o} i d h := by
    have hsort := h.sortBySize (S := S) false
    have hsim := (sim_kept S M hr).swapBetweenRoutes i d h.sim
    refine ⟨hsim, ?_⟩
    rw [hsim.orders, ← hsort.sim.orders]
    exact (refusals_swapScan (hsort.sim.ready hr) hsort.steps hsort.refusals d fun _ => id).congr
      (infeasibleList_swapBetweenRoutes S M o i d)
  reset h := h.next ((sim_kept S M hr).reset h.sim) rfl
  deleteEmptyTruck h := h.next ((sim_kept S M hr).deleteEmptyTruck h.sim) rfl
  setTabuListLength h := h.next ((sim_kept S M hr).setTabuListLength h.sim) rfl

end Operations

/-! ### Answers -/

/-- Each infeasible answer of the memory is right: for the real vehicles of the fleet, and in the scans
of the two searches when they come to a candidate. -/
structure AnswersRight (M : Matrix) (o : Optimize) : Prop where
  fleet : ∀ v ∈ o.fleet, v.isPhony = false → ∀ i < o.orders.length,
    o.tabuList.hasInfeasible (candidate v i) = true → (v.hillClimb M (o.orders.get i)).1 = false
  insertion : ∀ d A c B, o.insertionScan = A ++ c :: B → (o.vehicle c.j).isPhony = false →
    (A.foldl (o.rememberInsertion M d) (o.tabuList, false)).1.hasInfeasible
      (candidate (o.vehicle c.j) c.oId) = true →
    ((o.vehicle c.j).hillClimb M (o.orders.get c.oId)).1 = false
  swap : ∀ d A c B, o.swapScan = A ++ c :: B → let t := A.foldl (o.rememberSwap M d) o.tabuList
    (t.hasInfeasible (candidate (o.swapTo1 M c) c.oId1) = true →
      ((o.swapTo1 M c).hillClimb M (o.orders.get c.oId1)).1 = false) ∧
    (t.hasInfeasible (candidate (o.swapFrom1 M c) c.oId2) = true →
      ((o.swapFrom1 M c).hillClimb M (o.orders.get c.oId2)).1 = false)

/-- The answers about interchangeable vehicles are right. -/
theorem Remembering.answersRight {M : Matrix} {o₀ o : Optimize} {truck : Vehicle → Prop}
    (hr : o₀.Ready) (h : Remembering M o₀ o)
    (hroutes : o₀.view.OnTruckRoutes M o₀.orders truck)
    (hfair : Interchangeable M o₀.orders o₀.view) : AnswersRight M o := by
  have hro := h.sim.ready hr
  have hall : ∀ s, Steps M o.orders o₀.view s → s.OnTruckRoutes M o.orders truck := fun s hs => by
    rw [h.sim.orders] at hs ⊢
    exact hs.invariant (fun _ _ hs hst => hst.onTruckRoutes hr.orders hs) hroutes
  rw [← h.sim.orders] at hfair
  have hanswer : ∀ {t : TabuList}, Refusals M o.orders o₀.view t → ∀ {v i}, Shown M o.orders o.view v →
      i < o.orders.length → t.hasInfeasible (candidate v i) = true →
      (v.hillClimb M (o.orders.get i)).1 = false := fun ht _ _ hv hi =>
    ht.answer hro.orders hall hfair h.steps hv hi
  refine ⟨fun v hv hreal i hi => hanswer h.refusals (.whole hv hreal) hi,
    fun d A c B hscan hreal => ?_, fun d A c B hscan => ?_⟩
  · have hA := refusals_insertionScan hro h.steps h.refusals d (A := A) fun c hc => by simp [hscan, hc]
    obtain ⟨hi, -, -, hm, hj⟩ := mem_insertionScan.mp (show c ∈ o.insertionScan by simp [hscan])
    exact hanswer hA (.whole (vehicle_mem hj) hreal) ((hro.vehicle hi).movable _ hm)
  · have hA := refusals_swapScan hro h.steps h.refusals d (A := A) fun c hc => by simp [hscan, hc]
    obtain ⟨hij, hj, hreal, -, htoreal, -, hm1, hm2, -⟩ :=
      mem_swapScan.mp (show c ∈ o.swapScan by simp [hscan])
    have hi := hij.trans hj
    exact ⟨hanswer hA (.without (vehicle_mem hj) htoreal hm2) ((hro.vehicle hi).movable _ hm1),
      hanswer hA (.without (vehicle_mem hi) hreal hm1) ((hro.vehicle hj).movable _ hm2)⟩

end Optimize

/-! ### Runs -/

open Initialsol.Tabu Initialsol.Tabu.InitialSolution Optimize in
/-- **The memory of infeasible insertions is right** in every situation of a search over vehicles that
are interchangeable. -/
theorem memory_sound (S : Sorter) (M : Matrix) {pOrders : List OrdersT} {pVehicles : List VehicleT}
    {newStops : List ShortVehicle} {date : ℤ} {userOptimize : Bool} {p : PickDeliver}
    {sol : InitialSolution} (hp : PickDeliver.build S M pOrders pVehicles newStops = .ok p)
    (hsol : InitialSolution.construct M date userOptimize p = .ok sol)
    (maxCycles : ℕ) (stopOnAllServed optimize : Bool) :
    let start := started S sol.toSolution maxCycles stopOnAllServed optimize
    Interchangeable M sol.orders start.view →
      (∀ ops, SearchedFrom S M start (run S M start ops)) ∧
      ∀ o, SearchedFrom S M start o → ∀ asc, AnswersRight M (o.sortBySize S asc) := by
  intro start hfair
  have hb := PickDeliver.build_built hp
  have hr := (construct_valid hb hsol).ready S maxCycles stopOnAllServed optimize
  obtain ⟨first, rest, -, hf⟩ := hb.fleet
  have hroutes := construct_onTruckRoutes hb hsol
  rw [← (construct_fleet hsol hf.used).1] at hroutes
  refine ⟨fun ops => (searchedFrom_kept S M start).run .start ops, fun o ho asc => ?_⟩
  have hstart : Remembering M start start := ⟨.refl M start, fun key hkey => nomatch hkey⟩
  have hrem := ho.of_kept (remembering_kept hr) hstart
  exact (hrem.sortBySize asc).answersRight hr ⟨hroutes.perm (started_perm ..), hroutes⟩ hfair

/-! ### Fleets of one kind -/

/-- A truck on some route, with all that the search does not change. -/
structure Rerouted (M : Matrix) (orders : Orders) (u v : Vehicle) : Prop extends
    TruckRoute M orders u v where
  bare : v.bare = u.bare

theorem Placed.bare {w : Vehicle} (h : Placed M v o w) : w.bare = v.bare := by
  rcases h with ⟨h, -⟩ | ⟨h, -⟩
  · rw [h.others]
    rfl
  · rw [h.others]
    rfl

theorem rerouted_editClosed (ho : orders.WellFormed) (F : List Vehicle) :
    EditClosed M orders fun v => ∃ u ∈ F, Rerouted M orders u v where
  movable := fun ⟨_, _, hv⟩ hi => hv.route.movable _ hi
  erase := fun ⟨u, hu, hv⟩ hi => ⟨u, hu, hv.eraseOrder hi, (bare_eraseOrder _ _).trans hv.bare⟩
  placed := fun ⟨u, hu, hv⟩ hi hw => ⟨u, hu, hw.truckRoute ho hi hv.toTruckRoute, hw.bare.trans hv.bare⟩

/-- A vehicle keeps its kind on every route. -/
theorem Rerouted.kind {u : Vehicle} (h : Rerouted M orders u v) (ho : orders.WellFormed)
    (hu : IsRoute (nodesOf u.path)) : v.kind = u.kind := by
  obtain ⟨hfront, hback⟩ := h.sites ho hu
  have hcap : v.bare.capacity = u.bare.capacity := congrArg Vehicle.capacity h.bare
  have hspeed : v.bare.speed = u.bare.speed := congrArg Vehicle.speed h.bare
  have htwv : v.bare.userTwv = u.bare.userTwv := congrArg Vehicle.userTwv h.bare
  have hcv : v.bare.userCv = u.bare.userCv := congrArg Vehicle.userCv h.bare
  unfold Vehicle.kind
  rw [hfront, hback, show v.capacity = u.capacity from hcap, show v.speed = u.speed from hspeed,
    show v.userTwv = u.userTwv from htwv, show v.userCv = u.userCv from hcv]

/-- **Real vehicles of one kind are interchangeable.** -/
theorem interchangeable_of_kind (ho : orders.WellFormed) (hn : orders.Named) (hd : orders.Distinct)
    {truck : Vehicle → Prop} (hfresh : ∀ u, truck u → Fresh M orders u) {F : List Vehicle}
    (hroutes : OnTruckRoutes M orders truck F)
    (hkind : ∀ u ∈ F, ∀ w ∈ F, u.isPhony = false → w.isPhony = false → u.kind = w.kind)
    {s₀ : View} (hfleet : ∀ v ∈ s₀.fleet, v ∈ F) (hbest : ∀ v ∈ s₀.best, v ∈ F) :
    Interchangeable M orders s₀ := by
  have hedit := rerouted_editClosed (M := M) ho F
  have hself : ∀ v ∈ F, ∃ u ∈ F, Rerouted M orders u v := fun v hv => by
    obtain ⟨u, -, h⟩ := hroutes v hv
    exact ⟨v, hv, ⟨rfl, rfl, rfl, h.route, h.settled, fun t ht => Or.inl ht⟩, rfl⟩
  -- what is shown is a truck of the kind, on a route over stops of orders
  have hshown : ∀ s, Steps M orders s₀ s → ∀ v, Shown M orders s v →
      (∃ u ∈ F, u.isPhony = false ∧ v.kind = u.kind) ∧ ∃ u, truck u ∧ TruckRoute M orders u v := by
    intro s hs v hv
    have hall := hs.invariant (fun _ _ hs hst => hst.forall_vehicles hedit hs)
      ⟨fun v hv => hself v (hfleet v hv), fun v hv => hself v (hbest v hv)⟩
    obtain ⟨w, ⟨u, hu, hw⟩, hreal, hvw⟩ : ∃ w, (∃ u ∈ F, Rerouted M orders u w) ∧
        w.isPhony = false ∧ w = v := by
      cases hv with
      | whole hv hreal => exact ⟨_, hall.1 _ hv, hreal, rfl⟩
      | without hv hreal hi =>
        have hu := hall.1 _ hv
        exact ⟨_, hedit.erase hu (hedit.movable hu hi), by rwa [isPhony_eraseOrder], rfl⟩
    subst hvw
    obtain ⟨u₀, hu₀, huu⟩ := hroutes u hu
    refine ⟨⟨u, hu, (isPhony_of_bare hw.bare).symm.trans hreal, hw.kind ho huu.route.route⟩, u₀, hu₀,
      ?_⟩
    exact ⟨hw.id.trans huu.id, hw.speed.trans huu.speed, hw.knows.trans huu.knows, hw.route, hw.settled,
      fun t ht => (hw.nodes t ht).elim (huu.nodes t) Or.inr⟩
  intro s s' hs hs' v v' hv hv' hpath i _ htake
  obtain ⟨⟨u, hu, hreal, hk⟩, t, ht, hr⟩ := hshown s hs v hv
  obtain ⟨⟨u', hu', hreal', hk'⟩, t', ht', hr'⟩ := hshown s' hs' v' hv'
  obtain ⟨mids, hN, ha, he, hm⟩ := hr.shape (hfresh t ht)
  obtain ⟨mids', hN', ha', he', hm'⟩ := hr'.shape (hfresh t' ht')
  obtain rfl := pathStr_inj ho hn hd hN hN' ha ha' he he' hm hm' hpath
  have hsame : v.kind = v'.kind := (hk.trans (hkind u hu u' hu' hreal hreal')).trans hk'.symm
  exact (Vehicle.alike_of_kind hsame hr.settled hr'.settled hN hN').canTake_iff.mp htake

/-! ### Two vehicles with two orders each -/

/-- Both stops of the order are at the site 1, and each takes 5; the pickup closes at `close`. -/
def slowOrderData (id close : ℤ) : OrdersT := ⟨id, 1, 1, 0, close, 5, 1, 0, 100, 5⟩

/-- The vehicle has time for two orders. -/
def slowVehicleData (id : ℤ) (capacity : ℕ) (stops : List ℤ) : VehicleT :=
  ⟨id, capacity, 1, 1, stops, 1, 0, 25, 0, 1, 0, 25, 0⟩

/-- Only a vehicle that carries the orders 3 and 4 at the same time can serve both. -/
def slowOrders : List OrdersT :=
  [slowOrderData 1 100, slowOrderData 2 100, slowOrderData 3 7, slowOrderData 4 7]

def slowVehicles (capacity : ℕ) : List VehicleT :=
  [slowVehicleData 7 1 [3, 3, 1, 1], slowVehicleData 8 capacity [4, 4, 2, 2]]

open Initialsol.Tabu Optimize

/-- The vehicle 7 has refused the order 4 on a route with the order 3. After three passes of the main
loop the vehicle 8, which has room for both, comes to that route, and the memory speaks for it too. -/
theorem memory_sound_fails : ∃ p sol,
    PickDeliver.build .insertion twoSites slowOrders (slowVehicles 2)
      (Driver.getInitialStops (slowVehicles 2)) = .ok p ∧
    InitialSolution.construct twoSites 0 true p = .ok sol ∧
    let o := (Optimize.init sol.toSolution 3 false true).tabuSearch .insertion twoSites
    let o₁ := o.sortBySize .insertion false
    SearchedFrom .insertion twoSites (started .insertion sol.toSolution 3 false true) o ∧
    ∃ A c B, o₁.swapScan = A ++ c :: B ∧
      (A.foldl (o₁.rememberSwap twoSites false) o₁.tabuList).hasInfeasible
        (candidate (o₁.swapFrom1 twoSites c) c.oId2) = true ∧
      ((o₁.swapFrom1 twoSites c).hillClimb twoSites (o₁.orders.get c.oId2)).1 = true := by
  obtain ⟨p, sol, hp, hsol, hq⟩ := exists_ok_bind_and (x := PickDeliver.build .insertion twoSites
    slowOrders (slowVehicles 2) (Driver.getInitialStops (slowVehicles 2)))
    (f := InitialSolution.construct twoSites 0 true)
    (fun sol =>
      let o₁ := ((Optimize.init sol.toSolution 3 false true).tabuSearch .insertion
        twoSites).sortBySize .insertion false
      let c : SwapMove := ⟨0, 1, 1, 3⟩
      decide (o₁.swapScan = [⟨0, 1, 1, 0⟩] ++ c :: o₁.swapScan.drop 2 ∧
        ([⟨0, 1, 1, 0⟩].foldl (o₁.rememberSwap twoSites false) o₁.tabuList).hasInfeasible
          (candidate (o₁.swapFrom1 twoSites c) c.oId2) = true ∧
        ((o₁.swapFrom1 twoSites c).hillClimb twoSites (o₁.orders.get c.oId2)).1 = true))
    (by decide +kernel)
  obtain ⟨ops, hops⟩ := tabuSearch_run .insertion twoSites (Optimize.init sol.toSolution 3 false true)
  refine ⟨p, sol, hp, hsol, ?_, _, _, _, of_decide_eq_true hq⟩
  rw [hops]
  exact (searchedFrom_kept .insertion twoSites _).run .start ops

/-- With room for one order on both vehicles, they are of one kind. -/
theorem memory_sound_small : ∃ p sol,
    PickDeliver.build .insertion twoSites slowOrders (slowVehicles 1)
      (Driver.getInitialStops (slowVehicles 1)) = .ok p ∧
    InitialSolution.construct twoSites 0 true p = .ok sol ∧
    let o := run .insertion twoSites (started .insertion sol.toSolution 3 false true)
      [.singlePairInsertion false false, .swapBetweenRoutes false false]
    o.tabuList.infeasibleList ≠ [] ∧ AnswersRight twoSites (o.sortBySize .insertion false) := by
  obtain ⟨p, sol, hp, hsol, hq⟩ := exists_ok_bind_and (x := PickDeliver.build .insertion twoSites
    slowOrders (slowVehicles 1) (Driver.getInitialStops (slowVehicles 1)))
    (f := InitialSolution.construct twoSites 0 true)
    (fun sol =>
      let o := run .insertion twoSites (started .insertion sol.toSolution 3 false true)
        [.singlePairInsertion false false, .swapBetweenRoutes false false]
      decide (o.tabuList.infeasibleList ≠ [] ∧ ∀ u ∈ sol.fleet, ∀ w ∈ sol.fleet,
        u.isPhony = false → w.isPhony = false → u.kind = w.kind)) (by decide +kernel)
  obtain ⟨hne, hkind⟩ := of_decide_eq_true hq
  have hb := PickDeliver.build_built hp
  obtain ⟨first, rest, -, hf⟩ := hb.fleet
  have horders := (InitialSolution.construct_fleet hsol hf.used).1
  have hroutes := InitialSolution.construct_onTruckRoutes hb hsol
  have hfair : Interchangeable twoSites p.orders
      (started .insertion sol.toSolution 3 false true).view :=
    interchangeable_of_kind hb.wellFormed hb.named (hb.distinct (by decide))
      (fun u hu => hb.fresh u hu.hasTruck) hroutes hkind
      (fun v hv => (started_perm ..).mem_iff.mp hv) (fun v hv => hv)
  rw [← horders] at hfair
  obtain ⟨hrun, hright⟩ := memory_sound .insertion twoSites hp hsol 3 false true hfair
  exact ⟨p, sol, hp, hsol, hne, hright _ (hrun _) false⟩

end Optimizers.Tabu

end VrpRouting
