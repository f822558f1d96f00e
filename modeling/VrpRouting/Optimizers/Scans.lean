import VrpRouting.Lib.BestSoFar
import VrpRouting.Optimizers.Tabu

/-! # The scans of the tabu search

The loop of `move_2_real` over the real vehicles keeps the best one that takes the order
(`bestReal_eq`). The nested loops of `single_pair_insertion` and `swap_between_routes` are scans of
one list of candidates each (`insertionScan`, `swapScan`). What one candidate does to the local
variables is said once here (`tryInsertion_eq`, `trySwap_eq`): the memory is told of a failed
insertion, or the candidate is the new best one. So a search keeps the best one of the admissible
candidates (`searchInsertion_shows`, `searchSwap_shows`). -/

open Sorting BestSoFar

namespace VrpRouting.Optimizers.Tabu

/-- The order `oId` of the vehicle at `i` goes to the vehicle at `j`. -/
structure InsertionMove where
  i : ℕ
  oId : ℕ
  j : ℕ
deriving DecidableEq

/-- The order `oId1` of the vehicle at `i` and the order `oId2` of the vehicle at `j` change places. -/
structure SwapMove where
  i : ℕ
  oId1 : ℕ
  j : ℕ
  oId2 : ℕ
deriving DecidableEq

namespace Optimize

variable (M : Matrix) (o : Optimize)

/-! ### Real vehicles for an order of a phony vehicle -/

/-- The real vehicle at `i` takes the order `oId` of the vehicle at `phony`. -/
structure RealFits (phony oId i : ℕ) : Prop where
  ne : phony ≠ i
  real : (o.vehicle i).isPhony = false
  feasible_order : (o.vehicle i).feasibleOrders.has oId = true
  free : (o.vehicle i).hasOrder (o.orders.get oId) = false
  placed : ((o.vehicle i).hillClimb M (o.orders.get oId)).2.hasOrder (o.orders.get oId) = true

theorem realFits_iff {phony oId i : ℕ} : o.RealFits M phony oId i ↔
    phony ≠ i ∧ (o.vehicle i).isPhony = false ∧ (o.vehicle i).feasibleOrders.has oId = true ∧
      (o.vehicle i).hasOrder (o.orders.get oId) = false ∧
      ((o.vehicle i).hillClimb M (o.orders.get oId)).2.hasOrder (o.orders.get oId) = true :=
  ⟨fun h => ⟨h.ne, h.real, h.feasible_order, h.free, h.placed⟩,
    fun ⟨h1, h2, h3, h4, h5⟩ => ⟨h1, h2, h3, h4, h5⟩⟩

instance (phony oId i : ℕ) : Decidable (o.RealFits M phony oId i) :=
  decidable_of_iff' _ (o.realFits_iff M)

/-- The objective that is estimated for the order on the vehicle at `i`. -/
def realEstimate (phony oId i : ℕ) : ℤ :=
  o.toSolution.objective + ((o.vehicle phony).totalTravelTime +
    ((o.vehicle i).hillClimb M (o.orders.get oId)).2.totalTravelTime -
      ((o.vehicle phony).totalTravelTime + (o.vehicle i).totalTravelTime))

/-- The positions of the vehicles that take the order. -/
def realCandidates (phony oId : ℕ) : List ℕ :=
  (List.range o.fleet.length).filter fun i => o.RealFits M phony oId i

theorem tryReal_eq (phony oId i : ℕ) (b : BestVehicle) : o.tryReal M phony oId b i =
    if o.RealFits M phony oId i ∧
        (o.realEstimate M phony oId i < b.bestScore ∨ b.bestScore = 0) then
      ⟨o.realEstimate M phony oId i, i⟩ else b := by
  by_cases hfits : o.RealFits M phony oId i
  · simp [tryReal, realEstimate, hfits, hfits.ne, hfits.real, hfits.feasible_order, hfits.free,
      hfits.placed, or_comm]
  · rw [if_neg fun h => hfits h.1]
    unfold tryReal
    extract_lets order phonyVehicle realVehicle copy
    split_ifs with h1 h2 h3 h4 h5
    iterate 5 rfl
    all_goals
      exact absurd ⟨h1, by simpa using h2, by simpa using h3, by simpa using h4, by simpa using h5⟩
        hfits

/-- **The loop keeps the best real vehicle.** -/
theorem bestReal_eq (phony oId : ℕ) :
    let b := (o.realCandidates M phony oId).foldl (keep (o.realEstimate M phony oId)) (0, none)
    o.bestReal M phony oId = ⟨b.1, b.2.getD phony⟩ := by
  have hfold : ∀ (l : List ℕ) (b : ℤ × Option ℕ),
      l.foldl (o.tryReal M phony oId) ⟨b.1, b.2.getD phony⟩ =
        let b' := (l.filter fun i => o.RealFits M phony oId i).foldl
          (keep (o.realEstimate M phony oId)) b
        ⟨b'.1, b'.2.getD phony⟩ := by
    intro l
    induction l with
    | nil => exact fun _ => rfl
    | cons i l ih =>
      intro b
      rw [List.foldl_cons, tryReal_eq, List.filter_cons]
      by_cases hfits : o.RealFits M phony oId i
      · rw [if_pos (decide_eq_true hfits), List.foldl_cons, ← ih]
        by_cases hb : o.realEstimate M phony oId i < b.1 ∨ b.1 = 0
        · have hkeep : keep (o.realEstimate M phony oId) b i = (o.realEstimate M phony oId i, some i) :=
            if_pos (by simpa using hb)
          rw [if_pos ⟨hfits, hb⟩, hkeep]
          rfl
        · have hkeep : keep (o.realEstimate M phony oId) b i = b := if_neg (by simpa using hb)
          rw [if_neg fun h => hb h.2, hkeep]
      · rw [if_neg fun h => hfits h.1, if_neg (by simpa using hfits), ih]
  exact hfold (List.range o.fleet.length) (0, none)

variable {M o} in
theorem mem_realCandidates {phony oId i : ℕ} : i ∈ o.realCandidates M phony oId ↔
    i < o.fleet.length ∧ o.RealFits M phony oId i := by
  simp [realCandidates]

variable {M o} in
/-- A score other than 0 is the estimate for the vehicle that was found. -/
theorem bestReal_found {phony oId : ℕ} (h : (o.bestReal M phony oId).bestScore ≠ 0) :
    ∃ i ∈ o.realCandidates M phony oId,
      o.bestReal M phony oId = ⟨o.realEstimate M phony oId i, i⟩ := by
  have heq := o.bestReal_eq M phony oId
  dsimp only at heq
  rcases foldl_keepOr (o.realEstimate M phony oId) (fun _ => False) (o.realCandidates M phony oId)
    (0, none) with hk | ⟨i, hi, hk⟩
  · rw [heq, hk] at h
    exact absurd rfl h
  · exact ⟨i, hi, by rw [heq, hk]; rfl⟩

/-! ### The candidates of the neighbourhood searches -/

/-- The candidates of `single_pair_insertion`, in the order of its loops. -/
def insertionScan : List InsertionMove :=
  (List.range o.fleet.length).flatMap fun i =>
    if (o.vehicle i).isPhony || (o.vehicle i).empty then []
    else (o.vehicle i).ordersInVehicle.ids.flatMap fun oId =>
      (List.range o.fleet.length).map fun j => ⟨i, oId, j⟩

/-- The candidates of `swap_between_routes`, in the order of its loops. -/
def swapScan : List SwapMove :=
  (List.range o.fleet.length).flatMap fun i =>
    if (o.vehicle i).isPhony || (o.vehicle i).empty then []
    else (o.vehicle i).ordersInVehicle.ids.flatMap fun oId1 =>
      (List.range' (i + 1) (o.fleet.length - (i + 1))).flatMap fun j =>
        if i = j then []
        else if (o.vehicle j).isPhony || (o.vehicle j).empty then []
        else if !(o.vehicle j).feasibleOrders.has oId1 then []
        else (o.vehicle j).ordersInVehicle.ids.map fun oId2 => ⟨i, oId1, j, oId2⟩

theorem searchInsertion_eq (intensify d : Bool) : o.searchInsertion M intensify d =
    o.insertionScan.foldl (fun s c => o.tryInsertion M d c.i c.oId s c.j)
      (o.startSearch intensify) := by
  unfold searchInsertion insertionScan
  rw [List.foldl_flatMap]
  congr 1
  funext s i
  unfold insertionsFrom
  extract_lets fromV
  split_ifs
  · rfl
  · rw [List.foldl_flatMap]
    congr 1
    funext s oId
    rw [List.foldl_map]

theorem searchSwap_eq (intensify d : Bool) : o.searchSwap M intensify d =
    o.swapScan.foldl (fun s c => o.trySwap M d c.i c.oId1 c.j s c.oId2)
      (o.startSearch intensify) := by
  unfold searchSwap swapScan
  rw [List.foldl_flatMap]
  congr 1
  funext s i
  unfold swapsFrom
  extract_lets fromV
  split_ifs
  · rfl
  · rw [List.foldl_flatMap]
    congr 1
    funext s oId1
    rw [List.foldl_flatMap]
    congr 1
    funext s j
    unfold swapsWith
    extract_lets toV
    split_ifs
    · rfl
    · rfl
    · rfl
    · rw [List.foldl_map]

variable {o}

theorem mem_insertionScan {c : InsertionMove} : c ∈ o.insertionScan ↔
    c.i < o.fleet.length ∧ (o.vehicle c.i).isPhony = false ∧ (o.vehicle c.i).empty = false ∧
      c.oId ∈ (o.vehicle c.i).ordersInVehicle ∧ c.j < o.fleet.length := by
  unfold insertionScan
  simp only [List.mem_flatMap, List.mem_range, List.mem_ite_nil_left, List.mem_map, Bool.or_eq_true,
    not_or, Bool.not_eq_true]
  constructor
  · rintro ⟨i, hi, ⟨h1, h2⟩, oId, hoId, j, hj, rfl⟩
    exact ⟨hi, h1, h2, hoId, hj⟩
  · rintro ⟨hi, h1, h2, hoId, hj⟩
    exact ⟨c.i, hi, ⟨h1, h2⟩, c.oId, hoId, c.j, hj, rfl⟩

theorem mem_swapScan {c : SwapMove} : c ∈ o.swapScan ↔
    c.i < c.j ∧ c.j < o.fleet.length ∧
      (o.vehicle c.i).isPhony = false ∧ (o.vehicle c.i).empty = false ∧
      (o.vehicle c.j).isPhony = false ∧ (o.vehicle c.j).empty = false ∧
      c.oId1 ∈ (o.vehicle c.i).ordersInVehicle ∧ c.oId2 ∈ (o.vehicle c.j).ordersInVehicle ∧
      (o.vehicle c.j).feasibleOrders.has c.oId1 = true := by
  unfold swapScan
  simp only [List.mem_flatMap, List.mem_range, List.mem_range'_1, List.mem_ite_nil_left, List.mem_map,
    Bool.or_eq_true, not_or, Bool.not_eq_true, Bool.not_eq_true', Bool.not_eq_false]
  constructor
  · rintro ⟨i, hi, ⟨h1, h2⟩, oId1, ho1, j, hj, -, ⟨h3, h4⟩, hf, oId2, ho2, rfl⟩
    exact ⟨by dsimp only; omega, by dsimp only; omega, h1, h2, h3, h4, ho1, ho2, hf⟩
  · rintro ⟨hij, hj, h1, h2, h3, h4, ho1, ho2, hf⟩
    exact ⟨c.i, by omega, ⟨h1, h2⟩, c.oId1, ho1, c.j, by omega, by omega, ⟨h3, h4⟩, hf, c.oId2, ho2,
      rfl⟩

variable (o)

theorem nodup_swapScan : o.swapScan.Nodup := by
  unfold swapScan
  refine List.nodup_flatMap.mpr ⟨fun i _ => ?_, List.nodup_range.imp fun hne c hc hc' => ?_⟩
  · split_ifs
    · exact List.nodup_nil
    · refine List.nodup_flatMap.mpr ⟨fun oId1 _ => ?_,
        (Identifiers.nodup _).imp fun hne c hc hc' => ?_⟩
      · refine List.nodup_flatMap.mpr ⟨fun j _ => ?_,
          (List.nodup_range' 1).imp fun hne c hc hc' => ?_⟩
        · split_ifs
          · exact List.nodup_nil
          · exact List.nodup_nil
          · exact List.nodup_nil
          · exact (Identifiers.nodup _).map fun _ _ h => (SwapMove.mk.inj h).2.2.2
        · simp only [List.mem_ite_nil_left, List.mem_map] at hc hc'
          obtain ⟨-, -, -, _, -, rfl⟩ := hc
          obtain ⟨-, -, -, _, -, h⟩ := hc'
          exact hne (SwapMove.mk.inj h).2.2.1.symm
      · simp only [List.mem_flatMap, List.mem_ite_nil_left, List.mem_map] at hc hc'
        obtain ⟨_, -, -, -, -, _, -, rfl⟩ := hc
        obtain ⟨_, -, -, -, -, _, -, h⟩ := hc'
        exact hne (SwapMove.mk.inj h).2.1.symm
  · simp only [List.mem_flatMap, List.mem_ite_nil_left, List.mem_map] at hc hc'
    obtain ⟨-, _, -, _, -, -, -, -, _, -, rfl⟩ := hc
    obtain ⟨-, _, -, _, -, -, -, -, _, -, h⟩ := hc'
    exact hne (SwapMove.mk.inj h).1.symm

/-! ### Copies and estimates -/

/-- The copy of the origin after the insertion. -/
def insertionFrom (c : InsertionMove) : Vehicle :=
  (o.vehicle c.i).eraseOrder M (o.orders.get c.oId)

/-- The copy of the destination after the insertion. -/
def insertionTo (c : InsertionMove) : Vehicle :=
  ((o.vehicle c.j).hillClimb M (o.orders.get c.oId)).2

/-- The objective that is estimated for the insertion. -/
def insertionEstimate (c : InsertionMove) : ℤ :=
  o.toSolution.objective +
    ((o.insertionFrom M c).totalTravelTime + (o.insertionTo M c).totalTravelTime -
      ((o.vehicle c.i).totalTravelTime + (o.vehicle c.j).totalTravelTime))

/-- The copies of the two vehicles without the orders of the swap. -/
def swapFrom1 (c : SwapMove) : Vehicle := (o.vehicle c.i).eraseOrder M (o.orders.get c.oId1)

def swapTo1 (c : SwapMove) : Vehicle := (o.vehicle c.j).eraseOrder M (o.orders.get c.oId2)

/-- The copies of the two vehicles after the swap. -/
def swapFrom2 (c : SwapMove) : Vehicle := ((o.swapFrom1 M c).hillClimb M (o.orders.get c.oId2)).2

def swapTo2 (c : SwapMove) : Vehicle := ((o.swapTo1 M c).hillClimb M (o.orders.get c.oId1)).2

/-- The objective that is estimated for the swap. -/
def swapEstimate (c : SwapMove) : ℤ :=
  o.toSolution.objective +
    ((o.swapTo2 M c).objective + (o.swapFrom2 M c).objective -
      ((o.vehicle c.i).objective + (o.vehicle c.j).objective))

/-! ### Tests and memory -/

end Optimize

/-- What the tests of a candidate say, before its objective is looked at. -/
inductive CandidateTest
  | skipped
  /-- An insertion fails; this is its identifier in the memory. -/
  | refused (candidate : String)
  | fits
deriving DecidableEq

/-- The memory after the tests of a candidate. -/
def TabuList.after (t : TabuList) : CandidateTest → TabuList
  | .refused candidate => t.addInfeasible candidate
  | _ => t

/-- The tests change neither the list of moves nor its length. -/
theorem TabuList.tabuList_after (t : TabuList) (r : CandidateTest) :
    (t.after r).tabuList = t.tabuList := by
  cases r <;> rfl

namespace Optimize

variable (M : Matrix) (o : Optimize)

/-! ### One insertion -/

/-- The tests of an insertion, in the order of the source; `phony` says that a phony vehicle was
seen. -/
def testInsertion (d : Bool) (t : TabuList) (phony : Bool) (c : InsertionMove) : CandidateTest :=
  if c.i = c.j then .skipped
  else if (o.vehicle c.j).isPhony then .skipped
  else if !phony && (o.vehicle c.j).empty then .skipped
  else if !(o.vehicle c.j).feasibleOrders.has c.oId then .skipped
  else if t.hasInfeasible (candidate (o.vehicle c.j) c.oId) then .skipped
  else if d && t.hasSeen (candidate (o.vehicle c.j) c.oId) then .skipped
  else if !(o.insertionTo M c).hasOrder (o.orders.get c.oId) then
    .refused (candidate (o.vehicle c.j) c.oId)
  else if (o.insertionFrom M c).hasOrder (o.orders.get c.oId) || !(o.insertionFrom M c).isFeasible then
    .skipped
  else .fits

/-- The insertion takes the last order of its origin. -/
def Empties (c : InsertionMove) : Prop := (o.insertionFrom M c).empty = true

instance (c : InsertionMove) : Decidable (o.Empties M c) := by
  unfold Empties
  infer_instance

/-- The insertion is not tabu, or it beats the best solution, or it empties its origin. -/
def AllowedInsertion (t : TabuList) (c : InsertionMove) : Prop :=
  ¬ (t.hasMove (o.insertionFrom M c) (o.insertionTo M c) (o.orders.get c.oId) = true ∧
    o.insertionEstimate M c ≥ o.bestSolution.objective ∧ ¬ o.Empties M c)

instance (t : TabuList) (c : InsertionMove) : Decidable (o.AllowedInsertion M t c) := by
  unfold AllowedInsertion
  infer_instance

/-- The insertion passes the tests, and it is allowed. -/
def AdmitsInsertion (d : Bool) (m : TabuList × Bool) (c : InsertionMove) : Prop :=
  o.testInsertion M d m.1 m.2 c = .fits ∧ o.AllowedInsertion M m.1 c

instance (d : Bool) (m : TabuList × Bool) (c : InsertionMove) :
    Decidable (o.AdmitsInsertion M d m c) := by
  unfold AdmitsInsertion
  infer_instance

/-- The memory, and whether a phony vehicle was seen, after the tests. -/
def rememberInsertion (d : Bool) (m : TabuList × Bool) (c : InsertionMove) : TabuList × Bool :=
  (m.1.after (o.testInsertion M d m.1 m.2 c),
    m.2 || (decide (c.i ≠ c.j) && (o.vehicle c.j).isPhony))

/-- The insertion as the best one so far. -/
def takeInsertion (s : SearchState) (c : InsertionMove) : SearchState :=
  { s with
    found := true
    bestScore := o.insertionEstimate M c
    bestFrom := c.i
    bestTo := c.j
    bestFromOrder := o.orders.get c.oId
    bestCandidate1 := candidate (o.vehicle c.j) c.oId }

/-- What comes of the tests. -/
def afterInsertionTest (s : SearchState) (c : InsertionMove) : CandidateTest → SearchState
  | .fits =>
    if o.insertionEstimate M c ≥ s.bestScore ∧ ¬ (o.insertionFrom M c).empty ∧ s.bestScore ≠ 0 then s
    else if s.tabuList.hasMove (o.insertionFrom M c) (o.insertionTo M c) (o.orders.get c.oId) ∧
        o.insertionEstimate M c ≥ o.bestSolution.objective ∧ ¬ (o.insertionFrom M c).empty then s
    else if o.insertionEstimate M c < s.bestScore ∨ (o.insertionFrom M c).empty ∨ s.bestScore = 0 then
      o.takeInsertion M s c
    else s
  | r => { s with tabuList := s.tabuList.after r }

/-- A choice between two results of the tests is one between two states. -/
theorem ite_afterTest {σ : Type} (f : CandidateTest → σ) {p : Prop} [Decidable p] {x y : σ}
    {t u : CandidateTest} (hx : x = f t) (hy : y = f u) :
    (if p then x else y) = f (if p then t else u) := by
  rw [apply_ite f, hx, hy]

theorem tryInsertion_afterTest (d : Bool) (c : InsertionMove) (s : SearchState)
    (hreal : (o.vehicle c.j).isPhony = false) :
    o.tryInsertion M d c.i c.oId s c.j =
      o.afterInsertionTest M s c (o.testInsertion M d s.tabuList s.hasPhony c) := by
  have hstep {p : Prop} [Decidable p] {x y t u} := ite_afterTest (o.afterInsertionTest M s c) (p := p)
    (x := x) (y := y) (t := t) (u := u)
  unfold tryInsertion testInsertion
  simp only [hreal, Bool.false_eq_true, if_false]
  exact hstep rfl (hstep rfl (hstep rfl (hstep rfl (hstep rfl (hstep rfl (hstep rfl rfl))))))

/-- **What an insertion does to the search.** -/
theorem tryInsertion_eq (d : Bool) (c : InsertionMove) (s : SearchState) :
    o.tryInsertion M d c.i c.oId s c.j =
      if o.AdmitsInsertion M d (s.tabuList, s.hasPhony) c ∧ (o.insertionEstimate M c < s.bestScore ∨
          o.Empties M c ∨ s.bestScore = 0) then o.takeInsertion M s c
      else { s with
        tabuList := (o.rememberInsertion M d (s.tabuList, s.hasPhony) c).1
        hasPhony := (o.rememberInsertion M d (s.tabuList, s.hasPhony) c).2 } := by
  unfold AdmitsInsertion rememberInsertion
  by_cases hphony : (o.vehicle c.j).isPhony = true
  · by_cases hij : c.i = c.j
    · simp [tryInsertion, testInsertion, hij, TabuList.after]
    · simp [tryInsertion, testInsertion, hij, hphony, TabuList.after]
  · rw [tryInsertion_afterTest M o d c s (by simpa using hphony)]
    simp only [Bool.eq_false_of_not_eq_true hphony, Bool.and_false, Bool.or_false]
    cases o.testInsertion M d s.tabuList s.hasPhony c with
    | skipped => simp [afterInsertionTest, TabuList.after]
    | refused k => simp [afterInsertionTest, TabuList.after]
    | fits =>
      simp only [afterInsertionTest, AllowedInsertion, Empties, TabuList.after, true_and]
      by_cases hbetter : o.insertionEstimate M c < s.bestScore ∨ (o.insertionFrom M c).empty = true ∨
          s.bestScore = 0
      · have hworse : ¬ (o.insertionEstimate M c ≥ s.bestScore ∧
            ¬ (o.insertionFrom M c).empty = true ∧ s.bestScore ≠ 0) := by
          rintro ⟨h1, h2, h3⟩
          rcases hbetter with h | h | h
          · exact absurd h1 (by omega)
          · exact h2 h
          · exact h3 h
        rw [if_neg hworse, if_pos hbetter]
        simp only [hbetter, and_true, ite_not]
      · rw [if_neg hbetter]
        simp only [hbetter, and_false, if_false, ite_self]

/-! ### One swap -/

/-- The tests of a swap, in the order of the source. -/
def testSwap (d : Bool) (t : TabuList) (c : SwapMove) : CandidateTest :=
  if !(o.vehicle c.i).feasibleOrders.has c.oId2 then .skipped
  else if (o.swapTo1 M c).ordersInVehicle.has c.oId2 || !(o.swapTo1 M c).isFeasible then .skipped
  else if t.hasInfeasible (candidate (o.swapTo1 M c) c.oId1) then .skipped
  else if (o.swapFrom1 M c).ordersInVehicle.has c.oId1 || !(o.swapFrom1 M c).isFeasible then .skipped
  else if d && t.hasSeen (candidate (o.swapTo1 M c) c.oId1) &&
      t.hasSeen (candidate (o.swapFrom1 M c) c.oId2) then .skipped
  else if t.hasInfeasible (candidate (o.swapFrom1 M c) c.oId2) then .skipped
  else if !(o.swapTo2 M c).hasOrder (o.orders.get c.oId1) || !(o.swapTo2 M c).isFeasible then
    .refused (candidate (o.swapTo1 M c) c.oId1)
  else if !(o.swapFrom2 M c).hasOrder (o.orders.get c.oId2) || !(o.swapFrom2 M c).isFeasible then
    .refused (candidate (o.swapFrom1 M c) c.oId2)
  else .fits

/-- The swap is not tabu, or it beats the best solution. -/
def AllowedSwap (t : TabuList) (c : SwapMove) : Prop :=
  ¬ (t.hasSwap (o.swapFrom2 M c) (o.swapTo2 M c) (o.orders.get c.oId1) (o.orders.get c.oId2) = true ∧
    o.swapEstimate M c ≥ o.bestSolution.objective)

instance (t : TabuList) (c : SwapMove) : Decidable (o.AllowedSwap M t c) := by
  unfold AllowedSwap
  infer_instance

/-- The swap passes the tests, and it is allowed. -/
def AdmitsSwap (d : Bool) (t : TabuList) (c : SwapMove) : Prop :=
  o.testSwap M d t c = .fits ∧ o.AllowedSwap M t c

instance (d : Bool) (t : TabuList) (c : SwapMove) : Decidable (o.AdmitsSwap M d t c) := by
  unfold AdmitsSwap
  infer_instance

/-- The memory after the tests. -/
def rememberSwap (d : Bool) (t : TabuList) (c : SwapMove) : TabuList :=
  t.after (o.testSwap M d t c)

/-- The swap as the best one so far. -/
def takeSwap (s : SearchState) (c : SwapMove) : SearchState :=
  { s with
    found := true
    bestScore := o.swapEstimate M c
    bestFrom := c.i
    bestTo := c.j
    bestFromOrder := o.orders.get c.oId1
    bestToOrder := o.orders.get c.oId2
    bestCandidate1 := candidate (o.swapTo1 M c) c.oId1
    bestCandidate2 := candidate (o.swapFrom1 M c) c.oId2 }

/-- What comes of the tests. -/
def afterSwapTest (s : SearchState) (c : SwapMove) : CandidateTest → SearchState
  | .fits =>
    if o.swapEstimate M c ≥ s.bestScore ∧ s.bestScore ≠ 0 then s
    else if s.tabuList.hasSwap (o.swapFrom2 M c) (o.swapTo2 M c) (o.orders.get c.oId1)
        (o.orders.get c.oId2) ∧ o.swapEstimate M c ≥ o.bestSolution.objective then s
    else if o.swapEstimate M c < s.bestScore ∨ s.bestScore = 0 then o.takeSwap M s c
    else s
  | r => { s with tabuList := s.tabuList.after r }

theorem trySwap_afterTest (d : Bool) (c : SwapMove) (s : SearchState) :
    o.trySwap M d c.i c.oId1 c.j s c.oId2 =
      o.afterSwapTest M s c (o.testSwap M d s.tabuList c) := by
  have hstep {p : Prop} [Decidable p] {x y t u} := ite_afterTest (o.afterSwapTest M s c) (p := p)
    (x := x) (y := y) (t := t) (u := u)
  unfold trySwap testSwap
  exact hstep rfl (hstep rfl (hstep rfl (hstep rfl (hstep rfl (hstep rfl (hstep rfl
    (hstep rfl rfl)))))))

/-- **What a swap does to the search.** -/
theorem trySwap_eq (d : Bool) (c : SwapMove) (s : SearchState) :
    o.trySwap M d c.i c.oId1 c.j s c.oId2 =
      if o.AdmitsSwap M d s.tabuList c ∧ (o.swapEstimate M c < s.bestScore ∨ s.bestScore = 0) then
        o.takeSwap M s c
      else { s with tabuList := o.rememberSwap M d s.tabuList c } := by
  rw [trySwap_afterTest]
  by_cases htest : o.testSwap M d s.tabuList c = .fits
  · rw [rememberSwap, htest]
    simp only [afterSwapTest, AdmitsSwap, htest, AllowedSwap, TabuList.after, true_and]
    by_cases hbetter : o.swapEstimate M c < s.bestScore ∨ s.bestScore = 0
    · have hworse : ¬ (o.swapEstimate M c ≥ s.bestScore ∧ s.bestScore ≠ 0) := by
        rintro ⟨h1, h2⟩
        rcases hbetter with h | h
        · exact absurd h1 (by omega)
        · exact h2 h
      rw [if_neg hworse, if_pos hbetter]
      simp only [hbetter, and_true, ite_not]
    · rw [if_neg hbetter]
      simp only [hbetter, and_false, if_false, ite_self]
  · rw [if_neg fun h => htest h.1.1, rememberSwap]
    generalize o.testSwap M d s.tabuList c = r at htest
    cases r with
    | fits => exact absurd rfl htest
    | _ => rfl

/-! ### What a search keeps -/

/-- The insertions that a search admits, in the order in which it comes to them. -/
def admissibleInsertions (d : Bool) : List InsertionMove :=
  fitting (o.AdmitsInsertion M d) (o.rememberInsertion M d) (o.tabuList, false) o.insertionScan

/-- The swaps that a search admits, in the order in which it comes to them. -/
def admissibleSwaps (d : Bool) : List SwapMove :=
  fitting (o.AdmitsSwap M d) (o.rememberSwap M d) o.tabuList o.swapScan

/-- The best insertion and its score, as the search keeps them. -/
def bestInsertion (intensify d : Bool) : ℤ × Option InsertionMove :=
  (o.admissibleInsertions M d).foldl (keepOr (o.insertionEstimate M) (o.Empties M))
    (if intensify then o.toSolution.objective else 0, none)

/-- The best swap and its score, as the search keeps them. -/
def bestSwap (intensify d : Bool) : ℤ × Option SwapMove :=
  (o.admissibleSwaps M d).foldl (keep (o.swapEstimate M))
    (if intensify then o.toSolution.objective else 0, none)

/-- The local variables have the insertion `b.2` with the score `b.1`. -/
structure ShowsInsertion (s : SearchState) (b : ℤ × Option InsertionMove) : Prop where
  bestScore : s.bestScore = b.1
  found : s.found = b.2.isSome
  best : ∀ c, b.2 = some c → s.bestFrom = c.i ∧ s.bestTo = c.j ∧
    s.bestFromOrder = o.orders.get c.oId ∧ s.bestCandidate1 = candidate (o.vehicle c.j) c.oId

/-- The local variables have the swap `b.2` with the score `b.1`. -/
structure ShowsSwap (s : SearchState) (b : ℤ × Option SwapMove) : Prop where
  bestScore : s.bestScore = b.1
  found : s.found = b.2.isSome
  best : ∀ c, b.2 = some c → s.bestFrom = c.i ∧ s.bestTo = c.j ∧
    s.bestFromOrder = o.orders.get c.oId1 ∧ s.bestToOrder = o.orders.get c.oId2 ∧
    s.bestCandidate1 = candidate (o.swapTo1 M c) c.oId1 ∧
    s.bestCandidate2 = candidate (o.swapFrom1 M c) c.oId2

/-- **The search keeps the best admissible insertion.** -/
theorem searchInsertion_shows (intensify d : Bool) :
    ((o.searchInsertion M intensify d).tabuList, (o.searchInsertion M intensify d).hasPhony) =
        o.insertionScan.foldl (o.rememberInsertion M d) (o.tabuList, false) ∧
      o.ShowsInsertion (o.searchInsertion M intensify d) (o.bestInsertion M intensify d) := by
  rw [searchInsertion_eq]
  refine foldl_fitting (o.AdmitsInsertion M d) (fun s : SearchState => (s.tabuList, s.hasPhony))
    (fun s c => ?_) (fun s b c hs hc => ?_) (fun s b c hs hc => ?_) o.insertionScan
    (s := o.startSearch intensify) ⟨rfl, rfl, fun c h => nomatch h⟩
  · rw [tryInsertion_eq]
    split_ifs with h
    · -- an insertion that fits leaves the memory as it is
      obtain ⟨htest, -⟩ := h.1
      have hreal : (o.vehicle c.j).isPhony = false := by
        by_contra hphony
        rw [Bool.not_eq_false] at hphony
        unfold testInsertion at htest
        rw [hphony, if_pos rfl, ite_self] at htest
        cases htest
      simp [rememberInsertion, htest, TabuList.after, hreal, takeInsertion]
    · rfl
  · rw [tryInsertion_eq]
    by_cases hb : o.insertionEstimate M c < s.bestScore ∨ o.Empties M c ∨ s.bestScore = 0
    · have hkeep : keepOr (o.insertionEstimate M) (o.Empties M) b c =
          (o.insertionEstimate M c, some c) := if_pos (by rwa [← hs.bestScore])
      rw [if_pos ⟨hc, hb⟩, hkeep]
      refine ⟨rfl, rfl, fun c' hc' => ?_⟩
      cases hc'
      exact ⟨rfl, rfl, rfl, rfl⟩
    · have hkeep : keepOr (o.insertionEstimate M) (o.Empties M) b c = b :=
        if_neg (by rwa [← hs.bestScore])
      rw [if_neg fun h => hb h.2, hkeep]
      exact ⟨hs.bestScore, hs.found, hs.best⟩
  · rw [tryInsertion_eq, if_neg fun h => hc h.1]
    exact ⟨hs.bestScore, hs.found, hs.best⟩

/-- **The search keeps the best admissible swap.** -/
theorem searchSwap_shows (intensify d : Bool) :
    (o.searchSwap M intensify d).tabuList = o.swapScan.foldl (o.rememberSwap M d) o.tabuList ∧
      o.ShowsSwap M (o.searchSwap M intensify d) (o.bestSwap M intensify d) := by
  rw [searchSwap_eq]
  refine foldl_fitting (o.AdmitsSwap M d) SearchState.tabuList (fun s c => ?_)
    (fun s b c hs hc => ?_) (fun s b c hs hc => ?_) o.swapScan (s := o.startSearch intensify)
    ⟨rfl, rfl, fun c h => nomatch h⟩
  · rw [trySwap_eq]
    split_ifs with h
    · simp [rememberSwap, h.1.1, TabuList.after, takeSwap]
    · rfl
  · rw [trySwap_eq]
    by_cases hb : o.swapEstimate M c < s.bestScore ∨ s.bestScore = 0
    · have hkeep : keep (o.swapEstimate M) b c = (o.swapEstimate M c, some c) :=
        if_pos (by simpa [← hs.bestScore] using hb)
      rw [if_pos ⟨hc, hb⟩, hkeep]
      refine ⟨rfl, rfl, fun c' hc' => ?_⟩
      cases hc'
      exact ⟨rfl, rfl, rfl, rfl, rfl, rfl⟩
    · have hkeep : keep (o.swapEstimate M) b c = b := if_neg (by simpa [← hs.bestScore] using hb)
      rw [if_neg fun h => hb h.2, hkeep]
      exact ⟨hs.bestScore, hs.found, hs.best⟩
  · rw [trySwap_eq, if_neg fun h => hc h.1]
    exact ⟨hs.bestScore, hs.found, hs.best⟩

/-! ### What is admissible -/

/-- The insertion can be made, whatever the memory. -/
structure InsertionFits (c : InsertionMove) : Prop where
  ne : c.i ≠ c.j
  to_real : (o.vehicle c.j).isPhony = false
  feasible_order : (o.vehicle c.j).feasibleOrders.has c.oId = true
  placed : (o.insertionTo M c).hasOrder (o.orders.get c.oId) = true
  erased : (o.insertionFrom M c).hasOrder (o.orders.get c.oId) = false
  feasible : (o.insertionFrom M c).isFeasible = true

/-- The swap can be made, whatever the memory. -/
structure SwapFits (c : SwapMove) : Prop where
  feasible_order : (o.vehicle c.i).feasibleOrders.has c.oId2 = true
  erased1 : (o.swapFrom1 M c).ordersInVehicle.has c.oId1 = false
  erased2 : (o.swapTo1 M c).ordersInVehicle.has c.oId2 = false
  feasible_from1 : (o.swapFrom1 M c).isFeasible = true
  feasible_to1 : (o.swapTo1 M c).isFeasible = true
  placed1 : (o.swapTo2 M c).hasOrder (o.orders.get c.oId1) = true
  placed2 : (o.swapFrom2 M c).hasOrder (o.orders.get c.oId2) = true
  feasible_from2 : (o.swapFrom2 M c).isFeasible = true
  feasible_to2 : (o.swapTo2 M c).isFeasible = true

/-- The memory takes one of the insertions of the swap for infeasible. -/
def SwapRefused (t : TabuList) (c : SwapMove) : Prop :=
  t.hasInfeasible (candidate (o.swapTo1 M c) c.oId1) = true ∨
    t.hasInfeasible (candidate (o.swapFrom1 M c) c.oId2) = true

variable {M o}

theorem testInsertion_fits {d phony : Bool} {t : TabuList} {c : InsertionMove}
    (h : o.testInsertion M d t phony c = .fits) : o.InsertionFits M c := by
  unfold testInsertion at h
  split_ifs at h with h1 h2 h3 h4 h5 h6 h7 h8
  simp only [Bool.not_eq_true', Bool.not_eq_false] at h4 h7
  simp only [Bool.or_eq_true, Bool.not_eq_true', not_or, Bool.not_eq_true, Bool.not_eq_false] at h8
  exact ⟨h1, by simpa using h2, h4, h7, h8.1, h8.2⟩

/-- Without diversification the memory matters only for the infeasible insertions. -/
theorem testSwap_fits_iff {t : TabuList} {c : SwapMove} :
    o.testSwap M false t c = .fits ↔ o.SwapFits M c ∧ ¬ o.SwapRefused M t c := by
  unfold SwapRefused
  constructor
  · intro h
    unfold testSwap at h
    split_ifs at h with h1 h2 h3 h4 h5 h6 h7 h8
    simp only [Bool.or_eq_true, Bool.not_eq_true', not_or, Bool.not_eq_true, Bool.not_eq_false]
      at h1 h2 h4 h7 h8
    exact ⟨⟨h1, h4.1, h2.1, h4.2, h2.2, h7.1, h8.1, h8.2, h7.2⟩, fun h => h.elim h3 h6⟩
  · rintro ⟨h, hm⟩
    obtain ⟨hm1, hm2⟩ := not_or.mp hm
    unfold testSwap
    simp [h.feasible_order, h.erased1, h.erased2, h.feasible_from1, h.feasible_to1, h.placed1,
      h.placed2, h.feasible_from2, h.feasible_to2, hm1, hm2]

theorem testSwap_fits {d : Bool} {t : TabuList} {c : SwapMove}
    (h : o.testSwap M d t c = .fits) : o.SwapFits M c := by
  unfold testSwap at h
  split_ifs at h with h1 h2 h3 h4 h5 h6 h7 h8
  simp only [Bool.or_eq_true, Bool.not_eq_true', not_or, Bool.not_eq_true, Bool.not_eq_false]
    at h1 h2 h4 h7 h8
  exact ⟨h1, h4.1, h2.1, h4.2, h2.2, h7.1, h8.1, h8.2, h7.2⟩

/-- The tests of a search change nothing of the list of moves. -/
theorem rememberInsertion_tabuList (d : Bool) (l : List InsertionMove) (m : TabuList × Bool) :
    (l.foldl (o.rememberInsertion M d) m).1.tabuList = m.1.tabuList :=
  List.foldlRecOn (motive := fun m' : TabuList × Bool => m'.1.tabuList = m.1.tabuList) l _ rfl
    fun m' h _ _ => (m'.1.tabuList_after _).trans h

theorem rememberSwap_tabuList (d : Bool) (l : List SwapMove) (t : TabuList) :
    (l.foldl (o.rememberSwap M d) t).tabuList = t.tabuList :=
  List.foldlRecOn (motive := fun t' : TabuList => t'.tabuList = t.tabuList) l _ rfl
    fun t' h _ _ => (t'.tabuList_after _).trans h

theorem allowedInsertion_congr {t t' : TabuList} (h : t.tabuList = t'.tabuList) (c : InsertionMove) :
    o.AllowedInsertion M t c ↔ o.AllowedInsertion M t' c := by
  unfold AllowedInsertion TabuList.hasMove TabuList.has
  rw [h]

theorem allowedSwap_congr {t t' : TabuList} (h : t.tabuList = t'.tabuList) (c : SwapMove) :
    o.AllowedSwap M t c ↔ o.AllowedSwap M t' c := by
  unfold AllowedSwap TabuList.hasSwap TabuList.has
  rw [h]

/-- **An admissible insertion** is in the scan, it can be made, and it is allowed. -/
theorem of_mem_admissibleInsertions {d : Bool} {c : InsertionMove}
    (h : c ∈ o.admissibleInsertions M d) :
    c ∈ o.insertionScan ∧ o.InsertionFits M c ∧ o.AllowedInsertion M o.tabuList c := by
  obtain ⟨A, B, hscan, htest, hallowed⟩ := mem_fitting h
  refine ⟨by simp [hscan], testInsertion_fits htest, ?_⟩
  exact (allowedInsertion_congr (rememberInsertion_tabuList d A _) c).mp hallowed

/-- **An admissible swap** is in the scan, it can be made, and it is allowed. -/
theorem of_mem_admissibleSwaps {d : Bool} {c : SwapMove} (h : c ∈ o.admissibleSwaps M d) :
    c ∈ o.swapScan ∧ o.SwapFits M c ∧ o.AllowedSwap M o.tabuList c := by
  obtain ⟨A, B, hscan, htest, hallowed⟩ := mem_fitting h
  refine ⟨by simp [hscan], testSwap_fits htest, ?_⟩
  exact (allowedSwap_congr (rememberSwap_tabuList d A _) c).mp hallowed

/-- What a search has found is admissible, and its score is the estimate. -/
theorem exists_bestInsertion {intensify d : Bool}
    (h : (o.searchInsertion M intensify d).found = true) :
    ∃ c ∈ o.admissibleInsertions M d,
      o.bestInsertion M intensify d = (o.insertionEstimate M c, some c) := by
  have hfound := (o.searchInsertion_shows M intensify d).2.found
  obtain ⟨c, hc⟩ := Option.isSome_iff_exists.mp (hfound.symm.trans h)
  exact ⟨c, mem_of_foldl_keepOr hc⟩

theorem exists_bestSwap {intensify d : Bool} (h : (o.searchSwap M intensify d).found = true) :
    ∃ c ∈ o.admissibleSwaps M d, o.bestSwap M intensify d = (o.swapEstimate M c, some c) := by
  have hfound := (o.searchSwap_shows M intensify d).2.found
  obtain ⟨c, hc⟩ := Option.isSome_iff_exists.mp (hfound.symm.trans h)
  exact ⟨c, mem_of_foldl_keepOr hc⟩

end Optimize

end VrpRouting.Optimizers.Tabu
