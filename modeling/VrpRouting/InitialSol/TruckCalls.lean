import VrpRouting.InitialSol.Passes

/-! # Calls of `get_truck`

Every call takes its truck off the unused ones, the phony truck like any other, unless it is the
last one left, and then reads the index of the truck from the element that was taken away
(`getTruckReading`). So by the C++ standard a call is served only with a single truck left. Where the
element still has its value, a call is served exactly when some truck in which the order fits is
still unused (`get_truck_iff`); otherwise it reads behind the end of the unused trucks. -/

open Sorting

namespace VrpRouting.Fleet

/-- The indices are those of existing vehicles. -/
structure Indexed (f : Fleet) : Prop where
  used : ∀ k ∈ f.used, k < f.vehicles.length
  unused : ∀ k ∈ f.unused, k < f.vehicles.length

section Calls
variable (freed : ℕ → Option ℕ)

/-- `get_truck` for the orders, one call after the other. -/
def getTrucks (f : Fleet) : List ℕ → Except Fault (List Vehicle × Fleet)
  | [] => .ok ([], f)
  | o :: os => do
    let t ← f.getTruckReading freed o
    let ts ← t.2.getTrucks os
    return (t.1 :: ts.1, ts.2)

/-- In the state `f` of the fleet `F`, the call for the order returns a vehicle of the fleet in
which the order fits, and every index used is that of an existing vehicle. -/
def Serves (F f : Fleet) (o : ℕ) : Prop :=
  ∃ v f', f.getTruckReading freed o = .ok (v, f') ∧ v ∈ F.vehicles ∧ o ∈ v.feasibleOrders ∧
    ∀ k ∈ f'.used, k < F.vehicles.length

/-- In the run of calls for `os`, `P` holds at each call for an order that fits in some vehicle of
the fleet; `f` is the state before the call. -/
def EveryCall (F : Fleet) (os : List ℕ) (P : Fleet → ℕ → Prop) : Prop :=
  ∀ done o rest, os = done ++ o :: rest → ∀ vs f, F.getTrucks freed done = .ok (vs, f) →
    (∃ v ∈ F.vehicles, o ∈ v.feasibleOrders) → P f o

end Calls

/-- A vehicle in which the order fits is still unused. -/
def Available (F f : Fleet) (o : ℕ) : Prop := ∃ k ∈ f.unused, o ∈ (F.vehicle k).feasibleOrders

section Step
variable {freed : ℕ → Option ℕ} {F f f' : Fleet} {o : ℕ} {v : Vehicle}

/-- **What a call does.** -/
theorem getTruckReading_step (h : f.getTruckReading freed o = .ok (v, f')) :
    ∃ k ∈ f.unused, o ∈ (f.vehicle k).feasibleOrders ∧
      (∃ j < f.vehicles.length, (if f.unused.size > 1 then freed k else some k) = some j ∧
        v = f.vehicle j) ∧
      f'.vehicles = f.vehicles ∧ f'.used = f.used.insert k ∧
      f'.unused = if f.unused.size > 1 then f.unused.erase k else f.unused := by
  unfold getTruckReading at h
  split at h
  · next k hk =>
    have ho : o ∈ (f.vehicle k).feasibleOrders := by simpa using List.find?_some hk
    split at h
    · next j hj =>
      by_cases hlt : j < f.size
      · rw [if_pos hlt] at h
        obtain ⟨rfl, rfl⟩ := Prod.mk.inj (Except.ok.inj h)
        exact ⟨k, List.mem_of_find?_eq_some hk, ho, ⟨j, hlt, hj, rfl⟩, rfl, rfl, rfl⟩
      · rw [if_neg hlt] at h
        cases h
    · cases h
  · cases h

/-- A call keeps the indices inside the fleet. -/
theorem Indexed.getTruckReading (hf : f.Indexed) (h : f.getTruckReading freed o = .ok (v, f')) :
    f'.Indexed := by
  obtain ⟨k, hk, -, -, hv, hused, hunused⟩ := getTruckReading_step h
  refine ⟨fun j hj => ?_, fun j hj => ?_⟩
  · rw [hused, Identifiers.mem_insert] at hj
    rw [hv]
    rcases hj with rfl | hj
    · exact hf.unused j hk
    · exact hf.used j hj
  · rw [hunused] at hj
    rw [hv]
    split_ifs at hj
    · exact hf.unused j (Identifiers.mem_erase.mp hj).1
    · exact hf.unused j hj

/-- **A run keeps the vehicles**, and the indices inside the fleet. -/
theorem Indexed.getTrucks {os : List ℕ} {vs : List Vehicle} (hf : f.Indexed)
    (h : f.getTrucks freed os = .ok (vs, f')) : f'.vehicles = f.vehicles ∧ f'.Indexed := by
  induction os generalizing f vs with
  | nil =>
    obtain ⟨-, rfl⟩ := Prod.mk.inj (Except.ok.inj h)
    exact ⟨rfl, hf⟩
  | cons o os ih =>
    obtain ⟨⟨v, f₁⟩, hcall, h⟩ := bind_eq_ok h
    obtain ⟨⟨vs', f₂⟩, hrest, h⟩ := bind_eq_ok h
    obtain ⟨-, rfl⟩ := Prod.mk.inj (Except.ok.inj h)
    obtain ⟨_, -, -, -, hv, -⟩ := getTruckReading_step hcall
    obtain ⟨hv', hf'⟩ := ih (hf.getTruckReading hcall) hrest
    exact ⟨hv'.trans hv, hf'⟩

/-- A call for an order that fits in an unused truck finds the first one of them. -/
theorem exists_first (h : ∃ k ∈ f.unused, o ∈ (f.vehicle k).feasibleOrders) :
    ∃ k ∈ f.unused, o ∈ (f.vehicle k).feasibleOrders ∧
      f.unused.ids.find? (fun idx => (f.vehicle idx).feasibleOrders.has o) = some k := by
  obtain ⟨k, hk, ho⟩ := h
  have hhas : (f.vehicle k).feasibleOrders.has o = true := Identifiers.has_iff.mpr ho
  have hsome : (f.unused.ids.find? fun idx => (f.vehicle idx).feasibleOrders.has o).isSome = true :=
    List.find?_isSome.mpr ⟨k, hk, hhas⟩
  obtain ⟨j, hj⟩ := Option.isSome_iff_exists.mp hsome
  exact ⟨j, List.mem_of_find?_eq_some hj, by simpa using List.find?_some hj, hj⟩

/-- While the elements that are taken away keep their value, the call is that of `getTruck`. -/
theorem getTruckReading_some (hf : f.Indexed) : f.getTruckReading some o = f.getTruck o := by
  unfold getTruckReading getTruck
  cases hfind : f.unused.ids.find? fun idx => (f.vehicle idx).feasibleOrders.has o with
  | none => rfl
  | some k =>
    have hlt : k < f.size := hf.unused k (List.mem_of_find?_eq_some hfind)
    dsimp only
    rw [ite_self]
    exact if_pos hlt

theorem vehicle_congr (hv : f.vehicles = F.vehicles) (k : ℕ) : f.vehicle k = F.vehicle k := by
  unfold vehicle
  rw [hv]

section Serves
variable (hv : f.vehicles = F.vehicles) (hf : f.Indexed)
include hv hf

/-- A call that reads an index is served when the order fits in the vehicle of the index. -/
theorem serves_of_read {k j : ℕ}
    (hk : f.unused.ids.find? (fun idx => (f.vehicle idx).feasibleOrders.has o) = some k)
    (hj : (if f.unused.size > 1 then freed k else some k) = some j) (hlt : j < f.vehicles.length)
    (ho : o ∈ (f.vehicle j).feasibleOrders) : Serves freed F f o := by
  obtain ⟨f', hcall⟩ : ∃ f', f.getTruckReading freed o = .ok (f.vehicle j, f') := by
    unfold Fleet.getTruckReading
    rw [hk]
    dsimp only
    rw [hj]
    exact ⟨_, if_pos hlt⟩
  obtain ⟨_, -, -, -, hv', -⟩ := getTruckReading_step hcall
  refine ⟨_, f', hcall, ?_, ho, fun i hi => ?_⟩
  · rw [vehicle_eq_getElem hlt, ← hv]
    exact List.getElem_mem hlt
  · rw [← hv, ← hv']
    exact (hf.getTruckReading hcall).used i hi

/-- **By the C++ standard a call is served when a single truck is left.** -/
theorem serves_undefined_iff :
    Serves (fun _ => none) F f o ↔ F.Available f o ∧ f.unused.size ≤ 1 := by
  constructor
  · rintro ⟨v, f', hcall, -⟩
    obtain ⟨k, hk, ho, ⟨j, -, hj, -⟩, -⟩ := getTruckReading_step hcall
    refine ⟨⟨k, hk, vehicle_congr hv k ▸ ho⟩, ?_⟩
    by_contra hlt
    rw [if_pos (not_le.mp hlt)] at hj
    cases hj
  · rintro ⟨⟨k, hk, ho⟩, hone⟩
    obtain ⟨k, hk, ho, hfind⟩ := exists_first ⟨k, hk, (vehicle_congr hv k).symm ▸ ho⟩
    exact serves_of_read hv hf hfind (if_neg (not_lt.mpr hone)) (hf.unused k hk) ho

/-- **With the value of the element, a call is served when a truck for it is still unused.** -/
theorem serves_iff : Serves some F f o ↔ F.Available f o := by
  constructor
  · rintro ⟨v, f', hcall, -⟩
    obtain ⟨k, hk, ho, -⟩ := getTruckReading_step hcall
    exact ⟨k, hk, vehicle_congr hv k ▸ ho⟩
  · rintro ⟨k, hk, ho⟩
    obtain ⟨k, hk, ho, hfind⟩ := exists_first ⟨k, hk, (vehicle_congr hv k).symm ▸ ho⟩
    exact serves_of_read hv hf hfind (ite_self _) (hf.unused k hk) ho

end Serves

end Step

/-- Two properties that agree at the calls of a run. -/
theorem everyCall_congr {freed : ℕ → Option ℕ} {F : Fleet} (hF : F.Indexed) {P Q : Fleet → ℕ → Prop}
    (h : ∀ {f o}, f.vehicles = F.vehicles → f.Indexed → (P f o ↔ Q f o)) (os : List ℕ) :
    EveryCall freed F os P ↔ EveryCall freed F os Q := by
  constructor
  · intro hP done o rest hos vs f hdone hfits
    obtain ⟨hv, hf⟩ := hF.getTrucks hdone
    exact (h hv hf).mp (hP done o rest hos vs f hdone hfits)
  · intro hQ done o rest hos vs f hdone hfits
    obtain ⟨hv, hf⟩ := hF.getTrucks hdone
    exact (h hv hf).mpr (hQ done o rest hos vs f hdone hfits)

/-- **When the calls of a run are served.** By the C++ standard: when a single truck is left at each
of them, and the order fits in it. Where the elements that are taken away keep their value: when a
truck for the order is still unused. -/
theorem get_truck_iff {S : Sorter} {M : Matrix} {pOrders : List OrdersT} {pVehicles : List VehicleT}
    {newStops : List ShortVehicle} {p : PickDeliver}
    (hp : PickDeliver.build S M pOrders pVehicles newStops = .ok p) (os : List ℕ) :
    (EveryCall (fun _ => none) p.trucks os (Serves (fun _ => none) p.trucks) ↔
      EveryCall (fun _ => none) p.trucks os
        fun f o => p.trucks.Available f o ∧ f.unused.size ≤ 1) ∧
    (EveryCall some p.trucks os (Serves some p.trucks) ↔
      EveryCall some p.trucks os p.trucks.Available) := by
  obtain ⟨first, rest, -, hf⟩ := (PickDeliver.build_built hp).fleet
  have hstart : p.trucks.Indexed := by
    refine ⟨fun k hk => ?_, fun k hk => ?_⟩
    · rw [hf.used] at hk
      exact absurd hk (Identifiers.not_mem_empty k)
    · obtain ⟨v, hv, -⟩ := (hf.unused k).mp hk
      exact (List.getElem?_eq_some_iff.mp hv).1
  exact ⟨everyCall_congr hstart (fun hv hf => serves_undefined_iff hv hf) os,
    everyCall_congr hstart (fun hv hf => serves_iff hv hf) os⟩

/-! ### A vehicle that is too small -/

/-- Two orders for a vehicle of capacity 2. -/
def twoHeavyOrders : List OrdersT :=
  [{ smallOrderData 1 100 with demand := 2 }, { smallOrderData 2 100 with demand := 2 }]

/-- With a vehicle of that capacity the calls are served, as long as the elements keep their value. -/
theorem get_truck_iff_small : ∃ p,
    PickDeliver.build .insertion twoSites twoHeavyOrders
      [{ smallVehicleData 7 [] with capacity := 2 }] [] = .ok p ∧
    (getTrucks some p.trucks [0, 1]).isOk = true ∧
    (getTrucks (fun _ => none) p.trucks [0, 1]).isOk = false ∧
    (EveryCall some p.trucks [0, 1] (Serves some p.trucks) ↔
      EveryCall some p.trucks [0, 1] p.trucks.Available) := by
  obtain ⟨p, hp, hok⟩ := exists_ok_and (x := PickDeliver.build .insertion twoSites twoHeavyOrders
    [{ smallVehicleData 7 [] with capacity := 2 }] [])
    (fun p => (getTrucks some p.trucks [0, 1]).isOk &&
      !(getTrucks (fun _ => none) p.trucks [0, 1]).isOk) (by decide +kernel)
  rw [Bool.and_eq_true, Bool.not_eq_true'] at hok
  exact ⟨p, hp, hok.1, hok.2, (get_truck_iff hp [0, 1]).2⟩

/-- Both orders fit in the phony truck only. The first one takes it, so with the value of the element the
second call finds no truck; any other value serves the first call no better. -/
theorem get_truck_fails : ∃ p,
    PickDeliver.build .insertion twoSites twoHeavyOrders [smallVehicleData 7 []] [] = .ok p ∧
    (∀ o ∈ [0, 1], ∃ v ∈ p.trucks.vehicles, o ∈ v.feasibleOrders) ∧
    Initialsol.Simple.InitialSolution.doWhileFoo twoSites .onePerTruck 2 (.start p) =
      .error .undefinedRead ∧
    ∀ freed, ¬ EveryCall freed p.trucks [0, 1] (Serves freed p.trucks) := by
  obtain ⟨p, hp, hq⟩ := exists_ok_and (x := PickDeliver.build .insertion twoSites twoHeavyOrders
    [smallVehicleData 7 []] [])
    (fun p => decide ((∀ o ∈ [(0 : ℕ), 1], ∃ v ∈ p.trucks.vehicles, o ∈ v.feasibleOrders) ∧
      Initialsol.Simple.InitialSolution.doWhileFoo twoSites .onePerTruck 2 (.start p) =
        .error .undefinedRead ∧
      p.trucks.unused.size > 1 ∧
      ∀ o ∈ [(0 : ℕ), 1], ∀ k ∈ p.trucks.unused.ids, o ∈ (p.trucks.vehicle k).feasibleOrders → k = 1))
    (by decide +kernel)
  obtain ⟨hfits, hrun, hsize, honly⟩ := of_decide_eq_true hq
  refine ⟨p, hp, hfits, hrun, fun freed h => ?_⟩
  obtain ⟨v, f, hcall, -⟩ := h [] 0 [1] rfl [] p.trucks rfl (hfits 0 (by simp))
  obtain ⟨k, hk, ho, -, hv, -, hunused⟩ := getTruckReading_step hcall
  obtain rfl := honly 0 (by simp) k hk ho
  have hrun : p.trucks.getTrucks freed [0] = .ok ([v], f) := by
    unfold getTrucks
    rw [hcall]
    rfl
  obtain ⟨v', f', hcall', -⟩ := h [0] 1 [] rfl [v] f hrun (hfits 1 (by simp))
  obtain ⟨j, hj, ho', -⟩ := getTruckReading_step hcall'
  -- the only truck for the second order was taken away
  rw [hunused, if_pos hsize, Identifiers.mem_erase] at hj
  rw [vehicle_congr hv] at ho'
  exact hj.2 (honly 1 (by simp) j hj.1 ho')

end VrpRouting.Fleet
