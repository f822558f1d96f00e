import VrpRouting.Driver.Lookups
import VrpRouting.Driver.Service

/-! # Fetched data has a reply

The code reads through iterators that it does not compare with the end: the first vehicle of a fleet
that may be empty, and the order that a stop names. `vrp_pickDeliver` tests its data before, so neither
of the two reads goes wrong, and there is a message or there are rows (`pickDeliverOn_replies`). -/

open Sorting

namespace VrpRouting

/-- The call has a value or throws. -/
def Defined {α : Type} (x : Except Fault α) : Prop := x ≠ .error .undefinedRead

section Defined
variable {α β : Type}

theorem defined_ok (a : α) : Defined (.ok a : Except Fault α) := fun h => by cases h

theorem Defined.bind {x : Except Fault α} {f : α → Except Fault β} (hx : Defined x)
    (hf : ∀ a, x = .ok a → Defined (f a)) : Defined (x >>= f) := fun h => by
  rcases bind_eq_error h with h | ⟨a, ha, h⟩
  · exact hx h
  · exact hf a ha h

theorem defined_throwIf (c : Prop) [Decidable c] (text : String) : Defined (throwIf c text) := by
  unfold throwIf
  split_ifs
  · exact fun h => by cases h
  · exact defined_ok ()

end Defined

namespace Driver

variable (S : Sorter) (toUtc : ℤ → ℤ) {orders : List OrdersT} {vehicles : List VehicleT}

/-- The construction finds the order of every stop. -/
theorem defined_construct {M : Matrix} {p : PickDeliver} (hknown : missesOrder orders vehicles = false)
    (hp : PickDeliver.build S M orders vehicles [] = .ok p) (date : ℤ) (optimize : Bool) :
    Defined (Initialsol.Tabu.InitialSolution.construct M date optimize p) := by
  have hb := PickDeliver.build_built hp
  unfold Initialsol.Tabu.InitialSolution.construct
  rw [if_pos]
  · exact defined_ok _
  refine List.all_eq_true.mpr fun v hv => List.all_eq_true.mpr fun x hx => ?_
  obtain ⟨k, d, ⟨n, -, hm⟩, hd⟩ := hb.exists_made hv
  have hstops : v.stops = Fleet.stopsFor [] d := by rw [hm]; rfl
  rw [hstops, stopsFor_eq] at hx
  split_ifs at hx with hone
  · rcases hd with ⟨hd, -⟩ | ⟨first, -, rfl⟩
    · have hfound : (orderIds orders).has x = true := by
        have hnone := List.any_eq_false.mp (Bool.eq_false_iff.mpr
          (List.any_eq_false.mp hknown d hd)) x hx
        simpa using hnone
      obtain ⟨o, ho, rfl⟩ := mem_orderIds.mp (Identifiers.has_iff.mp hfound)
      obtain ⟨i, hi, hid, -⟩ := hb.exists_index ho
      exact List.any_eq_true.mpr ⟨_, Orders.get_mem hi, decide_eq_true hid⟩
    · cases hx
  · cases hx

theorem defined_processPickDeliver (hne : vehicles ≠ []) (costs : List MatrixCell)
    (multipliers : List TimeMultipliersT) (args : Parameters) :
    Defined (processPickDeliver S toUtc orders vehicles costs multipliers args) := by
  refine (defined_throwIf _ _).bind fun _ hmiss => ?_
  have hmatrix : Defined (timedMatrix S orders vehicles costs multipliers args.factor) :=
    (defined_throwIf _ _).bind fun _ _ => defined_ok _
  have hbuild : ∀ M, Defined (PickDeliver.build S M orders vehicles []) := fun M h =>
    build_error hne h rfl
  refine hmatrix.bind fun M _ => (hbuild M).bind fun p hp => ?_
  exact (defined_construct S (Bool.eq_false_iff.mpr (throwIf_eq_ok hmiss)) hp _ _).bind
    fun _ _ => defined_ok _

/-- Whatever is fetched, there is a reply. -/
theorem pickDeliverOn_replies (orders : List OrdersT) (vehicles : List VehicleT)
    (costs : List MatrixCell) (multipliers : List TimeMultipliersT) (args : Parameters) :
    ∃ reply, pickDeliverOn S toUtc orders vehicles costs multipliers args = .ok reply := by
  unfold pickDeliverOn
  split_ifs with _ _ _ hvehicles
  iterate 5 exact ⟨_, rfl⟩
  have hne : vehicles ≠ [] := fun h => hvehicles (List.length_eq_zero_iff.mpr h)
  have hdefined : Defined (processPickDeliver S toUtc orders vehicles costs multipliers args) :=
    defined_processPickDeliver S toUtc hne costs multipliers args
  cases hx : processPickDeliver S toUtc orders vehicles costs multipliers args with
  | ok reply => exact ⟨reply, rfl⟩
  | error e =>
    cases e with
    | thrown text => exact ⟨.err text, rfl⟩
    | undefinedRead => exact absurd hx hdefined

end Driver

end VrpRouting
