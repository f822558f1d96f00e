import VrpRouting.Optimizers.TruckRoutes

/-! # Reachable fleets

The fleets that the drivers pass through from a problem on: the vehicles of the problem, with and
without the user's solution on them, the two kinds of initial solutions, and the fleets of the two
optimizers between any two of their operations. Whatever a driver combines, every vehicle is a truck
of the problem on some route (`Reachable.onTruckRoutes`). -/

open Sorting

namespace VrpRouting

open Optimizers

inductive Reachable (S : Sorter) (M : Matrix) (p : PickDeliver) : List Vehicle → Prop
  | trucks : Reachable S M p p.trucks.vehicles
  | userSolution (date : ℤ) (optimize : Bool) :
      Reachable S M p (Initialsol.Tabu.InitialSolution.userFleet M date optimize p).1.vehicles
  | tabuSolution {date : ℤ} {optimize : Bool} {s : Initialsol.Tabu.InitialSolution}
      (h : Initialsol.Tabu.InitialSolution.construct M date optimize p = .ok s) :
      Reachable S M p s.fleet
  | simpleSolution {kind : Initialsol.Simple.InitialsCode} {s : Initialsol.Simple.InitialSolution}
      (h : Initialsol.Simple.InitialSolution.Reached M kind p s) : Reachable S M p s.fleet
  /-- The fleet of the tabu search, started from a reachable fleet. -/
  | tabuFleet {sol : Solution} (h : Reachable S M p sol.fleet) (ho : sol.orders = p.orders)
      (maxCycles : ℕ) (stopOnAllServed optimize : Bool) (ops : List Tabu.Op) :
      Reachable S M p
        (Tabu.run S M (Tabu.started S sol maxCycles stopOnAllServed optimize) ops).fleet
  | tabuBest {sol : Solution} (h : Reachable S M p sol.fleet) (ho : sol.orders = p.orders)
      (maxCycles : ℕ) (stopOnAllServed optimize : Bool) (ops : List Tabu.Op) :
      Reachable S M p
        (Tabu.run S M (Tabu.started S sol maxCycles stopOnAllServed optimize) ops).bestSolution.fleet
  /-- The fleet of the simple optimizer, started from a reachable fleet. -/
  | simpleFleet {sol : Solution} (h : Reachable S M p sol.fleet) (ho : sol.orders = p.orders)
      (kind : Initialsol.Simple.InitialsCode) (acts : List Simple.Act) :
      Reachable S M p (Simple.run S M (Simple.Optimize.init sol kind) acts).fleet
  | simpleBest {sol : Solution} (h : Reachable S M p sol.fleet) (ho : sol.orders = p.orders)
      (kind : Initialsol.Simple.InitialsCode) (acts : List Simple.Act) :
      Reachable S M p (Simple.run S M (Simple.Optimize.init sol kind) acts).bestSolution.fleet

section Routes
variable {S : Sorter} {M : Matrix} {pOrders : List OrdersT} {pVehicles : List VehicleT}
  {newStops : List ShortVehicle} {p : PickDeliver} (hb : p.Built S M pOrders pVehicles newStops)
include hb

/-- A fleet of trucks on routes is a valid start of the tabu search. -/
theorem OnTruckRoutes.valid {sol : Solution} (ho : sol.orders = p.orders)
    (h : OnTruckRoutes M p.orders p.HasTruck sol.fleet) : sol.Valid where
  orders := ho ▸ hb.wellFormed
  fleet v hv := by
    obtain ⟨u, -, hroute⟩ := h v hv
    exact ho ▸ hroute.route

/-- **Every reachable fleet consists of trucks of the problem on routes.** -/
theorem Reachable.onTruckRoutes {F : List Vehicle} (h : Reachable S M p F) :
    OnTruckRoutes M p.orders p.HasTruck F := by
  have hknows : ∀ u, p.HasTruck u → SameNodes u.orders p.orders := fun u hu => (hb.fresh u hu).orders
  have htabu : ∀ {sol : Solution}, sol.orders = p.orders →
      OnTruckRoutes M p.orders p.HasTruck sol.fleet → ∀ maxCycles stopOnAllServed optimize ops,
      (Tabu.run S M (Tabu.started S sol maxCycles stopOnAllServed optimize)
        ops).view.OnTruckRoutes M p.orders p.HasTruck := fun {sol} ho hF _ _ _ ops => by
    have hvalid := hF.valid hb ho
    rw [← ho] at hF ⊢
    exact (Tabu.run_onTruckRoutes S hvalid hF _ _ _).1 ops
  induction h with
  | trucks => exact hb.onTruckRoutes
  | userSolution date optimize => exact Initialsol.Tabu.InitialSolution.userFleet_onTruckRoutes hb
  | tabuSolution h =>
    exact (Initialsol.Tabu.InitialSolution.construct_onTruckRoutes hb h).mono fun _ hu => hu.hasTruck
  | simpleSolution h => exact h.onTruckRoutes hb
  | tabuFleet _ ho maxCycles stop optimize ops ih =>
    exact (htabu ho ih maxCycles stop optimize ops).fleet
  | tabuBest _ ho maxCycles stop optimize ops ih =>
    exact (htabu ho ih maxCycles stop optimize ops).best
  | simpleFleet _ ho kind acts ih =>
    exact (Simple.run_onTruckRoutes hb.wellFormed hknows S acts ⟨ih, ih⟩).fleet
  | simpleBest _ ho kind acts ih =>
    exact (Simple.run_onTruckRoutes hb.wellFormed hknows S acts ⟨ih, ih⟩).best

end Routes

end VrpRouting
