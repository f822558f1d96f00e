import VrpRouting.Problem.Fleet

/-! # The pick and deliver problem

The orders get the node indices `0, 1, 2, …`, two each, then the sites of the vehicles follow. -/

open Sorting

namespace VrpRouting

/-- The order in which the orders are built. -/
def ordersLt (lhs rhs : OrdersT) : Bool :=
  if lhs.pickOpenT = rhs.pickOpenT then
    if lhs.deliverCloseT = rhs.deliverCloseT then decide (lhs.id < rhs.id)
    else decide (lhs.deliverCloseT < rhs.deliverCloseT)
  else decide (lhs.pickOpenT < rhs.pickOpenT)

theorem ordersLt_strictWeak : StrictWeak ordersLt :=
  .of_key (fun o => toLex (o.pickOpenT, toLex (o.deliverCloseT, o.id))) fun a b => by
    simp only [ordersLt, Prod.Lex.toLex_lt_toLex]
    split_ifs <;> simp only [decide_eq_true_eq] <;> omega

/-- `build_orders` on the sorted data. -/
def Orders.ofData (data : List OrdersT) : Orders :=
  data.mapIdx fun i o => Order.ofNodes i o.id (.ofTwNode (.ofOrder (2 * i) o .kPickup))
    (.ofTwNode (.ofOrder (2 * i + 1) o .kDelivery))

structure PickDeliver where
  orders : Orders
  trucks : Fleet
deriving DecidableEq

/-- The two constructors; the one without `new_stops` is the case of the empty vector. -/
def PickDeliver.build (S : Sorter) (M : Matrix) (pOrders : List OrdersT) (pVehicles : List VehicleT)
    (newStops : List ShortVehicle) : Except Fault PickDeliver := do
  let orders := Orders.ofData (S.sort ordersLt pOrders)
  let trucks ← Fleet.build M newStops orders S pVehicles (2 * orders.length)
  let orders := orders.setCompatibles M 1
  return ⟨orders, trucks.clean.setCompatibles M orders⟩

/-- An order and a vehicle that can serve it. -/
structure CompatibleVehiclesRt where
  orderId : ℤ
  vehicleId : ℤ
deriving DecidableEq, Repr

/-- `get_pg_compatibleVehicles`. -/
def PickDeliver.getPgCompatibleVehicles (p : PickDeliver) : List CompatibleVehiclesRt :=
  (p.trucks.vehicles.filter fun v => !v.isPhony).flatMap fun v =>
    v.feasibleOrders.ids.map fun o => ⟨(p.orders.get o).id, v.id⟩

/-! ### Data of small problems -/

/-- An order from the site 1 to the site 2, both open until `close`. -/
def smallOrderData (id close : ℤ) : OrdersT := ⟨id, 1, 1, 0, close, 0, 2, 0, close, 0⟩

def threeOrders : List OrdersT := [smallOrderData 1 100, smallOrderData 2 100, smallOrderData 3 100]

/-- An order whose two stops are at the site 1. -/
def depotOrderData (id : ℤ) : OrdersT := ⟨id, 1, 1, 0, 100, 0, 1, 0, 100, 0⟩

/-- A vehicle of capacity 1 that starts and ends at the site 1. -/
def smallVehicleData (id : ℤ) (stops : List ℤ) : VehicleT :=
  ⟨id, 1, 1, 1, stops, 1, 0, 100, 0, 1, 0, 100, 0⟩

end VrpRouting
