import VrpRouting.Problem.Insertion

/-! # Removals of orders

`eraseOrder` takes the first stop with the index of the pickup and the first one with the index of
the delivery off the path, and the order out of the movable set. -/

namespace VrpRouting

/-- The index test of `erase(node)`. -/
def hasIdx (idx : ℕ) (t : TwNode) : Bool := decide (idx = t.idx)

section Erase
variable {M : Matrix} {v : Vehicle} {o : Order}

theorem eraseStop_nodes (n : VehicleNode) (hv : NoDump v.path) :
    nodesOf (v.eraseStop M n).path = (nodesOf v.path).eraseP (hasIdx n.idx) := by
  have hf : (nodesOf v.path).findIdx? (hasIdx n.idx) =
      v.path.findIdx? fun s => decide (n.idx = s.idx) := by
    rw [nodesOf, List.findIdx?_map]
    rfl
  rw [List.eraseP_eq_eraseIdx, hf]
  unfold Vehicle.eraseStop
  split
  · next pos hpos =>
    rw [hpos]
    exact ((Edited.refl (p := pos) hv).eraseAt (M := M) le_rfl le_rfl pos).nodes
  · next hpos => rw [hpos]

theorem eraseStop_others (n : VehicleNode) : SameButPath v (v.eraseStop M n) := by
  unfold Vehicle.eraseStop
  split <;> rfl

theorem eraseStop_noDump (n : VehicleNode) (hv : NoDump v.path) : NoDump (v.eraseStop M n).path := by
  rw [noDump_iff_nodes, eraseStop_nodes n hv]
  exact fun t ht => noDump_iff_nodes.mp hv t (List.mem_of_mem_eraseP ht)

theorem eraseStop_settled (n : VehicleNode) (hv : NoDump v.path)
    (hs : Settled M v.capacity v.speed 0 v.path) :
    Settled M v.capacity v.speed 0 (v.eraseStop M n).path := by
  unfold Vehicle.eraseStop
  split
  · next pos hpos =>
    have h := (Edited.refl (p := pos) (M := M) hv).eraseAt le_rfl le_rfl v.path.length
    refine h.settled_path ?_ hs
    exact (List.length_eraseIdx_le _ _).trans (length_nodesOf _).le
  · exact hs

theorem eraseOrder_others : v.eraseOrder M o =
    { v with path := (v.eraseOrder M o).path, ordersInVehicle := v.ordersInVehicle.erase o.idx } := by
  have h1 := eraseStop_others (M := M) (v := v) o.pickup
  have h2 := eraseStop_others (M := M) (v := v.eraseStop M o.pickup) o.delivery
  unfold SameButPath at h1 h2
  unfold Vehicle.eraseOrder
  rw [h2, h1]

variable (v o) in
theorem isPhony_eraseOrder : (v.eraseOrder M o).isPhony = v.isPhony := by
  rw [eraseOrder_others]
  rfl

theorem mem_of_mem_eraseOrder {i : ℕ} (h : i ∈ (v.eraseOrder M o).ordersInVehicle) :
    i ∈ v.ordersInVehicle := by
  rw [eraseOrder_others] at h
  exact (Identifiers.mem_erase.mp h).1

theorem eraseOrder_nodes (hv : NoDump v.path) : nodesOf (v.eraseOrder M o).path =
    ((nodesOf v.path).eraseP (hasIdx o.pickup.idx)).eraseP (hasIdx o.delivery.idx) := by
  rw [← eraseStop_nodes (M := M) _ hv]
  exact eraseStop_nodes _ (eraseStop_noDump _ hv)

/-- Removal keeps the path evaluated. -/
theorem eraseOrder_settled (hv : NoDump v.path) (hs : Settled M v.capacity v.speed 0 v.path) :
    Settled M v.capacity v.speed 0 (v.eraseOrder M o).path := by
  have h1 := eraseStop_settled o.pickup hv hs
  have hc := eraseStop_others (M := M) (v := v) o.pickup
  have hcap : (v.eraseStop M o.pickup).capacity = v.capacity := by rw [hc]
  have hspeed : (v.eraseStop M o.pickup).speed = v.speed := by rw [hc]
  rw [← hcap, ← hspeed] at h1 ⊢
  exact eraseStop_settled o.delivery (eraseStop_noDump _ hv) h1

end Erase

end VrpRouting
