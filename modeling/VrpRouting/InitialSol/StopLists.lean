import VrpRouting.InitialSol.Construction

/-! # Lists of stops

`get_stops` lists the two stops of every order that a vehicle carries (`count_getStops`), when it
recognises the two sites (`Listable`). -/

namespace VrpRouting

/-- The sites pass the tests of `is_start` and `is_end`, and the other nodes belong to orders. -/
structure Listable (orders : Orders) (v : Vehicle) : Prop where
  sites : ∀ t ∈ nodesOf v.path, t.type = .kStart ∨ t.type = .kEnd → (t.isStart || t.isEnd) = true
  known : ∀ t ∈ nodesOf v.path, t.type = .kStart ∨ t.type = .kEnd ∨
    ∃ i < orders.length, isNodeOf (orders.get i) t = true

section GetStops
variable {orders : Orders} (ho : orders.WellFormed) (hn : orders.Named) {v : Vehicle}
  (hw : ∀ i < orders.length, Carries (orders.get i) v ∨ Free (orders.get i) v)

theorem getStops_eq (hreal : v.isPhony = false) : v.getStops =
    ((nodesOf v.path).filter fun t => !(t.isStart || t.isEnd)).map TwNode.order := by
  unfold Vehicle.getStops nodesOf
  rw [hreal, if_neg (by simp), List.filter_map, List.map_map]
  rfl

include ho hn hw

/-- A node of an order on the path is one of its two stops. -/
theorem order_of_isNodeOf {t : TwNode} (ht : t ∈ nodesOf v.path) {i : ℕ} (hi : i < orders.length)
    (hti : isNodeOf (orders.get i) t = true) :
    Carries (orders.get i) v ∧ t.order = (orders.get i).id ∧ t.type ≠ .kStart ∧ t.type ≠ .kEnd := by
  have hmem : t ∈ visits (orders.get i) (nodesOf v.path) := List.mem_filter.mpr ⟨ht, hti⟩
  rcases hw i hi with hc | hf
  · refine ⟨hc, ?_⟩
    have hc' : visits (orders.get i) (nodesOf v.path) = _ := hc
    rw [hc'] at hmem
    obtain ⟨hp, hd⟩ := hn i hi
    have htyped := ho.typed i hi
    rcases List.mem_pair.mp hmem with rfl | rfl
    · exact ⟨hp, by simp [htyped.pickup], by simp [htyped.pickup]⟩
    · exact ⟨hd, by simp [htyped.delivery], by simp [htyped.delivery]⟩
  · have hf' : visits (orders.get i) (nodesOf v.path) = [] := hf
    rw [hf'] at hmem
    cases hmem

variable (hl : Listable orders v) (hreal : v.isPhony = false)
include hl hreal

/-- Only carried orders are listed. -/
theorem mem_getStops {x : ℤ} (hx : x ∈ v.getStops) :
    ∃ i < orders.length, (orders.get i).id = x ∧ Carries (orders.get i) v := by
  rw [getStops_eq hreal] at hx
  obtain ⟨t, ht, rfl⟩ := List.mem_map.mp hx
  obtain ⟨ht, hq⟩ := List.mem_filter.mp ht
  have hsite : ¬ (t.type = .kStart ∨ t.type = .kEnd) := fun h => by simp [hl.sites t ht h] at hq
  rcases hl.known t ht with h | h | ⟨i, hi, hti⟩
  · exact absurd (Or.inl h) hsite
  · exact absurd (Or.inr h) hsite
  · obtain ⟨hc, hord, -⟩ := order_of_isNodeOf ho hn hw ht hi hti
    exact ⟨i, hi, hord.symm, hc⟩

/-- An order is listed as often as it is visited. -/
theorem count_getStops (hd : orders.Distinct) {i : ℕ} (hi : i < orders.length) :
    v.getStops.count (orders.get i).id = (visits (orders.get i) (nodesOf v.path)).length := by
  rw [getStops_eq hreal, visits, ← List.countP_eq_length_filter, List.count, List.countP_map,
    List.countP_filter]
  refine List.countP_congr fun t ht => ?_
  simp only [Function.comp, Bool.and_eq_true, beq_iff_eq]
  constructor
  · rintro ⟨hid, hq⟩
    have hsite : ¬ (t.type = .kStart ∨ t.type = .kEnd) := fun h => by simp [hl.sites t ht h] at hq
    rcases hl.known t ht with h | h | ⟨j, hj, htj⟩
    · exact absurd (Or.inl h) hsite
    · exact absurd (Or.inr h) hsite
    · obtain ⟨-, hord, -⟩ := order_of_isNodeOf ho hn hw ht hj htj
      rwa [hd i hi j hj (hid.symm.trans hord)]
  · intro hti
    obtain ⟨-, hord, hs, he⟩ := order_of_isNodeOf ho hn hw ht hi hti
    exact ⟨hord, by simp [TwNode.isStart, TwNode.isEnd, hs, he]⟩

end GetStops

end VrpRouting
