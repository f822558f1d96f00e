import VrpRouting.InitialSol.UserStops
import VrpRouting.Lib.Keys
import VrpRouting.Optimizers.Tabu

/-! # The identifiers of insertions

The memory of the tabu search names an insertion by the key of the route and the order
(`candidate_inj`). The key lists the types of the stops, with the identifiers of their orders; so with
distinct orders two routes with the same key visit the same stops (`pathStr_inj`), whatever their
vehicles are. -/

namespace VrpRouting

/-- What the key of a path shows of a stop. -/
def TwNode.token (t : TwNode) : String :=
  if t.isStart || t.isEnd then t.typeStr else t.typeStr ++ toString t.order

namespace TwNode

theorem mem_typeStr {t : TwNode} {c : Char} (h : c ∈ t.typeStr.toList) : c ≠ ',' ∧ c ≠ ':' := by
  unfold typeStr at h
  cases hty : t.type <;> rw [hty] at h <;> obtain rfl := List.mem_singleton.mp h <;> decide

/-- A token has no separators. -/
theorem mem_token {t : TwNode} {c : Char} (h : c ∈ t.token.toList) : c ≠ ',' ∧ c ≠ ':' := by
  unfold token at h
  split_ifs at h
  · exact mem_typeStr h
  · rw [String.toList_append] at h
    rcases List.mem_append.mp h with h | h
    · exact mem_typeStr h
    · rcases Keys.mem_intRepr h with rfl | hdigit
      · decide
      · constructor <;> rintro rfl <;> exact absurd hdigit (by decide)

theorem token_of_order {t : TwNode} (h : t.type = .kPickup ∨ t.type = .kDelivery) :
    t.token = t.typeStr ++ Int.repr t.order := by
  have hsite : (t.isStart || t.isEnd) = false := by
    unfold isStart isEnd
    rcases h with h | h <;> simp [h]
  unfold token
  rw [hsite]
  rfl

/-- The token of a stop shows its type and its order. -/
theorem token_inj {t t' : TwNode} (h : t.type = .kPickup ∨ t.type = .kDelivery)
    (h' : t'.type = .kPickup ∨ t'.type = .kDelivery) (heq : t.token = t'.token) :
    t.type = t'.type ∧ t.order = t'.order := by
  rw [token_of_order h, token_of_order h'] at heq
  have hlist := congrArg String.toList heq
  rw [String.toList_append, String.toList_append] at hlist
  have hrest : ∀ {s : String}, s.toList = t.order.repr.toList → s = t.order.repr :=
    fun h => String.toList_inj.mp h
  unfold typeStr at hlist
  rcases h with h | h <;> rcases h' with h' | h' <;> rw [h, h'] at hlist ⊢ <;>
    obtain ⟨hc, htail⟩ := List.cons.inj hlist
  · exact ⟨rfl, (Keys.intRepr_injective (hrest htail.symm)).symm⟩
  · exact absurd hc (by decide)
  · exact absurd hc (by decide)
  · exact ⟨rfl, (Keys.intRepr_injective (hrest htail.symm)).symm⟩

end TwNode

/-- The key of a route: its tokens, with commas between them. -/
theorem toList_pathStr {v : Vehicle} {s : TwNode} {rest : List TwNode}
    (hN : nodesOf v.path = s :: rest) (hs : ∀ t ∈ rest, t ≠ s) :
    v.pathStr.toList =
      s.token.toList ++ Keys.joined ',' (rest.map fun t => t.token.toList) := by
  obtain ⟨n, ns, hpath, rfl, rfl⟩ : ∃ n ns, v.path = n :: ns ∧ n.toTwNode = s ∧ nodesOf ns = rest := by
    unfold nodesOf at hN
    exact List.map_eq_cons_iff.mp hN
  have hfront : v.front = n := front_of_path hpath
  have hfold : ∀ (l : List VehicleNode) (key : String), (∀ t ∈ nodesOf l, t ≠ n.toTwNode) →
      (l.foldl (fun key s => (if s.toTwNode = v.front.toTwNode then key else key ++ ",") ++
        (if s.isStart || s.isEnd then s.typeStr else s.typeStr ++ toString s.order)) key).toList =
      key.toList ++ Keys.joined ',' ((nodesOf l).map fun t => t.token.toList) := by
    intro l
    induction l with
    | nil => simp [nodesOf, Keys.joined]
    | cons a l ih =>
      intro key hl
      obtain ⟨ha, hl⟩ := List.forall_mem_cons.mp (show ∀ t ∈ a.toTwNode :: nodesOf l, _ from hl)
      rw [List.foldl_cons, ih _ hl, hfront, if_neg ha]
      simp only [String.toList_append, nodesOf, List.map_cons, Keys.joined, List.flatMap_cons]
      simp [TwNode.token]
  unfold Vehicle.pathStr
  rw [hpath, List.foldl_cons, hfold ns _ hs, if_pos (by rw [hfront])]
  simp [TwNode.token]

/-- Lists whose elements can be read back from their images. -/
theorem map_inj_of_mem {α β : Type*} {f : α → β} : ∀ {l l' : List α},
    (∀ a ∈ l, ∀ b ∈ l', f a = f b → a = b) → l.map f = l'.map f → l = l'
  | [], [], _, _ => rfl
  | a :: l, b :: l', hf, h => by
    obtain ⟨hab, h⟩ := List.cons.inj h
    rw [hf a (by simp) b (by simp) hab,
      map_inj_of_mem (fun a ha b hb => hf a (by simp [ha]) b (by simp [hb])) h]

/-- A stop of an order, with its type and its order. -/
theorem stop_inj {orders : Orders} (ho : orders.WellFormed) (hn : orders.Named)
    (hd : orders.Distinct) {i j : ℕ} (hi : i < orders.length) (hj : j < orders.length)
    {t t' : TwNode} (ht : t ∈ (orders.get i).stops) (ht' : t' ∈ (orders.get j).stops)
    (htype : t.type = t'.type) (horder : t.order = t'.order) : t = t' := by
  have hti := ho.typed i hi
  obtain ⟨hni, hni'⟩ := hn i hi
  obtain ⟨hnj, hnj'⟩ := hn j hj
  have hid : (orders.get i).id = (orders.get j).id := by
    rcases List.mem_pair.mp ht with rfl | rfl <;> rcases List.mem_pair.mp ht' with rfl | rfl
    · exact hni.symm.trans (horder.trans hnj)
    · exact hni.symm.trans (horder.trans hnj')
    · exact hni'.symm.trans (horder.trans hnj)
    · exact hni'.symm.trans (horder.trans hnj')
  obtain rfl := hd i hi j hj hid
  rcases List.mem_pair.mp ht with rfl | rfl <;> rcases List.mem_pair.mp ht' with rfl | rfl
  · rfl
  · rw [hti.pickup, hti.delivery] at htype
    cases htype
  · rw [hti.pickup, hti.delivery] at htype
    cases htype
  · rfl

namespace Optimizers.Tabu.Optimize

theorem toList_candidate (v : Vehicle) (i : ℕ) :
    (candidate v i).toList = v.pathStr.toList ++ ':' :: i.repr.toList := by
  unfold candidate
  rw [String.toList_append, String.toList_append, List.append_assoc]
  rfl

/-- The identifier of an insertion shows the key of the route, and the order. -/
theorem candidate_inj {v v' : Vehicle} {i i' : ℕ} (h : candidate v i = candidate v' i') :
    v.pathStr = v'.pathStr ∧ i = i' := by
  have hlist := congrArg (fun s : String => s.toList.reverse) h
  simp only [toList_candidate, List.reverse_append, List.reverse_cons, List.append_assoc,
    List.singleton_append] at hlist
  -- from the end, the digits of the order stop at the colon
  have hdigits : ∀ {n : ℕ}, ∀ c ∈ n.repr.toList.reverse, ¬ c = ':' := fun c hc heq => by
    have hdigit := Keys.isDigit_of_mem_repr (List.mem_reverse.mp hc)
    rw [heq] at hdigit
    exact absurd hdigit (by decide)
  obtain ⟨horder, -, hpath⟩ := Keys.split_inj (q := fun c => c = ':') rfl rfl hdigits hdigits hlist
  exact ⟨String.toList_inj.mp (List.reverse_injective hpath),
    Keys.natRepr_injective (String.toList_inj.mp (List.reverse_injective horder))⟩

end Optimizers.Tabu.Optimize

/-- **The stops of a route can be read from its key.** -/
theorem pathStr_inj {orders : Orders} (ho : orders.WellFormed) (hn : orders.Named)
    (hd : orders.Distinct) {v v' : Vehicle} {s s' e e' : TwNode} {mids mids' : List TwNode}
    (hN : nodesOf v.path = s :: (mids ++ [e])) (hN' : nodesOf v'.path = s' :: (mids' ++ [e']))
    (hs : s.type = .kStart) (hs' : s'.type = .kStart) (he : e.type = .kEnd) (he' : e'.type = .kEnd)
    (hm : ∀ t ∈ mids, ∃ j < orders.length, t ∈ (orders.get j).stops)
    (hm' : ∀ t ∈ mids', ∃ j < orders.length, t ∈ (orders.get j).stops)
    (h : v.pathStr = v'.pathStr) : mids = mids' := by
  have htype : ∀ {l : List TwNode}, (∀ t ∈ l, ∃ j < orders.length, t ∈ (orders.get j).stops) →
      ∀ t ∈ l, t.type = .kPickup ∨ t.type = .kDelivery := fun hl t ht => by
    obtain ⟨j, hj, ht⟩ := hl t ht
    rcases List.mem_pair.mp ht with rfl | rfl
    · exact Or.inl (ho.typed j hj).pickup
    · exact Or.inr (ho.typed j hj).delivery
  have hne : ∀ {l : List TwNode} {a b : TwNode}, (∀ t ∈ l, t.type = .kPickup ∨ t.type = .kDelivery) →
      a.type = .kStart → b.type = .kEnd → ∀ t ∈ l ++ [b], t ≠ a := by
    rintro l a b hl ha hb t ht rfl
    rcases List.mem_append.mp ht with ht | ht
    · rcases hl t ht with h | h <;> rw [ha] at h <;> cases h
    · rw [List.mem_singleton.mp ht, hb] at ha
      cases ha
  have hlist := congrArg (fun s : String => s.toList ++ [':']) h
  simp only [toList_pathStr hN (hne (htype hm) hs he), toList_pathStr hN' (hne (htype hm') hs' he'),
    List.append_assoc] at hlist
  have hclean : ∀ {a : TwNode} {l : List TwNode}, ∀ t ∈ a.token.toList :: l.map fun t => t.token.toList,
      ∀ c ∈ t, c ≠ ',' ∧ c ≠ ':' := by
    rintro a l t ht c hc
    rcases List.mem_cons.mp ht with rfl | ht
    · exact TwNode.mem_token hc
    · obtain ⟨b, -, rfl⟩ := List.mem_map.mp ht
      exact TwNode.mem_token hc
  obtain ⟨-, htokens, -⟩ := Keys.joined_inj (by decide) hclean hclean hlist
  rw [List.map_append, List.map_append] at htokens
  obtain ⟨hmids, -⟩ := List.append_inj' htokens rfl
  refine map_inj_of_mem (fun t ht t' ht' heq => ?_) hmids
  obtain ⟨h1, h2⟩ := TwNode.token_inj (htype hm t ht) (htype hm' t' ht') (String.toList_inj.mp heq)
  obtain ⟨j, hj, ht⟩ := hm t ht
  obtain ⟨j', hj', ht'⟩ := hm' t' ht'
  exact stop_inj ho hn hd hj hj' ht ht' h1 h2

end VrpRouting
