import VrpRouting.Problem.Incremental
import VrpRouting.Problem.Summary
import VrpRouting.Problem.Violations

/-! # The accounts of a route

The cumulative fields of every stop of an evaluated route are the sums of the single ones up to the
stop, and together they say when the stop is left (`LeavesAt`). The violation totals of the vehicle
are those of its last stop, and count the violations on the way. The duration of a real vehicle is
taken from two stops, but agrees with the totals up to what happens at the sites. `Accounts` has all
of this; it holds of every path that `evaluate(from)` leaves behind, whatever the travel times are. -/

namespace VrpRouting

/-- What the fields of a route say together. -/
structure Accounts (v : Vehicle) : Prop where
  departure : ∀ s ∈ v.path, LeavesAt v.front.opens s
  travel : ∀ pre s post, v.path = pre ++ s :: post →
    s.totTravelTime = ((pre ++ [s]).map VehicleNode.travelTime).sum
  wait : ∀ pre s post, v.path = pre ++ s :: post →
    s.totWaitTime = ((pre ++ [s]).map VehicleNode.waitTime).sum
  service : ∀ pre s post, v.path = pre ++ s :: post →
    s.totServiceTime = ((pre ++ [s]).map fun s => s.serviceTime).sum
  late : v.back.twvTot = v.path.countP VehicleNode.hasTwv
  overloaded : v.back.cvTot = v.path.countP (VehicleNode.hasCv · v.capacity)
  duration : v.isReal = true →
    v.duration + v.front.serviceTime + v.back.waitTime + v.back.serviceTime =
      v.totalTravelTime + v.totalWaitTime + v.totalServiceTime

section Vehicle
variable {M : Matrix} {v : Vehicle}

theorem Evaluated.accounts (h : Evaluated M v) (hopen : v.front.opens ≤ v.front.closes) :
    Accounts v where
  departure := h.leavesAt
  travel pre s post hp := Settled.total VehicleNode.totTravelTime VehicleNode.travelTime (fun _ => rfl)
    (fun _ _ => rfl) (hp ▸ h.settled)
  wait pre s post hp := Settled.total VehicleNode.totWaitTime VehicleNode.waitTime (fun _ => rfl)
    (fun _ _ => rfl) (hp ▸ h.settled)
  service pre s post hp := Settled.total VehicleNode.totServiceTime (fun s => s.serviceTime)
    (fun _ => rfl) (fun _ _ => rfl) (hp ▸ h.settled)
  late := twvTot_eq_countP h.settled hopen
  overloaded := cvTot_eq_countP h.settled
  duration hreal := by
    have hphony : v.isPhony = false := by simpa [Vehicle.isReal] using hreal
    have hduration := h.duration_add_siteTime
    rw [Vehicle.siteTime, if_neg (by rw [hphony]; exact Bool.false_ne_true)] at hduration
    omega

/-- Evaluation does not touch the node at the starting site. -/
theorem toTwNode_front_evaluate (k : ℕ) : (v.evaluate M k).front.toTwNode = v.front.toTwNode := by
  unfold Vehicle.front Vehicle.stop Vehicle.evaluate
  dsimp only
  cases v.path with
  | nil => rfl
  | cons n ns => cases k <;> rfl

/-- A path that is up to date as far as `from` is evaluated from there on. -/
theorem SettledTo.evaluated {k : ℕ} (h : SettledTo M k v) (hsites : 2 ≤ v.path.length) :
    Evaluated M (v.evaluate M k) := ⟨by simpa [Vehicle.evaluate] using hsites, h.evaluate⟩

/-- **The accounts of every evaluated route agree**: behind `evaluate(from)`, on a path that is up to
date as far as `from`, and after any sequence of operations that follows. -/
theorem schedule_accounts {k : ℕ} (hsites : 2 ≤ v.path.length) (hs : SettledTo M k v)
    (hopen : v.front.opens ≤ v.front.closes) : Accounts (v.evaluate M k) ∧
    ∀ (ops : List Mutator) (w : Vehicle), (v.evaluate M k).mutateAll M ops = .ok w →
      2 ≤ w.path.length → w.front.opens ≤ w.front.closes → Accounts w := by
  constructor
  · refine (hs.evaluated hsites).accounts ?_
    rwa [toTwNode_front_evaluate]
  · intro ops w hw hlen hleave
    have hdate : UpToDate M w := hs.evaluate.mutateAll hw
    exact Evaluated.accounts ⟨hlen, hdate⟩ hleave

end Vehicle

/-- A vehicle without room: it is late at a pickup and at its end, and waits before a delivery. -/
def lateTrip : Vehicle :=
  { emptyTrip 3 with
    capacity := 0
    path := [.ofTwNode ⟨0, 1, 0, 0, 100, 3, 0, .kStart⟩, .ofTwNode ⟨1, 1, 9, 0, 2, 0, 1, .kPickup⟩,
      .ofTwNode ⟨2, 2, 9, 20, 100, 4, -1, .kDelivery⟩, .ofTwNode ⟨3, 1, 0, 0, 25, 0, 0, .kEnd⟩] }

theorem schedule_accounts_small : (lateTrip.evaluate twoSites 0).back.twvTot = 2 ∧
    (lateTrip.evaluate twoSites 0).back.cvTot = 1 ∧ (lateTrip.evaluate twoSites 0).totalWaitTime = 12 ∧
    Accounts (lateTrip.evaluate twoSites 0) :=
  ⟨by decide +kernel, by decide +kernel, by decide +kernel,
    (schedule_accounts (by decide) settledTo_zero (by decide)).1⟩

end VrpRouting
