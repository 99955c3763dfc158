import HexSkirmish.Proofs.Followers
import Mathlib.Algebra.GroupWithZero.Nat

/-! Time passes in frames of any lengths, and how it is cut into them does not matter. A follower that
arrives in an early frame would have arrived in a longer one as well, at the same last point, and for
one that is still on its way only the sum of the frames counts, since sums of spans that stop at the
greatest one can be taken in any grouping. -/

namespace HexSkirmish

/-! ### Sums of spans -/

namespace Duration

theorem add_assoc (a b c : Duration) : (a.add b).add c = a.add (b.add c) := by
  simp only [add, Duration.mk.injEq]
  omega

theorem add_add_zero (a b : Duration) : a.add (b.add .zero) = a.add b := by
  rw [← add_assoc]
  simp only [add, zero, Duration.mk.injEq]
  omega

def sum (spans : List Duration) : Duration := spans.foldr add .zero

/-- The sum is that of the nanoseconds, up to the greatest span. -/
theorem sum_eq (spans : List Duration) :
    sum spans = ⟨min (spans.map (·.nanos)).sum maxNanos⟩ := by
  induction spans with
  | nil => simp [sum, zero]
  | cons d rest ih =>
    have hsum : sum (d :: rest) = d.add (sum rest) := rfl
    rw [hsum, ih, List.map_cons, List.sum_cons]
    simp only [add, Duration.mk.injEq]
    omega

end Duration

/-! ### One follower -/

namespace Follower

variable {f : Follower} {perTile time a b : Duration}

/-- A follower when some more time has been spent on its way. -/
def later (f : Follower) (time : Duration) : Follower := { f with elapsed := f.elapsed.add time }

/-- Whether a follower comes to the end of its way within some time. -/
def arrivesIn (perTile time : Duration) (f : Follower) : Bool := (f.later time).hasArrived perTile

/-- Who is on a way and where it ends. -/
def destination (f : Follower) : ActorId × Point := (f.actor, f.waypoints.getLast?.getD ⟨0, 0⟩)

theorem later_later : (f.later a).later b = f.later (a.add b) := by
  simp only [later, Duration.add_assoc]

theorem arrivesIn_later : (f.later a).arrivesIn perTile b = f.arrivesIn perTile (a.add b) := by
  simp only [arrivesIn, later_later]

/-- Who arrives early also arrives when more time passes at once, even where sums stop: the time that
a way takes stops at the same span. -/
theorem arrivesIn_add (h : f.arrivesIn perTile a = true) :
    f.arrivesIn perTile (a.add b) = true := by
  have hmax : (f.total perTile).nanos ≤ Duration.maxNanos := Nat.min_le_right _ _
  have hearly : (f.total perTile).nanos ≤ (f.elapsed.add a).nanos := of_decide_eq_true h
  apply decide_eq_true
  change (f.total perTile).nanos ≤ (f.elapsed.add (a.add b)).nanos
  simp only [Duration.add] at hearly ⊢
  omega

end Follower

/-! ### All followers -/

namespace Locomotion

variable {l : Locomotion} {a b time : Duration}

/-- Who is reported to have arrived, and where. -/
def arrivals (updates : List PositionUpdate) : List (ActorId × Point) :=
  (updates.filter (·.arrived)).map fun u => (u.actor, u.position)

theorem arrivals_append (first second : List PositionUpdate) :
    arrivals (first ++ second) = arrivals first ++ arrivals second := by
  simp [arrivals]

theorem advance_followers : (l.advance time).1.followers =
    (l.followers.filter fun f => !f.arrivesIn l.perTile time).map (·.later time) := by
  simp only [advance, List.filter_map]
  rfl

/-- Who arrives is reported at the end of the way. -/
theorem arrivals_advance : arrivals (l.advance time).2 =
    (l.followers.filter (·.arrivesIn l.perTile time)).map (·.destination) := by
  have hreports : arrivals (l.advance time).2 =
      ((l.followers.map (·.later time)).filter (·.hasArrived l.perTile)).map
        fun f => (f.actor, f.position l.perTile) := by
    simp only [arrivals, advance, List.filter_map, List.map_map]
    rfl
  rw [hreports, List.filter_map, List.map_map]
  refine List.map_congr_left fun f hf => ?_
  have harrived : (f.later time).hasArrived l.perTile = true := (List.mem_filter.mp hf).2
  simp only [Function.comp_apply, Follower.position_of_arrived harrived]
  rfl

/-- Two frames leave those on their way whom one frame of both lengths leaves. -/
theorem advance_advance (l : Locomotion) (a b : Duration) :
    ((l.advance a).1.advance b).1 = (l.advance (a.add b)).1 := by
  have hsame : ((l.advance a).1.advance b).1.followers = (l.advance (a.add b)).1.followers := by
    rw [advance_followers, advance_followers, advance_followers, List.filter_map, List.map_map,
      List.filter_filter]
    have hkept : ∀ f ∈ l.followers, ((!(f.later a).arrivesIn l.perTile b) &&
        !f.arrivesIn l.perTile a) = !f.arrivesIn l.perTile (a.add b) := by
      intro f _
      rw [Follower.arrivesIn_later]
      cases hearly : f.arrivesIn l.perTile a with
      | false => rw [Bool.not_false, Bool.and_true]
      | true => rw [Follower.arrivesIn_add hearly]; rfl
    have hlater : ((·.later b) ∘ (·.later a) : Follower → Follower) = (·.later (a.add b)) := by
      funext f
      exact Follower.later_later
    rw [hlater]
    exact congrArg (List.map _) (List.filter_congr hkept)
  exact congrArg (Locomotion.mk l.perTile) hsame

/-- Those who arrive in one of two frames are those who arrive in one frame of both lengths. -/
theorem arrivals_advance_advance (l : Locomotion) (a b : Duration) :
    (arrivals (l.advance a).2 ++ arrivals ((l.advance a).1.advance b).2).Perm
      (arrivals (l.advance (a.add b)).2) := by
  have hsecond : arrivals ((l.advance a).1.advance b).2 =
      ((l.followers.filter (·.arrivesIn l.perTile (a.add b))).filter
        fun f => !f.arrivesIn l.perTile a).map (·.destination) := by
    rw [arrivals_advance, advance_followers, List.filter_map, List.map_map, List.filter_filter,
      List.filter_filter]
    refine congrArg (List.map _) (List.filter_congr fun f _ => ?_)
    rw [Bool.and_comm, Function.comp_apply]
    exact congrArg (_ && ·) Follower.arrivesIn_later
  have hfirst : arrivals (l.advance a).2 =
      ((l.followers.filter (·.arrivesIn l.perTile (a.add b))).filter
        (·.arrivesIn l.perTile a)).map (·.destination) := by
    rw [arrivals_advance, List.filter_filter]
    refine congrArg (List.map _) (List.filter_congr fun f _ => ?_)
    cases hearly : f.arrivesIn l.perTile a with
    | false => rfl
    | true => rw [Follower.arrivesIn_add hearly]; rfl
  rw [hfirst, hsecond, arrivals_advance, ← List.map_append]
  exact (List.filter_append_perm _ _).map _

/-- Frames one after the other do what one frame of their sum does. -/
theorem perform_frames (l : Locomotion) (first : Duration) (others : List Duration) :
    (l.perform ((first :: others).map .advance)).1 = (l.advance (.sum (first :: others))).1 ∧
      (arrivals (l.perform ((first :: others).map .advance)).2).Perm
        (arrivals (l.advance (.sum (first :: others))).2) := by
  induction others generalizing l first with
  | nil =>
    have hsum : l.advance (.sum [first]) = l.advance first := by
      simp only [advance, Duration.sum, List.foldr_cons, List.foldr_nil, Duration.add_add_zero]
    rw [hsum]
    simp [perform, call]
  | cons second rest ih =>
    obtain ⟨hlast, harrived⟩ := ih (l.advance first).1 second
    have hsum : Duration.sum (first :: second :: rest) =
        first.add (.sum (second :: rest)) := rfl
    rw [List.map_cons, perform_cons, call, hsum]
    constructor
    · exact hlast.trans (advance_advance l first _)
    · rw [arrivals_append]
      exact (harrived.append_left _).trans (arrivals_advance_advance l first _)

/-- Frames do not matter. From whatever calls have led to, and whatever a tile takes, to let time pass
in one frame or more leaves the same followers, with the same times spent on their ways and so at the
same places, as to let the sum of the frames pass at once, which is at most the greatest span. The
same actors are reported to have arrived, at the same last points, and nobody twice. -/
theorem frames_immaterial (perTile : Duration) (earlier : List Call) (first : Duration)
    (others : List Duration) :
    let l := ((idle perTile).perform earlier).1
    let whole : Duration := ⟨min ((first :: others).map (·.nanos)).sum Duration.maxNanos⟩
    let inFrames := l.perform ((first :: others).map .advance)
    let atOnce := l.advance whole
    inFrames.1 = atOnce.1 ∧
      (∀ actor, inFrames.1.position? actor = atOnce.1.position? actor) ∧
      (arrivals inFrames.2).Perm (arrivals atOnce.2) ∧
      ((arrivals inFrames.2).map Prod.fst).Nodup := by
  intro l whole inFrames atOnce
  obtain ⟨hlast, harrived⟩ := perform_frames l first others
  rw [Duration.sum_eq] at hlast harrived
  refine ⟨hlast, fun actor => congrArg (·.position? actor) hlast, harrived, ?_⟩
  have hsingle : (l.followers.map (·.actor)).Nodup :=
    ((Orderly.idle perTile).perform earlier).single
  rw [(harrived.map Prod.fst).nodup_iff, arrivals_advance, List.map_map]
  exact hsingle.sublist (List.filter_sublist.map _)

end Locomotion

end HexSkirmish
