import HexSkirmish.Locomotion.Playback
import HexSkirmish.Proofs.Frames
import Mathlib.Algebra.Order.Floor.Div
import Mathlib.Logic.Function.Iterate

/-! How many frames it takes to show routes to their end. A frame brings every follower nearer to its
arrival by one frame, and a follower that has nothing to wait for is still shown in one. So the count is
that of the follower with the longest way, also where times stop at the greatest span. -/

namespace HexSkirmish

namespace Locomotion

variable {l : Locomotion} {layout : Layout} {events : List Event} {f : Follower}
  {perTile time : Duration}

/-! ### The frames of one follower -/

/-- As many frames as cover a time, and one even for no time. -/
def framesFor (need time : Nat) : Nat := max 1 (need ⌈/⌉ time)

/-- In how many frames a follower is still shown: in those for the time that it needs. -/
def framesLeft (perTile time : Duration) (f : Follower) : Nat :=
  framesFor ((f.total perTile).nanos - f.elapsed.nanos) time.nanos

theorem framesLeft_eq (perTile time : Duration) (f : Follower) : framesLeft perTile time f =
    max 1 (((f.total perTile).nanos - f.elapsed.nanos + time.nanos - 1) / time.nanos) := by
  rw [framesLeft, framesFor, Nat.ceilDiv_eq_add_pred_div]

theorem framesLeft_of_arrives (h : 0 < time.nanos) (harrives : f.arrivesIn perTile time = true) :
    framesLeft perTile time f = 1 := by
  have hreached : (f.total perTile).nanos ≤ (f.elapsed.add time).nanos := of_decide_eq_true harrives
  have hneed : (f.total perTile).nanos - f.elapsed.nanos ≤ time.nanos := by
    simp only [Duration.add] at hreached
    omega
  have hone : ((f.total perTile).nanos - f.elapsed.nanos) ⌈/⌉ time.nanos ≤ 1 := by
    rwa [ceilDiv_le_iff_le_mul h, mul_one]
  exact max_eq_left hone

/-- The time spent does not stop at the greatest span before the time that the way takes. -/
theorem framesLeft_of_goes (h : 0 < time.nanos) (hgoes : f.arrivesIn perTile time = false) :
    framesLeft perTile time f = framesLeft perTile time (f.later time) + 1 := by
  have hmax : (f.total perTile).nanos ≤ Duration.maxNanos := Nat.min_le_right _ _
  have hnotyet : ¬ (f.total perTile).nanos ≤ (f.elapsed.add time).nanos := of_decide_eq_false hgoes
  simp only [Duration.add] at hnotyet
  have hless : ((f.later time).total perTile).nanos - (f.later time).elapsed.nanos =
      (f.total perTile).nanos - f.elapsed.nanos - time.nanos := by
    change (f.total perTile).nanos - min (f.elapsed.nanos + time.nanos) Duration.maxNanos = _
    omega
  rw [framesLeft_eq, framesLeft_eq, hless]
  generalize hneed : (f.total perTile).nanos - f.elapsed.nanos = need
  have hsplit : need + time.nanos - 1 = need - time.nanos + time.nanos - 1 + time.nanos := by omega
  have hpos : 1 ≤ (need - time.nanos + time.nanos - 1) / time.nanos :=
    (Nat.one_le_div_iff h).mpr (by omega)
  rw [hsplit, Nat.add_div_right _ h]
  omega

/-! ### All followers -/

/-- In how many frames anybody is still shown. -/
def framesOfAll (perTile time : Duration) (fs : List Follower) : Nat :=
  (fs.map (framesLeft perTile time)).foldr max 0

theorem framesOfAll_cons (f : Follower) (rest : List Follower) :
    framesOfAll perTile time (f :: rest) =
      max (framesLeft perTile time f) (framesOfAll perTile time rest) := rfl

theorem framesOfAll_advanced (h : 0 < time.nanos) (fs : List Follower) :
    framesOfAll perTile time ((fs.filter fun f => !f.arrivesIn perTile time).map (·.later time)) + 1 =
      max 1 (framesOfAll perTile time fs) := by
  induction fs with
  | nil => rfl
  | cons f rest ih =>
    rw [framesOfAll_cons]
    cases harrives : f.arrivesIn perTile time with
    | true =>
      rw [List.filter_cons_of_neg (by simp [harrives]), framesLeft_of_arrives h harrives]
      omega
    | false =>
      rw [List.filter_cons_of_pos (by simp [harrives]), List.map_cons, framesOfAll_cons,
        framesLeft_of_goes h harrives]
      omega

theorem framesOfAll_pos_iff (fs : List Follower) : 0 < framesOfAll perTile time fs ↔ fs ≠ [] := by
  cases fs with
  | nil => simp [framesOfAll]
  | cons f rest =>
    have hone : 1 ≤ framesLeft perTile time f := le_max_left _ _
    rw [framesOfAll_cons]
    simp only [ne_eq, reduceCtorEq, not_false_eq_true, iff_true]
    omega

theorem isIdle_iff : l.isIdle = true ↔ l.followers = [] := List.isEmpty_iff

/-- A frame is one frame less, as long as anybody is on the way. -/
theorem framesOfAll_advance (h : 0 < time.nanos) (busy : l.isIdle = false) :
    framesOfAll l.perTile time (l.advance time).1.followers + 1 =
      framesOfAll l.perTile time l.followers := by
  have hsome : 0 < framesOfAll l.perTile time l.followers :=
    (framesOfAll_pos_iff _).mpr fun hnone => by simp [isIdle_iff.mpr hnone] at busy
  rw [advance_followers, framesOfAll_advanced h]
  omega

/-! ### Frame after frame -/

/-- Those on their way after a number of frames. -/
def afterFrames (l : Locomotion) (time : Duration) (n : Nat) : Locomotion :=
  (fun l => (l.advance time).1)^[n] l

theorem afterFrames_succ (l : Locomotion) (time : Duration) (n : Nat) :
    l.afterFrames time (n + 1) = (l.advance time).1.afterFrames time n := rfl

theorem afterFrames_perTile (l : Locomotion) (time : Duration) (n : Nat) :
    (l.afterFrames time n).perTile = l.perTile := by
  induction n generalizing l with
  | zero => rfl
  | succ n ih => exact ih _

theorem framesOfAll_afterFrames (h : 0 < time.nanos) (l : Locomotion) (n : Nat) :
    framesOfAll l.perTile time (l.afterFrames time n).followers =
      framesOfAll l.perTile time l.followers - n := by
  induction n generalizing l with
  | zero => rfl
  | succ n ih =>
    have hnext : framesOfAll l.perTile time ((l.advance time).1.afterFrames time n).followers =
        framesOfAll l.perTile time (l.advance time).1.followers - n := ih (l.advance time).1
    have hone : framesOfAll l.perTile time (l.advance time).1.followers + 1 =
        max 1 (framesOfAll l.perTile time l.followers) := by
      rw [advance_followers, framesOfAll_advanced h]
    rw [afterFrames_succ, hnext]
    omega

/-- Nobody is on the way from the last frame of the longest way on, and not before. -/
theorem afterFrames_isIdle_iff (h : 0 < time.nanos) (l : Locomotion) (n : Nat) :
    (l.afterFrames time n).isIdle = true ↔ framesOfAll l.perTile time l.followers ≤ n := by
  have hpos : 0 < framesOfAll l.perTile time (l.afterFrames time n).followers ↔
      (l.afterFrames time n).followers ≠ [] := framesOfAll_pos_iff _
  rw [framesOfAll_afterFrames h] at hpos
  rw [isIdle_iff, ← not_iff_not, ← ne_eq, ← hpos]
  omega

/-- The frames that are shown are those that it takes. -/
theorem playOut_frames (l : Locomotion) (time : Duration) (h : 0 < time.nanos) :
    (l.playOut time h).1 = framesOfAll l.perTile time l.followers ∧
      (l.playOut time h).2 = l.afterFrames time (l.playOut time h).1 := by
  induction l using playOut.induct time h with
  | case1 l busy _ _ _ _ ih =>
    obtain ⟨hcount, hlast⟩ := ih
    rw [playOut, dif_pos busy]
    exact ⟨(congrArg (· + 1) hcount).trans (framesOfAll_advance h busy), hlast⟩
  | case2 l idle =>
    have hnone : l.followers = [] := isIdle_iff.mp (by simpa using idle)
    rw [playOut, dif_neg idle, hnone]
    exact ⟨rfl, rfl⟩

/-- However the routes go, there is a frame after which nobody is on the way. -/
theorem playOut_isIdle (l : Locomotion) (time : Duration) (h : 0 < time.nanos) :
    (l.playOut time h).2.isIdle = true := by
  obtain ⟨hcount, hlast⟩ := playOut_frames l time h
  rw [hlast, afterFrames_isIdle_iff h, hcount]

/-! ### Routes from their start -/

/-- A follower at the start of a route that one of some events announces. -/
def AtStart (layout : Layout) (events : List Event) (f : Follower) : Prop :=
  ∃ origin goal route, .moved f.actor origin goal route ∈ events ∧
    waypoints? layout origin route = some f.waypoints ∧ f.elapsed = .zero

/-- Events leave followers where they are or put them at the start of a route. -/
theorem mem_handle (h : f ∈ (l.handle layout events).followers) :
    f ∈ l.followers ∨ AtStart layout events f := by
  induction events using List.reverseRecOn with
  | nil => exact .inl h
  | append_singleton earlier event ih =>
    have hearlier : f ∈ (l.handle layout earlier).followers →
        f ∈ l.followers ∨ AtStart layout (earlier ++ [event]) f := fun hf =>
      (ih hf).imp_right fun ⟨origin, goal, route, hmem, hroute⟩ =>
        ⟨origin, goal, route, List.mem_append_left _ hmem, hroute⟩
    rw [handle_append] at h
    change f ∈ ((l.handle layout earlier).handleEvent layout event).followers at h
    cases event with
    | moved actor origin goal route =>
      cases hpoints : waypoints? layout origin route with
      | none =>
        simp only [handleEvent, hpoints] at h
        exact hearlier h
      | some points =>
        rw [handleEvent_moved _ goal hpoints] at h
        simp only [follow, List.mem_append, List.mem_filter, List.mem_singleton] at h
        rcases h with ⟨hf, -⟩ | rfl
        · exact hearlier hf
        · exact .inr ⟨origin, goal, route, by simp, hpoints, rfl⟩
    | _ => exact hearlier h

theorem handle_perTile (l : Locomotion) (layout : Layout) (events : List Event) :
    (l.handle layout events).perTile = l.perTile :=
  perform_perTile l [.handle layout events]

/-- The time of a route counts its tiles. -/
theorem total_of_waypoints {origin : Coord} {route : Route}
    (h : waypoints? layout origin route = some f.waypoints) (perTile : Duration) :
    (f.total perTile).nanos =
      min (perTile.nanos * min route.tiles.length 4294967295) Duration.maxNanos := by
  rw [Follower.total, (waypoints?_length h).1, Nat.add_sub_cancel]
  rfl

/-- Showing routes comes to an end. Whoever is on the way before, whatever a tile takes and whatever
events are handled, there is a last frame, after which nobody is on the way: so many frames are shown as
it takes, and not one more. If nobody was on the way before, all followers are at the start of routes
that the events announce, each takes the time of a tile for each tile of its route, up to the greatest
span, and the frames are those that cover the longest of these times, with at least one for a follower. -/
theorem playRoutes_frames (l : Locomotion) (layout : Layout) (events : List Event) :
    let begun := l.handle layout events
    let shown := l.playRoutes layout events
    shown.2 = idle l.perTile ∧ shown.2 = begun.afterFrames (.ofMillis 100) shown.1 ∧
    (∀ n, (begun.afterFrames (.ofMillis 100) n).isIdle = true ↔ shown.1 ≤ n) ∧
    (l.isIdle = true →
      (∀ f ∈ begun.followers, ∃ origin goal route, .moved f.actor origin goal route ∈ events ∧
        waypoints? layout origin route = some f.waypoints ∧ (f.total l.perTile).nanos =
          min (l.perTile.nanos * min route.tiles.length 4294967295) Duration.maxNanos) ∧
      shown.1 = (begun.followers.map fun f =>
        framesFor (f.total l.perTile).nanos (Duration.ofMillis 100).nanos).foldr max 0) := by
  intro begun shown
  have hframe : 0 < (Duration.ofMillis 100).nanos := by decide
  have hperTile : begun.perTile = l.perTile := handle_perTile l layout events
  obtain ⟨hcount, hlast⟩ := playOut_frames begun (.ofMillis 100) hframe
  have hidle := isIdle_iff.mp (playOut_isIdle begun (.ofMillis 100) hframe)
  rw [hperTile] at hcount
  refine ⟨?_, hlast, fun n => ?_, fun hnobody => ?_⟩
  · have hkept : shown.2.perTile = l.perTile := by
      rw [← hperTile, ← afterFrames_perTile begun (.ofMillis 100) shown.1]
      exact congrArg perTile hlast
    rw [idle, ← hkept, ← hidle]
    rfl
  · rw [afterFrames_isIdle_iff hframe, hperTile, ← hcount]
    rfl
  · have hnone := isIdle_iff.mp hnobody
    have hstarts : ∀ f ∈ begun.followers, AtStart layout events f := fun f hf =>
      (mem_handle hf).resolve_left (by simp [hnone])
    refine ⟨fun f hf => ?_, ?_⟩
    · obtain ⟨origin, goal, route, hmem, hpoints, -⟩ := hstarts f hf
      exact ⟨origin, goal, route, hmem, hpoints, total_of_waypoints hpoints l.perTile⟩
    · refine hcount.trans (congrArg (List.foldr max 0) (List.map_congr_left fun f hf => ?_))
      obtain ⟨-, -, -, -, -, hstart⟩ := hstarts f hf
      rw [framesLeft, hstart]
      rfl

/-- One tile for an actor and two for another: the second way takes a second. -/
theorem playRoutes_frames_two_ways :
    standard.isIdle = true ∧ (standard.playRoutes .standard
      [.moved ⟨1⟩ ⟨0, 0⟩ ⟨1, 0⟩ (.found ⟨0, 0⟩ ⟨1, 0⟩ [1]),
        .moved ⟨2⟩ ⟨0, 1⟩ ⟨2, 1⟩ (.found ⟨0, 1⟩ ⟨2, 1⟩ [9, 10])]).1 = 10 := by
  obtain ⟨-, -, -, hcount⟩ := playRoutes_frames standard .standard
    [.moved ⟨1⟩ ⟨0, 0⟩ ⟨1, 0⟩ (.found ⟨0, 0⟩ ⟨1, 0⟩ [1]),
      .moved ⟨2⟩ ⟨0, 1⟩ ⟨2, 1⟩ (.found ⟨0, 1⟩ ⟨2, 1⟩ [9, 10])]
  exact ⟨rfl, (hcount rfl).2.trans (by decide +kernel)⟩

end Locomotion

end HexSkirmish
