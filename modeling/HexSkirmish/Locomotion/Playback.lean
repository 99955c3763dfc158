import HexSkirmish.Locomotion

/-! Showing routes to their end in frames of one length. Every frame brings each follower nearer to
its arrival, so the frames come to an end. -/

namespace HexSkirmish

namespace Duration

/-- A frame of a tenth of a second. -/
def frame : Duration := .ofMillis 100

end Duration

namespace Locomotion

/-- The time that a follower still needs, and one more, so that a follower is never for nothing. -/
def need (perTile : Duration) (f : Follower) : Nat :=
  (f.total perTile).nanos - f.elapsed.nanos + 1

def needAll (perTile : Duration) : List Follower → Nat
  | [] => 0
  | f :: rest => need perTile f + needAll perTile rest

/-- A follower that has not arrived after a while needs less time than before. -/
theorem need_add_lt (perTile time : Duration) (h : 0 < time.nanos) (f : Follower)
    (going : ({ f with elapsed := f.elapsed.add time } : Follower).hasArrived perTile = false) :
    need perTile { f with elapsed := f.elapsed.add time } < need perTile f := by
  have hmax : (f.total perTile).nanos ≤ Duration.maxNanos := Nat.min_le_right _ _
  have later := of_decide_eq_false going
  simp only [Follower.total, Duration.add] at later
  simp only [need, Follower.total, Duration.add] at hmax ⊢
  omega

/-- The followers that are still on their way after a while need no more time than all before. -/
theorem needAll_advanced_le (perTile time : Duration) (h : 0 < time.nanos) (fs : List Follower) :
    needAll perTile ((fs.map fun f => { f with elapsed := f.elapsed.add time }).filter
      fun f => !f.hasArrived perTile) + (if fs = [] then 0 else 1) ≤ needAll perTile fs := by
  induction fs with
  | nil => simp [needAll]
  | cons f rest ih =>
    have hpos : 0 < need perTile f := Nat.succ_pos _
    have hrest :
        needAll perTile ((rest.map fun f => { f with elapsed := f.elapsed.add time }).filter
          fun f => !f.hasArrived perTile) ≤ needAll perTile rest := by omega
    simp only [List.map_cons, needAll, reduceCtorEq, if_false]
    cases going : ({ f with elapsed := f.elapsed.add time } : Follower).hasArrived perTile with
    | true =>
      rw [List.filter_cons_of_neg (by simp [going])]
      omega
    | false =>
      have := need_add_lt perTile time h f going
      rw [List.filter_cons_of_pos (by simp [going]), needAll]
      omega

def remaining (l : Locomotion) : Nat := needAll l.perTile l.followers

theorem remaining_advance_lt (l : Locomotion) (time : Duration) (h : 0 < time.nanos)
    (busy : l.isIdle = false) : (l.advance time).1.remaining < l.remaining := by
  have hle := needAll_advanced_le l.perTile time h l.followers
  have hne : l.followers ≠ [] := by simpa [isIdle] using busy
  rw [if_neg hne] at hle
  exact hle

/-- Lets frames pass until no actor is on its way, and counts them. -/
def playOut (l : Locomotion) (time : Duration) (h : 0 < time.nanos) : Nat × Locomotion :=
  if busy : l.isIdle = false then
    have := remaining_advance_lt l time h busy
    let (frames, last) := playOut (l.advance time).1 time h
    (frames + 1, last)
  else (0, l)
termination_by l.remaining

/-- Starts on the routes that events announce and shows them to their end. -/
def playRoutes (l : Locomotion) (layout : Layout) (events : List Event) : Nat × Locomotion :=
  (l.handle layout events).playOut .frame (by decide)

end Locomotion

end HexSkirmish
