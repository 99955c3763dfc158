import HexSkirmish.Script
import HexSkirmish.Proofs.Highlights
import Mathlib.Data.List.Induction

/-! The move that a script makes. Of the tiles whose number in the flow field lies between one and
the budget it keeps the best so far while it goes through them in order, which is the first of those
that are farthest. With any budget below the mark of the unreachable tiles these are the tiles to
which the player may move, so the script makes a move whenever there is one, and none is longer. -/

namespace HexSkirmish

namespace World

variable {w : World} {p : Actor} {o : Coord} {budget : Nat} {tiles : List (Nat × Nat)}
  {t u : Nat × Nat}

/-- All tiles before this one are nearer, and none after it is farther. -/
def FirstFarthest (tiles : List (Nat × Nat)) (t : Nat × Nat) : Prop :=
  ∃ before after, tiles = before ++ t :: after ∧ (∀ u ∈ before, u.2 < t.2) ∧
    ∀ u ∈ after, u.2 ≤ t.2

theorem FirstFarthest.concat (h : FirstFarthest tiles t) (hle : u.2 ≤ t.2) :
    FirstFarthest (tiles ++ [u]) t := by
  obtain ⟨before, after, rfl, hbefore, hafter⟩ := h
  refine ⟨before, after ++ [u], by simp, hbefore, fun v hv => ?_⟩
  rcases List.mem_append.mp hv with hv | hv
  · exact hafter v hv
  · exact List.mem_singleton.mp hv ▸ hle

theorem FirstFarthest.le (h : FirstFarthest tiles t) (hu : u ∈ tiles) : u.2 ≤ t.2 := by
  obtain ⟨before, after, rfl, hbefore, hafter⟩ := h
  rcases List.mem_append.mp hu with hu | hu
  · exact Nat.le_of_lt (hbefore u hu)
  · rcases List.mem_cons.mp hu with rfl | hu
    · exact Nat.le_refl _
    · exact hafter u hu

/-- A list in the order of the numbers has the lowest number in the first of its farthest tiles. -/
theorem FirstFarthest.lowest (h : FirstFarthest tiles t)
    (hascending : tiles.Pairwise fun u v => u.1 < v.1) (hu : u ∈ tiles) (heq : u.2 = t.2) :
    t.1 ≤ u.1 := by
  obtain ⟨before, after, rfl, hbefore, _⟩ := h
  rcases List.mem_append.mp hu with hu | hu
  · exact absurd heq (Nat.ne_of_lt (hbefore u hu))
  · rcases List.mem_cons.mp hu with rfl | hu
    · exact Nat.le_refl _
    · exact Nat.le_of_lt (List.rel_of_pairwise_cons (List.pairwise_append.mp hascending).2.1 hu)

/-- Keeping the better one all along finds the first of the farthest tiles. -/
theorem foldl_farther (tiles : List (Nat × Nat)) :
    (tiles = [] ∧ tiles.foldl farther none = none) ∨
      ∃ t, tiles.foldl farther none = some t ∧ FirstFarthest tiles t := by
  induction tiles using List.reverseRecOn with
  | nil => exact .inl ⟨rfl, rfl⟩
  | append_singleton tiles u ih =>
    rw [List.foldl_append, List.foldl_cons, List.foldl_nil]
    rcases ih with ⟨rfl, hnone⟩ | ⟨t, hbest, hfirst⟩
    · exact .inr ⟨u, by rw [hnone]; rfl, [], [], rfl, nofun, nofun⟩
    · rw [hbest]
      by_cases hlt : t.2 < u.2
      · refine .inr ⟨u, by simp [farther, hlt], tiles, [], rfl, fun v hv => ?_, nofun⟩
        exact Nat.lt_of_le_of_lt (hfirst.le hv) hlt
      · exact .inr ⟨t, by simp [farther, hlt], hfirst.concat (Nat.le_of_not_lt hlt)⟩

/-- The tiles within a budget with their distances, in the order of their numbers. -/
def near (w : World) (o : Coord) (budget : Nat) : List (Nat × Nat) :=
  ((w.grid.flow o).toList.zipIdx.map fun (d, i) => (i, d)).filter
    fun (_, d) => decide (1 ≤ d) && decide (d ≤ budget)

theorem near_ascending : (w.near o budget).Pairwise fun t u => t.1 < u.1 := by
  refine List.Pairwise.filter _ (List.pairwise_map.mpr ?_)
  have hnumbers : ((w.grid.flow o).toList.zipIdx.map Prod.snd).Pairwise (· < ·) := by
    rw [List.zipIdx_map_snd]
    exact List.pairwise_lt_range'
  exact List.pairwise_map.mp hnumbers

theorem mem_near {i : Nat} {c : Coord} (hi : w.grid.layout.index? c = some i) (d : Nat) :
    (i, d) ∈ w.near o budget ↔ w.grid.steps o c = d ∧ 1 ≤ d ∧ d ≤ budget := by
  simp [near, List.mk_mem_zipIdx_iff_getElem?, Grid.getElem?_flow hi]

theorem farthestReachable?_eq (hplayer : w.player? = some p) : w.farthestReachable? budget =
    ((w.near p.coord budget).foldl farther none).bind fun t => w.grid.layout.coordAt? t.1 := by
  simp only [farthestReachable?, hplayer, Option.bind_some]
  rfl

theorem exists_of_mem_near (ht : t ∈ w.near o budget) : ∃ c,
    w.grid.layout.index? c = some t.1 ∧ w.grid.steps o c = t.2 ∧ 1 ≤ t.2 ∧ t.2 ≤ budget := by
  obtain ⟨i, d⟩ := t
  have hslot : (w.grid.flow o)[i]? = some d := by
    simp only [near, List.mem_filter, List.mem_map] at ht
    obtain ⟨⟨⟨_, _⟩, hmem, heq⟩, _⟩ := ht
    cases heq
    simpa using List.mk_mem_zipIdx_iff_getElem?.mp hmem
  obtain ⟨hlt, _⟩ := Array.getElem?_eq_some_iff.mp hslot
  obtain ⟨c, hc⟩ := Layout.exists_coordAt? (Grid.flow_size ▸ hlt)
  have hi := Layout.index?_of_coordAt? hc
  exact ⟨c, hi, (mem_near hi d).mp ht⟩

/-- The tile that is picked, in terms of the numbers of steps. -/
theorem farthestReachable?_spec (hplayer : w.player? = some p) (budget : Nat) :
    (w.farthestReachable? budget = none ∧ ∀ c, w.grid.contains c = true →
      1 ≤ w.grid.steps p.coord c → ¬ w.grid.steps p.coord c ≤ budget) ∨
    ∃ c i, w.farthestReachable? budget = some c ∧ w.grid.layout.index? c = some i ∧
      1 ≤ w.grid.steps p.coord c ∧ w.grid.steps p.coord c ≤ budget ∧
      ∀ e j, w.grid.layout.index? e = some j → 1 ≤ w.grid.steps p.coord e →
        w.grid.steps p.coord e ≤ budget →
        w.grid.steps p.coord e ≤ w.grid.steps p.coord c ∧
          (w.grid.steps p.coord e = w.grid.steps p.coord c → i ≤ j) := by
  rw [farthestReachable?_eq hplayer]
  rcases foldl_farther (w.near p.coord budget) with ⟨hempty, hnone⟩ | ⟨t, hbest, hfirst⟩
  · refine .inl ⟨by rw [hnone]; rfl, fun c hc hpos hle => ?_⟩
    obtain ⟨i, hi⟩ := Layout.exists_index? hc
    have hmem := (mem_near hi _).mpr ⟨rfl, hpos, hle⟩
    rw [hempty] at hmem
    cases hmem
  · have hmem : t ∈ w.near p.coord budget := by
      obtain ⟨before, after, htiles, _⟩ := hfirst
      simp [htiles]
    obtain ⟨c, hc, hsteps, hpos, hle⟩ := exists_of_mem_near hmem
    refine .inr ⟨c, t.1, ?_, hc, hsteps ▸ hpos, hsteps ▸ hle, fun e j hj hpos hle => ?_⟩
    · rw [hbest]
      exact Layout.coordAt?_of_index? hc
    · have he := (mem_near hj _).mpr ⟨rfl, hpos, hle⟩
      rw [hsteps]
      exact ⟨hfirst.le he, hfirst.lowest near_ascending he⟩

end World

namespace Battle

variable {c : BattleConfig} {seed : UInt64} {b : Battle} {events : List Event} {p : Actor}
  {e t : Coord}

/-- A click on a cell would be accepted as a move of the player. -/
def Allows (b : Battle) (t : Coord) : Prop :=
  ∃ next events, b.submit (.attempt t t) = .ok (next, events)

/-- In the flow field the cells allowed are those from one to as many steps away as the budget has. -/
theorem allows_iff_steps (h : b.world.Ready) (hphase : b.state.phase = .playerActs)
    (hplayer : b.world.player? = some p) (hbudget : b.state.budget < 4294967295) :
    b.Allows t ↔ b.world.grid.contains t = true ∧ 1 ≤ b.world.grid.steps p.coord t ∧
      b.world.grid.steps p.coord t ≤ b.state.budget := by
  have hp := h.sound.inside p (h.sound.numbered.mem_of_player? hplayer)
  rw [Allows, click_accepted_iff_of_lt hphase hplayer hbudget, and_congr_right_iff]
  exact fun ht => (Grid.within_iff_route h.sound.current hp ht hbudget).symm

theorem Allows.length_eq (h : b.Allows t) (hready : b.world.Ready)
    (hphase : b.state.phase = .playerActs) (hplayer : b.world.player? = some p)
    (hbudget : b.state.budget < 4294967295) :
    (b.world.grid.route p.coord t).length = b.world.grid.steps p.coord t := by
  obtain ⟨ht, hroute, hpos, hle⟩ := (click_accepted_iff_of_lt hphase hplayer hbudget).mp h
  have hne : p.coord ≠ t := by
    rintro rfl
    simp [Grid.route_self] at hpos
  exact (Grid.steps_eq_length hready.sound.current ht hne hroute
    (Nat.lt_of_le_of_lt hle hbudget)).symm

/-- Below the mark of the unreachable tiles the script picks the first of the tiles that are
farthest among those to which the player may move. -/
theorem picks_farthest (h : b.world.Ready) (hphase : b.state.phase = .playerActs)
    (hplayer : b.world.player? = some p) (hbudget : b.state.budget < 4294967295) :
    (b.world.farthestReachable? b.state.budget = none ∧ ∀ e, ¬ b.Allows e) ∨
      ∃ t i, b.world.farthestReachable? b.state.budget = some t ∧ b.Allows t ∧
        b.world.grid.layout.index? t = some i ∧ ∀ e j, b.Allows e →
          b.world.grid.layout.index? e = some j →
          (b.world.grid.route p.coord e).length ≤ (b.world.grid.route p.coord t).length ∧
            ((b.world.grid.route p.coord e).length = (b.world.grid.route p.coord t).length →
              i ≤ j) := by
  have hallows := fun e => allows_iff_steps (t := e) h hphase hplayer hbudget
  rcases World.farthestReachable?_spec hplayer b.state.budget with
    ⟨hnone, hspent⟩ | ⟨t, i, hpicked, hi, hpos, hle, hbest⟩
  · refine .inl ⟨hnone, fun e he => ?_⟩
    obtain ⟨hin, hpos, hle⟩ := (hallows e).mp he
    exact hspent e hin hpos hle
  · have ht := (hallows t).mpr ⟨Layout.contains_of_index? hi, hpos, hle⟩
    refine .inr ⟨t, i, hpicked, ht, hi, fun e j he hj => ?_⟩
    obtain ⟨_, hpos', hle'⟩ := (hallows e).mp he
    rw [ht.length_eq h hphase hplayer hbudget, he.length_eq h hphase hplayer hbudget]
    exact hbest e j hj hpos' hle'

/-- With the mark itself for a budget the script takes a tile without a route for the farthest. -/
theorem picks_unreachable (h : b.world.Ready) (hplayer : b.world.player? = some p)
    (hbudget : b.state.budget = 4294967295) (he : b.world.grid.contains e = true)
    (hmissing : (b.world.grid.route p.coord e).isFound = false) :
    ∃ t, b.world.farthestReachable? b.state.budget = some t ∧
      ((b.world.grid.route p.coord t).isFound = true →
        4294967295 ≤ (b.world.grid.route p.coord t).length) := by
  have hmark := Grid.unreachable_le_steps h.sound.current he hmissing
  have hle : b.world.grid.steps p.coord e ≤ b.state.budget := by
    rw [hbudget]
    exact Grid.steps_le_unreachable h.sound.current he
  obtain ⟨j, hj⟩ := Layout.exists_index? he
  rcases World.farthestReachable?_spec hplayer b.state.budget with
    ⟨_, hspent⟩ | ⟨t, i, hpicked, hi, hpos, _, hbest⟩
  · exact absurd hle (hspent e he (Nat.le_trans (by decide) hmark))
  · have ht := Layout.contains_of_index? hi
    have hfar := (hbest e j hj (Nat.le_trans (by decide) hmark) hle).1
    have hne := (Grid.steps_pos_iff h.sound.current ht).mp hpos
    refine ⟨t, hpicked, fun hroute => Nat.le_of_not_lt fun hlt => ?_⟩
    have hsteps := Grid.steps_eq_length h.sound.current ht hne.symm hroute hlt
    have : 4294967295 ≤ b.world.grid.steps p.coord e := hmark
    omega

/-- The scripted player makes a farthest move. While a battle waits for the player and the budget
that is left is below the mark of the unreachable tiles, the script picks a tile if and only if
there is one to which the player may move. A move to the tile that it picks is accepted, no tile to
which the player may move has a longer route, and among those with as long a route it has the lowest
number. If the budget is the mark and some tile has no route, the tile that it picks has none
either, or one that is too long to be counted. -/
theorem script_picks_farthest (h : create c seed = .ok (b, events)) (inputs : List TurnInput)
    (hphase : (b.play inputs).state.phase = .playerActs) :
    let now := b.play inputs
    ∃ p, now.world.player? = some p ∧
      (now.state.budget < 4294967295 →
        ((∃ t, now.world.farthestReachable? now.state.budget = some t) ↔ ∃ t, now.Allows t) ∧
        ∀ t, now.world.farthestReachable? now.state.budget = some t → now.Allows t ∧
          ∀ e, now.Allows e →
            (now.world.grid.route p.coord e).length ≤ (now.world.grid.route p.coord t).length ∧
            ((now.world.grid.route p.coord e).length = (now.world.grid.route p.coord t).length →
              ∀ i j, now.world.grid.layout.index? t = some i →
                now.world.grid.layout.index? e = some j → i ≤ j)) ∧
      (now.state.budget = 4294967295 → ∀ e, now.world.grid.contains e = true →
        (now.world.grid.route p.coord e).isFound = false →
        ∃ t, now.world.farthestReachable? now.state.budget = some t ∧
          ((now.world.grid.route p.coord t).isFound = true →
            4294967295 ≤ (now.world.grid.route p.coord t).length)) := by
  intro now
  have hready : now.world.Ready := play_ready h inputs
  obtain ⟨p, hled⟩ := hready.led
  have hplayer := hled.player? hready.sound.numbered
  refine ⟨p, hplayer, fun hbudget => ?_, fun hbudget e =>
    picks_unreachable hready hplayer hbudget⟩
  rcases picks_farthest hready hphase hplayer hbudget with
    ⟨hnone, hrefused⟩ | ⟨t, i, hpicked, ht, hi, hbest⟩
  · constructor
    · simp [hnone, hrefused]
    · simp [hnone]
  · refine ⟨⟨fun _ => ⟨t, ht⟩, fun _ => ⟨t, hpicked⟩⟩, fun t' ht' => ?_⟩
    obtain rfl : t = t' := Option.some.inj (hpicked.symm.trans ht')
    refine ⟨ht, fun e he => ?_⟩
    obtain ⟨hin, _⟩ := (click_accepted_iff_of_lt hphase hplayer hbudget).mp he
    obtain ⟨j, hj⟩ := Layout.exists_index? hin
    obtain ⟨hfarther, hlowest⟩ := hbest e j he hj
    refine ⟨hfarther, fun heq i' j' hi' hj' => ?_⟩
    obtain rfl : i = i' := Option.some.inj (hi.symm.trans hi')
    obtain rfl : j = j' := Option.some.inj (hj.symm.trans hj')
    exact hlowest heq

/-- In the narrows the script gives way to the only free tile. -/
theorem script_picks_farthest_narrows :
    (narrowsBattle.play [.advance, .advance, .advance]).state.phase = .playerActs ∧
      (narrowsBattle.play [.advance, .advance, .advance]).state.budget < 4294967295 ∧
      (narrowsBattle.play [.advance, .advance, .advance]).Allows ⟨0, 1⟩ := by
  have hphase : (narrowsBattle.play [.advance, .advance, .advance]).state.phase = .playerActs := by
    decide +kernel
  have hbudget : (narrowsBattle.play [.advance, .advance, .advance]).state.budget < 4294967295 := by
    decide +kernel
  obtain ⟨_, _, hbelow, _⟩ := script_picks_farthest create_narrows _ hphase
  obtain ⟨_, hpick⟩ := hbelow hbudget
  exact ⟨hphase, hbudget, (hpick ⟨0, 1⟩ (by decide +kernel)).1⟩

/-- A player behind a wall, with a budget that is the mark of the unreachable tiles. -/
def boundless : BattleConfig where
  width := 3
  height := 1
  size := ⟨0x3f800000⟩
  movementPerTurn := 4294967295
  handSize := 0
  seed := some 0
  player := ⟨0, 0⟩
  npcs := []
  obstacles := [⟨1, 0⟩]

def boundlessBoard : Layout := (Layout.create 3 1 boundless.size).toOption.getD .standard

def boundlessBattle : Battle where
  world := ((World.vacant boundlessBoard).applyAll (setupCommands boundless)).1
  state := .initial
  rules := boundless.rules
  generator := .ofSeed 0
  seed := 0

/-- The script picks the wall, and the move is rejected. -/
theorem wall_picked : create boundless 0 = .ok (boundlessBattle,
      ((World.vacant boundlessBoard).applyAll (setupCommands boundless)).2) ∧
    (boundlessBattle.play [.advance, .advance, .advance]).state =
      ⟨.playerActs, 4294967295, 0, none⟩ ∧
    (boundlessBattle.play [.advance, .advance, .advance]).world.farthestReachable? 4294967295 =
      some ⟨1, 0⟩ ∧
    (boundlessBattle.play [.advance, .advance, .advance]).submit (.attempt ⟨1, 0⟩ ⟨1, 0⟩) =
      .error (.noPath ⟨1, 0⟩) :=
  ⟨rfl, by decide +kernel, by decide +kernel, rfl⟩

end Battle

end HexSkirmish
