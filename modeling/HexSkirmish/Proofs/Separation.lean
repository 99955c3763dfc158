import HexSkirmish.Proofs.Commands
import Mathlib.Data.List.Induction

/-! Actors on tiles of their own. Whether a tile is free is read off its cost, and nothing but its
cost tells that an actor stands on it. So actors keep apart exactly as long as no cost is written
that opens a tile under one of them; once that is done the tile can be taken a second time. -/

namespace HexSkirmish.World

variable {w v : World} {a : Actor} {goal c : Coord} {kind : ActorKind} {k : UInt16}
  {command : Command}

/-- Actors stand on tiles of their own, which are blocked. -/
structure Apart (w : World) : Prop where
  coords : (w.actors.map (·.coord)).Nodup
  inside : ∀ a ∈ w.actors, w.grid.contains a.coord = true
  blocked : ∀ a ∈ w.actors, w.grid.isObstacle a.coord = true

/-- A command exposes an actor if it opens the tile on which the actor stands. -/
def Exposes (w : World) (command : Command) : Prop :=
  ∃ a ∈ w.actors, ∃ k, k ≠ Tile.blockedCost ∧ command = .setCost a.coord k

namespace Apart

theorem vacant (l : Layout) : (vacant l).Apart := ⟨.nil, nofun, nofun⟩

theorem alike (h : w.Apart) (hv : Alike w v) : v.Apart where
  coords := by rw [hv.actors]; exact h.coords
  inside := by
    intro a ha
    rw [hv.contains]
    exact h.inside a (hv.actors ▸ ha)
  blocked := by
    intro a ha
    rw [Grid.isObstacle_congr (hv.cost a.coord)]
    exact h.blocked a (hv.actors ▸ ha)

/-- Nobody stands on a tile that is free. -/
theorem coord_ne_of_free (h : w.Apart) (ha : a ∈ w.actors) (hfree : w.grid.isObstacle c = false) :
    a.coord ≠ c := by
  rintro rfl
  rw [h.blocked a ha] at hfree
  cases hfree

/-- One actor gives up its tile for a free one, and the others keep theirs. -/
theorem moved (h : w.Apart) (hadmits : w.Admits a goal) (hv : Moved w a goal v) : v.Apart := by
  obtain ⟨before, after, hsplit, hactors, _⟩ := hv.split hadmits.found
  obtain ⟨hleft, hothers⟩ := nodup_map_middle.mp (hsplit ▸ h.coords)
  have hin := Grid.contains_of_free hadmits.free
  have hmem : ∀ b ∈ before ++ after, b ∈ w.actors := by
    intro b hb
    rw [hsplit, List.perm_middle.mem_iff]
    exact List.mem_cons_of_mem _ hb
  have hentered : ∀ b ∈ before ++ after, b.coord ≠ goal := fun b hb =>
    h.coord_ne_of_free (hmem b hb) hadmits.free
  refine ⟨?_, fun b hb => ?_, fun b hb => ?_⟩
  · rw [hactors, nodup_map_middle]
    exact ⟨hentered, hothers⟩
  · rw [hv.contains]
    rw [hactors, List.perm_middle.mem_iff] at hb
    rcases List.mem_cons.mp hb with rfl | hother
    · exact hin
    · exact h.inside b (hmem b hother)
  · rw [hactors, List.perm_middle.mem_iff] at hb
    rcases List.mem_cons.mp hb with rfl | hother
    · exact hv.isObstacle_goal hadmits.away hin
    · rw [hv.isObstacle_other (hleft b hother) (hentered b hother)]
      exact h.blocked b (hmem b hother)

/-- The actor that is placed takes a free tile. -/
theorem placed (h : w.Apart) (hfree : w.grid.isObstacle c = false) (hv : Placed w kind c v) :
    v.Apart := by
  have hin := Grid.contains_of_free hfree
  refine ⟨?_, ?_, ?_⟩
  · rw [hv.actors, List.map_append, List.map_singleton, ← List.concat_eq_append,
      List.nodup_concat]
    refine ⟨fun hmap => ?_, h.coords⟩
    obtain ⟨b, hb, heq⟩ := List.mem_map.mp hmap
    exact h.coord_ne_of_free hb hfree heq
  · intro b hb
    rw [hv.contains]
    rw [hv.actors, List.mem_append, List.mem_singleton] at hb
    rcases hb with hb | rfl
    · exact h.inside b hb
    · exact hin
  · intro b hb
    rw [hv.actors, List.mem_append, List.mem_singleton] at hb
    rcases hb with hb | rfl
    · have hsame : v.grid.cost? b.coord = w.grid.cost? b.coord := by
        rw [hv.cost, if_neg (h.coord_ne_of_free hb hfree)]
      rw [Grid.isObstacle_congr hsame]
      exact h.blocked b hb
    · obtain ⟨k, hk⟩ := Grid.contains_iff_cost?.mp hin
      exact Grid.isObstacle_iff.mpr (.inr (by simp [hv.cost, hk]))

theorem setCost (h : w.Apart) (hkept : ∀ a ∈ w.actors, a.coord = c → k = Tile.blockedCost) :
    ({ w with grid := w.grid.setCost c k } : World).Apart where
  coords := h.coords
  inside := by
    intro a ha
    rw [Grid.contains, Grid.setCost_layout]
    exact h.inside a ha
  blocked := by
    intro a ha
    by_cases hac : a.coord = c
    · obtain ⟨cost, hcost⟩ := Grid.contains_iff_cost?.mp (h.inside a ha)
      refine Grid.isObstacle_iff.mpr (.inr ?_)
      rw [Grid.cost?_setCost, if_pos hac, hcost, hkept a ha hac]
      rfl
    · have hsame : (w.grid.setCost c k).cost? a.coord = w.grid.cost? a.coord := by
        rw [Grid.cost?_setCost, if_neg hac]
      exact (Grid.isObstacle_congr hsame).trans (h.blocked a ha)

/-- An actor that was exposed stands on a tile that is not blocked. -/
theorem not_of_exposes (h : w.Apart) (hexposes : w.Exposes command) :
    ¬ (w.apply command).1.Apart := by
  obtain ⟨a, ha, k, hk, rfl⟩ := hexposes
  have hin := h.inside a ha
  obtain ⟨cost, hcost⟩ := Grid.contains_iff_cost?.mp hin
  have hopen : (w.grid.setCost a.coord k).isObstacle a.coord = false := by
    refine Grid.isObstacle_eq_false_iff.mpr ⟨k, ?_, hk⟩
    rw [Grid.cost?_setCost, if_pos rfl, hcost]
    rfl
  intro happart
  simp only [World.apply, hin, if_true] at happart
  have hblocked := happart.blocked a ha
  rw [hopen] at hblocked
  cases hblocked

/-- A command keeps actors apart unless it exposes one. -/
theorem apply_iff (h : w.Apart) : (w.apply command).1.Apart ↔ ¬ w.Exposes command := by
  refine ⟨fun happart hexposes => h.not_of_exposes hexposes happart, fun hkept => ?_⟩
  cases hquiet : command.isQuiet with
  | true => exact h.alike (apply_alike hquiet)
  | false =>
    cases command with
    | configure width height size =>
      simp only [World.apply]
      split
      · exact vacant _
      · exact h
    | setCost c k =>
      simp only [World.apply]
      split
      · refine h.setCost fun a ha hac => ?_
        by_contra hk
        exact hkept ⟨a, ha, k, hk, by rw [hac]⟩
      · exact h
    | place kind c =>
      rcases place_cases w kind c with ⟨hfree, hplaced, _⟩ | ⟨_, hsame⟩
      · exact h.placed hfree hplaced
      · rw [World.apply, hsame]
        exact h
    | move id goal tag =>
      rcases move_cases w id goal tag with ⟨a, rfl, hadmits⟩ | ⟨_, _, halike⟩
      · exact h.moved hadmits (hadmits.moved tag)
      · exact h.alike halike
    | _ => cases hquiet

end Apart

theorem applyAll_concat (w : World) (commands : List Command) (command : Command) :
    (w.applyAll (commands ++ [command])).1 = ((w.applyAll commands).1.apply command).1 := by
  rw [applyAll_append]
  rfl

/-- Actors are on the board whatever commands are given. They stand on blocked tiles of their own
all along a sequence of commands if and only if none of them opens a tile under an actor. -/
theorem apart_iff_never_exposed (l : Layout) (commands : List Command) :
    (∀ a ∈ ((vacant l).applyAll commands).1.actors,
      ((vacant l).applyAll commands).1.grid.contains a.coord = true) ∧
    ((∀ before, before <+: commands → ((vacant l).applyAll before).1.Apart) ↔
      ∀ before command, before ++ [command] <+: commands →
        ¬ ((vacant l).applyAll before).1.Exposes command) := by
  refine ⟨((Sound.vacant l).applyAll commands).inside, ?_, ?_⟩
  · intro hall before command hprefix
    have hbefore := hall before ((List.prefix_append before [command]).trans hprefix)
    have hafter := hall (before ++ [command]) hprefix
    rw [applyAll_concat, hbefore.apply_iff] at hafter
    exact hafter
  · intro hkept before
    induction before using List.reverseRecOn with
    | nil => exact fun _ => Apart.vacant l
    | append_singleton before command ih =>
      intro hprefix
      have hbefore := ih ((List.prefix_append before [command]).trans hprefix)
      rw [applyAll_concat, hbefore.apply_iff]
      exact hkept before command hprefix

/-- An actor, and another one on the same tile after it was opened. -/
theorem shared_tile :
    ((vacant .standard).applyAll [.place .npc ⟨0, 0⟩, .setCost ⟨0, 0⟩ Tile.openCost,
      .place .npc ⟨0, 0⟩]).1.actors.map (·.coord) = [⟨0, 0⟩, ⟨0, 0⟩] ∧
    ¬ ∀ l commands, ((vacant l).applyAll commands).1.Apart := by
  have hshared : ((vacant .standard).applyAll [.place .npc ⟨0, 0⟩, .setCost ⟨0, 0⟩ Tile.openCost,
      .place .npc ⟨0, 0⟩]).1.actors.map (·.coord) = [⟨0, 0⟩, ⟨0, 0⟩] := by decide +kernel
  refine ⟨hshared, fun hall => ?_⟩
  have hcoords := (hall .standard [.place .npc ⟨0, 0⟩, .setCost ⟨0, 0⟩ Tile.openCost,
    .place .npc ⟨0, 0⟩]).coords
  rw [hshared] at hcoords
  simp at hcoords

end HexSkirmish.World
