import HexSkirmish.Proofs.Campaign
import HexSkirmish.Proofs.Decisions

/-! What the check of a setup decides. It passes the setups that make sense, and of any other it names
the first thing that is wrong with it. A battle is made from just those that it passes, and then every
entry has come onto the board and has been reported, in the order of the setup. -/

namespace HexSkirmish

/-! ### Boards -/

section

open Float.Model

/-- Zero is less than a finite number unless it is the same or greater. -/
theorem le_zero_eq_false_iff {x : UnpackedFloat} (h : x.isFinite = true) :
    x.le (.zero .positive) = false ↔ (UnpackedFloat.zero .positive).lt x = true := by
  cases x with
  | infinity s => cases h
  | notANumber => cases h
  | zero s => exact iff_of_false nofun nofun
  | finite s m e hm =>
    cases s with
    | positive => exact iff_of_true rfl rfl
    | negative => exact iff_of_false nofun nofun

theorem usableSize_iff {x : Float32} : usableSize x = true ↔ x.isFinite = true ∧ 0 < x := by
  have hzero : (0 : Float32).toModel.unpack = .zero .positive := rfl
  have hle : x ≤ 0 ↔ x.toModel.unpack.le (.zero .positive) = true := by
    change decide (x.toModel ≤ (0 : Float32).toModel) = true ↔ _
    rw [← hzero, decide_eq_true_iff]
    exact Iff.rfl
  have hlt : 0 < x ↔ (UnpackedFloat.zero .positive).lt x.toModel.unpack = true := by
    change decide ((0 : Float32).toModel < x.toModel) = true ↔ _
    rw [← hzero, decide_eq_true_iff]
    exact Iff.rfl
  rw [usableSize, Bool.and_eq_true, Bool.not_eq_true', decide_eq_false_iff_not, hle, hlt,
    Bool.not_eq_true]
  exact and_congr_right le_zero_eq_false_iff

end

namespace BattleConfig

variable {l : Layout} {c : BattleConfig} {taken : List Coord} {word : String} {e : Coord}
  {before entries rest : List (String × Coord)} {error : ConfigError}

def UsableExtents (c : BattleConfig) : Prop :=
  (1 ≤ c.width ∧ c.width ≤ 2147483647) ∧ 1 ≤ c.height ∧ c.height ≤ 2147483647

def UsableTiles (c : BattleConfig) : Prop := c.size.value.isFinite = true ∧ 0 < c.size.value

def Inside (c : BattleConfig) (e : Coord) : Prop :=
  (0 ≤ e.x.toInt ∧ e.x.toInt < c.width) ∧ 0 ≤ e.y.toInt ∧ e.y.toInt < c.height

/-- Cells that lie on the board of a setup and apart from each other. -/
def Fits (c : BattleConfig) (cells : List Coord) : Prop :=
  (∀ e ∈ cells, c.Inside e) ∧ cells.Nodup

/-- The board that a setup describes. -/
structure Describes (c : BattleConfig) (l : Layout) : Prop where
  width : l.width = c.width
  height : l.height = c.height
  size : l.size = c.size.value

theorem usableExtents_iff :
    usableExtent c.width = true ∧ usableExtent c.height = true ↔ c.UsableExtents := by
  simp only [usableExtent, UsableExtents, Bool.and_eq_true, decide_eq_true_eq, Nat.succ_le_iff]

theorem create_of_extents (h : ¬ c.UsableExtents) :
    Layout.create c.width c.height c.size = .error (.dimensions c.width c.height) :=
  dif_neg (usableExtents_iff.not.mpr h)

theorem create_of_tiles (hextents : c.UsableExtents) (h : ¬ c.UsableTiles) :
    Layout.create c.width c.height c.size = .error (.tileSize c.size) :=
  (dif_pos (usableExtents_iff.mpr hextents)).trans (dif_neg (usableSize_iff.not.mpr h))

theorem create_of_usable (hextents : c.UsableExtents) (htiles : c.UsableTiles) :
    ∃ l, Layout.create c.width c.height c.size = .ok l ∧ c.Describes l :=
  ⟨_, (dif_pos (usableExtents_iff.mpr hextents)).trans (dif_pos (usableSize_iff.mpr htiles)),
    rfl, rfl, rfl⟩

theorem Describes.contains_iff (h : c.Describes l) : l.contains e = true ↔ c.Inside e := by
  rw [Layout.contains_iff, h.width, h.height, Inside]
  omega

/-! ### Entries -/

/-- What is wrong with an entry that comes after others. Whether it lies on the board is asked
first. -/
inductive EntryFault (c : BattleConfig) (taken : List Coord) (word : String) (e : Coord) :
    ConfigError → Prop
  | outOfBounds (out : ¬ c.Inside e) : EntryFault c taken word e (.outOfBounds word e)
  | overlap (inside : c.Inside e) (overlaps : e ∈ taken) : EntryFault c taken word e (.overlap e)

theorem checkEntries_cons (hin : l.contains e = true) (hfree : e ∉ taken) :
    checkEntries l taken ((word, e) :: rest) = checkEntries l (e :: taken) rest := by
  simp [checkEntries, hin, hfree]

/-- The check passes entries that fit. -/
theorem Describes.checkEntries_iff (h : c.Describes l) :
    checkEntries l [] entries = .ok () ↔ c.Fits (entries.map Prod.snd) := by
  rw [checkEntries_ok, Fits, and_comm]
  simp only [h.contains_iff, List.not_mem_nil, not_false_eq_true, and_true]

/-- After entries that it passes, the check goes on with their cells taken. -/
theorem checkEntries_append (h : checkEntries l taken before = .ok ()) :
    checkEntries l taken (before ++ rest) =
      checkEntries l ((before.map Prod.snd).reverse ++ taken) rest := by
  induction before generalizing taken with
  | nil => rfl
  | cons entry before ih =>
    obtain ⟨word, e⟩ := entry
    obtain ⟨_, hcells⟩ := checkEntries_ok.mp h
    obtain ⟨hin, hfree⟩ := hcells e List.mem_cons_self
    rw [checkEntries_cons hin hfree] at h
    rw [List.cons_append, checkEntries_cons hin hfree, ih h, List.map_cons, List.reverse_cons,
      List.append_assoc, List.singleton_append]

theorem EntryFault.checkEntries_eq (h : c.EntryFault taken word e error) (hl : c.Describes l) :
    checkEntries l taken ((word, e) :: rest) = .error error := by
  cases h with
  | outOfBounds out => simp [checkEntries, mt hl.contains_iff.mp out]
  | overlap inside overlaps => simp [checkEntries, hl.contains_iff.mpr inside, overlaps]

/-- If the check does not pass the entries, something is wrong with one after some that it passes. -/
theorem Describes.entryFault (hl : c.Describes l) (h : checkEntries l taken entries = .error error) :
    ∃ before word e after, entries = before ++ (word, e) :: after ∧
      checkEntries l taken before = .ok () ∧
      c.EntryFault ((before.map Prod.snd).reverse ++ taken) word e error := by
  induction entries generalizing taken with
  | nil => cases h
  | cons entry rest ih =>
    obtain ⟨word, e⟩ := entry
    by_cases hin : c.Inside e
    · by_cases hoverlaps : e ∈ taken
      · have hfault : c.EntryFault taken word e (.overlap e) := .overlap hin hoverlaps
        rw [hfault.checkEntries_eq hl] at h
        obtain rfl := Except.error.inj h
        exact ⟨[], word, e, rest, rfl, rfl, hfault⟩
      · have hcontains := hl.contains_iff.mpr hin
        rw [checkEntries_cons hcontains hoverlaps] at h
        obtain ⟨before, word', e', after, hsplit, hpassed, hfault⟩ := ih h
        refine ⟨(word, e) :: before, word', e', after, by rw [hsplit, List.cons_append], ?_, ?_⟩
        · rw [checkEntries_cons hcontains hoverlaps, hpassed]
        · simpa using hfault
    · have hfault : c.EntryFault taken word e (.outOfBounds word e) := .outOfBounds hin
      rw [hfault.checkEntries_eq hl] at h
      obtain rfl := Except.error.inj h
      exact ⟨[], word, e, rest, rfl, rfl, hfault⟩

theorem EntryFault.reverse : c.EntryFault taken.reverse word e error ↔
    c.EntryFault taken word e error := by
  constructor <;> intro h <;> cases h with
  | outOfBounds out => exact .outOfBounds out
  | overlap inside overlaps => exact .overlap inside (by simpa using overlaps)

/-! ### Whole setups -/

/-- The setups that make sense. -/
structure Usable (c : BattleConfig) : Prop where
  extents : c.UsableExtents
  tiles : c.UsableTiles
  fits : c.Fits (c.player :: (c.npcs ++ c.obstacles))

/-- The first thing that is wrong with a setup: the number of its columns or rows, or else the size of
its tiles, or else the first entry that does not fit in with those before it. -/
inductive FirstFault (c : BattleConfig) : ConfigError → Prop
  | dimensions (unusable : ¬ c.UsableExtents) :
      FirstFault c (.layout (.dimensions c.width c.height))
  | tileSize (extents : c.UsableExtents) (unusable : ¬ c.UsableTiles) :
      FirstFault c (.layout (.tileSize c.size))
  | entry {before after : List (String × Coord)} {word : String} {e : Coord} {error : ConfigError}
      (extents : c.UsableExtents) (tiles : c.UsableTiles)
      (split : ("player", c.player) ::
          (c.npcs.map (("npc", ·)) ++ c.obstacles.map (("obstacle", ·))) =
        before ++ (word, e) :: after)
      (fits : c.Fits (before.map Prod.snd))
      (fault : c.EntryFault (before.map Prod.snd) word e error) : FirstFault c error

theorem validate_of_create_error {why : LayoutError}
    (h : Layout.create c.width c.height c.size = .error why) :
    c.validate = .error (.layout why) := by
  simp only [validate, h]

theorem validate_of_create (h : Layout.create c.width c.height c.size = .ok l) :
    c.validate = (checkEntries l [] c.entries).map fun _ => l := by
  cases hcheck : checkEntries l [] c.entries <;> simp [validate, h, hcheck, Except.map]

/-- A setup that makes sense is passed with the board it describes. -/
theorem Usable.validate_eq (h : c.Usable) : ∃ l, c.validate = .ok l ∧ c.Describes l := by
  obtain ⟨l, hcreate, hl⟩ := create_of_usable h.extents h.tiles
  have hpassed : checkEntries l [] c.entries = .ok () := by
    rw [hl.checkEntries_iff, entries_cells]
    exact h.fits
  refine ⟨l, ?_, hl⟩
  rw [validate_of_create hcreate, hpassed]
  rfl

/-- The first fault is the one that is reported. -/
theorem FirstFault.validate_eq (h : c.FirstFault error) : c.validate = .error error := by
  cases h with
  | dimensions unusable => exact validate_of_create_error (create_of_extents unusable)
  | tileSize extents unusable => exact validate_of_create_error (create_of_tiles extents unusable)
  | entry extents tiles split fits fault =>
    obtain ⟨l, hcreate, hl⟩ := create_of_usable extents tiles
    have hsplit : c.entries = _ := split
    rw [validate_of_create hcreate, hsplit, checkEntries_append (hl.checkEntries_iff.mpr fits),
      List.append_nil, (EntryFault.reverse.mpr fault).checkEntries_eq hl]
    rfl

/-- A setup makes sense or has a first fault. -/
theorem usable_or_fault (c : BattleConfig) : c.Usable ∨ ∃ error, c.FirstFault error := by
  by_cases hextents : c.UsableExtents
  · by_cases htiles : c.UsableTiles
    · obtain ⟨l, _, hl⟩ := create_of_usable hextents htiles
      cases hcheck : checkEntries l [] c.entries with
      | ok =>
        rw [hl.checkEntries_iff, entries_cells] at hcheck
        exact .inl ⟨hextents, htiles, hcheck⟩
      | error error =>
        obtain ⟨before, word, e, after, hsplit, hpassed, hfault⟩ := hl.entryFault hcheck
        rw [List.append_nil, EntryFault.reverse] at hfault
        exact .inr ⟨error, .entry hextents htiles hsplit (hl.checkEntries_iff.mp hpassed) hfault⟩
    · exact .inr ⟨_, .tileSize hextents htiles⟩
  · exact .inr ⟨_, .dimensions hextents⟩

theorem validate_ok_iff_usable : (∃ l, c.validate = .ok l) ↔ c.Usable := by
  constructor
  · rintro ⟨l, hvalid⟩
    refine (usable_or_fault c).resolve_right ?_
    rintro ⟨error, hfault⟩
    rw [hfault.validate_eq] at hvalid
    cases hvalid
  · intro h
    obtain ⟨l, hvalid, _⟩ := h.validate_eq
    exact ⟨l, hvalid⟩

theorem validate_error_iff_fault : c.validate = .error error ↔ c.FirstFault error := by
  constructor
  · intro h
    rcases usable_or_fault c with husable | ⟨first, hfault⟩
    · obtain ⟨l, hvalid, _⟩ := husable.validate_eq
      rw [hvalid] at h
      cases h
    · have hsame := hfault.validate_eq.symm.trans h
      obtain rfl := Except.error.inj hsame
      exact hfault
  · exact FirstFault.validate_eq

theorem describes_of_validate (h : c.validate = .ok l) : c.Describes l := by
  obtain ⟨l', hvalid, hl⟩ := (validate_ok_iff_usable.mp ⟨l, h⟩).validate_eq
  obtain rfl := Except.ok.inj (hvalid.symm.trans h)
  exact hl

end BattleConfig

/-! ### Battles made from setups -/

/-- As long as numbers last, the actors are reported with the numbers of their places. -/
theorem World.Numbered.reports_eq {w : World} {places : List (ActorKind × Coord)} (h : w.Numbered)
    (hlen : w.actors.length ≤ countMax + 1)
    (hplaces : w.actors.map (fun a => (a.kind, a.coord)) = places) :
    w.actors.map Event.ofActor =
      places.mapIdx fun i p => Event.placed ⟨UInt32.ofNat i⟩ p.1 p.2 := by
  subst hplaces
  refine List.ext_getElem (by simp) fun i hi _ => ?_
  rw [List.length_map] at hi
  have hnumber : w.actors[i].id.number.toNat = i := by
    have := congrArg (·[i]?) (h.numbers_eq hlen)
    simpa [hi] using this
  have hid : w.actors[i].id = ⟨UInt32.ofNat i⟩ := calc
    w.actors[i].id = ⟨UInt32.ofNat w.actors[i].id.number.toNat⟩ := by rw [UInt32.ofNat_toNat]
    _ = ⟨UInt32.ofNat i⟩ := by rw [hnumber]
  simp [Event.ofActor, hid]

namespace Battle

variable {l : Layout} {c : BattleConfig} {seed : UInt64} {b : Battle} {events : List Event}
  {error : ConfigError}

theorem create_error_iff : create c seed = .error error ↔ c.validate = .error error := by
  cases hvalid : c.validate <;> simp [create, hvalid]

theorem create_ok_iff : (∃ made, create c seed = .ok made) ↔ ∃ l, c.validate = .ok l := by
  cases hvalid : c.validate <;> simp [create, hvalid]

/-- The reports of a setup: its walls, and then whoever is on the board. -/
theorem create_events (h : create c seed = .ok (b, events)) :
    events = c.obstacles.map (.costChanged · Tile.blockedCost) ++
      (b.world.actors.map .ofActor ++ [.edgesRebuilt]) := by
  obtain ⟨l, hvalid, hworld, _⟩ := create_eq h
  obtain ⟨_, hnodup, hin⟩ := BattleConfig.validate_ok hvalid
  obtain ⟨_, _, _, hevents⟩ := applyAll_setup hnodup hin
  rw [hworld, ← hevents]
  simp only [create, hvalid] at h
  exact (Prod.mk.inj (Except.ok.inj h)).2.symm

theorem create_upToDate (h : create c seed = .ok (b, events)) : b.world.UpToDate := by
  obtain ⟨l, _, hworld, _⟩ := create_eq h
  have hcommands : setupCommands c = (c.obstacles.map (.setCost · Tile.blockedCost) ++
      ([c.player].map (.place .player) ++ c.npcs.map (.place .npc))) ++ [.rebuildEdges] := by
    simp [setupCommands_eq]
  rw [hworld, hcommands, World.applyAll_append]
  exact ⟨rfl, rfl⟩

end Battle

end HexSkirmish
