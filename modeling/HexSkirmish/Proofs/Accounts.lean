import HexSkirmish.Proofs.Highlights
import Mathlib.Algebra.GroupWithZero.Nat
import Mathlib.Algebra.Order.BigOperators.Group.List
import Mathlib.Algebra.Order.Group.Nat
import Mathlib.Data.List.DropRight

/-! What a battle keeps count of. The log of a battle tells what the counters ought to say: the
budget and the goal of the player's turn by the routes taken since its opening, the rounds and the
hand by the phases that have done their work. -/

namespace HexSkirmish

/-- Whether a command can change the hand. -/
def Command.deals : Command → Bool
  | .configure .. | .draw _ => true
  | _ => false

/-- The route of an actor's move. -/
def Event.routeOf? (id : ActorId) : Event → Option Route
  | .moved mover _ _ route => if mover = id then some route else none
  | _ => none

namespace World

variable {w : World} {p npc : Actor} {id : ActorId} {goal : Coord} {tag : Option TileEffect}
  {command : Command} {commands : List Command}

/-! ### The player among the others -/

/-- However many others there are, none of them has the player's number. -/
theorem Led.id_ne (h : w.Led p) (hw : w.Numbered) (hnpc : npc ∈ w.ofKind .npc) :
    p.id ≠ npc.id := by
  obtain ⟨hkind, others, hactors⟩ := h
  have hnumbers := hw.numbers
  rw [hactors, List.length_cons, List.range_succ_eq_map, List.map_cons, List.map_cons,
    List.map_map] at hnumbers
  -- The player's number is 0, and those of later actors stop growing but never fall back to it.
  obtain ⟨hfirst, hlater⟩ := List.cons.inj hnumbers
  simp only [ofKind, hw.roster, hactors, List.mem_filter, decide_eq_true_eq] at hnpc
  obtain ⟨hmem, hother⟩ := hnpc
  rcases List.mem_cons.mp hmem with rfl | hmem
  · rw [hkind] at hother
    cases hother
  · have hnumber := List.mem_map_of_mem (f := fun a : Actor => a.id.number.toNat) hmem
    rw [hlater, List.mem_map] at hnumber
    obtain ⟨k, _, hk⟩ := hnumber
    intro hid
    simp only [Function.comp_apply, ← hid, hfirst, countMax] at hk
    omega

theorem Led.move_other (h : w.Led p) (hne : p.id ≠ id) : (w.move id goal tag).1.Led p := by
  rcases move_cases w id goal tag with ⟨a, rfl, hadmits⟩ | ⟨_, _, halike⟩
  · exact h.moved_other hne (hadmits.moved tag)
  · exact h.alike halike

theorem Led.move_highlight (h : w.Led p) (hadmits : w.Admits p goal) (budget : Nat) :
    (w.applyAll [.move p.id goal none, .highlight goal budget]).1.Led { p with coord := goal } := by
  simp only [applyAll_cons, applyAll_nil]
  exact (h.moved (hadmits.moved none)).alike (apply_alike rfl)

/-! ### The hand -/

theorem apply_hand (h : command.deals = false) : (w.apply command).1.hand = w.hand := by
  cases command with
  | configure | draw => cases h
  | setCost c k =>
    simp only [apply]
    split <;> rfl
  | setEffect c e => exact setEffect_hand w c e
  | clearEffect c => exact setEffect_hand w c .plain
  | rebuildEdges | clearEffects | highlight => rfl
  | place kind c =>
    simp only [apply, place]
    split
    · rfl
    · split <;> rfl
  | move id goal tag =>
    rcases move_outcome w id goal tag with ⟨a, rfl, hadmits⟩ | ⟨_, _, hsame | hrefreshed⟩
    · simp [apply, hadmits.move_eq, commitMove]
    · rw [apply, hsame]
    · rw [apply, hrefreshed]

theorem applyAll_hand (h : ∀ command ∈ commands, command.deals = false) :
    (w.applyAll commands).1.hand = w.hand :=
  applyAll_invariant (P := fun v => v.hand = w.hand) rfl fun _ command hc hv =>
    (apply_hand (h command hc)).trans hv

end World

namespace Turn

variable {s : TurnState} {input : TurnInput} {rules : TurnRules} {w : World} {g : Generator}
  {t : Transition} {p : Actor}

/-- Only a move of the player's own changes the player's place. -/
theorem Step.led (h : Step s rules w g input t) (hw : w.Ready) (hled : w.Led p) :
    (w.applyAll t.effects).1.Led p ∨ ∃ stop, input = .attempt stop stop ∧
      (w.applyAll t.effects).1.Led { p with coord := stop } := by
  have hquiet : ∀ commands : List Command, (∀ command ∈ commands, command.isQuiet = true) →
      (w.applyAll commands).1.Led p := fun commands hcommands =>
    World.applyAll_invariant (P := fun v => v.Led p) hled fun v command hc hv =>
      hv.alike (World.apply_alike (hcommands command hc))
  cases h with
  | opened => exact .inl (hquiet _ (openingEffects_quiet _ _))
  | @moved stop q _ hplayer hfound hpos _ =>
    obtain rfl := hled.eq_of_player? hw.sound.numbered hplayer
    have hadmits := hw.sound.admits hled.actor? hfound hpos
    exact .inr ⟨stop, rfl, hled.move_highlight hadmits _⟩
  | wandered =>
    refine .inl (World.applyAll_invariant (P := fun v => v.Led p) hled fun v command hc hv => ?_)
    obtain ⟨npc, hnpc, goal, rfl⟩ := Wander.mem_planFor hc
    exact hv.move_other (hled.id_ne hw.sound.numbered hnpc)
  | quiet _ _ heffects => exact .inl (hquiet _ heffects)

/-! ### Rounds and cards -/

/-- The cards that are drawn one after the other. -/
def cards : Nat → Generator → List Card
  | 0, _ => []
  | n + 1, g => (g.choose Card.all).1.toList ++ cards n (g.choose Card.all).2

theorem choose_card (g : Generator) : ∃ card, (g.choose Card.all).1 = some card := by
  cases hchoose : (g.choose Card.all).1 with
  | none => cases Generator.choose_eq_none_iff.mp hchoose
  | some card => exact ⟨card, rfl⟩

@[simp] theorem length_cards (n : Nat) (g : Generator) : (cards n g).length = n := by
  induction n generalizing g with
  | zero => rfl
  | succ n ih =>
    obtain ⟨card, hcard⟩ := choose_card g
    simp [cards, hcard, ih]

theorem drawCards_hand (n : Nat) (g : Generator) (w : World) :
    (w.applyAll (drawCards n g).1).1.hand = w.hand ++ cards n g := by
  induction n generalizing g w with
  | zero => simp [drawCards, cards]
  | succ n ih =>
    obtain ⟨card, hcard⟩ := choose_card g
    simp [drawCards, cards, hcard, World.applyAll_cons, ih, World.apply]

theorem Passage.deals (h : Passage s rules w g input t)
    (hwork : ¬ (s.phase = .roundBegin ∧ input = .advance)) :
    ∀ command ∈ t.effects, command.deals = false := by
  cases h with
  | dealt hphase => exact absurd ⟨hphase, rfl⟩ hwork
  | opened =>
    unfold openingEffects
    split <;> simp [Command.deals]
  | closed => cases s.goal <;> simp [closingEffects, Command.deals]
  | wandered =>
    intro command hc
    obtain ⟨_, _, _, rfl⟩ := Wander.mem_planFor hc
    rfl
  | passed | moved | ended | renewed | concluded => simp [Command.deals]

/-- Cards are dealt when a round begins, as many as are missing, and at no other time. -/
theorem Passage.hand_eq (h : Passage s rules w g input t) :
    (w.applyAll t.effects).1.hand =
      if s.phase = .roundBegin ∧ input = .advance then
        w.hand ++ cards (rules.handSize - w.hand.length) g
      else w.hand := by
  by_cases hwork : s.phase = .roundBegin ∧ input = .advance
  · rw [if_pos hwork]
    obtain ⟨hphase, rfl⟩ := hwork
    cases h with
    | dealt => exact drawCards_hand _ _ _
    | passed hidle => exact absurd hphase (idlePhases_apart _ hidle).2.2.1
    | opened hother | closed hother | wandered hother | renewed hother =>
      rw [hphase] at hother
      cases hother
  · rw [if_neg hwork, World.applyAll_hand (h.deals hwork)]

theorem Passage.hand (h : Passage s rules w g input t) :
    (w.applyAll t.effects).1.hand.length =
      if s.phase = .roundBegin ∧ input = .advance then
        w.hand.length + (rules.handSize - w.hand.length)
      else w.hand.length := by
  rw [h.hand_eq]
  split <;> simp

/-- A round is counted when it ends. -/
theorem Passage.round (h : Passage s rules w g input t) : t.state.round =
    if s.phase = .roundEnd ∧ input = .advance then min (s.round + 1) countMax else s.round := by
  cases h with
  | renewed hphase => simp [hphase]
  | passed hphase => simp [(idlePhases_apart _ hphase).2.2.2.1]
  | dealt hphase | opened hphase | closed hphase | wandered hphase => simp [hphase]
  | moved | ended | concluded => simp

/-- Outside the player's turn there is no goal, unless the battle was concluded in its midst. -/
theorem Passage.goal (h : Passage s rules w g input t)
    (hgoal : s.phase.isPlayers = false → s.phase ≠ .battleEnd → s.goal = none)
    (hplayers : t.state.phase.isPlayers = false) (hlast : t.state.phase ≠ .battleEnd) :
    t.state.goal = none := by
  cases h with
  | passed hphase =>
    obtain ⟨hbefore, _, _, _, hend⟩ := idlePhases_apart _ hphase
    exact hgoal hbefore hend
  | dealt hphase | wandered hphase | renewed hphase =>
    exact hgoal (by rw [hphase]; rfl) (by rw [hphase]; decide)
  | opened | closed => rfl
  | moved hphase => simp [hphase, Phase.isPlayers] at hplayers
  | ended => cases hplayers
  | concluded => exact absurd rfl hlast

end Turn

namespace Battle

variable {c : BattleConfig} {seed : UInt64} {b : Battle} {events : List Event}
  {input : TurnInput} {t : Transition} {p : Actor} {id : ActorId} {log : List Entry} {e : Entry}

/-! ### Reading the log -/

/-- Whether an entry is the work that a phase does of itself. -/
def Entry.isWorkOf (phase : Phase) (e : Entry) : Bool :=
  decide (e.phase = phase ∧ e.input = .advance)

theorem isWorkOf_entryOf {phase : Phase} : (b.entryOf input t).isWorkOf phase =
    decide (b.state.phase = phase ∧ input = .advance) := rfl

/-- What came after the last opening of the player's turn. -/
def sinceOpening (log : List Entry) : List Entry :=
  log.rtakeWhile fun e => !e.isWorkOf .playerBegin

/-- The routes that an actor has taken. -/
def routesOf (id : ActorId) (log : List Entry) : List Route :=
  (log.flatMap Entry.events).filterMap (Event.routeOf? id)

theorem sinceOpening_opened (h : e.isWorkOf .playerBegin = true) :
    sinceOpening (log ++ [e]) = [] :=
  List.rtakeWhile_concat_neg _ _ _ (by simp [h])

theorem sinceOpening_later (h : e.isWorkOf .playerBegin = false) :
    sinceOpening (log ++ [e]) = sinceOpening log ++ [e] :=
  List.rtakeWhile_concat_pos _ _ _ (by simp [h])

/-- What an input other than the opening adds to the routes of a turn. -/
theorem routesOf_later (h : (b.entryOf input t).isWorkOf .playerBegin = false) :
    routesOf id (sinceOpening (log ++ [b.entryOf input t])) = routesOf id (sinceOpening log) ++
      (b.world.applyAll t.effects).2.filterMap (Event.routeOf? id) := by
  rw [sinceOpening_later h]
  simp [routesOf, entryOf]

/-- What a move of the player's own adds to them. -/
theorem routesOf_moved {s : TurnState} {g : Generator} {stop : Coord} {budget : Nat}
    (hadmits : b.world.Admits p stop) :
    routesOf p.id (sinceOpening (log ++ [b.entryOf (.attempt stop stop)
        ⟨s, [.move p.id stop none, .highlight stop budget], g⟩])) =
      routesOf p.id (sinceOpening log) ++ [b.world.grid.route p.coord stop] := by
  rw [routesOf_later (by simp [isWorkOf_entryOf]), hadmits.events_highlight]
  simp [Event.routeOf?]

/-! ### The account of a turn -/

/-- On a board of so many tiles, the allowance of a turn against the routes taken and the place that
they have led to. -/
structure Balanced (allowance tiles : Nat) (s : TurnState) (place : Coord) (routes : List Route) :
    Prop where
  spent : allowance = s.budget + (routes.map fun r => min r.length countMax).sum
  short : tiles ≤ countMax + 1 ∨ allowance < countMax → ∀ r ∈ routes, r.length ≤ countMax
  goal : ∀ c, s.goal = some c ↔ routes ≠ [] ∧ c = place

namespace Balanced

variable {allowance tiles : Nat} {s : TurnState} {place stop : Coord} {routes : List Route}
  {r : Route}

/-- What is paid for a route is its length, unless that is too long to be counted. -/
theorem exact (h : Balanced allowance tiles s place routes)
    (hsmall : tiles ≤ countMax + 1 ∨ allowance < countMax) :
    allowance = s.budget + (routes.map Route.length).sum := by
  have hlengths : routes.map (fun r => min r.length countMax) = routes.map Route.length :=
    List.map_congr_left fun r hr => Nat.min_eq_left (h.short hsmall r hr)
  rw [← hlengths]
  exact h.spent

/-- With a route that is too long to be counted, more is travelled than is paid. -/
theorem overdrawn (h : Balanced allowance tiles s place routes) (hr : r ∈ routes)
    (hlong : countMax < r.length) : allowance < s.budget + (routes.map Route.length).sum := by
  rw [h.spent]
  refine Nat.add_lt_add_left (List.sum_lt_sum _ _ (fun r _ => Nat.min_le_left _ _) ⟨r, hr, ?_⟩) _
  rw [Nat.min_eq_right (Nat.le_of_lt hlong)]
  exact hlong

/-- A route that the budget covers is paid for. -/
theorem move (h : Balanced allowance tiles s place routes)
    (hbudget : min r.length countMax ≤ s.budget) (hlt : r.length < tiles) :
    Balanced allowance tiles
      { s with budget := s.budget - min r.length countMax, goal := some stop } stop
      (routes ++ [r]) where
  spent := by
    have := h.spent
    simp only [List.map_append, List.map_cons, List.map_nil, List.sum_append, List.sum_singleton]
    omega
  short := by
    intro hsmall r' hr'
    have := h.spent
    rcases List.mem_append.mp hr' with hr' | hr'
    · exact h.short hsmall r' hr'
    · rw [List.mem_singleton.mp hr']
      omega
  goal := fun _ => by simpa using eq_comm

end Balanced

/-! ### Runs -/

/-- What the counters of a battle have to do with its log. -/
structure Accounted (c : BattleConfig) (b : Battle) (log : List Entry) : Prop where
  ready : b.world.Ready
  rules : b.rules = c.rules
  board : b.world.grid.layout.tileCount = c.width * c.height
  turn : b.state.phase.isPlayers = true → log.any (Entry.isWorkOf .playerBegin) = true ∧
    ∀ p, b.world.Led p → Balanced c.movementPerTurn (c.width * c.height) b.state p.coord
      (routesOf p.id (sinceOpening log))
  goal : b.state.phase.isPlayers = false → b.state.phase ≠ .battleEnd → b.state.goal = none
  round : b.state.round = min (log.countP (Entry.isWorkOf .roundEnd)) countMax
  hand : b.world.hand.length = if log.any (Entry.isWorkOf .roundBegin) then c.handSize else 0

theorem setupCommands_deals (c : BattleConfig) :
    ∀ command ∈ setupCommands c, command.deals = false := by
  intro command hcommand
  rcases mem_setupCommands hcommand with ⟨_, rfl⟩ | ⟨_, _, rfl⟩ | rfl <;> rfl

theorem create_accounted (h : create c seed = .ok (b, events)) : Accounted c b [] := by
  obtain ⟨hlayout, _⟩ := create_ok h
  obtain ⟨hwidth, hheight⟩ := Layout.create_ok hlayout
  obtain ⟨l, _, hworld, hstate, hrules⟩ := create_eq h
  refine ⟨create_ready h, hrules, by rw [Layout.tileCount, hwidth, hheight], ?_, ?_, ?_, ?_⟩
  · simp [hstate, TurnState.initial, Phase.isPlayers]
  · simp [hstate, TurnState.initial]
  · simp [hstate, TurnState.initial]
  · rw [hworld, World.applyAll_hand (setupCommands_deals c)]
    rfl

/-- The account of the player's turn after one more entry. -/
theorem Accounted.turn_follow (h : Accounted c b log)
    (hpassage : Turn.Passage b.state b.rules b.world b.generator input t)
    (hplayers : t.state.phase.isPlayers = true) :
    (log ++ [b.entryOf input t]).any (Entry.isWorkOf .playerBegin) = true ∧
      ∀ p, (b.world.applyAll t.effects).1.Led p →
        Balanced c.movementPerTurn (c.width * c.height) t.state p.coord
          (routesOf p.id (sinceOpening (log ++ [b.entryOf input t]))) := by
  -- The others move when the player's turn is over, so only a move of the player's own adds a route
  -- here.
  cases hpassage with
  | opened hphase =>
    rw [sinceOpening_opened (by simp [isWorkOf_entryOf, hphase]), h.rules]
    refine ⟨by simp [isWorkOf_entryOf, hphase], fun p _ => ⟨rfl, ?_, ?_⟩⟩
    · simp [routesOf]
    · simp [routesOf]
  | @moved stop p hphase hplayer hfound hpos hbudget =>
    obtain ⟨hopened, hbalanced⟩ := h.turn (by rw [hphase]; rfl)
    obtain ⟨q, hled⟩ := h.ready.led
    obtain rfl := hled.eq_of_player? h.ready.sound.numbered hplayer
    have hadmits := h.ready.sound.admits hled.actor? hfound hpos
    have hlt := Grid.route_length_lt h.ready.sound.current hfound hadmits.away.symm
    refine ⟨by simp [hopened], fun p hp => ?_⟩
    obtain rfl := (hled.move_highlight hadmits _).unique hp
    rw [routesOf_moved hadmits]
    exact (hbalanced q hled).move hbudget (h.board ▸ hlt)
  | ended hphase =>
    obtain ⟨hopened, hbalanced⟩ := h.turn (by rw [hphase]; rfl)
    refine ⟨by simp [hopened], fun p hled => ?_⟩
    have hkept := hbalanced p hled
    rw [routesOf_later (by simp [isWorkOf_entryOf])]
    simp only [World.applyAll_nil, List.filterMap_nil, List.append_nil]
    exact ⟨hkept.spent, hkept.short, hkept.goal⟩
  | passed hphase =>
    have := (Turn.idlePhases_apart _ hphase).2.1
    simp only [hplayers] at this
    cases this
  | dealt | closed | wandered | renewed | concluded => cases hplayers

theorem Accounted.follow (h : Accounted c b log)
    (hpassage : Turn.Passage b.state b.rules b.world b.generator input t) :
    Accounted c (b.follow t) (log ++ [b.entryOf input t]) where
  ready := h.ready.applyAll hpassage.step.isSetup
  rules := h.rules
  board := World.applyAll_invariant (P := fun w => w.grid.layout.tileCount = c.width * c.height)
    h.board fun w command hc hw => by
      rw [(World.apply_identities (hpassage.step.isSetup command hc)).1]
      exact hw
  turn := h.turn_follow hpassage
  goal := hpassage.goal h.goal
  round := by
    have hround := h.round
    rw [List.countP_append, List.countP_singleton, isWorkOf_entryOf]
    simp only [Battle.follow, hpassage.round, decide_eq_true_eq]
    split <;> omega
  hand := by
    have hhand := h.hand
    rw [List.any_append, List.any_cons, List.any_nil, Bool.or_false, isWorkOf_entryOf]
    simp only [Battle.follow, hpassage.hand, hhand, h.rules, BattleConfig.rules]
    by_cases hwork : b.state.phase = .roundBegin ∧ input = .advance
    · simp only [hwork, and_self, if_true, decide_true, Bool.or_true]
      split <;> omega
    · simp [hwork]

theorem play_accounted (h : create c seed = .ok (b, events)) (inputs : List TurnInput) :
    Accounted c (b.play inputs) (b.log inputs) :=
  play_log_induction [] (create_accounted h) (fun _ _ _ _ hb hpassage => hb.follow hpassage) inputs

/-- After a move along a route that is too long to be counted the account is overdrawn. -/
theorem Accounted.overdrawn {stop : Coord} (h : Accounted c b log)
    (hpassage : Turn.Passage b.state b.rules b.world b.generator (.attempt stop stop) t)
    (hled : b.world.Led p) (hlong : countMax < (b.world.grid.route p.coord stop).length) :
    t.state.phase = .playerActs ∧ ∃ q, (b.follow t).world.player? = some q ∧
      c.movementPerTurn < t.state.budget + ((routesOf q.id
        (sinceOpening (log ++ [b.entryOf (.attempt stop stop) t]))).map Route.length).sum := by
  have hnext := h.follow hpassage
  cases hpassage with
  | @moved stop q hphase hplayer hfound hpos hbudget =>
    obtain rfl := hled.eq_of_player? h.ready.sound.numbered hplayer
    have hadmits := h.ready.sound.admits hled.actor? hfound hpos
    have hmoved := hled.move_highlight hadmits
      (b.state.budget - min (b.world.grid.route p.coord stop).length countMax)
    obtain ⟨_, hbalanced⟩ := hnext.turn (by rw [hphase]; rfl)
    refine ⟨hphase, _, hmoved.player? hnext.ready.sound.numbered, ?_⟩
    exact (hbalanced _ hmoved).overdrawn (by simp [routesOf_moved hadmits]) hlong

/-- If an input changes the player's place, it is an accepted move to the place that is new. -/
theorem own_move_of_place {q : Actor} (h : b.world.Ready) (hled : b.world.Led p)
    (hq : (b.after input).world.player? = some q) (haway : q.coord ≠ p.coord) :
    input = .attempt q.coord q.coord ∧ ∃ next events, b.submit input = .ok (next, events) := by
  rcases submit_cases b input with ⟨reason, hrejected⟩ | ⟨t, hpassage, haccepted⟩
  · simp only [after, hrejected, hled.player? h.sound.numbered, Option.some.injEq] at hq
    exact absurd (congrArg Actor.coord hq.symm) haway
  · have hnumbered := (h.applyAll hpassage.step.isSetup).sound.numbered
    simp only [after, haccepted, follow] at hq
    rcases hpassage.step.led h hled with hstays | ⟨stop, rfl, hmoves⟩
    · rw [hstays.player? hnumbered] at hq
      exact absurd (congrArg Actor.coord (Option.some.inj hq).symm) haway
    · rw [hmoves.player? hnumbered] at hq
      obtain rfl := Option.some.inj hq
      exact ⟨rfl, _, _, haccepted⟩

/-- The player's account after a click on the far corner of a winding board that is wide enough. -/
theorem overdrawn_of_winding {width : Nat} (hlong : countMax < 3 * width - 1)
    (h : create (.winding width) 0 = .ok (b, events)) :
    let inputs := [.advance, .advance, .advance,
      .attempt (Grid.farCorner width) (Grid.farCorner width)]
    (b.play inputs).state.phase = .playerActs ∧ ∃ p, (b.play inputs).world.player? = some p ∧
      (BattleConfig.winding width).movementPerTurn < (b.play inputs).state.budget +
        ((routesOf p.id (sinceOpening (b.log inputs))).map Route.length).sum := by
  intro inputs
  have hinputs : inputs = [.advance, .advance, .advance] ++
    [.attempt (Grid.farCorner width) (Grid.farCorner width)] := rfl
  have hopened := play_accounted h [.advance, .advance, .advance]
  obtain ⟨hstate, _⟩ := opened_winds h
  obtain ⟨p, hplayer, hin, hfound, hlength⟩ := opened_route (by simp only [countMax] at hlong; omega) h
  rw [hinputs, play_append, log_append]
  generalize b.play [.advance, .advance, .advance] = now
    at hopened hstate hplayer hin hfound hlength ⊢
  generalize b.log [.advance, .advance, .advance] = earlier at hopened ⊢
  obtain ⟨q, hled⟩ := hopened.ready.led
  obtain rfl := hled.eq_of_player? hopened.ready.sound.numbered hplayer
  rw [← hlength] at hlong
  obtain ⟨next, events, hsubmit⟩ := (click_accepted_iff (by rw [hstate]) hplayer).mpr
    ⟨hin, hfound, Nat.zero_lt_of_lt hlong, by rw [hstate]; exact Nat.min_le_right _ _⟩
  obtain ⟨t, ht, rfl, rfl⟩ := submit_ok.mp hsubmit
  have := hopened.overdrawn (Turn.passage_of_transition ht) hled hlong
  simpa [play, log, after, entry?, entryOf, follow, hsubmit] using this

/-- The counters of a battle agree with its log. During the player's turn, the allowance is what is
left of the budget and what the player's routes since the opening have cost, and the goal is the
player's tile as soon as there is such a route. A route costs its length, which is counted in 32
bits; that can matter on boards of more than `2 ^ 32` tiles alone. At other times there is no goal,
unless the battle was concluded with one. Rounds are counted, also in 32 bits, when they end; the
hand is empty until the first round begins, and full from then on. And whatever comes next, nothing
but an accepted move of the player's own changes the player's place. -/
theorem accounts_agree (h : create c seed = .ok (b, events)) (inputs : List TurnInput) :
    let now := b.play inputs
    let log := b.log inputs
    ∃ p, now.world.player? = some p ∧
      (now.state.phase = .playerActs ∨ now.state.phase = .playerEnd →
        log.any (Entry.isWorkOf .playerBegin) = true ∧
        let routes := routesOf p.id (sinceOpening log)
        c.movementPerTurn =
            now.state.budget + (routes.map fun r => min r.length 4294967295).sum ∧
          (c.width * c.height ≤ 4294967296 ∨ c.movementPerTurn < 4294967295 →
            c.movementPerTurn = now.state.budget + (routes.map Route.length).sum) ∧
          ∀ t, now.state.goal = some t ↔ routes ≠ [] ∧ t = p.coord) ∧
      (now.state.phase ≠ .playerActs → now.state.phase ≠ .playerEnd →
        now.state.phase ≠ .battleEnd → now.state.goal = none) ∧
      now.state.round = min (log.countP (Entry.isWorkOf .roundEnd)) 4294967295 ∧
      now.world.hand.length = (if log.any (Entry.isWorkOf .roundBegin) then c.handSize else 0) ∧
      ∀ input q, (now.after input).world.player? = some q → q.coord ≠ p.coord →
        input = .attempt q.coord q.coord ∧
          ∃ next events, now.submit input = .ok (next, events) := by
  intro now log
  have hnow : Accounted c now log := play_accounted h inputs
  clear_value now log
  obtain ⟨p, hled⟩ := hnow.ready.led
  refine ⟨p, hled.player? hnow.ready.sound.numbered, fun hplayers => ?_, fun hacts hend => ?_,
    hnow.round, hnow.hand, fun input q hq haway => ?_⟩
  · obtain ⟨hopened, hbalanced⟩ := hnow.turn (by simpa [Phase.isPlayers] using hplayers)
    have hturn := hbalanced p hled
    exact ⟨hopened, hturn.spent, hturn.exact, hturn.goal⟩
  · exact hnow.goal (by simp [Phase.isPlayers, hacts, hend])
  · exact own_move_of_place hnow.ready hled hq haway

/-- The player has gone one step of two, and the goal marks where to. -/
theorem accounts_agree_narrows : create narrows 0 = .ok (narrowsBattle,
      ((World.vacant narrowsBoard).applyAll (setupCommands narrows)).2) ∧
    ∃ p, (narrowsBattle.play [.advance, .advance, .advance, .attempt ⟨0, 1⟩ ⟨0, 1⟩,
        .endTurn]).world.player? = some p ∧ p.coord = ⟨0, 1⟩ ∧
      narrows.movementPerTurn = (narrowsBattle.play [.advance, .advance, .advance,
          .attempt ⟨0, 1⟩ ⟨0, 1⟩, .endTurn]).state.budget +
        ((routesOf p.id (sinceOpening (narrowsBattle.log [.advance, .advance, .advance,
          .attempt ⟨0, 1⟩ ⟨0, 1⟩, .endTurn]))).map Route.length).sum := by
  obtain ⟨p, hplayer, hturn, _⟩ := accounts_agree create_narrows [.advance, .advance, .advance,
    .attempt ⟨0, 1⟩ ⟨0, 1⟩, .endTurn]
  obtain ⟨_, _, hexact, hgoal⟩ := hturn (.inr (by decide +kernel))
  exact ⟨create_narrows, p, hplayer, ((hgoal ⟨0, 1⟩).mp (by decide +kernel)).2.symm,
    hexact (.inr (by decide))⟩

/-- On the widest winding board the one route of the turn is longer than the whole allowance. -/
theorem account_overdrawn_widest :
    let now := (windingBattle 2147483647).play [.advance, .advance, .advance,
      .attempt (Grid.farCorner 2147483647) (Grid.farCorner 2147483647)]
    let log := (windingBattle 2147483647).log [.advance, .advance, .advance,
      .attempt (Grid.farCorner 2147483647) (Grid.farCorner 2147483647)]
    (∃ events, create (.winding 2147483647) 0 = .ok (windingBattle 2147483647, events)) ∧
      now.state.phase = .playerActs ∧ ∃ p, now.world.player? = some p ∧
        (BattleConfig.winding 2147483647).movementPerTurn <
          now.state.budget + ((routesOf p.id (sinceOpening log)).map Route.length).sum := by
  have hcreate := @create_winding 2147483647 (by decide) (by decide)
  exact ⟨⟨_, hcreate⟩, overdrawn_of_winding (by decide) hcreate⟩

end Battle

end HexSkirmish
