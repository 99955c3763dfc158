import HexSkirmish.Proofs.Accounts

/-! The cards of a battle. They are drawn when the first round begins, before any other word of the
generator is used, and the hand never changes again. So it is a matter of the seed and of the size of
the hand, whatever the board is like and whatever the player does. -/

namespace HexSkirmish

namespace Turn

variable {s : TurnState} {input : TurnInput} {rules : TurnRules} {w : World} {g : Generator}
  {t : Transition}

/-- The phases that a battle can be in although no round has begun. -/
def isUndealt (p : Phase) : Bool := p == .battleBegin || p == .roundBegin || p == .battleEnd

/-- From one of these phases nothing is drawn but the cards, and without them none is left behind. -/
theorem Passage.undealt (h : Passage s rules w g input t) (hphase : isUndealt s.phase = true)
    (hwork : ¬ (s.phase = .roundBegin ∧ input = .advance)) :
    t.generator = g ∧ isUndealt t.state.phase = true := by
  cases h with
  | @passed next hidle =>
    refine ⟨rfl, ?_⟩
    generalize s.phase = p at hphase hidle
    simp only [idlePhases, List.mem_cons, Prod.mk.injEq, List.not_mem_nil, or_false] at hidle
    rcases hidle with ⟨_, rfl⟩ | ⟨rfl, _⟩ | ⟨rfl, _⟩
    · rfl
    · cases hphase
    · cases hphase
  | dealt hround => exact absurd ⟨hround, rfl⟩ hwork
  | opened hother | moved hother | ended hother | closed hother | wandered hother | renewed hother =>
    rw [hother] at hphase
    cases hphase
  | concluded => exact ⟨rfl, rfl⟩

end Turn

namespace Battle

variable {c : BattleConfig} {seed : UInt64} {b : Battle} {events : List Event}
  {input : TurnInput} {t : Transition} {log : List Entry}

/-- What the hand and the generator have to do with the log: until the first round has begun there
are no cards and no word was drawn. -/
structure Dealt (c : BattleConfig) (seed : UInt64) (b : Battle) (log : List Entry) : Prop where
  rules : b.rules = c.rules
  hand : b.world.hand =
    if log.any (Entry.isWorkOf .roundBegin) then Turn.cards c.handSize (.ofSeed seed) else []
  fresh : log.any (Entry.isWorkOf .roundBegin) = false →
    b.generator = .ofSeed seed ∧ Turn.isUndealt b.state.phase = true

theorem create_seed (h : create c seed = .ok (b, events)) :
    b.seed = c.seed.getD seed ∧ b.generator = .ofSeed (c.seed.getD seed) := by
  simp only [create] at h
  split at h
  · cases h
  · obtain ⟨rfl, _⟩ := Prod.mk.inj (Except.ok.inj h)
    exact ⟨rfl, rfl⟩

theorem create_dealt (h : create c seed = .ok (b, events)) :
    Dealt c (c.seed.getD seed) b [] := by
  obtain ⟨l, _, hworld, hstate, hrules⟩ := create_eq h
  refine ⟨hrules, ?_, fun _ => ⟨(create_seed h).2, by rw [hstate]; rfl⟩⟩
  rw [hworld, World.applyAll_hand (setupCommands_deals c)]
  rfl

theorem Dealt.follow (h : Dealt c seed b log)
    (hpassage : Turn.Passage b.state b.rules b.world b.generator input t) :
    Dealt c seed (b.follow t) (log ++ [b.entryOf input t]) := by
  have hhand := h.hand
  refine ⟨h.rules, ?_, ?_⟩
  · simp only [List.any_append, List.any_cons, List.any_nil, Bool.or_false, isWorkOf_entryOf,
      Battle.follow, hpassage.hand_eq, h.rules, BattleConfig.rules]
    by_cases hwork : b.state.phase = .roundBegin ∧ input = .advance
    · cases hany : log.any (Entry.isWorkOf .roundBegin) with
      | true =>
        rw [hany, if_pos rfl] at hhand
        simp [hwork, hhand, Turn.cards]
      | false =>
        rw [hany, if_neg (by simp)] at hhand
        simp [hwork, hhand, (h.fresh hany).1]
    · simpa [hwork] using hhand
  · intro hnone
    simp only [List.any_append, List.any_cons, List.any_nil, Bool.or_false, isWorkOf_entryOf,
      Bool.or_eq_false_iff, decide_eq_false_iff_not] at hnone
    obtain ⟨hgenerator, hphase⟩ := h.fresh hnone.1
    obtain ⟨hsame, hlater⟩ := hpassage.undealt hphase hnone.2
    exact ⟨hsame.trans hgenerator, hlater⟩

theorem play_dealt (h : create c seed = .ok (b, events)) (inputs : List TurnInput) :
    Dealt c (c.seed.getD seed) (b.play inputs) (b.log inputs) :=
  play_log_induction [] (create_dealt h) (fun _ _ _ _ hb hpassage => hb.follow hpassage) inputs

/-- In the phases that only a begun round leads to, the hand is dealt. -/
theorem Dealt.hand_of_phase (h : Dealt c seed b log)
    (hphase : Turn.isUndealt b.state.phase = false) :
    b.world.hand = Turn.cards c.handSize (.ofSeed seed) := by
  have hhand := h.hand
  cases hany : log.any (Entry.isWorkOf .roundBegin) with
  | true =>
    rw [hany] at hhand
    exact hhand
  | false =>
    rw [(h.fresh hany).2] at hphase
    cases hphase

end Battle

end HexSkirmish
