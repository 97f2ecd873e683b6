import Mathlib
import Huntercore.Lib.System
import Huntercore.Game.Invariant.Kills
import Huntercore.Game.Invariant.Moves
import Huntercore.Game.Invariant.Division

/-!
# The invariant of the game states of a chain

A step runs the phases of the modules before this one in the order of `PerformStep`:

1. the fees, the attacks and the kills, after which every player is alive again;
2. at the life-steal fork block, `RemoveHeartedCharacters`, which lowers the bound on the
   characters of a player from `MAX_CHARACTERS_PER_PLAYER` to one;
3. new waypoints, walking, the crown update and banking (`PerformStepBeforeRandom_ready`);
4. the phases seeded by the block hash, each a `LatePhase` (`PerformStepRandom_live`).

`characterCap` is the bound at a height. A valid state is live under the bound of the next
height, except before the fork block, where the removal brings the bound down. The theorem
`reachable_valid` is the induction over the chain.
-/

namespace Huntercore

variable (w : World)

/-! ## The bound on characters -/

/-- The characters a player may have at a height: one after the life-steal fork. -/
def characterCap (r : ConsensusRules) (nHeight : Int) : Nat :=
  if r.ForkInEffect .LIFESTEAL nHeight then 1 else MAX_CHARACTERS_PER_PLAYER

theorem characterCap_le (r : ConsensusRules) (nHeight : Int) :
    characterCap r nHeight ≤ MAX_CHARACTERS_PER_PLAYER := by
  unfold characterCap
  split <;> decide

theorem characterCap_of_forkInEffect {r : ConsensusRules} {nHeight : Int}
    (h : r.ForkInEffect .LIFESTEAL nHeight = true) : characterCap r nHeight = 1 := by
  simp [characterCap, h]

theorem characterCap_of_not_forkInEffect {r : ConsensusRules} {nHeight : Int}
    (h : r.ForkInEffect .LIFESTEAL nHeight = false) :
    characterCap r nHeight = MAX_CHARACTERS_PER_PLAYER := by
  simp [characterCap, h]

theorem ConsensusRules.forkInEffect_of_isForkHeight (r : ConsensusRules) {type : Fork} {h : Int}
    (hf : r.IsForkHeight type h = true) : r.ForkInEffect type h = true := by
  unfold ConsensusRules.IsForkHeight at hf
  split at hf
  · cases hf
  · simp only [Bool.and_eq_true] at hf
    exact hf.1

/-- A fork in effect at a height other than its own was in effect at the height before. -/
theorem ConsensusRules.forkInEffect_pred (r : ConsensusRules) {type : Fork} {h : Int} (h0 : h ≠ 0)
    (hf : r.IsForkHeight type h = false) (hin : r.ForkInEffect type h = true) :
    r.ForkInEffect type (h - 1) = true := by
  simpa [ConsensusRules.IsForkHeight, h0, hin] using hf

/-- After `FORK_LIFESTEAL` (and so `FORK_POISON`) a new player has its general only. -/
theorem GameState.GetNumInitialCharacters_le_characterCap (s : GameState) :
    s.GetNumInitialCharacters ≤ characterCap s.param.rules s.nHeight := by
  cases hl : s.param.rules.ForkInEffect .LIFESTEAL s.nHeight
  · rw [characterCap_of_not_forkInEffect hl]
    exact s.GetNumInitialCharacters_le.trans (by decide)
  · have hp := s.param.rules.forkInEffect_poison_of_lifeSteal hl
    simp [characterCap_of_forkInEffect hl, GameState.GetNumInitialCharacters, GameState.ForkInEffect, hp]

/-- A living player under the bound of one has its general only. -/
theorem PlayerState.size_eq_one {pl : PlayerState} (hs : pl.Sound 1) (ha : pl.Alive) :
    pl.characters.size = 1 :=
  le_antisymm hs.size_le (OrdMap.size_pos_of_contains ha.general)

theorem GetBlockSubsidy_nonneg (nHeight : Int) (p : Params) : 0 ≤ GetBlockSubsidy nHeight p := by
  unfold GetBlockSubsidy
  dsimp only
  split
  · exact le_rfl
  · exact Int.ediv_nonneg (by decide) (by positivity)

namespace GameState

/-! ## Valid states -/

theorem HeartsGone.of_frame {s s' : GameState} (h : s.HeartsGone) (hf : s.Frame s') : s'.HeartsGone :=
  h.of_eq hf.hearts hf.nHeight hf.param

theorem Valid.live {s : GameState} (h : s.Valid) : s.Live MAX_CHARACTERS_PER_PLAYER :=
  ⟨h.sound, h.alive⟩

/-- A state without players is live under any bound. -/
theorem Live.of_players_empty {cap : Nat} {s : GameState} (cap' : Nat) (h : s.Live cap)
    (hp : s.players = .empty) : s.Live cap' :=
  ⟨⟨fun p pl hpl => by simp [hp] at hpl, h.sound.loot_pos, h.sound.fund_nonneg⟩, h.alive⟩

/-- A valid state is live under the bound of the next height, unless the next block is the
fork block, and has no hearts if the fork is in effect then. -/
theorem Valid.next {s : GameState} (h : s.Valid)
    (hfork : s.param.rules.IsForkHeight .LIFESTEAL (s.nHeight + 1) = false) :
    s.Live (characterCap s.param.rules (s.nHeight + 1)) ∧
      (s.param.rules.ForkInEffect .LIFESTEAL (s.nHeight + 1) = true → s.hearts = .empty) := by
  cases hl : s.param.rules.ForkInEffect .LIFESTEAL (s.nHeight + 1)
  · rw [characterCap_of_not_forkInEffect hl]
    exact ⟨h.live, fun hl' => absurd hl' (by simp)⟩
  · rw [characterCap_of_forkInEffect hl]
    rcases h.height.eq_or_lt with hg | hpos
    · -- before the genesis block there is nothing to bound
      obtain ⟨hp, hh⟩ := h.genesis hg.symm
      exact ⟨h.live.of_players_empty 1 hp, fun _ => hh⟩
    · -- otherwise the fork was in effect already, with one character per player
      have hprev := s.param.rules.forkInEffect_pred (by omega) hfork hl
      rw [add_sub_cancel_right] at hprev
      obtain ⟨hone, hh⟩ := h.lifeSteal hprev
      exact ⟨⟨⟨fun p pl hpl => (h.sound.players p pl hpl).recap (hone p pl hpl).le,
        h.sound.loot_pos, h.sound.fund_nonneg⟩, h.alive⟩, fun _ => hh⟩

/-- A state of the chain after the genesis block, live under the bound of its height, with
the crown held and no hearts after the fork, is valid. -/
theorem Valid.of_live {s : GameState} (h : s.Live (characterCap s.param.rules s.nHeight))
    (hc : s.CrownHeld) (hg : s.HeartsGone) (hn : 0 ≤ s.nHeight) : s.Valid where
  sound := ⟨fun p pl hpl => (h.sound.players p pl hpl).mono (characterCap_le _ _), h.sound.loot_pos,
    h.sound.fund_nonneg⟩
  alive := h.alive
  crown := hc
  lifeSteal hl := by
    have hcap := characterCap_of_forkInEffect (show s.param.rules.ForkInEffect .LIFESTEAL s.nHeight = true from hl)
    refine ⟨fun p pl hpl => PlayerState.size_eq_one ?_ (h.alive p pl hpl), hg hl⟩
    rw [← hcap]
    exact h.sound.players p pl hpl
  height := by omega
  genesis hn' := absurd hn' (by omega)

/-- The state before the genesis block is valid. -/
theorem Valid.init (param : Params) : (GameState.init param).Valid where
  sound := ⟨OrdMap.all_empty _, OrdMap.all_empty _, le_rfl⟩
  alive := OrdMap.all_empty _
  crown hne := absurd rfl hne
  lifeSteal hl := by
    -- no fork is in effect below height zero
    simp only [GameState.init, ForkInEffect, ConsensusRules.ForkInEffect] at hl
    have := of_decide_eq_true hl
    omega
  height := le_rfl
  genesis _ := ⟨rfl, rfl⟩

/-! ## Before the random draws -/

/-- What the part of a step before the random draws leaves for the rest, from the state `s`
the step starts from: a live state at the next height, with the crown held, no more players
than before, and an attacked tile map with no negative drawn life. -/
structure Ready (cap : Nat) (s : GameState) (p : StepProgress) : Prop where
  live : p.state.Live cap
  crown : p.state.CrownHeld
  hearts : p.state.HeartsGone
  keys : ∀ q, p.state.players.contains q = true → s.players.contains q = true
  nHeight : p.state.nHeight = s.nHeight + 1
  param : p.state.param = s.param
  drawn : p.attackedTiles.DrawnNonneg

/-- The part of a step before the random draws, from a live state whose hearts are gone if
the fork was in effect before: at the fork block the bound drops to one. -/
theorem PerformStepBeforeRandom_ready {cap : Nat} {s : GameState} (d : StepData) (h : s.Live cap)
    (hgone : s.param.rules.ForkInEffect .LIFESTEAL (s.nHeight + 1) = true →
      s.param.rules.IsForkHeight .LIFESTEAL (s.nHeight + 1) = false → s.hearts = .empty)
    (hfee : ∀ m ∈ d.vMoves, m.IsSpawn = false → ∀ pl, s.players.find? m.player = some pl →
      pl.lockedCoins ≤ m.newLocked)
    (hnd : (d.vMoves.map (·.player)).Nodup) :
    s.Ready (if s.param.rules.IsForkHeight .LIFESTEAL (s.nHeight + 1) then 1 else cap)
      (PerformStepBeforeRandom w s d) := by
  unfold PerformStepBeforeRandom
  dsimp only
  -- the fees
  obtain ⟨hl₁, hfr₁, -⟩ := payFees_live d.vMoves
    (show ({ s with nHeight := s.nHeight + 1, hashBlock := d.newHash, dead_players_chat := .empty } :
      GameState).Live cap from h.of_eq rfl rfl rfl) hfee hnd
  generalize payFees ({ s with nHeight := s.nHeight + 1, hashBlock := d.newHash, dead_players_chat := .empty } :
    GameState) d.vMoves = r₁ at hl₁ hfr₁ ⊢
  obtain ⟨s₁, moneyIn⟩ := r₁
  dsimp only at hl₁ hfr₁ ⊢
  -- the attacks, with nothing drawn yet
  generalize ht₁ : (if s₁.ForkInEffect .LIFESTEAL = true then
    ((default : CharactersOnTiles).ApplyAttacks s₁ d.vMoves).DefendMutualAttacks
    else (default : CharactersOnTiles).ApplyAttacks s₁ d.vMoves) = t₁
  have hd₁ : t₁.DrawnNonneg := by
    rw [← ht₁]
    split
    · exact (CharactersOnTiles.drawnNonneg_default.ApplyAttacks _ _).DefendMutualAttacks
    · exact CharactersOnTiles.drawnNonneg_default.ApplyAttacks _ _
  -- the kills, after which every player is alive again
  have hk₁ : KillsMarked s₁ default := hl₁.alive.imp fun _ _ ha _ => ha
  have hd₂ := t₁.DrawLife_drawn hl₁.sound hk₁ hd₁
  have hk₂ := t₁.DrawLife_killStep hl₁.sound hk₁
  generalize t₁.DrawLife s₁ default = r₂ at hd₂ hk₂ ⊢
  obtain ⟨t₂, s₂, res₂⟩ := r₂
  dsimp only at hd₂ hk₂ ⊢
  have hk₃ := hk₂.trans (KillSpawnArea_killStep w hk₂.sound hk₂.marked)
  generalize s₂.KillSpawnArea w res₂ = r₃ at hk₃ ⊢
  obtain ⟨s₃, res₃⟩ := r₃
  dsimp only at hk₃ ⊢
  have hk₄ := hk₃.trans (DecrementLife_killStep hk₃.sound hk₃.marked)
  generalize s₃.DecrementLife res₃ = r₄ at hk₄ ⊢
  obtain ⟨s₄, res₄⟩ := r₄
  dsimp only at hk₄ ⊢
  obtain ⟨hk₅, hl₅⟩ := FinaliseKills_killStep hk₄.sound hk₄.marked
  have hk₅ := hk₄.trans hk₅
  generalize s₄.FinaliseKills res₄ = r₅ at hk₅ hl₅ ⊢
  obtain ⟨s₅, res₅⟩ := r₅
  dsimp only at hk₅ hl₅ ⊢
  have hn₅ : s₅.nHeight = s.nHeight + 1 := hk₅.nHeight.trans hfr₁.nHeight
  have hp₅ : s₅.param = s.param := hk₅.param.trans hfr₁.param
  have hkeys₅ : ∀ q, s₅.players.contains q = true → s.players.contains q = true :=
    fun q hq => hfr₁.keys q (hk₅.keys q hq)
  rw [hn₅, hp₅]
  -- at the fork block the hearted characters go, and the bound drops to one
  generalize hr₆ : (if s.param.rules.IsForkHeight .LIFESTEAL (s.nHeight + 1) = true then
    s₅.RemoveHeartedCharacters res₅ else (s₅, res₅)) = r₆
  obtain ⟨s₆, res₆⟩ := r₆
  dsimp only
  have h₆ : s₆.Live (if s.param.rules.IsForkHeight .LIFESTEAL (s.nHeight + 1) then 1 else cap) ∧
      s₆.HeartsGone ∧ (∀ q, s₆.players.contains q = true → s.players.contains q = true) ∧
      s₆.nHeight = s.nHeight + 1 ∧ s₆.param = s.param := by
    split at hr₆
    · next hfork =>
      have hrem := @RemoveHeartedCharacters_live _ _ res₅ hl₅
      rw [hr₆] at hrem
      obtain ⟨hl₆, hh₆, hk₆, hn₆, hp₆⟩ := hrem
      rw [if_pos hfork]
      exact ⟨hl₆, fun _ => hh₆, fun q hq => hkeys₅ q (hk₆ q hq), hn₆.trans hn₅, hp₆.trans hp₅⟩
    · next hfork =>
      cases hr₆
      rw [if_neg hfork]
      refine ⟨hl₅, fun hl => ?_, hkeys₅, hn₅, hp₅⟩
      rw [hk₅.hearts, hfr₁.hearts]
      exact hgone (by rw [← hn₅, ← hp₅]; exact hl) (by simpa using hfork)
  obtain ⟨hl₆, hg₆, hkeys₆, hn₆, hp₆⟩ := h₆
  -- waypoints, walking, the crown and banking
  obtain ⟨hl₇, hfr₇⟩ := applyWaypoints_live d.vMoves hl₆
  obtain ⟨hl₈, hfr₈⟩ := moveCharacters_live w hl₇
  obtain ⟨hl₉, hfr₉⟩ := UpdateCrownState_live hl₈
  obtain ⟨hl₁₀, hk₁₀⟩ := Banking_late w res₆ hl₉
  have hfr := hfr₇.trans (hfr₈.trans hfr₉)
  exact ⟨hl₁₀.live, hl₁₀.crownHeld (UpdateCrownState_crownHeld _), hl₁₀.hearts (hg₆.of_frame hfr),
    fun q hq => hkeys₆ q (hfr.keys q (by rwa [hk₁₀] at hq)), hl₁₀.nHeight.trans (hfr.nHeight.trans hn₆),
    hl₁₀.param.trans (hfr.param.trans hp₆), hd₂⟩

/-- From a valid state, the part of a step before the random draws leaves a state ready
under the bound of the next height. -/
theorem Valid.ready {s : GameState} (h : s.Valid) (d : StepData)
    (hvalid : ∀ m ∈ d.vMoves, m.IsValid s = true) (hnd : (d.vMoves.map (·.player)).Nodup) :
    s.Ready (characterCap s.param.rules (s.nHeight + 1)) (PerformStepBeforeRandom w s d) := by
  have hfee : ∀ m ∈ d.vMoves, m.IsSpawn = false → ∀ pl, s.players.find? m.player = some pl →
      pl.lockedCoins ≤ m.newLocked :=
    fun m hm _ pl hpl => (Move.IsValid_of_find (hvalid m hm) hpl).2
  cases hfork : s.param.rules.IsForkHeight .LIFESTEAL (s.nHeight + 1)
  · -- an ordinary block: the bound of the next height holds already
    obtain ⟨hl, hg⟩ := h.next hfork
    have hready := PerformStepBeforeRandom_ready w d hl (fun hl' _ => hg hl') hfee hnd
    simpa [hfork] using hready
  · -- the fork block: the removal brings the bound down to one
    have hready := PerformStepBeforeRandom_ready w d h.live (fun _ hf => absurd hf (by simp [hfork])) hfee hnd
    rw [characterCap_of_forkInEffect (s.param.rules.forkInEffect_of_isForkHeight hfork)]
    simpa [hfork] using hready

/-- A state ready under the bound of its height is valid. -/
theorem Valid.of_ready {s : GameState} {p : StepProgress}
    (h : s.Ready (characterCap s.param.rules (s.nHeight + 1)) p) (hn : 0 ≤ s.nHeight + 1) :
    p.state.Valid :=
  Valid.of_live (by rw [h.nHeight, h.param]; exact h.live) h.crown h.hearts (by rw [h.nHeight]; exact hn)

/-! ## The random draws -/

/-- The chat of the dead players is read by no part of the invariant. -/
theorem LatePhase.deadChat {cap : Nat} {s : GameState} (h : s.Live cap) (c : OrdMap PlayerID PlayerState) :
    s.LatePhase cap { s with dead_players_chat := c } :=
  LatePhase.of_eq h rfl rfl rfl rfl rfl rfl rfl rfl

/-- The random part of a step, from a state left ready under the bound of the new height,
keeps the state live, the crown held and the hearts gone after the fork. -/
theorem PerformStepRandom_live {fuel : Nat} {inState : GameState} {d : StepData} {p : StepProgress}
    (hp : inState.Ready (characterCap inState.param.rules (inState.nHeight + 1)) p)
    (hvalid : ∀ m ∈ d.vMoves, m.IsValid inState = true) (hnd : (d.vMoves.map (·.player)).Nodup)
    (hn : 0 ≤ d.nTreasureAmount) (hh : 0 ≤ inState.nHeight + 1) {out : GameState} {r : StepResult}
    (hok : PerformStepRandom w fuel inState d p = .ok (out, r)) :
    out.Live (characterCap inState.param.rules (inState.nHeight + 1)) ∧ out.CrownHeld ∧
      out.HeartsGone ∧ out.nHeight = inState.nHeight + 1 ∧ out.param = inState.param := by
  have hcapSpawn : ∀ s' : GameState, s'.nHeight = inState.nHeight + 1 → s'.param = inState.param →
      s'.GetNumInitialCharacters ≤ characterCap inState.param.rules (inState.nHeight + 1) := by
    intro s' hn' hp'
    rw [← hn', ← hp']
    exact s'.GetNumInitialCharacters_le_characterCap
  have hcapHearts : ∀ s' : GameState, s'.nHeight = inState.nHeight + 1 → s'.param = inState.param →
      s'.HeartsGone → MAX_CHARACTERS_PER_PLAYER ≤ characterCap inState.param.rules (inState.nHeight + 1) ∨
        s'.hearts = .empty := by
    intro s' hn' hp' hg
    cases hl : inState.param.rules.ForkInEffect .LIFESTEAL (inState.nHeight + 1)
    · exact .inl (characterCap_of_not_forkInEffect hl).ge
    · exact .inr (hg (by rw [ForkInEffect, hn', hp']; exact hl))
  generalize characterCap inState.param.rules (inState.nHeight + 1) = cap at hp hcapSpawn hcapHearts ⊢
  unfold PerformStepRandom at hok
  dsimp only at hok
  -- the disaster
  generalize p.state.CheckForDisaster w (RandomGenerator.init w p.state.hashBlock) = r₀ at hok
  obtain ⟨isDisaster, g₀⟩ := r₀
  dsimp only at hok
  generalize hr₁ : (if isDisaster = true then p.state.ApplyDisaster w g₀ else (p.state, g₀)) = r₁ at hok
  obtain ⟨s₁, g₁⟩ := r₁
  have h₁ : p.state.LatePhase cap s₁ ∧ ∀ q, s₁.players.contains q = p.state.players.contains q := by
    split at hr₁
    · have hdis := ApplyDisaster_late w g₀ hp.live
      rw [hr₁] at hdis
      exact hdis
    · cases hr₁
      exact ⟨LatePhase.refl hp.live, fun _ => rfl⟩
  dsimp only at hok
  -- the drawn life, paid out after the fork
  generalize hr₂ : (if s₁.ForkInEffect .LIFESTEAL = true then
    p.attackedTiles.DistributeDrawnLife w g₁ s₁ else (s₁, g₁)) = r₂ at hok
  obtain ⟨s₂, g₂⟩ := r₂
  have h₂ : p.state.LatePhase cap s₂ ∧ ∀ q, s₂.players.contains q = p.state.players.contains q := by
    split at hr₂
    · have hdis := DistributeDrawnLife_late w p.attackedTiles g₁ h₁.1.live hp.drawn
      rw [hr₂] at hdis
      exact ⟨h₁.1.trans hdis.1, fun q => (hdis.2 q).trans (h₁.2 q)⟩
    · cases hr₂
      exact h₁
  dsimp only at hok
  have hn₂ : s₂.nHeight = inState.nHeight + 1 := h₂.1.nHeight.trans hp.nHeight
  have hp₂ : s₂.param = inState.param := h₂.1.param.trans hp.param
  -- the spawns, under names that no player of the state has
  have h₃ := applySpawns_late w d.vMoves g₂ h₂.1.live (hcapSpawn s₂ hn₂ hp₂) hnd fun m hm hsp => by
    obtain ⟨hfresh, hfee⟩ := Move.IsValid_spawn (hvalid m hm) hsp
    refine ⟨?_, by rw [hp₂, hn₂]; exact hfee⟩
    cases hc : s₂.players.contains m.player
    · rfl
    · have := hp.keys m.player (by rw [← h₂.2]; exact hc)
      rw [hfresh] at this
      cases this
  generalize d.vMoves.foldl (fun (acc : GameState × RandomGenerator) m =>
    if m.IsSpawn then m.ApplySpawn w acc.1 acc.2 else acc) (s₂, g₂) = r₃ at h₃ hok
  obtain ⟨s₃, g₃⟩ := r₃
  dsimp only at h₃ hok
  -- messages and addresses, and the colours of the dead players' chat
  have h₄ := h₂.1.trans (h₃.trans (applyCommon_late d.vMoves h₃.live))
  generalize d.vMoves.foldl (fun s m => m.ApplyCommon s) s₃ = s₄ at h₄ hok
  have h₅ := h₄.trans (LatePhase.deadChat h₄.live (s₄.dead_players_chat.mapVals fun pid pl =>
    { pl with color := (inState.players.getD pid default).color }))
  generalize ({ s₄ with dead_players_chat := s₄.dead_players_chat.mapVals fun pid pl => { pl with color := (inState.players.getD pid default).color } } : GameState) = s₅ at h₅ hok
  -- the treasure of the harvest areas, its division, and the crown bonus
  have h₆ := h₅.trans (List.foldl_invariant (fun acc : GameState × RandomGenerator => s₅.LatePhase cap acc.1)
    (dropTreasure w d.nTreasureAmount) (List.range NUM_HARVEST_AREAS)
    (fun acc i _ hacc => hacc.trans (dropTreasure_late w hn acc i hacc.live)) (s₅, g₃)
    (LatePhase.refl h₅.live))
  generalize (List.range NUM_HARVEST_AREAS).foldl (dropTreasure w d.nTreasureAmount) (s₅, g₃) = r₆ at h₆ hok
  obtain ⟨s₆, g₆⟩ := r₆
  dsimp only at h₆ hok
  -- past the assertion that the treasure is shared out whole
  split at hok
  · cases hok
  have hn₆ : 0 ≤ s₆.nHeight := by rw [h₆.nHeight, hp.nHeight]; exact hh
  have h₇ := h₆.trans (DivideLootAmongPlayers_late h₆.live hn₆)
  have hbonus : 0 ≤ (CROWN_BONUS * d.nTreasureAmount).tdiv TOTAL_HARVEST :=
    Int.tdiv_nonneg (mul_nonneg (by decide) hn) (by decide)
  have h₈ := h₇.trans (CrownBonus_late h₇.live (h₇.crownHeld hp.crown) hbonus
    (by rw [h₇.nHeight, hp.nHeight]; exact hh))
  -- the banks
  have h₉ := h₈.trans (UpdateBanks_late w g₆ h₈.live)
  generalize (s₆.DivideLootAmongPlayers.CrownBonus ((CROWN_BONUS * d.nTreasureAmount).tdiv TOTAL_HARVEST)).UpdateBanks w g₆ = r₉ at h₉ hok
  obtain ⟨s₉, g₉⟩ := r₉
  dsimp only at h₉ hok
  -- the heart drop, the hearts and the crown
  cases hdrop : DropHeartOnMap w fuel s₉ g₉ with
  | error e =>
    rw [hdrop] at hok
    cases hok
  | ok sg =>
    obtain ⟨s₁₀, g₁₀⟩ := sg
    rw [hdrop] at hok
    simp only [Except.map, Except.ok.injEq, Prod.mk.injEq] at hok
    obtain ⟨rfl, -⟩ := hok
    have h₁₀ := h₉.trans (DropHeartOnMap_late w h₉.live hdrop)
    have h₁₁ := h₁₀.trans (CollectHearts_late w g₁₀ h₁₀.live ?_)
    · obtain ⟨hl, hc, hhearts, hn', hp'⟩ := CollectCrown_live w (s₁₀.CollectHearts w g₁₀).2 p.respawn_crown
        h₁₁.live (h₁₁.crownHeld hp.crown)
      exact ⟨hl, hc, (h₁₁.hearts hp.hearts).of_eq hhearts hn' hp', hn'.trans (h₁₁.nHeight.trans hp.nHeight),
        hp'.trans (h₁₁.param.trans hp.param)⟩
    · exact hcapHearts s₁₀ (h₁₀.nHeight.trans hp.nHeight) (h₁₀.param.trans hp.param) (h₁₀.hearts hp.hearts)

/-! ## Steps and chains -/

/-- A successful step from a valid state, on moves of distinct players and a treasure that is
not negative, ends in a valid state. -/
theorem PerformStep_valid {fuel : Nat} {s : GameState} {d : StepData} (h : s.Valid)
    (hnd : (d.vMoves.map (·.player)).Nodup) (hn : 0 ≤ d.nTreasureAmount) {out : GameState}
    {r : StepResult} (hok : PerformStep w fuel s d = .ok (out, r)) : out.Valid := by
  have hh : 0 ≤ s.nHeight + 1 := by have := h.height; omega
  unfold PerformStep at hok
  split at hok
  · cases hok
  · next hvalid =>
    have hvalid' : ∀ m ∈ d.vMoves, m.IsValid s = true := by simpa using hvalid
    have hready := h.ready w d hvalid' hnd
    dsimp only at hok
    split at hok
    · -- a null hash: the state before the random draws is the result
      cases hok
      exact Valid.of_ready hready hh
    · split at hok
      · cases hok
      · next hrandom =>
        obtain ⟨hl, hc, hg, hn', hp'⟩ := PerformStepRandom_live w hready hvalid' hnd hn hh hrandom
        split at hok
        · cases hok
        · cases hok
          exact Valid.of_live (by rw [hn', hp']; exact hl) hc hg (by rw [hn']; exact hh)

end GameState

/-- Every game state of a chain is valid (`GameState.Valid`): every player has its general, at
most `MAX_CHARACTERS_PER_PLAYER` characters under indices below its next index, at most
`MAX_CHARACTERS_PER_PLAYER_TOTAL`, a life of `-1` or within `[1, POISON_MAX_LIFE]`, a value and
loot that are not negative and no refund; every loot tile holds coins; the fund is not
negative; the crown holder stands on the crown; and after the life-steal fork every player has
one character and there are no hearts. -/
theorem reachable_valid (param : Params) {s : GameState} (h : Reachable w param s) : s.Valid :=
  TransitionSystem.reachable_induction _ (fun s hs => hs ▸ GameState.Valid.init param)
    (fun _ _ _ _ hv ⟨hnd, _, hok⟩ => GameState.PerformStep_valid w hv hnd
      (mul_nonneg (GetBlockSubsidy_nonneg _ _) (by decide)) hok) h

/-- A move that spawns a player of the given colour, locking the name coin amount. -/
def spawnMove (player : PlayerID) (color : Nat) : Move :=
  ⟨player, COIN, none, none, none, color, .empty, .empty⟩

/-- Two players join in the first block of a main-net chain: the state after it, with their
characters spawned, is valid. -/
theorem reachable_valid_twoSpawns :
    ∃ s r, PerformStep World.flat 10 (GameState.init MainNetParams)
        (StepData.init (GameState.init MainNetParams) 7 [spawnMove "a" 0, spawnMove "b" 1]) = .ok (s, r) ∧
      s.players.size = 2 ∧ s.Valid := by
  -- the engine runs the block: both players join
  have hrun : (PerformStep World.flat 10 (GameState.init MainNetParams)
      (StepData.init (GameState.init MainNetParams) 7 [spawnMove "a" 0, spawnMove "b" 1])).toOption.any
        (fun p => p.1.players.size == 2) = true := by decide +kernel
  obtain ⟨⟨s, r⟩, hok, hsize⟩ := Except.exists_eq_ok_of_any hrun
  have hr : Reachable World.flat MainNetParams s :=
    TransitionSystem.Reachable.step (e := (10, 7, [spawnMove "a" 0, spawnMove "b" 1]))
      (TransitionSystem.Reachable.init rfl) ⟨by decide, r, hok⟩
  exact ⟨s, r, hok, by simpa using hsize, reachable_valid World.flat MainNetParams hr⟩

end Huntercore
