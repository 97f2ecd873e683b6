import Mathlib
import Huntercore.Game.Step

/-!
# The miner's tax is the validator's

A miner runs `PerformStep` with a null block hash to learn the tax it may add to the
coinbase, and a node connecting the block runs it with the block's hash. The step
writes the hash into the state at its start and returns early, for a null hash, after
banking. This module shows that nothing before that return reads the hash: every phase
commutes with changing it (`GameState.setHash`). So both runs agree on the tax, the killed
players and the bounties, and a coinbase the miner builds never pays more than the
validator allows.

The commutation proofs share one device: a state literal is normalised to
`(GameState.ofFields …).setHash h` (`GameState.mk_eq_setHash`), so that the phase lemmas
below apply to the states the phases build, and a changed hash moves to the outside.
-/

namespace Huntercore

namespace GameState

/-- The state with another block hash. -/
def setHash (s : GameState) (h : Nat) : GameState := { s with hashBlock := h }

/-- The state with the given fields and a null hash. -/
def ofFields (param : Params) (players dead_players_chat : OrdMap PlayerID PlayerState)
    (loot : OrdMap Coord LootInfo) (hearts : OrdSet Coord) (banks : OrdMap Coord Nat)
    (crownPos : Coord) (crownHolder : CharacterID) (gameFund nHeight nDisasterHeight : Int) :
    GameState :=
  ⟨param, players, dead_players_chat, loot, hearts, banks, crownPos, crownHolder, gameFund, nHeight,
    nDisasterHeight, 0⟩

theorem mk_eq_setHash (param players dead_players_chat loot hearts banks crownPos crownHolder gameFund
    nHeight nDisasterHeight hashBlock) :
    GameState.mk param players dead_players_chat loot hearts banks crownPos crownHolder gameFund
        nHeight nDisasterHeight hashBlock =
      (ofFields param players dead_players_chat loot hearts banks crownPos crownHolder gameFund
        nHeight nDisasterHeight).setHash hashBlock := rfl

section
variable (s : GameState) (h h' : Nat)
@[simp] theorem setHash_setHash : (s.setHash h).setHash h' = s.setHash h' := rfl
@[simp] theorem setHash_hashBlock : (s.setHash h).hashBlock = h := rfl
@[simp] theorem setHash_param : (s.setHash h).param = s.param := rfl
@[simp] theorem setHash_players : (s.setHash h).players = s.players := rfl
@[simp] theorem setHash_dead_players_chat :
    (s.setHash h).dead_players_chat = s.dead_players_chat := rfl
@[simp] theorem setHash_loot : (s.setHash h).loot = s.loot := rfl
@[simp] theorem setHash_hearts : (s.setHash h).hearts = s.hearts := rfl
@[simp] theorem setHash_banks : (s.setHash h).banks = s.banks := rfl
@[simp] theorem setHash_crownPos : (s.setHash h).crownPos = s.crownPos := rfl
@[simp] theorem setHash_crownHolder : (s.setHash h).crownHolder = s.crownHolder := rfl
@[simp] theorem setHash_gameFund : (s.setHash h).gameFund = s.gameFund := rfl
@[simp] theorem setHash_nHeight : (s.setHash h).nHeight = s.nHeight := rfl
@[simp] theorem setHash_nDisasterHeight : (s.setHash h).nDisasterHeight = s.nDisasterHeight := rfl
@[simp] theorem forkInEffect_setHash (f : Fork) : (s.setHash h).ForkInEffect f = s.ForkInEffect f := rfl
@[simp] theorem isBank_setHash (c : Coord) : (s.setHash h).IsBank c = s.IsBank c := rfl
@[simp] theorem canRefund_setHash (info : KilledByInfo) (p : PlayerState) :
    info.CanRefund (s.setHash h) p = info.CanRefund s p := rfl
@[simp] theorem dropCoins_setHash (info : KilledByInfo) (p : PlayerState) :
    info.DropCoins (s.setHash h) p = info.DropCoins s p := rfl
end

/-! ## The phases commute with the hash -/

theorem AddLoot_setHash (s : GameState) (h : Nat) (c : Coord) (x : Int) :
    (s.setHash h).AddLoot c x = (s.AddLoot c x).setHash h := by
  unfold AddLoot
  simp [mk_eq_setHash]
  repeat' split
  all_goals rfl

theorem HandleKilledLoot_setHash (s : GameState) (h : Nat) (pid : PlayerID) (i : Int)
    (info : KilledByInfo) (step : StepResult) :
    (s.setHash h).HandleKilledLoot pid i info step =
      ((s.HandleKilledLoot pid i info step).1.setHash h, (s.HandleKilledLoot pid i info step).2) := by
  unfold HandleKilledLoot
  simp [mk_eq_setHash, AddLoot_setHash]
  repeat' split
  all_goals rfl

theorem UpdateCrownState_setHash (s : GameState) (h : Nat) :
    (s.setHash h).UpdateCrownState = ((s.UpdateCrownState).1.setHash h, (s.UpdateCrownState).2) := by
  unfold UpdateCrownState
  -- the conditions are decided one by one: `split` would not see that those of both sides agree
  by_cases hc : s.crownHolder.player = ""
  · simp [hc]
  · cases hp : s.players.find? s.crownHolder.player with
    | none => simp [hc, hp, mk_eq_setHash]
    | some pl =>
      cases hch : pl.characters.find? s.crownHolder.index with
      | none => simp [hc, hp, hch, mk_eq_setHash]
      | some ch => by_cases hb : s.IsBank ch.coord <;> simp [hc, hp, hch, hb, mk_eq_setHash]

theorem DecrementLife_setHash (s : GameState) (h : Nat) (step : StepResult) :
    (s.setHash h).DecrementLife step = ((s.DecrementLife step).1.setHash h, (s.DecrementLife step).2) :=
  rfl

theorem finaliseKill_setHash (killedBy : List (PlayerID × KilledByInfo)) (s : GameState) (h : Nat)
    (step : StepResult) (victim : PlayerID) :
    finaliseKill killedBy (s.setHash h, step) victim =
      ((finaliseKill killedBy (s, step) victim).1.setHash h, (finaliseKill killedBy (s, step) victim).2) := by
  unfold finaliseKill
  simp only [setHash_players]
  split
  · apply List.foldl_map_fst (setHash · h)
    intro a c pc
    exact HandleKilledLoot_setHash a h _ _ _ c
  · rfl

theorem FinaliseKills_setHash (s : GameState) (h : Nat) (step : StepResult) :
    (s.setHash h).FinaliseKills step = ((s.FinaliseKills step).1.setHash h, (s.FinaliseKills step).2) := by
  unfold FinaliseKills
  dsimp only
  rw [List.foldl_map_fst (setHash · h) _ (fun a c v => finaliseKill_setHash _ a h c v)]
  rfl

theorem removeHeartedOf_setHash (s : GameState) (h : Nat) (step : StepResult) (pid : PlayerID) :
    removeHeartedOf (s.setHash h, step) pid =
      ((removeHeartedOf (s, step) pid).1.setHash h, (removeHeartedOf (s, step) pid).2) := by
  unfold removeHeartedOf
  simp only [setHash_players]
  rw [List.foldl_map_fst (setHash · h)
    (fun acc i => acc.1.HandleKilledLoot pid i (.ofReason .KILLED_POISON) acc.2)
    (fun a c i => HandleKilledLoot_setHash a h _ _ _ c)]
  rfl

theorem RemoveHeartedCharacters_setHash (s : GameState) (h : Nat) (step : StepResult) :
    (s.setHash h).RemoveHeartedCharacters step =
      ((s.RemoveHeartedCharacters step).1.setHash h, (s.RemoveHeartedCharacters step).2) :=
  List.foldl_map_fst (setHash · h) removeHeartedOf (fun a c pid => removeHeartedOf_setHash a h c pid) _
    { s with hearts := .empty } step

variable (w : World)

theorem killSpawnAreaOne_setHash (pid : PlayerID) (s : GameState) (h : Nat) (step : StepResult)
    (toErase : List Int) (pc : Int × CharacterState) :
    killSpawnAreaOne w pid (s.setHash h, step, toErase) pc =
      ((killSpawnAreaOne w pid (s, step, toErase) pc).1.setHash h,
        (killSpawnAreaOne w pid (s, step, toErase) pc).2) := by
  unfold killSpawnAreaOne
  have hrule : spawnAreaRule w (s.setHash h) pc.2 = spawnAreaRule w s pc.2 := rfl
  simp only [hrule]
  split
  · simp [mk_eq_setHash, HandleKilledLoot_setHash]
  · rfl

theorem killSpawnAreaOf_setHash (s : GameState) (h : Nat) (step : StepResult) (pid : PlayerID) :
    killSpawnAreaOf w (s.setHash h, step) pid =
      ((killSpawnAreaOf w (s, step) pid).1.setHash h, (killSpawnAreaOf w (s, step) pid).2) := by
  unfold killSpawnAreaOf
  simp only [setHash_players]
  rw [List.foldl_map_fst (setHash · h) (killSpawnAreaOne w pid)
    (fun a c pc => killSpawnAreaOne_setHash w pid a h c.1 c.2 pc)]
  rfl

theorem KillSpawnArea_setHash (s : GameState) (h : Nat) (step : StepResult) :
    (s.setHash h).KillSpawnArea w step =
      ((s.KillSpawnArea w step).1.setHash h, (s.KillSpawnArea w step).2) :=
  List.foldl_map_fst (setHash · h) (killSpawnAreaOf w) (fun a c pid => killSpawnAreaOf_setHash w a h c pid)
    _ s step

end GameState

namespace CharactersOnTiles

open GameState

theorem ApplyAttacks_setHash (t : CharactersOnTiles) (s : GameState) (h : Nat) (ms : List Move) :
    t.ApplyAttacks (s.setHash h) ms = t.ApplyAttacks s ms := rfl

theorem killCharacter_setHash (s : GameState) (h : Nat) (pid : PlayerID) (i : Int)
    (info : KilledByInfo) (r : StepResult) :
    (s.setHash h).killCharacter pid i info r =
      ((s.killCharacter pid i info r).1.setHash h, (s.killCharacter pid i info r).2) := by
  unfold GameState.killCharacter
  simp [mk_eq_setHash, HandleKilledLoot_setHash]

theorem drawLifeOne_setHash (lifeSteal : Bool) (damage : Int) (s : GameState) (h : Nat)
    (r : StepResult) (a : AttackableCharacter) :
    drawLifeOne lifeSteal damage (s.setHash h, r) a =
      (((drawLifeOne lifeSteal damage (s, r) a).1.1.setHash h, (drawLifeOne lifeSteal damage (s, r) a).1.2),
        (drawLifeOne lifeSteal damage (s, r) a).2) := by
  unfold drawLifeOne
  simp [mk_eq_setHash, killCharacter_setHash]
  repeat' split
  all_goals rfl

theorem DrawLife_setHash (t : CharactersOnTiles) (s : GameState) (h : Nat) (r : StepResult) :
    t.DrawLife (s.setHash h) r =
      ((t.DrawLife s r).1, (t.DrawLife s r).2.1.setHash h, (t.DrawLife s r).2.2) := by
  unfold DrawLife
  split
  · rfl
  · simp only [forkInEffect_setHash, setHash_param, setHash_nHeight]
    -- the loop carries the tiles drawn so far next to the state and the result
    have key := List.foldl_map_fst (fun sr : GameState × StepResult => (sr.1.setHash h, sr.2))
      (drawLifeTile (s.ForkInEffect .LIFESTEAL) (GetNameCoinAmount s.param s.nHeight))
      (fun sr c e => by unfold drawLifeTile; rw [drawLifeOne_setHash]) t.tiles (s, r) []
    dsimp only at key
    rw [key]

end CharactersOnTiles

open GameState

variable (w : World)

theorem payFee_setHash (s : GameState) (h : Nat) (moneyIn : Int) (m : Move) :
    payFee (s.setHash h, moneyIn) m = ((payFee (s, moneyIn) m).1.setHash h, (payFee (s, moneyIn) m).2) := by
  unfold payFee
  simp only [setHash_players]
  split
  · cases s.players.find? m.player <;> rfl
  · rfl

theorem payFees_setHash (s : GameState) (h : Nat) (ms : List Move) :
    payFees (s.setHash h) ms = ((payFees s ms).1.setHash h, (payFees s ms).2) :=
  List.foldl_map_fst (setHash · h) payFee (fun a c m => payFee_setHash a h c m) ms s 0

theorem Move.ApplyWaypoints_setHash (m : Move) (s : GameState) (h : Nat) :
    m.ApplyWaypoints (s.setHash h) = (m.ApplyWaypoints s).setHash h := by
  unfold Move.ApplyWaypoints
  simp only [setHash_players]
  split <;> rfl

theorem applyWaypoints_foldl_setHash (s : GameState) (h : Nat) (ms : List Move) :
    ms.foldl (fun s m => if !m.IsSpawn then m.ApplyWaypoints s else s) (s.setHash h) =
      (ms.foldl (fun s m => if !m.IsSpawn then m.ApplyWaypoints s else s) s).setHash h :=
  List.foldl_hom (setHash · h) (fun s m => by split <;> simp [Move.ApplyWaypoints_setHash])

theorem moveCharacter_setHash (s : GameState) (h : Nat) (ch : CharacterState) :
    moveCharacter w (s.setHash h) ch = moveCharacter w s ch := rfl

theorem Banking_setHash (s : GameState) (h : Nat) (step : StepResult) :
    Banking w (s.setHash h) step = ((Banking w s step).1.setHash h, (Banking w s step).2) := rfl

/-- A state-and-value branch whose arms both carry the same hash. -/
theorem ite_setHash_pair {α : Type} (c : Prop) [Decidable c] (a b : GameState) (x y : α) (h : Nat) :
    (if c then (a.setHash h, x) else (b.setHash h, y)) =
      ((if c then (a, x) else (b, y)).1.setHash h, (if c then (a, x) else (b, y)).2) := by
  split <;> rfl

/-- The deterministic part of a step depends on the block hash only through the hash it
writes into the state. -/
theorem PerformStepBeforeRandom_newHash (s : GameState) (d : StepData) (h : Nat) :
    PerformStepBeforeRandom w s { d with newHash := h } =
      let p := PerformStepBeforeRandom w s { d with newHash := 0 }
      { p with state := p.state.setHash h } := by
  have hinit : ({ s with nHeight := s.nHeight + 1, hashBlock := h, dead_players_chat := .empty } : GameState) =
      ({ s with nHeight := s.nHeight + 1, hashBlock := 0, dead_players_chat := .empty } : GameState).setHash h :=
    rfl
  simp only [PerformStepBeforeRandom, hinit, payFees_setHash, CharactersOnTiles.ApplyAttacks_setHash,
    forkInEffect_setHash, CharactersOnTiles.DrawLife_setHash, KillSpawnArea_setHash,
    DecrementLife_setHash, FinaliseKills_setHash, setHash_param, setHash_nHeight,
    RemoveHeartedCharacters_setHash, ite_setHash_pair, applyWaypoints_foldl_setHash,
    moveCharacter_setHash, setHash_players, mk_eq_setHash, UpdateCrownState_setHash, Banking_setHash,
    setHash_setHash]
  rfl

theorem PerformStepBeforeRandom_hashBlock (s : GameState) (d : StepData) :
    (PerformStepBeforeRandom w s d).state.hashBlock = d.newHash := by
  rw [PerformStepBeforeRandom_newHash w s d d.newHash]
  rfl

/-! ## The two runs of a step -/

/-- With a null hash a step with valid moves succeeds, with its deterministic part. -/
theorem PerformStep_nullHash (fuel : Nat) (s : GameState) (d : StepData)
    (hvalid : d.vMoves.all (·.IsValid s) = true) :
    PerformStep w fuel s { d with newHash := 0 } =
      .ok ((PerformStepBeforeRandom w s { d with newHash := 0 }).state,
        (PerformStepBeforeRandom w s { d with newHash := 0 }).result) := by
  have hhash := PerformStepBeforeRandom_hashBlock w s { d with newHash := 0 }
  unfold PerformStep
  simp only [hvalid, Bool.not_true, Bool.false_eq_true, if_false]
  rw [if_pos hhash]

theorem PerformStep_minerTax (fuel : Nat) (s : GameState) (d : StepData) (out : GameState)
    (r : StepResult) (hok : PerformStep w fuel s d = .ok (out, r)) :
    ∃ out₀ r₀, PerformStep w fuel s { d with newHash := 0 } = .ok (out₀, r₀) ∧
      r₀.nTaxAmount = r.nTaxAmount ∧ r₀.killedPlayers = r.killedPlayers ∧ r₀.killedBy = r.killedBy ∧
      r₀.bounties.map (fun b => (b.character, b.loot)) = r.bounties.map (fun b => (b.character, b.loot)) := by
  obtain ⟨hvalid, hr⟩ := PerformStep_eq_ok w fuel s d out r hok
  have hsame : (PerformStepBeforeRandom w s d).result =
      (PerformStepBeforeRandom w s { d with newHash := 0 }).result := by
    rw [PerformStepBeforeRandom_newHash w s d d.newHash]
  refine ⟨_, _, PerformStep_nullHash w fuel s d hvalid, ?_⟩
  rw [← hsame]
  rcases hr with rfl | ⟨s', rfl⟩
  · exact ⟨rfl, rfl, rfl, rfl⟩
  · refine ⟨rfl, rfl, rfl, ?_⟩
    simp only [List.map_map, Function.comp_def, CollectedBounty.character_UpdateAddress,
      CollectedBounty.loot_UpdateAddress]

/-- A main-net state before the first block in which one player's general carries loot of 1000 and
stands on `(0, 0)`, a tile of the original banks. -/
def bankerState : GameState :=
  { GameState.init MainNetParams with
    players := OrdMap.empty.insert "a"
      { (default : PlayerState) with
        color := 0
        value := COIN
        characters := OrdMap.empty.insert 0 ⟨⟨0, 0⟩, 0, ⟨0, 0⟩, [], ⟨⟨1000, 0, 0⟩, 0, 0⟩, 0⟩ } }

/-- The general banks its loot in the first block: the block pays a tax of 100 and a bounty, and the
miner learns the tax from the same step with a null hash. -/
theorem PerformStep_minerTax_banking :
    ∃ out r, PerformStep World.flat 10 bankerState (StepData.init bankerState 7 []) = .ok (out, r) ∧
      r.nTaxAmount = 100 ∧ r.bounties.length = 1 ∧
      ∃ out₀ r₀, PerformStep World.flat 10 bankerState { StepData.init bankerState 7 [] with newHash := 0 } =
          .ok (out₀, r₀) ∧
        r₀.nTaxAmount = r.nTaxAmount ∧ r₀.killedPlayers = r.killedPlayers ∧ r₀.killedBy = r.killedBy ∧
        r₀.bounties.map (fun b => (b.character, b.loot)) = r.bounties.map (fun b => (b.character, b.loot)) := by
  -- the engine runs the block with its hash
  have hrun : (PerformStep World.flat 10 bankerState (StepData.init bankerState 7 [])).toOption.any
      (fun p => p.2.nTaxAmount == 100 && p.2.bounties.length == 1) = true := by decide +kernel
  obtain ⟨⟨out, r⟩, hok, hcheck⟩ := Except.exists_eq_ok_of_any hrun
  simp only [Bool.and_eq_true, beq_iff_eq] at hcheck
  exact ⟨out, r, hok, hcheck.1, hcheck.2,
    PerformStep_minerTax World.flat 10 bankerState (StepData.init bankerState 7 []) out r hok⟩

end Huntercore
