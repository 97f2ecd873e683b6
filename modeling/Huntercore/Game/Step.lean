import Mathlib
import Huntercore.Lib.Control
import Huntercore.Lib.System
import Huntercore.Game.Kills

/-!
# The game step

`PerformStep` of `game/state.cpp`, split at the point where the source returns early for
a null block hash: `PerformStepBeforeRandom` is everything up to banking, which a miner
runs to learn the tax of the block, and `PerformStepRandom` is the rest, seeded by the
hash. Heart drops draw random tiles until one fits; that loop is bounded by a fuel
argument, and running out of it is reported as a failure of its own.
-/

namespace Huntercore

variable (w : World)

/-- One move in the fee loop of `PerformStep`: the fee it pays on top of the locked amount
goes to the game fund; `moneyIn` counts these fees and the locked amounts of spawns. -/
def payFee (acc : GameState × Int) (m : Move) : GameState × Int :=
  let (s, moneyIn) := acc
  if !m.IsSpawn then
    match s.players.find? m.player with
    | none => acc
    | some pl =>
      let newFee := m.newLocked - pl.lockedCoins
      ({ s with
          gameFund := s.gameFund + newFee
          players := s.players.insert m.player { pl with lockedCoins := m.newLocked } },
        moneyIn + newFee)
  else (s, moneyIn + m.newLocked)

/-- The fee loop of `PerformStep`, with the money it brings in. -/
def payFees (s : GameState) (vMoves : List Move) : GameState × Int :=
  vMoves.foldl payFee (s, 0)

/-- The fees of two players can be paid in either order. -/
theorem payFee_comm (acc : GameState × Int) (a b : Move) (h : a.player ≠ b.player) :
    payFee (payFee acc a) b = payFee (payFee acc b) a := by
  obtain ⟨s, moneyIn⟩ := acc
  -- each move reads and writes its own player only, and adds its fee to two sums
  cases ha : a.IsSpawn <;> cases hb : b.IsSpawn <;>
    rcases hpa : s.players.find? a.player with _ | pa <;>
    rcases hpb : s.players.find? b.player with _ | pb <;>
    simp [payFee, ha, hb, hpa, hpb, OrdMap.find?_insert_of_ne _ _ h,
      OrdMap.find?_insert_of_ne _ _ (Ne.symm h), OrdMap.insert_comm _ h, add_right_comm]

/-- Path-finding of one character: after `FORK_TIMESAVE` a spectator cannot move and a
character that moves loses its spawn protection. -/
def moveCharacter (s : GameState) (ch : CharacterState) : CharacterState :=
  let ch :=
    if s.ForkInEffect .TIMESAVE && !ch.waypoints.isEmpty then
      if CharacterInSpectatorMode ch.stay_in_spawn_area then ch.StopMoving
      else { ch with stay_in_spawn_area := CHARACTER_MODE_NORMAL }
    else ch
  ch.MoveTowardsWaypoint w

/-- Whether a character banks its loot: loot on a bank, or after `FORK_TIMESAVE` on a
player spawn tile. -/
def IsBankingTile (s : GameState) (ch : CharacterState) : Bool :=
  (ch.loot.nAmount > 0 && s.IsBank ch.coord) ||
    (s.ForkInEffect .TIMESAVE && ch.loot.nAmount > 0 && IsInsideMap ch.coord.x ch.coord.y &&
      w.SpawnMap ch.coord.y ch.coord.x &&& SPAWNMAPFLAG_PLAYER != 0)

/-- Banking of one character: its loot less a 10% tax becomes a bounty. -/
def bankCharacter (s : GameState) (pid : PlayerID) (address : String) (step : StepResult)
    (i : Int) (ch : CharacterState) : CharacterState × StepResult :=
  if IsBankingTile w s ch then
    let nTax := ch.loot.nAmount.tdiv 10
    let loot := { ch.loot with nAmount := ch.loot.nAmount - nTax }
    ({ ch with loot := default },
      { step with
        nTaxAmount := step.nTaxAmount + nTax
        bounties := step.bounties ++ [⟨⟨pid, i⟩, loot, address⟩] })
  else (ch, step)

/-- The banking loop of `PerformStep`, over all characters in player and index order. -/
def Banking (s : GameState) (step : StepResult) : GameState × StepResult :=
  let (players, step) := s.players.mapAccum
    (fun step pid pl =>
      let (chars, step) := pl.characters.mapAccum (bankCharacter w s pid pl.address) step
      ({ pl with characters := chars }, step))
    step
  ({ s with players := players }, step)

/-- What `PerformStep` has computed when it reaches the null-hash return: the state and
step result, the attacked tiles (whose drawn life is paid out later), whether the crown
respawns, and the money paid in by the moves. -/
structure StepProgress where
  state : GameState
  result : StepResult
  attackedTiles : CharactersOnTiles
  respawn_crown : Bool
  moneyIn : Int

/-- `PerformStep` from the copy of the state up to banking. -/
def PerformStepBeforeRandom (inState : GameState) (stepData : StepData) : StepProgress :=
  let s := { inState with
    nHeight := inState.nHeight + 1
    hashBlock := stepData.newHash
    dead_players_chat := .empty }
  let (s, moneyIn) := payFees s stepData.vMoves
  let tiles := (default : CharactersOnTiles).ApplyAttacks s stepData.vMoves
  let tiles := if s.ForkInEffect .LIFESTEAL then tiles.DefendMutualAttacks else tiles
  let (tiles, s, step) := tiles.DrawLife s default
  let (s, step) := s.KillSpawnArea w step
  let (s, step) := s.DecrementLife step
  let (s, step) := s.FinaliseKills step
  let (s, step) :=
    if s.param.rules.IsForkHeight .LIFESTEAL s.nHeight then s.RemoveHeartedCharacters step
    else (s, step)
  let s := stepData.vMoves.foldl (fun s m => if !m.IsSpawn then m.ApplyWaypoints s else s) s
  let s := { s with players := s.players.mapVals fun _ pl =>
    { pl with characters := pl.characters.mapVals fun _ ch => moveCharacter w s ch } }
  let (s, respawn_crown) := s.UpdateCrownState
  let (s, step) := Banking w s step
  ⟨s, step, tiles, respawn_crown, moneyIn⟩

/-- The treasure of one harvest area, dropped on a random tile of it. -/
def dropTreasure (nTreasureAmount : Int) (acc : GameState × RandomGenerator) (i : Nat) :
    GameState × RandomGenerator :=
  let (a, g) := acc.2.GetIntRnd w (HarvestAreaSizes.getD i 0)
  let harvest := (w.HarvestAreas i).getD a default
  let nTreasure := (HarvestPortions.getD i 0 * nTreasureAmount).tdiv TOTAL_HARVEST
  (acc.1.AddLoot harvest nTreasure, g)

/-- The `do … while` loop of the heart drop: draw tiles until a walkable one outside the
original spawn area comes up, at most `fuel` times. -/
def drawHeartTile : Nat → RandomGenerator → Option Coord × RandomGenerator
  | 0, g => (none, g)
  | fuel + 1, g =>
    let (x, g) := g.GetIntRnd w MAP_WIDTH.toNat
    let (y, g) := g.GetIntRnd w MAP_HEIGHT.toNat
    let heart : Coord := ⟨x, y⟩
    if !w.IsWalkableCoord heart || IsOriginalSpawnAreaCoord heart then drawHeartTile fuel g
    else (some heart, g)

/-- `nTotalTreasure`: what the loop over the harvest areas drops in all, each area its
portion of the treasure in 1/900, rounded towards zero. -/
def totalTreasure (nTreasureAmount : Int) : Int :=
  ((List.range NUM_HARVEST_AREAS).map fun i =>
    (HarvestPortions.getD i 0 * nTreasureAmount).tdiv TOTAL_HARVEST).sum

/-- Why `PerformStep` fails: a move is not valid, the coins before and after the step do not
match, or the heart drop ran out of draws; `treasureMismatch` is the failed assertion that the
harvest areas and the crown bonus share out the whole treasure, which aborts the node. -/
inductive StepError
  | invalidMove
  | moneyMismatch
  | outOfFuel
  | treasureMismatch
  deriving DecidableEq, Repr

/-- The heart drop of `PerformStep` (before the life-steal fork): a heart on a random walkable
tile outside the original spawn area. -/
def DropHeartOnMap (fuel : Nat) (s : GameState) (g : RandomGenerator) :
    Except StepError (GameState × RandomGenerator) :=
  if DropHeart s then
    match drawHeartTile w fuel g with
    | (some heart, g) => .ok ({ s with hearts := s.hearts.insert heart }, g)
    | (none, _) => .error .outOfFuel
  else .ok (s, g)

/-- `PerformStep` from the seeding of the random generator to the crown, given the progress
made before it. -/
def PerformStepRandom (fuel : Nat) (inState : GameState) (stepData : StepData)
    (p : StepProgress) : Except StepError (GameState × StepResult) :=
  let s := p.state
  let g := RandomGenerator.init w s.hashBlock
  let (isDisaster, g) := s.CheckForDisaster w g
  let (s, g) := if isDisaster then s.ApplyDisaster w g else (s, g)
  let (s, g) :=
    if s.ForkInEffect .LIFESTEAL then p.attackedTiles.DistributeDrawnLife w g s else (s, g)
  let (s, g) := stepData.vMoves.foldl
    (fun (acc : GameState × RandomGenerator) m => if m.IsSpawn then m.ApplySpawn w acc.1 acc.2 else acc)
    (s, g)
  let s := stepData.vMoves.foldl (fun s m => m.ApplyCommon s) s
  -- a bounty goes to the address its player has after this step's address updates
  let step := { p.result with bounties := p.result.bounties.map (·.UpdateAddress s) }
  let s := { s with dead_players_chat := s.dead_players_chat.mapVals fun pid pl =>
    { pl with color := (inState.players.getD pid default).color } }
  let nCrownBonus := (CROWN_BONUS * stepData.nTreasureAmount).tdiv TOTAL_HARVEST
  let (s, g) := (List.range NUM_HARVEST_AREAS).foldl (dropTreasure w stepData.nTreasureAmount) (s, g)
  if totalTreasure stepData.nTreasureAmount + nCrownBonus ≠ stepData.nTreasureAmount then
    .error .treasureMismatch
  else
  let s := s.DivideLootAmongPlayers
  let s := s.CrownBonus nCrownBonus
  let (s, g) := s.UpdateBanks w g
  (DropHeartOnMap w fuel s g).map fun (s, g) =>
    let (s, g) := s.CollectHearts w g
    let (s, _) := s.CollectCrown w g p.respawn_crown
    (s, step)

/-- The coins that leave the game world in a step: the tax and the bounties. -/
def StepResult.moneyOut (step : StepResult) : Int :=
  step.nTaxAmount + (step.bounties.map (·.loot.nAmount)).sum

/-- `PerformStep (inState, stepData, outState, stepResult)`. -/
def PerformStep (fuel : Nat) (inState : GameState) (stepData : StepData) :
    Except StepError (GameState × StepResult) :=
  if !stepData.vMoves.all (·.IsValid inState) then .error .invalidMove
  else
    let p := PerformStepBeforeRandom w inState stepData
    -- miners leave the hash null to learn the tax, which is known at this point
    if p.state.hashBlock = 0 then .ok (p.state, p.result)
    else
      match PerformStepRandom w fuel inState stepData p with
      | .error e => .error e
      | .ok (outState, stepResult) =>
        let moneyBefore := inState.GetCoinsOnMap + inState.gameFund
        let moneyAfter := outState.GetCoinsOnMap + outState.gameFund
        if moneyBefore + stepData.nTreasureAmount + p.moneyIn ≠ moneyAfter + stepResult.moneyOut then
          .error .moneyMismatch
        else .ok (outState, stepResult)

/-- The game of a chain as a transition system: it starts from the state before the genesis
block, and a block is a successful `PerformStep` on the step data of its transactions, whose
moves name distinct players (`StepData::addTransaction` rejects a name it has seen). An event
is the fuel of the heart drop, the block hash and the moves. -/
def GameSystem (param : Params) : TransitionSystem GameState (Nat × Nat × List Move) where
  init s := s = GameState.init param
  step s e s' := (e.2.2.map (·.player)).Nodup ∧
    ∃ r, PerformStep w e.1 s (StepData.init s e.2.1 e.2.2) = .ok (s', r)

/-- The game states of a chain. -/
def Reachable (param : Params) (s : GameState) : Prop := (GameSystem w param).Reachable s

/-- The random part of a step changes nothing in the step result but the addresses of the
bounties. -/
theorem PerformStepRandom_result (fuel : Nat) (inState : GameState) (d : StepData) (p : StepProgress)
    (out : GameState) (r : StepResult) (hok : PerformStepRandom w fuel inState d p = .ok (out, r)) :
    ∃ s', r = { p.result with bounties := p.result.bounties.map (·.UpdateAddress s') } := by
  unfold PerformStepRandom at hok
  dsimp only at hok
  split at hok
  · cases hok
  · exact ⟨_, Except.snd_of_map_pair_eq_ok hok⟩

/-- What a successful step returns: the step result of its deterministic part, with the
bounty addresses updated when the hash is not null. -/
theorem PerformStep_eq_ok (fuel : Nat) (s : GameState) (d : StepData) (out : GameState)
    (r : StepResult) (hok : PerformStep w fuel s d = .ok (out, r)) :
    d.vMoves.all (·.IsValid s) = true ∧
      (r = (PerformStepBeforeRandom w s d).result ∨
        ∃ s', r = { (PerformStepBeforeRandom w s d).result with
          bounties := (PerformStepBeforeRandom w s d).result.bounties.map (·.UpdateAddress s') }) := by
  unfold PerformStep at hok
  split at hok
  · cases hok
  · next hvalid =>
    refine ⟨by simpa using hvalid, ?_⟩
    dsimp only at hok
    split at hok
    · cases hok
      exact .inl rfl
    · split at hok
      · cases hok
      · next hrandom =>
        split at hok
        · cases hok
        · cases hok
          exact .inr (PerformStepRandom_result w fuel s d _ _ _ hrandom)

end Huntercore
