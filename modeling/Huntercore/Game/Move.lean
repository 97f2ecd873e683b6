import Mathlib
import Huntercore.Game.Loot

/-!
# Moves

A `Move` is what one name update in a block asks of the game: spawn a player, or set
waypoints, destruct characters, send a message and change the reward address. This
module holds its validity rule, the minimum game fee, and the three parts of applying
it that `PerformStep` runs at different points of a step (`ApplyWaypoints`,
`ApplySpawn`, `ApplyCommon`), as in `game/move.cpp`. Parsing a move from its JSON text
is in `Game.MoveParse`.
-/

namespace Huntercore

variable (w : World)

/-- `Move`. A spawn has a colour; every other move has colour `0xFF`. -/
structure Move where
  player : PlayerID
  newLocked : Int
  message : Option String
  address : Option String
  addressLock : Option String
  color : Nat
  waypoints : OrdMap Int (List Coord)
  destruct : OrdSet Int

namespace Move

def IsSpawn (m : Move) : Bool := m.color != 0xFF

/-- `MinimumGameFee (param, nHeight)`: the name coin amount (plus a fee after the
life-steal fork) for a spawn, and a fee per destruct after it. -/
def MinimumGameFee (m : Move) (param : Params) (nHeight : Int) : Int :=
  if m.IsSpawn then
    let coinAmount := GetNameCoinAmount param nHeight
    if param.rules.ForkInEffect .TIMESAVE nHeight then coinAmount + COIN
    else if param.rules.ForkInEffect .LIFESTEAL nHeight then coinAmount + 5 * COIN
    else coinAmount
  else if param.rules.ForkInEffect .TIMESAVE nHeight then COIN * m.destruct.size
  else if param.rules.ForkInEffect .LIFESTEAL nHeight then 20 * COIN * m.destruct.size
  else 0

/-- `IsValid (state)`: a spawn names a new player and a move an existing one, and the
increase of the locked amount pays the minimum game fee of the next block. -/
def IsValid (m : Move) (s : GameState) : Bool :=
  match s.players.find? m.player with
  | none => m.IsSpawn && decide (m.newLocked - 0 ≥ m.MinimumGameFee s.param (s.nHeight + 1))
  | some p =>
    !m.IsSpawn && decide (m.newLocked - p.lockedCoins ≥ m.MinimumGameFee s.param (s.nHeight + 1))

/-- `ApplyCommon (state)`: message and address updates; a dead player's message is kept in
`dead_players_chat`. -/
def ApplyCommon (m : Move) (s : GameState) : GameState :=
  match s.players.find? m.player with
  | none =>
    match m.message with
    | some msg =>
      let pl := s.dead_players_chat.getD m.player default
      { s with dead_players_chat :=
          s.dead_players_chat.insert m.player { pl with message := msg, message_block := s.nHeight } }
    | none => s
  | some pl =>
    let pl := match m.message with
      | some msg => { pl with message := msg, message_block := s.nHeight }
      | none => pl
    let pl := match m.address with
      | some a => { pl with address := a }
      | none => pl
    let pl := match m.addressLock with
      | some a => { pl with addressLock := a }
      | none => pl
    { s with players := s.players.insert m.player pl }

/-- `ApplySpawn (state, rnd)`: the new player and its initial characters. After the
life-steal fork its value is the name coin amount and the overpayment goes to the game
fund. -/
def ApplySpawn (m : Move) (s : GameState) (g : RandomGenerator) : GameState × RandomGenerator :=
  let (pl, s) :=
    if s.ForkInEffect .LIFESTEAL then
      let coinAmount := GetNameCoinAmount s.param s.nHeight
      ({ (default : PlayerState) with color := m.color, value := coinAmount, lockedCoins := m.newLocked },
        { s with gameFund := s.gameFund + (m.newLocked - coinAmount) })
    else
      ({ (default : PlayerState) with color := m.color, value := m.newLocked, lockedCoins := m.newLocked }, s)
  let (pl, g) :=
    (List.range s.GetNumInitialCharacters).foldl (fun acc _ => acc.1.SpawnCharacter w s acc.2) (pl, g)
  ({ s with players := s.players.insert m.player pl }, g)

/-- The waypoints update of one character: `from` restarts unless the final target is
unchanged. -/
def setWaypoints (ch : CharacterState) (wp : List Coord) : CharacterState :=
  let ch :=
    if ch.waypoints = [] || wp = [] || ch.waypoints.getLast? != wp.getLast? then
      { ch with from_ := ch.coord }
    else ch
  { ch with waypoints := wp }

/-- `ApplyWaypoints (state)`: new waypoints for the player's living characters. -/
def ApplyWaypoints (m : Move) (s : GameState) : GameState :=
  match s.players.find? m.player with
  | none => s
  | some pl =>
    let chars := m.waypoints.entries.foldl
      (fun chars e =>
        match chars.find? e.1 with
        | some ch => chars.insert e.1 (setWaypoints ch e.2)
        | none => chars)
      pl.characters
    { s with players := s.players.insert m.player { pl with characters := chars } }

/-! ### Moves of different players commute -/

/-- The waypoints of two players can be set in either order. -/
theorem ApplyWaypoints_comm (a b : Move) (s : GameState) (h : a.player ≠ b.player) :
    a.ApplyWaypoints (b.ApplyWaypoints s) = b.ApplyWaypoints (a.ApplyWaypoints s) := by
  -- each move reads and writes its own player only
  rcases hpa : s.players.find? a.player with _ | pa <;>
    rcases hpb : s.players.find? b.player with _ | pb <;>
    simp [ApplyWaypoints, hpa, hpb, OrdMap.find?_insert_of_ne _ _ h,
      OrdMap.find?_insert_of_ne _ _ (Ne.symm h), OrdMap.insert_comm _ h]

/-- The messages and addresses of two players can be updated in either order. -/
theorem ApplyCommon_comm (a b : Move) (s : GameState) (h : a.player ≠ b.player) :
    a.ApplyCommon (b.ApplyCommon s) = b.ApplyCommon (a.ApplyCommon s) := by
  -- a living player's entry and a dead player's chat entry are written at its own name
  unfold ApplyCommon
  rcases hpa : s.players.find? a.player with _ | pa <;>
    rcases hpb : s.players.find? b.player with _ | pb <;>
    cases a.message <;> cases b.message <;>
    simp [hpa, hpb, OrdMap.getD, OrdMap.find?_insert_of_ne _ _ h,
      OrdMap.find?_insert_of_ne _ _ (Ne.symm h), OrdMap.insert_comm _ h]

end Move

/-- The game part of `StepData`: the treasure of the block, its hash (null when the miner
computes the step before the block exists) and the moves. -/
structure StepData where
  nTreasureAmount : Int
  newHash : Nat
  vMoves : List Move

/-- `StepData (state)`: the treasure is nine times the block subsidy. -/
def StepData.init (s : GameState) (newHash : Nat) (vMoves : List Move) : StepData :=
  ⟨GetBlockSubsidy (s.nHeight + 1) s.param * 9, newHash, vMoves⟩

end Huntercore
