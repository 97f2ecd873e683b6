import Mathlib
import Huntercore.Game.Common

/-!
# The game state

The records of `game/state.h` — loot, characters, players, the game state itself,
kill reasons, step results and bounties — with their small member functions and the
fork-dependent rules of `state.cpp` (carrying capacity, destruct radius, spawn death,
hearts). The step that changes a state lives in the modules after this one.

`std::map` fields are `OrdMap`s, `std::set` fields `OrdSet`s, and the one
`std::multimap` of a step result (`killedBy`) is an entry list kept in multimap order.
-/

namespace Huntercore

/-! ## Loot -/

/-- `LootInfo`: an amount and the span of blocks over which it accumulated. -/
structure LootInfo where
  nAmount : Int
  firstBlock : Int
  lastBlock : Int
  deriving DecidableEq, Repr

/-- `LootInfo ()`. -/
instance : Inhabited LootInfo := ⟨⟨0, -1, -1⟩⟩

/-- `LootInfo (nAmount, nHeight)`. -/
def LootInfo.ofAmount (nAmount nHeight : Int) : LootInfo := ⟨nAmount, nHeight, nHeight⟩

/-- `CollectedLootInfo`: loot carried by a character, with the span of blocks in which it
was collected. A refund has `collectedFirstBlock = -1` and the refund height as
`collectedLastBlock`. -/
structure CollectedLootInfo extends LootInfo where
  collectedFirstBlock : Int
  collectedLastBlock : Int
  deriving DecidableEq, Repr

/-- `CollectedLootInfo ()`. -/
instance : Inhabited CollectedLootInfo := ⟨⟨default, -1, -1⟩⟩

namespace CollectedLootInfo

/-- `Collect (loot, nHeight)`: add a positive amount and widen both block spans. -/
def Collect (c : CollectedLootInfo) (loot : LootInfo) (nHeight : Int) : CollectedLootInfo :=
  if loot.nAmount ≤ 0 then c
  else
    { nAmount := c.nAmount + loot.nAmount
      firstBlock := if c.firstBlock < 0 || loot.firstBlock < c.firstBlock then loot.firstBlock
        else c.firstBlock
      lastBlock := if loot.lastBlock > c.lastBlock then loot.lastBlock else c.lastBlock
      collectedFirstBlock := if c.collectedFirstBlock < 0 then nHeight else c.collectedFirstBlock
      collectedLastBlock := nHeight }

/-- `SetRefund (refundAmount, nHeight)` on a fresh `CollectedLootInfo`. -/
def SetRefund (c : CollectedLootInfo) (refundAmount nHeight : Int) : CollectedLootInfo :=
  { c with nAmount := refundAmount, collectedLastBlock := nHeight }

/-- `IsRefund`. -/
def IsRefund (c : CollectedLootInfo) : Bool := c.nAmount > 0 && c.collectedFirstBlock == -1

/-- `GetRefundHeight`. -/
def GetRefundHeight (c : CollectedLootInfo) : Int := c.collectedLastBlock

end CollectedLootInfo

/-! ## Characters and players -/

/-- `CHARACTER_MODE_NORMAL` (after `FORK_TIMESAVE`). -/
def CHARACTER_MODE_NORMAL : Nat := 6
/-- `CHARACTER_MODE_LOGOUT`. -/
def CHARACTER_MODE_LOGOUT : Nat := 8
/-- `CHARACTER_MODE_SPECTATOR_BEGIN`. -/
def CHARACTER_MODE_SPECTATOR_BEGIN : Nat := 9

def CharacterIsProtected (s : Nat) : Bool :=
  s < CHARACTER_MODE_NORMAL || s > CHARACTER_MODE_LOGOUT

def CharacterSpawnProtectionAlmostFinished (s : Nat) : Bool := s == CHARACTER_MODE_NORMAL - 1

def CharacterInSpectatorMode (s : Nat) : Bool := s > CHARACTER_MODE_LOGOUT

def CharacterNoLogout (s : Nat) : Bool :=
  s != CHARACTER_MODE_LOGOUT && s < CHARACTER_MODE_SPECTATOR_BEGIN + 15

/-- `CharacterState`. `stay_in_spawn_area` is an `unsigned char`: its increments wrap
modulo 256. `from_` is the source's `from`. -/
structure CharacterState where
  coord : Coord
  dir : Nat
  from_ : Coord
  waypoints : List Coord
  loot : CollectedLootInfo
  stay_in_spawn_area : Nat
  deriving DecidableEq, Repr

/-- `CharacterState ()`. -/
instance : Inhabited CharacterState := ⟨⟨⟨0, 0⟩, 0, ⟨0, 0⟩, [], default, 0⟩⟩

/-- `StopMoving`. -/
def CharacterState.StopMoving (ch : CharacterState) : CharacterState :=
  { ch with from_ := ch.coord, waypoints := [] }

/-- `MAX_CHARACTERS_PER_PLAYER`. -/
def MAX_CHARACTERS_PER_PLAYER : Nat := 20
/-- `MAX_CHARACTERS_PER_PLAYER_TOTAL`. -/
def MAX_CHARACTERS_PER_PLAYER_TOTAL : Int := 1000

/-- `PlayerState`. -/
structure PlayerState where
  color : Nat
  lockedCoins : Int
  value : Int
  characters : OrdMap Int CharacterState
  next_character_index : Int
  remainingLife : Int
  message : String
  message_block : Int
  address : String
  addressLock : String
  deriving DecidableEq

/-- `PlayerState ()`. -/
instance : Inhabited PlayerState := ⟨⟨0xFF, 0, -1, .empty, 0, -1, "", 0, "", ""⟩⟩

/-- `CanSpawnCharacter`. -/
def PlayerState.CanSpawnCharacter (p : PlayerState) : Bool :=
  p.characters.size < MAX_CHARACTERS_PER_PLAYER
    && p.next_character_index < MAX_CHARACTERS_PER_PLAYER_TOTAL

/-! ## The game state -/

/-- `GameState`. `hashBlock` is a `uint256`, null when zero. -/
structure GameState where
  param : Params
  players : OrdMap PlayerID PlayerState
  dead_players_chat : OrdMap PlayerID PlayerState
  loot : OrdMap Coord LootInfo
  hearts : OrdSet Coord
  banks : OrdMap Coord Nat
  crownPos : Coord
  crownHolder : CharacterID
  gameFund : Int
  nHeight : Int
  nDisasterHeight : Int
  hashBlock : Nat

namespace GameState

/-- `ForkInEffect (type)` at the state's own height. -/
def ForkInEffect (s : GameState) (type : Fork) : Bool := s.param.rules.ForkInEffect type s.nHeight

def TestingRules (s : GameState) : Bool := s.param.rules.TestingRules

/-- `GetNumInitialCharacters`: three characters per new player before `FORK_POISON`. -/
def GetNumInitialCharacters (s : GameState) : Nat := if s.ForkInEffect .POISON then 1 else 3

/-- `IsBank`. -/
def IsBank (s : GameState) (c : Coord) : Bool := s.banks.contains c

/-- `GetCoinsOnMap`: loot on the map plus, for every player, its value and the loot its
characters carry. -/
def GetCoinsOnMap (s : GameState) : Int :=
  s.loot.sumBy (·.nAmount) +
    s.players.sumBy (fun p => p.value + p.characters.sumBy (·.loot.nAmount))

end GameState

/-- `SetOriginalBanks`: the tiles of the four original spawn corners, with life 0. -/
def SetOriginalBanks : OrdMap Coord Nat :=
  (List.range SPAWN_AREA_LENGTH.toNat).foldl
    (fun banks d =>
      let d : Int := d
      [(⟨0, d⟩ : Coord), ⟨d, 0⟩, ⟨MAP_WIDTH - 1, d⟩, ⟨d, MAP_HEIGHT - 1⟩,
        ⟨0, MAP_HEIGHT - d - 1⟩, ⟨MAP_WIDTH - d - 1, 0⟩, ⟨MAP_WIDTH - 1, MAP_HEIGHT - d - 1⟩,
        ⟨MAP_WIDTH - d - 1, MAP_HEIGHT - 1⟩].foldl (fun banks c => banks.insert c 0) banks)
    .empty

/-- `GameState (param)`: the state before the genesis block. -/
def GameState.init (p : Params) : GameState where
  param := p
  players := .empty
  dead_players_chat := .empty
  loot := .empty
  hearts := .empty
  banks := SetOriginalBanks
  crownPos := ⟨CROWN_START_X, CROWN_START_Y⟩
  crownHolder := default
  gameFund := 0
  nHeight := -1
  nDisasterHeight := -1
  hashBlock := 0

/-! ## Fork-dependent rules -/

/-- `GetCarryingCapacity`; `-1` means unlimited. -/
def GetCarryingCapacity (s : GameState) (isGeneral isCrownHolder : Bool) : Int :=
  if !s.ForkInEffect .CARRYINGCAP || isCrownHolder then -1
  else if s.ForkInEffect .LIFESTEAL then 100 * COIN
  else if s.ForkInEffect .LESSHEARTS then 2000 * COIN
  else (if isGeneral then 50 else 25) * COIN

/-- `GetDestructRadius`. -/
def GetDestructRadius (s : GameState) (isGeneral : Bool) : Int :=
  if s.ForkInEffect .LESSHEARTS then 1 else if isGeneral then 2 else 1

/-- `MaxStayOnBank`; `-1` disables spawn death. -/
def MaxStayOnBank (s : GameState) : Int :=
  if s.ForkInEffect .LIFESTEAL then 2
  else if s.ForkInEffect .CARRYINGCAP && !s.ForkInEffect .LESSHEARTS then -1
  else 30

/-- `DropHeart`. -/
def DropHeart (s : GameState) : Bool :=
  if s.ForkInEffect .LIFESTEAL then false
  else s.nHeight.tmod (if s.ForkInEffect .LESSHEARTS then 500 else 10) == 0

/-! ## Kill reasons and step results -/

/-- `KilledByInfo::Reason`, ordered as the source's enumeration. -/
inductive Reason
  | KILLED_DESTRUCT
  | KILLED_SPAWN
  | KILLED_POISON
  deriving DecidableEq, Repr

/-- `KilledByInfo`: the reason, and the killer for a destruct. -/
structure KilledByInfo where
  reason : Reason
  killer : CharacterID
  deriving DecidableEq, Repr

/-- `KilledByInfo (why)` for a reason other than destruct. -/
def KilledByInfo.ofReason (why : Reason) : KilledByInfo := ⟨why, default⟩

/-- `KilledByInfo (ch)`: killed by the destruct of `ch`. -/
def KilledByInfo.ofKiller (ch : CharacterID) : KilledByInfo := ⟨.KILLED_DESTRUCT, ch⟩

namespace KilledByInfo

/-- `HasDeathTax`: every death but spawn death pays the miner tax. -/
def HasDeathTax (info : KilledByInfo) : Bool := info.reason != .KILLED_SPAWN

/-- `DropCoins`: poisoned victims give their coins to the game fund after
`FORK_LESSHEARTS`. -/
def DropCoins (_info : KilledByInfo) (s : GameState) (victim : PlayerState) : Bool :=
  if !s.ForkInEffect .LESSHEARTS then true
  else if victim.remainingLife ≥ 0 then false
  else true

/-- `CanRefund`. -/
def CanRefund (info : KilledByInfo) (s : GameState) (victim : PlayerState) : Bool :=
  if !s.ForkInEffect .LESSHEARTS then false
  else
    match info.reason with
    | .KILLED_SPAWN => !(!s.ForkInEffect .LIFESTEAL && victim.remainingLife ≥ 0)
    | .KILLED_POISON => s.ForkInEffect .LIFESTEAL
    | .KILLED_DESTRUCT => false

end KilledByInfo

/-- `CollectedBounty`: banked or refunded coins of a character, with the address to pay. -/
structure CollectedBounty where
  character : CharacterID
  loot : CollectedLootInfo
  address : String
  deriving DecidableEq, Repr

/-- `UpdateAddress`: take the player's current address if the player is still alive. -/
def CollectedBounty.UpdateAddress (b : CollectedBounty) (s : GameState) : CollectedBounty :=
  match s.players.find? b.character.player with
  | some p => { b with address := p.address }
  | none => b

@[simp] theorem CollectedBounty.character_UpdateAddress (b : CollectedBounty) (s : GameState) :
    (b.UpdateAddress s).character = b.character := by
  unfold CollectedBounty.UpdateAddress
  split <;> rfl

@[simp] theorem CollectedBounty.loot_UpdateAddress (b : CollectedBounty) (s : GameState) :
    (b.UpdateAddress s).loot = b.loot := by
  unfold CollectedBounty.UpdateAddress
  split <;> rfl

/-- `StepResult`. -/
structure StepResult where
  killedPlayers : OrdSet PlayerID
  killedBy : List (PlayerID × KilledByInfo)
  bounties : List CollectedBounty
  nTaxAmount : Int

/-- `StepResult ()`. -/
instance : Inhabited StepResult := ⟨⟨.empty, [], [], 0⟩⟩

/-- `KillPlayer (victim, killer)`. -/
def StepResult.KillPlayer (r : StepResult) (victim : PlayerID) (killer : KilledByInfo) :
    StepResult :=
  { r with
    killedBy := Entries.insertMulti victim killer r.killedBy
    killedPlayers := r.killedPlayers.insert victim }

end Huntercore
