import Mathlib
import Huntercore.Game.Character

/-!
# Loot, the crown and hearts

The members of `GameState` that move coins and items between the map and the
characters: `AddLoot`, `HandleKilledLoot` (the fate of a killed character's coins),
`DivideLootAmongPlayers` (collection, up to the carrying capacity), the crown
(`UpdateCrownState`, `CrownBonus`, `CollectCrown`) and `CollectHearts`.

Where the source indexes a `std::map` with `operator[]`, which inserts a default value
for a missing key, the model does the same.
-/

namespace Huntercore

variable (w : World)

/-- `CrownSpawn`: the tiles where the crown reappears, in the source's order. -/
def CrownSpawn : List Coord :=
  [⟨103, 95⟩, ⟨104, 95⟩, ⟨105, 95⟩, ⟨106, 95⟩, ⟨394, 95⟩, ⟨395, 95⟩, ⟨396, 95⟩, ⟨397, 95⟩,
    ⟨102, 96⟩, ⟨103, 96⟩, ⟨104, 96⟩, ⟨105, 96⟩, ⟨106, 96⟩, ⟨107, 96⟩, ⟨393, 96⟩, ⟨394, 96⟩,
    ⟨395, 96⟩, ⟨396, 96⟩, ⟨397, 96⟩, ⟨398, 96⟩, ⟨102, 97⟩, ⟨103, 97⟩, ⟨104, 97⟩, ⟨105, 97⟩,
    ⟨106, 97⟩, ⟨107, 97⟩, ⟨393, 97⟩, ⟨394, 97⟩, ⟨395, 97⟩, ⟨396, 97⟩, ⟨397, 97⟩, ⟨398, 97⟩,
    ⟨102, 98⟩, ⟨103, 98⟩, ⟨104, 98⟩, ⟨105, 98⟩, ⟨106, 98⟩, ⟨107, 98⟩, ⟨173, 98⟩, ⟨174, 98⟩,
    ⟨175, 98⟩, ⟨176, 98⟩, ⟨324, 98⟩, ⟨325, 98⟩, ⟨326, 98⟩, ⟨327, 98⟩, ⟨393, 98⟩, ⟨394, 98⟩,
    ⟨395, 98⟩, ⟨396, 98⟩, ⟨397, 98⟩, ⟨398, 98⟩, ⟨102, 99⟩, ⟨103, 99⟩, ⟨104, 99⟩, ⟨105, 99⟩,
    ⟨106, 99⟩, ⟨107, 99⟩, ⟨172, 99⟩, ⟨173, 99⟩, ⟨174, 99⟩, ⟨175, 99⟩, ⟨176, 99⟩, ⟨177, 99⟩,
    ⟨323, 99⟩, ⟨324, 99⟩, ⟨325, 99⟩, ⟨326, 99⟩, ⟨327, 99⟩, ⟨328, 99⟩, ⟨393, 99⟩, ⟨394, 99⟩,
    ⟨395, 99⟩, ⟨396, 99⟩, ⟨397, 99⟩, ⟨398, 99⟩, ⟨103, 100⟩, ⟨104, 100⟩, ⟨105, 100⟩, ⟨106, 100⟩,
    ⟨172, 100⟩, ⟨173, 100⟩, ⟨174, 100⟩, ⟨175, 100⟩, ⟨176, 100⟩, ⟨177, 100⟩, ⟨323, 100⟩, ⟨324, 100⟩,
    ⟨325, 100⟩, ⟨326, 100⟩, ⟨327, 100⟩, ⟨328, 100⟩, ⟨394, 100⟩, ⟨395, 100⟩, ⟨396, 100⟩, ⟨397, 100⟩,
    ⟨172, 101⟩, ⟨173, 101⟩, ⟨174, 101⟩, ⟨175, 101⟩, ⟨176, 101⟩, ⟨177, 101⟩, ⟨323, 101⟩, ⟨324, 101⟩,
    ⟨325, 101⟩, ⟨326, 101⟩, ⟨327, 101⟩, ⟨328, 101⟩, ⟨172, 102⟩, ⟨173, 102⟩, ⟨174, 102⟩, ⟨175, 102⟩,
    ⟨176, 102⟩, ⟨177, 102⟩, ⟨323, 102⟩, ⟨324, 102⟩, ⟨325, 102⟩, ⟨326, 102⟩, ⟨327, 102⟩, ⟨328, 102⟩,
    ⟨173, 103⟩, ⟨174, 103⟩, ⟨175, 103⟩, ⟨176, 103⟩, ⟨324, 103⟩, ⟨325, 103⟩, ⟨326, 103⟩, ⟨327, 103⟩,
    ⟨107, 171⟩, ⟨108, 171⟩, ⟨109, 171⟩, ⟨110, 171⟩, ⟨390, 171⟩, ⟨391, 171⟩, ⟨392, 171⟩, ⟨393, 171⟩,
    ⟨106, 172⟩, ⟨107, 172⟩, ⟨108, 172⟩, ⟨109, 172⟩, ⟨110, 172⟩, ⟨111, 172⟩, ⟨389, 172⟩, ⟨390, 172⟩,
    ⟨391, 172⟩, ⟨392, 172⟩, ⟨393, 172⟩, ⟨394, 172⟩, ⟨106, 173⟩, ⟨107, 173⟩, ⟨108, 173⟩, ⟨109, 173⟩,
    ⟨110, 173⟩, ⟨111, 173⟩, ⟨389, 173⟩, ⟨390, 173⟩, ⟨391, 173⟩, ⟨392, 173⟩, ⟨393, 173⟩, ⟨394, 173⟩,
    ⟨106, 174⟩, ⟨107, 174⟩, ⟨108, 174⟩, ⟨109, 174⟩, ⟨110, 174⟩, ⟨111, 174⟩, ⟨389, 174⟩, ⟨390, 174⟩,
    ⟨391, 174⟩, ⟨392, 174⟩, ⟨393, 174⟩, ⟨394, 174⟩, ⟨106, 175⟩, ⟨107, 175⟩, ⟨108, 175⟩, ⟨109, 175⟩,
    ⟨110, 175⟩, ⟨111, 175⟩, ⟨389, 175⟩, ⟨390, 175⟩, ⟨391, 175⟩, ⟨392, 175⟩, ⟨393, 175⟩, ⟨394, 175⟩,
    ⟨107, 176⟩, ⟨108, 176⟩, ⟨109, 176⟩, ⟨110, 176⟩, ⟨390, 176⟩, ⟨391, 176⟩, ⟨392, 176⟩, ⟨393, 176⟩,
    ⟨249, 246⟩, ⟨250, 246⟩, ⟨251, 246⟩, ⟨252, 246⟩, ⟨248, 247⟩, ⟨249, 247⟩, ⟨250, 247⟩, ⟨251, 247⟩,
    ⟨252, 247⟩, ⟨253, 247⟩, ⟨248, 248⟩, ⟨249, 248⟩, ⟨250, 248⟩, ⟨251, 248⟩, ⟨252, 248⟩, ⟨253, 248⟩,
    ⟨248, 249⟩, ⟨249, 249⟩, ⟨250, 249⟩, ⟨251, 249⟩, ⟨252, 249⟩, ⟨253, 249⟩, ⟨248, 250⟩, ⟨249, 250⟩,
    ⟨250, 250⟩, ⟨251, 250⟩, ⟨252, 250⟩, ⟨253, 250⟩, ⟨249, 251⟩, ⟨250, 251⟩, ⟨251, 251⟩, ⟨252, 251⟩,
    ⟨107, 324⟩, ⟨108, 324⟩, ⟨109, 324⟩, ⟨110, 324⟩, ⟨390, 324⟩, ⟨391, 324⟩, ⟨392, 324⟩, ⟨393, 324⟩,
    ⟨106, 325⟩, ⟨107, 325⟩, ⟨108, 325⟩, ⟨109, 325⟩, ⟨110, 325⟩, ⟨111, 325⟩, ⟨389, 325⟩, ⟨390, 325⟩,
    ⟨391, 325⟩, ⟨392, 325⟩, ⟨393, 325⟩, ⟨394, 325⟩, ⟨106, 326⟩, ⟨107, 326⟩, ⟨108, 326⟩, ⟨109, 326⟩,
    ⟨110, 326⟩, ⟨111, 326⟩, ⟨389, 326⟩, ⟨390, 326⟩, ⟨391, 326⟩, ⟨392, 326⟩, ⟨393, 326⟩, ⟨394, 326⟩,
    ⟨106, 327⟩, ⟨107, 327⟩, ⟨108, 327⟩, ⟨109, 327⟩, ⟨110, 327⟩, ⟨111, 327⟩, ⟨389, 327⟩, ⟨390, 327⟩,
    ⟨391, 327⟩, ⟨392, 327⟩, ⟨393, 327⟩, ⟨394, 327⟩, ⟨106, 328⟩, ⟨107, 328⟩, ⟨108, 328⟩, ⟨109, 328⟩,
    ⟨110, 328⟩, ⟨111, 328⟩, ⟨389, 328⟩, ⟨390, 328⟩, ⟨391, 328⟩, ⟨392, 328⟩, ⟨393, 328⟩, ⟨394, 328⟩,
    ⟨107, 329⟩, ⟨108, 329⟩, ⟨109, 329⟩, ⟨110, 329⟩, ⟨390, 329⟩, ⟨391, 329⟩, ⟨392, 329⟩, ⟨393, 329⟩,
    ⟨173, 397⟩, ⟨174, 397⟩, ⟨175, 397⟩, ⟨176, 397⟩, ⟨324, 397⟩, ⟨325, 397⟩, ⟨326, 397⟩, ⟨327, 397⟩,
    ⟨172, 398⟩, ⟨173, 398⟩, ⟨174, 398⟩, ⟨175, 398⟩, ⟨176, 398⟩, ⟨177, 398⟩, ⟨323, 398⟩, ⟨324, 398⟩,
    ⟨325, 398⟩, ⟨326, 398⟩, ⟨327, 398⟩, ⟨328, 398⟩, ⟨172, 399⟩, ⟨173, 399⟩, ⟨174, 399⟩, ⟨175, 399⟩,
    ⟨176, 399⟩, ⟨177, 399⟩, ⟨323, 399⟩, ⟨324, 399⟩, ⟨325, 399⟩, ⟨326, 399⟩, ⟨327, 399⟩, ⟨328, 399⟩,
    ⟨103, 400⟩, ⟨104, 400⟩, ⟨105, 400⟩, ⟨106, 400⟩, ⟨172, 400⟩, ⟨173, 400⟩, ⟨174, 400⟩, ⟨175, 400⟩,
    ⟨176, 400⟩, ⟨177, 400⟩, ⟨323, 400⟩, ⟨324, 400⟩, ⟨325, 400⟩, ⟨326, 400⟩, ⟨327, 400⟩, ⟨328, 400⟩,
    ⟨394, 400⟩, ⟨395, 400⟩, ⟨396, 400⟩, ⟨397, 400⟩, ⟨102, 401⟩, ⟨103, 401⟩, ⟨104, 401⟩, ⟨105, 401⟩,
    ⟨106, 401⟩, ⟨107, 401⟩, ⟨172, 401⟩, ⟨173, 401⟩, ⟨174, 401⟩, ⟨175, 401⟩, ⟨176, 401⟩, ⟨177, 401⟩,
    ⟨323, 401⟩, ⟨324, 401⟩, ⟨325, 401⟩, ⟨326, 401⟩, ⟨327, 401⟩, ⟨328, 401⟩, ⟨393, 401⟩, ⟨394, 401⟩,
    ⟨395, 401⟩, ⟨396, 401⟩, ⟨397, 401⟩, ⟨398, 401⟩, ⟨102, 402⟩, ⟨103, 402⟩, ⟨104, 402⟩, ⟨105, 402⟩,
    ⟨106, 402⟩, ⟨107, 402⟩, ⟨173, 402⟩, ⟨174, 402⟩, ⟨175, 402⟩, ⟨176, 402⟩, ⟨324, 402⟩, ⟨325, 402⟩,
    ⟨326, 402⟩, ⟨327, 402⟩, ⟨393, 402⟩, ⟨394, 402⟩, ⟨395, 402⟩, ⟨396, 402⟩, ⟨397, 402⟩, ⟨398, 402⟩,
    ⟨102, 403⟩, ⟨103, 403⟩, ⟨104, 403⟩, ⟨105, 403⟩, ⟨106, 403⟩, ⟨107, 403⟩, ⟨393, 403⟩, ⟨394, 403⟩,
    ⟨395, 403⟩, ⟨396, 403⟩, ⟨397, 403⟩, ⟨398, 403⟩, ⟨102, 404⟩, ⟨103, 404⟩, ⟨104, 404⟩, ⟨105, 404⟩,
    ⟨106, 404⟩, ⟨107, 404⟩, ⟨393, 404⟩, ⟨394, 404⟩, ⟨395, 404⟩, ⟨396, 404⟩, ⟨397, 404⟩, ⟨398, 404⟩,
    ⟨103, 405⟩, ⟨104, 405⟩, ⟨105, 405⟩, ⟨106, 405⟩, ⟨394, 405⟩, ⟨395, 405⟩, ⟨396, 405⟩, ⟨397, 405⟩]

namespace GameState

/-- `AddLoot (coord, nAmount)`: add to the loot on a tile; a tile whose amount drops to
zero disappears. -/
def AddLoot (s : GameState) (coord : Coord) (nAmount : Int) : GameState :=
  if nAmount = 0 then s
  else
    match s.loot.find? coord with
    | some li =>
      if li.nAmount + nAmount = 0 then { s with loot := s.loot.erase coord }
      else { s with loot := s.loot.insert coord { li with nAmount := li.nAmount + nAmount, lastBlock := s.nHeight } }
    | none => { s with loot := s.loot.insert coord (LootInfo.ofAmount nAmount s.nHeight) }

end GameState

/-- `PushCoordOutOfSpawnArea`: move loot off the original spawn strips. -/
def PushCoordOutOfSpawnArea (c : Coord) : Coord :=
  if !IsOriginalSpawnAreaCoord c then c
  else if c.x = 0 then
    if c.y = 0 then ⟨c.x + 1, c.y + 1⟩
    else if c.y = MAP_HEIGHT - 1 then ⟨c.x + 1, c.y - 1⟩
    else ⟨c.x + 1, c.y⟩
  else if c.x = MAP_WIDTH - 1 then
    if c.y = 0 then ⟨c.x - 1, c.y + 1⟩
    else if c.y = MAP_HEIGHT - 1 then ⟨c.x - 1, c.y - 1⟩
    else ⟨c.x - 1, c.y⟩
  else if c.y = 0 then ⟨c.x, c.y + 1⟩
  else if c.y = MAP_HEIGHT - 1 then ⟨c.x, c.y - 1⟩
  else c

namespace GameState

/-- `HandleKilledLoot (pId, chInd, info, step)`: a general's locked value is refunded in a
bounty when the reason allows it and otherwise joins the character's loot; the miner tax
(4%) is taken for every reason but spawn death, and the rest goes to the game fund for
poisoned victims and is dropped on the map otherwise. -/
def HandleKilledLoot (s : GameState) (pId : PlayerID) (chInd : Int) (info : KilledByInfo)
    (step : StepResult) : GameState × StepResult :=
  match s.players.find? pId with
  | none => (s, step)
  | some pc =>
    match pc.characters.find? chInd with
    | none => (s, step)
    | some ch =>
      let refunded := chInd = 0 && info.CanRefund s pc
      let step :=
        if refunded then
          { step with bounties := step.bounties ++
              [⟨⟨pId, chInd⟩, (default : CollectedLootInfo).SetRefund pc.value s.nHeight, pc.address⟩] }
        else step
      let nAmount := ch.loot.nAmount + (if chInd = 0 && !refunded then pc.value else 0)
      let nTax := if info.HasDeathTax then nAmount.tdiv 25 else 0
      let step := { step with nTaxAmount := step.nTaxAmount + nTax }
      let nAmount := nAmount - nTax
      if !info.DropCoins s pc then ({ s with gameFund := s.gameFund + nAmount }, step)
      else
        let lootPos := if !s.ForkInEffect .LIFESTEAL then PushCoordOutOfSpawnArea ch.coord else ch.coord
        (s.AddLoot lootPos nAmount, step)

/-! ## Dividing loot -/

/-- `CharacterOnLootTile`: a character standing on loot, with its carrying capacity. -/
structure CharacterOnLootTile where
  pid : PlayerID
  cid : Int
  coord : Coord
  carried : Int
  carryCap : Int

/-- `GetRemainingCapacity`; `-1` for unlimited. -/
def CharacterOnLootTile.GetRemainingCapacity (c : CharacterOnLootTile) : Int :=
  if c.carryCap = -1 then -1
  else if c.carryCap < c.carried then 0
  else c.carryCap - c.carried

/-- `operator<` of `CharacterOnLootTile`: by increasing remaining capacity (unlimited last),
then by player and character. -/
def CharacterOnLootTile.lt (a b : CharacterOnLootTile) : Bool :=
  let remA := a.GetRemainingCapacity
  let remB := b.GetRemainingCapacity
  if remA = remB then (if a.pid ≠ b.pid then a.pid < b.pid else a.cid < b.cid)
  else if remA = -1 then false
  else if remB = -1 then true
  else remA < remB

/-- Whether a character on `coord` is ghosted (collects nothing) at the state's height, after
`FORK_TIMESAVE`. -/
def IsGhosted (s : GameState) (coord : Coord) : Bool :=
  s.ForkInEffect .TIMESAVE &&
    ((coord.x.tmod 2 + coord.y.tmod 2 > 1 && s.nHeight.tmod 500 ≥ 300)
      || (coord.x.tmod 2 + coord.y.tmod 2 > 0 && s.nHeight.tmod 500 ≥ 450)
      || s.nHeight.tmod 500 ≥ 480)

/-- The characters that collect loot in this step, in player and character order. -/
def lootCollectors (s : GameState) : List CharacterOnLootTile :=
  s.players.entries.flatMap fun p =>
    (p.2.characters.entries.filter fun pc =>
        !s.IsGhosted pc.2.coord && s.loot.contains pc.2.coord).map fun pc =>
      { pid := p.1, cid := pc.1, coord := pc.2.coord, carried := pc.2.loot.nAmount
        carryCap := GetCarryingCapacity s (pc.1 == (0 : Int))
          (p.1 == s.crownHolder.player && pc.1 == s.crownHolder.index) }

/-- One collector takes its share of the loot on its tile: the amount divided by the number
of collectors still to come on that tile. -/
def collectShare (acc : GameState × OrdMap Coord Int) (c : CharacterOnLootTile) :
    GameState × OrdMap Coord Int :=
  let (s, counts) := acc
  let n := counts.getD c.coord 0
  let counts := counts.insert c.coord (n - 1)
  -- `loot[coord]` inserts an empty entry for a tile that has gone
  let (lootInfo, s) :=
    match s.loot.find? c.coord with
    | some li => (li, s)
    | none => (default, { s with loot := s.loot.insert c.coord default })
  let lootInfo := { lootInfo with nAmount := lootInfo.nAmount.tdiv n }
  if lootInfo.nAmount > 0 then
    let p := s.players.getD c.pid default
    let (ch, rem) := (p.characters.getD c.cid default).CollectLoot lootInfo s.nHeight c.carryCap
    let s := { s with players := s.players.insert c.pid { p with characters := p.characters.insert c.cid ch } }
    (s.AddLoot c.coord (rem - lootInfo.nAmount), counts)
  else (s, counts)

/-- `DivideLootAmongPlayers`: collectors sorted by increasing remaining capacity take their
shares in turn, so a share a full character leaves behind goes to the others. -/
def DivideLootAmongPlayers (s : GameState) : GameState :=
  let collectors := s.lootCollectors
  let counts := collectors.foldl (fun m c => m.insert c.coord (m.getD c.coord 0 + 1)) OrdMap.empty
  let sorted := collectors.mergeSort (fun a b => !CharacterOnLootTile.lt b a)
  (sorted.foldl collectShare (s, counts)).1

/-! ## The crown -/

/-- `UpdateCrownState`: drop the crown of a dead holder, or of one that entered a bank (then
it respawns), and otherwise move it with its holder. -/
def UpdateCrownState (s : GameState) : GameState × Bool :=
  if s.crownHolder.player = "" then (s, false)
  else
    match s.players.find? s.crownHolder.player with
    | none => ({ s with crownHolder := default }, false)
    | some pl =>
      match pl.characters.find? s.crownHolder.index with
      | none => ({ s with crownHolder := default }, false)
      | some ch =>
        if s.IsBank ch.coord then ({ s with crownHolder := default }, true)
        else ({ s with crownPos := ch.coord }, false)

/-- `CrownBonus (nAmount)`: the crown holder collects the bonus; without a holder it goes
to the game fund. -/
def CrownBonus (s : GameState) (nAmount : Int) : GameState :=
  if s.crownHolder.player ≠ "" then
    let p := s.players.getD s.crownHolder.player default
    let ch := p.characters.getD s.crownHolder.index default
    let cap := GetCarryingCapacity s (s.crownHolder.index == (0 : Int)) true
    let (ch, rem) := ch.CollectLoot (LootInfo.ofAmount nAmount s.nHeight) s.nHeight cap
    { s with
      players := s.players.insert s.crownHolder.player
        { p with characters := p.characters.insert s.crownHolder.index ch }
      gameFund := s.gameFund + rem }
  else { s with gameFund := s.gameFund + nAmount }

/-- The characters standing on the crown's tile, in player and character order. -/
def charactersOnTile (s : GameState) (c : Coord) : List CharacterID :=
  s.players.entries.flatMap fun p =>
    (p.2.characters.entries.filter fun pc => pc.2.coord = c).map fun pc => ⟨p.1, pc.1⟩

/-- `CollectCrown (rnd, respawn_crown)`: respawn the crown if needed and give it to a random
character on its tile. -/
def CollectCrown (s : GameState) (g : RandomGenerator) (respawn_crown : Bool) :
    GameState × RandomGenerator :=
  if s.crownHolder.player ≠ "" then (s, g)
  else
    let (s, g) :=
      if respawn_crown then
        let (a, g) := g.GetIntRnd w NUM_CROWN_LOCATIONS
        ({ s with crownPos := CrownSpawn.getD a default }, g)
      else (s, g)
    let onTile := s.charactersOnTile s.crownPos
    if onTile = [] then (s, g)
    else
      let (i, g) := if onTile.length = 1 then (0, g) else g.GetIntRnd w onTile.length
      ({ s with crownHolder := onTile.getD i default }, g)

/-! ## Hearts -/

/-- The players (with repetition, one entry per character) standing on each heart, for the
players that may still spawn a character. -/
def playersOnHeartTile (s : GameState) : OrdMap Coord (List PlayerID) :=
  s.players.entries.foldl
    (fun m p =>
      if !p.2.CanSpawnCharacter then m
      else
        p.2.characters.entries.foldl
          (fun m pc =>
            if s.hearts.contains pc.2.coord then m.insert pc.2.coord (m.getD pc.2.coord [] ++ [p.1])
            else m)
          m)
    OrdMap.empty

/-- The random choice of `CollectHearts` among the players on one heart: draw until one that
may still spawn a character comes up, dropping the others. -/
def pickHeartCollector (s : GameState) (g : RandomGenerator) :
    Nat → List PlayerID → Option PlayerID × RandomGenerator
  | 0, _ => (none, g)
  | fuel + 1, v =>
    if v = [] then (none, g)
    else
      let (i, g) := if v.length = 1 then (0, g) else g.GetIntRnd w v.length
      let pid := v.getD i ""
      if (s.players.getD pid default).CanSpawnCharacter then (some pid, g)
      else pickHeartCollector s g fuel (v.eraseIdx i)

/-- `CollectHearts (rnd)`: on each heart a random player standing there spawns a new
character, and the heart disappears. -/
def CollectHearts (s : GameState) (g : RandomGenerator) : GameState × RandomGenerator :=
  (s.playersOnHeartTile).entries.foldl
    (fun acc e =>
      let (s, g) := acc
      match pickHeartCollector w s g e.2.length e.2 with
      | (none, g) => (s, g)
      | (some pid, g) =>
        let (p, g) := (s.players.getD pid default).SpawnCharacter w s g
        ({ s with players := s.players.insert pid p, hearts := s.hearts.erase e.1 }, g))
    (s, g)

end GameState

end Huntercore
