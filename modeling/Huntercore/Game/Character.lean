import Mathlib
import Huntercore.Game.State

/-!
# Characters: spawning, walking and collecting loot

`CharacterState::Spawn`, `MoveTowardsWaypoint` and `CollectLoot` of `state.cpp`, with
`PlayerState::SpawnCharacter` and the lists of walkable tiles that spawning and the
dynamic banks choose from.
-/

namespace Huntercore

variable (w : World)

/-! ## Walkable tiles -/

/-- `FillWalkableArray`: the walkable tiles satisfying `predicate`, in `Coord` order. -/
def FillWalkableArray (predicate : Int → Int → Bool) : List Coord :=
  (((List.range MAP_WIDTH.toNat).flatMap fun x =>
      (List.range MAP_HEIGHT.toNat).map fun y => (⟨x, y⟩ : Coord)).filter
    (fun c => w.IsWalkable c.x c.y && predicate c.x c.y)).mergeSort (· ≤ ·)

/-- `walkableTiles`. -/
def walkableTiles : List Coord := FillWalkableArray w (fun _ _ => true)

/-- `walkableTiles_ts_players`: spawn tiles after `FORK_TIMESAVE`. -/
def walkableTiles_ts_players : List Coord :=
  FillWalkableArray w (fun x y => w.SpawnMap y x &&& SPAWNMAPFLAG_PLAYER != 0)

/-- `walkableTiles_ts_banks`: bank tiles after `FORK_TIMESAVE`. -/
def walkableTiles_ts_banks : List Coord :=
  FillWalkableArray w (fun x y => w.SpawnMap y x &&& SPAWNMAPFLAG_BANK != 0)

/-! ## Spawning -/

/-- A random look direction `1 … 9` other than `5`. -/
def randomDir (g : RandomGenerator) : Nat × RandomGenerator :=
  let (d, g) := g.GetIntRndRange w 1 8
  (if d ≥ 5 then (d + 1).toNat else d.toNat, g)

/-- The look direction of a character spawned at the map's border, facing inwards; `dir`
is kept elsewhere. -/
def borderDir (coord : Coord) (dir : Nat) : Nat :=
  if coord.x = 0 then
    if coord.y = 0 then 3 else if coord.y = MAP_HEIGHT - 1 then 9 else 6
  else if coord.x = MAP_WIDTH - 1 then
    if coord.y = 0 then 1 else if coord.y = MAP_HEIGHT - 1 then 7 else 4
  else if coord.y = 0 then 2
  else if coord.y = MAP_HEIGHT - 1 then 8
  else dir

/-- `CharacterState::Spawn (state, color, rnd)`. Before `FORK_LIFESTEAL` characters spawn in
their colour's corner; the source throws on a colour above 3, which `Move::Parse` never
admits, and the model keeps the coordinate there. -/
def CharacterState.Spawn (ch : CharacterState) (s : GameState) (color : Nat)
    (g : RandomGenerator) : CharacterState × RandomGenerator :=
  if s.ForkInEffect .TIMESAVE then
    let tiles := walkableTiles_ts_players w
    let (pos, g) := g.GetIntRnd w tiles.length
    let (dir, g) := randomDir w g
    ({ ch with coord := tiles.getD pos default, dir := dir }.StopMoving, g)
  else if s.ForkInEffect .LIFESTEAL then
    let tiles := walkableTiles w
    let (pos, g) := g.GetIntRnd w tiles.length
    let (dir, g) := randomDir w g
    ({ ch with coord := tiles.getD pos default, dir := dir }.StopMoving, g)
  else
    let (pos, g) := g.GetIntRnd w (2 * SPAWN_AREA_LENGTH - 1).toNat
    let pos : Int := pos
    let x := if pos < SPAWN_AREA_LENGTH then pos else 0
    let y := if pos < SPAWN_AREA_LENGTH then 0 else pos - SPAWN_AREA_LENGTH
    let coord : Coord :=
      match color with
      | 0 => ⟨x, y⟩
      | 1 => ⟨MAP_WIDTH - 1 - x, y⟩
      | 2 => ⟨MAP_WIDTH - 1 - x, MAP_HEIGHT - 1 - y⟩
      | 3 => ⟨x, MAP_HEIGHT - 1 - y⟩
      | _ => ch.coord
    -- under the regtest rules everyone starts in the yellow corner
    let coord : Coord := if s.TestingRules then ⟨x, y⟩ else coord
    ({ ch with coord := coord, dir := borderDir coord ch.dir }.StopMoving, g)

/-- `PlayerState::SpawnCharacter`: a fresh character under the next index. -/
def PlayerState.SpawnCharacter (p : PlayerState) (s : GameState) (g : RandomGenerator) :
    PlayerState × RandomGenerator :=
  let (ch, g) := (default : CharacterState).Spawn w s p.color g
  ({ p with
      characters := p.characters.insert p.next_character_index ch
      next_character_index := p.next_character_index + 1 }, g)

/-! ## Walking -/

/-- `GetDirection (c1, c2)`: the keypad digit of the step from `c1` towards `c2`. -/
def GetDirection (c1 c2 : Coord) : Nat :=
  let dx := max (-1) (min 1 (c2.x - c1.x))
  let dy := max (-1) (min 1 (c2.y - c1.y))
  ((1 - dy) * 3 + dx + 2).toNat

/-- `Helper::CoordStep`: one step of `x` towards `target`. -/
def CoordStep (x target : Int) : Int :=
  if x < target then x + 1 else if x > target then x - 1 else x

/-- `Helper::CoordUpd`: the minor coordinate on the line from `from` for major coordinate
`u`, rounded half away from zero (`/` of `int` truncates towards zero). -/
def CoordUpd (u v du dv from_u from_v : Int) : Int :=
  if dv ≠ 0 then
    let tmp := (u - from_u) * dv
    let res := (|tmp| + |du| / 2).tdiv du
    (if tmp < 0 then -res else res) + from_v
  else v

/-- Pop every trailing waypoint equal to `c` (waypoints are stored reversed, so the next
one is the last). -/
def popReached (c : Coord) (wps : List Coord) : List Coord :=
  (wps.reverse.dropWhile (· == c)).reverse

/-- `MoveTowardsWaypoint`: one step along the straight line from `from` to the next
waypoint, stopping in front of an obstacle. -/
def CharacterState.MoveTowardsWaypoint (ch : CharacterState) : CharacterState :=
  match ch.waypoints.getLast? with
  | none => { ch with from_ := ch.coord }
  | some back =>
    let ch :=
      if ch.coord = back then { ch with from_ := ch.coord, waypoints := popReached ch.coord ch.waypoints }
      else ch
    match ch.waypoints.getLast? with
    | none => ch
    | some target =>
      let dx := target.x - ch.from_.x
      let dy := target.y - ch.from_.y
      let new_c : Coord :=
        if |dx| > |dy| then
          let nx := CoordStep ch.coord.x target.x
          ⟨nx, CoordUpd nx ch.coord.y dx dy ch.from_.x ch.from_.y⟩
        else
          let ny := CoordStep ch.coord.y target.y
          ⟨CoordUpd ny ch.coord.x dy dx ch.from_.y ch.from_.x, ny⟩
      if !w.IsWalkableCoord new_c then ch.StopMoving
      else
        let new_dir := GetDirection ch.coord new_c
        let ch := { ch with dir := if new_dir != 5 then new_dir else ch.dir, coord := new_c }
        if new_c = target then { ch with from_ := new_c, waypoints := popReached new_c ch.waypoints }
        else ch

/-! ## Collecting loot -/

/-- `CollectLoot (newLoot, nHeight, carryCap)`: collect up to the carrying capacity
(`-1` for none) and return the character with the amount left over. -/
def CharacterState.CollectLoot (ch : CharacterState) (newLoot : LootInfo) (nHeight carryCap : Int) :
    CharacterState × Int :=
  let freeCap := max (carryCap - ch.loot.nAmount) 0
  let remaining := if carryCap = -1 || newLoot.nAmount ≤ freeCap then 0 else newLoot.nAmount - freeCap
  let newLoot := if remaining > 0 then { newLoot with nAmount := newLoot.nAmount - remaining } else newLoot
  ({ ch with loot := ch.loot.Collect newLoot nHeight }, remaining)

end Huntercore
