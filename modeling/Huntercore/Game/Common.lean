import Mathlib
import Huntercore.Lib.OrdMap

/-!
# Common game types: forks, coordinates, characters and the block-hash RNG

The vocabulary of `game/common.h`, `game/map.h` and `consensus/params.h` that the
game engine of `game/state.cpp` is written in.

* Fork activation (`ConsensusRules.ForkInEffect`). All three rule sets of the source
  (`MainNetConsensus`, `TestNetConsensus`, `RegTestConsensus`) activate each fork at a
  fixed height, in the order of the `Fork` enumeration; a `ConsensusRules` value is
  such a schedule, and the order is one of its fields.
* `Coord` and `CharacterID`, with the orders their `operator<` define: these orders
  decide the iteration order of every `std::map` keyed by them.
* `RandomGenerator`, the block-hash seeded generator. Its hash (`SerializeHash`, a
  double SHA-256) is an input of the model, like the map tables of `map.cpp` that are
  too large to embed; both are bundled in `World`.

Amounts (`CAmount`) and heights are `Int`: the engine's sums stay far below the range
of `int64_t`, so overflow plays no part.
-/

namespace Huntercore

/-! ## Forks and consensus parameters -/

/-- The hard forks of `consensus/params.h`, in activation order. -/
inductive Fork
  | POISON
  | CARRYINGCAP
  | LESSHEARTS
  | LIFESTEAL
  | TIMESAVE
  deriving DecidableEq, Repr

/-- A fork schedule: each fork starts at a fixed height, in the order of `Fork`. -/
structure ConsensusRules where
  forkHeight : Fork → Nat
  testing : Bool
  poison_le_carryingCap : forkHeight .POISON ≤ forkHeight .CARRYINGCAP
  carryingCap_le_lessHearts : forkHeight .CARRYINGCAP ≤ forkHeight .LESSHEARTS
  lessHearts_le_lifeSteal : forkHeight .LESSHEARTS ≤ forkHeight .LIFESTEAL
  lifeSteal_le_timeSave : forkHeight .LIFESTEAL ≤ forkHeight .TIMESAVE

namespace ConsensusRules

/-- `ForkInEffect (type, nHeight)`. The source takes an `unsigned` height; the game
engine only asks about heights of states after the genesis block, which are `≥ 0`. -/
def ForkInEffect (r : ConsensusRules) (type : Fork) (nHeight : Int) : Bool :=
  decide ((r.forkHeight type : Int) ≤ nHeight)

/-- `IsForkHeight`: the fork is in effect at `nHeight` but not at the height before. -/
def IsForkHeight (r : ConsensusRules) (type : Fork) (nHeight : Int) : Bool :=
  if nHeight = 0 then false
  else r.ForkInEffect type nHeight && !r.ForkInEffect type (nHeight - 1)

/-- `TestingRules`: true for regtest only. -/
def TestingRules (r : ConsensusRules) : Bool := r.testing

theorem forkInEffect_mono (r : ConsensusRules) (type : Fork) {h h' : Int} (hle : h ≤ h')
    (hf : r.ForkInEffect type h = true) : r.ForkInEffect type h' = true := by
  simp only [ForkInEffect, decide_eq_true_eq] at *
  omega

theorem forkInEffect_poison_of_lifeSteal (r : ConsensusRules) {h : Int}
    (hf : r.ForkInEffect .LIFESTEAL h = true) : r.ForkInEffect .POISON h = true := by
  have h1 := r.poison_le_carryingCap
  have h2 := r.carryingCap_le_lessHearts
  have h3 := r.lessHearts_le_lifeSteal
  simp only [ForkInEffect, decide_eq_true_eq] at *
  omega

theorem forkInEffect_lessHearts_of_lifeSteal (r : ConsensusRules) {h : Int}
    (hf : r.ForkInEffect .LIFESTEAL h = true) : r.ForkInEffect .LESSHEARTS h = true := by
  have h3 := r.lessHearts_le_lifeSteal
  simp only [ForkInEffect, decide_eq_true_eq] at *
  omega

theorem forkInEffect_lifeSteal_of_timeSave (r : ConsensusRules) {h : Int}
    (hf : r.ForkInEffect .TIMESAVE h = true) : r.ForkInEffect .LIFESTEAL h = true := by
  have h4 := r.lifeSteal_le_timeSave
  simp only [ForkInEffect, decide_eq_true_eq] at *
  omega

end ConsensusRules

/-- `MainNetConsensus`. -/
def MainNetConsensus : ConsensusRules where
  forkHeight
    | .POISON => 255000
    | .CARRYINGCAP => 500000
    | .LESSHEARTS => 590000
    | .LIFESTEAL => 795000
    | .TIMESAVE => 1521500
  testing := false
  poison_le_carryingCap := by decide
  carryingCap_le_lessHearts := by decide
  lessHearts_le_lifeSteal := by decide
  lifeSteal_le_timeSave := by decide

/-- The testnet fork heights, shared by `TestNetConsensus` and `RegTestConsensus`. -/
def testNetForkHeight : Fork → Nat
  | .POISON => 190000
  | .CARRYINGCAP => 200000
  | .LESSHEARTS => 240000
  | .LIFESTEAL => 301000
  | .TIMESAVE => 331500

/-- `TestNetConsensus`. -/
def TestNetConsensus : ConsensusRules where
  forkHeight := testNetForkHeight
  testing := false
  poison_le_carryingCap := by decide
  carryingCap_le_lessHearts := by decide
  lessHearts_le_lifeSteal := by decide
  lifeSteal_le_timeSave := by decide

/-- `RegTestConsensus`: the testnet schedule with the testing rules switched on. -/
def RegTestConsensus : ConsensusRules :=
  { TestNetConsensus with testing := true }

/-- The part of `Consensus::Params` that the game engine reads. -/
structure Params where
  rules : ConsensusRules
  nSubsidyHalvingInterval : Nat

/-- The consensus parameters of the main network, the test network and regtest. -/
def MainNetParams : Params := ⟨MainNetConsensus, 2100000⟩
def TestNetParams : Params := ⟨TestNetConsensus, 2100000⟩
def RegTestParams : Params := ⟨RegTestConsensus, 150⟩

/-- `COIN`: satoshis per coin. -/
def COIN : Int := 100000000

/-- `GetBlockSubsidy`: one coin, halved every `nSubsidyHalvingInterval` blocks. -/
def GetBlockSubsidy (nHeight : Int) (p : Params) : Int :=
  let halvings := nHeight / (p.nSubsidyHalvingInterval : Int)
  if halvings ≥ 64 then 0 else COIN / 2 ^ halvings.toNat

/-- `GetNameCoinAmount`: the minimum value locked in a general. -/
def GetNameCoinAmount (p : Params) (nHeight : Int) : Int :=
  if p.rules.ForkInEffect .TIMESAVE nHeight then 100 * COIN
  else if p.rules.ForkInEffect .LESSHEARTS nHeight then 200 * COIN
  else if p.rules.ForkInEffect .POISON nHeight then 10 * COIN
  else COIN

theorem getNameCoinAmount_pos (p : Params) (nHeight : Int) : 0 < GetNameCoinAmount p nHeight := by
  unfold GetNameCoinAmount COIN
  split_ifs <;> omega

/-! ## Coordinates and character identifiers -/

/-- A tile of the map. -/
structure Coord where
  x : Int
  y : Int
  deriving DecidableEq, Repr, Inhabited

/-- `Coord::operator<` compares rows first: the key order of every map over tiles. -/
def Coord.key (c : Coord) : Int ×ₗ Int := toLex (c.y, c.x)

theorem Coord.key_injective : Function.Injective Coord.key := by
  intro a b h
  simp only [Coord.key, toLex_inj, Prod.mk.injEq] at h
  cases a
  cases b
  simp_all

instance : LinearOrder Coord := LinearOrder.lift' Coord.key Coord.key_injective

/-- `PlayerID`: a player is its name. -/
abbrev PlayerID := String

/-- A player name plus a character index; the default value (empty name, index `-1`)
means "no character", as for the crown holder when nobody holds the crown. -/
structure CharacterID where
  player : PlayerID
  index : Int
  deriving DecidableEq, Repr

instance : Inhabited CharacterID := ⟨⟨"", -1⟩⟩

/-- `CharacterID::operator<` is lexicographic in name, then index. -/
def CharacterID.key (c : CharacterID) : String ×ₗ Int := toLex (c.player, c.index)

theorem CharacterID.key_injective : Function.Injective CharacterID.key := by
  intro a b h
  simp only [CharacterID.key, toLex_inj, Prod.mk.injEq] at h
  cases a
  cases b
  simp_all

instance : LinearOrder CharacterID := LinearOrder.lift' CharacterID.key CharacterID.key_injective

/-! ## The map of `map.h` -/

def MAP_WIDTH : Int := 502
def MAP_HEIGHT : Int := 502
def SPAWN_AREA_LENGTH : Int := 15
def NUM_HARVEST_AREAS : Nat := 18
def NUM_CROWN_LOCATIONS : Nat := 416
def CROWN_START_X : Int := 250
def CROWN_START_Y : Int := 248
def SPAWNMAPFLAG_BANK : Nat := 1
def SPAWNMAPFLAG_PLAYER : Nat := 2
def TOTAL_HARVEST : Int := 900
def CROWN_BONUS : Int := 25

/-- `HarvestPortions`: the share of the treasure (in 1/900) dropped on each harvest area. -/
def HarvestPortions : List Int :=
  [55, 40, 40, 40, 55, 40, 40, 40, 55, 40, 40, 40, 55, 40, 40, 40, 75, 100]

/-- `HarvestAreaSizes`. -/
def HarvestAreaSizes : List Nat :=
  [440, 223, 47, 57, 425, 284, 52, 77, 434, 252, 61, 64, 419, 295, 67, 65, 433, 8]

def IsInsideMap (x y : Int) : Bool := 0 ≤ x && x < MAP_WIDTH && 0 ≤ y && y < MAP_HEIGHT

def IsOriginalSpawnArea (x y : Int) : Bool :=
  ((x == 0 || x == MAP_WIDTH - 1) && (y < SPAWN_AREA_LENGTH || y ≥ MAP_HEIGHT - SPAWN_AREA_LENGTH))
    || ((y == 0 || y == MAP_HEIGHT - 1) && (x < SPAWN_AREA_LENGTH || x ≥ MAP_WIDTH - SPAWN_AREA_LENGTH))

/-- The data tables of `map.cpp` and the hash behind `RandomGenerator`, taken as inputs:
`ObstacleMap` and `SpawnMap` have 502 × 502 entries and `HarvestAreas` some four thousand
tiles, and `SerializeHash` is a double SHA-256. The sizes in `HarvestAreaSizes` are those of
the harvest area arrays. -/
structure World where
  /-- `ObstacleMap[y][x]`, zero on walkable tiles. -/
  ObstacleMap : Int → Int → Nat
  /-- `SpawnMap[y][x]`, a combination of `SPAWNMAPFLAG_*`. -/
  SpawnMap : Int → Int → Nat
  /-- `HarvestAreas[i]`, read as a list of tiles. -/
  HarvestAreas : Nat → List Coord
  /-- `SerializeHash` of a byte string, read back as an `arith_uint256`. -/
  SerializeHash : List UInt8 → Nat
  harvestAreas_length : ∀ i < NUM_HARVEST_AREAS, (HarvestAreas i).length = HarvestAreaSizes.getD i 0

/-- A map without obstacles or spawn tiles, each harvest area one tile repeated, and a
constant hash: a world small enough to run the engine on by evaluation. -/
def World.flat : World where
  ObstacleMap _ _ := 0
  SpawnMap _ _ := 0
  HarvestAreas i := List.replicate (HarvestAreaSizes.getD i 0) ⟨250, 250⟩
  SerializeHash _ := 2 ^ 255
  harvestAreas_length _ _ := List.length_replicate

def World.IsWalkable (w : World) (x y : Int) : Bool := w.ObstacleMap y x == 0

def World.IsWalkableCoord (w : World) (c : Coord) : Bool := w.IsWalkable c.x c.y

def IsOriginalSpawnAreaCoord (c : Coord) : Bool := IsOriginalSpawnArea c.x c.y

/-! ## The block-hash random generator -/

/-- The 32 little-endian bytes of a `uint256`. -/
def uint256Bytes (n : Nat) : List UInt8 :=
  (List.range 32).map (fun i => UInt8.ofNat (n / 256 ^ i))

/-- The legacy `CBigNum` serialisation of the generator's state: trailing zero bytes
dropped, and a zero appended if the top bit of the last byte is set. -/
def legacyBytes (n : Nat) : List UInt8 :=
  let data := ((uint256Bytes n).reverse.dropWhile (· == 0)).reverse
  match data.getLast? with
  | some b => if b &&& 128 != 0 then data ++ [0] else data
  | none => data

/-- A `valtype` is serialised behind its compact-size length (one byte below 253). -/
def serializeValtype (data : List UInt8) : List UInt8 :=
  UInt8.ofNat data.length :: data

/-- `MIN_STATE = arith_uint256().SetCompact (0x097FFFFF)`. -/
def MIN_STATE : Nat := 0x7FFFFF * 256 ^ 6

/-- `RandomGenerator`: the last hash and the part of it not yet used. -/
structure RandomGenerator where
  state0 : Nat
  state : Nat
  deriving DecidableEq, Repr

/-- `RandomGenerator (hashBlock)`. -/
def RandomGenerator.init (w : World) (hashBlock : Nat) : RandomGenerator :=
  let h := w.SerializeHash (uint256Bytes hashBlock)
  ⟨h, h⟩

/-- `GetIntRnd (modulo)`: rehash once most bits are used, then take the state modulo
`modulo` and keep the quotient. -/
def RandomGenerator.GetIntRnd (w : World) (g : RandomGenerator) (modulo : Nat) :
    Nat × RandomGenerator :=
  let g :=
    if g.state < MIN_STATE then
      let h := w.SerializeHash (serializeValtype (legacyBytes g.state0))
      ⟨h, h⟩
    else g
  (g.state % modulo, { g with state := g.state / modulo })

/-- `GetIntRnd (a, b)`: a number in `[a, b]`. -/
def RandomGenerator.GetIntRndRange (w : World) (g : RandomGenerator) (a b : Int) :
    Int × RandomGenerator :=
  let (r, g) := g.GetIntRnd w (b - a + 1).toNat
  (r + a, g)

theorem RandomGenerator.getIntRnd_lt (w : World) (g : RandomGenerator) {modulo : Nat}
    (h : 0 < modulo) : (g.GetIntRnd w modulo).1 < modulo := by
  unfold GetIntRnd
  exact Nat.mod_lt _ h

theorem RandomGenerator.getIntRndRange_mem (w : World) (g : RandomGenerator) {a b : Int}
    (h : a ≤ b) : a ≤ (g.GetIntRndRange w a b).1 ∧ (g.GetIntRndRange w a b).1 ≤ b := by
  have hpos : 0 < (b - a + 1).toNat := by omega
  have hlt := g.getIntRnd_lt w hpos
  unfold GetIntRndRange
  dsimp only
  omega

end Huntercore
