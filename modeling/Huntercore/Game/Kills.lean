import Mathlib
import Huntercore.Game.Attacks

/-!
# Deaths, disasters and banks

The parts of `PerformStep` that kill characters for other reasons than attacks (staying on
a bank, poison, the life-steal fork), that settle the loot of killed players, and that
move the banks, as in `game/state.cpp`.
-/

namespace Huntercore

variable (w : World)

def PDISASTER_MIN_TIME : Int := 1440
def PDISASTER_MAX_TIME : Int := 12 * 1440
def PDISASTER_PROBABILITY : Nat := 10000
def POISON_MIN_LIFE : Int := 1
def POISON_MAX_LIFE : Int := 50
def DYNBANKS_NUM_BANKS : Nat := 75
def DYNBANKS_MIN_LIFE : Int := 25
def DYNBANKS_MAX_LIFE : Int := 100

namespace GameState

/-- Settling one killed player in `FinaliseKills`: the loot of each of its characters, with
the first reason recorded for it. -/
def finaliseKill (killedBy : List (PlayerID × KilledByInfo)) (acc : GameState × StepResult)
    (victim : PlayerID) : GameState × StepResult :=
  match acc.1.players.find? victim, Entries.findMulti victim killedBy with
  | some victimState, some info =>
    victimState.characters.entries.foldl
      (fun (acc : GameState × StepResult) pc => acc.1.HandleKilledLoot victim pc.1 info acc.2) acc
  | _, _ => acc

/-- `FinaliseKills (step)`: the characters of every killed player are settled, and then the
players are removed. -/
def FinaliseKills (s : GameState) (step : StepResult) : GameState × StepResult :=
  let killedPlayers := step.killedPlayers.elems
  let (s, step) := killedPlayers.foldl (finaliseKill step.killedBy) (s, step)
  ({ s with players := s.players.eraseList killedPlayers }, step)

/-- `CheckForDisaster (rng)`: after the poison fork, a disaster comes at least
`PDISASTER_MIN_TIME` and at most `PDISASTER_MAX_TIME` blocks after the last one, in between
with probability `1 / PDISASTER_PROBABILITY`. -/
def CheckForDisaster (s : GameState) (g : RandomGenerator) : Bool × RandomGenerator :=
  if !s.ForkInEffect .POISON then (false, g)
  else
    let dist := s.nHeight - s.nDisasterHeight
    if dist < PDISASTER_MIN_TIME then (false, g)
    else if dist ≥ PDISASTER_MAX_TIME then (true, g)
    else
      let (r, g) := g.GetIntRnd w PDISASTER_PROBABILITY
      (r == 0, g)

/-- The logout timer and bank rule of `KillSpawnArea` for one character: its new
`stay_in_spawn_area` and whether it dies. -/
def spawnAreaRule (s : GameState) (ch : CharacterState) : Nat × Bool :=
  let stay := ch.stay_in_spawn_area
  if s.ForkInEffect .TIMESAVE then
    let stay :=
      if s.IsBank ch.coord then CHARACTER_MODE_LOGOUT
      else if w.SpawnMap ch.coord.y ch.coord.x &&& SPAWNMAPFLAG_PLAYER != 0 then
        if CharacterSpawnProtectionAlmostFinished stay then CHARACTER_MODE_SPECTATOR_BEGIN
        -- new hunters get ten more blocks of thinking time before ghosting ends
        else if s.nHeight.tmod 500 < 490 || stay > 0 then (stay + 1) % 256
        else stay
      else if CharacterIsProtected stay then (stay + 1) % 256
      else stay
    (stay, !CharacterNoLogout stay)
  else if !s.IsBank ch.coord then (0, false)
  else
    let maxStay := MaxStayOnBank s
    ((stay + 1) % 256, !(decide ((stay : Int) < maxStay) || maxStay == -1))

/-- One character in the loop of `KillSpawnArea`: update its timer in place, and settle
its loot if it dies (killing its player if it is the general). -/
def killSpawnAreaOne (pid : PlayerID) (acc : GameState × StepResult × List Int)
    (pc : Int × CharacterState) : GameState × StepResult × List Int :=
  let (s, step, toErase) := acc
  let (stay, dies) := spawnAreaRule w s pc.2
  let s := { s with players := s.players.modify pid fun p =>
    { p with characters := p.characters.modify pc.1 fun ch => { ch with stay_in_spawn_area := stay } } }
  if dies then
    let killer := KilledByInfo.ofReason .KILLED_SPAWN
    let (s, step) := s.HandleKilledLoot pid pc.1 killer step
    let step := if pc.1 = 0 then step.KillPlayer pid killer else step
    (s, step, toErase ++ [pc.1])
  else (s, step, toErase)

/-- The loop of `KillSpawnArea` over the characters of one player. The dead characters
are erased after it, as the source does to keep its iterator valid. -/
def killSpawnAreaOf (acc : GameState × StepResult) (pid : PlayerID) : GameState × StepResult :=
  let chars := (acc.1.players.getD pid default).characters.entries
  let (s, step, toErase) := chars.foldl (killSpawnAreaOne w pid) (acc.1, acc.2, [])
  ({ s with players := s.players.modify pid fun p =>
      { p with characters := p.characters.eraseList toErase } }, step)

/-- `KillSpawnArea (step)`. -/
def KillSpawnArea (s : GameState) (step : StepResult) : GameState × StepResult :=
  s.players.keys.foldl (killSpawnAreaOf w) (s, step)

/-- `ApplyDisaster (rng)`: every player gets a random life expectation, hearts vanish after
`FORK_LESSHEARTS`, and the disaster counter restarts. -/
def ApplyDisaster (s : GameState) (g : RandomGenerator) : GameState × RandomGenerator :=
  let (players, g) := s.players.mapAccum
    (fun g _ pl =>
      let (life, g) := g.GetIntRndRange w POISON_MIN_LIFE POISON_MAX_LIFE
      ({ pl with remainingLife := life }, g))
    g
  let s := { s with players := players }
  let s := if s.ForkInEffect .LESSHEARTS then { s with hearts := .empty } else s
  ({ s with nDisasterHeight := s.nHeight }, g)

/-- `DecrementLife (step)`: poisoned players lose one unit of life, and die when none is
left. The loop's iterations are independent, so the new lives are computed first. -/
def DecrementLife (s : GameState) (step : StepResult) : GameState × StepResult :=
  let players := s.players.mapVals fun _ pl =>
    if pl.remainingLife = -1 then pl else { pl with remainingLife := pl.remainingLife - 1 }
  let step := players.entries.foldl
    (fun step p =>
      if p.2.remainingLife = 0 then step.KillPlayer p.1 (.ofReason .KILLED_POISON) else step)
    step
  ({ s with players := players }, step)

/-- The characters but the general of one player die of poison. -/
def removeHeartedOf (acc : GameState × StepResult) (pid : PlayerID) : GameState × StepResult :=
  let toErase := (acc.1.players.getD pid default).characters.keys.filter (· ≠ 0)
  let (s, step) := toErase.foldl
    (fun (acc : GameState × StepResult) i =>
      acc.1.HandleKilledLoot pid i (.ofReason .KILLED_POISON) acc.2)
    acc
  ({ s with players := s.players.modify pid fun p =>
      { p with characters := p.characters.eraseList toErase } }, step)

/-- `RemoveHeartedCharacters (step)`, at the life-steal fork: hearts vanish and every
character but the general is killed by poison. -/
def RemoveHeartedCharacters (s : GameState) (step : StepResult) : GameState × StepResult :=
  let s := { s with hearts := .empty }
  s.players.keys.foldl removeHeartedOf (s, step)

/-- The refill loop of `UpdateBanks`: `n` new banks on random free tiles, each with a random
life. -/
def fillBanks : Nat → List Coord → OrdMap Coord Nat → RandomGenerator →
    OrdMap Coord Nat × RandomGenerator
  | 0, _, banks, g => (banks, g)
  | n + 1, options, banks, g =>
    let (ind, g) := g.GetIntRnd w options.length
    let (life, g) := g.GetIntRndRange w DYNBANKS_MIN_LIFE DYNBANKS_MAX_LIFE
    fillBanks n (options.eraseIdx ind) (banks.insert (options.getD ind default) life.toNat) g

/-- `UpdateBanks (rng)`: after the life-steal fork banks age and vanish, and are replaced by
new ones on random walkable tiles (bank tiles after `FORK_TIMESAVE`); at the fork heights
all banks are new. -/
def UpdateBanks (s : GameState) (g : RandomGenerator) : GameState × RandomGenerator :=
  if !s.ForkInEffect .LIFESTEAL then (s, g)
  else
    let newBanks : OrdMap Coord Nat :=
      if s.param.rules.IsForkHeight .LIFESTEAL s.nHeight then .empty
      -- at the time-save fork every bank is reset
      else if s.param.rules.IsForkHeight .TIMESAVE s.nHeight then .empty
      else (s.banks.filter fun _ life => life > 1).mapVals fun _ life => life - 1
    let tiles := if s.ForkInEffect .TIMESAVE then walkableTiles_ts_banks w else walkableTiles w
    let options := (tiles.foldl OrdSet.insert OrdSet.empty).filter fun c => !newBanks.contains c
    let (banks, g) := fillBanks w (DYNBANKS_NUM_BANKS - newBanks.size) options.elems newBanks g
    ({ s with banks := banks }, g)

end GameState

end Huntercore
