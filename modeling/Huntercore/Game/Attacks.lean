import Mathlib
import Huntercore.Lib.Control
import Huntercore.Game.Move

/-!
# Attacks and life steal

`AttackableCharacter` and `CharactersOnTiles` of `state.cpp`: the map from tiles to the
characters standing there is built on the first destruct of a step; each destruct adds
its character to the attackers of everything in its radius; `DrawLife` kills the
attacked characters (after the life-steal fork it draws life from attacked generals
instead, killing only those drained below the name coin amount); and
`DistributeDrawnLife` pays the drawn life back to the attackers, in random order, once
the block hash is known.
-/

namespace Huntercore

variable (w : World)

/-- `AttackableCharacter`. -/
structure AttackableCharacter where
  chid : CharacterID
  color : Nat
  drawnLife : Int
  attackers : OrdSet CharacterID

namespace AttackableCharacter

/-- `AttackBy (attackChid, pl)`: characters of the attacker's colour are spared. -/
def AttackBy (a : AttackableCharacter) (attackChid : CharacterID) (pl : PlayerState) :
    AttackableCharacter :=
  if a.color = pl.color then a else { a with attackers := a.attackers.insert attackChid }

/-- `AttackSelf (state)`: before the life-steal fork a destruct kills the destructing
character too. -/
def AttackSelf (a : AttackableCharacter) (s : GameState) : AttackableCharacter :=
  if !s.ForkInEffect .LIFESTEAL then { a with attackers := a.attackers.insert a.chid } else a

/-- The attack of the destructing character `chid` on a character within its radius: the
destructing character itself is attacked by `AttackSelf`. -/
def Attack (a : AttackableCharacter) (s : GameState) (chid : CharacterID) (pl : PlayerState) :
    AttackableCharacter :=
  if a.chid = chid then a.AttackSelf s else a.AttackBy chid pl

@[simp] theorem chid_Attack (a : AttackableCharacter) (s : GameState) (chid : CharacterID)
    (pl : PlayerState) : (a.Attack s chid pl).chid = a.chid := by
  unfold Attack AttackSelf AttackBy
  split_ifs <;> rfl

/-- Attacks only add to the set of attackers, so two of them can be made in either order. -/
theorem Attack_comm (a : AttackableCharacter) (s : GameState) (c₁ c₂ : CharacterID)
    (pl₁ pl₂ : PlayerState) : (a.Attack s c₁ pl₁).Attack s c₂ pl₂ = (a.Attack s c₂ pl₂).Attack s c₁ pl₁ := by
  unfold Attack AttackSelf AttackBy
  split_ifs <;> simp_all [OrdSet.insert_comm]

end AttackableCharacter

/-- The death of an attacked character in `DrawLife`: its loot is settled by
`HandleKilledLoot`, and it is erased from its player. -/
def GameState.killCharacter (s : GameState) (pid : PlayerID) (i : Int) (info : KilledByInfo)
    (result : StepResult) : GameState × StepResult :=
  let (s, result) := s.HandleKilledLoot pid i info result
  let victim := s.players.getD pid default
  ({ s with players := s.players.insert pid { victim with characters := victim.characters.erase i } },
    result)

/-- `CharactersOnTiles`: the multimap from tiles to attackable characters, in multimap
order, and whether it has been built. -/
structure CharactersOnTiles where
  tiles : List (Coord × AttackableCharacter)
  built : Bool

instance : Inhabited CharactersOnTiles := ⟨⟨[], false⟩⟩

namespace CharactersOnTiles

/-- The characters `EnsureIsBuilt` enters into the tile map, in player and character order:
all of them, except the spawn-protected and spectating ones after `FORK_TIMESAVE`. -/
def attackable (s : GameState) : List (Coord × AttackableCharacter) :=
  s.players.entries.flatMap fun p =>
    (p.2.characters.entries.filter fun pc =>
        !(s.ForkInEffect .TIMESAVE && CharacterIsProtected pc.2.stay_in_spawn_area)).map fun pc =>
      (pc.2.coord, ⟨⟨p.1, pc.1⟩, p.2.color, 0, .empty⟩)

/-- `EnsureIsBuilt (state)`. -/
def EnsureIsBuilt (t : CharactersOnTiles) (s : GameState) : CharactersOnTiles :=
  if t.built then t
  else ⟨(attackable s).foldl (fun tiles e => Entries.insertMulti e.1 e.2 tiles) [], true⟩

@[simp] theorem built_EnsureIsBuilt (t : CharactersOnTiles) (s : GameState) :
    (t.EnsureIsBuilt s).built = true := by
  unfold EnsureIsBuilt
  split <;> simp_all

/-- The map is built once: later calls leave it alone. -/
theorem EnsureIsBuilt_of_built {t : CharactersOnTiles} (s : GameState) (h : t.built = true) :
    t.EnsureIsBuilt s = t := by
  simp [EnsureIsBuilt, h]

/-- The attack of one destructing character on every attackable character within its
radius: the loops over the square visit each tile once, and each entry of the tile map
lies on one tile. -/
def attackAround (t : CharactersOnTiles) (s : GameState) (chid : CharacterID) (pl : PlayerState)
    (c : Coord) (radius : Int) : CharactersOnTiles :=
  { t with tiles := t.tiles.map fun e =>
      (e.1, if c.x - radius ≤ e.1.x && e.1.x ≤ c.x + radius && c.y - radius ≤ e.1.y && e.1.y ≤ c.y + radius then
        e.2.Attack s chid pl
      else e.2) }

@[simp] theorem built_attackAround (t : CharactersOnTiles) (s : GameState) (chid : CharacterID)
    (pl : PlayerState) (c : Coord) (radius : Int) :
    (t.attackAround s chid pl c radius).built = t.built := rfl

/-- The attacks of two destructing characters can be made in either order: each keeps every
character on its tile and only adds to its attackers. -/
theorem attackAround_comm (t : CharactersOnTiles) (s : GameState) (chid₁ chid₂ : CharacterID)
    (pl₁ pl₂ : PlayerState) (c₁ c₂ : Coord) (r₁ r₂ : Int) :
    (t.attackAround s chid₁ pl₁ c₁ r₁).attackAround s chid₂ pl₂ c₂ r₂ =
      (t.attackAround s chid₂ pl₂ c₂ r₂).attackAround s chid₁ pl₁ c₁ r₁ := by
  simp only [attackAround, List.map_map, mk.injEq, and_true]
  apply List.map_congr_left
  intro e _
  simp only [Function.comp_apply, Prod.mk.injEq, true_and]
  -- whether a tile is in each radius does not depend on the other attack
  split_ifs with h₁ <;> split <;> simp_all [AttackableCharacter.Attack_comm]

/-- The destruct of character `i` of a move's player: characters that died, the crown holder
and (after `FORK_TIMESAVE`) spectators do not attack. -/
def destructOne (s : GameState) (player : PlayerID) (pl : PlayerState) (t : CharactersOnTiles)
    (i : Int) : CharactersOnTiles :=
  match pl.characters.find? i with
  | none => t
  | some ch =>
    let chid : CharacterID := ⟨player, i⟩
    if s.crownHolder = chid then t
    else if s.ForkInEffect .TIMESAVE && CharacterInSpectatorMode ch.stay_in_spawn_area then t
    else (t.EnsureIsBuilt s).attackAround s chid pl ch.coord (GetDestructRadius s (i == (0 : Int)))

/-- Two destructs can be made in either order. Whether a destruct attacks, and with which
radius, depends on the state and the player only, not on the tile map. -/
theorem destructOne_comm (s : GameState) (p₁ p₂ : PlayerID) (pl₁ pl₂ : PlayerState)
    (t : CharactersOnTiles) (i₁ i₂ : Int) :
    destructOne s p₂ pl₂ (destructOne s p₁ pl₁ t i₁) i₂ =
      destructOne s p₁ pl₁ (destructOne s p₂ pl₂ t i₂) i₁ := by
  unfold destructOne
  cases pl₁.characters.find? i₁ <;> cases pl₂.characters.find? i₂ <;> simp only
  split_ifs <;> simp [EnsureIsBuilt_of_built, attackAround_comm]

/-- `ApplyAttacks (state, moves)`. -/
def ApplyAttacks (t : CharactersOnTiles) (s : GameState) (moves : List Move) : CharactersOnTiles :=
  moves.foldl
    (fun t m =>
      if m.destruct.isEmpty then t
      else
        match s.players.find? m.player with
        | none => t
        | some pl => m.destruct.elems.foldl (destructOne s m.player pl) t)
    t

/-- The attacks of a block do not depend on the order of its moves. -/
theorem ApplyAttacks_perm (t : CharactersOnTiles) (s : GameState) {ms₁ ms₂ : List Move}
    (hperm : ms₁.Perm ms₂) : t.ApplyAttacks s ms₁ = t.ApplyAttacks s ms₂ := by
  unfold ApplyAttacks
  apply hperm.foldl_eq'
  intro a _ b _ t
  -- the destructs of one move commute with each destruct of the other
  have hdestructs : ∀ (pa pb : PlayerState) (t : CharactersOnTiles),
      b.destruct.elems.foldl (destructOne s b.player pb) (a.destruct.elems.foldl (destructOne s a.player pa) t) =
        a.destruct.elems.foldl (destructOne s a.player pa) (b.destruct.elems.foldl (destructOne s b.player pb) t) :=
    fun pa pb t => List.foldl_foldl_comm _ _ (fun t i j => destructOne_comm s a.player b.player pa pb t i j) _ _ t
  cases s.players.find? a.player <;> cases s.players.find? b.player <;> split_ifs <;>
    simp [hdestructs]

/-- `DefendMutualAttacks (state)`: after the life-steal fork two characters that hit each
other cancel their attacks. -/
def DefendMutualAttacks (t : CharactersOnTiles) : CharactersOnTiles :=
  if !t.built then t
  else
    let attacks : List (CharacterID × CharacterID) :=
      t.tiles.flatMap fun e => e.2.attackers.elems.map fun m => (m, e.2.chid)
    { t with tiles := t.tiles.map fun e =>
        (e.1, { e.2 with attackers := e.2.attackers.filter fun m => !attacks.contains (e.2.chid, m) }) }

/-- The life that `DrawLife` draws from an attacked character after the life-steal fork:
`damage` for each attacker, at most the player's value. -/
def stealLife (damage : Int) (victim : PlayerState) (a : AttackableCharacter) :
    PlayerState × AttackableCharacter :=
  let fullDamage := min (damage * a.attackers.size) victim.value
  let victim := { victim with value := victim.value - fullDamage }
  let a := { a with drawnLife := a.drawnLife + fullDamage }
  -- what is left below the minimum value is drawn too (and later goes to the fund)
  if victim.value < damage then
    ({ victim with value := 0 }, { a with drawnLife := a.drawnLife + victim.value })
  else (victim, a)

section stealLife

variable (damage : Int) (victim : PlayerState) (a : AttackableCharacter)

@[simp] theorem characters_stealLife : (stealLife damage victim a).1.characters = victim.characters := by
  unfold stealLife
  dsimp only
  split <;> rfl

@[simp] theorem next_character_index_stealLife :
    (stealLife damage victim a).1.next_character_index = victim.next_character_index := by
  unfold stealLife
  dsimp only
  split <;> rfl

@[simp] theorem remainingLife_stealLife :
    (stealLife damage victim a).1.remainingLife = victim.remainingLife := by
  unfold stealLife
  dsimp only
  split <;> rfl

@[simp] theorem chid_stealLife : (stealLife damage victim a).2.chid = a.chid := by
  unfold stealLife
  dsimp only
  split <;> rfl

@[simp] theorem attackers_stealLife : (stealLife damage victim a).2.attackers = a.attackers := by
  unfold stealLife
  dsimp only
  split <;> rfl

/-- No more than the player's value is drawn. -/
theorem value_stealLife_nonneg : 0 ≤ (stealLife damage victim a).1.value := by
  unfold stealLife
  dsimp only
  split
  · exact le_refl 0
  · show 0 ≤ victim.value - min (damage * a.attackers.size) victim.value
    have := min_le_right (damage * a.attackers.size) victim.value
    omega

/-- The life steal moves coins from the player's value to the drawn life. -/
theorem stealLife_value_add_drawnLife :
    (stealLife damage victim a).1.value + (stealLife damage victim a).2.drawnLife =
      victim.value + a.drawnLife := by
  unfold stealLife
  dsimp only
  split
  · show 0 + (a.drawnLife + min (damage * a.attackers.size) victim.value +
      (victim.value - min (damage * a.attackers.size) victim.value)) = victim.value + a.drawnLife
    omega
  · show victim.value - min (damage * a.attackers.size) victim.value +
      (a.drawnLife + min (damage * a.attackers.size) victim.value) = victim.value + a.drawnLife
    omega

end stealLife

/-- `DrawLife` on one attacked character: draw life after the life-steal fork, and kill a
character that is left without life (always, before the fork): its player if it is the
general, and its loot through `HandleKilledLoot`. -/
def drawLifeOne (lifeSteal : Bool) (damage : Int) (acc : GameState × StepResult)
    (a : AttackableCharacter) : (GameState × StepResult) × AttackableCharacter :=
  let (s, result) := acc
  if a.attackers.isEmpty then ((s, result), a)
  else
    match s.players.find? a.chid.player with
    | none => ((s, result), a)
    | some victim =>
      let (victim, a) := if lifeSteal then stealLife damage victim a else (victim, a)
      let s := { s with players := s.players.insert a.chid.player victim }
      if lifeSteal && victim.value ≠ 0 then ((s, result), a)
      else
        let result :=
          if a.chid.index = 0 then
            a.attackers.elems.foldl (fun r m => r.KillPlayer a.chid.player (.ofKiller m)) result
          else result
        if victim.characters.contains a.chid.index then
          (s.killCharacter a.chid.player a.chid.index (.ofKiller (a.attackers.elems.headD default)) result, a)
        else ((s, result), a)

/-- One tile entry in the loop of `DrawLife`: the drawn character is written back to the
tile map. -/
def drawLifeTile (lifeSteal : Bool) (damage : Int)
    (acc : (GameState × StepResult) × List (Coord × AttackableCharacter))
    (e : Coord × AttackableCharacter) :
    (GameState × StepResult) × List (Coord × AttackableCharacter) :=
  let (sr, a) := drawLifeOne lifeSteal damage acc.1 e.2
  (sr, acc.2 ++ [(e.1, a)])

/-- `DrawLife (state, result)`, in tile order. -/
def DrawLife (t : CharactersOnTiles) (s : GameState) (result : StepResult) :
    CharactersOnTiles × GameState × StepResult :=
  if !t.built then (t, s, result)
  else
    let lifeSteal := s.ForkInEffect .LIFESTEAL
    let damage := GetNameCoinAmount s.param s.nHeight
    let (acc, tiles) := t.tiles.foldl (drawLifeTile lifeSteal damage) ((s, result), [])
    ({ t with tiles := tiles }, acc.1, acc.2)

/-- The payout loop of `DistributeDrawnLife` for one attacked character: while coins and
living attackers remain, a random one of them gets `damage`; what is left goes to the
game fund. The fuel is the number of attackers, which each round removes one of. -/
def spendDrawnLife (damage : Int) :
    Nat → List CharacterID → Int → GameState × RandomGenerator → GameState × RandomGenerator
  | 0, _, toSpend, (s, g) => ({ s with gameFund := s.gameFund + toSpend }, g)
  | fuel + 1, alive, toSpend, (s, g) =>
    if alive = [] || toSpend < damage then ({ s with gameFund := s.gameFund + toSpend }, g)
    else
      let (ind, g) := g.GetIntRnd w alive.length
      let pid := (alive.getD ind default).player
      let p := s.players.getD pid default
      let s := { s with players := s.players.insert pid { p with value := p.value + damage } }
      spendDrawnLife damage fuel (alive.eraseIdx ind) (toSpend - damage) (s, g)

/-- `DistributeDrawnLife (rnd, state)`: each attacked character's drawn life goes to its
attackers whose players are still alive. -/
def DistributeDrawnLife (t : CharactersOnTiles) (g : RandomGenerator) (s : GameState) :
    GameState × RandomGenerator :=
  if !t.built then (s, g)
  else
    let damage := GetNameCoinAmount s.param s.nHeight
    let alivePlayers : List CharacterID :=
      (t.tiles.filter fun e => s.players.contains e.2.chid.player).map fun e => e.2.chid
    t.tiles.foldl
      (fun acc e =>
        let a := e.2
        if a.attackers.isEmpty || a.drawnLife = 0 then acc
        else
          let alive := a.attackers.elems.filter fun m => alivePlayers.contains m
          spendDrawnLife w damage alive.length alive a.drawnLife acc)
      (s, g)

end CharactersOnTiles

end Huntercore
