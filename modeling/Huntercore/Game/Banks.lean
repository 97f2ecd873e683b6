import Mathlib
import Huntercore.Game.MinerTax
import Huntercore.Game.Invariant.Step

/-!
# Dynamic banks

After `FORK_LIFESTEAL` the banks are no longer the spawn corners: `UpdateBanks` keeps
`DYNBANKS_NUM_BANKS` of them on random tiles, each with a life that counts down by one a
block. A bank that runs out is replaced by one on a free tile, with a life drawn from
`[DYNBANKS_MIN_LIFE, DYNBANKS_MAX_LIFE]`. At the fork block all banks are new, and again at the
`FORK_TIMESAVE` block, where the tiles they are drawn from become the bank tiles of the map.

`UpdateBanks` is the only part of a step that writes the banks, and of the state it reads only
the banks, the height and the rules (`BanksFrame`). It is cut here into the banks it keeps
(`agedBanks`), the tiles it draws from (`bankTiles`, `bankOptions`) and the refill loop
(`fillBanks_spec`). From a valid set of banks it makes a valid one, and the assertions of the
source hold on the way (`UpdateBanks_step`); over the blocks of a chain this gives the
invariant (`BlockSystem_banks`), where the map provides at least `DYNBANKS_NUM_BANKS` tiles
of each kind.
-/

namespace Huntercore

/-! ## Walkable tiles -/

section WalkableTiles

variable (w : World)

/-- `FillWalkableArray` lists each tile once. -/
theorem FillWalkableArray_nodup (predicate : Int → Int → Bool) : (FillWalkableArray w predicate).Nodup := by
  unfold FillWalkableArray
  refine (List.mergeSort_perm _ _).nodup_iff.mpr (List.Nodup.filter _ ?_)
  generalize MAP_WIDTH.toNat = width
  generalize MAP_HEIGHT.toNat = height
  simp only [bind_pure_comp, List.map_eq_map, List.map_map]
  -- the columns are distinct, and within a column the rows are
  refine List.nodup_flatMap.mpr ⟨fun x _ => List.nodup_range.map fun y y' h => ?_, ?_⟩
  · simpa using h
  · refine List.Pairwise.map _ (fun {x x'} hlt => ?_) List.pairwise_lt_range
    rw [Function.onFun, List.disjoint_left]
    intro c hc hc'
    obtain ⟨y, -, rfl⟩ := List.mem_map.mp hc
    obtain ⟨y', -, h⟩ := List.mem_map.mp hc'
    simp only [Function.comp, Coord.mk.injEq] at h
    omega

/-- On a map whose every tile is walkable and satisfies the predicate, `FillWalkableArray` lists
all `MAP_WIDTH * MAP_HEIGHT` tiles. -/
theorem length_FillWalkableArray_of_forall (predicate : Int → Int → Bool)
    (h : ∀ x y, (w.IsWalkable x y && predicate x y) = true) :
    (FillWalkableArray w predicate).length = MAP_WIDTH.toNat * MAP_HEIGHT.toNat := by
  unfold FillWalkableArray
  rw [List.length_mergeSort, List.filter_eq_self.mpr fun c _ => h c.x c.y]
  generalize MAP_WIDTH.toNat = width
  generalize MAP_HEIGHT.toNat = height
  simp [List.length_flatMap]

end WalkableTiles

namespace GameState

/-! ## Only `UpdateBanks` writes the banks -/

/-- `s'` has the banks of `s`, at the same height and under the same rules: all that
`UpdateBanks` reads of a state. -/
structure BanksFrame (s s' : GameState) : Prop where
  banks : s'.banks = s.banks
  nHeight : s'.nHeight = s.nHeight
  param : s'.param = s.param

theorem BanksFrame.refl (s : GameState) : s.BanksFrame s := ⟨rfl, rfl, rfl⟩

theorem BanksFrame.trans {s₁ s₂ s₃ : GameState} (h₁ : s₁.BanksFrame s₂) (h₂ : s₂.BanksFrame s₃) :
    s₁.BanksFrame s₃ :=
  ⟨h₂.banks.trans h₁.banks, h₂.nHeight.trans h₁.nHeight, h₂.param.trans h₁.param⟩

/-- A loop each of whose steps keeps the banks keeps them. -/
theorem BanksFrame.foldl {s : GameState} {α β : Type} (get : α → GameState) (f : α → β → α)
    (hf : ∀ a b, s.BanksFrame (get a) → s.BanksFrame (get (f a b))) (l : List β) (a : α)
    (h : s.BanksFrame (get a)) : s.BanksFrame (get (l.foldl f a)) :=
  List.foldl_invariant (fun a' => s.BanksFrame (get a')) f l (fun a' b _ => hf a' b) a h

/-! Each phase of a step keeps the banks of the state it is given; the lemmas take the frame
of that state, so that they apply to the states the phases build on the way. -/

section Phases

variable {s s' : GameState}

theorem BanksFrame.addLoot (h : s.BanksFrame s') (c : Coord) (a : Int) :
    s.BanksFrame (s'.AddLoot c a) := by
  unfold AddLoot
  repeat' split
  all_goals exact ⟨h.banks, h.nHeight, h.param⟩

theorem BanksFrame.handleKilledLoot (h : s.BanksFrame s') (pId : PlayerID) (chInd : Int)
    (info : KilledByInfo) (step : StepResult) :
    s.BanksFrame (s'.HandleKilledLoot pId chInd info step).1 := by
  unfold HandleKilledLoot
  repeat' split
  all_goals first
    | exact ⟨h.banks, h.nHeight, h.param⟩
    | exact h.addLoot _ _

theorem BanksFrame.killCharacter (h : s.BanksFrame s') (pid : PlayerID) (i : Int) (info : KilledByInfo)
    (r : StepResult) : s.BanksFrame (s'.killCharacter pid i info r).1 :=
  let h' := h.handleKilledLoot pid i info r
  ⟨h'.banks, h'.nHeight, h'.param⟩

theorem BanksFrame.finaliseKills (h : s.BanksFrame s') (step : StepResult) :
    s.BanksFrame (s'.FinaliseKills step).1 := by
  have hloop := BanksFrame.foldl Prod.fst (finaliseKill step.killedBy) (fun acc victim hacc => by
    unfold finaliseKill
    split
    · exact BanksFrame.foldl Prod.fst _ (fun a _ ha => ha.handleKilledLoot _ _ _ a.2) _ acc hacc
    · exact hacc) step.killedPlayers.elems (s', step) h
  exact ⟨hloop.banks, hloop.nHeight, hloop.param⟩

theorem BanksFrame.setPlayers (h : s.BanksFrame s') (players : OrdMap PlayerID PlayerState) :
    s.BanksFrame { s' with players := players } := ⟨h.banks, h.nHeight, h.param⟩

theorem BanksFrame.setDeadPlayersChat (h : s.BanksFrame s') (chat : OrdMap PlayerID PlayerState) :
    s.BanksFrame { s' with dead_players_chat := chat } := ⟨h.banks, h.nHeight, h.param⟩

theorem BanksFrame.decrementLife (h : s.BanksFrame s') (step : StepResult) :
    s.BanksFrame (s'.DecrementLife step).1 := ⟨h.banks, h.nHeight, h.param⟩

theorem BanksFrame.removeHeartedCharacters (h : s.BanksFrame s') (step : StepResult) :
    s.BanksFrame (s'.RemoveHeartedCharacters step).1 := by
  unfold RemoveHeartedCharacters
  dsimp only
  refine BanksFrame.foldl Prod.fst removeHeartedOf (fun acc pid hacc => ?_) _ _ ⟨h.banks, h.nHeight, h.param⟩
  unfold removeHeartedOf
  have hloop := BanksFrame.foldl Prod.fst
    (fun (acc : GameState × StepResult) i => acc.1.HandleKilledLoot pid i (.ofReason .KILLED_POISON) acc.2)
    (fun a _ ha => ha.handleKilledLoot _ _ _ a.2)
    ((acc.1.players.getD pid default).characters.keys.filter (· ≠ 0)) acc hacc
  exact ⟨hloop.banks, hloop.nHeight, hloop.param⟩

/-- A phase that runs only under a condition keeps the banks where it keeps them when it runs. -/
theorem BanksFrame.ite_self {α : Type} (h : s.BanksFrame s') (c : Prop) [Decidable c] {a : GameState × α}
    (ha : s'.BanksFrame a.1) (x : α) : s.BanksFrame (if c then a else (s', x)).1 := by
  split
  · exact h.trans ha
  · exact h

theorem BanksFrame.updateCrownState (h : s.BanksFrame s') : s.BanksFrame s'.UpdateCrownState.1 := by
  unfold UpdateCrownState
  repeat' split
  all_goals exact ⟨h.banks, h.nHeight, h.param⟩

theorem BanksFrame.divideLootAmongPlayers (h : s.BanksFrame s') :
    s.BanksFrame s'.DivideLootAmongPlayers := by
  refine BanksFrame.foldl Prod.fst collectShare (fun acc c hacc => ?_) _ (s', _) h
  unfold collectShare
  dsimp only
  -- an empty entry is made for a tile whose loot has gone, and the share is taken from it
  repeat' split
  all_goals first
    | exact ⟨hacc.banks, hacc.nHeight, hacc.param⟩
    | (apply BanksFrame.addLoot; exact ⟨hacc.banks, hacc.nHeight, hacc.param⟩)

theorem BanksFrame.crownBonus (h : s.BanksFrame s') (nAmount : Int) :
    s.BanksFrame (s'.CrownBonus nAmount) := by
  unfold CrownBonus
  split <;> exact ⟨h.banks, h.nHeight, h.param⟩

variable (w : World)

theorem BanksFrame.killSpawnArea (h : s.BanksFrame s') (step : StepResult) :
    s.BanksFrame (s'.KillSpawnArea w step).1 := by
  refine BanksFrame.foldl Prod.fst (killSpawnAreaOf w) (fun acc pid hacc => ?_) _ (s', step) h
  unfold killSpawnAreaOf
  -- the timers are written in place, and a character that dies has its loot settled
  have hloop := BanksFrame.foldl Prod.fst (killSpawnAreaOne w pid) (fun a pc ha => by
    unfold killSpawnAreaOne
    dsimp only
    repeat' split
    all_goals first
      | exact ⟨ha.banks, ha.nHeight, ha.param⟩
      | (apply BanksFrame.handleKilledLoot; exact ⟨ha.banks, ha.nHeight, ha.param⟩))
    (acc.1.players.getD pid default).characters.entries (acc.1, acc.2, []) hacc
  exact ⟨hloop.banks, hloop.nHeight, hloop.param⟩

theorem BanksFrame.applyDisaster (h : s.BanksFrame s') (g : RandomGenerator) :
    s.BanksFrame (s'.ApplyDisaster w g).1 := by
  unfold ApplyDisaster
  dsimp only
  split <;> exact ⟨h.banks, h.nHeight, h.param⟩

theorem BanksFrame.collectHearts (h : s.BanksFrame s') (g : RandomGenerator) :
    s.BanksFrame (s'.CollectHearts w g).1 := by
  refine BanksFrame.foldl Prod.fst _ (fun acc e hacc => ?_) _ (s', g) h
  dsimp only
  split <;> exact ⟨hacc.banks, hacc.nHeight, hacc.param⟩

theorem BanksFrame.collectCrown (h : s.BanksFrame s') (g : RandomGenerator) (respawn_crown : Bool) :
    s.BanksFrame (s'.CollectCrown w g respawn_crown).1 := by
  unfold CollectCrown
  dsimp only
  repeat' split
  all_goals exact ⟨h.banks, h.nHeight, h.param⟩

theorem BanksFrame.drawLife (h : s.BanksFrame s') (t : CharactersOnTiles) (r : StepResult) :
    s.BanksFrame (t.DrawLife s' r).2.1 := by
  unfold CharactersOnTiles.DrawLife
  split
  · exact h
  · -- each attacked character may lose its life and be killed, with its loot settled
    have hloop := BanksFrame.foldl (fun acc : (GameState × StepResult) × List (Coord × AttackableCharacter) => acc.1.1)
      (CharactersOnTiles.drawLifeTile (s'.ForkInEffect .LIFESTEAL) (GetNameCoinAmount s'.param s'.nHeight))
      (fun acc e hacc => by
        unfold CharactersOnTiles.drawLifeTile CharactersOnTiles.drawLifeOne
        dsimp only
        repeat' split
        all_goals first
          | exact ⟨hacc.banks, hacc.nHeight, hacc.param⟩
          | (apply BanksFrame.killCharacter; exact ⟨hacc.banks, hacc.nHeight, hacc.param⟩))
      t.tiles ((s', r), []) h
    exact ⟨hloop.banks, hloop.nHeight, hloop.param⟩

theorem BanksFrame.payFees (h : s.BanksFrame s') (ms : List Move) : s.BanksFrame (payFees s' ms).1 :=
  BanksFrame.foldl Prod.fst payFee (fun acc m hacc => by
    obtain ⟨s₁, moneyIn⟩ := acc
    unfold payFee
    dsimp only
    repeat' split
    all_goals exact ⟨hacc.banks, hacc.nHeight, hacc.param⟩) ms (s', 0) h

theorem BanksFrame.applyWaypoints (h : s.BanksFrame s') (ms : List Move) :
    s.BanksFrame (ms.foldl (fun s m => if !m.IsSpawn then m.ApplyWaypoints s else s) s') :=
  BanksFrame.foldl id _ (fun acc m hacc => by
    dsimp only [id]
    unfold Move.ApplyWaypoints
    repeat' split
    all_goals exact ⟨hacc.banks, hacc.nHeight, hacc.param⟩) ms s' h

theorem BanksFrame.applyCommons (h : s.BanksFrame s') (ms : List Move) :
    s.BanksFrame (ms.foldl (fun s m => m.ApplyCommon s) s') :=
  BanksFrame.foldl id _ (fun acc m hacc => by
    dsimp only [id]
    unfold Move.ApplyCommon
    repeat' split
    all_goals exact ⟨hacc.banks, hacc.nHeight, hacc.param⟩) ms s' h

variable (w : World)

theorem BanksFrame.banking (h : s.BanksFrame s') (r : StepResult) : s.BanksFrame (Banking w s' r).1 :=
  ⟨h.banks, h.nHeight, h.param⟩

theorem BanksFrame.spendDrawnLife {damage : Int} : ∀ (fuel : Nat) (alive : List CharacterID) (toSpend : Int)
    (acc : GameState × RandomGenerator), s.BanksFrame acc.1 →
      s.BanksFrame (CharactersOnTiles.spendDrawnLife w damage fuel alive toSpend acc).1
  | 0, _, _, _, h => ⟨h.banks, h.nHeight, h.param⟩
  | fuel + 1, alive, toSpend, (s', g), h => by
    unfold CharactersOnTiles.spendDrawnLife
    split
    · exact ⟨h.banks, h.nHeight, h.param⟩
    · exact BanksFrame.spendDrawnLife fuel _ _ _ ⟨h.banks, h.nHeight, h.param⟩

theorem BanksFrame.distributeDrawnLife (h : s.BanksFrame s') (t : CharactersOnTiles) (g : RandomGenerator) :
    s.BanksFrame (t.DistributeDrawnLife w g s').1 := by
  unfold CharactersOnTiles.DistributeDrawnLife
  split
  · exact h
  · refine BanksFrame.foldl Prod.fst _ (fun acc e hacc => ?_) t.tiles (s', g) h
    dsimp only
    split
    · exact hacc
    · exact BanksFrame.spendDrawnLife w _ _ _ _ hacc

theorem BanksFrame.applySpawns (h : s.BanksFrame s') (ms : List Move) (g : RandomGenerator) :
    s.BanksFrame (ms.foldl (fun (acc : GameState × RandomGenerator) m =>
      if m.IsSpawn then m.ApplySpawn w acc.1 acc.2 else acc) (s', g)).1 :=
  BanksFrame.foldl Prod.fst _ (fun acc m hacc => by
    split
    · unfold Move.ApplySpawn
      dsimp only
      repeat' split
      all_goals exact ⟨hacc.banks, hacc.nHeight, hacc.param⟩
    · exact hacc) ms (s', g) h

theorem BanksFrame.dropTreasures (h : s.BanksFrame s') (nTreasureAmount : Int) (g : RandomGenerator) :
    s.BanksFrame ((List.range NUM_HARVEST_AREAS).foldl (dropTreasure w nTreasureAmount) (s', g)).1 :=
  BanksFrame.foldl Prod.fst _ (fun _ _ hacc => hacc.addLoot _ _) _ (s', g) h

theorem BanksFrame.dropHeartOnMap (h : s.BanksFrame s') {fuel : Nat} {g : RandomGenerator}
    {r : GameState × RandomGenerator} (hdrop : DropHeartOnMap w fuel s' g = .ok r) : s.BanksFrame r.1 := by
  unfold DropHeartOnMap at hdrop
  repeat' split at hdrop
  all_goals cases hdrop
  all_goals exact ⟨h.banks, h.nHeight, h.param⟩

end Phases

variable (w : World)

/-- The part of a step before the random draws keeps the banks, one block higher. -/
theorem PerformStepBeforeRandom_banksFrame (s : GameState) (d : StepData) :
    ({ s with nHeight := s.nHeight + 1 } : GameState).BanksFrame (PerformStepBeforeRandom w s d).state := by
  unfold PerformStepBeforeRandom
  dsimp only
  -- the phases are taken from the last one back to the fees
  apply BanksFrame.banking
  apply BanksFrame.updateCrownState
  apply BanksFrame.setPlayers
  apply BanksFrame.applyWaypoints
  refine BanksFrame.ite_self ?_ _ ((BanksFrame.refl _).removeHeartedCharacters _) _
  apply BanksFrame.finaliseKills
  apply BanksFrame.decrementLife
  apply BanksFrame.killSpawnArea
  apply BanksFrame.drawLife
  apply BanksFrame.payFees
  exact ⟨rfl, rfl, rfl⟩

/-- The random part of a step keeps the banks up to `UpdateBanks`, and from it on. -/
theorem PerformStepRandom_banksFrame {fuel : Nat} {inState : GameState} {d : StepData} {p : StepProgress}
    {out : GameState} {r : StepResult} (hok : PerformStepRandom w fuel inState d p = .ok (out, r)) :
    ∃ s₀ g, p.state.BanksFrame s₀ ∧ (s₀.UpdateBanks w g).1.BanksFrame out := by
  unfold PerformStepRandom at hok
  dsimp only at hok
  split at hok
  · cases hok
  · -- from the banks on: the heart drop, the hearts and the crown
    obtain ⟨v, hdrop, hv⟩ := Except.map_eq_ok hok
    obtain ⟨rfl, -⟩ := Prod.mk.inj hv
    refine ⟨_, _, ?_, (((BanksFrame.refl _).dropHeartOnMap w hdrop).collectHearts w _).collectCrown w _ _⟩
    -- up to the banks: the crown bonus, the loot, the treasure, the moves and the drawn life
    apply BanksFrame.crownBonus
    apply BanksFrame.divideLootAmongPlayers
    apply BanksFrame.dropTreasures
    apply BanksFrame.setDeadPlayersChat
    apply BanksFrame.applyCommons
    apply BanksFrame.applySpawns
    refine BanksFrame.ite_self ?_ _ ((BanksFrame.refl _).distributeDrawnLife w _ _) _
    exact BanksFrame.ite_self (.refl _) _ ((BanksFrame.refl _).applyDisaster w _) _

/-- A step on a block with a hash keeps the banks up to its `UpdateBanks`, which runs one block
higher, and from it on. -/
theorem PerformStep_banksFrame {fuel : Nat} {s : GameState} {d : StepData} {out : GameState}
    {r : StepResult} (hok : PerformStep w fuel s d = .ok (out, r)) (hhash : d.newHash ≠ 0) :
    ∃ s₀ g, ({ s with nHeight := s.nHeight + 1 } : GameState).BanksFrame s₀ ∧
      (s₀.UpdateBanks w g).1.BanksFrame out := by
  unfold PerformStep at hok
  split at hok
  · cases hok
  · dsimp only at hok
    rw [if_neg (by rw [PerformStepBeforeRandom_hashBlock]; exact hhash)] at hok
    split at hok
    · cases hok
    · next hrandom =>
      split at hok
      · cases hok
      · cases hok
        obtain ⟨s₀, g, h₀, h₁⟩ := PerformStepRandom_banksFrame w hrandom
        exact ⟨s₀, g, (PerformStepBeforeRandom_banksFrame w s d).trans h₀, h₁⟩

/-! ## `UpdateBanks` in parts -/

/-- `tiles` of `UpdateBanks`: the walkable tiles, and the bank tiles of the map once
`FORK_TIMESAVE` is in effect. -/
def bankTiles (s : GameState) : List Coord :=
  if s.ForkInEffect .TIMESAVE then walkableTiles_ts_banks w else walkableTiles w

/-- `newBanks` of `UpdateBanks` before the refill: none at the two fork blocks, and otherwise
the banks one block older, without those that run out now. -/
def agedBanks (s : GameState) : OrdMap Coord Nat :=
  if s.param.rules.IsForkHeight .LIFESTEAL s.nHeight then .empty
  else if s.param.rules.IsForkHeight .TIMESAVE s.nHeight then .empty
  else (s.banks.filter fun _ life => life > 1).mapVals fun _ life => life - 1

/-- `options` of `UpdateBanks`: the tiles banks are drawn from that hold none of the kept
banks, in `Coord` order. -/
def bankOptions (s : GameState) : OrdSet Coord :=
  ((bankTiles w s).foldl OrdSet.insert OrdSet.empty).filter fun c => !(agedBanks s).contains c

/-- After `FORK_LIFESTEAL`, `UpdateBanks` refills the kept banks from the options. -/
theorem UpdateBanks_eq (s : GameState) (g : RandomGenerator) (h : s.ForkInEffect .LIFESTEAL = true) :
    s.UpdateBanks w g =
      ({ s with banks := (fillBanks w (DYNBANKS_NUM_BANKS - (agedBanks s).size) (bankOptions w s).elems
          (agedBanks s) g).1 },
        (fillBanks w (DYNBANKS_NUM_BANKS - (agedBanks s).size) (bankOptions w s).elems (agedBanks s) g).2) := by
  simp only [UpdateBanks, h, Bool.not_true, Bool.false_eq_true, if_false]
  rfl

/-- The kept banks: the banks of life `l > 1`, with life `l - 1`, away from the fork blocks. -/
theorem find?_agedBanks (s : GameState) (c : Coord) :
    (agedBanks s).find? c =
      if s.param.rules.IsForkHeight .LIFESTEAL s.nHeight || s.param.rules.IsForkHeight .TIMESAVE s.nHeight
      then none
      else ((s.banks.find? c).filter (· > 1)).map (· - 1) := by
  unfold agedBanks
  by_cases hL : s.param.rules.IsForkHeight .LIFESTEAL s.nHeight <;>
    by_cases hT : s.param.rules.IsForkHeight .TIMESAVE s.nHeight <;>
    simp [hL, hT, OrdMap.find?_mapVals, OrdMap.find?_filter]

/-- The assertions of the refill loop, along it: there is a tile left to draw from, and the
tile drawn holds no bank yet (`assert (newBanks.count (c) == 0)`). -/
def fillBanksAsserts : Nat → List Coord → OrdMap Coord Nat → RandomGenerator → Bool
  | 0, _, _, _ => true
  | n + 1, options, banks, g =>
    let (ind, g) := g.GetIntRnd w options.length
    let (life, g) := g.GetIntRndRange w DYNBANKS_MIN_LIFE DYNBANKS_MAX_LIFE
    !options.isEmpty && !banks.contains (options.getD ind default) &&
      fillBanksAsserts n (options.eraseIdx ind) (banks.insert (options.getD ind default) life.toNat) g

/-- The assertions of `UpdateBanks` after `FORK_LIFESTEAL`, on the state it is given, in the
order of the source. -/
structure UpdateBanksAsserts (s : GameState) (g : RandomGenerator) : Prop where
  /-- `assert (banks.size () == DYNBANKS_NUM_BANKS)` away from the fork block -/
  size : s.param.rules.IsForkHeight .LIFESTEAL s.nHeight = false → s.banks.size = DYNBANKS_NUM_BANKS
  /-- `assert (b.second >= 1)` -/
  life_pos : s.param.rules.IsForkHeight .LIFESTEAL s.nHeight = false →
    ∀ c l, s.banks.find? c = some l → 1 ≤ l
  /-- `assert (newBanks.size () <= DYNBANKS_NUM_BANKS)` -/
  aged_size : (agedBanks s).size ≤ DYNBANKS_NUM_BANKS
  /-- `assert (!tiles.empty ())` of `FillWalkableArray` -/
  tiles_ne : bankTiles w s ≠ []
  /-- `assert (optionsSet.count (b.first) == 1)` -/
  aged_mem : ∀ c, (agedBanks s).contains c = true → c ∈ bankTiles w s
  /-- `assert (optionsSet.size () + newBanks.size () == tiles.size ())` -/
  options_size : (bankOptions w s).size + (agedBanks s).size = (bankTiles w s).length
  /-- the assertions of the refill loop -/
  fill : fillBanksAsserts w (DYNBANKS_NUM_BANKS - (agedBanks s).size) (bankOptions w s).elems
    (agedBanks s) g = true
  /-- `assert (banks.size () == DYNBANKS_NUM_BANKS)` at the end -/
  final : (s.UpdateBanks w g).1.banks.size = DYNBANKS_NUM_BANKS

/-- The refill loop draws `n` distinct tiles among the options, none of them a bank yet, and
gives each a life in `[DYNBANKS_MIN_LIFE, DYNBANKS_MAX_LIFE]`; the banks it is given stay. -/
theorem fillBanks_spec : ∀ (n : Nat) (options : List Coord) (banks : OrdMap Coord Nat) (g : RandomGenerator),
    options.Nodup → n ≤ options.length → (∀ c ∈ options, banks.contains c = false) →
    fillBanksAsserts w n options banks g = true ∧ (fillBanks w n options banks g).1.size = banks.size + n ∧
      (∀ c l, banks.find? c = some l → (fillBanks w n options banks g).1.find? c = some l) ∧
      ∀ c l, (fillBanks w n options banks g).1.find? c = some l →
        banks.find? c = some l ∨ (c ∈ options ∧ DYNBANKS_MIN_LIFE ≤ l ∧ (l : Int) ≤ DYNBANKS_MAX_LIFE)
  | 0, _, _, _, _, _, _ => ⟨rfl, rfl, fun _ _ h => h, fun _ _ h => .inl h⟩
  | n + 1, options, banks, g, hnd, hlen, hfree => by
    unfold fillBanks fillBanksAsserts
    have hind := g.getIntRnd_lt w (show 0 < options.length by omega)
    generalize g.GetIntRnd w options.length = r at hind ⊢
    obtain ⟨ind, g₁⟩ := r
    dsimp only at hind ⊢
    have hlife := g₁.getIntRndRange_mem w (show DYNBANKS_MIN_LIFE ≤ DYNBANKS_MAX_LIFE by decide)
    generalize g₁.GetIntRndRange w DYNBANKS_MIN_LIFE DYNBANKS_MAX_LIFE = r at hlife ⊢
    obtain ⟨life, g₂⟩ := r
    dsimp only at hlife ⊢
    rw [List.getD_eq_getElem _ _ hind]
    -- the tile drawn is one of the options and no bank yet, and the others are still to draw
    have hmem : options[ind] ∈ options := List.getElem_mem hind
    have hnew : banks.contains options[ind] = false := hfree _ hmem
    have hne : ∀ c ∈ options.eraseIdx ind, c ≠ options[ind] := by
      intro c hc heq
      obtain ⟨i, hi, hne, rfl⟩ := List.mem_eraseIdx_iff_getElem.mp hc
      exact hne ((List.Nodup.getElem_inj_iff hnd).mp heq)
    obtain ⟨hasserts, hsize, hkeep, hfresh⟩ := fillBanks_spec n (options.eraseIdx ind)
      (banks.insert options[ind] life.toNat) g₂ (hnd.eraseIdx ind)
      (by rw [List.length_eraseIdx_of_lt hind]; omega)
      (fun c hc => by simp [Ne.symm (hne c hc), hfree c (List.mem_of_mem_eraseIdx hc)])
    refine ⟨?_, ?_, fun c l hcl => ?_, fun c l hcl => ?_⟩
    · simp [hasserts, hnew, List.ne_nil_of_mem hmem]
    · rw [hsize, OrdMap.size_insert_of_not_contains _ hnew]
      omega
    · -- an old bank is not on the tile drawn
      have hne' : options[ind] ≠ c := by
        rintro rfl
        simp [OrdMap.contains, hcl] at hnew
      exact hkeep c l (by rw [OrdMap.find?_insert_of_ne _ _ hne']; exact hcl)
    · rcases hfresh c l hcl with h | ⟨hc, hlo, hhi⟩
      · rw [OrdMap.find?_insert] at h
        split at h
        · -- the tile drawn, with the life drawn
          next heq =>
          obtain rfl := Option.some.inj h
          subst heq
          have hmin : (0 : Int) ≤ DYNBANKS_MIN_LIFE := by decide
          exact .inr ⟨hmem, by omega, by omega⟩
        · exact .inl h
      · exact .inr ⟨List.mem_of_mem_eraseIdx hc, hlo, hhi⟩

/-! ## Valid banks -/

theorem bankTiles_nodup (s : GameState) : (bankTiles w s).Nodup := by
  unfold bankTiles walkableTiles_ts_banks walkableTiles
  split <;> exact FillWalkableArray_nodup w _

/-- The banks after `FORK_LIFESTEAL`: `DYNBANKS_NUM_BANKS` of them, each on a tile banks are
drawn from at that height and with a life in `[1, DYNBANKS_MAX_LIFE]`. Their tiles are
distinct, as the keys of a map are. -/
structure BanksValid (s : GameState) : Prop where
  size : s.banks.size = DYNBANKS_NUM_BANKS
  mem : ∀ c l, s.banks.find? c = some l → c ∈ bankTiles w s ∧ 1 ≤ l ∧ (l : Int) ≤ DYNBANKS_MAX_LIFE

/-- The banks of a state of a chain: the original ones before `FORK_LIFESTEAL`, and valid ones
after it. -/
structure BanksInv (s : GameState) : Prop where
  original : s.ForkInEffect .LIFESTEAL = false → s.banks = SetOriginalBanks
  valid : s.ForkInEffect .LIFESTEAL = true → s.BanksValid w

theorem BanksInv.of_frame {s s' : GameState} (h : s.BanksInv w) (hf : s.BanksFrame s') : s'.BanksInv w := by
  have hfork : ∀ f, s'.ForkInEffect f = s.ForkInEffect f := fun f => by
    simp only [ForkInEffect, hf.nHeight, hf.param]
  have htiles : bankTiles w s' = bankTiles w s := by
    simp only [bankTiles, hfork]
  refine ⟨fun hl => ?_, fun hl => ?_⟩
  · rw [hf.banks]
    exact h.original (by rw [← hfork]; exact hl)
  · have hv := h.valid (by rw [← hfork]; exact hl)
    exact ⟨by rw [hf.banks]; exact hv.size, fun c l hcl => by
      rw [htiles]
      exact hv.mem c l (by rw [← hf.banks]; exact hcl)⟩

/-- The original banks have life zero. -/
theorem find?_SetOriginalBanks {c : Coord} {l : Nat} (h : SetOriginalBanks.find? c = some l) : l = 0 := by
  have hall : SetOriginalBanks.All fun _ l => l = 0 := by
    unfold SetOriginalBanks
    refine List.foldl_invariant _ _ _ (fun banks d _ hb => ?_) _ (OrdMap.all_empty _)
    exact List.foldl_invariant _ _ _ (fun banks c _ hb' => hb'.insert rfl) _ hb
  exact hall c l h

/-- A fork in effect at a height other than its own and other than zero is so at the height
before, and one not in effect is not. -/
theorem forkInEffect_pred_eq (r : ConsensusRules) {type : Fork} {h : Int} (h0 : h ≠ 0)
    (hf : r.IsForkHeight type h = false) : r.ForkInEffect type (h - 1) = r.ForkInEffect type h := by
  cases hin : r.ForkInEffect type h
  · cases hpre : r.ForkInEffect type (h - 1)
    · rfl
    · rw [r.forkInEffect_mono type (by omega : h - 1 ≤ h) hpre] at hin
      cases hin
  · exact r.forkInEffect_pred h0 hf hin

@[simp] theorem nHeight_UpdateBanks (s : GameState) (g : RandomGenerator) :
    (s.UpdateBanks w g).1.nHeight = s.nHeight := by
  unfold UpdateBanks
  split <;> rfl

@[simp] theorem param_UpdateBanks (s : GameState) (g : RandomGenerator) :
    (s.UpdateBanks w g).1.param = s.param := by
  unfold UpdateBanks
  split <;> rfl

theorem forkInEffect_UpdateBanks (s : GameState) (g : RandomGenerator) (f : Fork) :
    (s.UpdateBanks w g).1.ForkInEffect f = s.ForkInEffect f := by
  simp only [ForkInEffect, nHeight_UpdateBanks, param_UpdateBanks]

theorem bankTiles_UpdateBanks (s : GameState) (g : RandomGenerator) :
    bankTiles w (s.UpdateBanks w g).1 = bankTiles w s := by
  simp only [bankTiles, forkInEffect_UpdateBanks]

section Step

variable {s s₀ : GameState}

/-- After `FORK_LIFESTEAL`, where it is not at the genesis block, the height is not zero. -/
theorem nHeight_ne_zero (hfork : 0 < s.param.rules.forkHeight .LIFESTEAL)
    (hl : s.ForkInEffect .LIFESTEAL = true) : s.nHeight ≠ 0 := by
  intro h0
  simp only [ForkInEffect, ConsensusRules.ForkInEffect, h0, decide_eq_true_eq] at hl
  omega

/-- Away from the block of a fork, the block after a state has the fork in effect just when the
state has. -/
theorem BanksFrame.forkInEffect_prev (hf : ({ s with nHeight := s.nHeight + 1 } : GameState).BanksFrame s₀)
    (h0 : s₀.nHeight ≠ 0) {f : Fork} (hF : s₀.param.rules.IsForkHeight f s₀.nHeight = false) :
    s.ForkInEffect f = s₀.ForkInEffect f := by
  have hn : s₀.nHeight = s.nHeight + 1 := hf.nHeight
  have hp : s₀.param = s.param := hf.param
  rw [ForkInEffect, ForkInEffect, ← hp, ← forkInEffect_pred_eq _ h0 hF, hn, add_sub_cancel_right]

/-- The banks `UpdateBanks` keeps in the block after a state of a chain: no more than
`DYNBANKS_NUM_BANKS`, on tiles banks are drawn from, each with a life in `[1, DYNBANKS_MAX_LIFE]`. -/
theorem agedBanks_valid (hfork : 0 < s.param.rules.forkHeight .LIFESTEAL) (hinv : s.BanksInv w)
    (hf : ({ s with nHeight := s.nHeight + 1 } : GameState).BanksFrame s₀)
    (hl : s₀.ForkInEffect .LIFESTEAL = true) :
    (agedBanks s₀).size ≤ DYNBANKS_NUM_BANKS ∧
      ∀ c l, (agedBanks s₀).find? c = some l →
        c ∈ bankTiles w s₀ ∧ 1 ≤ l ∧ (l : Int) ≤ DYNBANKS_MAX_LIFE := by
  unfold agedBanks
  split_ifs with hL hT
  · exact ⟨Nat.zero_le _, fun c l h => by simp at h⟩
  · exact ⟨Nat.zero_le _, fun c l h => by simp at h⟩
  · -- away from the fork blocks the state before is after `FORK_LIFESTEAL` too, with the same tiles
    have h0 := nHeight_ne_zero (hf.param ▸ hfork) hl
    have hv := hinv.valid (by rw [hf.forkInEffect_prev h0 (by simpa using hL)]; exact hl)
    have htiles : bankTiles w s₀ = bankTiles w s := by
      simp only [bankTiles, hf.forkInEffect_prev h0 (by simpa using hT)]
    refine ⟨?_, fun c l h => ?_⟩
    · rw [OrdMap.size_mapVals, hf.banks, ← hv.size]
      exact OrdMap.size_filter_le _ _
    · rw [OrdMap.find?_mapVals, OrdMap.find?_filter, hf.banks] at h
      obtain ⟨l₀, hl₀, rfl⟩ := Option.map_eq_some_iff.mp h
      obtain ⟨hfind, hgt⟩ := Option.filter_eq_some_iff.mp hl₀
      have hgt' : l₀ > 1 := by simpa using hgt
      obtain ⟨hc, -, hle⟩ := hv.mem c l₀ hfind
      exact ⟨htiles ▸ hc, by omega, by omega⟩

/-- The refill of `UpdateBanks` from kept banks that are no more than `DYNBANKS_NUM_BANKS` and
lie on tiles banks are drawn from, of which there are at least `DYNBANKS_NUM_BANKS`. -/
theorem UpdateBanks_refill (g : RandomGenerator) (hl : s₀.ForkInEffect .LIFESTEAL = true)
    (htiles : DYNBANKS_NUM_BANKS ≤ (bankTiles w s₀).length)
    (hsize : (agedBanks s₀).size ≤ DYNBANKS_NUM_BANKS)
    (hmem : ∀ c, (agedBanks s₀).contains c = true → c ∈ bankTiles w s₀) :
    (bankOptions w s₀).size + (agedBanks s₀).size = (bankTiles w s₀).length ∧
      fillBanksAsserts w (DYNBANKS_NUM_BANKS - (agedBanks s₀).size) (bankOptions w s₀).elems
        (agedBanks s₀) g = true ∧
      (s₀.UpdateBanks w g).1.banks.size = DYNBANKS_NUM_BANKS ∧
      (∀ c l, (agedBanks s₀).find? c = some l → (s₀.UpdateBanks w g).1.banks.find? c = some l) ∧
      ∀ c l, (s₀.UpdateBanks w g).1.banks.find? c = some l → (agedBanks s₀).find? c = some l ∨
        ((agedBanks s₀).contains c = false ∧ c ∈ bankTiles w s₀ ∧
          DYNBANKS_MIN_LIFE ≤ l ∧ (l : Int) ≤ DYNBANKS_MAX_LIFE) := by
  -- the options are the tiles, each once, but those of the kept banks
  have hset : ((bankTiles w s₀).foldl OrdSet.insert OrdSet.empty).size = (bankTiles w s₀).length :=
    OrdSet.size_foldl_insert (bankTiles_nodup w s₀)
  have hopt : (bankOptions w s₀).size + (agedBanks s₀).size = (bankTiles w s₀).length := by
    rw [← hset]
    exact OrdMap.length_filter_not_contains (OrdSet.nodup _) _
      fun c hc => (OrdSet.mem_foldl_insert _ _).mpr (.inl (hmem c hc))
  have hfree : ∀ c ∈ (bankOptions w s₀).elems, (agedBanks s₀).contains c = false := fun c hc => by
    simpa using (List.mem_filter.mp hc).2
  have htile : ∀ c ∈ (bankOptions w s₀).elems, c ∈ bankTiles w s₀ := fun c hc => by
    have := (OrdSet.mem_foldl_insert _ _).mp (List.mem_filter.mp hc).1
    simpa [OrdSet.empty] using this
  obtain ⟨hasserts, hsz, hkeep, hfresh⟩ := fillBanks_spec w (DYNBANKS_NUM_BANKS - (agedBanks s₀).size)
    (bankOptions w s₀).elems (agedBanks s₀) g (OrdSet.nodup _)
    (by unfold OrdSet.size at hopt; omega) hfree
  rw [UpdateBanks_eq w s₀ g hl]
  refine ⟨hopt, hasserts, by rw [hsz]; omega, hkeep, fun c l h => ?_⟩
  rcases hfresh c l h with h | ⟨hc, hlo, hhi⟩
  · exact .inl h
  · exact .inr ⟨hfree c hc, htile c hc, hlo, hhi⟩

/-- `UpdateBanks` in the block after a state of a chain, on a map with at least
`DYNBANKS_NUM_BANKS` tiles of each kind: after `FORK_LIFESTEAL` its assertions hold, and the
banks it leaves are those of a state of a chain. -/
theorem UpdateBanks_step (hfork : 0 < s.param.rules.forkHeight .LIFESTEAL)
    (htiles : DYNBANKS_NUM_BANKS ≤ (walkableTiles w).length ∧
      DYNBANKS_NUM_BANKS ≤ (walkableTiles_ts_banks w).length)
    (hinv : s.BanksInv w) (hf : ({ s with nHeight := s.nHeight + 1 } : GameState).BanksFrame s₀)
    (g : RandomGenerator) :
    (s₀.ForkInEffect .LIFESTEAL = true → s₀.UpdateBanksAsserts w g) ∧ (s₀.UpdateBanks w g).1.BanksInv w := by
  have hlen : DYNBANKS_NUM_BANKS ≤ (bankTiles w s₀).length := by
    unfold bankTiles
    split
    · exact htiles.2
    · exact htiles.1
  cases hl : s₀.ForkInEffect .LIFESTEAL
  · -- before the fork nothing changes, and the banks are still the original ones
    have hnot : s.ForkInEffect .LIFESTEAL = false := by
      cases hs : s.ForkInEffect .LIFESTEAL
      · rfl
      · have := s.param.rules.forkInEffect_mono .LIFESTEAL (by omega : s.nHeight ≤ s.nHeight + 1) hs
        rw [ForkInEffect, hf.nHeight, hf.param] at hl
        rw [this] at hl
        cases hl
    have hsame : (s₀.UpdateBanks w g).1 = s₀ := by
      simp [UpdateBanks, hl]
    refine ⟨fun h => absurd h (by simp), ?_⟩
    rw [hsame]
    exact ⟨fun _ => hf.banks.trans (hinv.original hnot), fun h => absurd h (by simp [hl])⟩
  · obtain ⟨hsize, hmem⟩ := agedBanks_valid w hfork hinv hf hl
    have haged : ∀ c, (agedBanks s₀).contains c = true → c ∈ bankTiles w s₀ := fun c hc => by
      obtain ⟨l, hcl⟩ := Option.isSome_iff_exists.mp hc
      exact (hmem c l hcl).1
    obtain ⟨hopt, hfill, hfinal, -, hnew⟩ := UpdateBanks_refill w g hl hlen hsize haged
    refine ⟨fun _ => ⟨fun hL => ?_, fun hL => ?_, hsize, List.ne_nil_of_length_pos (by
      unfold DYNBANKS_NUM_BANKS at hlen; omega), haged, hopt, hfill, hfinal⟩, ?_⟩
    · -- away from the fork block the banks are those of the state before
      have hv := hinv.valid (by
        rw [hf.forkInEffect_prev (nHeight_ne_zero (hf.param ▸ hfork) hl) hL]; exact hl)
      rw [hf.banks]
      exact hv.size
    · have hv := hinv.valid (by
        rw [hf.forkInEffect_prev (nHeight_ne_zero (hf.param ▸ hfork) hl) hL]; exact hl)
      intro c l hcl
      rw [hf.banks] at hcl
      exact (hv.mem c l hcl).2.1
    · -- the banks left are the kept ones and the new ones
      refine ⟨fun h => ?_, fun _ => ⟨hfinal, fun c l hcl => ?_⟩⟩
      · rw [forkInEffect_UpdateBanks, hl] at h
        cases h
      rw [bankTiles_UpdateBanks]
      rcases hnew c l hcl with h | ⟨-, hc, hlo, hhi⟩
      · exact hmem c l h
      · exact ⟨hc, by unfold DYNBANKS_MIN_LIFE at hlo; omega, hhi⟩

end Step

end GameState

/-! ## The banks of a chain -/

variable (w : World)

/-- The blocks of a chain: the steps of the game whose block hash is not null. A null hash is
what a miner passes to learn the tax before the block exists; no state of a chain comes from
it. -/
def BlockSystem (param : Params) : TransitionSystem GameState (Nat × Nat × List Move) where
  init := (GameSystem w param).init
  step s e s' := e.2.1 ≠ 0 ∧ (GameSystem w param).step s e s'

open GameState in
/-- Every state of a chain has the rules of the chain and its banks: the original ones before
`FORK_LIFESTEAL` and valid ones after it. -/
theorem BlockSystem_banksInv (param : Params) (hfork : 0 < param.rules.forkHeight .LIFESTEAL)
    (htiles : DYNBANKS_NUM_BANKS ≤ (walkableTiles w).length ∧
      DYNBANKS_NUM_BANKS ≤ (walkableTiles_ts_banks w).length)
    {s : GameState} (hs : (BlockSystem w param).Reachable s) : s.param = param ∧ s.BanksInv w := by
  induction hs with
  | init h =>
    -- before the genesis block no fork is in effect
    rw [h]
    refine ⟨rfl, fun _ => rfl, fun hl => ?_⟩
    have hn : (GameState.init param).nHeight = -1 := rfl
    simp only [ForkInEffect, hn, ConsensusRules.ForkInEffect, decide_eq_true_eq] at hl
    omega
  | step _ hstep ih =>
    obtain ⟨hhash, -, r, hok⟩ := hstep
    obtain ⟨s₀, g, hf₀, hf₁⟩ := PerformStep_banksFrame w hok hhash
    have hnext := (UpdateBanks_step w (ih.1 ▸ hfork) htiles ih.2 hf₀ g).2.of_frame w hf₁
    refine ⟨?_, hnext⟩
    rw [hf₁.param, param_UpdateBanks, hf₀.param]
    exact ih.1

open GameState in
/-- The banks of a chain whose life-steal fork is not at its genesis block, on a map with at
least `DYNBANKS_NUM_BANKS` tiles of each kind. After `FORK_LIFESTEAL` there are
`DYNBANKS_NUM_BANKS` banks, on distinct tiles banks are drawn from, with lives in
`[1, DYNBANKS_MAX_LIFE]`. In the next block, `UpdateBanks` keeps each bank of life `l > 1`
with life `l - 1` (but at the `FORK_TIMESAVE` block), and every bank it leaves is a kept one
or a new one on a tile that holds no kept bank, with a life in
`[DYNBANKS_MIN_LIFE, DYNBANKS_MAX_LIFE]`; its assertions all hold. -/
theorem BlockSystem_banks (param : Params) (hfork : 0 < param.rules.forkHeight .LIFESTEAL)
    (htiles : DYNBANKS_NUM_BANKS ≤ (walkableTiles w).length ∧
      DYNBANKS_NUM_BANKS ≤ (walkableTiles_ts_banks w).length)
    {s : GameState} (hs : (BlockSystem w param).Reachable s) :
    (s.ForkInEffect .LIFESTEAL = true → s.BanksValid w) ∧
      ∀ (s₀ : GameState) (g : RandomGenerator),
        ({ s with nHeight := s.nHeight + 1 } : GameState).BanksFrame s₀ →
        s₀.ForkInEffect .LIFESTEAL = true →
        s₀.UpdateBanksAsserts w g ∧
          (∀ c l, s.banks.find? c = some l → 1 < l →
            s₀.param.rules.IsForkHeight .TIMESAVE s₀.nHeight = false →
            (s₀.UpdateBanks w g).1.banks.find? c = some (l - 1)) ∧
          ∀ c l, (s₀.UpdateBanks w g).1.banks.find? c = some l →
            (agedBanks s₀).find? c = some l ∨
              ((agedBanks s₀).contains c = false ∧ c ∈ bankTiles w s₀ ∧
                DYNBANKS_MIN_LIFE ≤ l ∧ (l : Int) ≤ DYNBANKS_MAX_LIFE) := by
  obtain ⟨hparam, hinv⟩ := BlockSystem_banksInv w param hfork htiles hs
  subst hparam
  refine ⟨hinv.valid, fun s₀ g hf hl => ?_⟩
  obtain ⟨hsize, hmem⟩ := agedBanks_valid w hfork hinv hf hl
  obtain ⟨-, -, -, hkeep, hnew⟩ := UpdateBanks_refill w g hl
    (by unfold bankTiles; split; exacts [htiles.2, htiles.1]) hsize
    (fun c hc => by
      obtain ⟨l, hcl⟩ := Option.isSome_iff_exists.mp hc
      exact (hmem c l hcl).1)
  refine ⟨(UpdateBanks_step w hfork htiles hinv hf g).1 hl, fun c l hcl hgt hT => hkeep c _ ?_, hnew⟩
  -- an old bank of life above one is kept: at the fork block itself the old banks are the
  -- original ones, of life zero
  have hL : s₀.param.rules.IsForkHeight .LIFESTEAL s₀.nHeight = false := by
    cases hF : s₀.param.rules.IsForkHeight .LIFESTEAL s₀.nHeight
    · rfl
    · have hprev : s.ForkInEffect .LIFESTEAL = false := by
        have hn : s₀.nHeight = s.nHeight + 1 := hf.nHeight
        have hp : s₀.param = s.param := hf.param
        unfold ConsensusRules.IsForkHeight at hF
        split at hF
        · cases hF
        · simp only [Bool.and_eq_true, Bool.not_eq_true'] at hF
          rw [hp, hn, add_sub_cancel_right] at hF
          exact hF.2
      have := find?_SetOriginalBanks (hinv.original hprev ▸ hcl)
      omega
  rw [find?_agedBanks, hL, hT, hf.banks, hcl]
  simp [hgt]

/-- The flat map with every tile a bank tile. -/
def World.flatBanks : World := { World.flat with SpawnMap := fun _ _ => SPAWNMAPFLAG_BANK }

/-- The main network's rules with every fork up to `FORK_LIFESTEAL` moved to the block after the
genesis block. -/
def earlyLifeStealConsensus : ConsensusRules where
  forkHeight
    | .TIMESAVE => 1521500
    | _ => 1
  testing := false
  poison_le_carryingCap := by decide
  carryingCap_le_lessHearts := by decide
  lessHearts_le_lifeSteal := by decide
  lifeSteal_le_timeSave := by decide

def earlyLifeStealParams : Params := ⟨earlyLifeStealConsensus, 2100000⟩

open GameState in
/-- A chain on the flat map of bank tiles whose genesis block spawns two players; the next block is
the life-steal fork block, where `UpdateBanks` draws the first dynamic banks, its assertions hold
and every bank it draws lies on a bank tile with a life in range. -/
theorem BlockSystem_banks_lifeSteal :
    ∃ s r, PerformStep World.flatBanks 10 (GameState.init earlyLifeStealParams)
        (StepData.init (GameState.init earlyLifeStealParams) 7 [spawnMove "a" 0, spawnMove "b" 1]) =
          .ok (s, r) ∧
      s.players.size = 2 ∧
      let s₀ : GameState := { s with nHeight := s.nHeight + 1 }
      s₀.ForkInEffect .LIFESTEAL = true ∧
      ∀ g, s₀.UpdateBanksAsserts World.flatBanks g ∧
        (∀ c l, s.banks.find? c = some l → 1 < l →
          s₀.param.rules.IsForkHeight .TIMESAVE s₀.nHeight = false →
          (s₀.UpdateBanks World.flatBanks g).1.banks.find? c = some (l - 1)) ∧
        ∀ c l, (s₀.UpdateBanks World.flatBanks g).1.banks.find? c = some l →
          (agedBanks s₀).find? c = some l ∨
            ((agedBanks s₀).contains c = false ∧ c ∈ bankTiles World.flatBanks s₀ ∧
              DYNBANKS_MIN_LIFE ≤ l ∧ (l : Int) ≤ DYNBANKS_MAX_LIFE) := by
  have htiles : DYNBANKS_NUM_BANKS ≤ (walkableTiles World.flatBanks).length ∧
      DYNBANKS_NUM_BANKS ≤ (walkableTiles_ts_banks World.flatBanks).length := by
    rw [walkableTiles, walkableTiles_ts_banks,
      length_FillWalkableArray_of_forall World.flatBanks _ fun _ _ => rfl,
      length_FillWalkableArray_of_forall World.flatBanks
        (fun x y => World.flatBanks.SpawnMap y x &&& SPAWNMAPFLAG_BANK != 0)
        fun _ _ => by simp [World.flatBanks, World.flat, World.IsWalkable, SPAWNMAPFLAG_BANK]]
    decide
  -- the engine runs the genesis block, at height zero, before any fork
  have hrun : (PerformStep World.flatBanks 10 (GameState.init earlyLifeStealParams)
      (StepData.init (GameState.init earlyLifeStealParams) 7 [spawnMove "a" 0, spawnMove "b" 1])).toOption.any
        (fun p => p.1.players.size == 2 && p.1.nHeight == 0 && p.1.param.rules.forkHeight .LIFESTEAL == 1) =
        true := by decide +kernel
  obtain ⟨⟨s, r⟩, hok, hcheck⟩ := Except.exists_eq_ok_of_any hrun
  simp only [Bool.and_eq_true, beq_iff_eq] at hcheck
  obtain ⟨⟨hsize, hheight⟩, hfork⟩ := hcheck
  have hs : (BlockSystem World.flatBanks earlyLifeStealParams).Reachable s :=
    TransitionSystem.Reachable.step (e := (10, 7, [spawnMove "a" 0, spawnMove "b" 1]))
      (TransitionSystem.Reachable.init rfl) ⟨by decide, by decide, r, hok⟩
  have hl : ({ s with nHeight := s.nHeight + 1 } : GameState).ForkInEffect .LIFESTEAL = true := by
    simp [ForkInEffect, ConsensusRules.ForkInEffect, hheight, hfork]
  exact ⟨s, r, hok, hsize, hl, fun g =>
    (BlockSystem_banks World.flatBanks earlyLifeStealParams (by decide) htiles hs).2 _ g
      (BanksFrame.refl _) hl⟩

end Huntercore
