import Mathlib
import Huntercore.Lib.Control
import Huntercore.Game.Invariant.Basic

/-!
# The invariant through the phases after the kills

Once `FinaliseKills` has removed the dead, every player is alive, and the rest of the step
keeps it so (`GameState.Live`). Characters walk, then `UpdateCrownState` puts the crown on
its holder's tile, and from there on no phase moves or removes a character (`LatePhase`):
banking, the disaster, the payout of drawn life, the treasure, the crown bonus, the banks,
the heart drop, the heart collection and the crown collection only change values, loot,
lives and the map.

The random choices of these phases index lists by a number drawn below their length, so the
element drawn is always one of the list: a player that is there, or a character on the
crown's tile.
-/

namespace Huntercore

variable (w : World)

/-! ## Drawing from a list -/

/-- The index `CollectHearts` and `CollectCrown` draw: `0` for a single candidate, else a
random number below the number of candidates. -/
theorem RandomGenerator.pick_lt (g : RandomGenerator) {n : Nat} (hn : 0 < n) :
    (if n = 1 then (0, g) else g.GetIntRnd w n).1 < n := by
  split
  · exact hn
  · exact g.getIntRnd_lt w hn

theorem List.getD_mem_of_lt {α : Type} {l : List α} {i : Nat} (d : α) (h : i < l.length) :
    l.getD i d ∈ l := by
  rw [List.getD_eq_getElem _ _ h]
  exact List.getElem_mem h

/-! ## Characters -/

@[simp] theorem CharacterState.loot_MoveTowardsWaypoint (ch : CharacterState) :
    (ch.MoveTowardsWaypoint w).loot = ch.loot := by
  unfold CharacterState.MoveTowardsWaypoint
  split
  · rfl
  · dsimp only
    split <;> split_ifs <;> rfl

@[simp] theorem loot_moveCharacter (s : GameState) (ch : CharacterState) :
    (moveCharacter w s ch).loot = ch.loot := by
  unfold moveCharacter
  dsimp only
  rw [CharacterState.loot_MoveTowardsWaypoint]
  split_ifs <;> rfl

@[simp] theorem CharacterState.coord_CollectLoot (ch : CharacterState) (loot : LootInfo)
    (nHeight carryCap : Int) : (ch.CollectLoot loot nHeight carryCap).1.coord = ch.coord := rfl

/-- A character leaves behind only what it cannot carry, never a debt. -/
theorem CharacterState.CollectLoot_rem_nonneg (ch : CharacterState) (loot : LootInfo)
    (nHeight carryCap : Int) : 0 ≤ (ch.CollectLoot loot nHeight carryCap).2 := by
  unfold CharacterState.CollectLoot
  dsimp only
  split
  · exact le_refl 0
  · next h =>
    simp only [Bool.or_eq_true, decide_eq_true_eq, not_or] at h
    omega

/-- A character takes no more than it is offered. -/
theorem CharacterState.CollectLoot_rem_le (ch : CharacterState) (loot : LootInfo)
    (nHeight carryCap : Int) (h : 0 ≤ loot.nAmount) :
    (ch.CollectLoot loot nHeight carryCap).2 ≤ loot.nAmount := by
  unfold CharacterState.CollectLoot
  dsimp only
  split
  · exact h
  · have := le_max_right (carryCap - ch.loot.nAmount) 0
    omega

/-- Banking keeps the character on its tile and leaves it without loot. -/
theorem bankCharacter_kept (s : GameState) (pid : PlayerID) (address : String) (step : StepResult)
    (i : Int) (ch : CharacterState) :
    (bankCharacter w s pid address step i ch).1.coord = ch.coord ∧
      (ch.LootSound → (bankCharacter w s pid address step i ch).1.LootSound) := by
  unfold bankCharacter
  split
  · exact ⟨rfl, fun _ => CharacterState.lootSound_default⟩
  · exact ⟨rfl, id⟩

namespace GameState

/-! ## Walking and the crown -/

/-- Walking changes where characters stand and nothing the invariant reads. -/
theorem moveCharacters_live {cap : Nat} {s : GameState} (h : s.Live cap) :
    ({ s with players := s.players.mapVals fun _ pl =>
        { pl with characters := pl.characters.mapVals fun _ ch => moveCharacter w s ch } } :
      GameState).Live cap ∧
    s.Frame { s with players := s.players.mapVals fun _ pl =>
        { pl with characters := pl.characters.mapVals fun _ ch => moveCharacter w s ch } } := by
  refine ⟨⟨⟨h.sound.players.mapVals fun _ pl hpl => ?_, h.sound.loot_pos, h.sound.fund_nonneg⟩,
    h.alive.mapVals fun _ pl hpl => hpl.of_eq (by simp) rfl⟩, ⟨fun p hp => by simpa using hp, rfl, rfl, rfl⟩⟩
  exact hpl.of_characters (by simp) (fun i hi => by simpa using hi) rfl rfl
    (hpl.loot.mapVals fun _ ch hch => by unfold CharacterState.LootSound; rw [loot_moveCharacter]; exact hch)

/-- `UpdateCrownState` as a change of the crown only. -/
theorem UpdateCrownState_frame (s : GameState) :
    s.UpdateCrownState.1.players = s.players ∧ s.UpdateCrownState.1.loot = s.loot ∧
      s.UpdateCrownState.1.gameFund = s.gameFund ∧ s.UpdateCrownState.1.hearts = s.hearts ∧
      s.UpdateCrownState.1.nHeight = s.nHeight ∧ s.UpdateCrownState.1.param = s.param := by
  unfold UpdateCrownState
  split
  · simp
  · split
    · simp
    · split
      · simp
      · split <;> simp

/-- After `UpdateCrownState` the crown, if held, lies on its holder's tile. -/
theorem UpdateCrownState_crownHeld (s : GameState) : s.UpdateCrownState.1.CrownHeld := by
  unfold UpdateCrownState
  split
  · next hnone => exact fun hne => absurd hnone hne
  · split
    · exact fun hne => absurd rfl hne
    · next pl hpl =>
      split
      · exact fun hne => absurd rfl hne
      · next ch hch =>
        split
        · exact fun hne => absurd rfl hne
        · exact fun _ => ⟨pl, ch, hpl, hch, rfl⟩

theorem UpdateCrownState_live {cap : Nat} {s : GameState} (h : s.Live cap) :
    s.UpdateCrownState.1.Live cap ∧ s.Frame s.UpdateCrownState.1 := by
  obtain ⟨hp, hl, hf, hh, hn, hpar⟩ := s.UpdateCrownState_frame
  exact ⟨h.of_eq hp hl hf, ⟨fun p hc => by rwa [hp] at hc, hh, hn, hpar⟩⟩

/-! ## Banking -/

/-- Banking empties the loot of characters on banks and keeps everything else. -/
theorem Banking_late {cap : Nat} {s : GameState} (r : StepResult) (h : s.Live cap) :
    s.LatePhase cap (Banking w s r).1 ∧
      ∀ p, (Banking w s r).1.players.contains p = s.players.contains p := by
  unfold Banking
  dsimp only
  refine ⟨⟨⟨⟨h.sound.players.mapAccum (fun acc pid pl hpl => ?_) _, h.sound.loot_pos, h.sound.fund_nonneg⟩,
      h.alive.mapAccum (fun acc pid pl hpl => ?_) _⟩,
    CharsKept.mapAccum _ _ fun acc pid pl i ch hch => ?_, rfl, rfl, fun hg => hg.of_eq rfl rfl rfl,
    rfl, rfl⟩, fun p => OrdMap.contains_mapAccum _ _ _ p⟩
  · exact hpl.of_characters (OrdMap.size_mapAccum _ _ _) (fun i hi => by rwa [OrdMap.contains_mapAccum] at hi)
      rfl rfl (hpl.loot.mapAccum (fun acc' i ch hch => (bankCharacter_kept w s pid pl.address acc' i ch).2 hch) _)
  · exact hpl.of_eq (OrdMap.contains_mapAccum _ _ _ 0) rfl
  · obtain ⟨acc', hc⟩ := OrdMap.find?_mapAccum_of_find? pl.characters (bankCharacter w s pid pl.address) acc hch
    exact ⟨_, hc, (bankCharacter_kept w s pid pl.address acc' i ch).1⟩

/-! ## The disaster -/

/-- A disaster gives every player between one and `POISON_MAX_LIFE` blocks to live, and
after `FORK_LESSHEARTS` removes the hearts. -/
theorem ApplyDisaster_late {cap : Nat} {s : GameState} (g : RandomGenerator) (h : s.Live cap) :
    s.LatePhase cap (s.ApplyDisaster w g).1 ∧
      ∀ p, (s.ApplyDisaster w g).1.players.contains p = s.players.contains p := by
  have hlife : ∀ g : RandomGenerator, 1 ≤ (g.GetIntRndRange w POISON_MIN_LIFE POISON_MAX_LIFE).1 ∧
      (g.GetIntRndRange w POISON_MIN_LIFE POISON_MAX_LIFE).1 ≤ POISON_MAX_LIFE :=
    fun g => g.getIntRndRange_mem w (by decide)
  unfold ApplyDisaster
  dsimp only
  split <;> refine ⟨⟨⟨⟨h.sound.players.mapAccum (fun _ _ pl hpl => hpl.of_eq rfl rfl rfl) _,
      h.sound.loot_pos, h.sound.fund_nonneg⟩,
      h.alive.mapAccum (fun acc _ pl hpl => ⟨hpl.general, .inr (hlife acc)⟩) _⟩,
    CharsKept.mapAccum _ _ fun _ _ _ _ ch hch => ⟨ch, hch, rfl⟩, rfl, rfl, ?_, rfl, rfl⟩,
    fun p => OrdMap.contains_mapAccum _ _ _ p⟩
  · -- after `FORK_LESSHEARTS` the disaster removes the hearts
    exact fun _ _ => rfl
  · exact fun hg => hg.of_eq rfl rfl rfl

/-! ## The payout of drawn life -/

/-- The payout loop for one attacked character: each payment raises the value of a living
attacker's player, and what is left goes to the fund. -/
theorem spendDrawnLife_late {cap : Nat} {damage : Int} (hd : 0 ≤ damage) :
    ∀ (fuel : Nat) (alive : List CharacterID) (toSpend : Int) (acc : GameState × RandomGenerator),
      acc.1.Live cap → 0 ≤ toSpend → (∀ m ∈ alive, acc.1.players.contains m.player = true) →
      acc.1.LatePhase cap (CharactersOnTiles.spendDrawnLife w damage fuel alive toSpend acc).1 ∧
        ∀ p, (CharactersOnTiles.spendDrawnLife w damage fuel alive toSpend acc).1.players.contains p =
          acc.1.players.contains p
  | 0, _, _, (_, _), h, ht, _ => ⟨LatePhase.addFund h ht, fun _ => rfl⟩
  | fuel + 1, alive, toSpend, (s, g), h, ht, halive => by
    dsimp only at h halive
    unfold CharactersOnTiles.spendDrawnLife
    split
    · exact ⟨LatePhase.addFund h ht, fun _ => rfl⟩
    · next hgo =>
      simp only [Bool.or_eq_true, decide_eq_true_eq, not_or] at hgo
      have hlt := g.getIntRnd_lt w (List.length_pos_of_ne_nil hgo.1)
      dsimp only
      generalize g.GetIntRnd w alive.length = r at hlt ⊢
      obtain ⟨i, g'⟩ := r
      dsimp only at hlt ⊢
      -- the attacker drawn is one of the living attackers, so its player is there
      have hcont := halive _ (List.getD_mem_of_lt default hlt)
      generalize (alive.getD i default).player = pid at hcont ⊢
      obtain ⟨pl, hpl⟩ := Option.isSome_iff_exists.mp hcont
      have hget : s.players.getD pid default = pl := by
        unfold OrdMap.getD
        rw [hpl]
        rfl
      rw [hget]
      have hs := h.sound.players _ pl hpl
      have hs' : ({ pl with value := pl.value + damage } : PlayerState).Sound cap :=
        ⟨hs.size_le, hs.index_lt, hs.next_le, by have := hs.value_nonneg; dsimp only; omega, hs.loot⟩
      have hstep := LatePhase.setPlayer h hpl hs' ((h.alive _ pl hpl).of_eq rfl rfl)
        fun _ ch hch => ⟨ch, hch, rfl⟩
      have hc := OrdMap.contains_insert_of_contains { pl with value := pl.value + damage } hcont
      obtain ⟨ih₁, ih₂⟩ := spendDrawnLife_late hd fuel (alive.eraseIdx i) (toSpend - damage)
        ({ s with players := s.players.insert pid { pl with value := pl.value + damage } }, g')
        hstep.live (by omega) fun m hm => by
          dsimp only
          rw [hc]
          exact halive m (List.mem_of_mem_eraseIdx hm)
      exact ⟨hstep.trans ih₁, fun p => (ih₂ p).trans (hc p)⟩

/-- `DistributeDrawnLife`: the drawn life of each attacked character goes to the players of
its living attackers, and the rest to the fund. -/
theorem DistributeDrawnLife_late {cap : Nat} (t : CharactersOnTiles) (g : RandomGenerator)
    {s : GameState} (h : s.Live cap) (ht : ∀ e ∈ t.tiles, 0 ≤ e.2.drawnLife) :
    s.LatePhase cap (t.DistributeDrawnLife w g s).1 ∧
      ∀ p, (t.DistributeDrawnLife w g s).1.players.contains p = s.players.contains p := by
  unfold CharactersOnTiles.DistributeDrawnLife
  split
  · exact ⟨LatePhase.refl h, fun _ => rfl⟩
  · dsimp only
    refine List.foldl_invariant (fun acc : GameState × RandomGenerator =>
        s.LatePhase cap acc.1 ∧ ∀ p, acc.1.players.contains p = s.players.contains p) _ t.tiles
      (fun acc e he ⟨hl, hk⟩ => ?_) (s, g) ⟨LatePhase.refl h, fun _ => rfl⟩
    split
    · exact ⟨hl, hk⟩
    · refine (fun hsp => ⟨hl.trans hsp.1, fun p => (hsp.2 p).trans (hk p)⟩)
        (spendDrawnLife_late w (getNameCoinAmount_pos s.param s.nHeight).le _ _ _ acc hl.live (ht e he)
          fun m hm => ?_)
      -- a living attacker is an attacked character whose player was there before the payout
      simp only [List.mem_filter, List.contains_iff_mem, List.mem_map] at hm
      obtain ⟨-, e', ⟨-, he'⟩, rfl⟩ := hm
      rw [hk]
      simpa using he'

/-! ## Treasure, crown bonus and banks -/

theorem harvestPortion_nonneg (i : Nat) : 0 ≤ HarvestPortions.getD i 0 := by
  rw [List.getD_eq_getElem?_getD]
  cases h : HarvestPortions[i]? with
  | none => exact le_refl 0
  | some x =>
    have hx : x ∈ HarvestPortions := List.mem_of_getElem? h
    have hall : ∀ y ∈ HarvestPortions, (0 : Int) ≤ y := by decide
    exact hall x hx

/-- The treasure of one harvest area lands on one of its tiles. -/
theorem dropTreasure_late {cap : Nat} {nTreasureAmount : Int} (hn : 0 ≤ nTreasureAmount)
    (acc : GameState × RandomGenerator) (i : Nat) (h : acc.1.Live cap) :
    acc.1.LatePhase cap (dropTreasure w nTreasureAmount acc i).1 := by
  have hamount : 0 ≤ (HarvestPortions.getD i 0 * nTreasureAmount).tdiv TOTAL_HARVEST :=
    Int.tdiv_nonneg (mul_nonneg (harvestPortion_nonneg i) hn) (by decide)
  unfold dropTreasure
  dsimp only
  exact ⟨⟨acc.1.AddLoot_sound _ _ h.sound hamount, by rw [players_AddLoot]; exact h.alive⟩,
    by rw [players_AddLoot]; exact CharsKept.refl _, crownHolder_AddLoot .., crownPos_AddLoot ..,
    fun hg => hg.of_eq (hearts_AddLoot ..) (nHeight_AddLoot ..) (param_AddLoot ..),
    nHeight_AddLoot .., param_AddLoot ..⟩

/-- `CrownBonus`: the holder collects the bonus up to its capacity, and the fund gets the
rest. -/
theorem CrownBonus_late {cap : Nat} {s : GameState} {nAmount : Int} (h : s.Live cap)
    (hc : s.CrownHeld) (ha : 0 ≤ nAmount) (hh : 0 ≤ s.nHeight) :
    s.LatePhase cap (s.CrownBonus nAmount) := by
  unfold CrownBonus
  split
  · next hne =>
    obtain ⟨pl, ch, hpl, hch, -⟩ := hc hne
    have hgetp : s.players.getD s.crownHolder.player default = pl := by
      unfold OrdMap.getD
      rw [hpl]
      rfl
    have hgetc : pl.characters.getD s.crownHolder.index default = ch := by
      unfold OrdMap.getD
      rw [hch]
      rfl
    dsimp only
    rw [hgetp, hgetc]
    have hs := h.sound.players _ pl hpl
    have hcont : pl.characters.contains s.crownHolder.index = true := by simp [OrdMap.contains, hch]
    have hloot := (hs.loot _ ch hch).CollectLoot (LootInfo.ofAmount nAmount s.nHeight)
      (GetCarryingCapacity s (s.crownHolder.index == (0 : Int)) true) hh
    have hrem := ch.CollectLoot_rem_nonneg (LootInfo.ofAmount nAmount s.nHeight) s.nHeight
      (GetCarryingCapacity s (s.crownHolder.index == (0 : Int)) true)
    have hcoord := ch.coord_CollectLoot (LootInfo.ofAmount nAmount s.nHeight) s.nHeight
      (GetCarryingCapacity s (s.crownHolder.index == (0 : Int)) true)
    generalize ch.CollectLoot _ _ _ = res at hloot hrem hcoord ⊢
    -- the holder's character collects; its player keeps the same characters
    have hs' : ({ pl with characters := pl.characters.insert s.crownHolder.index res.1 } :
        PlayerState).Sound cap :=
      hs.of_characters (OrdMap.size_insert_of_contains _ hcont)
        (fun i hi => by rwa [OrdMap.contains_insert_of_contains _ hcont] at hi) rfl rfl
        (hs.loot.insert hloot)
    have hstep := LatePhase.setPlayer h hpl hs'
      ((h.alive _ pl hpl).of_eq (OrdMap.contains_insert_of_contains _ hcont 0) rfl)
      fun i ch' hch' => by
        by_cases hi : s.crownHolder.index = i
        · subst hi
          rw [hch, Option.some.injEq] at hch'
          subst hch'
          exact ⟨res.1, by simp, hcoord⟩
        · exact ⟨ch', by rw [OrdMap.find?_insert_of_ne _ _ hi]; exact hch', rfl⟩
    exact hstep.trans (LatePhase.addFund hstep.live hrem)
  · exact LatePhase.addFund h ha

/-- `UpdateBanks` changes the banks only. -/
theorem UpdateBanks_late {cap : Nat} {s : GameState} (g : RandomGenerator) (h : s.Live cap) :
    s.LatePhase cap (s.UpdateBanks w g).1 := by
  unfold UpdateBanks
  split
  · exact LatePhase.refl h
  · exact LatePhase.of_eq h rfl rfl rfl rfl rfl rfl rfl rfl

/-- A heart is dropped only before the life-steal fork. -/
theorem DropHeartOnMap_late {cap : Nat} {fuel : Nat} {s s' : GameState} {g g' : RandomGenerator}
    (h : s.Live cap) (hok : DropHeartOnMap w fuel s g = .ok (s', g')) : s.LatePhase cap s' := by
  unfold DropHeartOnMap at hok
  split at hok
  · next hdrop =>
    split at hok
    · cases hok
      refine ⟨h.of_eq rfl rfl rfl, CharsKept.refl _, rfl, rfl, fun _ hl => ?_, rfl, rfl⟩
      -- `DropHeart` is false after the fork
      simp [DropHeart, show s.ForkInEffect .LIFESTEAL = true from hl] at hdrop
    · cases hok
  · cases hok
    exact LatePhase.refl h

/-! ## Hearts -/

/-- The player `CollectHearts` draws on a heart is one of those standing there, and may still
spawn a character. -/
theorem pickHeartCollector_some (s : GameState) :
    ∀ (g : RandomGenerator) (fuel : Nat) (v : List PlayerID) {pid : PlayerID} {g' : RandomGenerator},
      s.pickHeartCollector w g fuel v = (some pid, g') →
        pid ∈ v ∧ (s.players.getD pid default).CanSpawnCharacter = true
  | _, 0, _, _, _, h => by simp [pickHeartCollector] at h
  | g, fuel + 1, v, pid, g', h => by
    unfold pickHeartCollector at h
    split at h
    · cases h
    · next hv =>
      have hlt := g.pick_lt w (List.length_pos_of_ne_nil hv)
      generalize (if v.length = 1 then (0, g) else g.GetIntRnd w v.length) = r at h hlt
      obtain ⟨i, g₁⟩ := r
      dsimp only at h hlt
      split at h
      · next hcan =>
        simp only [Prod.mk.injEq, Option.some.injEq] at h
        obtain ⟨rfl, -⟩ := h
        exact ⟨List.getD_mem_of_lt _ hlt, hcan⟩
      · -- a player that may not spawn is dropped and the draw repeated
        obtain ⟨hmem, hcan⟩ := pickHeartCollector_some s g₁ fuel (v.eraseIdx i) h
        exact ⟨List.mem_of_mem_eraseIdx hmem, hcan⟩

/-- The players standing on hearts are players of the state. -/
theorem mem_playersOnHeartTile {s : GameState} {c : Coord} {v : List PlayerID}
    (hv : s.playersOnHeartTile.find? c = some v) {pid : PlayerID} (hpid : pid ∈ v) :
    s.players.contains pid = true := by
  suffices key : ∀ c v, s.playersOnHeartTile.find? c = some v → ∀ pid ∈ v,
      s.players.contains pid = true from key c v hv pid hpid
  unfold playersOnHeartTile
  refine List.foldl_invariant (fun m : OrdMap Coord (List PlayerID) => ∀ c v, m.find? c = some v →
      ∀ pid ∈ v, s.players.contains pid = true) _ s.players.entries (fun m p hp hm => ?_)
    OrdMap.empty (by simp)
  split
  · exact hm
  · refine List.foldl_invariant (fun m : OrdMap Coord (List PlayerID) => ∀ c v, m.find? c = some v →
        ∀ pid ∈ v, s.players.contains pid = true) _ p.2.characters.entries (fun m' pc _ hm' => ?_) m hm
    split
    · intro c' v' hc' pid' hpid'
      rw [OrdMap.find?_insert] at hc'
      split at hc'
      · -- the list on this heart grows by the player of the character
        rw [Option.some.injEq] at hc'
        subst hc'
        rcases List.mem_append.mp hpid' with hold | hnew
        · unfold OrdMap.getD at hold
          cases hfind : m'.find? pc.2.coord with
          | none => simp [hfind] at hold
          | some v'' => exact hm' _ v'' hfind pid' (by simpa [hfind] using hold)
        · rw [List.mem_singleton.mp hnew]
          simp [OrdMap.contains, (OrdMap.mem_entries_iff _ _ _).mp hp]
      · exact hm' c' v' hc' pid' hpid'
    · exact hm'

/-- Without hearts nobody stands on one. -/
theorem playersOnHeartTile_eq_empty {s : GameState} (h : s.hearts = .empty) :
    s.playersOnHeartTile = .empty := by
  unfold playersOnHeartTile
  refine List.foldl_invariant (fun m : OrdMap Coord (List PlayerID) => m = .empty) _ _
    (fun m p _ hm => ?_) _ rfl
  split
  · exact hm
  · refine List.foldl_invariant (fun m : OrdMap Coord (List PlayerID) => m = .empty) _ _
      (fun m' pc _ hm' => ?_) _ hm
    simp [h, OrdSet.contains, OrdSet.empty, hm']

/-- Removing a heart drops no heart after the life-steal fork. -/
theorem LatePhase.eraseHeart {cap : Nat} {s : GameState} (h : s.Live cap) (c : Coord) :
    s.LatePhase cap { s with hearts := s.hearts.erase c } :=
  ⟨h.of_eq rfl rfl rfl, CharsKept.refl _, rfl, rfl, fun hg hl => by
    rw [show s.hearts = .empty from hg hl]
    rfl, rfl, rfl⟩

/-- `CollectHearts`: on each heart a player standing there spawns a character, which its
player has room for, and the heart disappears. -/
theorem CollectHearts_late {cap : Nat} {s : GameState} (g : RandomGenerator) (h : s.Live cap)
    (hcap : MAX_CHARACTERS_PER_PLAYER ≤ cap ∨ s.hearts = .empty) :
    s.LatePhase cap (s.CollectHearts w g).1 := by
  rcases hcap with hcap | hempty
  · unfold CollectHearts
    refine (List.foldl_invariant (fun acc : GameState × RandomGenerator =>
        s.LatePhase cap acc.1 ∧ ∀ p, acc.1.players.contains p = s.players.contains p) _
      s.playersOnHeartTile.entries (fun acc e he ⟨hl, hk⟩ => ?_) (s, g) ⟨LatePhase.refl h, fun _ => rfl⟩).1
    obtain ⟨s₁, g₁⟩ := acc
    dsimp only at hl hk ⊢
    split
    · exact ⟨hl, hk⟩
    · next pid g₂ hpick =>
      obtain ⟨hmem, hcan⟩ := pickHeartCollector_some w s₁ g₁ _ _ hpick
      have hcont : s₁.players.contains pid = true := by
        rw [hk]
        exact mem_playersOnHeartTile ((OrdMap.mem_entries_iff _ _ _).mp he) hmem
      obtain ⟨pl, hpl⟩ := Option.isSome_iff_exists.mp hcont
      have hget : s₁.players.getD pid default = pl := by
        unfold OrdMap.getD
        rw [hpl]
        rfl
      rw [hget] at hcan ⊢
      dsimp only
      simp only [PlayerState.CanSpawnCharacter, Bool.and_eq_true, decide_eq_true_eq] at hcan
      have hs := hl.live.sound.players _ pl hpl
      have hfresh := hs.contains_next
      -- the new character takes a fresh index, so the others stay where they are
      have hstep := LatePhase.setPlayer hl.live hpl
        (hs.SpawnCharacter w (by unfold MAX_CHARACTERS_PER_PLAYER at hcan hcap; omega) hcan.2 s₁ g₂)
        ((hl.live.alive _ pl hpl).SpawnCharacter w s₁ g₂) fun i ch hch => by
          have hne : pl.next_character_index ≠ i := by
            rintro rfl
            simp [OrdMap.contains, hch] at hfresh
          exact ⟨ch, by rw [PlayerState.characters_SpawnCharacter, OrdMap.find?_insert_of_ne _ _ hne]; exact hch,
            rfl⟩
      exact ⟨hl.trans (hstep.trans (LatePhase.eraseHeart hstep.live e.1)),
        fun p => (OrdMap.contains_insert_of_contains _ hcont p).trans (hk p)⟩
  · -- without hearts there is nothing to collect
    unfold CollectHearts
    rw [playersOnHeartTile_eq_empty hempty]
    exact LatePhase.refl h

/-! ## The crown -/

theorem mem_charactersOnTile {s : GameState} {c : Coord} {cid : CharacterID}
    (h : cid ∈ s.charactersOnTile c) :
    ∃ pl ch, s.players.find? cid.player = some pl ∧ pl.characters.find? cid.index = some ch ∧
      ch.coord = c := by
  unfold charactersOnTile at h
  simp only [List.mem_flatMap, List.mem_map, List.mem_filter, decide_eq_true_eq] at h
  obtain ⟨p, hp, pc, ⟨hpc, hcoord⟩, rfl⟩ := h
  exact ⟨p.2, pc.2, (OrdMap.mem_entries_iff _ _ _).mp hp, (OrdMap.mem_entries_iff _ _ _).mp hpc, hcoord⟩

/-- A respawned crown is collected as one that lay on its new tile. -/
theorem CollectCrown_respawn (s : GameState) (g : RandomGenerator) (hfree : s.crownHolder.player = "") :
    s.CollectCrown w g true =
      ({ s with crownPos := CrownSpawn.getD (g.GetIntRnd w NUM_CROWN_LOCATIONS).1 default } : GameState).CollectCrown w
        (g.GetIntRnd w NUM_CROWN_LOCATIONS).2 false := by
  simp [CollectCrown, hfree]

/-- A crown without a holder goes to a character standing on its tile. -/
theorem CollectCrown_free {cap : Nat} {s : GameState} (g : RandomGenerator) (h : s.Live cap)
    (hfree : s.crownHolder.player = "") :
    (s.CollectCrown w g false).1.Live cap ∧ (s.CollectCrown w g false).1.CrownHeld ∧
      (s.CollectCrown w g false).1.hearts = s.hearts ∧
      (s.CollectCrown w g false).1.nHeight = s.nHeight ∧
      (s.CollectCrown w g false).1.param = s.param := by
  simp only [CollectCrown, hfree, ne_eq, not_true_eq_false, ↓reduceIte, Bool.false_eq_true]
  split
  · exact ⟨h, fun hne => absurd hfree hne, rfl, rfl, rfl⟩
  · next hne =>
    have hlt := g.pick_lt w (List.length_pos_of_ne_nil hne)
    generalize (if (s.charactersOnTile s.crownPos).length = 1 then (0, g)
      else g.GetIntRnd w (s.charactersOnTile s.crownPos).length) = r at hlt ⊢
    -- the character drawn stands on the crown's tile
    obtain ⟨pl, ch, hpl, hch, hcoord⟩ := mem_charactersOnTile (List.getD_mem_of_lt default hlt)
    exact ⟨h.of_eq rfl rfl rfl, fun _ => ⟨pl, ch, hpl, hch, hcoord⟩, rfl, rfl, rfl⟩

/-- `CollectCrown`: the crown stays held, or goes to a character on its tile. -/
theorem CollectCrown_live {cap : Nat} {s : GameState} (g : RandomGenerator) (respawn_crown : Bool)
    (h : s.Live cap) (hc : s.CrownHeld) :
    (s.CollectCrown w g respawn_crown).1.Live cap ∧ (s.CollectCrown w g respawn_crown).1.CrownHeld ∧
      (s.CollectCrown w g respawn_crown).1.hearts = s.hearts ∧
      (s.CollectCrown w g respawn_crown).1.nHeight = s.nHeight ∧
      (s.CollectCrown w g respawn_crown).1.param = s.param := by
  by_cases hfree : s.crownHolder.player = ""
  · cases respawn_crown
    · exact CollectCrown_free w g h hfree
    · rw [CollectCrown_respawn w s g hfree]
      exact CollectCrown_free w _ (h.of_eq rfl rfl rfl) hfree
  · have hsame : s.CollectCrown w g respawn_crown = (s, g) := by simp [CollectCrown, hfree]
    rw [hsame]
    exact ⟨h, hc, rfl, rfl, rfl⟩

end GameState

end Huntercore
