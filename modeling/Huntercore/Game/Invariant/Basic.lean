import Mathlib
import Huntercore.Lib.Control
import Huntercore.Game.Step

/-!
# The invariant of game states

What holds of every game state of a chain (`GameState.Valid`), and the weaker facts that
hold at every point inside a step (`GameState.Sound`), where a killed player may have lost
its general until `FinaliseKills` removes it. This module holds the definitions and their
behaviour under the elementary operations that the phases of a step are built from:
adding loot to a tile, settling a killed character's loot, collecting loot and spawning a
character.
-/

namespace Huntercore

variable (w : World)

/-! ## Definitions -/

/-- The loot a character carries is never negative, and a positive amount was collected in
a block of the chain: a character never carries a refund. -/
def CharacterState.LootSound (ch : CharacterState) : Prop :=
  0 ≤ ch.loot.nAmount ∧ (0 < ch.loot.nAmount → 0 ≤ ch.loot.collectedFirstBlock)

/-- What holds of every player at every point of a step: at most `cap` characters, all under
indices below `next_character_index`, and a value and loot that are never negative. -/
structure PlayerState.Sound (cap : Nat) (pl : PlayerState) : Prop where
  size_le : pl.characters.size ≤ cap
  index_lt : ∀ i, pl.characters.contains i = true → i < pl.next_character_index
  next_le : pl.next_character_index ≤ MAX_CHARACTERS_PER_PLAYER_TOTAL
  value_nonneg : 0 ≤ pl.value
  loot : pl.characters.All fun _ ch => ch.LootSound

/-- What holds of a living player between steps: it has its general, and a poisoned player
has between one and `POISON_MAX_LIFE` blocks to live. -/
structure PlayerState.Alive (pl : PlayerState) : Prop where
  general : pl.characters.contains 0 = true
  life : pl.remainingLife = -1 ∨ 1 ≤ pl.remainingLife ∧ pl.remainingLife ≤ POISON_MAX_LIFE

/-- What holds of the state at every point of a step. -/
structure GameState.Sound (cap : Nat) (s : GameState) : Prop where
  players : s.players.All fun _ pl => pl.Sound cap
  loot_pos : s.loot.All fun _ li => 0 < li.nAmount
  fund_nonneg : 0 ≤ s.gameFund

/-- What holds from the end of the kills to the end of a step: the state is sound and every
player is alive. -/
structure GameState.Live (cap : Nat) (s : GameState) : Prop where
  sound : s.Sound cap
  alive : s.players.All fun _ pl => pl.Alive

/-- The crown holder, when there is one, is a character standing on the crown's tile. -/
def GameState.CrownHeld (s : GameState) : Prop :=
  s.crownHolder.player ≠ "" → ∃ pl ch, s.players.find? s.crownHolder.player = some pl ∧
    pl.characters.find? s.crownHolder.index = some ch ∧ ch.coord = s.crownPos

/-- The invariant of the game states of a chain. After the life-steal fork every player
has its general only, and there are no hearts; the state before the genesis block has
neither players nor hearts. -/
structure GameState.Valid (s : GameState) : Prop where
  sound : s.Sound MAX_CHARACTERS_PER_PLAYER
  alive : s.players.All fun _ pl => pl.Alive
  crown : s.CrownHeld
  lifeSteal : s.ForkInEffect .LIFESTEAL = true →
    s.players.All (fun _ pl => pl.characters.size = 1) ∧ s.hearts = .empty
  height : -1 ≤ s.nHeight
  genesis : s.nHeight = -1 → s.players = .empty ∧ s.hearts = .empty

/-- How most phases of a step may change the state: they add no player, and leave the hearts,
the height and the rules alone. -/
structure GameState.Frame (s s' : GameState) : Prop where
  keys : ∀ p, s'.players.contains p = true → s.players.contains p = true
  hearts : s'.hearts = s.hearts
  nHeight : s'.nHeight = s.nHeight
  param : s'.param = s.param

/-- Every character of `m` is still in `m'`, on the same tile. -/
def CharsKept (m m' : OrdMap PlayerID PlayerState) : Prop :=
  ∀ p pl i ch, m.find? p = some pl → pl.characters.find? i = some ch →
    ∃ pl' ch', m'.find? p = some pl' ∧ pl'.characters.find? i = some ch' ∧ ch'.coord = ch.coord

/-- After the life-steal fork there are no hearts. -/
def GameState.HeartsGone (s : GameState) : Prop :=
  s.ForkInEffect .LIFESTEAL = true → s.hearts = .empty

/-- A phase of a step after the crown update: it keeps the state live, every character on its
tile and the crown where it is, and drops no heart after the life-steal fork. -/
structure GameState.LatePhase (cap : Nat) (s s' : GameState) : Prop where
  live : s'.Live cap
  chars : CharsKept s.players s'.players
  crownHolder : s'.crownHolder = s.crownHolder
  crownPos : s'.crownPos = s.crownPos
  hearts : s.HeartsGone → s'.HeartsGone
  nHeight : s'.nHeight = s.nHeight
  param : s'.param = s.param

/-! ## Players -/

namespace PlayerState

theorem Sound.mono {cap cap' : Nat} {pl : PlayerState} (h : pl.Sound cap) (hcap : cap ≤ cap') :
    pl.Sound cap' :=
  ⟨h.size_le.trans hcap, h.index_lt, h.next_le, h.value_nonneg, h.loot⟩

/-- A sound player with fewer characters is sound for the smaller bound. -/
theorem Sound.recap {cap cap' : Nat} {pl : PlayerState} (h : pl.Sound cap)
    (hsize : pl.characters.size ≤ cap') : pl.Sound cap' :=
  ⟨hsize, h.index_lt, h.next_le, h.value_nonneg, h.loot⟩

/-- A change of a player that leaves its characters, its next index and its value alone
keeps it sound. -/
theorem Sound.of_eq {cap : Nat} {pl pl' : PlayerState} (h : pl.Sound cap)
    (hc : pl'.characters = pl.characters) (hn : pl'.next_character_index = pl.next_character_index)
    (hv : pl'.value = pl.value) : pl'.Sound cap := by
  obtain ⟨h1, h2, h3, h4, h5⟩ := h
  exact ⟨hc ▸ h1, hc ▸ hn ▸ h2, hn ▸ h3, hv ▸ h4, hc ▸ h5⟩

theorem Alive.of_eq {pl pl' : PlayerState} (h : pl.Alive)
    (hc : pl'.characters.contains 0 = pl.characters.contains 0)
    (hl : pl'.remainingLife = pl.remainingLife) : pl'.Alive :=
  ⟨hc ▸ h.general, hl ▸ h.life⟩

/-- Changing characters one by one, keeping each sound and keeping the keys, keeps a
player sound. -/
theorem Sound.of_characters {cap : Nat} {pl pl' : PlayerState} (h : pl.Sound cap)
    (hsize : pl'.characters.size = pl.characters.size)
    (hkeys : ∀ i, pl'.characters.contains i = true → pl.characters.contains i = true)
    (hn : pl'.next_character_index = pl.next_character_index)
    (hv : pl'.value = pl.value) (hloot : pl'.characters.All fun _ ch => ch.LootSound) :
    pl'.Sound cap :=
  ⟨hsize ▸ h.size_le, fun i hi => hn ▸ h.index_lt i (hkeys i hi), hn ▸ h.next_le, hv ▸ h.value_nonneg,
    hloot⟩

/-- Removing characters keeps a player sound. -/
theorem Sound.eraseList {cap : Nat} {pl : PlayerState} (h : pl.Sound cap) (is : List Int) :
    ({ pl with characters := pl.characters.eraseList is } : PlayerState).Sound cap :=
  ⟨(OrdMap.size_eraseList_le _ _).trans h.size_le,
    fun i hi => h.index_lt i (by simp at hi; exact hi.2), h.next_le, h.value_nonneg,
    h.loot.eraseList is⟩

theorem Sound.erase {cap : Nat} {pl : PlayerState} (h : pl.Sound cap) (i : Int) :
    ({ pl with characters := pl.characters.erase i } : PlayerState).Sound cap :=
  h.eraseList [i]

theorem Alive.erase_of_ne {pl : PlayerState} (h : pl.Alive) {i : Int} (hi : i ≠ 0) :
    ({ pl with characters := pl.characters.erase i } : PlayerState).Alive :=
  ⟨by simp [hi, h.general], h.life⟩

theorem Alive.eraseList_of_not_mem {pl : PlayerState} (h : pl.Alive) {is : List Int}
    (h0 : (0 : Int) ∉ is) : ({ pl with characters := pl.characters.eraseList is } : PlayerState).Alive :=
  ⟨by simp [h0, h.general], h.life⟩

end PlayerState

/-! ## Frames of the phases -/

namespace GameState

theorem Frame.refl (s : GameState) : s.Frame s := ⟨fun _ h => h, rfl, rfl, rfl⟩

theorem Frame.trans {s₁ s₂ s₃ : GameState} (h₁ : s₁.Frame s₂) (h₂ : s₂.Frame s₃) : s₁.Frame s₃ :=
  ⟨fun p hp => h₁.keys p (h₂.keys p hp), h₂.hearts.trans h₁.hearts, h₂.nHeight.trans h₁.nHeight,
    h₂.param.trans h₁.param⟩

theorem HeartsGone.of_eq {s s' : GameState} (h : s.HeartsGone) (hh : s'.hearts = s.hearts)
    (hn : s'.nHeight = s.nHeight) (hp : s'.param = s.param) : s'.HeartsGone := by
  intro hl
  rw [hh]
  exact h (by simpa [ForkInEffect, hn, hp] using hl)

end GameState

theorem CharsKept.refl (m : OrdMap PlayerID PlayerState) : CharsKept m m :=
  fun _ pl _ ch hp hc => ⟨pl, ch, hp, hc, rfl⟩

theorem CharsKept.trans {m₁ m₂ m₃ : OrdMap PlayerID PlayerState} (h₁ : CharsKept m₁ m₂)
    (h₂ : CharsKept m₂ m₃) : CharsKept m₁ m₃ := by
  intro p pl i ch hp hc
  obtain ⟨pl₂, ch₂, hp₂, hc₂, hcoord₂⟩ := h₁ p pl i ch hp hc
  obtain ⟨pl₃, ch₃, hp₃, hc₃, hcoord₃⟩ := h₂ p pl₂ i ch₂ hp₂ hc₂
  exact ⟨pl₃, ch₃, hp₃, hc₃, hcoord₃.trans hcoord₂⟩

/-- Writing a player that keeps the characters it had, on their tiles, keeps every character. -/
theorem CharsKept.insert {m : OrdMap PlayerID PlayerState} {p : PlayerID} {pl' : PlayerState}
    (h : ∀ pl, m.find? p = some pl → ∀ i ch, pl.characters.find? i = some ch →
      ∃ ch', pl'.characters.find? i = some ch' ∧ ch'.coord = ch.coord) :
    CharsKept m (m.insert p pl') := by
  intro q pl i ch hq hc
  by_cases hqp : q = p
  · subst hqp
    obtain ⟨ch', hc', hcoord⟩ := h pl hq i ch hc
    exact ⟨pl', ch', by simp, hc', hcoord⟩
  · exact ⟨pl, ch, by rw [OrdMap.find?_insert_of_ne _ _ (Ne.symm hqp)]; exact hq, hc, rfl⟩

/-- A loop over the players that keeps each one's characters on their tiles keeps every
character. -/
theorem CharsKept.mapAccum {σ : Type} (m : OrdMap PlayerID PlayerState)
    {f : σ → PlayerID → PlayerState → PlayerState × σ} (init : σ)
    (hf : ∀ acc p pl i ch, pl.characters.find? i = some ch →
      ∃ ch', (f acc p pl).1.characters.find? i = some ch' ∧ ch'.coord = ch.coord) :
    CharsKept m (m.mapAccum f init).1 := by
  intro p pl i ch hp hc
  obtain ⟨acc, hp'⟩ := OrdMap.find?_mapAccum_of_find? m f init hp
  obtain ⟨ch', hc', hcoord⟩ := hf acc p pl i ch hc
  exact ⟨_, ch', hp', hc', hcoord⟩

/-- The crown stays held while its holder's character stays on its tile. -/
theorem GameState.CrownHeld.of_charsKept {s s' : GameState} (h : s.CrownHeld)
    (hk : CharsKept s.players s'.players) (hh : s'.crownHolder = s.crownHolder)
    (hp : s'.crownPos = s.crownPos) : s'.CrownHeld := by
  intro hne
  rw [hh] at hne ⊢
  obtain ⟨pl, ch, hpl, hch, hcoord⟩ := h hne
  obtain ⟨pl', ch', hpl', hch', hcoord'⟩ := hk _ pl _ ch hpl hch
  exact ⟨pl', ch', hpl', hch', by rw [hcoord', hcoord, hp]⟩

namespace GameState

/-- A change of the state that leaves the players, the loot and the fund alone keeps it live. -/
theorem Live.of_eq {cap : Nat} {s s' : GameState} (h : s.Live cap) (hp : s'.players = s.players)
    (hl : s'.loot = s.loot) (hf : s'.gameFund = s.gameFund) : s'.Live cap :=
  ⟨⟨hp ▸ h.sound.players, hl ▸ h.sound.loot_pos, hf ▸ h.sound.fund_nonneg⟩, hp ▸ h.alive⟩

theorem LatePhase.refl {cap : Nat} {s : GameState} (h : s.Live cap) : s.LatePhase cap s :=
  ⟨h, CharsKept.refl _, rfl, rfl, id, rfl, rfl⟩

theorem LatePhase.trans {cap : Nat} {s₁ s₂ s₃ : GameState} (h₁ : s₁.LatePhase cap s₂)
    (h₂ : s₂.LatePhase cap s₃) : s₁.LatePhase cap s₃ :=
  ⟨h₂.live, h₁.chars.trans h₂.chars, h₂.crownHolder.trans h₁.crownHolder,
    h₂.crownPos.trans h₁.crownPos, fun h => h₂.hearts (h₁.hearts h), h₂.nHeight.trans h₁.nHeight,
    h₂.param.trans h₁.param⟩

/-- A late phase that changes no field the invariant reads. -/
theorem LatePhase.of_eq {cap : Nat} {s s' : GameState} (h : s.Live cap) (hp : s'.players = s.players)
    (hl : s'.loot = s.loot) (hf : s'.gameFund = s.gameFund) (hc : s'.crownHolder = s.crownHolder)
    (hcp : s'.crownPos = s.crownPos) (hh : s'.hearts = s.hearts) (hn : s'.nHeight = s.nHeight)
    (hpar : s'.param = s.param) : s.LatePhase cap s' :=
  ⟨h.of_eq hp hl hf, by rw [hp]; exact CharsKept.refl _, hc, hcp, fun hg => hg.of_eq hh hn hpar, hn, hpar⟩

/-- Writing a sound, living player over one that is there, keeping its characters on their
tiles. -/
theorem LatePhase.setPlayer {cap : Nat} {s : GameState} (h : s.Live cap) {p : PlayerID}
    {pl pl' : PlayerState} (hp : s.players.find? p = some pl) (hs : pl'.Sound cap) (ha : pl'.Alive)
    (hkept : ∀ i ch, pl.characters.find? i = some ch →
      ∃ ch', pl'.characters.find? i = some ch' ∧ ch'.coord = ch.coord) :
    s.LatePhase cap { s with players := s.players.insert p pl' } :=
  ⟨⟨⟨h.sound.players.insert hs, h.sound.loot_pos, h.sound.fund_nonneg⟩, h.alive.insert ha⟩,
    CharsKept.insert fun pl₀ hpl₀ => by
      rw [hp, Option.some.injEq] at hpl₀
      exact hpl₀ ▸ hkept,
    rfl, rfl, fun hg => hg.of_eq rfl rfl rfl, rfl, rfl⟩

/-- Paying a non-negative amount into the fund. -/
theorem LatePhase.addFund {cap : Nat} {s : GameState} (h : s.Live cap) {a : Int} (ha : 0 ≤ a) :
    s.LatePhase cap { s with gameFund := s.gameFund + a } :=
  ⟨⟨⟨h.sound.players, h.sound.loot_pos, by have := h.sound.fund_nonneg; dsimp only; omega⟩, h.alive⟩,
    CharsKept.refl _, rfl, rfl, fun hg => hg.of_eq rfl rfl rfl, rfl, rfl⟩

/-- The invariant rule of a loop of late phases. -/
theorem LatePhase.foldl {cap : Nat} {β : Type} (f : GameState → β → GameState) (l : List β)
    {s : GameState} (hf : ∀ (acc : GameState) b, b ∈ l → acc.Live cap → acc.LatePhase cap (f acc b))
    (h : s.Live cap) :
    s.LatePhase cap (l.foldl f s) :=
  List.foldl_invariant (fun acc => s.LatePhase cap acc) f l
    (fun acc b hb hacc => hacc.trans (hf acc b hb hacc.live)) s (LatePhase.refl h)

theorem LatePhase.crownHeld {cap : Nat} {s s' : GameState} (h : s.LatePhase cap s')
    (hc : s.CrownHeld) : s'.CrownHeld :=
  hc.of_charsKept h.chars h.crownHolder h.crownPos

end GameState

/-! ## Adding loot to a tile -/

namespace GameState

section AddLoot

variable (s : GameState) (c : Coord) (a : Int)

@[simp] theorem players_AddLoot : (s.AddLoot c a).players = s.players := by
  unfold AddLoot
  split
  · rfl
  · split <;> (try split) <;> rfl

@[simp] theorem gameFund_AddLoot : (s.AddLoot c a).gameFund = s.gameFund := by
  unfold AddLoot
  split
  · rfl
  · split <;> (try split) <;> rfl

@[simp] theorem crownHolder_AddLoot : (s.AddLoot c a).crownHolder = s.crownHolder := by
  unfold AddLoot
  split
  · rfl
  · split <;> (try split) <;> rfl

@[simp] theorem crownPos_AddLoot : (s.AddLoot c a).crownPos = s.crownPos := by
  unfold AddLoot
  split
  · rfl
  · split <;> (try split) <;> rfl

@[simp] theorem hearts_AddLoot : (s.AddLoot c a).hearts = s.hearts := by
  unfold AddLoot
  split
  · rfl
  · split <;> (try split) <;> rfl

@[simp] theorem nHeight_AddLoot : (s.AddLoot c a).nHeight = s.nHeight := by
  unfold AddLoot
  split
  · rfl
  · split <;> (try split) <;> rfl

@[simp] theorem param_AddLoot : (s.AddLoot c a).param = s.param := by
  unfold AddLoot
  split
  · rfl
  · split <;> (try split) <;> rfl

/-- Adding an amount that leaves the tile's loot non-negative keeps every tile's loot
positive: a tile whose loot reaches zero disappears. -/
theorem AddLoot_loot_pos (h : s.loot.All fun _ li => 0 < li.nAmount)
    (hold : ∀ li, s.loot.find? c = some li → 0 ≤ li.nAmount + a)
    (hnew : s.loot.find? c = none → 0 ≤ a) :
    (s.AddLoot c a).loot.All fun _ li => 0 < li.nAmount := by
  unfold AddLoot
  split
  · exact h
  · next ha =>
    split
    · next li hli =>
      have hge := hold li hli
      split
      · exact h.erase c
      · next hne =>
        refine h.insert ?_
        show 0 < li.nAmount + a
        omega
    · next hli =>
      have hge := hnew hli
      refine h.insert ?_
      show 0 < a
      omega

/-- Adding a non-negative amount keeps every tile's loot positive. -/
theorem AddLoot_loot_pos_of_nonneg (h : s.loot.All fun _ li => 0 < li.nAmount) (ha : 0 ≤ a) :
    (s.AddLoot c a).loot.All fun _ li => 0 < li.nAmount :=
  s.AddLoot_loot_pos c a h (fun li hli => by have := h c li hli; omega) (fun _ => ha)

theorem AddLoot_sound {cap : Nat} (hs : s.Sound cap) (ha : 0 ≤ a) : (s.AddLoot c a).Sound cap :=
  ⟨by simpa using hs.players, s.AddLoot_loot_pos_of_nonneg c a hs.loot_pos ha,
    by simpa using hs.fund_nonneg⟩

/-- Loot added to a tile leaves the other tiles alone. -/
theorem find?_AddLoot_of_ne {c' : Coord} (h : c' ≠ c) : (s.AddLoot c a).loot.find? c' = s.loot.find? c' := by
  unfold AddLoot
  split
  · rfl
  · split
    · split
      · exact OrdMap.find?_erase_of_ne _ (Ne.symm h)
      · exact OrdMap.find?_insert_of_ne _ _ (Ne.symm h)
    · exact OrdMap.find?_insert_of_ne _ _ (Ne.symm h)

/-- A tile that keeps a positive amount holds the sum. -/
theorem find?_AddLoot_self {li : LootInfo} (hli : s.loot.find? c = some li) (hpos : 0 < li.nAmount + a) :
    ∃ li', (s.AddLoot c a).loot.find? c = some li' ∧ li'.nAmount = li.nAmount + a := by
  unfold AddLoot
  split
  · next ha => exact ⟨li, hli, by omega⟩
  · simp only [hli]
    split
    · omega
    · exact ⟨_, OrdMap.find?_insert_self _ _ _, rfl⟩

end AddLoot

/-! ## Settling the loot of a killed character -/

section HandleKilledLoot

variable (s : GameState) (pId : PlayerID) (chInd : Int) (info : KilledByInfo) (step : StepResult)

/-- `HandleKilledLoot` as a change of the map, the fund and the step result: it leaves the
players, the crown and the hearts alone. -/
theorem HandleKilledLoot_frame :
    (s.HandleKilledLoot pId chInd info step).1.players = s.players ∧
      (s.HandleKilledLoot pId chInd info step).1.crownHolder = s.crownHolder ∧
      (s.HandleKilledLoot pId chInd info step).1.crownPos = s.crownPos ∧
      (s.HandleKilledLoot pId chInd info step).1.hearts = s.hearts ∧
      (s.HandleKilledLoot pId chInd info step).1.nHeight = s.nHeight ∧
      (s.HandleKilledLoot pId chInd info step).1.param = s.param := by
  unfold HandleKilledLoot
  split
  · simp
  · split
    · simp
    · dsimp only
      split <;> simp

@[simp] theorem players_HandleKilledLoot :
    (s.HandleKilledLoot pId chInd info step).1.players = s.players :=
  (s.HandleKilledLoot_frame pId chInd info step).1

@[simp] theorem crownHolder_HandleKilledLoot :
    (s.HandleKilledLoot pId chInd info step).1.crownHolder = s.crownHolder :=
  (s.HandleKilledLoot_frame pId chInd info step).2.1

@[simp] theorem crownPos_HandleKilledLoot :
    (s.HandleKilledLoot pId chInd info step).1.crownPos = s.crownPos :=
  (s.HandleKilledLoot_frame pId chInd info step).2.2.1

@[simp] theorem hearts_HandleKilledLoot :
    (s.HandleKilledLoot pId chInd info step).1.hearts = s.hearts :=
  (s.HandleKilledLoot_frame pId chInd info step).2.2.2.1

@[simp] theorem nHeight_HandleKilledLoot :
    (s.HandleKilledLoot pId chInd info step).1.nHeight = s.nHeight :=
  (s.HandleKilledLoot_frame pId chInd info step).2.2.2.2.1

@[simp] theorem param_HandleKilledLoot :
    (s.HandleKilledLoot pId chInd info step).1.param = s.param :=
  (s.HandleKilledLoot_frame pId chInd info step).2.2.2.2.2

@[simp] theorem killedPlayers_HandleKilledLoot :
    (s.HandleKilledLoot pId chInd info step).2.killedPlayers = step.killedPlayers := by
  unfold HandleKilledLoot
  split
  · rfl
  · split
    · rfl
    · dsimp only
      split_ifs <;> rfl

/-- The coins a killed character leaves, less the tax, go to the fund or the map: both
amounts are never negative, so the map and the fund stay sound. -/
theorem HandleKilledLoot_sound {cap : Nat} (hs : s.Sound cap) :
    (s.HandleKilledLoot pId chInd info step).1.Sound cap := by
  unfold HandleKilledLoot
  split
  · exact hs
  · next pc hpc =>
    split
    · exact hs
    · next ch hch =>
      have hpl : pc.Sound cap := hs.players pId pc hpc
      have h1 := (hpl.loot chInd ch hch).1
      have h2 := hpl.value_nonneg
      -- what is left of the coins after the tax is never negative
      have hleft : ∀ X : Int, 0 ≤ X → 0 ≤ X - (if info.HasDeathTax = true then X.tdiv 25 else 0) := by
        intro X hX
        split
        · rw [Int.tdiv_eq_ediv_of_nonneg hX]
          omega
        · omega
      by_cases hd : (!info.DropCoins s pc) = true
      · simp only [hd, ↓reduceIte]
        exact ⟨hs.players, hs.loot_pos, add_nonneg hs.fund_nonneg (hleft _ (by split <;> omega))⟩
      · simp only [hd, Bool.false_eq_true, ↓reduceIte]
        exact s.AddLoot_sound _ _ hs (hleft _ (by split <;> omega))

end HandleKilledLoot

end GameState

/-! ## Killing a player -/

theorem StepResult.mem_killedPlayers_KillPlayer (r : StepResult) (victim p : PlayerID)
    (killer : KilledByInfo) :
    p ∈ (r.KillPlayer victim killer).killedPlayers.elems ↔ p = victim ∨ p ∈ r.killedPlayers.elems :=
  OrdSet.mem_insert

/-! ## Collecting loot and spawning characters -/

/-- Collecting a positive amount at a height of the chain keeps the loot sound. -/
theorem CollectedLootInfo.Collect_sound {c : CollectedLootInfo}
    (h : 0 ≤ c.nAmount ∧ (0 < c.nAmount → 0 ≤ c.collectedFirstBlock)) (loot : LootInfo)
    {nHeight : Int} (hh : 0 ≤ nHeight) :
    0 ≤ (c.Collect loot nHeight).nAmount ∧
      (0 < (c.Collect loot nHeight).nAmount → 0 ≤ (c.Collect loot nHeight).collectedFirstBlock) := by
  unfold CollectedLootInfo.Collect
  split
  · exact h
  · next hpos =>
    refine ⟨by dsimp only; omega, fun _ => ?_⟩
    dsimp only
    split <;> omega

theorem CharacterState.LootSound.CollectLoot {ch : CharacterState} (h : ch.LootSound)
    (newLoot : LootInfo) {nHeight : Int} (carryCap : Int) (hh : 0 ≤ nHeight) :
    (ch.CollectLoot newLoot nHeight carryCap).1.LootSound :=
  CollectedLootInfo.Collect_sound h _ hh

@[simp] theorem CharacterState.loot_Spawn (ch : CharacterState) (s : GameState) (color : Nat)
    (g : RandomGenerator) : (ch.Spawn w s color g).1.loot = ch.loot := by
  unfold CharacterState.Spawn
  split
  · rfl
  · split <;> rfl

/-- A fresh character carries nothing. -/
theorem CharacterState.lootSound_default : (default : CharacterState).LootSound :=
  ⟨le_refl _, fun h => absurd h (lt_irrefl _)⟩

namespace PlayerState

/-- A spawned character takes the next index, which no character has. -/
theorem Sound.contains_next {cap : Nat} {p : PlayerState} (h : p.Sound cap) :
    p.characters.contains p.next_character_index = false := by
  cases hc : p.characters.contains p.next_character_index
  · rfl
  · exact absurd (h.index_lt _ hc) (lt_irrefl _)

@[simp] theorem characters_SpawnCharacter (p : PlayerState) (s : GameState) (g : RandomGenerator) :
    (p.SpawnCharacter w s g).1.characters =
      p.characters.insert p.next_character_index ((default : CharacterState).Spawn w s p.color g).1 :=
  rfl

@[simp] theorem next_character_index_SpawnCharacter (p : PlayerState) (s : GameState)
    (g : RandomGenerator) :
    (p.SpawnCharacter w s g).1.next_character_index = p.next_character_index + 1 := rfl

@[simp] theorem value_SpawnCharacter (p : PlayerState) (s : GameState) (g : RandomGenerator) :
    (p.SpawnCharacter w s g).1.value = p.value := rfl

@[simp] theorem remainingLife_SpawnCharacter (p : PlayerState) (s : GameState) (g : RandomGenerator) :
    (p.SpawnCharacter w s g).1.remainingLife = p.remainingLife := rfl

theorem Sound.SpawnCharacter {cap : Nat} {p : PlayerState} (h : p.Sound cap)
    (hsize : p.characters.size < cap)
    (hnext : p.next_character_index < MAX_CHARACTERS_PER_PLAYER_TOTAL) (s : GameState)
    (g : RandomGenerator) : (p.SpawnCharacter w s g).1.Sound cap := by
  have hfresh := h.contains_next
  refine ⟨?_, ?_, ?_, ?_, ?_⟩
  · have hins := OrdMap.size_insert p.characters p.next_character_index
      ((default : CharacterState).Spawn w s p.color g).1
    rw [hfresh] at hins
    rw [characters_SpawnCharacter]
    simp only [Bool.false_eq_true, ↓reduceIte] at hins
    omega
  · intro i hi
    rw [characters_SpawnCharacter, OrdMap.contains_insert] at hi
    rw [next_character_index_SpawnCharacter]
    rcases Bool.or_eq_true_iff.mp hi with hi | hi
    · have : p.next_character_index = i := by simpa using hi
      omega
    · have := h.index_lt i hi
      omega
  · rw [next_character_index_SpawnCharacter]
    omega
  · rw [value_SpawnCharacter]
    exact h.value_nonneg
  · rw [characters_SpawnCharacter]
    refine h.loot.insert ?_
    unfold CharacterState.LootSound
    rw [CharacterState.loot_Spawn]
    exact CharacterState.lootSound_default

theorem Alive.SpawnCharacter {p : PlayerState} (h : p.Alive) (s : GameState) (g : RandomGenerator) :
    (p.SpawnCharacter w s g).1.Alive :=
  ⟨by simp [h.general], h.life⟩

end PlayerState

end Huntercore
