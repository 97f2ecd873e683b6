import Mathlib
import Huntercore.Lib.Control
import Huntercore.Game.Invariant.Basic

/-!
# The invariant through the loops over the moves

The moves of a block enter a step in four loops: the fees, the waypoints, the spawns and the
messages. A fee or a waypoint touches the move's own player only, a spawn adds a player under
a new name, and a message changes no field the invariant reads.

The fee loop and the spawn loop need what `Move::IsValid` checked against the state before
the step. That still holds when a move's turn comes because the moves of a block name
distinct players: the loops carry, besides the invariant, that the moves still to come see
their player as the validity check saw it.
-/

namespace Huntercore

variable (w : World)

/-! ## Validity of a move -/

namespace Move

/-- The minimum game fee is never negative. -/
theorem MinimumGameFee_nonneg (m : Move) (param : Params) (nHeight : Int) :
    0 ≤ m.MinimumGameFee param nHeight := by
  have := getNameCoinAmount_pos param nHeight
  unfold MinimumGameFee COIN
  dsimp only
  split_ifs <;> omega

/-- A spawn pays at least the name coin amount, which becomes the value of its player. -/
theorem coinAmount_le_MinimumGameFee {m : Move} (hm : m.IsSpawn = true) (param : Params)
    (nHeight : Int) : GetNameCoinAmount param nHeight ≤ m.MinimumGameFee param nHeight := by
  unfold MinimumGameFee COIN
  simp only [hm, ↓reduceIte]
  split_ifs <;> omega

/-- A valid move of a living player does not lower its locked amount. -/
theorem IsValid_of_find {m : Move} {s : GameState} {pl : PlayerState} (hv : m.IsValid s = true)
    (hp : s.players.find? m.player = some pl) : m.IsSpawn = false ∧ pl.lockedCoins ≤ m.newLocked := by
  have := m.MinimumGameFee_nonneg s.param (s.nHeight + 1)
  simp only [IsValid, hp, Bool.and_eq_true, Bool.not_eq_true', decide_eq_true_eq] at hv
  exact ⟨hv.1, by omega⟩

/-- A valid spawn names a new player and pays the minimum fee of the next block. -/
theorem IsValid_of_find_none {m : Move} {s : GameState} (hv : m.IsValid s = true)
    (hp : s.players.find? m.player = none) :
    m.IsSpawn = true ∧ m.MinimumGameFee s.param (s.nHeight + 1) ≤ m.newLocked := by
  simp only [IsValid, hp, Bool.and_eq_true, decide_eq_true_eq] at hv
  exact ⟨hv.1, by omega⟩

/-- A valid spawn names a player that is not in the state. -/
theorem IsValid_spawn {m : Move} {s : GameState} (hv : m.IsValid s = true) (hsp : m.IsSpawn = true) :
    s.players.contains m.player = false ∧ m.MinimumGameFee s.param (s.nHeight + 1) ≤ m.newLocked := by
  cases hp : s.players.find? m.player with
  | none => exact ⟨by simp [OrdMap.contains, hp], (IsValid_of_find_none hv hp).2⟩
  | some pl => exact absurd (IsValid_of_find hv hp).1 (by simp [hsp])

@[simp] theorem loot_setWaypoints (ch : CharacterState) (wp : List Coord) :
    (setWaypoints ch wp).loot = ch.loot := by
  unfold setWaypoints
  split <;> rfl

@[simp] theorem coord_setWaypoints (ch : CharacterState) (wp : List Coord) :
    (setWaypoints ch wp).coord = ch.coord := by
  unfold setWaypoints
  split <;> rfl

end Move

namespace GameState

/-! ## Fees -/

/-- One fee: the move's player locks more coins, and the fund gets the difference. -/
theorem payFee_live {cap : Nat} (acc : GameState × Int) (m : Move) (h : acc.1.Live cap)
    (hfee : m.IsSpawn = false → ∀ pl, acc.1.players.find? m.player = some pl →
      pl.lockedCoins ≤ m.newLocked) :
    (payFee acc m).1.Live cap ∧ acc.1.Frame (payFee acc m).1 ∧
      (∀ p, p ≠ m.player → (payFee acc m).1.players.find? p = acc.1.players.find? p) ∧
      (∀ p, (payFee acc m).1.players.contains p = acc.1.players.contains p) := by
  obtain ⟨s, moneyIn⟩ := acc
  unfold payFee
  dsimp only at h hfee ⊢
  split
  · next hspawn =>
    split
    · exact ⟨h, Frame.refl s, fun _ _ => rfl, fun _ => rfl⟩
    · next pl hpl =>
      have hle := hfee (by simpa using hspawn) pl hpl
      have hc : s.players.contains m.player = true := by simp [OrdMap.contains, hpl]
      have hkeys := OrdMap.contains_insert_of_contains { pl with lockedCoins := m.newLocked } hc
      have hfund := h.sound.fund_nonneg
      refine ⟨⟨⟨h.sound.players.insert ((h.sound.players _ pl hpl).of_eq rfl rfl rfl), h.sound.loot_pos,
          show 0 ≤ s.gameFund + (m.newLocked - pl.lockedCoins) by omega⟩,
          h.alive.insert ((h.alive _ pl hpl).of_eq rfl rfl)⟩,
        ⟨fun p hp => by rwa [hkeys] at hp, rfl, rfl, rfl⟩,
        fun p hp => OrdMap.find?_insert_of_ne _ _ (Ne.symm hp), hkeys⟩
  · exact ⟨h, Frame.refl s, fun _ _ => rfl, fun _ => rfl⟩

/-- The fee loop: a valid move of a living player raises its locked amount, so the fund only
grows. -/
theorem payFees_live {cap : Nat} {s : GameState} (ms : List Move) (h : s.Live cap)
    (hfee : ∀ m ∈ ms, m.IsSpawn = false → ∀ pl, s.players.find? m.player = some pl →
      pl.lockedCoins ≤ m.newLocked)
    (hnd : (ms.map (·.player)).Nodup) :
    (payFees s ms).1.Live cap ∧ s.Frame (payFees s ms).1 ∧
      ∀ p, (payFees s ms).1.players.contains p = s.players.contains p := by
  -- the loop carries the fee condition of the moves still to come
  obtain ⟨hlive, hframe, hkeys, -, -⟩ := List.foldl_suffix_invariant
    (fun (acc : GameState × Int) (rest : List Move) => acc.1.Live cap ∧ s.Frame acc.1 ∧
      (∀ p, acc.1.players.contains p = s.players.contains p) ∧ (rest.map (·.player)).Nodup ∧
      ∀ m ∈ rest, m.IsSpawn = false → ∀ pl, acc.1.players.find? m.player = some pl →
        pl.lockedCoins ≤ m.newLocked)
    payFee
    (fun acc m rest ⟨hl, hfr, hk, hnd, hf⟩ => by
      obtain ⟨hl', hfr', hne', hk'⟩ := payFee_live acc m hl (hf m List.mem_cons_self)
      rw [List.map_cons, List.nodup_cons] at hnd
      refine ⟨hl', hfr.trans hfr', fun p => (hk' p).trans (hk p), hnd.2, fun m' hm' hs pl hpl => ?_⟩
      -- a later move is of another player, whose entry this fee left alone
      have hne : m'.player ≠ m.player := fun heq => hnd.1 (List.mem_map.mpr ⟨m', hm', heq⟩)
      exact hf m' (List.mem_cons_of_mem m hm') hs pl (by rwa [hne' _ hne] at hpl))
    ms (s, 0) ⟨h, Frame.refl s, fun _ => rfl, hnd, hfee⟩
  exact ⟨hlive, hframe, hkeys⟩

/-! ## Waypoints -/

/-- New waypoints change no character but its route. -/
theorem ApplyWaypoints_live {cap : Nat} (m : Move) {s : GameState} (h : s.Live cap) :
    (m.ApplyWaypoints s).Live cap ∧ s.Frame (m.ApplyWaypoints s) ∧
      ∀ p, (m.ApplyWaypoints s).players.contains p = s.players.contains p := by
  unfold Move.ApplyWaypoints
  split
  · exact ⟨h, Frame.refl s, fun _ => rfl⟩
  · next pl hpl =>
    dsimp only
    -- each waypoint entry rewrites a character that is there, keeping its loot
    generalize hchars : List.foldl _ pl.characters m.waypoints.entries = chars
    obtain ⟨hsize, hkeys, hloot⟩ : chars.size = pl.characters.size ∧
        (∀ i, chars.contains i = pl.characters.contains i) ∧ chars.All fun _ ch => ch.LootSound := by
      rw [← hchars]
      refine List.foldl_invariant
        (fun chars : OrdMap Int CharacterState => chars.size = pl.characters.size ∧
          (∀ i, chars.contains i = pl.characters.contains i) ∧ chars.All fun _ ch => ch.LootSound)
        _ m.waypoints.entries (fun chars e _ ⟨h₁, h₂, h₃⟩ => ?_) pl.characters
        ⟨rfl, fun _ => rfl, (h.sound.players _ pl hpl).loot⟩
      split
      · next ch hch =>
        have hc : chars.contains e.1 = true := by simp [OrdMap.contains, hch]
        refine ⟨(OrdMap.size_insert_of_contains _ hc).trans h₁,
          fun i => (OrdMap.contains_insert_of_contains _ hc i).trans (h₂ i), h₃.insert ?_⟩
        unfold CharacterState.LootSound
        rw [Move.loot_setWaypoints]
        exact h₃ _ ch hch
      · exact ⟨h₁, h₂, h₃⟩
    have hc : s.players.contains m.player = true := by simp [OrdMap.contains, hpl]
    refine ⟨⟨⟨h.sound.players.insert ((h.sound.players _ pl hpl).of_characters hsize
        (fun i hi => by rw [← hkeys i]; exact hi) rfl rfl hloot), h.sound.loot_pos, h.sound.fund_nonneg⟩,
        h.alive.insert ((h.alive _ pl hpl).of_eq (hkeys 0) rfl)⟩,
      ⟨fun p hp => ?_, rfl, rfl, rfl⟩, fun p => OrdMap.contains_insert_of_contains _ hc p⟩
    rwa [OrdMap.contains_insert_of_contains _ hc] at hp

/-- The waypoint loop of a step. -/
theorem applyWaypoints_live {cap : Nat} (ms : List Move) {s : GameState} (h : s.Live cap) :
    (ms.foldl (fun s m => if !m.IsSpawn then m.ApplyWaypoints s else s) s).Live cap ∧
      s.Frame (ms.foldl (fun s m => if !m.IsSpawn then m.ApplyWaypoints s else s) s) := by
  refine List.foldl_invariant (fun acc => acc.Live cap ∧ s.Frame acc) _ ms
    (fun acc m _ ⟨hl, hfr⟩ => ?_) s ⟨h, Frame.refl s⟩
  split
  · obtain ⟨hl', hfr', -⟩ := ApplyWaypoints_live m hl
    exact ⟨hl', hfr.trans hfr'⟩
  · exact ⟨hl, hfr⟩

/-! ## Spawns -/

/-- The characters of a player spawned one by one from none: `k` of them, under the indices
from `0`, carrying nothing. -/
def FreshCharacters (k : Nat) (p : PlayerState) : Prop :=
  p.Sound k ∧ p.next_character_index = k ∧ (0 < k → p.characters.contains 0 = true)

theorem FreshCharacters.SpawnCharacter {k : Nat} {p : PlayerState} (h : FreshCharacters k p)
    (hk : k < 1000) (s : GameState) (g : RandomGenerator) :
    FreshCharacters (k + 1) (p.SpawnCharacter w s g).1 := by
  obtain ⟨hs, hn, h0⟩ := h
  have hnext : p.next_character_index < MAX_CHARACTERS_PER_PLAYER_TOTAL := by
    rw [hn]
    unfold MAX_CHARACTERS_PER_PLAYER_TOTAL
    omega
  refine ⟨(hs.mono (Nat.le_succ k)).SpawnCharacter w (by have := hs.size_le; omega) hnext s g,
    by simp [hn], fun _ => ?_⟩
  -- the first character spawned is the general
  rw [PlayerState.characters_SpawnCharacter, OrdMap.contains_insert]
  rcases Nat.eq_zero_or_pos k with rfl | hpos
  · simp [hn]
  · simp [h0 hpos]

/-- The spawn loop of `ApplySpawn`. -/
theorem FreshCharacters.foldl (s : GameState) (p : PlayerState) (g : RandomGenerator)
    (h : FreshCharacters 0 p) :
    ∀ k, k ≤ 1000 → FreshCharacters k
      ((List.range k).foldl (fun acc _ => acc.1.SpawnCharacter w s acc.2) (p, g)).1
  | 0, _ => h
  | k + 1, hk => by
    rw [List.range_succ, List.foldl_append, List.foldl_cons, List.foldl_nil]
    exact (FreshCharacters.foldl s p g h k (by omega)).SpawnCharacter w (by omega) s _

@[simp] theorem spawnCharacters_remainingLife (s : GameState) (p : PlayerState) (g : RandomGenerator) :
    ∀ k, ((List.range k).foldl (fun acc _ => acc.1.SpawnCharacter w s acc.2) (p, g)).1.remainingLife =
      p.remainingLife
  | 0 => rfl
  | k + 1 => by
    rw [List.range_succ, List.foldl_append, List.foldl_cons, List.foldl_nil,
      PlayerState.remainingLife_SpawnCharacter, spawnCharacters_remainingLife s p g k]

@[simp] theorem spawnCharacters_value (s : GameState) (p : PlayerState) (g : RandomGenerator) :
    ∀ k, ((List.range k).foldl (fun acc _ => acc.1.SpawnCharacter w s acc.2) (p, g)).1.value = p.value
  | 0 => rfl
  | k + 1 => by
    rw [List.range_succ, List.foldl_append, List.foldl_cons, List.foldl_nil,
      PlayerState.value_SpawnCharacter, spawnCharacters_value s p g k]

theorem GetNumInitialCharacters_pos (s : GameState) : 0 < s.GetNumInitialCharacters := by
  unfold GetNumInitialCharacters
  split <;> omega

theorem GetNumInitialCharacters_le (s : GameState) : s.GetNumInitialCharacters ≤ 3 := by
  unfold GetNumInitialCharacters
  split <;> omega

/-- A new player with its initial characters is sound and alive. -/
theorem spawnedPlayer_live {cap : Nat} (s : GameState) (p : PlayerState) (g : RandomGenerator)
    (hc : p.characters = .empty) (hn : p.next_character_index = 0) (hv : 0 ≤ p.value)
    (hl : p.remainingLife = -1) (hcap : s.GetNumInitialCharacters ≤ cap) :
    ((List.range s.GetNumInitialCharacters).foldl
        (fun acc _ => acc.1.SpawnCharacter w s acc.2) (p, g)).1.Sound cap ∧
      ((List.range s.GetNumInitialCharacters).foldl
        (fun acc _ => acc.1.SpawnCharacter w s acc.2) (p, g)).1.Alive := by
  have h0 : FreshCharacters 0 p :=
    ⟨⟨by simp [hc, OrdMap.size, OrdMap.empty], fun i hi => by simp [hc, OrdMap.contains] at hi,
      by rw [hn]; unfold MAX_CHARACTERS_PER_PLAYER_TOTAL; omega, hv, by rw [hc]; exact OrdMap.all_empty _⟩,
      hn, fun h => absurd h (lt_irrefl 0)⟩
  obtain ⟨hs, -, hgeneral⟩ := FreshCharacters.foldl w s p g h0 s.GetNumInitialCharacters
    (by have := s.GetNumInitialCharacters_le; omega)
  exact ⟨hs.mono hcap, hgeneral s.GetNumInitialCharacters_pos, .inl (by simp [hl])⟩

/-- A spawn under a new name adds a sound, living player and keeps every other one. -/
theorem ApplySpawn_late {cap : Nat} (m : Move) {s : GameState} (g : RandomGenerator)
    (h : s.Live cap) (hspawn : m.IsSpawn = true) (hfresh : s.players.contains m.player = false)
    (hfee : m.MinimumGameFee s.param s.nHeight ≤ m.newLocked)
    (hcap : s.GetNumInitialCharacters ≤ cap) :
    s.LatePhase cap (m.ApplySpawn w s g).1 ∧
      ∀ p, (m.ApplySpawn w s g).1.players.contains p = (m.player = p || s.players.contains p) := by
  have hnone : s.players.find? m.player = none := by simpa [OrdMap.contains] using hfresh
  have hcoin := Move.coinAmount_le_MinimumGameFee hspawn s.param s.nHeight
  have hpos := getNameCoinAmount_pos s.param s.nHeight
  have hkept : ∀ pl : PlayerState, CharsKept s.players (s.players.insert m.player pl) :=
    fun _ => CharsKept.insert fun pl hpl => absurd hpl (by simp [hnone])
  unfold Move.ApplySpawn
  by_cases hl : s.ForkInEffect .LIFESTEAL = true
  · -- after the life-steal fork the player's value is the name coin amount
    simp only [hl, ↓reduceIte]
    obtain ⟨hs, ha⟩ := spawnedPlayer_live w
      { s with gameFund := s.gameFund + (m.newLocked - GetNameCoinAmount s.param s.nHeight) }
      { (default : PlayerState) with
        color := m.color, value := GetNameCoinAmount s.param s.nHeight, lockedCoins := m.newLocked }
      g rfl rfl hpos.le rfl hcap
    have hfund := h.sound.fund_nonneg
    exact ⟨⟨⟨⟨h.sound.players.insert hs, h.sound.loot_pos, by dsimp only; omega⟩, h.alive.insert ha⟩,
      hkept _, rfl, rfl, fun hg => hg.of_eq rfl rfl rfl, rfl, rfl⟩, fun p => by simp⟩
  · simp only [hl, Bool.false_eq_true, ↓reduceIte]
    obtain ⟨hs, ha⟩ := spawnedPlayer_live w s
      { (default : PlayerState) with
        color := m.color, value := m.newLocked, lockedCoins := m.newLocked }
      g rfl rfl (by dsimp only; omega) rfl hcap
    exact ⟨⟨⟨⟨h.sound.players.insert hs, h.sound.loot_pos, h.sound.fund_nonneg⟩, h.alive.insert ha⟩,
      hkept _, rfl, rfl, fun hg => hg.of_eq rfl rfl rfl, rfl, rfl⟩, fun p => by simp⟩

/-- The spawn loop of a step: each spawn still finds its name free, since the moves name
distinct players and the names were free before the loop. -/
theorem applySpawns_late {cap : Nat} (ms : List Move) {s : GameState} (g : RandomGenerator)
    (h : s.Live cap) (hcap : s.GetNumInitialCharacters ≤ cap) (hnd : (ms.map (·.player)).Nodup)
    (hspawn : ∀ m ∈ ms, m.IsSpawn = true → s.players.contains m.player = false ∧
      m.MinimumGameFee s.param s.nHeight ≤ m.newLocked) :
    s.LatePhase cap (ms.foldl (fun (acc : GameState × RandomGenerator) m =>
      if m.IsSpawn then m.ApplySpawn w acc.1 acc.2 else acc) (s, g)).1 := by
  refine (List.foldl_suffix_invariant
    (fun (acc : GameState × RandomGenerator) (rest : List Move) => s.LatePhase cap acc.1 ∧
      (rest.map (·.player)).Nodup ∧ ∀ m ∈ rest, m.IsSpawn = true →
        acc.1.players.contains m.player = false ∧ m.MinimumGameFee s.param s.nHeight ≤ m.newLocked)
    _ (fun acc m rest ⟨hl, hnd, hf⟩ => ?_) ms (s, g) ⟨LatePhase.refl h, hnd, hspawn⟩).1
  rw [List.map_cons, List.nodup_cons] at hnd
  split
  · next hsp =>
    obtain ⟨hfresh, hfee⟩ := hf m List.mem_cons_self hsp
    have hcap' : acc.1.GetNumInitialCharacters ≤ cap := by
      unfold GetNumInitialCharacters ForkInEffect at hcap ⊢
      rw [hl.param, hl.nHeight]
      exact hcap
    obtain ⟨hl', hk'⟩ := ApplySpawn_late w m acc.2 hl.live hsp hfresh
      (by rwa [hl.param, hl.nHeight]) hcap'
    refine ⟨hl.trans hl', hnd.2, fun m' hm' hsp' => ⟨?_, (hf m' (List.mem_cons_of_mem m hm') hsp').2⟩⟩
    -- a later spawn is of another name
    have hne : m.player ≠ m'.player := fun heq => hnd.1 (List.mem_map.mpr ⟨m', hm', heq.symm⟩)
    rw [hk']
    simp [hne, (hf m' (List.mem_cons_of_mem m hm') hsp').1]
  · exact ⟨hl, hnd.2, fun m' hm' hsp' => hf m' (List.mem_cons_of_mem m hm') hsp'⟩

/-! ## Messages and addresses -/

/-- A message or an address changes no field the invariant reads. -/
theorem ApplyCommon_late {cap : Nat} (m : Move) {s : GameState} (h : s.Live cap) :
    s.LatePhase cap (m.ApplyCommon s) := by
  unfold Move.ApplyCommon
  split
  · split
    · exact ⟨h.of_eq rfl rfl rfl, CharsKept.refl _, rfl, rfl, fun hg => hg.of_eq rfl rfl rfl, rfl, rfl⟩
    · exact LatePhase.refl h
  · next pl hpl =>
    have hs := h.sound.players _ pl hpl
    have ha := h.alive _ pl hpl
    cases m.message <;> cases m.address <;> cases m.addressLock <;>
      exact ⟨⟨⟨h.sound.players.insert (hs.of_eq rfl rfl rfl), h.sound.loot_pos, h.sound.fund_nonneg⟩,
        h.alive.insert (ha.of_eq rfl rfl)⟩,
        CharsKept.insert fun pl' hpl' i ch hch => ⟨ch, by rw [hpl, Option.some.injEq] at hpl'; subst hpl'; exact hch, rfl⟩,
        rfl, rfl, fun hg => hg.of_eq rfl rfl rfl, rfl, rfl⟩

/-- The message loop of a step. -/
theorem applyCommon_late {cap : Nat} (ms : List Move) {s : GameState} (h : s.Live cap) :
    s.LatePhase cap (ms.foldl (fun s m => m.ApplyCommon s) s) :=
  LatePhase.foldl _ ms (fun _ m _ hacc => ApplyCommon_late m hacc) h

end GameState

end Huntercore
