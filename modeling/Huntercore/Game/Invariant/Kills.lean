import Mathlib
import Huntercore.Game.Invariant.Basic

/-!
# The invariant through the kills of a step

From the attacks to `FinaliseKills` a player may lose its general. It is then marked killed
in the step result, and `FinaliseKills` removes every marked player, so that afterwards every
player is alive again. `KillStep` says what each phase in between keeps: the state stays
sound, a player that is not marked killed stays alive, and no player is added. Each phase is
a loop over players, characters or tile entries, and `KillStep.foldl` lifts the lemma about
one iteration to the loop.
-/

namespace Huntercore

variable (w : World)

/-! ## Kill phases -/

/-- Between the attacks and `FinaliseKills`, a player that is not marked killed is alive. -/
def KillsMarked (s : GameState) (r : StepResult) : Prop :=
  s.players.All fun p pl => p ∉ r.killedPlayers.elems → pl.Alive

/-- How a kill phase may change the state: it removes players but adds none, only adds to
the killed players, and leaves the hearts, the height and the rules alone. -/
structure KillFrame (s : GameState) (r : StepResult) (s' : GameState) (r' : StepResult) : Prop where
  keys : ∀ p, s'.players.contains p = true → s.players.contains p = true
  killed : ∀ p, p ∈ r.killedPlayers.elems → p ∈ r'.killedPlayers.elems
  hearts : s'.hearts = s.hearts
  nHeight : s'.nHeight = s.nHeight
  param : s'.param = s.param

/-- A kill phase from `(s, r)` to `(s', r')`: its frame, and the invariant at its end. -/
structure KillStep (cap : Nat) (s : GameState) (r : StepResult) (s' : GameState) (r' : StepResult) :
    Prop extends KillFrame s r s' r' where
  sound : s'.Sound cap
  marked : KillsMarked s' r'

section KillStep

variable {cap : Nat} {s s₁ s₂ : GameState} {r r₁ r₂ : StepResult}

theorem KillFrame.refl (s : GameState) (r : StepResult) : KillFrame s r s r :=
  ⟨fun _ h => h, fun _ h => h, rfl, rfl, rfl⟩

theorem KillFrame.trans (h₁ : KillFrame s r s₁ r₁) (h₂ : KillFrame s₁ r₁ s₂ r₂) : KillFrame s r s₂ r₂ :=
  ⟨fun p hp => h₁.keys p (h₂.keys p hp), fun p hp => h₂.killed p (h₁.killed p hp),
    h₂.hearts.trans h₁.hearts, h₂.nHeight.trans h₁.nHeight, h₂.param.trans h₁.param⟩

theorem KillStep.refl (hs : s.Sound cap) (hk : KillsMarked s r) : KillStep cap s r s r :=
  ⟨KillFrame.refl s r, hs, hk⟩

theorem KillStep.trans (h₁ : KillStep cap s r s₁ r₁) (h₂ : KillStep cap s₁ r₁ s₂ r₂) :
    KillStep cap s r s₂ r₂ :=
  ⟨h₁.toKillFrame.trans h₂.toKillFrame, h₂.sound, h₂.marked⟩

/-- The invariant rule of a kill loop: each iteration is a kill phase from where it starts. -/
theorem KillStep.foldl {β : Type} (f : GameState × StepResult → β → GameState × StepResult)
    (l : List β)
    (hf : ∀ acc b, b ∈ l → acc.1.Sound cap → KillsMarked acc.1 acc.2 →
      KillStep cap acc.1 acc.2 (f acc b).1 (f acc b).2)
    (hs : s.Sound cap) (hk : KillsMarked s r) :
    KillStep cap s r (l.foldl f (s, r)).1 (l.foldl f (s, r)).2 :=
  List.foldl_invariant (fun acc => KillStep cap s r acc.1 acc.2) f l
    (fun acc b hb h => h.trans (hf acc b hb h.sound h.marked)) (s, r) (KillStep.refl hs hk)

/-- Marking more players killed is a kill phase. -/
theorem KillStep.of_killed (hs : s.Sound cap) (hk : KillsMarked s r)
    (hr : ∀ p, p ∈ r.killedPlayers.elems → p ∈ r'.killedPlayers.elems) : KillStep cap s r s r' :=
  ⟨⟨fun _ h => h, hr, rfl, rfl, rfl⟩, hs, fun p pl hp hkilled => hk p pl hp (fun h => hkilled (hr p h))⟩

/-- Replacing a player by a sound one that is alive unless marked killed is a kill phase. -/
theorem KillStep.setPlayer {p : PlayerID} {pl' : PlayerState} (hs : s.Sound cap)
    (hk : KillsMarked s r) (hp : s.players.contains p = true) (hsound : pl'.Sound cap)
    (halive : p ∉ r.killedPlayers.elems → pl'.Alive) :
    KillStep cap s r { s with players := s.players.insert p pl' } r :=
  ⟨⟨fun q hq => by
      simp only [OrdMap.contains_insert, Bool.or_eq_true, decide_eq_true_eq] at hq
      rcases hq with rfl | hq
      · exact hp
      · exact hq,
    fun _ h => h, rfl, rfl, rfl⟩,
    ⟨hs.players.insert hsound, hs.loot_pos, hs.fund_nonneg⟩, OrdMap.All.insert hk halive⟩

/-- Changing one player in a way that keeps it sound, and alive unless it is marked killed,
is a kill phase. -/
theorem KillStep.modifyPlayer (p : PlayerID) {f : PlayerState → PlayerState} (hs : s.Sound cap)
    (hk : KillsMarked s r) (hf : ∀ pl, pl.Sound cap → (f pl).Sound cap)
    (halive : ∀ pl, s.players.find? p = some pl → p ∉ r.killedPlayers.elems → (f pl).Alive) :
    KillStep cap s r { s with players := s.players.modify p f } r :=
  ⟨⟨fun q hq => by simpa using hq, fun _ h => h, rfl, rfl, rfl⟩,
    ⟨hs.players.modify p fun pl _ hpl => hf pl hpl, hs.loot_pos, hs.fund_nonneg⟩,
    OrdMap.All.modify hk p fun pl hpl _ hnot => halive pl hpl hnot⟩

end KillStep

/-! ## Killing players and settling loot -/

theorem StepResult.killed_KillPlayer {r : StepResult} {p : PlayerID} (victim : PlayerID)
    (killer : KilledByInfo) (h : p ∈ r.killedPlayers.elems) :
    p ∈ (r.KillPlayer victim killer).killedPlayers.elems :=
  (r.mem_killedPlayers_KillPlayer victim p killer).mpr (.inr h)

theorem StepResult.victim_KillPlayer (r : StepResult) (victim : PlayerID) (killer : KilledByInfo) :
    victim ∈ (r.KillPlayer victim killer).killedPlayers.elems :=
  (r.mem_killedPlayers_KillPlayer victim victim killer).mpr (.inl rfl)

/-- The kills of one victim by each of its attackers: the victim is marked, and nobody is
unmarked. -/
theorem StepResult.killed_foldl_KillPlayer {α : Type} (victim : PlayerID) (killer : α → KilledByInfo) :
    ∀ (l : List α) (r : StepResult) (p : PlayerID),
      p ∈ (l.foldl (fun r m => r.KillPlayer victim (killer m)) r).killedPlayers.elems ↔
        (p = victim ∧ l ≠ []) ∨ p ∈ r.killedPlayers.elems
  | [], r, p => by simp
  | m :: ms, r, p => by
    rw [List.foldl_cons, StepResult.killed_foldl_KillPlayer victim killer ms,
      StepResult.mem_killedPlayers_KillPlayer]
    constructor
    · rintro ((⟨rfl, -⟩ | rfl) | h) <;> simp_all
    · rintro (⟨rfl, -⟩ | h) <;> simp_all

namespace GameState

theorem HandleKilledLoot_killStep {cap : Nat} {s : GameState} {r : StepResult} (hs : s.Sound cap)
    (hk : KillsMarked s r) (pId : PlayerID) (chInd : Int) (info : KilledByInfo) :
    KillStep cap s r (s.HandleKilledLoot pId chInd info r).1 (s.HandleKilledLoot pId chInd info r).2 :=
  ⟨⟨fun p h => by simpa using h, fun p h => by simpa using h, by simp, by simp, by simp⟩,
    s.HandleKilledLoot_sound pId chInd info r hs, by simpa [KillsMarked] using hk⟩

/-- A dying character: its loot is settled and it leaves its player, which is marked killed
if the character is its general. -/
theorem killCharacter_killStep {cap : Nat} {s : GameState} {r : StepResult} (hs : s.Sound cap)
    (hk : KillsMarked s r) {p : PlayerID} {i : Int} {pl : PlayerState} (hp : s.players.find? p = some pl)
    (h0 : i = 0 → p ∈ r.killedPlayers.elems) (info : KilledByInfo) :
    KillStep cap s r (s.killCharacter p i info r).1 (s.killCharacter p i info r).2 := by
  unfold killCharacter
  have hH := s.HandleKilledLoot_killStep hs hk p i info
  have hfind : (s.HandleKilledLoot p i info r).1.players.getD p default = pl := by
    simp [OrdMap.getD, hp]
  have hplayers := s.players_HandleKilledLoot p i info r
  have hkilled := s.killedPlayers_HandleKilledLoot p i info r
  rcases hHKL : s.HandleKilledLoot p i info r with ⟨s', r'⟩
  rw [hHKL] at hH hfind hplayers hkilled
  dsimp only at hplayers hkilled ⊢
  rw [hfind]
  refine hH.trans (KillStep.setPlayer hH.sound hH.marked (by simp [OrdMap.contains, hplayers, hp])
    ((hs.players p pl hp).erase i) fun hnot => ?_)
  -- a player that is not marked killed did not lose its general
  have hnot' : p ∉ r.killedPlayers.elems := by rwa [hkilled] at hnot
  have hi : i ≠ 0 := fun h => hnot' (h0 h)
  exact (hk p pl hp hnot').erase_of_ne hi

/-- Marking players killed and then killing a character. -/
theorem killCharacter_killStep_of_killed {cap : Nat} {s : GameState} {r : StepResult}
    (hs : s.Sound cap) (hk : KillsMarked s r) {p : PlayerID} {i : Int} {pl : PlayerState}
    (hp : s.players.find? p = some pl) (r₁ : StepResult)
    (hr : ∀ q, q ∈ r.killedPlayers.elems → q ∈ r₁.killedPlayers.elems)
    (h0 : i = 0 → p ∈ r₁.killedPlayers.elems) (info : KilledByInfo) :
    KillStep cap s r (s.killCharacter p i info r₁).1 (s.killCharacter p i info r₁).2 :=
  have hmark := KillStep.of_killed hs hk hr
  hmark.trans (killCharacter_killStep hs hmark.marked hp h0 info)

end GameState

/-! ## The tile map

The life drawn from an attacked character is paid out after the random seed is known; the
payout relies on it never being negative. The tile map starts with nothing drawn, and the
attacks change only who attacks whom.
-/

namespace CharactersOnTiles

/-- No entry of the tile map has a negative drawn life. -/
def DrawnNonneg (t : CharactersOnTiles) : Prop := ∀ e ∈ t.tiles, 0 ≤ e.2.drawnLife

@[simp] theorem drawnLife_Attack (a : AttackableCharacter) (s : GameState) (chid : CharacterID)
    (pl : PlayerState) : (a.Attack s chid pl).drawnLife = a.drawnLife := by
  unfold AttackableCharacter.Attack AttackableCharacter.AttackSelf AttackableCharacter.AttackBy
  split_ifs <;> rfl

theorem drawnNonneg_default : (default : CharactersOnTiles).DrawnNonneg :=
  fun _ h => absurd h List.not_mem_nil

theorem DrawnNonneg.EnsureIsBuilt {t : CharactersOnTiles} (h : t.DrawnNonneg) (s : GameState) :
    (t.EnsureIsBuilt s).DrawnNonneg := by
  unfold CharactersOnTiles.EnsureIsBuilt
  split
  · exact h
  · -- the map is built from the attackable characters, none of which has anything drawn
    refine List.foldl_invariant (fun tiles : List (Coord × AttackableCharacter) =>
        ∀ e ∈ tiles, 0 ≤ e.2.drawnLife) _ _ (fun tiles e he htiles e' he' => ?_) []
      (fun _ h => absurd h List.not_mem_nil)
    rcases Entries.mem_insertMulti.mp he' with rfl | he'
    · simp only [attackable, List.mem_flatMap, List.mem_map] at he
      obtain ⟨_, _, _, _, rfl⟩ := he
      exact le_rfl
    · exact htiles e' he'

theorem DrawnNonneg.attackAround {t : CharactersOnTiles} (h : t.DrawnNonneg) (s : GameState)
    (chid : CharacterID) (pl : PlayerState) (c : Coord) (radius : Int) :
    (t.attackAround s chid pl c radius).DrawnNonneg := by
  intro e he
  simp only [CharactersOnTiles.attackAround, List.mem_map] at he
  obtain ⟨e₀, he₀, rfl⟩ := he
  dsimp only
  split
  · rw [drawnLife_Attack]
    exact h e₀ he₀
  · exact h e₀ he₀

theorem DrawnNonneg.destructOne {t : CharactersOnTiles} (h : t.DrawnNonneg) (s : GameState)
    (player : PlayerID) (pl : PlayerState) (i : Int) : (destructOne s player pl t i).DrawnNonneg := by
  unfold CharactersOnTiles.destructOne
  split
  · exact h
  · dsimp only
    split_ifs
    · exact h
    · exact h
    · exact (h.EnsureIsBuilt s).attackAround _ _ _ _ _

theorem DrawnNonneg.ApplyAttacks {t : CharactersOnTiles} (h : t.DrawnNonneg) (s : GameState)
    (moves : List Move) : (t.ApplyAttacks s moves).DrawnNonneg := by
  unfold CharactersOnTiles.ApplyAttacks
  refine List.foldl_invariant DrawnNonneg _ moves (fun t m _ ht => ?_) t h
  split
  · exact ht
  · split
    · exact ht
    · exact List.foldl_invariant DrawnNonneg _ _ (fun t' i _ ht' => ht'.destructOne s m.player _ i) t ht

theorem DrawnNonneg.DefendMutualAttacks {t : CharactersOnTiles} (h : t.DrawnNonneg) :
    t.DefendMutualAttacks.DrawnNonneg := by
  unfold CharactersOnTiles.DefendMutualAttacks
  split
  · exact h
  · intro e he
    simp only [List.mem_map] at he
    obtain ⟨e₀, he₀, rfl⟩ := he
    exact h e₀ he₀

/-- The life steal only adds to the life drawn from a character. -/
theorem drawnLife_le_stealLife {damage : Int} (hd : 0 ≤ damage) {victim : PlayerState}
    (hv : 0 ≤ victim.value) (a : AttackableCharacter) :
    a.drawnLife ≤ (stealLife damage victim a).2.drawnLife := by
  have hmin : 0 ≤ min (damage * a.attackers.size) victim.value :=
    le_min (mul_nonneg hd (Int.natCast_nonneg _)) hv
  have hle := min_le_right (damage * a.attackers.size) victim.value
  unfold stealLife
  dsimp only
  split <;> dsimp only <;> omega

/-! ## `DrawLife` -/

/-- One attacked character: the life steal changes the victim's value only; a character
that dies is settled and removed, and a dying general marks its player killed. -/
theorem drawLifeOne_killStep {cap : Nat} (lifeSteal : Bool) (damage : Int) {s : GameState}
    {r : StepResult} (a : AttackableCharacter) (hs : s.Sound cap) (hk : KillsMarked s r) :
    KillStep cap s r (drawLifeOne lifeSteal damage (s, r) a).1.1
      (drawLifeOne lifeSteal damage (s, r) a).1.2 := by
  unfold drawLifeOne
  dsimp only
  split
  · exact KillStep.refl hs hk
  · split
    · exact KillStep.refl hs hk
    · next victim hvictim =>
      have hpl : victim.Sound cap := hs.players _ victim hvictim
      have hcontains : s.players.contains a.chid.player = true := by
        simp [OrdMap.contains, hvictim]
      -- the steal keeps everything of the victim but its value, and the attacked character
      obtain ⟨victim', a', hsteal, hchars, hnext, hlife, hvalue, hchid, hatt⟩ :
          ∃ victim' a', (if lifeSteal = true then stealLife damage victim a else (victim, a)) =
            (victim', a') ∧ victim'.characters = victim.characters ∧
            victim'.next_character_index = victim.next_character_index ∧
            victim'.remainingLife = victim.remainingLife ∧ 0 ≤ victim'.value ∧ a'.chid = a.chid ∧
            a'.attackers = a.attackers := by
        split
        · exact ⟨(stealLife damage victim a).1, (stealLife damage victim a).2, rfl, by simp, by simp,
            by simp, value_stealLife_nonneg _ _ _, by simp, by simp⟩
        · exact ⟨_, _, rfl, rfl, rfl, rfl, hpl.value_nonneg, rfl, rfl⟩
      rw [hsteal]
      dsimp only
      rw [hchid]
      have hsound' : victim'.Sound cap :=
        ⟨hchars ▸ hpl.size_le, hchars ▸ hnext ▸ hpl.index_lt, hnext ▸ hpl.next_le, hvalue,
          hchars ▸ hpl.loot⟩
      have hset := KillStep.setPlayer hs hk hcontains hsound' (fun hp =>
        (hk _ victim hvictim hp).of_eq (by rw [hchars]) hlife)
      split
      · exact hset
      · -- the victim dies: a dying general marks its player killed by every attacker
        have hattackers : a.attackers.elems ≠ [] := by
          simpa [OrdSet.isEmpty] using ‹¬a.attackers.isEmpty = true›
        have hr : ∀ q, q ∈ r.killedPlayers.elems →
            q ∈ (if a.chid.index = 0 then a'.attackers.elems.foldl
              (fun r m => r.KillPlayer a.chid.player (.ofKiller m)) r else r).killedPlayers.elems := by
          intro q hq
          split
          · exact (StepResult.killed_foldl_KillPlayer _ _ _ _ q).mpr (.inr hq)
          · exact hq
        split
        · refine hset.trans (GameState.killCharacter_killStep_of_killed hset.sound hset.marked
            (show _ = some victim' by simp) _ hr (fun h0 => ?_) _)
          rw [if_pos h0]
          exact (StepResult.killed_foldl_KillPlayer _ _ _ _ _).mpr (.inl ⟨rfl, hatt ▸ hattackers⟩)
        · exact hset.trans (KillStep.of_killed hset.sound hset.marked hr)

@[simp] theorem drawLifeTile_fst (lifeSteal : Bool) (damage : Int)
    (acc : (GameState × StepResult) × List (Coord × AttackableCharacter))
    (e : Coord × AttackableCharacter) :
    (drawLifeTile lifeSteal damage acc e).1 = (drawLifeOne lifeSteal damage acc.1 e.2).1 := rfl

/-- The character `drawLifeOne` writes back has at least the life drawn before. -/
theorem drawnLife_le_drawLifeOne {cap : Nat} (lifeSteal : Bool) {damage : Int} (hd : 0 ≤ damage)
    {s : GameState} {r : StepResult} (hs : s.Sound cap) (a : AttackableCharacter) :
    a.drawnLife ≤ (drawLifeOne lifeSteal damage (s, r) a).2.drawnLife := by
  unfold drawLifeOne
  dsimp only
  split
  · exact le_rfl
  · split
    · exact le_rfl
    · next victim hvictim =>
      have hsteal : a.drawnLife ≤
          (if lifeSteal = true then stealLife damage victim a else (victim, a)).2.drawnLife := by
        split
        · exact drawnLife_le_stealLife hd (hs.players _ victim hvictim).value_nonneg a
        · exact le_rfl
      generalize (if lifeSteal = true then stealLife damage victim a else (victim, a)) = st at hsteal ⊢
      obtain ⟨victim', a'⟩ := st
      dsimp only
      split
      · exact hsteal
      · split <;> exact hsteal

/-- `DrawLife` is a kill phase. -/
theorem DrawLife_killStep {cap : Nat} (t : CharactersOnTiles) {s : GameState} {r : StepResult}
    (hs : s.Sound cap) (hk : KillsMarked s r) :
    KillStep cap s r (t.DrawLife s r).2.1 (t.DrawLife s r).2.2 := by
  unfold DrawLife
  split
  · exact KillStep.refl hs hk
  · -- the loop carries the tile entries drawn so far next to the state and the result
    exact List.foldl_invariant
      (fun acc : (GameState × StepResult) × List (Coord × AttackableCharacter) =>
        KillStep cap s r acc.1.1 acc.1.2)
      (drawLifeTile (s.ForkInEffect .LIFESTEAL) (GetNameCoinAmount s.param s.nHeight)) t.tiles
      (fun acc e _ hacc => by
        rw [drawLifeTile_fst]
        exact hacc.trans (drawLifeOne_killStep _ _ e.2 hacc.sound hacc.marked))
      ((s, r), []) (KillStep.refl hs hk)

/-- `DrawLife` draws no negative life. -/
theorem DrawLife_drawn {cap : Nat} (t : CharactersOnTiles) {s : GameState} {r : StepResult}
    (hs : s.Sound cap) (hk : KillsMarked s r) (ht : t.DrawnNonneg) : (t.DrawLife s r).1.DrawnNonneg := by
  unfold DrawLife
  split
  · exact ht
  · -- the loop carries the kill phase, for the soundness of the victims, next to the entries
    have hd := (getNameCoinAmount_pos s.param s.nHeight).le
    obtain ⟨-, hdrawn⟩ := List.foldl_invariant
      (fun acc : (GameState × StepResult) × List (Coord × AttackableCharacter) =>
        KillStep cap s r acc.1.1 acc.1.2 ∧ ∀ e ∈ acc.2, 0 ≤ e.2.drawnLife)
      (drawLifeTile (s.ForkInEffect .LIFESTEAL) (GetNameCoinAmount s.param s.nHeight)) t.tiles
      (fun acc e he ⟨hacc, hdrawn⟩ => ⟨by
          rw [drawLifeTile_fst]
          exact hacc.trans (drawLifeOne_killStep _ _ e.2 hacc.sound hacc.marked),
        fun e' he' => by
          rcases List.mem_append.mp he' with he' | he'
          · exact hdrawn e' he'
          · rw [List.mem_singleton.mp he']
            exact (ht e he).trans (drawnLife_le_drawLifeOne _ hd hacc.sound e.2)⟩)
      ((s, r), []) ⟨KillStep.refl hs hk, fun _ h => absurd h List.not_mem_nil⟩
    exact hdrawn

end CharactersOnTiles

/-! ## `KillSpawnArea` -/

namespace GameState

/-- The spawn-area timer of one character changes nothing the invariant reads. -/
theorem setStay_killStep {cap : Nat} {s : GameState} {r : StepResult} (hs : s.Sound cap)
    (hk : KillsMarked s r) (pid : PlayerID) (i : Int) (stay : Nat) :
    KillStep cap s r { s with players := s.players.modify pid fun p =>
      { p with characters := p.characters.modify i fun ch => { ch with stay_in_spawn_area := stay } } } r :=
  KillStep.modifyPlayer pid hs hk
    (fun pl hpl => hpl.of_characters (by simp) (by simp) rfl rfl
      (hpl.loot.modify i fun _ _ h => h))
    (fun pl hpl hnot => (hk pid pl hpl hnot).of_eq (by simp) rfl)

/-- One character of `KillSpawnArea`: a character that dies is settled and queued for
erasure; a general that dies marks its player killed. -/
theorem killSpawnAreaOne_killStep {cap : Nat} (pid : PlayerID) (acc : GameState × StepResult × List Int)
    (pc : Int × CharacterState) (hs : acc.1.Sound cap) (hk : KillsMarked acc.1 acc.2.1)
    (h0 : (0 : Int) ∈ acc.2.2 → pid ∈ acc.2.1.killedPlayers.elems) :
    KillStep cap acc.1 acc.2.1 (killSpawnAreaOne w pid acc pc).1 (killSpawnAreaOne w pid acc pc).2.1 ∧
      ((0 : Int) ∈ (killSpawnAreaOne w pid acc pc).2.2 →
        pid ∈ (killSpawnAreaOne w pid acc pc).2.1.killedPlayers.elems) := by
  obtain ⟨s, r, toErase⟩ := acc
  unfold killSpawnAreaOne
  dsimp only at hs hk h0 ⊢
  have hstay := setStay_killStep hs hk pid pc.1 (spawnAreaRule w s pc.2).1
  split
  · -- the character dies
    have hH := GameState.HandleKilledLoot_killStep hstay.sound hstay.marked pid pc.1
      (.ofReason .KILLED_SPAWN)
    split
    · next hgeneral =>
      refine ⟨hstay.trans (hH.trans (KillStep.of_killed hH.sound hH.marked
        fun q hq => StepResult.killed_KillPlayer _ _ hq)), fun _ => StepResult.victim_KillPlayer _ _ _⟩
    · next hgeneral =>
      refine ⟨hstay.trans hH, fun h => hH.killed pid (h0 ?_)⟩
      -- the character queued now is not the general
      rcases List.mem_append.mp h with h | h
      · exact h
      · exact absurd (List.mem_singleton.mp h).symm hgeneral
  · exact ⟨hstay, h0⟩

/-- The characters of one player in `KillSpawnArea`: the loop queues the dead ones, and a
queued general has marked its player killed, so erasing them afterwards is a kill phase. -/
theorem killSpawnAreaOf_killStep {cap : Nat} (acc : GameState × StepResult) (pid : PlayerID)
    (hs : acc.1.Sound cap) (hk : KillsMarked acc.1 acc.2) :
    KillStep cap acc.1 acc.2 (killSpawnAreaOf w acc pid).1 (killSpawnAreaOf w acc pid).2 := by
  obtain ⟨s, r⟩ := acc
  unfold killSpawnAreaOf
  dsimp only at hs hk ⊢
  obtain ⟨hloop, h0⟩ := List.foldl_invariant
    (fun acc : GameState × StepResult × List Int =>
      KillStep cap s r acc.1 acc.2.1 ∧ ((0 : Int) ∈ acc.2.2 → pid ∈ acc.2.1.killedPlayers.elems))
    (killSpawnAreaOne w pid) (s.players.getD pid default).characters.entries
    (fun acc pc _ ⟨hacc, h0⟩ => by
      obtain ⟨h₁, h₂⟩ := killSpawnAreaOne_killStep w pid acc pc hacc.sound hacc.marked h0
      exact ⟨hacc.trans h₁, h₂⟩)
    (s, r, []) ⟨KillStep.refl hs hk, fun h => absurd h List.not_mem_nil⟩
  exact hloop.trans (KillStep.modifyPlayer pid hloop.sound hloop.marked (fun pl hpl => hpl.eraseList _)
    fun pl hpl hnot => (hloop.marked pid pl hpl hnot).eraseList_of_not_mem fun h => hnot (h0 h))

theorem KillSpawnArea_killStep {cap : Nat} {s : GameState} {r : StepResult} (hs : s.Sound cap)
    (hk : KillsMarked s r) : KillStep cap s r (s.KillSpawnArea w r).1 (s.KillSpawnArea w r).2 :=
  KillStep.foldl (killSpawnAreaOf w) s.players.keys
    (fun acc pid _ hs hk => killSpawnAreaOf_killStep w acc pid hs hk) hs hk

/-! ## `DecrementLife` and `FinaliseKills` -/

end GameState

/-- A loop that marks killed the players whose entry satisfies `c`. -/
theorem StepResult.killed_foldl_KillPlayer_if (c : PlayerID × PlayerState → Prop) [DecidablePred c]
    (info : KilledByInfo) :
    ∀ (l : List (PlayerID × PlayerState)) (r : StepResult) (q : PlayerID),
      q ∈ (l.foldl (fun r p => if c p then r.KillPlayer p.1 info else r) r).killedPlayers.elems ↔
        (∃ pl, (q, pl) ∈ l ∧ c (q, pl)) ∨ q ∈ r.killedPlayers.elems
  | [], r, q => by simp
  | e :: es, r, q => by
    rw [List.foldl_cons, StepResult.killed_foldl_KillPlayer_if c info es]
    by_cases hc : c e
    · rw [if_pos hc, StepResult.mem_killedPlayers_KillPlayer]
      constructor
      · rintro (⟨pl, hpl, hcpl⟩ | rfl | h)
        · exact .inl ⟨pl, List.mem_cons_of_mem e hpl, hcpl⟩
        · exact .inl ⟨e.2, List.mem_cons_self, hc⟩
        · exact .inr h
      · rintro (⟨pl, hpl, hcpl⟩ | h)
        · rcases List.mem_cons.mp hpl with rfl | hpl
          · exact .inr (.inl rfl)
          · exact .inl ⟨pl, hpl, hcpl⟩
        · exact .inr (.inr h)
    · rw [if_neg hc]
      constructor
      · rintro (⟨pl, hpl, hcpl⟩ | h)
        · exact .inl ⟨pl, List.mem_cons_of_mem e hpl, hcpl⟩
        · exact .inr h
      · rintro (⟨pl, hpl, hcpl⟩ | h)
        · rcases List.mem_cons.mp hpl with rfl | hpl
          · exact absurd hcpl hc
          · exact .inl ⟨pl, hpl, hcpl⟩
        · exact .inr h

namespace GameState

/-- `DecrementLife`: a poisoned player loses one block of life and is marked killed when
none is left. -/
theorem DecrementLife_killStep {cap : Nat} {s : GameState} {r : StepResult} (hs : s.Sound cap)
    (hk : KillsMarked s r) : KillStep cap s r (s.DecrementLife r).1 (s.DecrementLife r).2 := by
  unfold DecrementLife
  dsimp only
  have hkilled := StepResult.killed_foldl_KillPlayer_if (fun p : PlayerID × PlayerState =>
    p.2.remainingLife = 0) (.ofReason .KILLED_POISON)
  refine ⟨⟨fun q hq => by simpa using hq, fun q hq => (hkilled _ _ q).mpr (.inr hq), rfl, rfl, rfl⟩,
    ⟨hs.players.mapVals fun _ pl hpl => ?_, hs.loot_pos, hs.fund_nonneg⟩, ?_⟩
  · split
    · exact hpl
    · exact hpl.of_eq rfl rfl rfl
  · intro q pl' hq hnot
    rw [OrdMap.find?_mapVals] at hq
    obtain ⟨pl, hpl, rfl⟩ := Option.map_eq_some_iff.mp hq
    have halive := hk q pl hpl fun h => hnot ((hkilled _ _ q).mpr (.inr h))
    split
    · exact halive
    · next hpoison =>
      -- a player whose life ran out would be marked killed
      have hlife : pl.remainingLife - 1 ≠ 0 := fun h0 => hnot ((hkilled _ _ q).mpr (.inl
        ⟨_, (OrdMap.mem_entries_iff _ _ _).mpr (by rw [OrdMap.find?_mapVals, hpl]; rfl),
          by simp [hpoison, h0]⟩))
      refine ⟨halive.general, .inr ?_⟩
      show 1 ≤ pl.remainingLife - 1 ∧ pl.remainingLife - 1 ≤ POISON_MAX_LIFE
      rcases halive.life with h | h
      · exact absurd h hpoison
      · omega

/-- Settling the characters of one killed player leaves the killed set as it is. -/
theorem killedPlayers_finaliseKill (killedBy : List (PlayerID × KilledByInfo))
    (acc : GameState × StepResult) (victim : PlayerID) :
    (finaliseKill killedBy acc victim).2.killedPlayers = acc.2.killedPlayers := by
  unfold finaliseKill
  split
  · exact List.foldl_invariant (fun acc' : GameState × StepResult => acc'.2.killedPlayers = acc.2.killedPlayers)
      _ _ (fun acc' pc _ h => by simpa using h) acc rfl
  · rfl

theorem finaliseKill_killStep {cap : Nat} (killedBy : List (PlayerID × KilledByInfo))
    (acc : GameState × StepResult) (victim : PlayerID) (hs : acc.1.Sound cap)
    (hk : KillsMarked acc.1 acc.2) :
    KillStep cap acc.1 acc.2 (finaliseKill killedBy acc victim).1 (finaliseKill killedBy acc victim).2 := by
  unfold finaliseKill
  split
  · exact KillStep.foldl _ _ (fun acc' pc _ hs hk => HandleKilledLoot_killStep hs hk victim pc.1 _) hs hk
  · exact KillStep.refl hs hk

/-- `FinaliseKills` settles the loot of every marked player and removes them, so that every
player left is alive. -/
theorem FinaliseKills_killStep {cap : Nat} {s : GameState} {r : StepResult} (hs : s.Sound cap)
    (hk : KillsMarked s r) :
    KillStep cap s r (s.FinaliseKills r).1 (s.FinaliseKills r).2 ∧ (s.FinaliseKills r).1.Live cap := by
  unfold FinaliseKills
  dsimp only
  have hloop := KillStep.foldl (finaliseKill r.killedBy) r.killedPlayers.elems
    (fun acc v _ hs hk => finaliseKill_killStep r.killedBy acc v hs hk) hs hk
  have hkilled := List.foldl_invariant
    (fun acc : GameState × StepResult => acc.2.killedPlayers = r.killedPlayers)
    (finaliseKill r.killedBy) r.killedPlayers.elems
    (fun acc v _ h => (killedPlayers_finaliseKill _ acc v).trans h) (s, r) rfl
  generalize r.killedPlayers.elems.foldl (finaliseKill r.killedBy) (s, r) = acc at hloop hkilled ⊢
  -- the players left were not marked killed, so they are alive
  have halive : (acc.1.players.eraseList r.killedPlayers.elems).All fun _ pl => pl.Alive := by
    intro p pl hp
    rw [OrdMap.find?_eraseList] at hp
    split at hp
    · cases hp
    · next hnot => exact hloop.marked p pl hp (by rwa [hkilled])
  have hsound : ({ acc.1 with players := acc.1.players.eraseList r.killedPlayers.elems } : GameState).Sound cap :=
    ⟨hloop.sound.players.eraseList _, hloop.sound.loot_pos, hloop.sound.fund_nonneg⟩
  refine ⟨hloop.trans ⟨⟨fun q hq => ?_, fun _ h => h, rfl, rfl, rfl⟩, hsound, fun p pl hp _ => halive p pl hp⟩,
    hsound, halive⟩
  simp only [OrdMap.contains_eraseList, Bool.and_eq_true] at hq
  exact hq.2

/-! ## `RemoveHeartedCharacters` -/

/-- One player at the life-steal fork: its characters but the general are settled and
erased, which leaves it with its general only. -/
theorem removeHeartedOf_live {cap : Nat} (acc : GameState × StepResult) (pid : PlayerID)
    (h : acc.1.Live cap) :
    (removeHeartedOf acc pid).1.Live cap ∧
      (∀ p pl, (removeHeartedOf acc pid).1.players.find? p = some pl →
        (p = pid → pl.characters.size = 1) ∧ (p ≠ pid → acc.1.players.find? p = some pl)) ∧
      (∀ p, (removeHeartedOf acc pid).1.players.contains p = acc.1.players.contains p) ∧
      (removeHeartedOf acc pid).1.hearts = acc.1.hearts ∧
      (removeHeartedOf acc pid).1.nHeight = acc.1.nHeight ∧
      (removeHeartedOf acc pid).1.param = acc.1.param := by
  obtain ⟨s, r⟩ := acc
  unfold removeHeartedOf
  dsimp only at h ⊢
  -- settling the loot leaves the players alone
  obtain ⟨hplayers, hsound, hhearts, hheight, hparam⟩ := List.foldl_invariant
    (fun acc : GameState × StepResult => acc.1.players = s.players ∧ acc.1.Sound cap ∧
      acc.1.hearts = s.hearts ∧ acc.1.nHeight = s.nHeight ∧ acc.1.param = s.param)
    (fun (acc : GameState × StepResult) i => acc.1.HandleKilledLoot pid i (.ofReason .KILLED_POISON) acc.2)
    ((s.players.getD pid default).characters.keys.filter (· ≠ 0))
    (fun acc i _ ⟨h₁, h₂, h₃, h₄, h₅⟩ => ⟨by simpa using h₁, acc.1.HandleKilledLoot_sound pid i _ acc.2 h₂,
      by simpa using h₃, by simpa using h₄, by simpa using h₅⟩)
    (s, r) ⟨rfl, h.sound, rfl, rfl, rfl⟩
  generalize List.foldl _ (s, r) _ = acc at hplayers hsound hhearts hheight hparam ⊢
  have hfind : ∀ p, (acc.1.players.modify pid fun p =>
      { p with characters := p.characters.eraseList
                ((s.players.getD pid default).characters.keys.filter (· ≠ 0)) }).find? p =
      if p = pid then (s.players.find? p).map fun pl =>
        { pl with characters := pl.characters.eraseList (pl.characters.keys.filter (· ≠ 0)) }
      else s.players.find? p := by
    intro p
    rw [OrdMap.find?_modify, hplayers]
    split
    · next hp =>
      subst hp
      cases hpl : s.players.find? p <;> simp [OrdMap.getD, hpl]
    · rfl
  refine ⟨⟨⟨?_, hsound.loot_pos, hsound.fund_nonneg⟩, ?_⟩, ?_, fun p => by simp [hplayers], hhearts, hheight,
    hparam⟩
  · intro p pl hp
    rw [hfind] at hp
    split at hp
    · obtain ⟨pl₀, hpl₀, rfl⟩ := Option.map_eq_some_iff.mp hp
      exact (h.sound.players p pl₀ hpl₀).eraseList _
    · exact h.sound.players p pl hp
  · intro p pl hp
    rw [hfind] at hp
    split at hp
    · obtain ⟨pl₀, hpl₀, rfl⟩ := Option.map_eq_some_iff.mp hp
      exact (h.alive p pl₀ hpl₀).eraseList_of_not_mem (by simp)
    · exact h.alive p pl hp
  · intro p pl hp
    rw [hfind] at hp
    split at hp
    · next hpid =>
      obtain ⟨pl₀, hpl₀, rfl⟩ := Option.map_eq_some_iff.mp hp
      -- only the general is left
      refine ⟨fun _ => OrdMap.size_eq_one (k := 0) ?_ fun i hi => ?_, fun hne => absurd hpid hne⟩
      · simpa using (h.alive p pl₀ hpl₀).general
      · simp only [OrdMap.contains_eraseList, Bool.and_eq_true, Bool.not_eq_true',
          decide_eq_false_iff_not, List.mem_filter] at hi
        by_contra hne
        exact hi.1 ⟨(OrdMap.mem_keys _ _).mpr hi.2, by simpa using hne⟩
    · next hpid => exact ⟨fun h => absurd h hpid, fun _ => hp⟩

/-- At the life-steal fork the hearts vanish and every player is left with its general. -/
theorem RemoveHeartedCharacters_live {cap : Nat} {s : GameState} {r : StepResult} (h : s.Live cap) :
    (s.RemoveHeartedCharacters r).1.Live 1 ∧ (s.RemoveHeartedCharacters r).1.hearts = .empty ∧
      (∀ p, (s.RemoveHeartedCharacters r).1.players.contains p = true → s.players.contains p = true) ∧
      (s.RemoveHeartedCharacters r).1.nHeight = s.nHeight ∧
      (s.RemoveHeartedCharacters r).1.param = s.param := by
  unfold RemoveHeartedCharacters
  -- the loop carries, besides the invariant, the fact that the players done have one character
  obtain ⟨hlive, hone, hkeys, hhearts, hheight, hparam⟩ := List.foldl_suffix_invariant
    (fun (acc : GameState × StepResult) (rest : List PlayerID) => acc.1.Live cap ∧
      (∀ p pl, acc.1.players.find? p = some pl → p ∉ rest → pl.characters.size = 1) ∧
      (∀ p, acc.1.players.contains p = true → s.players.contains p = true) ∧
      acc.1.hearts = .empty ∧ acc.1.nHeight = s.nHeight ∧ acc.1.param = s.param)
    removeHeartedOf
    (fun acc pid rest ⟨hl, hd, hk, hh, hn, hp⟩ => by
      obtain ⟨hl', hpl', hc', hh', hn', hp'⟩ := removeHeartedOf_live acc pid hl
      refine ⟨hl', fun p pl hfind hrest => ?_, fun p hc => hk p (by rwa [← hc']), hh'.trans hh, hn'.trans hn,
        hp'.trans hp⟩
      by_cases hpid : p = pid
      · exact (hpl' p pl hfind).1 hpid
      · exact hd p pl ((hpl' p pl hfind).2 hpid) (by simp [hpid, hrest]))
    s.players.keys ({ s with hearts := .empty }, r)
    ⟨⟨⟨h.sound.players, h.sound.loot_pos, h.sound.fund_nonneg⟩, h.alive⟩, fun p pl hp hrest => absurd ((OrdMap.mem_keys _ _).mpr (by simp [OrdMap.contains, hp])) hrest,
      fun _ h => h, rfl, rfl, rfl⟩
  exact ⟨⟨⟨fun p pl hp => (hlive.sound.players p pl hp).recap (hone p pl hp List.not_mem_nil).le,
    hlive.sound.loot_pos, hlive.sound.fund_nonneg⟩, hlive.alive⟩, hhearts, hkeys, hheight, hparam⟩

end GameState

end Huntercore
