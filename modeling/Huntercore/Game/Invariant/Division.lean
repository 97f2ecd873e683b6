import Mathlib
import Huntercore.Lib.Control
import Huntercore.Game.Invariant.Phases

/-!
# The invariant through the division of loot

`DivideLootAmongPlayers` lets the characters standing on loot take their shares in turn. A
collector's share is the loot of its tile divided by the number of collectors on that tile
still to come (`counts`), so the tile keeps coins for each of them: with two or more to come
the share is less than the loot, and only the last collector can empty the tile. The loop
therefore never reaches a tile that has gone, where the source's `loot[coord]` would insert
an empty one.

`DivisionInv` is what the loop carries, stated against the collectors still to come; the
sorted order of the collectors plays no part beyond being a permutation of them.
-/

namespace Huntercore

variable (w : World)

namespace GameState

/-! ## The collectors -/

/-- A collector is a character of the state, standing on a tile with loot. -/
theorem mem_lootCollectors {s : GameState} {x : CharacterOnLootTile} (hx : x ∈ s.lootCollectors) :
    ∃ pl ch, s.players.find? x.pid = some pl ∧ pl.characters.find? x.cid = some ch ∧
      s.loot.contains x.coord = true := by
  unfold lootCollectors at hx
  simp only [List.mem_flatMap, List.mem_map, List.mem_filter, Bool.and_eq_true] at hx
  obtain ⟨p, hp, pc, ⟨hpc, -, hloot⟩, rfl⟩ := hx
  exact ⟨p.2, pc.2, (OrdMap.mem_entries_iff _ _ _).mp hp, (OrdMap.mem_entries_iff _ _ _).mp hpc, hloot⟩

/-- The counting loop of `DivideLootAmongPlayers`: the number of collectors on each tile. -/
theorem getD_countCollectors (c : Coord) :
    ∀ (l : List CharacterOnLootTile) (m : OrdMap Coord Int),
      (l.foldl (fun m x => m.insert x.coord (m.getD x.coord 0 + 1)) m).getD c 0 =
        m.getD c 0 + l.countP (fun x => x.coord == c)
  | [], m => by simp
  | x :: l, m => by
    rw [List.foldl_cons, getD_countCollectors c l, List.countP_cons]
    by_cases hx : x.coord = c
    · subst hx
      simp only [OrdMap.getD_insert_self, beq_self_eq_true, ↓reduceIte]
      omega
    · simp [OrdMap.getD_insert_of_ne _ _ _ hx, hx]

/-! ## One share -/

/-- What the division loop keeps, with `rest` the collectors still to come: the phase so far,
the count of collectors to come on each tile, loot on each of their tiles, and that they are
collectors of the state before the loop. -/
structure DivisionInv (cap : Nat) (s : GameState) (acc : GameState × OrdMap Coord Int)
    (rest : List CharacterOnLootTile) : Prop where
  phase : s.LatePhase cap acc.1
  counts : ∀ c, acc.2.getD c 0 = rest.countP (fun x => x.coord == c)
  loot : ∀ x ∈ rest, ∃ li, acc.1.loot.find? x.coord = some li ∧ 0 < li.nAmount
  collectors : ∀ x ∈ rest, x ∈ s.lootCollectors

/-- A collector that takes a share out of `n` leaves loot for the other `n - 1`. -/
theorem share_lt {a n : Int} (ha : 0 < a) (hn : 2 ≤ n) : a.tdiv n < a := by
  rw [Int.tdiv_eq_ediv_of_nonneg ha.le]
  exact Int.ediv_lt_of_lt_mul (by omega) (by nlinarith)

/-- One collector takes its share: the invariant holds for the collectors after it. -/
theorem collectShare_inv {cap : Nat} {s : GameState} (hh : 0 ≤ s.nHeight)
    (acc : GameState × OrdMap Coord Int) (x : CharacterOnLootTile) (rest : List CharacterOnLootTile)
    (h : DivisionInv cap s acc (x :: rest)) : DivisionInv cap s (collectShare acc x) rest := by
  obtain ⟨s', counts⟩ := acc
  obtain ⟨hphase, hcounts, hloot, hcoll⟩ := h
  dsimp only at hphase hcounts hloot
  obtain ⟨li, hli, hpos⟩ := hloot x List.mem_cons_self
  -- the collector's character is still there
  obtain ⟨pl₀, ch₀, hpl₀, hch₀, -⟩ := mem_lootCollectors (hcoll x List.mem_cons_self)
  obtain ⟨pl, ch, hpl, hch, -⟩ := hphase.chars _ pl₀ _ ch₀ hpl₀ hch₀
  have hn : counts.getD x.coord 0 = rest.countP (fun y => y.coord == x.coord) + 1 := by
    rw [hcounts, List.countP_cons]
    simp
  have hcounts' : ∀ c, (counts.insert x.coord (counts.getD x.coord 0 - 1)).getD c 0 =
      rest.countP (fun y => y.coord == c) := by
    intro c
    by_cases hc : x.coord = c
    · subst hc
      rw [OrdMap.getD_insert_self]
      omega
    · rw [OrdMap.getD_insert_of_ne _ _ _ hc, hcounts, List.countP_cons]
      simp [hc]
  have hcoll' : ∀ y ∈ rest, y ∈ s.lootCollectors := fun y hy => hcoll y (List.mem_cons_of_mem x hy)
  unfold collectShare
  dsimp only
  rw [hli]
  dsimp only
  split
  · next hshare =>
    have hgetp : s'.players.getD x.pid default = pl := by
      unfold OrdMap.getD
      rw [hpl]
      rfl
    have hgetc : pl.characters.getD x.cid default = ch := by
      unfold OrdMap.getD
      rw [hch]
      rfl
    rw [hgetp, hgetc]
    have hs := hphase.live.sound.players _ pl hpl
    have hcont : pl.characters.contains x.cid = true := by simp [OrdMap.contains, hch]
    have hnh : 0 ≤ s'.nHeight := by rw [hphase.nHeight]; exact hh
    have hlootc := (hs.loot _ ch hch).CollectLoot
      { li with nAmount := li.nAmount.tdiv (counts.getD x.coord 0) } x.carryCap hnh
    have hrem := ch.CollectLoot_rem_nonneg
      { li with nAmount := li.nAmount.tdiv (counts.getD x.coord 0) } s'.nHeight x.carryCap
    have hremle := ch.CollectLoot_rem_le
      { li with nAmount := li.nAmount.tdiv (counts.getD x.coord 0) } s'.nHeight x.carryCap
      (le_of_lt hshare)
    have hcoord := ch.coord_CollectLoot
      { li with nAmount := li.nAmount.tdiv (counts.getD x.coord 0) } s'.nHeight x.carryCap
    dsimp only at hremle hshare
    generalize ch.CollectLoot _ _ _ = res at hlootc hrem hremle hcoord ⊢
    have hle := Int.tdiv_le_self (counts.getD x.coord 0) hpos.le
    generalize hshr : li.nAmount.tdiv (counts.getD x.coord 0) = share at hremle hshare hle
    -- the collector's character takes its share; its player keeps the same characters
    have hs' : ({ pl with characters := pl.characters.insert x.cid res.1 } : PlayerState).Sound cap :=
      hs.of_characters (OrdMap.size_insert_of_contains _ hcont)
        (fun i hi => by rwa [OrdMap.contains_insert_of_contains _ hcont] at hi) rfl rfl
        (hs.loot.insert hlootc)
    have hstep := LatePhase.setPlayer hphase.live hpl hs'
      ((hphase.live.alive _ pl hpl).of_eq (OrdMap.contains_insert_of_contains _ hcont 0) rfl)
      fun i ch' hch' => by
        by_cases hi : x.cid = i
        · subst hi
          rw [hch, Option.some.injEq] at hch'
          subst hch'
          exact ⟨res.1, by simp, hcoord⟩
        · exact ⟨ch', by rw [OrdMap.find?_insert_of_ne _ _ hi]; exact hch', rfl⟩
    -- what the character could not carry goes back to the tile
    have hadd := GameState.AddLoot_loot_pos _ x.coord (res.2 - share) hstep.live.sound.loot_pos
      (fun li' hli' => by
        rw [show li' = li by simpa [hli] using hli'.symm]
        omega)
      (fun hnone => absurd hnone (by simp [hli]))
    refine ⟨hphase.trans (hstep.trans ⟨⟨⟨by simpa using hstep.live.sound.players, hadd,
        by simpa using hstep.live.sound.fund_nonneg⟩, by simpa using hstep.live.alive⟩,
        by rw [players_AddLoot]; exact CharsKept.refl _, crownHolder_AddLoot .., crownPos_AddLoot ..,
        fun hg => hg.of_eq (hearts_AddLoot ..) (nHeight_AddLoot ..) (param_AddLoot ..),
        nHeight_AddLoot .., param_AddLoot ..⟩), hcounts', fun y hy' => ?_, hcoll'⟩
    by_cases hy : y.coord = x.coord
    · -- another collector to come on this tile: the share was less than the loot
      have hmore : 2 ≤ counts.getD x.coord 0 := by
        have : 0 < rest.countP (fun z => z.coord == x.coord) :=
          List.countP_pos_iff.mpr ⟨y, hy', by simp [hy]⟩
        omega
      have hlt : share < li.nAmount := hshr ▸ share_lt hpos hmore
      obtain ⟨li', hli', hamount⟩ := GameState.find?_AddLoot_self
        { s' with players := s'.players.insert x.pid { pl with characters := pl.characters.insert x.cid res.1 } }
        x.coord (res.2 - share) hli (by omega)
      rw [hy]
      exact ⟨li', hli', by omega⟩
    · rw [GameState.find?_AddLoot_of_ne _ _ _ hy]
      exact hloot y (List.mem_cons_of_mem x hy')
  · exact ⟨hphase, hcounts', fun y hy => hloot y (List.mem_cons_of_mem x hy), hcoll'⟩

/-- `DivideLootAmongPlayers` keeps the invariant, and leaves no empty tile. -/
theorem DivideLootAmongPlayers_late {cap : Nat} {s : GameState} (h : s.Live cap) (hh : 0 ≤ s.nHeight) :
    s.LatePhase cap s.DivideLootAmongPlayers := by
  unfold DivideLootAmongPlayers
  dsimp only
  have hperm := List.mergeSort_perm s.lootCollectors (fun a b => !CharacterOnLootTile.lt b a)
  refine (List.foldl_suffix_invariant (DivisionInv cap s) collectShare
    (fun acc x rest hinv => collectShare_inv hh acc x rest hinv) _ _ ⟨LatePhase.refl h, fun c => ?_,
      fun x hx => ?_, fun x hx => hperm.mem_iff.mp hx⟩).phase
  · rw [getD_countCollectors, hperm.countP_eq]
    simp [OrdMap.getD]
  · -- every collector stands on a tile with loot
    obtain ⟨-, -, -, -, hc⟩ := mem_lootCollectors (hperm.mem_iff.mp hx)
    obtain ⟨li, hli⟩ := Option.isSome_iff_exists.mp hc
    exact ⟨li, hli, h.sound.loot_pos _ li hli⟩

end GameState

end Huntercore
