import Mathlib
import Huntercore.Lib.ShareOut
import Huntercore.Game.Invariant.Division

/-!
# Loot division is water-filling

The comment above `DivideLootAmongPlayers` (state.cpp) says that sorting the collectors by
increasing remaining capacity and letting each take the loot of its tile divided by the number
of collectors still to come there splits the loot equally, with what a full character leaves
going to the others, and that no iteration is needed. This module proves it.

Seen from one tile, the loop over all collectors is `shareOut` of `Lib.ShareOut` over the
collectors of that tile, in the sorted order (`DivideLootAmongPlayers_shareOut`): the
collectors of other tiles change neither its loot, nor its count, nor its characters. The
sorted order is by remaining capacity first (`CharacterOnLootTile.lt_eq_sortKey`), with an
unlimited capacity last, which is the order of `ℕ∞`; so the water-filling results of
`Lib.ShareOut` apply.
-/

namespace Huntercore

namespace GameState

/-! ## The order of the collectors -/

namespace CharacterOnLootTile

/-- The remaining capacity in `ℕ∞`, with `⊤` for an unlimited one. -/
def remainingCap (x : CharacterOnLootTile) : ℕ∞ :=
  if x.GetRemainingCapacity = -1 then ⊤ else (x.GetRemainingCapacity.toNat : ℕ∞)

theorem GetRemainingCapacity_of_ne {x : CharacterOnLootTile} (h : x.carryCap ≠ -1) :
    x.GetRemainingCapacity = max (x.carryCap - x.carried) 0 := by
  unfold GetRemainingCapacity
  rw [if_neg h]
  split <;> omega

theorem GetRemainingCapacity_eq_neg_one_iff (x : CharacterOnLootTile) :
    x.GetRemainingCapacity = -1 ↔ x.carryCap = -1 := by
  by_cases h : x.carryCap = -1
  · simp [GetRemainingCapacity, h]
  · rw [GetRemainingCapacity_of_ne h]
    omega

theorem remainingCap_of_ne {x : CharacterOnLootTile} (h : x.carryCap ≠ -1) :
    x.remainingCap = ((max (x.carryCap - x.carried) 0).toNat : ℕ∞) := by
  rw [remainingCap, if_neg (by rwa [GetRemainingCapacity_eq_neg_one_iff]), GetRemainingCapacity_of_ne h]

/-- `operator<` as a key: remaining capacity with the unlimited last, then player, then
character. -/
def sortKey (x : CharacterOnLootTile) : ℕ∞ ×ₗ (PlayerID ×ₗ Int) :=
  toLex (x.remainingCap, toLex (x.pid, x.cid))

/-- The remaining capacity is `-1` or not negative, and `remainingCap` keeps its order. -/
theorem remainingCap_lt_iff (a b : CharacterOnLootTile) :
    a.remainingCap < b.remainingCap ↔
      a.GetRemainingCapacity ≠ -1 ∧ (b.GetRemainingCapacity = -1 ∨ a.GetRemainingCapacity < b.GetRemainingCapacity) := by
  have hnn : ∀ x : CharacterOnLootTile, x.GetRemainingCapacity ≠ -1 → 0 ≤ x.GetRemainingCapacity := by
    intro x hx
    rw [Ne, GetRemainingCapacity_eq_neg_one_iff] at hx
    rw [GetRemainingCapacity_of_ne hx]
    omega
  unfold remainingCap
  by_cases ha : a.GetRemainingCapacity = -1 <;> by_cases hb : b.GetRemainingCapacity = -1
  · simp [ha, hb]
  · simp [ha, hb]
  · simp [ha, hb]
  · have := hnn a ha
    have := hnn b hb
    simp only [ha, hb, ↓reduceIte, Nat.cast_lt, ne_eq, not_false_eq_true, false_or, true_and]
    omega

theorem remainingCap_eq_iff (a b : CharacterOnLootTile) :
    a.remainingCap = b.remainingCap ↔ a.GetRemainingCapacity = b.GetRemainingCapacity := by
  rw [← not_iff_not, ← ne_eq, ← lt_or_lt_iff_ne, remainingCap_lt_iff, remainingCap_lt_iff]
  omega

/-- `operator<` compares the keys. -/
theorem lt_eq_sortKey (a b : CharacterOnLootTile) : a.lt b = decide (a.sortKey < b.sortKey) := by
  rw [Bool.eq_iff_iff, decide_eq_true_iff, sortKey, sortKey, Prod.Lex.toLex_lt_toLex,
    Prod.Lex.toLex_lt_toLex, remainingCap_eq_iff, remainingCap_lt_iff]
  unfold lt
  dsimp only
  by_cases heq : a.GetRemainingCapacity = b.GetRemainingCapacity
  · by_cases hp : a.pid = b.pid <;> simp [heq, hp]
  · by_cases ha : a.GetRemainingCapacity = -1
    · have hb : b.GetRemainingCapacity ≠ -1 := fun hb => heq (ha.trans hb.symm)
      rw [ha] at heq
      simp [heq, ha, hb]
    · by_cases hb : b.GetRemainingCapacity = -1 <;> simp [heq, ha, hb]

/-- The collectors in the order `DivideLootAmongPlayers` lets them collect. -/
theorem pairwise_mergeSort (l : List CharacterOnLootTile) :
    (l.mergeSort fun a b => !lt b a).Pairwise fun a b => a.sortKey ≤ b.sortKey := by
  have hle : ∀ a b : CharacterOnLootTile, (!lt b a) = true ↔ a.sortKey ≤ b.sortKey := by
    intro a b
    rw [lt_eq_sortKey, Bool.not_eq_true', decide_eq_false_iff_not, not_lt]
  refine (List.pairwise_mergeSort (fun a b c hab hbc => ?_) (fun a b => ?_) l).imp fun h => (hle _ _).mp h
  · exact (hle a c).mpr (((hle a b).mp hab).trans ((hle b c).mp hbc))
  · rw [Bool.or_eq_true, hle, hle]
    exact le_total _ _

theorem remainingCap_le_of_sortKey_le {a b : CharacterOnLootTile} (h : a.sortKey ≤ b.sortKey) :
    a.remainingCap ≤ b.remainingCap := by
  rw [sortKey, sortKey, Prod.Lex.toLex_le_toLex] at h
  rcases h with h | h
  · exact h.le
  · exact h.1.le

end CharacterOnLootTile

end GameState

/-! ## Collecting a share -/

theorem CollectedLootInfo.nAmount_Collect (c : CollectedLootInfo) (loot : LootInfo) (nHeight : Int) :
    (c.Collect loot nHeight).nAmount = if loot.nAmount ≤ 0 then c.nAmount else c.nAmount + loot.nAmount := by
  unfold CollectedLootInfo.Collect
  split <;> rfl

/-- `CollectLoot` adds to the character what it does not give back. -/
theorem CharacterState.CollectLoot_nAmount (ch : CharacterState) (newLoot : LootInfo) (nHeight carryCap : Int)
    (h : 0 ≤ newLoot.nAmount) :
    (ch.CollectLoot newLoot nHeight carryCap).1.loot.nAmount =
      ch.loot.nAmount + (newLoot.nAmount - (ch.CollectLoot newLoot nHeight carryCap).2) := by
  unfold CharacterState.CollectLoot
  dsimp only
  rw [CollectedLootInfo.nAmount_Collect]
  simp only [Bool.or_eq_true, decide_eq_true_eq]
  split_ifs <;> (try dsimp only at *) <;> omega

/-- What a collector takes of a share is `takeShare` of its remaining capacity. -/
theorem CharacterState.CollectLoot_take (ch : CharacterState) (li : LootInfo) (nHeight : Int)
    (x : GameState.CharacterOnLootTile) (share : ℕ) (hc : ch.loot.nAmount = x.carried) :
    (share : Int) - (ch.CollectLoot { li with nAmount := share } nHeight x.carryCap).2 =
      takeShare share x.remainingCap := by
  unfold CharacterState.CollectLoot
  dsimp only
  by_cases hcap : x.carryCap = -1
  · have hall : takeShare share x.remainingCap = share := by
      refine takeShare_of_le ?_
      rw [GameState.CharacterOnLootTile.remainingCap,
        if_pos ((GameState.CharacterOnLootTile.GetRemainingCapacity_eq_neg_one_iff x).mpr hcap)]
      exact le_top
    simp [hcap, hall]
  · rw [GameState.CharacterOnLootTile.remainingCap_of_ne hcap, hc]
    unfold takeShare
    simp only [hcap, decide_false, Bool.false_or, decide_eq_true_eq, Nat.cast_le, ENat.toNat_natCast]
    split_ifs <;> omega


namespace GameState

/-! ## What a tile holds and what a character carries -/

/-- The loot on a tile; `0` where there is none. -/
def lootAt (s : GameState) (c : Coord) : Int := (s.loot.getD c default).nAmount

/-- What the character of a collector carries. -/
def carriedBy (s : GameState) (x : CharacterOnLootTile) : Int :=
  ((s.players.getD x.pid default).characters.getD x.cid default).loot.nAmount

theorem lootAt_of_find? {s : GameState} {c : Coord} {li : LootInfo} (h : s.loot.find? c = some li) :
    s.lootAt c = li.nAmount := by
  simp [lootAt, OrdMap.getD, h]

theorem lootAt_of_find?_eq_none {s : GameState} {c : Coord} (h : s.loot.find? c = none) :
    s.lootAt c = 0 := by
  simp [lootAt, OrdMap.getD, h]
  rfl

/-- `AddLoot` changes the loot of its own tile by the amount, also where the tile goes or
appears. -/
theorem lootAt_AddLoot (s : GameState) (c : Coord) (a : Int) (c' : Coord) :
    (s.AddLoot c a).lootAt c' = if c' = c then s.lootAt c' + a else s.lootAt c' := by
  split
  · next h =>
    subst h
    unfold AddLoot
    split
    · next ha => rw [ha, Int.add_zero]
    · cases hli : s.loot.find? c' with
      | some li =>
        simp only [lootAt_of_find? hli]
        split
        · next hz => rw [hz, lootAt_of_find?_eq_none (OrdMap.find?_erase_self _ _)]
        · simp [lootAt, OrdMap.getD]
      | none =>
        rw [lootAt_of_find?_eq_none hli, Int.zero_add]
        simp [lootAt, OrdMap.getD, LootInfo.ofAmount]
  · next h => simp only [lootAt, OrdMap.getD, find?_AddLoot_of_ne _ _ _ h]

@[simp] theorem carriedBy_AddLoot (s : GameState) (c : Coord) (a : Int) (x : CharacterOnLootTile) :
    (s.AddLoot c a).carriedBy x = s.carriedBy x := by
  simp [carriedBy]

/-- Writing back the character of a collector `x`, in its player's record. -/
theorem carriedBy_setCharacter (s : GameState) (x y : CharacterOnLootTile) (ch : CharacterState) :
    ({ s with
        players := s.players.insert x.pid { s.players.getD x.pid default with
          characters := (s.players.getD x.pid default).characters.insert x.cid ch } } : GameState).carriedBy y =
      if (y.pid, y.cid) = (x.pid, x.cid) then ch.loot.nAmount else s.carriedBy y := by
  unfold carriedBy
  by_cases hp : y.pid = x.pid
  · -- the player written back: the other characters keep theirs
    simp only [hp, OrdMap.getD_insert_self]
    by_cases hc : y.cid = x.cid
    · simp [hc]
    · simp [OrdMap.getD_insert_of_ne _ _ _ (Ne.symm hc), hc]
  · simp [OrdMap.getD_insert_of_ne _ _ _ (Ne.symm hp), hp]

/-! ## One collector's turn -/

@[simp] theorem nAmount_default : (default : LootInfo).nAmount = 0 := rfl

/-- `loot[coord]` on a tile that has gone inserts an empty one, which holds nothing. -/
theorem lootAt_insert_default {s : GameState} {c : Coord} (h : s.loot.find? c = none) (c' : Coord) :
    ({ s with loot := s.loot.insert c default } : GameState).lootAt c' = s.lootAt c' := by
  by_cases hc : c' = c
  · subst hc
    rw [lootAt_of_find?_eq_none h, lootAt, OrdMap.getD_insert_self]
    rfl
  · rw [lootAt, lootAt, OrdMap.getD_insert_of_ne _ _ _ (Ne.symm hc)]

/-- One collector's turn counts one collector less on its tile, and leaves the other tiles and
the other characters alone. -/
theorem collectShare_frame (acc : GameState × OrdMap Coord Int) (x : CharacterOnLootTile) :
    (collectShare acc x).2 = acc.2.insert x.coord (acc.2.getD x.coord 0 - 1) ∧
      (∀ c, c ≠ x.coord → (collectShare acc x).1.lootAt c = acc.1.lootAt c) ∧
      ∀ y : CharacterOnLootTile, (y.pid, y.cid) ≠ (x.pid, x.cid) →
        (collectShare acc x).1.carriedBy y = acc.1.carriedBy y := by
  obtain ⟨s, counts⟩ := acc
  unfold collectShare
  dsimp only
  cases hli : s.loot.find? x.coord with
  | some li =>
    dsimp only
    split
    · refine ⟨rfl, fun c hc => ?_, fun y hy => ?_⟩
      · rw [lootAt_AddLoot, if_neg hc]
        rfl
      · rw [carriedBy_AddLoot, carriedBy_setCharacter, if_neg hy]
    · exact ⟨rfl, fun _ _ => rfl, fun _ _ => rfl⟩
  | none =>
    -- the empty tile `loot[coord]` inserted holds nothing, so the share is nothing
    dsimp only
    split
    · next hpos => exact absurd hpos (by simp)
    · exact ⟨rfl, fun c _ => lootAt_insert_default hli c, fun _ _ => rfl⟩

/-- One collector's turn, seen from its own tile: with `a` on the tile and `n + 1` collectors
still to come there, its character takes `takeShare (a / (n + 1))` of its remaining capacity,
and the tile loses that much. -/
theorem collectShare_self (acc : GameState × OrdMap Coord Int) (x : CharacterOnLootTile) {a n : ℕ}
    (ha : acc.1.lootAt x.coord = a) (hn : acc.2.getD x.coord 0 = n + 1) (hc : acc.1.carriedBy x = x.carried) :
    (collectShare acc x).1.lootAt x.coord = a - takeShare (a / (n + 1)) x.remainingCap ∧
      (collectShare acc x).1.carriedBy x = x.carried + takeShare (a / (n + 1)) x.remainingCap := by
  obtain ⟨s, counts⟩ := acc
  dsimp only at ha hn hc
  unfold collectShare
  dsimp only
  rw [hn]
  cases hli : s.loot.find? x.coord with
  | some li =>
    rw [lootAt_of_find? hli] at ha
    have hshare : li.nAmount.tdiv ((n : Int) + 1) = ((a / (n + 1) : ℕ) : Int) := by
      rw [ha, Int.ofNat_tdiv]
      rfl
    dsimp only
    rw [hshare]
    split
    · -- the character takes what fits of its share, and gives the rest back to the tile
      have htake := CharacterState.CollectLoot_take ((s.players.getD x.pid default).characters.getD x.cid default)
        li s.nHeight x (a / (n + 1)) hc
      have hamount := CharacterState.CollectLoot_nAmount
        ((s.players.getD x.pid default).characters.getD x.cid default)
        { li with nAmount := ((a / (n + 1) : ℕ) : Int) } s.nHeight x.carryCap (Int.natCast_nonneg _)
      have hloot : s.lootAt x.coord = a := by rw [lootAt_of_find? hli, ha]
      rw [lootAt_AddLoot, if_pos rfl, carriedBy_AddLoot, carriedBy_setCharacter, if_pos rfl]
      dsimp only at hamount htake ⊢
      constructor
      · change s.lootAt x.coord + _ = _
        omega
      · unfold carriedBy at hc
        omega
    · -- a share of nothing: nothing changes
      next hpos =>
      have hzero : a / (n + 1) = 0 := Nat.eq_zero_of_not_pos fun h => hpos (Int.natCast_pos.mpr h)
      have htake : takeShare (a / (n + 1)) x.remainingCap = 0 := by
        rw [hzero]
        exact Nat.le_zero.mp (takeShare_le 0 _)
      rw [htake, Nat.cast_zero, Int.sub_zero, Int.add_zero, lootAt_of_find? hli, ha]
      exact ⟨rfl, hc⟩
  | none =>
    rw [lootAt_of_find?_eq_none hli] at ha
    have ha0 : a = 0 := by omega
    subst ha0
    have htake : takeShare (0 / (n + 1)) x.remainingCap = 0 := by
      rw [Nat.zero_div]
      exact Nat.le_zero.mp (takeShare_le 0 _)
    dsimp only
    split
    · next hpos => exact absurd hpos (by simp)
    · rw [htake, lootAt_insert_default hli, lootAt_of_find?_eq_none hli, Nat.cast_zero, Int.add_zero]
      exact ⟨rfl, hc⟩

/-! ## The loop, seen from one tile -/

/-- The turns of other characters leave a character's load alone. -/
theorem carriedBy_foldl_collectShare (y : CharacterOnLootTile) :
    ∀ (l : List CharacterOnLootTile) (acc : GameState × OrdMap Coord Int),
      (∀ x ∈ l, (x.pid, x.cid) ≠ (y.pid, y.cid)) →
        (l.foldl collectShare acc).1.carriedBy y = acc.1.carriedBy y
  | [], _, _ => rfl
  | x :: l, acc, h => by
    rw [List.foldl_cons, carriedBy_foldl_collectShare y l _ fun z hz => h z (List.mem_cons_of_mem x hz)]
    exact (collectShare_frame acc x).2.2 y (Ne.symm (h x List.mem_cons_self))

/-- The loop over distinct collectors, from a state whose tile `t` holds `a`, counts its
collectors there and has their loads as recorded, is `shareOut` over the collectors of `t`:
the tile loses what they take, and each collector's character gains what it took. -/
theorem foldl_collectShare_tile (t : Coord) :
    ∀ (l : List CharacterOnLootTile) (acc : GameState × OrdMap Coord Int) (a : ℕ),
      (l.map fun x => (x.pid, x.cid)).Nodup → acc.1.lootAt t = a →
      acc.2.getD t 0 = ((l.filter (·.coord == t)).length : Int) →
      (∀ x ∈ l.filter (·.coord == t), acc.1.carriedBy x = x.carried) →
      (l.foldl collectShare acc).1.lootAt t =
          a - (((shareOut CharacterOnLootTile.remainingCap a (l.filter (·.coord == t))).map Prod.snd).sum : Int) ∧
        ∀ p ∈ shareOut CharacterOnLootTile.remainingCap a (l.filter (·.coord == t)),
          (l.foldl collectShare acc).1.carriedBy p.1 = p.1.carried + p.2
  | [], acc, a, _, ha, _, _ => by simpa using ha
  | x :: l, acc, a, hnd, ha, hn, hc => by
    rw [List.map_cons, List.nodup_cons] at hnd
    have hne : ∀ y ∈ l, (y.pid, y.cid) ≠ (x.pid, x.cid) := fun y hy heq =>
      hnd.1 (List.mem_map.mpr ⟨y, hy, heq⟩)
    obtain ⟨hcounts, hloot, hcarried⟩ := collectShare_frame acc x
    rw [List.foldl_cons]
    by_cases hx : x.coord = t
    · -- a collector of `t`: it takes the first share
      subst hx
      rw [List.filter_cons_of_pos (by simp)] at hn hc ⊢
      rw [List.length_cons, Nat.cast_succ] at hn
      obtain ⟨hloot', hcarried'⟩ := collectShare_self acc x ha hn (hc x List.mem_cons_self)
      have hta := takeShare_le_left CharacterOnLootTile.remainingCap a x (l.filter (·.coord == x.coord))
      rw [shareOut_cons]
      generalize takeShare (a / ((l.filter (·.coord == x.coord)).length + 1)) x.remainingCap = τ at hloot' hcarried' hta
      obtain ⟨ihloot, ihcarried⟩ := foldl_collectShare_tile x.coord l (collectShare acc x) (a - τ) hnd.2
        (by rw [hloot', Nat.cast_sub hta])
        (by rw [hcounts, OrdMap.getD_insert_self, hn]; omega)
        (fun y hy => by
          rw [hcarried y (hne y (List.mem_filter.mp hy).1)]
          exact hc y (List.mem_cons_of_mem x hy))
      refine ⟨?_, fun p hp => ?_⟩
      · rw [ihloot, List.map_cons, List.sum_cons, Nat.cast_add, Nat.cast_sub hta]
        omega
      · rcases List.mem_cons.mp hp with rfl | hp
        · rw [carriedBy_foldl_collectShare _ l _ hne, hcarried']
        · exact ihcarried p hp
    · -- a collector of another tile: `t` sees nothing of its turn
      have hxt : (x.coord == t) = false := by simpa using hx
      rw [List.filter_cons_of_neg (by simp [hxt])] at hn hc ⊢
      exact foldl_collectShare_tile t l (collectShare acc x) a hnd.2
        (by rw [hloot t (Ne.symm hx)]; exact ha)
        (by rw [hcounts, OrdMap.getD_insert_of_ne _ _ _ hx]; exact hn)
        (fun y hy => by
          rw [hcarried y (hne y (List.mem_filter.mp hy).1)]
          exact hc y hy)


/-! ## The collectors -/

/-- No character collects twice: players are distinct, and so are the characters of one player. -/
theorem nodup_lootCollectors (s : GameState) : (s.lootCollectors.map fun x => (x.pid, x.cid)).Nodup := by
  unfold lootCollectors
  rw [List.map_flatMap]
  refine List.nodup_flatMap.mpr ⟨fun p _ => ?_, ?_⟩
  · -- one player's characters have distinct indices
    rw [List.map_map]
    have hidx : ((p.2.characters.entries.filter fun pc =>
        !s.IsGhosted pc.2.coord && s.loot.contains pc.2.coord).map Prod.fst).Nodup :=
      (OrdMap.nodup_keys _).sublist (List.filter_sublist.map _)
    have := hidx.map (Prod.mk_right_injective p.1)
    rwa [List.map_map] at this
  · -- different players' collectors differ in their player
    refine (List.pairwise_map.mp (OrdMap.nodup_keys s.players)).imp fun hne => ?_
    intro z hz hz'
    simp only [List.map_map, List.mem_map, Function.comp_apply] at hz hz'
    obtain ⟨_, -, rfl⟩ := hz
    obtain ⟨_, -, heq⟩ := hz'
    exact hne (congrArg Prod.fst heq).symm

/-- A collector's recorded load is what its character carries. -/
theorem carriedBy_of_mem_lootCollectors {s : GameState} {x : CharacterOnLootTile} (hx : x ∈ s.lootCollectors) :
    s.carriedBy x = x.carried := by
  unfold lootCollectors at hx
  simp only [List.mem_flatMap, List.mem_map, List.mem_filter] at hx
  obtain ⟨p, hp, pc, ⟨hpc, -⟩, rfl⟩ := hx
  simp [carriedBy, OrdMap.getD, (OrdMap.mem_entries_iff _ _ _).mp hp, (OrdMap.mem_entries_iff _ _ _).mp hpc]

/-! ## The division, seen from one tile -/

/-- `DivideLootAmongPlayers` on a tile with loot `A` is `shareOut` of `A` among the
collectors of that tile, in the sorted order. -/
theorem DivideLootAmongPlayers_shareOut (s : GameState) (t : Coord) (hA : 0 ≤ s.lootAt t) :
    s.DivideLootAmongPlayers.lootAt t = s.lootAt t -
        (((shareOut CharacterOnLootTile.remainingCap (s.lootAt t).toNat
          ((s.lootCollectors.mergeSort fun a b => !CharacterOnLootTile.lt b a).filter (·.coord == t))).map
            Prod.snd).sum : Int) ∧
      ∀ p ∈ shareOut CharacterOnLootTile.remainingCap (s.lootAt t).toNat
          ((s.lootCollectors.mergeSort fun a b => !CharacterOnLootTile.lt b a).filter (·.coord == t)),
        s.DivideLootAmongPlayers.carriedBy p.1 = p.1.carried + p.2 := by
  have hperm := List.mergeSort_perm s.lootCollectors fun a b => !CharacterOnLootTile.lt b a
  have hA' : ((s.lootAt t).toNat : Int) = s.lootAt t := Int.toNat_of_nonneg hA
  unfold DivideLootAmongPlayers
  dsimp only
  rw [← hA']
  refine foldl_collectShare_tile t _ _ _ ((hperm.map _).nodup_iff.mpr (nodup_lootCollectors s)) hA'.symm ?_ ?_
  · -- the counting loop counts the collectors of each tile
    rw [getD_countCollectors, ← hperm.countP_eq, List.countP_eq_length_filter]
    simp [OrdMap.getD]
  · intro x hx
    exact carriedBy_of_mem_lootCollectors (hperm.mem_iff.mp (List.mem_filter.mp hx).1)


/-! ## Water-filling -/

/-- `DivideLootAmongPlayers` shares the loot `A` of a tile among the collectors standing on
it. The tile loses exactly what they gain, and that is `min A (Σ remaining capacities)`; no
collector gains more than its remaining capacity, so none is brought over its carrying
capacity; and a collector that does not fill up gains at most one coin more or less than any
other collector of the tile that does not fill up. -/
theorem DivideLootAmongPlayers_waterFilling (s : GameState) (t : Coord) (hA : 0 ≤ s.lootAt t) :
    let s' := s.DivideLootAmongPlayers
    let xs := s.lootCollectors.filter (·.coord == t)
    let got := fun x : CharacterOnLootTile => s'.carriedBy x - x.carried
    (xs.map got).sum = s.lootAt t - s'.lootAt t ∧
      ((s.lootAt t - s'.lootAt t).toNat : ℕ∞) = min ((s.lootAt t).toNat : ℕ∞) (xs.map (·.remainingCap)).sum ∧
      ∀ x ∈ xs, 0 ≤ got x ∧ ((got x).toNat : ℕ∞) ≤ x.remainingCap ∧
        (x.carryCap ≠ -1 → s'.carriedBy x ≤ max x.carried x.carryCap) ∧
        (((got x).toNat : ℕ∞) = x.remainingCap ∨
          ∀ y ∈ xs, ((got y).toNat : ℕ∞) < y.remainingCap → |got x - got y| ≤ 1) := by
  intro s' xs got
  obtain ⟨hloot, hcarried⟩ := DivideLootAmongPlayers_shareOut s t hA
  -- the collectors of `t` in the order they take their shares: by remaining capacity
  have hperm : ((s.lootCollectors.mergeSort fun a b => !CharacterOnLootTile.lt b a).filter
      (·.coord == t)).Perm xs := (List.mergeSort_perm _ _).filter _
  have hsorted : ((s.lootCollectors.mergeSort fun a b => !CharacterOnLootTile.lt b a).filter
      (·.coord == t)).Pairwise fun x y => x.remainingCap ≤ y.remainingCap :=
    ((CharacterOnLootTile.pairwise_mergeSort _).filter _).imp CharacterOnLootTile.remainingCap_le_of_sortKey_le
  generalize (s.lootCollectors.mergeSort fun a b => !CharacterOnLootTile.lt b a).filter (·.coord == t) = l
    at hloot hcarried hperm hsorted
  generalize hP : shareOut CharacterOnLootTile.remainingCap (s.lootAt t).toNat l = P at hloot hcarried
  have hl : l = P.map Prod.fst := by rw [← hP, map_fst_shareOut]
  -- each collector gained what it took
  have hgot : ∀ p ∈ P, got p.1 = p.2 := fun p hp => by
    change s'.carriedBy p.1 - p.1.carried = p.2
    rw [hcarried p hp]
    omega
  have htaker : ∀ x ∈ xs, ∃ p ∈ P, p.1 = x := fun x hx =>
    List.mem_map.mp (hl ▸ hperm.mem_iff.mpr hx)
  have hremoved : s.lootAt t - s'.lootAt t = ((P.map Prod.snd).sum : Int) := by
    rw [hloot]
    omega
  refine ⟨?_, ?_, fun x hx => ?_⟩
  · -- the tile loses what the collectors gain
    rw [hremoved, ← (hperm.map got).sum_eq, hl, List.map_map, Nat.cast_list_sum, List.map_map]
    exact congrArg List.sum (List.map_congr_left fun p hp => hgot p hp)
  · -- they take `min A (Σ capacities)` together
    rw [hremoved, Int.toNat_natCast, ← hP, sum_shareOut _ _ _ hsorted]
    exact congrArg _ (hperm.map _).sum_eq
  · obtain ⟨p, hp, rfl⟩ := htaker x hx
    have hcap := le_cap_of_mem_shareOut _ _ _ p (hP ▸ hp)
    rw [hgot p hp, Int.toNat_natCast]
    refine ⟨Int.natCast_nonneg _, hcap, fun hlim => ?_, ?_⟩
    · -- a character with a carrying capacity gains at most what it has room for
      rw [CharacterOnLootTile.remainingCap_of_ne hlim, Nat.cast_le] at hcap
      rw [hcarried p hp]
      omega
    · -- one that stays below its capacity took the even share, as did every other such one
      by_cases hfull : (p.2 : ℕ∞) = p.1.remainingCap
      · exact Or.inl hfull
      refine Or.inr fun y hy hlt => ?_
      obtain ⟨q, hq, rfl⟩ := htaker y hy
      rw [hgot q hq] at hlt ⊢
      rw [Int.toNat_natCast] at hlt
      have hlt' : (p.2 : ℕ∞) < p.1.remainingCap := lt_of_le_of_ne hcap hfull
      have h₁ := shareOut_fair _ _ _ hsorted p (hP ▸ hp) q (hP ▸ hq) hlt' hlt
      have h₂ := shareOut_fair _ _ _ hsorted q (hP ▸ hq) p (hP ▸ hp) hlt hlt'
      rw [abs_sub_le_iff]
      omega

/-- A character on a tile `(100, 100)` of the main network between the carrying-capacity and the
less-hearts forks, carrying the given loot. -/
def carrierAt (carried : Int) : CharacterState :=
  ⟨⟨100, 100⟩, 0, ⟨100, 100⟩, [], { (default : CollectedLootInfo) with nAmount := carried }, 0⟩

/-- Sixty coins on a tile with three collectors: one general who has room for five more coins, and
a player's general and second character who carry nothing, with room for fifty and twenty-five. -/
theorem DivideLootAmongPlayers_waterFilling_threeCollectors :
    let s : GameState := { GameState.init MainNetParams with
      nHeight := 500000
      players := (OrdMap.empty.insert "a"
          { (default : PlayerState) with characters := OrdMap.empty.insert 0 (carrierAt (45 * COIN)) }).insert "b"
        { (default : PlayerState) with
          characters := (OrdMap.empty.insert 0 (carrierAt 0)).insert 1 (carrierAt 0) }
      loot := OrdMap.empty.insert ⟨100, 100⟩ (LootInfo.ofAmount (60 * COIN) 499990) }
    let t : Coord := ⟨100, 100⟩
    0 ≤ s.lootAt t ∧
      (s.lootCollectors.filter (·.coord == t)).map (·.GetRemainingCapacity) = [5 * COIN, 50 * COIN, 25 * COIN] ∧
      let s' := s.DivideLootAmongPlayers
      let xs := s.lootCollectors.filter (·.coord == t)
      let got := fun x : CharacterOnLootTile => s'.carriedBy x - x.carried
      (xs.map got).sum = s.lootAt t - s'.lootAt t ∧
        ((s.lootAt t - s'.lootAt t).toNat : ℕ∞) = min ((s.lootAt t).toNat : ℕ∞) (xs.map (·.remainingCap)).sum ∧
        ∀ x ∈ xs, 0 ≤ got x ∧ ((got x).toNat : ℕ∞) ≤ x.remainingCap ∧
          (x.carryCap ≠ -1 → s'.carriedBy x ≤ max x.carried x.carryCap) ∧
          (((got x).toNat : ℕ∞) = x.remainingCap ∨
            ∀ y ∈ xs, ((got y).toNat : ℕ∞) < y.remainingCap → |got x - got y| ≤ 1) :=
  ⟨by decide, by decide, DivideLootAmongPlayers_waterFilling _ _ (by decide)⟩

end GameState

end Huntercore
