import Mathlib
import Huntercore.Lib.Control
import Huntercore.Game.Step

/-!
# Simultaneity of moves

`state.h` says of `PerformStep` that the moves of a block take effect simultaneously, so
that their order in the block does not matter. `PerformStep` reads the moves in five
loops, and each is independent of their order for its own reason:

1. fees, waypoints and messages touch only the move's own player, so the steps of two
   moves of different players commute (`payFee_comm`, `Move.ApplyWaypoints_comm`,
   `Move.ApplyCommon_comm`);
2. attacks only add attackers to sets, on a tile map that is built once, from the state
   before any attack (`CharactersOnTiles.ApplyAttacks_perm`);
3. spawns draw from the random generator, so their order does matter: the spawn loop
   reads nothing but the spawns, and a reordering that keeps them in order leaves it as it
   is.

Every other phase of the step reads the state only.
-/

namespace Huntercore

variable (w : World)

/-! ## The loops over the moves -/

section Loops

variable {ms₁ ms₂ : List Move}

theorem payFees_perm (s : GameState) (hperm : ms₁.Perm ms₂)
    (hplayers : (ms₁.map (·.player)).Nodup) : payFees s ms₁ = payFees s ms₂ :=
  hperm.foldl_eq_of_nodup_keys hplayers (fun a b h acc => payFee_comm acc a b h) _

theorem applyWaypoints_perm (s : GameState) (hperm : ms₁.Perm ms₂)
    (hplayers : (ms₁.map (·.player)).Nodup) :
    ms₁.foldl (fun s m => if !m.IsSpawn then m.ApplyWaypoints s else s) s =
      ms₂.foldl (fun s m => if !m.IsSpawn then m.ApplyWaypoints s else s) s := by
  apply hperm.foldl_eq_of_nodup_keys hplayers
  intro a b hab s
  -- spawns are skipped: only two moves of living players have something to commute
  cases a.IsSpawn <;> cases b.IsSpawn <;> simp [Move.ApplyWaypoints_comm _ _ _ hab]

theorem applyCommon_perm (s : GameState) (hperm : ms₁.Perm ms₂)
    (hplayers : (ms₁.map (·.player)).Nodup) :
    ms₁.foldl (fun s m => m.ApplyCommon s) s = ms₂.foldl (fun s m => m.ApplyCommon s) s :=
  hperm.foldl_eq_of_nodup_keys hplayers (fun a b h s => (Move.ApplyCommon_comm b a s (Ne.symm h))) _

/-- The spawn loop sees the spawns only, in their order. -/
theorem applySpawns_eq (acc : GameState × RandomGenerator)
    (hspawns : ms₁.filter (·.IsSpawn) = ms₂.filter (·.IsSpawn)) :
    ms₁.foldl (fun (acc : GameState × RandomGenerator) m =>
        if m.IsSpawn then m.ApplySpawn w acc.1 acc.2 else acc) acc =
      ms₂.foldl (fun (acc : GameState × RandomGenerator) m =>
        if m.IsSpawn then m.ApplySpawn w acc.1 acc.2 else acc) acc := by
  rw [← List.foldl_filter, ← List.foldl_filter, hspawns]

end Loops

/-! ## The step -/

section Step

variable {ms₁ ms₂ : List Move}

theorem PerformStepBeforeRandom_perm (s : GameState) (d : StepData) (hperm : ms₁.Perm ms₂)
    (hplayers : (ms₁.map (·.player)).Nodup) :
    PerformStepBeforeRandom w s { d with vMoves := ms₁ } =
      PerformStepBeforeRandom w s { d with vMoves := ms₂ } := by
  simp only [PerformStepBeforeRandom, payFees_perm _ hperm hplayers,
    CharactersOnTiles.ApplyAttacks_perm _ _ hperm, applyWaypoints_perm _ hperm hplayers]

theorem PerformStepRandom_perm (fuel : Nat) (s : GameState) (d : StepData) (p : StepProgress)
    (hperm : ms₁.Perm ms₂) (hplayers : (ms₁.map (·.player)).Nodup)
    (hspawns : ms₁.filter (·.IsSpawn) = ms₂.filter (·.IsSpawn)) :
    PerformStepRandom w fuel s { d with vMoves := ms₁ } p =
      PerformStepRandom w fuel s { d with vMoves := ms₂ } p := by
  simp only [PerformStepRandom, applySpawns_eq w _ hspawns, applyCommon_perm _ hperm hplayers]

theorem PerformStep_perm (fuel : Nat) (s : GameState) (d : StepData) (ms₁ ms₂ : List Move)
    (hperm : ms₁.Perm ms₂) (hplayers : (ms₁.map (·.player)).Nodup)
    (hspawns : ms₁.filter (·.IsSpawn) = ms₂.filter (·.IsSpawn)) :
    PerformStep w fuel s { d with vMoves := ms₁ } = PerformStep w fuel s { d with vMoves := ms₂ } := by
  simp only [PerformStep, hperm.all_eq, PerformStepBeforeRandom_perm w s d hperm hplayers,
    PerformStepRandom_perm w fuel s d _ hperm hplayers hspawns]

/-- Two players who both send a move, in either order. -/
theorem PerformStep_perm_twoPlayers :
    PerformStep World.flat 0
        { GameState.init MainNetParams with players := (OrdMap.empty.insert "a" default).insert "b" default }
        { (⟨0, 1, []⟩ : StepData) with vMoves :=
          [⟨"a", 0, some "hi", none, none, 0xFF, .empty, .empty⟩, ⟨"b", 0, none, some "addr", none, 0xFF, .empty, .empty⟩] } =
      PerformStep World.flat 0
        { GameState.init MainNetParams with players := (OrdMap.empty.insert "a" default).insert "b" default }
        { (⟨0, 1, []⟩ : StepData) with vMoves :=
          [⟨"b", 0, none, some "addr", none, 0xFF, .empty, .empty⟩, ⟨"a", 0, some "hi", none, none, 0xFF, .empty, .empty⟩] } :=
  PerformStep_perm World.flat 0 _ _ _ _ (List.Perm.swap _ _ _) (by decide) rfl

end Step

end Huntercore
