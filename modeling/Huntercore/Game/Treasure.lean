import Mathlib
import Huntercore.Game.MinerTax

/-!
# The split of the treasure

A block's treasure is nine times its subsidy, and the subsidy is `COIN` halved once every
`nSubsidyHalvingInterval` blocks, for at most 63 halvings. `PerformStep` drops a portion of the
treasure, in 1/900, on each of the eighteen harvest areas, keeps 25/900 as the crown bonus,
rounds each part towards zero, and asserts that the parts add up to the treasure.

They do while the subsidy has been halved at most six times: `COIN` is `2^8 * 5^8`, so each
part is then a whole number of satoshis. From the seventh halving to the twenty-sixth some parts
are not, the rounding loses coins, and the assertion fails (`treasureExact_iff`); from the
twenty-seventh on the subsidy is zero. A block with a hash at such a height therefore aborts
the node (`PerformStep_treasureMismatch`); on regtest, which halves every 150 blocks, that is
the block at height 1050.
-/

namespace Huntercore

variable (w : World)

/-- The assertion of `PerformStep` on the treasure: the harvest areas and the crown bonus share
out all of it. -/
def TreasureExact (nTreasureAmount : Int) : Prop :=
  totalTreasure nTreasureAmount + (CROWN_BONUS * nTreasureAmount).tdiv TOTAL_HARVEST = nTreasureAmount

instance : DecidablePred TreasureExact := fun T => inferInstanceAs (Decidable (_ = T))

/-- The number of halvings of the subsidy at a height, as `GetBlockSubsidy` counts them. -/
def halvings (nHeight : Int) (p : Params) : Int := nHeight / (p.nSubsidyHalvingInterval : Int)

/-- The treasure after each number of halvings below 64: it splits exactly for fewer than seven
halvings and for 27 or more, where the subsidy is zero. -/
theorem treasureExact_table :
    ∀ k : Fin 64, TreasureExact (COIN / 2 ^ k.val * 9) ↔ (k.val < 7 ∨ 27 ≤ k.val) := by
  decide

/-- The treasure of a block at any height splits exactly iff the subsidy has been halved fewer
than seven times or at least 27 times. -/
theorem treasureExact_iff (nHeight : Int) (p : Params) :
    TreasureExact (GetBlockSubsidy nHeight p * 9) ↔
      (halvings nHeight p < 7 ∨ 27 ≤ halvings nHeight p) := by
  unfold GetBlockSubsidy halvings
  dsimp only
  split
  · -- from 64 halvings on there is no subsidy
    next h64 => exact iff_of_true (by decide) (.inr (by omega))
  · next h64 =>
    have hk : (nHeight / (p.nSubsidyHalvingInterval : Int)).toNat < 64 := by omega
    have htable := treasureExact_table ⟨_, hk⟩
    dsimp only at htable
    rw [htable]
    omega

/-- The random part of a step stops at the assertion when the treasure does not split exactly. -/
theorem PerformStepRandom_treasureMismatch (fuel : Nat) (inState : GameState) (d : StepData)
    (p : StepProgress) (h : ¬TreasureExact d.nTreasureAmount) :
    PerformStepRandom w fuel inState d p = .error .treasureMismatch := by
  unfold PerformStepRandom
  dsimp only
  split
  · rfl
  · next hc => exact absurd (not_not.mp hc) h

/-- A block with a hash, at a height where the subsidy has been halved between seven and 26
times, fails the assertion on the treasure whatever its moves: the node aborts. -/
theorem PerformStep_treasureMismatch (fuel : Nat) (s : GameState) (newHash : Nat) (ms : List Move)
    (hvalid : ms.all (·.IsValid s) = true) (hhash : newHash ≠ 0)
    (hk : 7 ≤ halvings (s.nHeight + 1) s.param ∧ halvings (s.nHeight + 1) s.param ≤ 26) :
    PerformStep w fuel s (StepData.init s newHash ms) = .error .treasureMismatch := by
  have hexact : ¬TreasureExact (StepData.init s newHash ms).nTreasureAmount := by
    show ¬TreasureExact (GetBlockSubsidy (s.nHeight + 1) s.param * 9)
    rw [treasureExact_iff]
    omega
  have hnull : (PerformStepBeforeRandom w s (StepData.init s newHash ms)).state.hashBlock ≠ 0 := by
    rw [PerformStepBeforeRandom_hashBlock]
    exact hhash
  unfold PerformStep
  rw [if_neg (by simpa [StepData.init] using hvalid)]
  dsimp only
  rw [if_neg hnull, PerformStepRandom_treasureMismatch w fuel s _ _ hexact]

/-- On regtest, the first block at height 1050 with a hash aborts the node. -/
theorem PerformStep_treasureMismatch_regtest :
    PerformStep World.flat 0 { GameState.init RegTestParams with nHeight := 1049 }
      (StepData.init { GameState.init RegTestParams with nHeight := 1049 } 1 []) =
      .error .treasureMismatch :=
  PerformStep_treasureMismatch World.flat 0 _ 1 [] rfl (by decide) (by decide)

end Huntercore
