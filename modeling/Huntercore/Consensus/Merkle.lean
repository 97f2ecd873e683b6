import Mathlib
import Huntercore.Lib.Control
import Huntercore.Lib.MerkleTree

/-!
# The Merkle root of a block

`MerkleComputation` (consensus/merkle.cpp) computes the Merkle root of a list of leaf hashes, the
flag `mutated` and the branch of one leaf in constant space. A loop over the leaves keeps in
`inner[ℓ]` the root of the block of `2^ℓ` leaves of each set bit `ℓ` of `count`; each new leaf is
hashed with the stored roots of the low set bits it completes (`climb`), comparing the two halves
of each for `mutated`. A final sweep (`sweep`) closes the odd levels of the right edge by
hashing a node with itself. The branch is read off on the way: `matchlevel` is the level of the
stored root over the chosen leaf, and `matchh` says whether the node being carried is over it.
`ComputeMerkleRootFromBranch` and `CAuxPow::CheckMerkleBranch` hash a leaf up a branch.

The pair hash (`CHash256` over the two 32-byte hashes) is an arbitrary function `H`, `uint256()`
is `default`. A shift `1 << level` past bit 31 is undefined in C++ and an error here.

The specification is the level-by-level tree of `MerkleTree`. For up to `2^31` leaves the
computation gives its root, `mutated` says whether two complete siblings are equal, and the
branch of a leaf is its path (`MerkleComputation_spec`); hashing a leaf up its branch gives the
root (`merkle_correct`). With more leaves the sweep's count passes `2^32` and the shift goes past
bit 31 (`ComputeMerkleRoot_twoPow31_succ`).
-/

namespace Huntercore

open MerkleTree

/-! ## Machine words -/

theorem toNat_one_shiftLeft {l : Nat} (hl : l < 32) :
    ((1 : UInt32) <<< l.toUInt32).toNat = 2 ^ l := by
  have h2 : 2 ^ l < 2 ^ 32 := Nat.pow_lt_pow_right (by norm_num) hl
  rw [UInt32.toNat_shiftLeft]
  simp only [UInt32.toNat_one, Nat.toUInt32_eq, UInt32.toNat_ofNat', Nat.reducePow]
  rw [Nat.mod_eq_of_lt (by omega : l < 4294967296), Nat.mod_eq_of_lt hl, Nat.one_shiftLeft]
  exact Nat.mod_eq_of_lt h2

/-- The test `count & (1 << level)` reads bit `level` of the count. -/
theorem and_one_shiftLeft_eq_zero (c : UInt32) {l : Nat} (hl : l < 32) :
    (c &&& ((1 : UInt32) <<< l.toUInt32)) = 0 ↔ c.toNat / 2 ^ l % 2 = 0 := by
  rw [← UInt32.toNat_inj, UInt32.toNat_and, toNat_one_shiftLeft hl, Nat.and_two_pow,
    UInt32.toNat_zero, Nat.testBit_eq_decide_div_mod_eq]
  have := Nat.two_pow_pos l
  cases h : decide (c.toNat / 2 ^ l % 2 = 1) <;> simp_all

/-! ## The computation -/

/-- The state of `MerkleComputation` between two steps: the leaves counted so far, the stored
subtree roots, the level of the one over the chosen leaf, whether two hashed halves were equal,
and the branch so far. -/
structure MerkleState (α : Type) where
  count : UInt32
  inner : Fin 32 → α
  matchlevel : Int
  mutated : Bool
  branch : List α

section Computation

variable {α : Type} [Inhabited α] [DecidableEq α] (H : α → α → α)

/-- The loop that carries the node `h` up from `level` while bit `level` of `count` is clear,
hashing `inner[level]` to its left: the `for` loop over the levels of a new leaf, which also
compares the two halves (`checkMutated`), and the inner `while` loop of the final sweep. It
stops at the first set bit, whose level it returns. -/
def climb (pbranch checkMutated : Bool) (s : MerkleState α) (h : α) (matchh : Bool)
    (level : Nat) : Except String (MerkleState α × α × Bool × Fin 32) :=
  if hl : level < 32 then
    if s.count &&& ((1 : UInt32) <<< level.toUInt32) = 0 then
      let x := s.inner ⟨level, hl⟩
      -- the branch takes the left node when `h` is over the chosen leaf, and `h` when the left
      -- node is, after which `h` is
      let branch :=
        if pbranch && matchh then s.branch ++ [x]
        else if pbranch && s.matchlevel = level then s.branch ++ [h]
        else s.branch
      let matchh := matchh || (pbranch && s.matchlevel = level)
      let mutated := if checkMutated then s.mutated || decide (x = h) else s.mutated
      climb pbranch checkMutated { s with branch, mutated } (H x h) matchh (level + 1)
    else .ok (s, h, matchh, ⟨level, hl⟩)
  else .error "shift exponent too large"
termination_by 32 - level

/-- One turn of the loop over the leaves: the leaf, over the chosen leaf if it is the one at
`branchpos`, is carried up and stored at the lowest set bit of the new count. -/
def leafStep (pbranch : Bool) (branchpos : UInt32) (s : MerkleState α) (leaf : α) :
    Except String (MerkleState α) := do
  let matchh := decide (s.count = branchpos)
  let (s, h, matchh, level) ←
    climb H pbranch true { s with count := s.count + 1 } leaf matchh 0
  let s := { s with inner := Function.update s.inner level h }
  return if matchh then { s with matchlevel := level.val } else s

/-- `while (!(count & (1 << level))) level++;` -/
def lowestSetBit (count : UInt32) (level : Nat) : Except String (Fin 32) :=
  if hl : level < 32 then
    if count &&& ((1 : UInt32) <<< level.toUInt32) = 0 then lowestSetBit count (level + 1)
    else .ok ⟨level, hl⟩
  else .error "shift exponent too large"
termination_by 32 - level

omit [Inhabited α] in
/-- The climb only goes up. -/
theorem climb_level_ge {pbranch checkMutated : Bool} {s s' : MerkleState α} {h h' : α}
    {matchh matchh' : Bool} {level : Nat} {level' : Fin 32}
    (hc : climb H pbranch checkMutated s h matchh level = .ok (s', h', matchh', level')) :
    level ≤ level'.val := by
  fun_induction climb H pbranch checkMutated s h matchh level with
  | case1 =>
    rename_i ih
    exact Nat.le_of_succ_le (ih hc)
  | case2 =>
    cases hc
    exact le_refl _
  | case3 => cases hc

omit [Inhabited α] in
/-- At a set bit of the count the climb stops at once. -/
theorem climb_of_bit {pbranch checkMutated : Bool} {s : MerkleState α} {h : α} {matchh : Bool}
    {level : Nat} (hl : level < 32) (hbit : s.count.toNat / 2 ^ level % 2 = 1) :
    climb H pbranch checkMutated s h matchh level = .ok (s, h, matchh, ⟨level, hl⟩) := by
  rw [climb, dif_pos hl, if_neg]
  rw [and_one_shiftLeft_eq_zero s.count hl]
  omega

omit [Inhabited α] in
/-- With a zero count the climb from bit `31` goes past the word. -/
theorem climb_thirtyOne_of_count_zero {pbranch checkMutated : Bool} {s : MerkleState α} {h : α}
    {matchh : Bool} (hs : s.count = 0) :
    climb H pbranch checkMutated s h matchh 31 = .error "shift exponent too large" := by
  rw [climb, dif_pos (by norm_num), if_pos (by rw [hs]; rfl)]
  dsimp only
  rw [climb, dif_neg (by norm_num)]

/-- The outer loop of the final sweep, at a set bit `level` of `count` with the node `h` there:
until `count` is `1 << level`, the node is hashed with itself, `count` gets `1 << level` more,
and the result is carried up. -/
def sweep (pbranch : Bool) (s : MerkleState α) (h : α) (matchh : Bool) (level : Fin 32) :
    Except String (MerkleState α × α) :=
  if s.count = (1 : UInt32) <<< level.val.toUInt32 then .ok (s, h)
  else
    -- an odd level: `h` is its own sibling
    let s' := { s with
      branch := if pbranch && matchh then s.branch ++ [h] else s.branch
      count := s.count + ((1 : UInt32) <<< level.val.toUInt32) }
    match _hc : climb H pbranch false s' (H h h) matchh (level.val + 1) with
    | .error e => .error e
    | .ok (s'', h'', matchh'', level'') => sweep pbranch s'' h'' matchh'' level''
termination_by 32 - level.val
decreasing_by
  have := climb_level_ge H _hc
  omega

/-- `MerkleComputation`: the root, `mutated`, and the branch of the leaf at `branchpos` (kept
when `pbranch`). -/
def MerkleComputation (leaves : List α) (pbranch : Bool) (branchpos : UInt32) :
    Except String (α × Bool × List α) :=
  match leaves with
  | [] => .ok (default, false, [])
  | _ :: _ => do
    let s ← leaves.foldlM (leafStep H pbranch branchpos) ⟨0, fun _ => default, -1, false, []⟩
    let level ← lowestSetBit s.count 0
    let (s, h) ← sweep H pbranch s (s.inner level) (decide (s.matchlevel = level.val)) level
    return (h, s.mutated, s.branch)

/-- `ComputeMerkleRoot`: the root and `mutated`, with no branch at position `(uint32_t)-1`. -/
def ComputeMerkleRoot (leaves : List α) : Except String (α × Bool) :=
  (MerkleComputation H leaves false 0xFFFFFFFF).map fun r => (r.1, r.2.1)

/-- `ComputeMerkleBranch`: the branch of the leaf at `position`. -/
def ComputeMerkleBranch (leaves : List α) (position : UInt32) : Except String (List α) :=
  (MerkleComputation H leaves true position).map fun r => r.2.2

/-- `ComputeMerkleRootFromBranch`: the leaf hashed up the branch, the bits of `nIndex` saying
on which side each sibling goes. -/
def ComputeMerkleRootFromBranch (leaf : α) (vMerkleBranch : List α) (nIndex : UInt32) : α :=
  (vMerkleBranch.foldl (fun (acc : α × UInt32) it =>
    (if acc.2 &&& 1 ≠ 0 then H it acc.1 else H acc.1 it, acc.2 >>> 1)) (leaf, nIndex)).1

/-- `CAuxPow::CheckMerkleBranch`, whose index is an `int` and `-1` for no branch; `nIndex & 1` of
an `int` is its remainder by `2`, and `>>=` its arithmetic shift. -/
def CAuxPow.CheckMerkleBranch (hash : α) (vMerkleBranch : List α) (nIndex : Int) : α :=
  if nIndex = -1 then default
  else (vMerkleBranch.foldl (fun (acc : α × Int) it =>
    (if acc.2 % 2 = 1 then H it acc.1 else H acc.1 it, acc.2 >>> (1 : Nat))) (hash, nIndex)).1

end Computation

/-! ## Arithmetic of the count -/

theorem div_two_pow_succ (x ℓ : Nat) : x / 2 ^ (ℓ + 1) = x / 2 ^ ℓ / 2 := by
  rw [pow_succ, Nat.div_div_eq_div_mul]

/-- Two numbers with one quotient by `2^ℓ` have one quotient by every higher power of two. -/
theorem div_two_pow_eq_of_le {a b ℓ : Nat} (h : a / 2 ^ ℓ = b / 2 ^ ℓ) {ℓ' : Nat}
    (hle : ℓ ≤ ℓ') : a / 2 ^ ℓ' = b / 2 ^ ℓ' := by
  induction ℓ', hle using Nat.le_induction with
  | base => exact h
  | succ ℓ' _ ih => rw [div_two_pow_succ, div_two_pow_succ, ih]

/-- Above the block of bit `m` of `c` that holds `i`, `i` and `c` agree. -/
theorem div_two_pow_eq_of_block {c i m : Nat} (hm : c / 2 ^ m % 2 = 1)
    (him : i / 2 ^ m + 1 = c / 2 ^ m) {m' : Nat} (hlt : m < m') : i / 2 ^ m' = c / 2 ^ m' := by
  have hsucc : i / 2 ^ (m + 1) = c / 2 ^ (m + 1) := by
    rw [div_two_pow_succ, div_two_pow_succ]
    omega
  exact div_two_pow_eq_of_le hsucc hlt

/-- A leaf is in one block of a count at most. -/
theorem block_unique {c i m m' : Nat} (hm : c / 2 ^ m % 2 = 1) (him : i / 2 ^ m + 1 = c / 2 ^ m)
    (hm' : c / 2 ^ m' % 2 = 1) (him' : i / 2 ^ m' + 1 = c / 2 ^ m') : m = m' := by
  rcases lt_trichotomy m m' with hlt | heq | hlt
  · have := div_two_pow_eq_of_block hm him hlt
    omega
  · exact heq
  · have := div_two_pow_eq_of_block hm' him' hlt
    omega

/-- Below bit `30`, adding the low block `2^ℓ` to the count `2^31 + 2^ℓ` gives
`2^31 + 2^(ℓ+1)`, whose bit `ℓ + 1` is set. -/
theorem count_double_of_lt {c : UInt32} {ℓ : Nat} (hlt : ℓ < 30) (hc : c.toNat = 2 ^ 31 + 2 ^ ℓ) :
    (c + (1 : UInt32) <<< ℓ.toUInt32).toNat / 2 ^ (ℓ + 1) % 2 = 1 ∧
      (c + (1 : UInt32) <<< ℓ.toUInt32).toNat = 2 ^ 31 + 2 ^ (ℓ + 1) := by
  have hsplit : 2 ^ 31 + 2 ^ (ℓ + 1) = 2 ^ (ℓ + 1) * (2 * 2 ^ (29 - ℓ) + 1) := by
    rw [mul_add, mul_one, ← mul_assoc, ← pow_succ, ← pow_add]
    congr 2
    omega
  have hsmall : 2 ^ ℓ ≤ 2 ^ 29 := Nat.pow_le_pow_right (by norm_num) (by omega)
  have hsum : (c + (1 : UInt32) <<< ℓ.toUInt32).toNat = 2 ^ 31 + 2 ^ (ℓ + 1) := by
    rw [UInt32.toNat_add, hc, toNat_one_shiftLeft (by omega), pow_succ, Nat.mod_eq_of_lt (by omega)]
    ring
  refine ⟨?_, hsum⟩
  rw [hsum, hsplit, Nat.mul_div_cancel_left _ (Nat.two_pow_pos _)]
  omega

/-- At bit `30`, adding the low block to the count `2^31 + 2^30` gives `2^32`, which wraps to
`0`. -/
theorem count_double_thirty {c : UInt32} {ℓ : Nat} (hℓ : ℓ = 30) (hc : c.toNat = 2 ^ 31 + 2 ^ ℓ) :
    c + (1 : UInt32) <<< ℓ.toUInt32 = 0 := by
  subst hℓ
  apply UInt32.toNat_inj.mp
  rw [UInt32.toNat_add, hc, toNat_one_shiftLeft (by norm_num)]
  rfl

/-- A number whose bits below `ℓ` are clear is a multiple of `2^ℓ`. -/
theorem mod_two_pow_eq_zero_of_bits {n ℓ : Nat} (h : ∀ ℓ' < ℓ, n / 2 ^ ℓ' % 2 = 0) :
    n % 2 ^ ℓ = 0 := by
  induction ℓ with
  | zero => exact Nat.mod_one n
  | succ ℓ ih =>
    rw [Nat.mod_pow_succ, ih fun ℓ' hlt => h ℓ' (Nat.lt_succ_of_lt hlt), h ℓ (Nat.lt_succ_self ℓ),
      Nat.mul_zero]

/-! ## The loop over the leaves -/

section Leaves

variable {α : Type} [Inhabited α] [DecidableEq α] {H : α → α → α} {L : List α}

variable (H L) in
/-- The branch of leaf `i` after the first `c` leaves: nothing before the leaf; after it, the
level `m` of the block of `c` holding it, and the siblings of its ancestors below `m`. -/
def BranchInv (i c : Nat) (matchlevel : Int) (branch : List α) : Prop :=
  (c ≤ i → matchlevel = -1 ∧ branch = []) ∧
  (i < c → ∃ m : Nat, matchlevel = m ∧ c / 2 ^ m % 2 = 1 ∧ i / 2 ^ m + 1 = c / 2 ^ m ∧
    branch = MerkleTree.branch H L i m)

variable (H L) in
/-- What the state holds after the first `c` leaves of `L`: the count; at each set bit `ℓ` of
`c` the root of its block, node `c / 2^ℓ - 1` of level `ℓ`; whether two complete siblings among
the first `c` leaves are equal; and the branch of leaf `i`. -/
structure LoopInv (pbranch : Bool) (i c : Nat) (s : MerkleState α) : Prop where
  count : s.count.toNat = c
  inner : ∀ ℓ (hℓ : ℓ < 32), c / 2 ^ ℓ % 2 = 1 → s.inner ⟨ℓ, hℓ⟩ = node H L ℓ (c / 2 ^ ℓ - 1)
  mutated : s.mutated = true ↔
    ∃ ℓ k, k < c / 2 ^ (ℓ + 1) ∧ node H L ℓ (2 * k) = node H L ℓ (2 * k + 1)
  branch : pbranch = true → BranchInv H L i c s.matchlevel s.branch

variable (H L) in
/-- The climb of leaf `c` at level `ℓ`: the carry has cleared the bits of `c + 1` below `ℓ`, `h`
is the ancestor of the leaf at level `ℓ`, the stored roots are those of `c`, the halves compared
are those completed by the first `c` leaves and, below `ℓ`, by this one; `matchh` says whether
leaf `i` is under `h`, and the branch is its path below `ℓ` if so, and what it was after `c`
leaves if not. -/
structure ClimbInv (pbranch : Bool) (i c ℓ : Nat) (s : MerkleState α) (h : α) (matchh : Bool) :
    Prop where
  count : s.count.toNat = c + 1
  low : ∀ ℓ' < ℓ, (c + 1) / 2 ^ ℓ' % 2 = 0
  carry : (c + 1) / 2 ^ ℓ = c / 2 ^ ℓ + 1
  inner : ∀ ℓ' (hℓ' : ℓ' < 32), c / 2 ^ ℓ' % 2 = 1 →
    s.inner ⟨ℓ', hℓ'⟩ = node H L ℓ' (c / 2 ^ ℓ' - 1)
  ancestor : h = node H L ℓ (c / 2 ^ ℓ)
  mutated : s.mutated = true ↔ ∃ ℓ' k, k < (if ℓ' < ℓ then c + 1 else c) / 2 ^ (ℓ' + 1) ∧
    node H L ℓ' (2 * k) = node H L ℓ' (2 * k + 1)
  covers : pbranch = true → (matchh = true ↔ i ≤ c ∧ i / 2 ^ ℓ = c / 2 ^ ℓ)
  onPath : pbranch = true → matchh = true → s.branch = MerkleTree.branch H L i ℓ
  offPath : pbranch = true → matchh = false →
    BranchInv H L i c s.matchlevel s.branch ∧ ∀ m : Nat, s.matchlevel = m → ℓ ≤ m

/-- One level of the climb of leaf `c` at a clear bit of the new count: the stored root there is
the left sibling of `h`, their parent is the ancestor one level up, and they are the pair leaf `c`
completes on that level. -/
theorem ClimbInv.step {pbranch : Bool} {i c ℓ : Nat} {s : MerkleState α} {h : α} {matchh : Bool}
    (hinv : ClimbInv H L pbranch i c ℓ s h matchh) (hc : c < L.length) (hℓ : ℓ < 32)
    (hbit : (c + 1) / 2 ^ ℓ % 2 = 0) :
    ClimbInv H L pbranch i c (ℓ + 1)
      { s with
        branch :=
          if pbranch && matchh then s.branch ++ [s.inner ⟨ℓ, hℓ⟩]
          else if pbranch && s.matchlevel = ℓ then s.branch ++ [h]
          else s.branch
        mutated := s.mutated || decide (s.inner ⟨ℓ, hℓ⟩ = h) }
      (H (s.inner ⟨ℓ, hℓ⟩) h) (matchh || (pbranch && s.matchlevel = ℓ)) := by
  have hcarry := hinv.carry
  have ha : c / 2 ^ ℓ % 2 = 1 := by omega
  have hx : s.inner ⟨ℓ, hℓ⟩ = node H L ℓ (c / 2 ^ ℓ - 1) := hinv.inner ℓ hℓ ha
  have hsize : c / 2 ^ ℓ < (level H L ℓ).length := div_two_pow_lt_length hc ℓ
  have hdiv := div_two_pow_succ c ℓ
  have hdiv' := div_two_pow_succ (c + 1) ℓ
  have hidiv := div_two_pow_succ i ℓ
  refine ⟨hinv.count, ?low, by omega, hinv.inner, ?ancestor, ?mutated, ?covers, ?onPath, ?offPath⟩
  case low =>
    intro ℓ' hℓ'
    rcases Nat.lt_succ_iff_lt_or_eq.mp hℓ' with hlt | rfl
    · exact hinv.low ℓ' hlt
    · exact hbit
  case ancestor =>
    -- the parent of the stored root and `h`
    rw [hx, hinv.ancestor, node_succ_of_lt (show 2 * (c / 2 ^ (ℓ + 1)) + 1 < _ by omega)]
    congr 2 <;> omega
  case mutated =>
    show (s.mutated || decide (s.inner ⟨ℓ, hℓ⟩ = h)) = true ↔ _
    rw [Bool.or_eq_true, hinv.mutated, decide_eq_true_iff, hx, hinv.ancestor,
      show c / 2 ^ ℓ - 1 = 2 * (c / 2 ^ (ℓ + 1)) by omega,
      show c / 2 ^ ℓ = 2 * (c / 2 ^ (ℓ + 1)) + 1 by omega]
    constructor
    · rintro (⟨ℓ', k, hk, heq⟩ | heq)
      · -- a pair completed before is still completed
        refine ⟨ℓ', k, lt_of_lt_of_le hk ?_, heq⟩
        split_ifs <;> first | exact le_refl _ | exact Nat.div_le_div_right (Nat.le_succ c) | omega
      · exact ⟨ℓ, c / 2 ^ (ℓ + 1), by rw [if_pos (Nat.lt_succ_self ℓ)]; omega, heq⟩
    · rintro ⟨ℓ', k, hk, heq⟩
      by_cases hℓ' : ℓ' = ℓ
      · -- on this level the leaf completes one more pair, the one just compared
        subst hℓ'
        rw [if_pos (Nat.lt_succ_self _)] at hk
        rcases Nat.lt_succ_iff_lt_or_eq.mp (show k < c / 2 ^ (ℓ' + 1) + 1 by omega) with hlt | rfl
        · exact Or.inl ⟨ℓ', k, by rw [if_neg (lt_irrefl _)]; exact hlt, heq⟩
        · exact Or.inr heq
      · have hiff : ℓ' < ℓ + 1 ↔ ℓ' < ℓ := by omega
        exact Or.inl ⟨ℓ', k, by simpa only [hiff] using hk, heq⟩
  case covers =>
    intro hpb
    subst hpb
    have hcov := hinv.covers rfl
    cases hm : matchh
    · -- leaf `i` comes under `h` when the stored root is over it
      obtain ⟨hbr, hge⟩ := hinv.offPath rfl hm
      simp only [Bool.false_or, Bool.true_and, decide_eq_true_iff]
      constructor
      · intro hml
        rcases Nat.lt_or_ge i c with hic | hic
        · obtain ⟨m, hm', hodd, hblock, -⟩ := hbr.2 hic
          have hmℓ : m = ℓ := by rw [hml] at hm'; exact_mod_cast hm'.symm
          subst hmℓ
          exact ⟨hic.le, by omega⟩
        · have := (hbr.1 hic).1
          rw [this] at hml
          omega
      · rintro ⟨hic, hdivi⟩
        have hne : i ≠ c := by
          rintro rfl
          have := hcov.mpr ⟨le_refl _, rfl⟩
          rw [hm] at this
          exact Bool.false_ne_true this
        obtain ⟨m, hm', hodd, hblock, -⟩ := hbr.2 (lt_of_le_of_ne hic hne)
        have hle := hge m hm'
        rcases Nat.lt_or_ge ℓ m with hlt | hle'
        · have := div_two_pow_eq_of_le hdivi (show ℓ + 1 ≤ m by omega)
          omega
        · rw [hm', le_antisymm hle' hle]
    · simp only [Bool.true_or, true_iff]
      obtain ⟨hic, hdivi⟩ := hcov.mp hm
      exact ⟨hic, by omega⟩
  case onPath =>
    intro hpb hm'
    subst hpb
    have hcov := hinv.covers rfl
    show (if true && matchh then s.branch ++ [s.inner ⟨ℓ, hℓ⟩]
      else if true && decide (s.matchlevel = ↑ℓ) then s.branch ++ [h] else s.branch) = _
    rw [branch_succ]
    cases hm : matchh
    · -- the stored root is over leaf `i`, and `h` is its sibling
      have hml : s.matchlevel = ℓ := by simpa [hm] using hm'
      obtain ⟨hbr, -⟩ := hinv.offPath rfl hm
      have hic : i < c := by
        by_contra hic
        have := (hbr.1 (not_lt.mp hic)).1
        rw [this] at hml
        omega
      obtain ⟨m, hm'', hodd, hblock, hbranch⟩ := hbr.2 hic
      have hmℓ : m = ℓ := by rw [hml] at hm''; exact_mod_cast hm''.symm
      subst hmℓ
      rw [if_neg (by simp), if_pos (by simp [hml]), hbranch,
        sibling_of_even (by omega) (by omega), hinv.ancestor]
      congr 3
      omega
    · obtain ⟨hic, hdivi⟩ := hcov.mp hm
      rw [if_pos (by rfl), hinv.onPath rfl hm, hx, sibling_of_odd (by omega) (by omega)]
      congr 3
      omega
  case offPath =>
    intro hpb hm'
    subst hpb
    have hm : matchh = false := by cases matchh <;> simp_all
    have hml : ¬ s.matchlevel = ℓ := by simpa [hm] using hm'
    obtain ⟨hbr, hge⟩ := hinv.offPath rfl hm
    show BranchInv H L i c s.matchlevel (if true && matchh then s.branch ++ [s.inner ⟨ℓ, hℓ⟩]
      else if true && decide (s.matchlevel = ↑ℓ) then s.branch ++ [h] else s.branch) ∧ _
    rw [hm, if_neg (by simp), if_neg (by simp [hml])]
    refine ⟨hbr, fun m hm'' => ?_⟩
    have hle := hge m hm''
    have hne : m ≠ ℓ := fun heq => hml (heq ▸ hm'')
    omega

/-- The climb stops at the first set bit `ℓ` of the new count: the carried node is the root of the
new block there, and if leaf `i` is under it, the branch now stops at `ℓ`. -/
theorem ClimbInv.exit {pbranch : Bool} {i c ℓ : Nat} {s : MerkleState α} {h : α} {matchh : Bool}
    (hinv : ClimbInv H L pbranch i c ℓ s h matchh) (hℓ : ℓ < 32)
    (hbit : (c + 1) / 2 ^ ℓ % 2 = 1) :
    LoopInv H L pbranch i (c + 1)
      (if matchh then { s with inner := Function.update s.inner ⟨ℓ, hℓ⟩ h, matchlevel := ℓ }
        else { s with inner := Function.update s.inner ⟨ℓ, hℓ⟩ h }) := by
  have hcarry := hinv.carry
  -- above `ℓ` the new count agrees with the old one
  have habove : ∀ ℓ', ℓ < ℓ' → (c + 1) / 2 ^ ℓ' = c / 2 ^ ℓ' := fun ℓ' hlt =>
    div_two_pow_eq_of_le (by rw [div_two_pow_succ, div_two_pow_succ]; omega) hlt
  have hinner : ∀ ℓ' (hℓ' : ℓ' < 32), (c + 1) / 2 ^ ℓ' % 2 = 1 →
      Function.update s.inner ⟨ℓ, hℓ⟩ h ⟨ℓ', hℓ'⟩ = node H L ℓ' ((c + 1) / 2 ^ ℓ' - 1) := by
    intro ℓ' hℓ' hbit'
    rcases lt_trichotomy ℓ' ℓ with hlt | rfl | hgt
    · have := hinv.low ℓ' hlt
      omega
    · rw [Function.update_self, hinv.ancestor, hcarry, Nat.add_sub_cancel]
    · have hne : (⟨ℓ', hℓ'⟩ : Fin 32) ≠ ⟨ℓ, hℓ⟩ := fun heq => by
        have := congrArg Fin.val heq
        simp only at this
        omega
      rw [Function.update_of_ne hne, habove ℓ' hgt]
      exact hinv.inner ℓ' hℓ' (by rw [← habove ℓ' hgt]; exact hbit')
  have hbound : ∀ ℓ', (if ℓ' < ℓ then c + 1 else c) / 2 ^ (ℓ' + 1) = (c + 1) / 2 ^ (ℓ' + 1) := by
    intro ℓ'
    split_ifs with hlt
    · rfl
    · exact (habove (ℓ' + 1) (by omega)).symm
  have hmut : s.mutated = true ↔
      ∃ ℓ' k, k < (c + 1) / 2 ^ (ℓ' + 1) ∧ node H L ℓ' (2 * k) = node H L ℓ' (2 * k + 1) := by
    simpa only [hbound] using hinv.mutated
  cases hm : matchh
  case false =>
    refine ⟨hinv.count, hinner, hmut, fun hpb => ?_⟩
    obtain ⟨hbr, hge⟩ := hinv.offPath hpb hm
    have hcov := hinv.covers hpb
    refine ⟨fun hle => hbr.1 (by omega), fun hlt => ?_⟩
    have hic : i < c := by
      refine lt_of_le_of_ne (by omega) fun hic => ?_
      subst hic
      have := hcov.mpr ⟨le_refl _, rfl⟩
      rw [hm] at this
      exact Bool.false_ne_true this
    obtain ⟨m, hml, hodd, hblock, hbranch⟩ := hbr.2 hic
    -- the block of leaf `i` is above `ℓ`, where the new count agrees with the old one
    have hgt : ℓ < m := by
      rcases Nat.lt_or_ge ℓ m with hlt | hle
      · exact hlt
      · have := le_antisymm hle (hge m hml)
        subst this
        omega
    exact ⟨m, hml, by rw [habove m hgt]; exact hodd, by rw [habove m hgt]; exact hblock, hbranch⟩
  case true =>
    refine ⟨hinv.count, hinner, hmut, fun hpb => ?_⟩
    obtain ⟨hic, hdivi⟩ := (hinv.covers hpb).mp hm
    exact ⟨fun hle => by omega, fun _ => ⟨ℓ, rfl, hbit, by omega, hinv.onPath hpb hm⟩⟩

/-- The climb of leaf `c` ends at the first set bit of the new count. -/
theorem ClimbInv.run {pbranch : Bool} {i c ℓ : Nat} {s : MerkleState α} {h : α}
    {matchh : Bool} (hinv : ClimbInv H L pbranch i c ℓ s h matchh) (hc : c < L.length) :
    ∃ (s' : MerkleState α) (h' : α) (matchh' : Bool) (ℓ' : Fin 32),
      climb H pbranch true s h matchh ℓ = .ok (s', h', matchh', ℓ') ∧
      ClimbInv H L pbranch i c ℓ' s' h' matchh' ∧ (c + 1) / 2 ^ ℓ'.val % 2 = 1 := by
  fun_induction climb H pbranch true s h matchh ℓ with
  | case1 s h matchh ℓ hℓ hclear =>
    rename_i ih
    have hbit : (c + 1) / 2 ^ ℓ % 2 = 0 := by
      rw [← hinv.count]
      exact (and_one_shiftLeft_eq_zero s.count hℓ).mp hclear
    exact ih (hinv.step hc hℓ hbit)
  | case2 s h matchh ℓ hℓ hset =>
    have hbit : (c + 1) / 2 ^ ℓ % 2 = 1 := by
      rw [← hinv.count]
      have := (and_one_shiftLeft_eq_zero s.count hℓ).not.mp hset
      omega
    exact ⟨s, h, matchh, ⟨ℓ, hℓ⟩, rfl, hinv, hbit⟩
  | case3 s h matchh ℓ hℓ =>
    -- the carry reaches bit `ℓ`, so the count is at least `2^ℓ`, which a word cannot hold
    have hpos : 1 ≤ (c + 1) / 2 ^ ℓ := by
      rw [hinv.carry]
      exact Nat.le_add_left 1 _
    have hle : 2 ^ ℓ ≤ c + 1 := by
      simpa using (Nat.le_div_iff_mul_le (Nat.two_pow_pos ℓ)).mp hpos
    have hword : c + 1 < 2 ^ 32 := hinv.count ▸ UInt32.toNat_lt s.count
    have : 2 ^ 32 ≤ 2 ^ ℓ := Nat.pow_le_pow_right (by norm_num) (by omega)
    omega

omit [DecidableEq α] in
/-- The climb of leaf `c` starts at level `0` with the leaf, which is leaf `i` if the count is. -/
theorem LoopInv.climbInv {pbranch : Bool} {branchpos : UInt32} {c : Nat} {s : MerkleState α}
    (hinv : LoopInv H L pbranch branchpos.toNat c s) (hn : c + 1 < 2 ^ 32) :
    ClimbInv H L pbranch branchpos.toNat c 0 { s with count := s.count + 1 } (L.getD c default)
      (decide (s.count = branchpos)) where
  count := by
    show (s.count + 1).toNat = c + 1
    rw [UInt32.toNat_add, hinv.count, UInt32.toNat_one]
    exact Nat.mod_eq_of_lt hn
  low := fun ℓ' h => absurd h (Nat.not_lt_zero ℓ')
  carry := by simp
  inner := hinv.inner
  ancestor := by simp
  mutated := by simpa using hinv.mutated
  covers := fun _ => by
    rw [decide_eq_true_iff, ← UInt32.toNat_inj, hinv.count]
    simp only [pow_zero, Nat.div_one]
    omega
  onPath := fun hpb hm => by
    have hci : c = branchpos.toNat := by
      rw [← hinv.count]
      exact congrArg UInt32.toNat (of_decide_eq_true hm)
    show s.branch = MerkleTree.branch H L branchpos.toNat 0
    rw [((hinv.branch hpb).1 (by omega)).2]
    rfl
  offPath := fun hpb _ => ⟨hinv.branch hpb, fun m _ => Nat.zero_le m⟩

/-- One turn of the loop over the leaves, on leaf `c`. -/
theorem LoopInv.leafStep {pbranch : Bool} {branchpos : UInt32} {c : Nat} {s : MerkleState α}
    (hinv : LoopInv H L pbranch branchpos.toNat c s) (hc : c < L.length) (hn : c + 1 < 2 ^ 32) :
    ∃ s', leafStep H pbranch branchpos s (L.getD c default) = .ok s' ∧
      LoopInv H L pbranch branchpos.toNat (c + 1) s' := by
  obtain ⟨s', h', matchh', ℓ', hclimb, hinv', hbit⟩ := (hinv.climbInv hn).run hc
  refine ⟨_, ?_, hinv'.exit ℓ'.isLt hbit⟩
  simp only [Huntercore.leafStep, hclimb, Except.ok_bind]
  rfl

omit [DecidableEq α] in
variable (H L) in
theorem LoopInv.init (pbranch : Bool) (i : Nat) :
    LoopInv H L pbranch i 0 ⟨0, fun _ => default, -1, false, []⟩ where
  count := rfl
  inner := by simp
  mutated := by simp
  branch := fun _ => ⟨fun _ => ⟨rfl, rfl⟩, fun h => absurd h (Nat.not_lt_zero i)⟩

/-- The loop over the first `c` leaves. -/
theorem foldlM_leafStep (pbranch : Bool) (branchpos : UInt32) (hn : L.length < 2 ^ 32) :
    ∀ c ≤ L.length, ∃ s, (L.take c).foldlM (leafStep H pbranch branchpos)
      ⟨0, fun _ => default, -1, false, []⟩ = .ok s ∧ LoopInv H L pbranch branchpos.toNat c s
  | 0, _ => ⟨_, rfl, LoopInv.init H L pbranch _⟩
  | c + 1, hc => by
    obtain ⟨s, hfold, hinv⟩ := foldlM_leafStep pbranch branchpos hn c (by omega)
    obtain ⟨s', hstep, hinv'⟩ := hinv.leafStep (by omega) (by omega)
    refine ⟨s', ?_, hinv'⟩
    rw [List.take_add_one, List.getElem?_eq_getElem (by omega), Option.toList_some,
      List.foldlM_append, hfold, Except.ok_bind, List.foldlM_cons, ← List.getD_eq_getElem _ default,
      hstep]
    rfl

/-! ## The final sweep -/

/-- `lowestSetBit` finds the lowest set bit of a nonzero count. -/
theorem lowestSetBit_spec {count : UInt32} (hpos : count ≠ 0) {level : Nat}
    (hlow : ∀ ℓ < level, count.toNat / 2 ^ ℓ % 2 = 0) :
    ∃ ℓ : Fin 32, lowestSetBit count level = .ok ℓ ∧ count.toNat / 2 ^ ℓ.val % 2 = 1 ∧
      ∀ ℓ' < ℓ.val, count.toNat / 2 ^ ℓ' % 2 = 0 := by
  fun_induction lowestSetBit count level with
  | case1 level hℓ hclear =>
    rename_i ih
    apply ih
    intro ℓ hlt
    rcases Nat.lt_succ_iff_lt_or_eq.mp hlt with hlt | rfl
    · exact hlow ℓ hlt
    · exact (and_one_shiftLeft_eq_zero count hℓ).mp hclear
  | case2 level hℓ hset =>
    have := (and_one_shiftLeft_eq_zero count hℓ).not.mp hset
    exact ⟨⟨level, hℓ⟩, rfl, Nat.mod_two_ne_zero.mp this, hlow⟩
  | case3 level hℓ =>
    -- no bit of the word is set, so the count is zero
    have hmod := mod_two_pow_eq_zero_of_bits hlow
    have hlt : count.toNat < 2 ^ level :=
      lt_of_lt_of_le (UInt32.toNat_lt count) (Nat.pow_le_pow_right (by norm_num) (by omega))
    rw [Nat.mod_eq_of_lt hlt] at hmod
    exact absurd (UInt32.toNat_inj.mp (by rw [hmod]; rfl)) hpos

omit [Inhabited α] [DecidableEq α] in
/-- With at most `2^31` leaves, the count of the nodes of a level below `32` as blocks of `2^ℓ`
fits a word. -/
theorem length_level_mul_lt_word (hL : L ≠ []) (hn : L.length ≤ 2 ^ 31) {ℓ : Nat} (hℓ : ℓ < 32) :
    (level H L ℓ).length * 2 ^ ℓ < 2 ^ 32 := by
  have hcover := length_level_mul_lt (H := H) hL ℓ
  have : 2 ^ ℓ ≤ 2 ^ 31 := Nat.pow_le_pow_right (by norm_num) (by omega)
  omega

variable (H L) in
/-- The final sweep at level `ℓ`, carrying the last node `h` of the level: the count is the
level's nodes as blocks of `2^ℓ`, the levels below have two nodes or more, the stored roots are
those of all the leaves and `mutated` is what the loop left; `matchh` says whether leaf `i` is
under `h`, and the branch is its path below `ℓ` if so, and stops at the stored root over it, at
or above `ℓ`, if not. -/
structure SweepInv (pbranch : Bool) (i : Nat) (mutated : Bool) (ℓ : Nat) (s : MerkleState α)
    (h : α) (matchh : Bool) : Prop where
  count : s.count.toNat = (level H L ℓ).length * 2 ^ ℓ
  below : ∀ ℓ' < ℓ, 1 < (level H L ℓ').length
  inner : ∀ ℓ' (hℓ' : ℓ' < 32), L.length / 2 ^ ℓ' % 2 = 1 →
    s.inner ⟨ℓ', hℓ'⟩ = node H L ℓ' (L.length / 2 ^ ℓ' - 1)
  last : h = node H L ℓ ((level H L ℓ).length - 1)
  mutated : s.mutated = mutated
  covers : pbranch = true → (matchh = true ↔ i / 2 ^ ℓ + 1 = (level H L ℓ).length)
  onPath : pbranch = true → matchh = true → s.branch = MerkleTree.branch H L i ℓ
  offPath : pbranch = true → matchh = false → ∃ m : Nat, s.matchlevel = m ∧ ℓ ≤ m ∧
    L.length / 2 ^ m % 2 = 1 ∧ i / 2 ^ m + 1 = L.length / 2 ^ m ∧
    s.branch = MerkleTree.branch H L i m

omit [DecidableEq α] in
/-- The sweep starts at the lowest set bit `ℓ` of the number of leaves, with the stored root
there, which is the last node of its level. -/
theorem LoopInv.sweepInv {pbranch : Bool} {i : Nat} {s : MerkleState α}
    (hinv : LoopInv H L pbranch i L.length s) (hi : pbranch = true → i < L.length) (ℓ : Fin 32)
    (hbit : L.length / 2 ^ ℓ.val % 2 = 1) (hlow : ∀ ℓ' < ℓ.val, L.length / 2 ^ ℓ' % 2 = 0) :
    SweepInv H L pbranch i s.mutated ℓ s (s.inner ℓ) (decide (s.matchlevel = ℓ.val)) ∧
      (level H L ℓ).length = L.length / 2 ^ ℓ.val := by
  have hsize := length_level_of_low_bits (H := H) L hlow ℓ.val le_rfl
  have hdvd : 2 ^ ℓ.val ∣ L.length := Nat.dvd_of_mod_eq_zero (mod_two_pow_eq_zero_of_bits hlow)
  -- the stored root over leaf `i` is at or above the lowest set bit
  have hblock : pbranch = true → ∃ m : Nat, s.matchlevel = m ∧ L.length / 2 ^ m % 2 = 1 ∧
      i / 2 ^ m + 1 = L.length / 2 ^ m ∧ s.branch = MerkleTree.branch H L i m := fun hpb =>
    (hinv.branch hpb).2 (hi hpb)
  refine ⟨⟨?count, ?below, hinv.inner, ?last, rfl, ?covers, ?onPath, ?offPath⟩, hsize⟩
  case count => rw [hinv.count, hsize, Nat.div_mul_cancel hdvd]
  case below =>
    intro ℓ' hlt
    have hge : L.length / 2 ^ ℓ.val ≤ L.length / 2 ^ ℓ' :=
      Nat.div_le_div_left (Nat.pow_le_pow_right (by norm_num) hlt.le) (Nat.two_pow_pos ℓ')
    have := hlow ℓ' hlt
    rw [length_level_of_low_bits L hlow ℓ' hlt.le]
    omega
  case last =>
    rw [hinv.inner ℓ.val ℓ.isLt hbit, hsize]
  case covers =>
    intro hpb
    obtain ⟨m, hml, hodd, hblk, -⟩ := hblock hpb
    rw [decide_eq_true_iff, hsize, hml, Int.ofNat_inj]
    constructor
    · rintro rfl
      exact hblk
    · intro hblk'
      exact block_unique hodd hblk hbit hblk'
  case onPath =>
    intro hpb hm
    obtain ⟨m, hml, -, -, hbranch⟩ := hblock hpb
    have hmℓ : m = ℓ.val := by
      have := of_decide_eq_true hm
      rw [hml] at this
      exact_mod_cast this
    rw [hbranch, hmℓ]
  case offPath =>
    intro hpb _
    obtain ⟨m, hml, hodd, hblk, hbranch⟩ := hblock hpb
    refine ⟨m, hml, ?_, hodd, hblk, hbranch⟩
    by_contra hlt
    have := hlow m (by omega)
    omega

omit [DecidableEq α] in
/-- One level of the sweep's climb, where the level has an even number of nodes: the stored
root there is the left neighbour of `h`. -/
theorem SweepInv.step {pbranch : Bool} {i : Nat} {mutated₀ : Bool} {ℓ : Nat} {s : MerkleState α}
    {h : α} {matchh : Bool} (hinv : SweepInv H L pbranch i mutated₀ ℓ s h matchh)
    (hi : pbranch = true → i < L.length) (hsize : (level H L ℓ).length = L.length / 2 ^ ℓ + 1)
    (hℓ : ℓ < 32) (heven : (level H L ℓ).length % 2 = 0) :
    SweepInv H L pbranch i mutated₀ (ℓ + 1)
      { s with
        branch :=
          if pbranch && matchh then s.branch ++ [s.inner ⟨ℓ, hℓ⟩]
          else if pbranch && s.matchlevel = ℓ then s.branch ++ [h]
          else s.branch }
      (H (s.inner ⟨ℓ, hℓ⟩) h) (matchh || (pbranch && s.matchlevel = ℓ)) ∧
    (level H L (ℓ + 1)).length = L.length / 2 ^ (ℓ + 1) + 1 := by
  have hsucc := length_level_succ (H := H) L ℓ
  have hdiv := div_two_pow_succ L.length ℓ
  have hidiv := div_two_pow_succ i ℓ
  have hodd : L.length / 2 ^ ℓ % 2 = 1 := by omega
  have hx : s.inner ⟨ℓ, hℓ⟩ = node H L ℓ ((level H L ℓ).length - 2) := by
    rw [hinv.inner ℓ hℓ hodd]
    congr 1
    omega
  refine ⟨⟨?count, ?below, hinv.inner, ?last, hinv.mutated, ?covers, ?onPath, ?offPath⟩,
    by omega⟩
  case count =>
    show s.count.toNat = _
    rw [hinv.count, hsucc, pow_succ]
    calc (level H L ℓ).length * 2 ^ ℓ
        = ((level H L ℓ).length + 1) / 2 * 2 * 2 ^ ℓ := by congr 1; omega
      _ = ((level H L ℓ).length + 1) / 2 * (2 ^ ℓ * 2) := by ring
  case below =>
    intro ℓ' hℓ'
    rcases Nat.lt_succ_iff_lt_or_eq.mp hℓ' with hlt | rfl
    · exact hinv.below ℓ' hlt
    · grind
  case last =>
    rw [hx, hinv.last,
      node_succ_of_lt (show 2 * ((level H L (ℓ + 1)).length - 1) + 1 < _ by grind)]
    congr 2 <;> grind
  case covers =>
    intro hpb
    subst hpb
    have hcov := hinv.covers rfl
    have hlt := div_two_pow_lt_length (H := H) (hi rfl) ℓ
    cases hm : matchh
    · obtain ⟨m, hml, hle, hmodd, hblock, -⟩ := hinv.offPath rfl hm
      have hnot : i / 2 ^ ℓ + 1 ≠ (level H L ℓ).length := fun h' => by
        have := hcov.mpr h'
        rw [hm] at this
        exact Bool.false_ne_true this
      simp only [Bool.false_or, Bool.true_and, decide_eq_true_iff]
      constructor
      · intro hmlℓ
        have hmℓ : m = ℓ := by rw [hmlℓ] at hml; exact_mod_cast hml.symm
        subst hmℓ
        omega
      · intro hcov'
        -- leaf `i` is under the left neighbour of `h`, the stored root over it
        have hleft : i / 2 ^ ℓ + 1 = L.length / 2 ^ ℓ := by omega
        rw [hml, block_unique hmodd hblock hodd hleft]
    · simp only [Bool.true_or, true_iff]
      have := hcov.mp hm
      omega
  case onPath =>
    intro hpb hm'
    subst hpb
    have hcov := hinv.covers rfl
    have hlt := div_two_pow_lt_length (H := H) (hi rfl) ℓ
    show (if true && matchh then s.branch ++ [s.inner ⟨ℓ, hℓ⟩]
      else if true && decide (s.matchlevel = ↑ℓ) then s.branch ++ [h] else s.branch) = _
    rw [branch_succ]
    cases hm : matchh
    · -- the stored root is over leaf `i`, and `h` is its sibling
      have hml : s.matchlevel = ℓ := by simpa [hm] using hm'
      obtain ⟨m, hml', -, hmodd, hblock, hbranch⟩ := hinv.offPath rfl hm
      have hmℓ : m = ℓ := by rw [hml] at hml'; exact_mod_cast hml'.symm
      subst hmℓ
      rw [if_neg (by simp), if_pos (by simp [hml]), hbranch,
        sibling_of_even (by omega) (by omega), hinv.last]
      congr 3
      grind
    · have := hcov.mp hm
      rw [if_pos (by rfl), hinv.onPath rfl hm, hx, sibling_of_odd (by omega) (by omega)]
      congr 3
      omega
  case offPath =>
    intro hpb hm'
    subst hpb
    have hm : matchh = false := by cases matchh <;> simp_all
    have hml : ¬ s.matchlevel = ℓ := by simpa [hm] using hm'
    obtain ⟨m, hml', hle, hmodd, hblock, hbranch⟩ := hinv.offPath rfl hm
    have hne : m ≠ ℓ := fun heq => hml (heq ▸ hml')
    refine ⟨m, hml', by omega, hmodd, hblock, ?_⟩
    show (if true && matchh then s.branch ++ [s.inner ⟨ℓ, hℓ⟩]
      else if true && decide (s.matchlevel = ↑ℓ) then s.branch ++ [h] else s.branch) = _
    rw [hm, if_neg (by simp), if_neg (by simp [hml]), hbranch]

omit [DecidableEq α] in
/-- One turn of the sweep at a level with an odd number of nodes, more than one: the last node
is hashed with itself, and the count gets the block of `2^ℓ` it stands for. -/
theorem SweepInv.double {pbranch : Bool} {i : Nat} {mutated₀ : Bool} {ℓ : Nat} {s : MerkleState α}
    {h : α} {matchh : Bool} (hinv : SweepInv H L pbranch i mutated₀ ℓ s h matchh) (hL : L ≠ [])
    (hi : pbranch = true → i < L.length) (hn : L.length ≤ 2 ^ 31) (hℓ : ℓ < 32)
    (hsize : (level H L ℓ).length = L.length / 2 ^ ℓ + 1 ∨
      (level H L ℓ).length = L.length / 2 ^ ℓ)
    (hodd : (level H L ℓ).length % 2 = 1) (hone : (level H L ℓ).length ≠ 1) :
    SweepInv H L pbranch i mutated₀ (ℓ + 1)
      { s with
        branch := if pbranch && matchh then s.branch ++ [h] else s.branch
        count := s.count + ((1 : UInt32) <<< ℓ.toUInt32) }
      (H h h) matchh ∧
    (level H L (ℓ + 1)).length = L.length / 2 ^ (ℓ + 1) + 1 := by
  have hsucc := length_level_succ (H := H) L ℓ
  have hdiv := div_two_pow_succ L.length ℓ
  have hidiv := div_two_pow_succ i ℓ
  -- a level with three nodes or more is below bit `31`
  have hℓ1 : ℓ + 1 < 32 := by
    have h2 := (lt_length_level_iff (H := H) L ℓ 2).mp (by omega)
    have : 2 ^ (ℓ + 1) < 2 ^ 31 := by rw [pow_succ]; omega
    have := (Nat.pow_lt_pow_iff_right (by norm_num)).mp this
    omega
  refine ⟨⟨?count, ?below, hinv.inner, ?last, hinv.mutated, ?covers, ?onPath, ?offPath⟩,
    by omega⟩
  case count =>
    show (s.count + (1 : UInt32) <<< ℓ.toUInt32).toNat = _
    have hcnt : (level H L (ℓ + 1)).length * 2 ^ (ℓ + 1) =
        (level H L ℓ).length * 2 ^ ℓ + 2 ^ ℓ := by
      rw [hsucc, pow_succ]
      calc ((level H L ℓ).length + 1) / 2 * (2 ^ ℓ * 2)
          = ((level H L ℓ).length + 1) / 2 * 2 * 2 ^ ℓ := by ring
        _ = ((level H L ℓ).length + 1) * 2 ^ ℓ := by congr 1; omega
        _ = (level H L ℓ).length * 2 ^ ℓ + 2 ^ ℓ := add_one_mul _ _
    rw [UInt32.toNat_add, hinv.count, toNat_one_shiftLeft hℓ, ← hcnt]
    exact Nat.mod_eq_of_lt (length_level_mul_lt_word hL hn hℓ1)
  case below =>
    intro ℓ' hℓ'
    rcases Nat.lt_succ_iff_lt_or_eq.mp hℓ' with hlt | rfl
    · exact hinv.below ℓ' hlt
    · omega
  case last =>
    rw [hinv.last, node_succ_of_eq (show 2 * ((level H L (ℓ + 1)).length - 1) + 1 = _ by omega)]
    congr 2 <;> omega
  case covers =>
    intro hpb
    have hlt := div_two_pow_lt_length (H := H) (hi hpb) ℓ
    rw [hinv.covers hpb]
    omega
  case onPath =>
    intro hpb hm
    have hcov := (hinv.covers hpb).mp hm
    show (if pbranch && matchh then s.branch ++ [h] else s.branch) = _
    rw [if_pos (by simp [hpb, hm]), hinv.onPath hpb hm, branch_succ,
      sibling_of_last (by omega) (by omega), hinv.last]
    congr 3
    omega
  case offPath =>
    intro hpb hm
    obtain ⟨m, hml, hle, hmodd, hblock, hbranch⟩ := hinv.offPath hpb hm
    -- the stored root over leaf `i` is above `ℓ`: at `ℓ` it would be the last node
    have hnot : i / 2 ^ ℓ + 1 ≠ (level H L ℓ).length := fun h' => by
      have := (hinv.covers hpb).mpr h'
      rw [hm] at this
      exact Bool.false_ne_true this
    have hne : m ≠ ℓ := by
      rintro rfl
      omega
    refine ⟨m, hml, by omega, hmodd, hblock, ?_⟩
    show (if pbranch && matchh then s.branch ++ [h] else s.branch) = _
    rw [if_neg (by simp [hm]), hbranch]

/-- The sweep's climb ends at the next level with an odd number of nodes. -/
theorem SweepInv.climb_run {pbranch : Bool} {i : Nat} {mutated₀ : Bool} {ℓ : Nat}
    {s : MerkleState α} {h : α} {matchh : Bool} (hinv : SweepInv H L pbranch i mutated₀ ℓ s h matchh)
    (hL : L ≠ []) (hi : pbranch = true → i < L.length)
    (hsize : (level H L ℓ).length = L.length / 2 ^ ℓ + 1) :
    ∃ (s' : MerkleState α) (h' : α) (matchh' : Bool) (ℓ' : Fin 32),
      climb H pbranch false s h matchh ℓ = .ok (s', h', matchh', ℓ') ∧
      SweepInv H L pbranch i mutated₀ ℓ' s' h' matchh' ∧
      (level H L ℓ').length = L.length / 2 ^ ℓ'.val + 1 ∧ (level H L ℓ').length % 2 = 1 := by
  fun_induction climb H pbranch false s h matchh ℓ with
  | case1 s h matchh ℓ hℓ hclear =>
    rename_i ih
    have heven : (level H L ℓ).length % 2 = 0 := by
      have := (and_one_shiftLeft_eq_zero s.count hℓ).mp hclear
      rwa [hinv.count, Nat.mul_div_cancel _ (Nat.two_pow_pos ℓ)] at this
    obtain ⟨hinv', hsize'⟩ := hinv.step hi hsize hℓ heven
    exact ih hinv' hsize'
  | case2 s h matchh ℓ hℓ hset =>
    have hodd : (level H L ℓ).length % 2 = 1 := by
      have := (and_one_shiftLeft_eq_zero s.count hℓ).not.mp hset
      rw [hinv.count, Nat.mul_div_cancel _ (Nat.two_pow_pos ℓ)] at this
      omega
    exact ⟨s, h, matchh, ⟨ℓ, hℓ⟩, rfl, hinv, hsize, hodd⟩
  | case3 s h matchh ℓ hℓ =>
    -- a count of blocks of `2^ℓ` with `ℓ ≥ 32` does not fit a word
    have hword : (level H L ℓ).length * 2 ^ ℓ < 2 ^ 32 := hinv.count ▸ UInt32.toNat_lt s.count
    have hpos := length_level_pos (H := H) hL ℓ
    have h32 : 2 ^ 32 ≤ 2 ^ ℓ := Nat.pow_le_pow_right (by norm_num) (by omega)
    have : 2 ^ ℓ ≤ (level H L ℓ).length * 2 ^ ℓ := Nat.le_mul_of_pos_left _ hpos
    omega

omit [DecidableEq α] in
/-- The sweep stops where the count is one block: at the level with one node. -/
theorem SweepInv.count_eq_iff {pbranch : Bool} {i : Nat} {mutated₀ : Bool} {ℓ : Nat}
    {s : MerkleState α} {h : α} {matchh : Bool} (hinv : SweepInv H L pbranch i mutated₀ ℓ s h matchh)
    (hℓ : ℓ < 32) : s.count = (1 : UInt32) <<< ℓ.toUInt32 ↔ (level H L ℓ).length = 1 := by
  rw [← UInt32.toNat_inj, hinv.count, toNat_one_shiftLeft hℓ]
  constructor
  · intro hone
    exact Nat.eq_of_mul_eq_mul_right (Nat.two_pow_pos ℓ) (hone.trans (one_mul _).symm)
  · intro hone
    rw [hone, one_mul]

/-- The sweep ends at the level with one node, whose node is the root. -/
theorem SweepInv.run {pbranch : Bool} {i : Nat} {mutated₀ : Bool} {ℓ : Fin 32}
    {s : MerkleState α} {h : α} {matchh : Bool} (hinv : SweepInv H L pbranch i mutated₀ ℓ s h matchh)
    (hL : L ≠ []) (hi : pbranch = true → i < L.length) (hn : L.length ≤ 2 ^ 31)
    (hsize : (level H L ℓ).length = L.length / 2 ^ ℓ.val + 1 ∨
      (level H L ℓ).length = L.length / 2 ^ ℓ.val)
    (hodd : (level H L ℓ).length % 2 = 1) :
    ∃ (s' : MerkleState α) (d : Nat), sweep H pbranch s h matchh ℓ = .ok (s', root H L) ∧
      s'.mutated = mutated₀ ∧ (level H L d).length = 1 ∧ (∀ ℓ' < d, 1 < (level H L ℓ').length) ∧
      (pbranch = true → s'.branch = MerkleTree.branch H L i d) := by
  fun_induction sweep H pbranch s h matchh ℓ with
  | case1 s h matchh ℓ hdone =>
    have hone := (hinv.count_eq_iff ℓ.isLt).mp hdone
    refine ⟨s, ℓ, ?_, hinv.mutated, hone, hinv.below, fun hpb => hinv.onPath hpb ?_⟩
    · rw [root_eq_node hone hinv.below, hinv.last, hone]
    · -- leaf `i` is under the one node
      have hlt := div_two_pow_lt_length (H := H) (hi hpb) ℓ
      rw [hinv.covers hpb]
      grind
  | case2 s h matchh ℓ hnot s' e hc =>
    -- the climb does not fail
    obtain ⟨hinv', hsize'⟩ :=
      hinv.double hL hi hn ℓ.isLt hsize hodd ((hinv.count_eq_iff ℓ.isLt).not.mp hnot)
    obtain ⟨_, _, _, _, hc', -⟩ := hinv'.climb_run hL hi hsize'
    cases hc.symm.trans hc'
  | case3 s h matchh ℓ hnot s' s'' h'' matchh'' ℓ'' hc ih =>
    obtain ⟨hinv', hsize'⟩ :=
      hinv.double hL hi hn ℓ.isLt hsize hodd ((hinv.count_eq_iff ℓ.isLt).not.mp hnot)
    obtain ⟨_, _, _, _, hc', hinv'', hsize'', hodd''⟩ := hinv'.climb_run hL hi hsize'
    cases hc.symm.trans hc'
    exact ih hinv'' (Or.inl hsize'') hodd''

/-- `MerkleComputation` on `1` to `2^31` leaves gives the root of the tree; `mutated` says
whether two complete siblings are equal; the branch of the leaf at `branchpos`, kept when
`pbranch`, is its path up to the level with one node. -/
theorem MerkleComputation_spec (hL : L ≠ []) (hn : L.length ≤ 2 ^ 31) (pbranch : Bool)
    (branchpos : UInt32) (hi : pbranch = true → branchpos.toNat < L.length) :
    ∃ (mutated : Bool) (branch : List α) (d : Nat),
      MerkleComputation H L pbranch branchpos = .ok (root H L, mutated, branch) ∧
      (mutated = true ↔ EqualCompleteSiblings H L) ∧
      (level H L d).length = 1 ∧ (∀ ℓ < d, 1 < (level H L ℓ).length) ∧
      (pbranch = true → branch = MerkleTree.branch H L branchpos.toNat d) := by
  obtain ⟨s, hfold, hinv⟩ :=
    foldlM_leafStep (H := H) (L := L) pbranch branchpos (by omega) L.length le_rfl
  rw [List.take_length] at hfold
  have hcount : s.count ≠ 0 := fun h0 => by
    have := hinv.count
    rw [h0, UInt32.toNat_zero] at this
    exact hL (List.length_eq_zero_iff.mp this.symm)
  obtain ⟨ℓ, hlsb, hbit, hlow⟩ :=
    lowestSetBit_spec hcount (fun ℓ (h : ℓ < 0) => absurd h (Nat.not_lt_zero ℓ))
  rw [hinv.count] at hbit hlow
  obtain ⟨hsw, hsize⟩ := hinv.sweepInv hi ℓ hbit hlow
  obtain ⟨s', d, hsweep, hmut, hd, hbelow, hbranch⟩ :=
    hsw.run hL hi hn (Or.inr hsize) (by rw [hsize]; exact hbit)
  refine ⟨s'.mutated, s'.branch, d, ?_, by rw [hmut]; exact hinv.mutated, hd, hbelow, hbranch⟩
  obtain ⟨a, l, rfl⟩ := List.exists_cons_of_ne_nil hL
  simp only [MerkleComputation, hfold, Except.ok_bind, hlsb, hsweep]
  rfl

end Leaves

/-! ## Hashing up a branch -/

section Branch

variable {α : Type} [Inhabited α] (H : α → α → α)

theorem toNat_shiftRight_one (x : UInt32) : (x >>> 1).toNat = x.toNat / 2 := by
  rw [UInt32.toNat_shiftRight]
  simp [Nat.shiftRight_eq_div_pow]

theorem and_one_ne_zero_iff (x : UInt32) : x &&& 1 ≠ 0 ↔ x.toNat % 2 = 1 := by
  rw [ne_eq, ← UInt32.toNat_inj, UInt32.toNat_and, UInt32.toNat_one, Nat.and_one_is_mod,
    UInt32.toNat_zero]
  omega

omit [Inhabited α] in
/-- `ComputeMerkleRootFromBranch` hashes the leaf up the branch, reading the index's bits from
the bottom. -/
theorem ComputeMerkleRootFromBranch_eq_foldPath (leaf : α) (b : List α) (nIndex : UInt32) :
    ComputeMerkleRootFromBranch H leaf b nIndex = foldPath H leaf b nIndex.toNat := by
  unfold ComputeMerkleRootFromBranch
  induction b generalizing leaf nIndex with
  | nil => rfl
  | cons x b ih =>
    simp only [List.foldl_cons]
    rw [ih, foldPath, toNat_shiftRight_one]
    exact congrArg (foldPath H · b _) (if_congr (and_one_ne_zero_iff nIndex) rfl rfl)

/-- For an index other than `-1`, `CAuxPow::CheckMerkleBranch` hashes the leaf up the branch the
same way. -/
theorem CheckMerkleBranch_eq_foldPath (hash : α) (b : List α) (i : Nat) :
    CAuxPow.CheckMerkleBranch H hash b i = foldPath H hash b i := by
  unfold CAuxPow.CheckMerkleBranch
  rw [if_neg (by omega)]
  induction b generalizing hash i with
  | nil => rfl
  | cons x b ih =>
    have hodd : (i : Int) % 2 = 1 ↔ i % 2 = 1 := by omega
    have hhalf : (i : Int) >>> (1 : Nat) = ((i / 2 : Nat) : Int) := by
      rw [Int.shiftRight_eq_div_pow]
      omega
    simp only [List.foldl_cons]
    rw [hhalf, ih, foldPath]
    exact congrArg (foldPath H · b _) (if_congr hodd rfl rfl)

end Branch

section Correct

variable {α : Type} [Inhabited α] [DecidableEq α] {H : α → α → α} {L : List α}

/-- On `1` to `2^31` leaves, `ComputeMerkleRoot` gives the root of the tree and, for an
injective pair hash, `mutated` iff two siblings of the tree are equal; hashing any leaf up its
`ComputeMerkleBranch`, by `ComputeMerkleRootFromBranch` or by `CAuxPow::CheckMerkleBranch`,
gives the root. -/
theorem merkle_correct (hL : L ≠ []) (hn : L.length ≤ 2 ^ 31) :
    ∃ mutated, ComputeMerkleRoot H L = .ok (root H L, mutated) ∧
      (Function.Injective2 H → (mutated = true ↔ EqualSiblings H L)) ∧
      ∀ i < L.length, ∃ branch, ComputeMerkleBranch H L (UInt32.ofNat i) = .ok branch ∧
        ComputeMerkleRootFromBranch H (L.getD i default) branch (UInt32.ofNat i) = root H L ∧
        CAuxPow.CheckMerkleBranch H (L.getD i default) branch i = root H L := by
  obtain ⟨mutated, _, _, hcomp, hmut, -⟩ :=
    MerkleComputation_spec (H := H) hL hn false 0xFFFFFFFF (fun h => absurd h Bool.false_ne_true)
  refine ⟨mutated, by rw [ComputeMerkleRoot, hcomp]; rfl,
    fun hH => hmut.trans (equalSiblings_iff hH).symm, fun i hi => ?_⟩
  have hidx : (UInt32.ofNat i).toNat = i := UInt32.toNat_ofNat_of_lt' (by
    have : UInt32.size = 2 ^ 32 := rfl
    omega)
  obtain ⟨_, branch, d, hcomp', -, hd, hbelow, hbranch⟩ :=
    MerkleComputation_spec (H := H) hL hn true (UInt32.ofNat i) (fun _ => by rw [hidx]; exact hi)
  have hpath : branch = MerkleTree.branch H L i d := hidx ▸ hbranch rfl
  refine ⟨branch, by rw [ComputeMerkleBranch, hcomp']; rfl, ?_, ?_⟩
  · rw [ComputeMerkleRootFromBranch_eq_foldPath, hidx, hpath, foldPath_branch hi hd hbelow]
  · rw [CheckMerkleBranch_eq_foldPath, hpath, foldPath_branch hi hd hbelow]

theorem merkle_correct_threeLeaves :
    let H := fun a b : Nat => a + 2 * b
    let L := [1, 2, 3]
    L ≠ [] ∧ L.length ≤ 2 ^ 31 ∧
    ∃ mutated, ComputeMerkleRoot H L = .ok (root H L, mutated) ∧
      (Function.Injective2 H → (mutated = true ↔ EqualSiblings H L)) ∧
      ∀ i < L.length, ∃ branch, ComputeMerkleBranch H L (UInt32.ofNat i) = .ok branch ∧
        ComputeMerkleRootFromBranch H (L.getD i default) branch (UInt32.ofNat i) = root H L ∧
        CAuxPow.CheckMerkleBranch H (L.getD i default) branch i = root H L := by
  intro H L
  exact ⟨by decide, by decide, merkle_correct (by decide) (by decide)⟩

end Correct

/-! ## Past `2^31` leaves -/

section Overflow

variable {α : Type} [Inhabited α] [DecidableEq α] (H : α → α → α)

omit [Inhabited α] in
/-- A sweep from the count `2^31 + 2^ℓ` at level `ℓ ≤ 30` doubles its way up to bit `31`, where
the count has reached `2^32` and wrapped to `0`, and the climb goes past the word. -/
theorem sweep_past_word {pbranch : Bool} {s : MerkleState α} {h : α} {matchh : Bool}
    {level : Fin 32} (hc : s.count.toNat = 2 ^ 31 + 2 ^ level.val) (hl : level.val ≤ 30) :
    sweep H pbranch s h matchh level = .error "shift exponent too large" := by
  fun_induction sweep H pbranch s h matchh level with
  | case1 s h matchh ℓ hdone =>
    have := congrArg UInt32.toNat hdone
    rw [hc, toNat_one_shiftLeft ℓ.isLt] at this
    omega
  | case2 s h matchh ℓ hnot s' e hclimb =>
    rcases Nat.lt_or_ge ℓ.val 30 with hlt | hge
    · -- below bit `30` the climb stops at the next bit
      have hbit : s'.count.toNat / 2 ^ (ℓ.val + 1) % 2 = 1 := (count_double_of_lt hlt hc).1
      cases hclimb.symm.trans (climb_of_bit H (by omega) hbit)
    · -- at bit `30` the count wraps to `0` and the climb goes past bit `31`
      have hzero : s'.count = 0 := count_double_thirty (by omega) hc
      rw [show ℓ.val + 1 = 31 by omega] at hclimb
      obtain rfl := Except.error.inj (hclimb.symm.trans (climb_thirtyOne_of_count_zero H hzero))
      rfl
  | case3 s h matchh ℓ hnot s' s'' h'' matchh'' ℓ'' hclimb ih =>
    rcases Nat.lt_or_ge ℓ.val 30 with hlt | hge
    · obtain ⟨hbit, hcount⟩ := count_double_of_lt hlt hc
      cases hclimb.symm.trans (climb_of_bit H (s := s') (by omega) hbit)
      exact ih hcount (by show ℓ.val + 1 ≤ 30; omega)
    · have hzero : s'.count = 0 := count_double_thirty (by omega) hc
      rw [show ℓ.val + 1 = 31 by omega] at hclimb
      cases hclimb.symm.trans (climb_thirtyOne_of_count_zero H hzero)

variable {H} in
/-- On `2^31 + 1` leaves the sweep starts from the count `2^31 + 2^0` at bit `0`, and goes past
the word. -/
theorem ComputeMerkleRoot_of_length_eq {L : List α} (hL : L.length = 2 ^ 31 + 1) :
    ComputeMerkleRoot H L = .error "shift exponent too large" := by
  obtain ⟨s, hfold, hinv⟩ :=
    foldlM_leafStep (H := H) (L := L) false 0xFFFFFFFF (by omega) L.length le_rfl
  rw [List.take_length] at hfold
  have hcount : s.count.toNat = 2 ^ 31 + 1 := hinv.count.trans hL
  have hne : s.count ≠ 0 := fun h0 => by
    rw [h0, UInt32.toNat_zero] at hcount
    omega
  obtain ⟨ℓ, hlsb, -, hlow⟩ :=
    lowestSetBit_spec hne (fun ℓ (h : ℓ < 0) => absurd h (Nat.not_lt_zero ℓ))
  -- bit `0` of the count is set, so it is the lowest
  have hℓ : ℓ.val = 0 := by
    by_contra hne0
    have := hlow 0 (Nat.pos_of_ne_zero hne0)
    rw [hcount] at this
    omega
  obtain ⟨a, l, rfl⟩ :=
    List.exists_cons_of_ne_nil (List.ne_nil_of_length_pos (show 0 < L.length by omega))
  simp only [ComputeMerkleRoot, MerkleComputation, hfold, Except.ok_bind, hlsb]
  rw [sweep_past_word H (show s.count.toNat = 2 ^ 31 + 2 ^ ℓ.val by rw [hcount, hℓ]; rfl)
    (show ℓ.val ≤ 30 by omega)]
  rfl

theorem ComputeMerkleRoot_twoPow31_succ :
    ComputeMerkleRoot (fun (_ _ : Unit) => ()) (List.replicate (2 ^ 31 + 1) ()) =
      .error "shift exponent too large" :=
  ComputeMerkleRoot_of_length_eq List.length_replicate

end Overflow

end Huntercore
