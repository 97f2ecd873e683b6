import Mathlib

/-!
# The difficulty retarget

`GetNextWorkRequired` of `pow.cpp`: every block retargets its algorithm's difficulty from the
last two blocks of that algorithm, moving the target `t` towards the target spacing `T` by
the formula `t * ((n - 1) T + 2 S) / ((n + 1) T)`, where `S` is the spacing of those two blocks
and `n` the adjustment interval. The source computes it in 256-bit words (`arith_uint256`) as
`t + 2 p b + 2 r b / a` with `t = p a + r`, `a = (n + 1) T` and `b = S - T`, so that no product
of `t` with a spacing is formed, and for `b < 0` as `t - (2 p (-b) + 2 r (-b) / a)`.

The words are `BitVec 256`. A product with an `int64_t` goes through `operator*(uint32_t)`
(the standard conversion wins over the converting constructor), so such a factor is taken
modulo `2^32` (`mulU32`); a quotient goes through `base_uint (uint64_t)` (`ofInt64`).

For `b ≥ 0` the code computes the floor of the formula (`retargetSteps_nonneg`), for `b < 0`
its ceiling, since it subtracts a floored quotient (`retargetSteps_neg`). Where the limit
stretched by the longest spacing two `uint32` times allow stays below `2^256`
(`PowParams.NoWrap`, which holds on the main network) no intermediate wraps
(`retargetSteps_exact`, `GetNextWorkRequired_retarget`); the test network's scrypt limit is too
large for that (`retargetSteps_wraps_testNet`). At a target of one and a spacing below `T` the
ceiling is one and the floor zero, and the two encode differently
(`GetNextWorkRequired_ceil_mainNet`).
-/

namespace Huntercore

/-! ## 256-bit words and the compact encoding -/

/-- `arith_uint256`. -/
abbrev arith_uint256 := BitVec 256

/-- `base_uint (uint64_t)` of an `int64_t`: the conversion to `uint64_t` is modulo `2^64`. -/
def ofInt64 (x : Int) : arith_uint256 := BitVec.ofNat 256 (x % 2 ^ 64).toNat

/-- The conversion of an `int64_t` to `uint32_t`, modulo `2^32`. -/
def toUInt32 (x : Int) : UInt32 := UInt32.ofNat (x % 2 ^ 32).toNat

/-- `operator* (const base_uint&, uint32_t)`. -/
def mulU32 (x : arith_uint256) (b : UInt32) : arith_uint256 := x * BitVec.ofNat 256 b.toNat

/-- `bits ()`: the position of the highest set bit, plus one; zero for zero. The source finds
it limb by limb from the top. -/
def bits (x : arith_uint256) : Nat := if x.toNat = 0 then 0 else x.toNat.log2 + 1

/-- `GetLow64 ()`. -/
def GetLow64 (x : arith_uint256) : UInt64 := UInt64.ofNat x.toNat

/-- `GetCompact (false)`: three bytes of mantissa below a byte count. Its assertions hold of
every 256-bit word: the mantissa keeps below `2^23` and the size below `34`. -/
def GetCompact (x : arith_uint256) : UInt32 :=
  let nSize := (bits x + 7) / 8
  let nCompact : UInt32 :=
    if nSize ≤ 3 then (GetLow64 x <<< (UInt64.ofNat (8 * (3 - nSize)))).toUInt32
    else (GetLow64 (x >>> (8 * (nSize - 3)))).toUInt32
  -- a mantissa with the sign bit set moves one byte down
  let (nCompact, nSize) :=
    if nCompact &&& 0x00800000 ≠ 0 then (nCompact >>> 8, nSize + 1) else (nCompact, nSize)
  nCompact ||| (UInt32.ofNat nSize <<< 24)

/-- `SetCompact (nCompact)`, without the negative and overflow flags, which
`GetNextWorkRequired` does not ask for. -/
def SetCompact (nCompact : UInt32) : arith_uint256 :=
  let nSize := (nCompact >>> 24).toNat
  let nWord := nCompact &&& 0x007fffff
  if nSize ≤ 3 then BitVec.ofNat 256 (nWord >>> UInt32.ofNat (8 * (3 - nSize))).toNat
  else BitVec.ofNat 256 nWord.toNat <<< (8 * (nSize - 3))

example : GetCompact 1 = 0x01010000 := by decide
example : SetCompact 0x01010000 = 1 := by decide

/-! ## Parameters and the chain -/

/-- `PowAlgo`. -/
inductive PowAlgo
  | SHA256D
  | SCRYPT
  deriving DecidableEq, Repr

/-- `NUM_ALGOS`. -/
def NUM_ALGOS : Int := 2

/-- The part of `Consensus::Params` that `GetNextWorkRequired` reads. `powLimit` is a
`uint256`, read as a number. -/
structure PowParams where
  powLimit : PowAlgo → Nat
  fPowNoRetargeting : Bool
  nPowTargetSpacing : Int
  nPowTargetTimespan : Int

/-- `DifficultyAdjustmentInterval ()` (`int64_t` division). -/
def PowParams.DifficultyAdjustmentInterval (params : PowParams) : Int :=
  params.nPowTargetTimespan.tdiv params.nPowTargetSpacing

/-- The proof-of-work parameters of the main network. -/
def MainNetPow : PowParams where
  powLimit
    | .SHA256D => 2 ^ 224 - 1
    | .SCRYPT => 2 ^ 236 - 1
  fPowNoRetargeting := false
  nPowTargetSpacing := 60 * NUM_ALGOS
  nPowTargetTimespan := 60 * NUM_ALGOS * 2016

/-- The proof-of-work parameters of the test network. -/
def TestNetPow : PowParams where
  powLimit
    | .SHA256D => 2 ^ 232 - 1
    | .SCRYPT => 2 ^ 244 - 1
  fPowNoRetargeting := false
  nPowTargetSpacing := 60 * NUM_ALGOS
  nPowTargetTimespan := 60 * NUM_ALGOS * 2016

/-- What `GetNextWorkRequired` reads of a `CBlockIndex`. -/
structure CBlockIndex where
  algo : PowAlgo
  nBits : UInt32
  nTime : UInt32

/-- `GetLastBlockIndex (pindex, algo)` on a block and its ancestors, newest first: the last block
of the algorithm with its ancestors, or nothing (`nullptr`). -/
def GetLastBlockIndex (chain : List CBlockIndex) (algo : PowAlgo) : List CBlockIndex :=
  chain.dropWhile (·.algo ≠ algo)

/-! ## The retarget -/

/-- `a = (nInterval + 1) T`, the divisor of the retarget. -/
def PowParams.retargetA (params : PowParams) : Int :=
  (params.DifficultyAdjustmentInterval + 1) * params.nPowTargetSpacing

/-- The words the retarget computes from the last target `bnNew` and the spacing
`nActualSpacing`, with `a = (nInterval + 1) T` and `b = S - T`. -/
structure RetargetSteps where
  p : arith_uint256
  r : arith_uint256
  pa : arith_uint256
  pb : arith_uint256
  rb : arith_uint256
  result : arith_uint256

/-- The retarget of `GetNextWorkRequired`, before the limit: for `b ≥ 0`
`bnNew + (2 p b + 2 r b / a)`, otherwise `bnNew - (2 p (-b) + 2 r (-b) / a)`. -/
def retargetSteps (params : PowParams) (bnNew : arith_uint256) (nActualSpacing : Int) :
    RetargetSteps :=
  let a := params.retargetA
  let b := nActualSpacing - params.nPowTargetSpacing
  let p := bnNew / ofInt64 a
  let pa := mulU32 p (toUInt32 a)
  let r := bnNew - pa
  -- division is not preserved under two's complement: the sign of `b` is split off
  let c := if b ≥ 0 then b else -b
  let pb := mulU32 (2 * p) (toUInt32 c)
  let rb := mulU32 (2 * r) (toUInt32 c)
  let result := if b ≥ 0 then bnNew + (pb + rb / ofInt64 a) else bnNew - (pb + rb / ofInt64 a)
  ⟨p, r, pa, pb, rb, result⟩

/-- `GetNextWorkRequired (pindexLast, pblock, params)` for a block of algorithm `algo` on top of
`pindexLast`, whose ancestors are `ancestors`, newest first. -/
def GetNextWorkRequired (pindexLast : CBlockIndex) (ancestors : List CBlockIndex) (algo : PowAlgo)
    (params : PowParams) : UInt32 :=
  let bnProofOfWorkLimit : arith_uint256 := BitVec.ofNat 256 (params.powLimit algo)
  let nProofOfWorkLimit := GetCompact bnProofOfWorkLimit
  if params.fPowNoRetargeting then pindexLast.nBits
  else
    match GetLastBlockIndex (pindexLast :: ancestors) algo with
    | pindexPrev :: pprev :: rest =>
      match GetLastBlockIndex (pprev :: rest) algo with
      | pindexPrevPrev :: _ :: _ =>
        let nActualSpacing : Int := (pindexPrev.nTime.toNat : Int) - pindexPrevPrev.nTime.toNat
        let bnNew := (retargetSteps params (SetCompact pindexPrev.nBits) nActualSpacing).result
        let bnNew := if bnNew > bnProofOfWorkLimit then bnProofOfWorkLimit else bnNew
        GetCompact bnNew
      -- the second block of the algorithm
      | _ => nProofOfWorkLimit
    -- the first block of the algorithm
    | _ => nProofOfWorkLimit

/-! ## Division facts

The identities the split of `t = p a + r` rests on, over `Nat`. -/

/-- The split computes `2 t c / a` whole. -/
theorem split_div_eq (t A C : Nat) (hA : 0 < A) :
    2 * (t / A) * C + 2 * (t % A) * C / A = 2 * t * C / A := by
  have h : 2 * t * C = 2 * (t % A) * C + A * (2 * (t / A) * C) := by
    nth_rewrite 1 [← Nat.div_add_mod t A]
    ring
  rw [h, Nat.add_mul_div_left _ _ hA]
  omega

/-- Adding the quotient is the floor of the formula. -/
theorem add_div_eq_floor (t A C : Nat) (hA : 0 < A) : t + 2 * t * C / A = t * (A + 2 * C) / A := by
  have h : t * (A + 2 * C) = 2 * t * C + A * t := by ring
  rw [h, Nat.add_mul_div_left _ _ hA]
  omega

/-- Subtracting a floored quotient is the ceiling of the formula. -/
theorem sub_div_eq_ceil (t A C : Nat) (hC : 2 * C < A) :
    t - 2 * t * C / A = (t * (A - 2 * C) + A - 1) / A := by
  have hA : 0 < A := by omega
  -- `2 t C = q A + ρ` with `q ≤ t`, so `t (A - 2 C) = (t - q) A - ρ`
  have hq := Nat.div_add_mod' (2 * t * C) A
  have hρ := Nat.mod_lt (2 * t * C) hA
  have hle : t * (2 * C) ≤ t * A := Nat.mul_le_mul_left t hC.le
  have hsub : t * (A - 2 * C) = t * A - t * (2 * C) := Nat.mul_sub t A (2 * C)
  have h2 : 2 * t * C = t * (2 * C) := by ring
  symm
  apply Nat.div_eq_of_lt_le
  · rw [Nat.sub_mul]
    omega
  · rw [Nat.add_mul, Nat.sub_mul]
    omega

/-! ## From words to numbers -/

theorem toNat_ofInt64 {x : Int} (h0 : 0 ≤ x) (h : x < 2 ^ 64) : (ofInt64 x).toNat = x.toNat := by
  have hx : x.toNat < 2 ^ 256 := lt_trans (by omega : x.toNat < 2 ^ 64) (by norm_num)
  rw [ofInt64, BitVec.toNat_ofNat, Int.emod_eq_of_lt h0 h, Nat.mod_eq_of_lt hx]

theorem toNat_toUInt32 {x : Int} (h0 : 0 ≤ x) (h : x < 2 ^ 32) : (toUInt32 x).toNat = x.toNat := by
  rw [toUInt32, UInt32.toNat_ofNat', Int.emod_eq_of_lt h0 h]
  exact Nat.mod_eq_of_lt (by omega)

theorem toNat_mulU32 (x : arith_uint256) (b : UInt32) (h : x.toNat * b.toNat < 2 ^ 256) :
    (mulU32 x b).toNat = x.toNat * b.toNat := by
  have hb : b.toNat < 2 ^ 256 := lt_trans b.toNat_lt (by norm_num)
  rw [mulU32, BitVec.toNat_mul, BitVec.toNat_ofNat, Nat.mod_eq_of_lt hb, Nat.mod_eq_of_lt h]

theorem toNat_two_mul (x : arith_uint256) (h : 2 * x.toNat < 2 ^ 256) : (2 * x).toNat = 2 * x.toNat := by
  rw [BitVec.toNat_mul, Nat.mod_eq_of_lt (by simpa using h)]
  rfl

/-- The factor `c = |b|` reaches the products whole. -/
theorem toNat_toUInt32_abs {b : Int} (h : b.natAbs < 2 ^ 32) :
    (toUInt32 (if b ≥ 0 then b else -b)).toNat = b.natAbs := by
  split
  · rw [toNat_toUInt32 (by omega) (by omega)]
    omega
  · rw [toNat_toUInt32 (by omega) (by omega)]
    omega

/-! ## The retarget in numbers -/

/-- The retarget formula `t ((n - 1) T + 2 S) / ((n + 1) T)` in exact arithmetic, with
`a = (n + 1) T` and `b = S - T` (so `a + 2 b = (n - 1) T + 2 S`), rounded down for `b ≥ 0` and
up for `b < 0`, as the code rounds it. -/
def retargetExact (t : Nat) (a b : Int) : Nat :=
  if 0 ≤ b then t * (a + 2 * b).toNat / a.toNat
  else (t * (a + 2 * b).toNat + a.toNat - 1) / a.toNat

section Retarget

variable (params : PowParams) (bnNew : arith_uint256) (S : Int)

theorem retargetSteps_p : (retargetSteps params bnNew S).p = bnNew / ofInt64 params.retargetA := rfl

theorem retargetSteps_pa :
    (retargetSteps params bnNew S).pa =
      mulU32 (retargetSteps params bnNew S).p (toUInt32 params.retargetA) := rfl

theorem retargetSteps_r :
    (retargetSteps params bnNew S).r = bnNew - (retargetSteps params bnNew S).pa := rfl

theorem retargetSteps_pb :
    (retargetSteps params bnNew S).pb = mulU32 (2 * (retargetSteps params bnNew S).p)
      (toUInt32 (if S - params.nPowTargetSpacing ≥ 0 then S - params.nPowTargetSpacing
        else -(S - params.nPowTargetSpacing))) := rfl

theorem retargetSteps_rb :
    (retargetSteps params bnNew S).rb = mulU32 (2 * (retargetSteps params bnNew S).r)
      (toUInt32 (if S - params.nPowTargetSpacing ≥ 0 then S - params.nPowTargetSpacing
        else -(S - params.nPowTargetSpacing))) := rfl

theorem retargetSteps_result :
    (retargetSteps params bnNew S).result =
      if S - params.nPowTargetSpacing ≥ 0 then
        bnNew + ((retargetSteps params bnNew S).pb + (retargetSteps params bnNew S).rb / ofInt64 params.retargetA)
      else bnNew - ((retargetSteps params bnNew S).pb +
        (retargetSteps params bnNew S).rb / ofInt64 params.retargetA) := rfl

-- the divisor is at least two and fits an unsigned 32-bit word
variable {params} (hA : 2 ≤ params.retargetA) (hA' : params.retargetA < 2 ^ 32)
include hA hA'

/-- `p = t / a`, `p a` and `r = t % a` are exact. -/
theorem retargetSteps_split :
    (retargetSteps params bnNew S).p.toNat = bnNew.toNat / params.retargetA.toNat ∧
      (retargetSteps params bnNew S).pa.toNat =
        bnNew.toNat / params.retargetA.toNat * params.retargetA.toNat ∧
      (retargetSteps params bnNew S).r.toNat = bnNew.toNat % params.retargetA.toNat := by
  have hp : (retargetSteps params bnNew S).p.toNat = bnNew.toNat / params.retargetA.toNat := by
    rw [retargetSteps_p, BitVec.toNat_udiv, toNat_ofInt64 (by omega) (by omega)]
  have hle := Nat.div_mul_le_self bnNew.toNat params.retargetA.toNat
  have hpa : (retargetSteps params bnNew S).pa.toNat =
      bnNew.toNat / params.retargetA.toNat * params.retargetA.toNat := by
    rw [retargetSteps_pa, toNat_mulU32, hp, toNat_toUInt32 (by omega) hA']
    rw [hp, toNat_toUInt32 (by omega) hA']
    exact lt_of_le_of_lt hle bnNew.isLt
  refine ⟨hp, hpa, ?_⟩
  -- `r = t - p a` does not wrap, since `p a ≤ t`
  rw [retargetSteps_r, BitVec.toNat_sub, hpa]
  have ht := bnNew.isLt
  have hmod : 2 ^ 256 - bnNew.toNat / params.retargetA.toNat * params.retargetA.toNat + bnNew.toNat =
      2 ^ 256 + (bnNew.toNat - bnNew.toNat / params.retargetA.toNat * params.retargetA.toNat) := by omega
  rw [hmod, Nat.add_mod_left, Nat.mod_eq_of_lt (by omega)]
  have := Nat.div_add_mod' bnNew.toNat params.retargetA.toNat
  omega

/-- For `b ≥ 0`, no word wraps where `t (a + 2 b) < 2^256 a`, and the result is the floor of
the formula. -/
theorem retargetSteps_nonneg (hb : 0 ≤ S - params.nPowTargetSpacing)
    (hc : S - params.nPowTargetSpacing < 2 ^ 32)
    (hbound : bnNew.toNat * (params.retargetA + 2 * (S - params.nPowTargetSpacing)).toNat <
      2 ^ 256 * params.retargetA.toNat) :
    (retargetSteps params bnNew S).pb.toNat =
        2 * (bnNew.toNat / params.retargetA.toNat) * (S - params.nPowTargetSpacing).natAbs ∧
      (retargetSteps params bnNew S).rb.toNat =
        2 * (bnNew.toNat % params.retargetA.toNat) * (S - params.nPowTargetSpacing).natAbs ∧
      (retargetSteps params bnNew S).result.toNat =
        bnNew.toNat * (params.retargetA + 2 * (S - params.nPowTargetSpacing)).toNat /
          params.retargetA.toNat := by
  obtain ⟨hp, -, hr⟩ := retargetSteps_split bnNew S hA hA'
  have hC := toNat_toUInt32_abs (b := S - params.nPowTargetSpacing) (by omega)
  generalize hAN : params.retargetA.toNat = A at *
  generalize hCN : (S - params.nPowTargetSpacing).natAbs = C at *
  generalize htN : bnNew.toNat = t at *
  have hA0 : 2 ≤ A := by omega
  have hC32 : C < 2 ^ 32 := by omega
  have hsum : (params.retargetA + 2 * (S - params.nPowTargetSpacing)).toNat = A + 2 * C := by omega
  rw [hsum] at hbound ⊢
  -- every intermediate lies below the floor of the formula, which lies below `2^256`
  have hfloor : t * (A + 2 * C) / A < 2 ^ 256 := (Nat.div_lt_iff_lt_mul (by omega)).mpr hbound
  have hsplit := split_div_eq t A C (by omega)
  have hfl := add_div_eq_floor t A C (by omega)
  have htA : 2 * (t / A) ≤ t := by
    have := Nat.div_mul_le_self t A
    have := Nat.mul_le_mul_left (t / A) hA0
    linarith
  have ht := htN ▸ bnNew.isLt
  have hrA := Nat.mod_lt t (by omega : 0 < A)
  have h2p : (2 * (retargetSteps params bnNew S).p).toNat = 2 * (t / A) := by
    rw [toNat_two_mul _ (by omega), hp]
  have h2r : (2 * (retargetSteps params bnNew S).r).toNat = 2 * (t % A) := by
    rw [toNat_two_mul _ (by omega), hr]
  have hsum_lt : 2 * t * C / A < 2 ^ 256 := lt_of_le_of_lt (by linarith) hfloor
  have hpb : (retargetSteps params bnNew S).pb.toNat = 2 * (t / A) * C := by
    rw [retargetSteps_pb, toNat_mulU32, h2p, hC]
    rw [h2p, hC]
    exact lt_of_le_of_lt (by rw [← hsplit]; exact Nat.le_add_right _ _) hsum_lt
  have hrbound : 2 * (t % A) * C < 2 ^ 256 := by
    have : 2 * (t % A) * C < 2 * 2 ^ 32 * 2 ^ 32 := by
      apply Nat.mul_lt_mul'' <;> omega
    exact lt_trans this (by norm_num)
  have hrb : (retargetSteps params bnNew S).rb.toNat = 2 * (t % A) * C := by
    rw [retargetSteps_rb, toNat_mulU32, h2r, hC]
    rw [h2r, hC]
    exact hrbound
  refine ⟨hpb, hrb, ?_⟩
  rw [retargetSteps_result, if_pos hb, BitVec.toNat_add, BitVec.toNat_add, BitVec.toNat_udiv, hpb, hrb,
    toNat_ofInt64 (by omega) (by omega), hAN, hsplit, Nat.mod_eq_of_lt hsum_lt, htN, hfl]
  exact Nat.mod_eq_of_lt hfloor

/-- For `b < 0` with `a + 2 b > 0`, no word wraps and the result is the ceiling of the
formula. -/
theorem retargetSteps_neg (hb : S - params.nPowTargetSpacing < 0)
    (hpos : 0 < params.retargetA + 2 * (S - params.nPowTargetSpacing)) :
    (retargetSteps params bnNew S).pb.toNat =
        2 * (bnNew.toNat / params.retargetA.toNat) * (S - params.nPowTargetSpacing).natAbs ∧
      (retargetSteps params bnNew S).rb.toNat =
        2 * (bnNew.toNat % params.retargetA.toNat) * (S - params.nPowTargetSpacing).natAbs ∧
      (retargetSteps params bnNew S).result.toNat =
        (bnNew.toNat * (params.retargetA + 2 * (S - params.nPowTargetSpacing)).toNat +
          params.retargetA.toNat - 1) / params.retargetA.toNat := by
  obtain ⟨hp, -, hr⟩ := retargetSteps_split bnNew S hA hA'
  have hC := toNat_toUInt32_abs (b := S - params.nPowTargetSpacing) (by omega)
  generalize hAN : params.retargetA.toNat = A at *
  generalize hCN : (S - params.nPowTargetSpacing).natAbs = C at *
  generalize htN : bnNew.toNat = t at *
  have hA0 : 2 ≤ A := by omega
  have h2C : 2 * C < A := by omega
  have hdiff : (params.retargetA + 2 * (S - params.nPowTargetSpacing)).toNat = A - 2 * C := by omega
  rw [hdiff]
  -- the subtrahend `2 t c / a` stays below `t`, since `2 c < a`
  have hsplit := split_div_eq t A C (by omega)
  have hceil := sub_div_eq_ceil t A C h2C
  have hsub : 2 * t * C / A ≤ t := by
    apply (Nat.div_le_iff_le_mul_add_pred (by omega)).mpr
    have := Nat.mul_le_mul_left t h2C.le
    nlinarith
  have htA : 2 * (t / A) ≤ t := by
    have := Nat.div_mul_le_self t A
    have := Nat.mul_le_mul_left (t / A) hA0
    linarith
  have ht := htN ▸ bnNew.isLt
  have hrA := Nat.mod_lt t (by omega : 0 < A)
  have h2p : (2 * (retargetSteps params bnNew S).p).toNat = 2 * (t / A) := by
    rw [toNat_two_mul _ (by omega), hp]
  have h2r : (2 * (retargetSteps params bnNew S).r).toNat = 2 * (t % A) := by
    rw [toNat_two_mul _ (by omega), hr]
  have hsum_lt : 2 * t * C / A < 2 ^ 256 := lt_of_le_of_lt hsub ht
  have hpb : (retargetSteps params bnNew S).pb.toNat = 2 * (t / A) * C := by
    rw [retargetSteps_pb, toNat_mulU32, h2p, hC]
    rw [h2p, hC]
    exact lt_of_le_of_lt (by rw [← hsplit]; exact Nat.le_add_right _ _) hsum_lt
  have hrbound : 2 * (t % A) * C < 2 ^ 256 := by
    have : 2 * (t % A) * C < 2 * 2 ^ 32 * 2 ^ 32 := by
      apply Nat.mul_lt_mul'' <;> omega
    exact lt_trans this (by norm_num)
  have hrb : (retargetSteps params bnNew S).rb.toNat = 2 * (t % A) * C := by
    rw [retargetSteps_rb, toNat_mulU32, h2r, hC]
    rw [h2r, hC]
    exact hrbound
  refine ⟨hpb, hrb, ?_⟩
  rw [retargetSteps_result, if_neg (by omega), BitVec.toNat_sub, BitVec.toNat_add, BitVec.toNat_udiv,
    hpb, hrb, toNat_ofInt64 (by omega) (by omega), hAN, hsplit, Nat.mod_eq_of_lt hsum_lt, htN, ← hceil]
  have hmod : 2 ^ 256 - 2 * t * C / A + t = 2 ^ 256 + (t - 2 * t * C / A) := by omega
  rw [hmod, Nat.add_mod_left]
  exact Nat.mod_eq_of_lt (lt_of_le_of_lt (Nat.sub_le _ _) ht)

/-- The retarget before the limit is exact: `p a`, `2 p |b|` and `2 r |b|` do not wrap, and the
result is the formula rounded as `retargetExact` rounds it. -/
theorem retargetSteps_exact (hc : S - params.nPowTargetSpacing < 2 ^ 32)
    (hpos : 0 < params.retargetA + 2 * (S - params.nPowTargetSpacing))
    (hbound : 0 ≤ S - params.nPowTargetSpacing →
      bnNew.toNat * (params.retargetA + 2 * (S - params.nPowTargetSpacing)).toNat <
        2 ^ 256 * params.retargetA.toNat) :
    (retargetSteps params bnNew S).pa.toNat =
        bnNew.toNat / params.retargetA.toNat * params.retargetA.toNat ∧
      (retargetSteps params bnNew S).pb.toNat =
        2 * (bnNew.toNat / params.retargetA.toNat) * (S - params.nPowTargetSpacing).natAbs ∧
      (retargetSteps params bnNew S).rb.toNat =
        2 * (bnNew.toNat % params.retargetA.toNat) * (S - params.nPowTargetSpacing).natAbs ∧
      (retargetSteps params bnNew S).result.toNat =
        retargetExact bnNew.toNat params.retargetA (S - params.nPowTargetSpacing) := by
  have hpa := (retargetSteps_split bnNew S hA hA').2.1
  unfold retargetExact
  by_cases hb : 0 ≤ S - params.nPowTargetSpacing
  · rw [if_pos hb]
    exact ⟨hpa, retargetSteps_nonneg bnNew S hA hA' hb hc (hbound hb)⟩
  · rw [if_neg hb]
    exact ⟨hpa, retargetSteps_neg bnNew S hA hA' (by omega) hpos⟩

end Retarget

/-- The limit of `GetNextWorkRequired` is the minimum. -/
theorem limit_eq_min (x : arith_uint256) {L : Nat} (hL : L < 2 ^ 256) :
    (if x > BitVec.ofNat 256 L then BitVec.ofNat 256 L else x) = BitVec.ofNat 256 (min L x.toNat) := by
  apply BitVec.eq_of_toNat_eq
  have hx := x.isLt
  split
  · next h =>
    rw [gt_iff_lt, BitVec.lt_def, BitVec.toNat_ofNat, Nat.mod_eq_of_lt hL] at h
    simp only [BitVec.toNat_ofNat, Nat.mod_eq_of_lt hL, Nat.mod_eq_of_lt (lt_of_le_of_lt (min_le_left _ _) hL)]
    omega
  · next h =>
    rw [gt_iff_lt, BitVec.lt_def, BitVec.toNat_ofNat, Nat.mod_eq_of_lt hL] at h
    simp only [BitVec.toNat_ofNat, Nat.mod_eq_of_lt (lt_of_le_of_lt (min_le_left _ _) hL)]
    omega

/-- Where the retarget of blocks of algorithm `algo` never wraps: the spacing is positive, the
divisor `a` is at least two and fits an unsigned 32-bit word, and the limit stretched by the
longest spacing that two `uint32` times allow stays below `2^256 a`. -/
structure PowParams.NoWrap (params : PowParams) (algo : PowAlgo) : Prop where
  spacing_pos : 0 < params.nPowTargetSpacing
  a_ge : 2 ≤ params.retargetA
  a_lt : params.retargetA < 2 ^ 32
  limit_lt : params.powLimit algo < 2 ^ 256
  stretch_lt : params.powLimit algo * (params.retargetA + 2 * (2 ^ 32 - 1 - params.nPowTargetSpacing)).toNat <
    2 ^ 256 * params.retargetA.toNat

/-- The main network's parameters never wrap, for either algorithm. -/
theorem MainNetPow_noWrap (algo : PowAlgo) : MainNetPow.NoWrap algo := by
  cases algo <;> exact ⟨by decide, by decide, by decide, by decide, by decide⟩

/-- `GetNextWorkRequired` retargets by the formula `t ((n - 1) T + 2 S) / ((n + 1) T)`, rounded
down for `S ≥ T` and up for `S < T`, and limited to `powLimit`; where the parameters never wrap,
neither does any intermediate word. -/
theorem GetNextWorkRequired_retarget {params : PowParams} {algo : PowAlgo}
    (hret : params.fPowNoRetargeting = false) (hw : params.NoWrap algo)
    {pindexLast pindexPrev pprev pindexPrevPrev pprev' : CBlockIndex}
    {ancestors rest rest' : List CBlockIndex}
    (hprev : GetLastBlockIndex (pindexLast :: ancestors) algo = pindexPrev :: pprev :: rest)
    (hprevprev : GetLastBlockIndex (pprev :: rest) algo = pindexPrevPrev :: pprev' :: rest')
    (hlimit : (SetCompact pindexPrev.nBits).toNat ≤ params.powLimit algo)
    (hpos : 0 < (params.DifficultyAdjustmentInterval - 1) * params.nPowTargetSpacing +
      2 * ((pindexPrev.nTime.toNat : Int) - pindexPrevPrev.nTime.toNat)) :
    GetNextWorkRequired pindexLast ancestors algo params =
        GetCompact (BitVec.ofNat 256 (min (params.powLimit algo)
          (retargetExact (SetCompact pindexPrev.nBits).toNat params.retargetA
            ((pindexPrev.nTime.toNat : Int) - pindexPrevPrev.nTime.toNat - params.nPowTargetSpacing)))) ∧
      let steps := retargetSteps params (SetCompact pindexPrev.nBits)
        ((pindexPrev.nTime.toNat : Int) - pindexPrevPrev.nTime.toNat)
      let t := (SetCompact pindexPrev.nBits).toNat
      let A := params.retargetA.toNat
      let C := ((pindexPrev.nTime.toNat : Int) - pindexPrevPrev.nTime.toNat - params.nPowTargetSpacing).natAbs
      steps.pa.toNat = t / A * A ∧ steps.pb.toNat = 2 * (t / A) * C ∧ steps.rb.toNat = 2 * (t % A) * C ∧
        steps.result.toNat = retargetExact t params.retargetA
          ((pindexPrev.nTime.toNat : Int) - pindexPrevPrev.nTime.toNat - params.nPowTargetSpacing) := by
  have h1 := pindexPrev.nTime.toNat_lt
  have h2 := pindexPrevPrev.nTime.toNat_lt
  have hspacing := hw.spacing_pos
  -- `a + 2 b = (n - 1) T + 2 S`
  have hab : params.retargetA + 2 * ((pindexPrev.nTime.toNat : Int) - pindexPrevPrev.nTime.toNat -
      params.nPowTargetSpacing) = (params.DifficultyAdjustmentInterval - 1) * params.nPowTargetSpacing +
      2 * ((pindexPrev.nTime.toNat : Int) - pindexPrevPrev.nTime.toNat) := by
    unfold PowParams.retargetA
    ring
  have hexact := retargetSteps_exact (SetCompact pindexPrev.nBits)
    ((pindexPrev.nTime.toNat : Int) - pindexPrevPrev.nTime.toNat) hw.a_ge hw.a_lt (by omega) (by omega)
    (fun hb => by
      -- the spacing is at most `2^32 - 1`, so the product is at most the stretched limit
      have hle : (params.retargetA + 2 * ((pindexPrev.nTime.toNat : Int) - pindexPrevPrev.nTime.toNat -
          params.nPowTargetSpacing)).toNat ≤
          (params.retargetA + 2 * (2 ^ 32 - 1 - params.nPowTargetSpacing)).toNat := by omega
      exact lt_of_le_of_lt (Nat.mul_le_mul hlimit hle) hw.stretch_lt)
  refine ⟨?_, hexact⟩
  unfold GetNextWorkRequired
  rw [if_neg (by simp [hret]), hprev]
  dsimp only
  rw [hprevprev]
  dsimp only
  rw [limit_eq_min _ hw.limit_lt, hexact.2.2.2]

/-- On the test network the scrypt limit stretched by the longest spacing passes `2^256`: a
target near the limit and two blocks `2^32 - 1` seconds apart make the retarget wrap. -/
theorem retargetSteps_wraps_testNet :
    (SetCompact 0x1f0fffff).toNat ≤ TestNetPow.powLimit .SCRYPT ∧
      (retargetSteps TestNetPow (SetCompact 0x1f0fffff) (2 ^ 32 - 1)).result.toNat ≠
        retargetExact (SetCompact 0x1f0fffff).toNat TestNetPow.retargetA
          (2 ^ 32 - 1 - TestNetPow.nPowTargetSpacing) := by
  decide

/-- A block on top of two blocks of target one mined in the same second, on the main network:
the retarget applies. -/
theorem GetNextWorkRequired_retarget_mainNet :
    let tip : CBlockIndex := ⟨.SHA256D, 0x01010000, 1000⟩
    let genesis : CBlockIndex := ⟨.SHA256D, 0x1d00ffff, 0⟩
    GetNextWorkRequired tip [tip, genesis] .SHA256D MainNetPow =
      GetCompact (BitVec.ofNat 256 (min (MainNetPow.powLimit .SHA256D)
        (retargetExact (SetCompact tip.nBits).toNat MainNetPow.retargetA
          ((tip.nTime.toNat : Int) - tip.nTime.toNat - MainNetPow.nPowTargetSpacing)))) := by
  intro tip genesis
  exact (@GetNextWorkRequired_retarget MainNetPow .SHA256D rfl (MainNetPow_noWrap .SHA256D)
    tip tip tip tip genesis [tip, genesis] [genesis] [] rfl rfl (by decide) (by decide)).1

/-- The same block: the code rounds `241800 / 242040` up to one, whose compact form is
`0x01010000`, where the floor formula gives zero, whose compact form is zero. -/
theorem GetNextWorkRequired_ceil_mainNet :
    let tip : CBlockIndex := ⟨.SHA256D, 0x01010000, 1000⟩
    let genesis : CBlockIndex := ⟨.SHA256D, 0x1d00ffff, 0⟩
    let t := (SetCompact tip.nBits).toNat
    let S : Int := (tip.nTime.toNat : Int) - tip.nTime.toNat
    0 < t ∧ t ≤ MainNetPow.powLimit .SHA256D ∧
      0 < (MainNetPow.DifficultyAdjustmentInterval - 1) * MainNetPow.nPowTargetSpacing + 2 * S ∧
      GetNextWorkRequired tip [tip, genesis] .SHA256D MainNetPow = 0x01010000 ∧
      GetCompact (BitVec.ofNat 256 (min (MainNetPow.powLimit .SHA256D)
        (t * ((MainNetPow.DifficultyAdjustmentInterval - 1) * MainNetPow.nPowTargetSpacing + 2 * S).toNat /
          ((MainNetPow.DifficultyAdjustmentInterval + 1) * MainNetPow.nPowTargetSpacing).toNat))) = 0 := by
  decide

end Huntercore
