import Mathlib
import Huntercore.Lib.Control
import Huntercore.Game.Common
import Huntercore.Coins.Cache

/-!
# The coins on disk

`CCoinsViewDB` keeps each coin under its outpoint as the bytes of `Coin::Serialize`
(coins.h): a `VARINT` of the height and the two flags, then the output through
`CTxOutCompressor` (compressor.h), whose amount is `CompressAmount`ed and whose script is
shortened by `CScriptCompressor` when it is one of six standard forms. `Coin::Unserialize`
reads them back from a `CDataStream` (streams.h) and throws where the bytes run out or a
`VARINT` is too large.

What this is for is that the database can stand for a map from outpoints to coins: every coin the
node can write, with an amount in the money range and a spendable script, is read back as the same
coin, height and flags included, from exactly the bytes written (`Coin.Serialize_roundTrip`).
The one part of the format this rests on and cannot compute, the recovery of an uncompressed public
key from its x coordinate, is a parameter (`PubKeyOps`) with the property it must have
(`PubKeyOps.Recovers`).

## Key lemmas

* `readVarIntFrom_WriteVarInt` — `ReadVarInt` reads back what `WriteVarInt` wrote.
* `DecompressAmount_CompressAmount` — the amount compression is undone in the money range.
* `DecompressScript_CompressScript` — a standard script is decompressed from its short form.
* `CScriptCompressor.Unserialize_Serialize` — a script short enough to run is read back.
* `CTxOutCompressor.Unserialize_Serialize` — so is an output.
-/

namespace Huntercore

/-! ## Streams -/

/-- `ser_readdata8`: one byte from the front of a `CDataStream`. -/
def ser_readdata8 : List (Fin 256) → Except String (Fin 256 × List (Fin 256))
  | [] => throw "CDataStream::read(): end of data"
  | b :: rest => pure (b, rest)

/-- `CDataStream::read` of `nSize` bytes. -/
def CDataStream.read (nSize : Nat) (s : List (Fin 256)) :
    Except String (List (Fin 256) × List (Fin 256)) :=
  if s.length < nSize then throw "CDataStream::read(): end of data"
  else pure (s.take nSize, s.drop nSize)

/-- `CDataStream::ignore` of `nSize` bytes. -/
def CDataStream.ignore (nSize : Int) (s : List (Fin 256)) : Except String (List (Fin 256)) :=
  if nSize < 0 then throw "CDataStream::ignore(): nSize negative"
  else if s.length < nSize.toNat then throw "CDataStream::ignore(): end of data"
  else pure (s.drop nSize.toNat)

/-! ## `VARINT` -/

/-- The bytes `WriteVarInt` puts in `tmp`, from `tmp[len]` on, where `cont` says whether `len`
is past the first: seven bits of `n` each, and all but the first with the continuation bit. -/
def varIntTmp (n : Nat) (cont : Bool) : List (Fin 256) :=
  let b : Fin 256 := Fin.ofNat 256 ((n &&& 0x7F) ||| (if cont then 0x80 else 0x00))
  if n ≤ 0x7F then [b] else b :: varIntTmp ((n >>> 7) - 1) true
termination_by n
decreasing_by
  rw [Nat.shiftRight_eq_div_pow]
  omega

/-- `WriteVarInt`: `tmp` written from its last byte to its first. -/
def WriteVarInt (n : Nat) : List (Fin 256) := (varIntTmp n false).reverse

/-- The loop of `ReadVarInt` into an integer whose largest value is `max`, with `n` read so
far. -/
def readVarIntFrom (max : Nat) (n : Nat) : List (Fin 256) → Except String (Nat × List (Fin 256))
  | [] => throw "CDataStream::read(): end of data"
  | chData :: rest =>
    if n > max >>> 7 then throw "ReadVarInt(): size too large"
    else
      let n' := (n <<< 7) ||| (chData.val &&& 0x7F)
      if chData.val &&& 0x80 ≠ 0 then
        if n' = max then throw "ReadVarInt(): size too large"
        else readVarIntFrom max (n' + 1) rest
      else pure (n', rest)

/-- `ReadVarInt` into an integer whose largest value is `max`. -/
def ReadVarInt (max : Nat) (s : List (Fin 256)) : Except String (Nat × List (Fin 256)) :=
  readVarIntFrom max 0 s

/-! ## Amounts -/

def MAX_MONEY : Int := 21000000 * COIN

def MoneyRange (nValue : Int) : Bool := 0 ≤ nValue && nValue ≤ MAX_MONEY

/-- A `CAmount` as the `uint64_t` it is converted to. -/
def amountToU64 (nValue : Int) : Nat := (nValue % 2 ^ 64).toNat

/-- A `uint64_t` as the `CAmount` it is converted to. -/
def u64ToAmount (x : Nat) : Int := if x < 2 ^ 63 then x else x - 2 ^ 64

/-- The loop of `CompressAmount` that divides out the tens, at most nine. -/
def stripZeros (n e : Nat) : Nat × Nat :=
  if n % 10 = 0 ∧ e < 9 then stripZeros (n / 10) (e + 1) else (n, e)
termination_by 9 - e

/-- `CompressAmount`, in 64 bits. -/
def CompressAmount (n : Nat) : Except String Nat :=
  if n = 0 then pure 0
  else
    let r := stripZeros n 0
    if r.2 < 9 then
      let d := r.1 % 10
      if ¬(d ≥ 1 ∧ d ≤ 9) then throw "assertion failed: d >= 1 && d <= 9"
      else pure ((1 + ((r.1 / 10) * 9 + d - 1) * 10 + r.2) % 2 ^ 64)
    else pure ((1 + (r.1 - 1) * 10 + 9) % 2 ^ 64)

/-- `DecompressAmount`, in 64 bits: `while (e) n *= 10` is the product by `10 ^ e`. -/
def DecompressAmount (x : Nat) : Nat :=
  if x = 0 then 0
  else
    let x := x - 1
    let e := x % 10
    let x := x / 10
    let n := if e < 9 then (x / 9) * 10 + (x % 9 + 1) else x + 1
    (n * 10 ^ e) % 2 ^ 64

/-! ## Scripts -/

/-- What the script compressor uses of `CPubKey`, from the elliptic curve library:
`IsFullyValid` of a serialised key, and `Decompress` of a compressed one. -/
structure PubKeyOps where
  IsFullyValid : List (Fin 256) → Bool
  Decompress : List (Fin 256) → Option (List (Fin 256))

/-- What the compressor asks of the curve: a fully valid uncompressed key is recovered from its
x coordinate and the parity of its y coordinate. -/
def PubKeyOps.Recovers (ops : PubKeyOps) : Prop :=
  ∀ pubkey : List (Fin 256), pubkey.length = 65 → pubkey[0]? = some 0x04 →
    ops.IsFullyValid pubkey = true →
    ops.Decompress (Fin.ofNat 256 (2 + (pubkey.getD 64 0).val % 2) :: (pubkey.drop 1).take 32) =
      some pubkey

/-- `CScriptCompressor::nSpecialScripts`. -/
def nSpecialScripts : Nat := 6

/-- `IsToKeyID`: the key hash of a pay-to-pubkey-hash script. -/
def IsToKeyID (script : CScript) : Option (List (Fin 256)) :=
  if script.length = 25 ∧ script[0]? = some OP_DUP ∧ script[1]? = some OP_HASH160 ∧
      script[2]? = some 20 ∧ script[23]? = some OP_EQUALVERIFY ∧ script[24]? = some OP_CHECKSIG
  then some ((script.drop 3).take 20) else none

/-- `IsToScriptID`: the script hash of a pay-to-script-hash script. -/
def IsToScriptID (script : CScript) : Option (List (Fin 256)) :=
  if script.length = 23 ∧ script[0]? = some OP_HASH160 ∧ script[1]? = some 20 ∧
      script[22]? = some OP_EQUAL
  then some ((script.drop 2).take 20) else none

/-- `IsToPubKey`: the key of a pay-to-pubkey script, compressed, or uncompressed and fully
valid. -/
def IsToPubKey (ops : PubKeyOps) (script : CScript) : Option (List (Fin 256)) :=
  if script.length = 35 ∧ script[0]? = some 33 ∧ script[34]? = some OP_CHECKSIG ∧
      (script[1]? = some 0x02 ∨ script[1]? = some 0x03)
  then some ((script.drop 1).take 33)
  else if script.length = 67 ∧ script[0]? = some 65 ∧ script[66]? = some OP_CHECKSIG ∧
      script[1]? = some 0x04 then
    let pubkey := (script.drop 1).take 65
    -- if not fully valid, a case that would not be compressible
    if ops.IsFullyValid pubkey then some pubkey else none
  else none

/-- `CompressScript`: the short form of a standard script, its kind in the first byte. -/
def CompressScript (ops : PubKeyOps) (script : CScript) : Option (List (Fin 256)) :=
  match IsToKeyID script with
  | some keyID => some (0x00 :: keyID)
  | none =>
    match IsToScriptID script with
    | some scriptID => some (0x01 :: scriptID)
    | none =>
      match IsToPubKey ops script with
      | some pubkey =>
        if pubkey[0]? = some 0x02 ∨ pubkey[0]? = some 0x03 then
          some (pubkey.getD 0 0 :: (pubkey.drop 1).take 32)
        else if pubkey[0]? = some 0x04 then
          some (Fin.ofNat 256 (0x04 ||| ((pubkey.getD 64 0).val &&& 0x01)) ::
            (pubkey.drop 1).take 32)
        else none
      | none => none

/-- `GetSpecialScriptSize`. -/
def GetSpecialScriptSize (nSize : Nat) : Nat :=
  if nSize = 0 ∨ nSize = 1 then 20
  else if nSize = 2 ∨ nSize = 3 ∨ nSize = 4 ∨ nSize = 5 then 32
  else 0

/-- `DecompressScript`: the standard script of kind `nSize` from its short form, `none` where
it returns `false`. -/
def DecompressScript (ops : PubKeyOps) (nSize : Nat) (input : List (Fin 256)) :
    Except String (Option CScript) :=
  match nSize with
  | 0 => pure (some ([OP_DUP, OP_HASH160, 20] ++ input.take 20 ++ [OP_EQUALVERIFY, OP_CHECKSIG]))
  | 1 => pure (some ([OP_HASH160, 20] ++ input.take 20 ++ [OP_EQUAL]))
  | 2 | 3 => pure (some ([33, Fin.ofNat 256 nSize] ++ input.take 32 ++ [OP_CHECKSIG]))
  | 4 | 5 =>
    let vch := Fin.ofNat 256 (nSize - 2) :: input.take 32
    match ops.Decompress vch with
    | none => pure none
    | some pubkey =>
      if pubkey.length ≠ 65 then throw "assertion failed: pubkey.size() == 65"
      else pure (some ([65] ++ pubkey ++ [OP_CHECKSIG]))
  | _ => pure none

namespace CScriptCompressor

/-- `CScriptCompressor::Serialize`: the short form of a standard script, else the script's size
past the special kinds and the script. -/
def Serialize (ops : PubKeyOps) (script : CScript) : List (Fin 256) :=
  match CompressScript ops script with
  | some compr => compr
  | none => WriteVarInt ((script.length + nSpecialScripts) % 2 ^ 32) ++ script

/-- `CScriptCompressor::Unserialize` into `script`. An overly long script is replaced by a short
invalid one, `OP_RETURN` pushed onto `script`, and a short form that does not decompress leaves
`script` as it was. -/
def Unserialize (ops : PubKeyOps) (script : CScript) (s : List (Fin 256)) :
    Except String (CScript × List (Fin 256)) := do
  let (nSize, s) ← ReadVarInt (2 ^ 32 - 1) s
  if nSize < nSpecialScripts then
    let (vch, s) ← CDataStream.read (GetSpecialScriptSize nSize) s
    let decompressed ← DecompressScript ops nSize vch
    pure (decompressed.getD script, s)
  else
    let nSize := nSize - nSpecialScripts
    if nSize > MAX_SCRIPT_SIZE then
      -- `ignore` takes an `int`
      let s ← CDataStream.ignore (if nSize < 2 ^ 31 then nSize else nSize - 2 ^ 32) s
      pure (script ++ [OP_RETURN], s)
    else CDataStream.read nSize s

end CScriptCompressor

/-! ## Outputs and coins -/

namespace CTxOutCompressor

/-- `CTxOutCompressor` writing: the compressed amount, then the script. -/
def Serialize (ops : PubKeyOps) (txout : CTxOut) : Except String (List (Fin 256)) := do
  let nVal ← CompressAmount (amountToU64 txout.nValue)
  pure (WriteVarInt nVal ++ CScriptCompressor.Serialize ops txout.scriptPubKey)

/-- `CTxOutCompressor` reading into `txout`. -/
def Unserialize (ops : PubKeyOps) (txout : CTxOut) (s : List (Fin 256)) :
    Except String (CTxOut × List (Fin 256)) := do
  let (nVal, s) ← ReadVarInt (2 ^ 64 - 1) s
  let (script, s) ← CScriptCompressor.Unserialize ops txout.scriptPubKey s
  pure (⟨u64ToAmount (DecompressAmount nVal), script⟩, s)

end CTxOutCompressor

namespace Coin

/-- `Coin::Serialize`: the height, four times over, with the coinbase flag in the lowest bit and
the game flag in the next, then the output. -/
def Serialize (ops : PubKeyOps) (coin : Coin) : Except String (List (Fin 256)) := do
  if coin.IsSpent then throw "assertion failed: !IsSpent()"
  let code := (coin.nHeight.toNat * 4 + (if coin.fCoinBase then 1 else 0) +
    (if coin.fGameTx then 1 else 0) * 2) % 2 ^ 32
  let out ← CTxOutCompressor.Serialize ops coin.out
  pure (WriteVarInt code ++ out)

/-- `Coin::Unserialize` into `coin`. -/
def Unserialize (ops : PubKeyOps) (coin : Coin) (s : List (Fin 256)) :
    Except String (Coin × List (Fin 256)) := do
  let (code, s) ← ReadVarInt (2 ^ 32 - 1) s
  let (out, s) ← CTxOutCompressor.Unserialize ops coin.out s
  pure (⟨out, code &&& 1 == 1, code &&& 2 != 0, BitVec.ofNat 30 (code >>> 2)⟩, s)

end Coin

/-! ## Bytes and bits -/

section Bits

/-- `CDataStream::read` of as many bytes as were written gives them back. -/
theorem CDataStream.read_append (l rest : List (Fin 256)) :
    CDataStream.read l.length (l ++ rest) = .ok (l, rest) := by
  simp [CDataStream.read]
  rfl

/-- A list of known length whose first and last elements are known is those elements around its
middle. -/
theorem eq_append_middle {α : Type} {l pre post : List α} {k : Nat}
    (hlen : l.length = pre.length + k + post.length)
    (hpre : ∀ i < pre.length, l[i]? = pre[i]?)
    (hpost : ∀ i < post.length, l[pre.length + k + i]? = post[i]?) :
    l = pre ++ (l.drop pre.length).take k ++ post := by
  have hmid : ((l.drop pre.length).take k).length = k := by simp; omega
  apply List.ext_getElem?
  intro i
  -- the index falls before, inside or after the middle, or past the end
  rcases Nat.lt_or_ge i pre.length with h1 | h1
  · rw [List.getElem?_append_left (by simp; omega), List.getElem?_append_left h1, hpre i h1]
  rcases Nat.lt_or_ge i (pre.length + k) with h2 | h2
  · rw [List.getElem?_append_left (by simp; omega), List.getElem?_append_right h1,
      List.getElem?_take_of_lt (by omega), List.getElem?_drop, Nat.add_sub_cancel' h1]
  rcases Nat.lt_or_ge i (pre.length + k + post.length) with h3 | h3
  · rw [List.getElem?_append_right (by simp; omega), List.length_append, hmid,
      ← hpost (i - (pre.length + k)) (by omega), Nat.add_sub_cancel' h2]
  · rw [List.getElem?_eq_none (by omega), List.getElem?_eq_none (by simp; omega)]

theorem and_0x7F (x : Nat) : x &&& 0x7F = x % 128 :=
  Nat.and_two_pow_sub_one_eq_mod x 7

/-- Below the top bit, setting it is adding it. -/
theorem or_0x80 {x : Nat} (h : x < 128) : x ||| 0x80 = x + 128 := by
  have := Nat.shiftLeft_add_eq_or_of_lt (i := 7) h 1
  rw [Nat.lor_comm]
  simp only [Nat.shiftLeft_eq, one_mul, Nat.reducePow] at this
  omega

theorem and_0x80_ne_zero (b : Fin 256) : b.val &&& 0x80 ≠ 0 ↔ 128 ≤ b.val := by
  rw [show (0x80 : Nat) = 2 ^ 7 from rfl, Nat.and_two_pow]
  have hb := b.isLt
  by_cases h : 128 ≤ b.val
  · have : b.val / 128 = 1 := by omega
    simp [Nat.testBit, Nat.shiftRight_eq_div_pow, this, h]
  · have : b.val / 128 = 0 := by omega
    simp [Nat.testBit, Nat.shiftRight_eq_div_pow, this, h]

/-- Shifting in seven bits below a number is multiplying it by `128` and adding them. -/
theorem shiftLeft_or_and_0x7F (n x : Nat) : (n <<< 7) ||| (x &&& 0x7F) = n * 128 + x % 128 := by
  rw [and_0x7F, ← Nat.shiftLeft_add_eq_or_of_lt (by omega : x % 128 < 2 ^ 7), Nat.shiftLeft_eq]

/-- The byte `WriteVarInt` makes of the low seven bits of a number past the first group. -/
theorem val_varIntByte_true (n : Nat) :
    (Fin.ofNat 256 ((n &&& 0x7F) ||| (if true then 0x80 else 0x00))).val = n % 128 + 128 := by
  rw [Fin.val_ofNat, and_0x7F, if_pos rfl, or_0x80 (Nat.mod_lt n (by omega))]
  omega

/-- The byte `WriteVarInt` makes of the low seven bits of the first group. -/
theorem val_varIntByte_false (n : Nat) :
    (Fin.ofNat 256 ((n &&& 0x7F) ||| (if false then 0x80 else 0x00))).val = n % 128 := by
  rw [Fin.val_ofNat, and_0x7F, if_neg Bool.false_ne_true, Nat.or_zero]
  omega

/-- The kind byte of an uncompressed key: four, or five where the key's last byte is odd. -/
theorem or_and_one (v : Nat) : 4 ||| (v &&& 1) = 4 + v % 2 := by
  rw [Nat.and_one_is_mod]
  rcases Nat.mod_two_eq_zero_or_one v with h | h <;> rw [h] <;> rfl

/-- `x &&& 2` is the second bit of `x`, in place. -/
theorem and_two (x : Nat) : x &&& 2 = x / 2 % 2 * 2 := by
  rw [show (2 : Nat) = 2 ^ 1 from rfl, Nat.and_two_pow]
  simp only [Nat.testBit, Nat.shiftRight_eq_div_pow, pow_one]
  rcases Nat.mod_two_eq_zero_or_one (x / 2) with h | h <;> simp [h, Nat.one_and_eq_mod_two]

end Bits

/-! ## `VARINT` reads back what it writes -/

section VarInt

/-- One step of `WriteVarInt`, on numbers. -/
theorem varIntTmp_eq (n : Nat) (cont : Bool) :
    varIntTmp n cont =
      if n ≤ 127 then [Fin.ofNat 256 ((n &&& 0x7F) ||| (if cont then 0x80 else 0x00))]
      else Fin.ofNat 256 ((n &&& 0x7F) ||| (if cont then 0x80 else 0x00)) ::
        varIntTmp (n / 128 - 1) true := by
  rw [varIntTmp, Nat.shiftRight_eq_div_pow]

/-- The bytes of a number, last group first: those of what is above its low seven bits, with
the continuation bit, then the byte of its low seven bits. -/
theorem reverse_varIntTmp (n : Nat) (cont : Bool) :
    (varIntTmp n cont).reverse =
      (if n ≤ 127 then [] else (varIntTmp (n / 128 - 1) true).reverse) ++
        [Fin.ofNat 256 ((n &&& 0x7F) ||| (if cont then 0x80 else 0x00))] := by
  rw [varIntTmp_eq]
  split <;> simp

/-- One step of `ReadVarInt`, on numbers, where what was read so far is small enough. -/
theorem readVarIntFrom_cons (max n : Nat) (b : Fin 256) (rest : List (Fin 256))
    (hn : n ≤ max / 128) :
    readVarIntFrom max n (b :: rest) =
      if 128 ≤ b.val then
        if n * 128 + b.val % 128 = max then throw "ReadVarInt(): size too large"
        else readVarIntFrom max (n * 128 + b.val % 128 + 1) rest
      else pure (n * 128 + b.val % 128, rest) := by
  have hsize : ¬n > max >>> 7 := by rw [Nat.shiftRight_eq_div_pow]; omega
  simp only [readVarIntFrom, hsize, if_false, shiftLeft_or_and_0x7F]
  by_cases hb : 128 ≤ b.val
  · rw [if_pos ((and_0x80_ne_zero b).mpr hb), if_pos hb]
  · rw [if_neg (fun h => hb ((and_0x80_ne_zero b).mp h)), if_neg hb]

/-- Reading the bytes of `m` with the continuation bit on all of them leaves `m + 1` read, below
the largest value. -/
theorem readVarIntFrom_cont (max : Nat) :
    ∀ m, m < max → ∀ rest, readVarIntFrom max 0 ((varIntTmp m true).reverse ++ rest) =
      readVarIntFrom max (m + 1) rest := by
  intro m
  -- strong induction on `m`: the bytes above its low seven bits are those of `m / 128 - 1`
  induction m using Nat.strong_induction_on with
  | _ m ih =>
    intro hm rest
    rw [reverse_varIntTmp]
    by_cases hsmall : m ≤ 127
    · rw [if_pos hsmall, List.nil_append, List.singleton_append,
        readVarIntFrom_cons max 0 _ rest (Nat.zero_le _), val_varIntByte_true, if_pos (by omega)]
      have hlow : 0 * 128 + (m % 128 + 128) % 128 = m := by omega
      rw [hlow, if_neg (by omega)]
    · rw [if_neg hsmall, List.append_assoc, List.singleton_append,
        ih (m / 128 - 1) (by omega) (by omega), Nat.sub_add_cancel (by omega),
        readVarIntFrom_cons max _ _ rest (Nat.div_le_div_right (Nat.le_of_lt hm)),
        val_varIntByte_true, if_pos (by omega)]
      have hlow : m / 128 * 128 + (m % 128 + 128) % 128 = m := by omega
      rw [hlow, if_neg (by omega)]

/-- `ReadVarInt` reads back what `WriteVarInt` wrote, up to the largest value, and leaves the
bytes after it. -/
theorem readVarIntFrom_WriteVarInt {max n : Nat} (hn : n ≤ max) (rest : List (Fin 256)) :
    ReadVarInt max (WriteVarInt n ++ rest) = .ok (n, rest) := by
  rw [ReadVarInt, WriteVarInt, reverse_varIntTmp]
  by_cases hsmall : n ≤ 127
  · rw [if_pos hsmall, List.nil_append, List.singleton_append,
      readVarIntFrom_cons max 0 _ rest (Nat.zero_le _), val_varIntByte_false, if_neg (by omega)]
    have hlow : 0 * 128 + n % 128 % 128 = n := by omega
    rw [hlow]
    rfl
  · rw [if_neg hsmall, List.append_assoc, List.singleton_append,
      readVarIntFrom_cont max (n / 128 - 1) (by omega), Nat.sub_add_cancel (by omega),
      readVarIntFrom_cons max _ _ rest (Nat.div_le_div_right hn), val_varIntByte_false,
      if_neg (by omega)]
    have hlow : n / 128 * 128 + n % 128 % 128 = n := by omega
    rw [hlow]
    rfl

end VarInt

/-! ## Amounts decompress to what was compressed -/

section Amount

/-- What `CompressAmount`'s loop leaves: the amount is what is left times ten to the tens divided
out, at most nine of them, and fewer only when what is left does not end in a zero. -/
theorem stripZeros_spec (n e : Nat) (he : e ≤ 9) :
    (stripZeros n e).1 * 10 ^ ((stripZeros n e).2 - e) = n ∧ e ≤ (stripZeros n e).2 ∧
      (stripZeros n e).2 ≤ 9 ∧ ((stripZeros n e).2 < 9 → (stripZeros n e).1 % 10 ≠ 0) := by
  fun_induction stripZeros n e with
  | case1 n e hzero ih =>
    obtain ⟨hprod, hle, h9, hdigit⟩ := ih (by omega)
    refine ⟨?_, by omega, h9, hdigit⟩
    -- one more ten divided out
    have hsucc : (stripZeros (n / 10) (e + 1)).2 - e =
        (stripZeros (n / 10) (e + 1)).2 - (e + 1) + 1 := by omega
    rw [hsucc, pow_succ, ← Nat.mul_assoc, hprod]
    omega
  | case2 n e hstop =>
    refine ⟨by simp, le_refl e, he, fun h9 => ?_⟩
    intro hzero
    exact hstop ⟨hzero, h9⟩

/-- `DecompressAmount` of the form `CompressAmount` gives an amount with a last digit `d` and `e`
zeros after it. -/
theorem DecompressAmount_digit (q d e : Nat) (hd : 1 ≤ d ∧ d ≤ 9) (he : e < 9) :
    DecompressAmount (1 + (q * 9 + d - 1) * 10 + e) = ((q * 10 + d) * 10 ^ e) % 2 ^ 64 := by
  have he' : (1 + (q * 9 + d - 1) * 10 + e - 1) % 10 = e := by omega
  have hx : (1 + (q * 9 + d - 1) * 10 + e - 1) / 10 = q * 9 + (d - 1) := by omega
  have hq : (q * 9 + (d - 1)) / 9 = q := by omega
  have hr : (q * 9 + (d - 1)) % 9 + 1 = d := by omega
  simp only [DecompressAmount, he', hx, hq, hr, if_pos he]
  rw [if_neg (by omega)]

/-- `DecompressAmount` of the form `CompressAmount` gives an amount with nine zeros or more. -/
theorem DecompressAmount_nine (q : Nat) :
    DecompressAmount (1 + q * 10 + 9) = ((q + 1) * 10 ^ 9) % 2 ^ 64 := by
  have he : (1 + q * 10 + 9 - 1) % 10 = 9 := by omega
  have hx : (1 + q * 10 + 9 - 1) / 10 = q := by omega
  simp only [DecompressAmount, he, hx, lt_irrefl, if_false]
  rw [if_neg (by omega)]

/-- `CompressAmount` never fails its assertion on an amount below `2 ^ 60`, and `DecompressAmount`
gives the amount back. -/
theorem DecompressAmount_CompressAmount {n : Nat} (hn : n < 2 ^ 60) :
    ∃ x, CompressAmount n = .ok x ∧ DecompressAmount x = n := by
  by_cases h0 : n = 0
  · exact ⟨0, by simp [CompressAmount, h0]; rfl, by simp [DecompressAmount, h0]⟩
  obtain ⟨hprod, -, he9, hdigit⟩ := stripZeros_spec n 0 (le_of_lt (by decide))
  generalize hr : stripZeros n 0 = r at hprod he9 hdigit
  obtain ⟨m, e⟩ := r
  simp only [Nat.sub_zero] at hprod he9 hdigit
  have hpow : 1 ≤ 10 ^ e := Nat.one_le_pow _ _ (by omega)
  have hm : 0 < m := Nat.pos_of_ne_zero (by rintro rfl; omega)
  have hmn : m ≤ n := hprod ▸ Nat.le_mul_of_pos_right m hpow
  by_cases he : e < 9
  · -- a last digit that is not zero, stored beside the quotient
    have hd : m % 10 ≠ 0 := hdigit he
    refine ⟨1 + (m / 10 * 9 + m % 10 - 1) * 10 + e, ?_, ?_⟩
    · simp only [CompressAmount, h0, hr, if_false, if_pos he]
      rw [if_neg (by omega), Nat.mod_eq_of_lt (by omega)]
      rfl
    · rw [DecompressAmount_digit _ _ _ (by omega) he, Nat.div_add_mod', hprod,
        Nat.mod_eq_of_lt (by omega)]
  · -- nine tens divided out: what is left is stored less one
    have he' : e = 9 := by omega
    subst he'
    refine ⟨1 + (m - 1) * 10 + 9, ?_, ?_⟩
    · simp only [CompressAmount, h0, hr, if_false, lt_irrefl]
      rw [Nat.mod_eq_of_lt (by omega)]
      rfl
    · rw [DecompressAmount_nine, Nat.sub_add_cancel hm, hprod, Nat.mod_eq_of_lt (by omega)]

/-- What `CompressAmount` gives is a 64-bit number. -/
theorem CompressAmount_lt {n x : Nat} (h : CompressAmount n = .ok x) : x < 2 ^ 64 := by
  unfold CompressAmount at h
  split at h
  · cases h
    decide
  · dsimp only at h
    split at h
    · split at h
      · cases h
      · cases h
        exact Nat.mod_lt _ (by decide)
    · cases h
      exact Nat.mod_lt _ (by decide)

/-- An amount that a `uint64_t` holds below its top bit goes through it and back unchanged. -/
theorem u64ToAmount_amountToU64 {v : Int} (h0 : 0 ≤ v) (h63 : v < 2 ^ 63) :
    u64ToAmount (amountToU64 v) = v := by
  have hmod : v % 2 ^ 64 = v := Int.emod_eq_of_lt h0 (by omega)
  unfold u64ToAmount amountToU64
  rw [hmod, if_pos (by omega)]
  omega

theorem MoneyRange_iff (nValue : Int) : MoneyRange nValue = true ↔ 0 ≤ nValue ∧ nValue ≤ MAX_MONEY := by
  simp only [MoneyRange, Bool.and_eq_true, decide_eq_true_eq]

end Amount

/-! ## Standard scripts decompress to themselves -/

section Script

/-- A pay-to-pubkey-hash script is its template around the key hash. -/
theorem IsToKeyID_eq_some {script keyID : List (Fin 256)} (h : IsToKeyID script = some keyID) :
    keyID.length = 20 ∧
      script = [OP_DUP, OP_HASH160, 20] ++ keyID ++ [OP_EQUALVERIFY, OP_CHECKSIG] := by
  unfold IsToKeyID at h
  split at h
  · rename_i hform
    obtain ⟨hlen, h0, h1, h2, h23, h24⟩ := hform
    cases h
    refine ⟨by simp [hlen], eq_append_middle (k := 20) (by simp [hlen]) ?_ ?_⟩
    · intro i hi
      simp only [List.length_cons, List.length_nil] at hi
      interval_cases i <;> simp [h0, h1, h2]
    · intro i hi
      simp only [List.length_cons, List.length_nil] at hi
      interval_cases i <;> simp [h23, h24]
  · cases h

/-- A pay-to-script-hash script is its template around the script hash. -/
theorem IsToScriptID_eq_some {script scriptID : List (Fin 256)}
    (h : IsToScriptID script = some scriptID) :
    scriptID.length = 20 ∧ script = [OP_HASH160, 20] ++ scriptID ++ [OP_EQUAL] := by
  unfold IsToScriptID at h
  split at h
  · rename_i hform
    obtain ⟨hlen, h0, h1, h22⟩ := hform
    cases h
    refine ⟨by simp [hlen], eq_append_middle (k := 20) (by simp [hlen]) ?_ ?_⟩
    · intro i hi
      simp only [List.length_cons, List.length_nil] at hi
      interval_cases i <;> simp [h0, h1]
    · intro i hi
      simp only [List.length_cons, List.length_nil] at hi
      interval_cases i; simp [h22]
  · cases h

/-- A pay-to-pubkey script is its template around the key, compressed or uncompressed and fully
valid. -/
theorem IsToPubKey_eq_some {ops : PubKeyOps} {script pubkey : List (Fin 256)}
    (h : IsToPubKey ops script = some pubkey) :
    (pubkey.length = 33 ∧ (pubkey[0]? = some 0x02 ∨ pubkey[0]? = some 0x03) ∧
        script = [33] ++ pubkey ++ [OP_CHECKSIG]) ∨
      (pubkey.length = 65 ∧ pubkey[0]? = some 0x04 ∧ ops.IsFullyValid pubkey = true ∧
        script = [65] ++ pubkey ++ [OP_CHECKSIG]) := by
  unfold IsToPubKey at h
  split at h
  · rename_i hform
    obtain ⟨hlen, h0, h34, h1⟩ := hform
    cases h
    refine Or.inl ⟨by simp [hlen], by simpa using h1,
      eq_append_middle (k := 33) (by simp [hlen]) ?_ ?_⟩
    · intro i hi
      simp only [List.length_cons, List.length_nil] at hi
      interval_cases i; simp [h0]
    · intro i hi
      simp only [List.length_cons, List.length_nil] at hi
      interval_cases i; simp [h34]
  · split at h
    · rename_i hform
      obtain ⟨hlen, h0, h66, h1⟩ := hform
      dsimp only at h
      split at h
      · rename_i hvalid
        cases h
        refine Or.inr ⟨by simp [hlen], by simpa using h1, hvalid,
          eq_append_middle (k := 65) (by simp [hlen]) ?_ ?_⟩
        · intro i hi
          simp only [List.length_cons, List.length_nil] at hi
          interval_cases i; simp [h0]
        · intro i hi
          simp only [List.length_cons, List.length_nil] at hi
          interval_cases i; simp [h66]
      · cases h
    · cases h

/-- A key hash is its own short form under kind `0`. -/
theorem DecompressScript_keyID (ops : PubKeyOps) {keyID : List (Fin 256)} (hlen : keyID.length = 20) :
    DecompressScript ops 0 keyID =
      .ok (some ([OP_DUP, OP_HASH160, 20] ++ keyID ++ [OP_EQUALVERIFY, OP_CHECKSIG])) := by
  simp only [DecompressScript, List.take_of_length_le (le_of_eq hlen)]
  rfl

/-- A script hash is its own short form under kind `1`. -/
theorem DecompressScript_scriptID (ops : PubKeyOps) {scriptID : List (Fin 256)}
    (hlen : scriptID.length = 20) :
    DecompressScript ops 1 scriptID = .ok (some ([OP_HASH160, 20] ++ scriptID ++ [OP_EQUAL])) := by
  simp only [DecompressScript, List.take_of_length_le (le_of_eq hlen)]
  rfl

/-- A compressed key is its own short form: its first byte is the kind. -/
theorem DecompressScript_compressed (ops : PubKeyOps) {x : Fin 256} (hx : x = 0x02 ∨ x = 0x03)
    {tail : List (Fin 256)} (htail : tail.length = 32) :
    DecompressScript ops x.val tail = .ok (some ([33] ++ x :: tail ++ [OP_CHECKSIG])) := by
  have htake : tail.take 32 = tail := List.take_of_length_le (le_of_eq htail)
  rcases hx with rfl | rfl
  · show DecompressScript ops 2 tail = _
    simp only [DecompressScript, htake]
    rfl
  · show DecompressScript ops 3 tail = _
    simp only [DecompressScript, htake]
    rfl

/-- An uncompressed key is recovered from its x coordinate and the parity of its y coordinate. -/
theorem DecompressScript_uncompressed {ops : PubKeyOps} (hops : ops.Recovers)
    {pubkey : List (Fin 256)} (hlen : pubkey.length = 65) (hfirst : pubkey[0]? = some 0x04)
    (hvalid : ops.IsFullyValid pubkey = true) :
    DecompressScript ops (4 + (pubkey.getD 64 0).val % 2) ((pubkey.drop 1).take 32) =
      .ok (some ([65] ++ pubkey ++ [OP_CHECKSIG])) := by
  have hrec := hops pubkey hlen hfirst hvalid
  have htake : ((pubkey.drop 1).take 32).take 32 = (pubkey.drop 1).take 32 := by simp
  -- the kind is four or five, by the parity of the key's last byte
  rcases Nat.mod_two_eq_zero_or_one (pubkey.getD 64 0).val with h | h <;>
  · rw [h] at hrec ⊢
    simp only [DecompressScript, htake, Nat.reduceAdd, Nat.reduceSub] at hrec ⊢
    rw [hrec]
    dsimp only
    rw [if_neg (not_not.mpr hlen)]
    rfl

/-- The short form of a standard script is its kind, below `nSpecialScripts`, and as many bytes
as the kind has, from which `DecompressScript` gives the script back. -/
theorem DecompressScript_CompressScript {ops : PubKeyOps} (hops : ops.Recovers) {script : CScript}
    {compr : List (Fin 256)} (h : CompressScript ops script = some compr) :
    ∃ kind payload, compr = kind :: payload ∧ kind.val < nSpecialScripts ∧
      payload.length = GetSpecialScriptSize kind.val ∧
      DecompressScript ops kind.val payload = .ok (some script) := by
  unfold CompressScript at h
  split at h
  · -- a pay-to-pubkey-hash script
    next keyID hkey =>
    obtain ⟨hlen, rfl⟩ := IsToKeyID_eq_some hkey
    cases h
    exact ⟨0x00, keyID, rfl, by decide, by rw [hlen]; rfl, DecompressScript_keyID ops hlen⟩
  · split at h
    · -- a pay-to-script-hash script
      next scriptID hscript =>
      obtain ⟨hlen, rfl⟩ := IsToScriptID_eq_some hscript
      cases h
      exact ⟨0x01, scriptID, rfl, by decide, by rw [hlen]; rfl, DecompressScript_scriptID ops hlen⟩
    · split at h
      · next pubkey hpub =>
        rcases IsToPubKey_eq_some hpub with ⟨hlen, hfirst, rfl⟩ | ⟨hlen, hfirst, hvalid, rfl⟩
        · -- a compressed key is kept whole: its first byte is the kind
          rw [if_pos hfirst] at h
          cases h
          have hne : pubkey ≠ [] := List.ne_nil_of_length_pos (by omega)
          obtain ⟨x, tail, rfl⟩ := List.exists_cons_of_ne_nil hne
          have hx : x = 0x02 ∨ x = 0x03 := by simpa using hfirst
          have htail : tail.length = 32 := by simpa using hlen
          refine ⟨x, tail, by simp [List.take_of_length_le (le_of_eq htail)], ?_, ?_,
            DecompressScript_compressed ops hx htail⟩
          · rcases hx with rfl | rfl <;> decide
          · rcases hx with rfl | rfl <;> simp [GetSpecialScriptSize, htail]
        · -- an uncompressed key is stored as its x coordinate and the parity of its y
          have hnot : ¬(pubkey[0]? = some 0x02 ∨ pubkey[0]? = some 0x03) := by
            rw [hfirst]
            decide
          rw [if_neg hnot, if_pos hfirst] at h
          cases h
          have hkind : (Fin.ofNat 256 (0x04 ||| ((pubkey.getD 64 0).val &&& 0x01))).val =
              4 + (pubkey.getD 64 0).val % 2 := by
            rw [Fin.val_ofNat, or_and_one]
            omega
          refine ⟨_, _, rfl, by rw [hkind]; unfold nSpecialScripts; omega, ?_, ?_⟩
          · have hpayload : ((pubkey.drop 1).take 32).length = 32 := by simp [hlen]
            have hparity : (pubkey.getD 64 0).val % 2 < 2 := Nat.mod_lt _ (by omega)
            rw [hkind, GetSpecialScriptSize, hpayload]
            split_ifs <;> omega
          · rw [hkind]
            exact DecompressScript_uncompressed hops hlen hfirst hvalid
      · cases h

/-- `CScriptCompressor` reads back every script short enough to run, whatever `script` held
before, and leaves the bytes after it. -/
theorem CScriptCompressor.Unserialize_Serialize {ops : PubKeyOps} (hops : ops.Recovers)
    {script : CScript} (hlen : script.length ≤ MAX_SCRIPT_SIZE) (prior : CScript)
    (rest : List (Fin 256)) :
    CScriptCompressor.Unserialize ops prior (CScriptCompressor.Serialize ops script ++ rest) =
      .ok (script, rest) := by
  unfold CScriptCompressor.Serialize
  split
  · next compr hcompr =>
    obtain ⟨kind, payload, rfl, hkind, hpayload, hdec⟩ := DecompressScript_CompressScript hops hcompr
    -- the kind is one byte, below the continuation bit
    have hread : ReadVarInt (2 ^ 32 - 1) (kind :: payload ++ rest) = .ok (kind.val, payload ++ rest) := by
      unfold nSpecialScripts at hkind
      rw [List.cons_append, ReadVarInt, readVarIntFrom_cons _ 0 _ _ (Nat.zero_le _), if_neg (by omega),
        Nat.zero_mul, Nat.zero_add, Nat.mod_eq_of_lt (by omega)]
      rfl
    simp only [CScriptCompressor.Unserialize, hread, Except.ok_bind, if_pos hkind]
    rw [← hpayload, CDataStream.read_append]
    simp only [Except.ok_bind, hdec]
    rfl
  · -- the script itself, after its size past the special kinds
    have hsize : (script.length + nSpecialScripts) % 2 ^ 32 = script.length + nSpecialScripts :=
      Nat.mod_eq_of_lt (by unfold nSpecialScripts MAX_SCRIPT_SIZE at *; omega)
    have hread := @readVarIntFrom_WriteVarInt (2 ^ 32 - 1) (script.length + nSpecialScripts)
      (by unfold nSpecialScripts MAX_SCRIPT_SIZE at *; omega) (script ++ rest)
    rw [hsize, List.append_assoc]
    simp only [CScriptCompressor.Unserialize, hread, Except.ok_bind, Nat.add_sub_cancel,
      if_neg (Nat.not_lt.mpr (Nat.le_add_left _ _)), if_neg (Nat.not_lt.mpr hlen)]
    exact CDataStream.read_append script rest

end Script

/-! ## Coins read back as written -/

section Coins

/-- `CTxOutCompressor` reads back every output with an amount in the money range and a script
short enough to run, whatever `txout` held before, and leaves the bytes after it. -/
theorem CTxOutCompressor.Unserialize_Serialize {ops : PubKeyOps} (hops : ops.Recovers)
    {txout : CTxOut} (hmoney : MoneyRange txout.nValue = true)
    (hlen : txout.scriptPubKey.length ≤ MAX_SCRIPT_SIZE) :
    ∃ bytes, CTxOutCompressor.Serialize ops txout = .ok bytes ∧
      ∀ prior rest, CTxOutCompressor.Unserialize ops prior (bytes ++ rest) = .ok (txout, rest) := by
  have hrange := (MoneyRange_iff _).mp hmoney
  have hmax : MAX_MONEY = 2100000000000000 := rfl
  obtain ⟨x, hx, hdx⟩ := DecompressAmount_CompressAmount (n := amountToU64 txout.nValue)
    (by unfold amountToU64; omega)
  refine ⟨WriteVarInt x ++ CScriptCompressor.Serialize ops txout.scriptPubKey, ?_, fun prior rest => ?_⟩
  · simp only [CTxOutCompressor.Serialize, hx, Except.ok_bind]
    rfl
  · -- the amount, then the script
    have hread := @readVarIntFrom_WriteVarInt (2 ^ 64 - 1) x (by have := CompressAmount_lt hx; omega)
      (CScriptCompressor.Serialize ops txout.scriptPubKey ++ rest)
    rw [List.append_assoc]
    simp only [CTxOutCompressor.Unserialize, hread, Except.ok_bind,
      CScriptCompressor.Unserialize_Serialize hops hlen, hdx, u64ToAmount_amountToU64 hrange.1 (by omega)]
    rfl

/-- The code `Coin::Serialize` makes of a height and the two flags gives them back to
`Coin::Unserialize`: the coinbase flag in its lowest bit, the game flag in the next, the height
above them. -/
theorem coinCode_spec (h : Nat) (cb gt : Bool) :
    let code := h * 4 + (if cb then 1 else 0) + (if gt then 1 else 0) * 2
    (code &&& 1 == 1) = cb ∧ (code &&& 2 != 0) = gt ∧ code >>> 2 = h := by
  intro code
  rw [Nat.and_one_is_mod, and_two, Nat.shiftRight_eq_div_pow]
  -- the two flags are the low bits of the code, whichever they are
  cases cb <;> cases gt <;> simp only [code, if_true, if_false, Bool.false_eq_true] <;>
    refine ⟨?_, ?_, ?_⟩ <;> simp <;> omega

/-- `Coin::Unserialize` reads back every coin the node writes, with an amount in the money range
and a script that can be spent, whatever `coin` held before, and leaves the bytes after it: the
coins database stands for a map from outpoints to coins. -/
theorem Coin.Serialize_roundTrip {ops : PubKeyOps} (hops : ops.Recovers) {coin : Coin}
    (hmoney : MoneyRange coin.out.nValue = true)
    (hscript : coin.out.scriptPubKey.IsUnspendable = false) :
    ∃ bytes, coin.Serialize ops = .ok bytes ∧
      ∀ prior rest, Coin.Unserialize ops prior (bytes ++ rest) = .ok (coin, rest) := by
  have hlen : coin.out.scriptPubKey.length ≤ MAX_SCRIPT_SIZE := by
    simp only [CScript.IsUnspendable, Bool.or_eq_false_iff, decide_eq_false_iff_not, not_lt] at hscript
    exact hscript.2
  have hspent : coin.IsSpent = false := by
    have h0 : 0 ≤ coin.out.nValue := ((MoneyRange_iff _).mp hmoney).1
    simp only [Coin.IsSpent, CTxOut.IsNull, beq_eq_false_iff_ne]
    omega
  obtain ⟨outBytes, hout, hread⟩ := CTxOutCompressor.Unserialize_Serialize hops hmoney hlen
  obtain ⟨hcb, hgt, hh⟩ := coinCode_spec coin.nHeight.toNat coin.fCoinBase coin.fGameTx
  generalize hcode : coin.nHeight.toNat * 4 + (if coin.fCoinBase then 1 else 0) +
    (if coin.fGameTx then 1 else 0) * 2 = code at hcb hgt hh
  -- the code fits in 32 bits: a 30-bit height and two flags
  have hcode32 : code < 2 ^ 32 := by
    have := coin.nHeight.isLt
    rw [← hcode]
    split_ifs <;> omega
  refine ⟨WriteVarInt code ++ outBytes, ?_, fun prior rest => ?_⟩
  · simp only [Coin.Serialize, hspent, hout, hcode, Nat.mod_eq_of_lt hcode32]
    rfl
  · have hv := @readVarIntFrom_WriteVarInt (2 ^ 32 - 1) code (by omega) (outBytes ++ rest)
    rw [List.append_assoc]
    simp only [Coin.Unserialize, hv, Except.ok_bind, hread prior.out rest, hcb, hgt, hh,
      BitVec.ofNat_toNat]
    rfl

/-- A pay-to-pubkey-hash coin of a coinbase at height 120, over a curve library that finds no key
fully valid. -/
theorem Coin.Serialize_roundTrip_payToKeyHash :
    let ops : PubKeyOps := ⟨fun _ => false, fun _ => none⟩
    let coin : Coin := ⟨⟨5000, [OP_DUP, OP_HASH160, 20] ++ List.replicate 20 7 ++
      [OP_EQUALVERIFY, OP_CHECKSIG]⟩, true, false, 120⟩
    ops.Recovers ∧ MoneyRange coin.out.nValue = true ∧ coin.out.scriptPubKey.IsUnspendable = false ∧
      ∃ bytes, coin.Serialize ops = .ok bytes ∧
        ∀ prior rest, Coin.Unserialize ops prior (bytes ++ rest) = .ok (coin, rest) := by
  intro ops coin
  have hops : ops.Recovers := fun _ _ _ hvalid => absurd hvalid Bool.false_ne_true
  exact ⟨hops, by decide, by decide, Coin.Serialize_roundTrip hops (by decide) (by decide)⟩

end Coins

end Huntercore
