import Mathlib
import Huntercore.Names.Common

/-!
# Name scripts

A name operation is an output script made of the operation's opcode, its arguments as data
pushes, drops that take them off the stack again, and then the address script that owns the
output (script/names.cpp). `CNameScript`'s constructor takes such a script apart with
`CScript::GetOp`: it reads the opcode, then pushes up to the first `OP_DROP`, `OP_2DROP` or
`OP_NOP`, skips every drop or `OP_NOP` that follows, and steps one byte back (`pc--`) to where
it takes the address to start. The `build*` functions put scripts together with
`CScript::operator<<`, which writes each byte vector with the shortest of four push forms.

The round trip holds when the address begins with a one-byte operation that is not a drop or
`OP_NOP` (`parse_build`): the step back then lands on the address. An address that begins with a
drop or `OP_NOP` loses it to the skipping loop.
-/

namespace Huntercore

/-- `opcodetype`, as the byte that encodes it. -/
abbrev opcodetype := Fin 256

def OP_0 : opcodetype := 0x00
def OP_PUSHDATA1 : opcodetype := 0x4c
def OP_PUSHDATA2 : opcodetype := 0x4d
def OP_PUSHDATA4 : opcodetype := 0x4e
/-- `OP_NAME_NEW = OP_1`. -/
def OP_NAME_NEW : opcodetype := 0x51
/-- `OP_NAME_FIRSTUPDATE = OP_2`. -/
def OP_NAME_FIRSTUPDATE : opcodetype := 0x52
/-- `OP_NAME_UPDATE = OP_3`. -/
def OP_NAME_UPDATE : opcodetype := 0x53
def OP_NOP : opcodetype := 0x61
def OP_RETURN : opcodetype := 0x6a
def OP_2DROP : opcodetype := 0x6d
def OP_DROP : opcodetype := 0x75
def OP_DUP : opcodetype := 0x76
def OP_EQUAL : opcodetype := 0x87
def OP_EQUALVERIFY : opcodetype := 0x88
def OP_HASH160 : opcodetype := 0xa9
def OP_CHECKSIG : opcodetype := 0xac
def OP_INVALIDOPCODE : opcodetype := 0xff

/-- `uint160`: twenty bytes. -/
structure uint160 where
  bytes : List (Fin 256)
  length_bytes : bytes.length = 20

def ToByteVector (h : uint160) : valtype := h.bytes

/-! ## Reading operations -/

def ReadLE16 (b₀ b₁ : Fin 256) : Nat := b₀.val + 2 ^ 8 * b₁.val

def ReadLE32 (b₀ b₁ b₂ b₃ : Fin 256) : Nat :=
  b₀.val + 2 ^ 8 * b₁.val + 2 ^ 16 * b₂.val + 2 ^ 24 * b₃.val

/-- What `GetScriptOp` leaves behind: whether it read an operation, the position after what it
read, the opcode (`OP_INVALIDOPCODE` where it failed) and the pushed bytes. -/
structure ScriptOp where
  ok : Bool
  pc : Nat
  opcode : opcodetype
  vch : valtype
  deriving DecidableEq, Repr

/-- The size of a push with opcode `opcode` and the length of its size field, read from the
bytes after the opcode; `none` where they end inside the size field. -/
def pushSize (opcode : opcodetype) (rest : List (Fin 256)) : Option (Nat × Nat) :=
  if opcode < OP_PUSHDATA1 then some (opcode.val, 0)
  else if opcode = OP_PUSHDATA1 then
    match rest with
    | b₀ :: _ => some (b₀.val, 1)
    | [] => none
  else if opcode = OP_PUSHDATA2 then
    match rest with
    | b₀ :: b₁ :: _ => some (ReadLE16 b₀ b₁, 2)
    | _ => none
  else
    match rest with
    | b₀ :: b₁ :: b₂ :: b₃ :: _ => some (ReadLE32 b₀ b₁ b₂ b₃, 4)
    | _ => none

/-- `GetScriptOp` at position `pc` of `script`. Where it fails, the position is past whatever it
had read. -/
def GetScriptOp (script : CScript) (pc : Nat) : ScriptOp :=
  match script.drop pc with
  | [] => ⟨false, pc, OP_INVALIDOPCODE, []⟩
  | opcode :: rest =>
    if opcode ≤ OP_PUSHDATA4 then
      match pushSize opcode rest with
      | none => ⟨false, pc + 1, OP_INVALIDOPCODE, []⟩
      | some (nSize, nField) =>
        if (rest.drop nField).length < nSize then ⟨false, pc + 1 + nField, OP_INVALIDOPCODE, []⟩
        else ⟨true, pc + 1 + nField + nSize, opcode, (rest.drop nField).take nSize⟩
    else ⟨true, pc + 1, opcode, []⟩

/-- A successful read moves forward, from inside the script. -/
theorem GetScriptOp_advance {script : CScript} {pc : Nat} (h : (GetScriptOp script pc).ok = true) :
    pc < (GetScriptOp script pc).pc ∧ pc < script.length := by
  unfold GetScriptOp at h ⊢
  cases hd : script.drop pc with
  | nil =>
    rw [hd] at h
    cases h
  | cons opcode rest =>
    have hlt : pc < script.length := by
      have hlen := congrArg List.length hd
      rw [List.length_drop, List.length_cons] at hlen
      omega
    refine ⟨?_, hlt⟩
    dsimp only
    -- every branch past the end of the script moves past the opcode
    split
    · split
      · exact Nat.lt_succ_self pc
      · split
        · dsimp only
          omega
        · dsimp only
          omega
    · exact Nat.lt_succ_self pc

/-- `OP_DROP`, `OP_2DROP` or `OP_NOP`: the operations that end the arguments of a name script. -/
def isDropOrNop (opcode : opcodetype) : Bool :=
  opcode == OP_DROP || opcode == OP_2DROP || opcode == OP_NOP

/-- The argument loop of the constructor: the pushes up to the first drop or `OP_NOP`. It gives
the arguments, the opcode that ended the loop and the position after it, and `none` where the
constructor returns early. -/
def readArgs (script : CScript) (pc : Nat) (args : List valtype) :
    Option (List valtype × opcodetype × Nat) :=
  let r := GetScriptOp script pc
  if _hok : r.ok = true then
    if isDropOrNop r.opcode then some (args, r.opcode, r.pc)
    else if r.opcode ≤ OP_PUSHDATA4 then readArgs script r.pc (args ++ [r.vch])
    else none
  else none
termination_by script.length - pc
decreasing_by
  have := GetScriptOp_advance _hok
  omega

/-- `while (opcode == OP_DROP || ...) if (!script.GetOp (pc, opcode)) break;`: the position after
the first operation that is not a drop or `OP_NOP`, or after the failed read. -/
def skipDrops (script : CScript) (opcode : opcodetype) (pc : Nat) : Nat :=
  if isDropOrNop opcode then
    let r := GetScriptOp script pc
    if _hok : r.ok = true then skipDrops script r.opcode r.pc else r.pc
  else pc
termination_by script.length - pc
decreasing_by
  have := GetScriptOp_advance _hok
  omega

/-! ## The parsed script -/

/-- `CNameScript`: the operation (`OP_NOP` for a script that is not a name operation), the
address part and the arguments. -/
structure CNameScript where
  op : opcodetype
  address : CScript
  args : List valtype
  deriving DecidableEq, Repr

/-- The argument counts the constructor accepts for each name operation. -/
def argsValid (nameOp : opcodetype) (n : Nat) : Bool :=
  if nameOp = OP_NAME_NEW then n == 1
  else if nameOp = OP_NAME_FIRSTUPDATE then n == 2 || n == 3
  else if nameOp = OP_NAME_UPDATE then n == 2
  else false

namespace CNameScript

/-- The constructor `CNameScript (const CScript&)`. On each early return the object keeps
`op = OP_NOP` and the whole script as its address; its arguments are never read then. -/
def parse (script : CScript) : CNameScript :=
  let r := GetScriptOp script 0
  if r.ok then
    match readArgs script r.pc [] with
    | some (args, opcode, pc) =>
      -- `pc--`: one byte back from where the skipping of drops stopped
      let pc := skipDrops script opcode pc - 1
      if argsValid r.opcode args.length then ⟨r.opcode, script.drop pc, args⟩
      else ⟨OP_NOP, script, []⟩
    | none => ⟨OP_NOP, script, []⟩
  else ⟨OP_NOP, script, []⟩

/-- `isNameOp`, which asserts that the operation is `OP_NOP` or a name operation. -/
def isNameOp (s : CNameScript) : Option Bool :=
  if s.op = OP_NAME_NEW ∨ s.op = OP_NAME_FIRSTUPDATE ∨ s.op = OP_NAME_UPDATE then some true
  else if s.op = OP_NOP then some false
  else none

def getAddress (s : CNameScript) : CScript := s.address

/-- `getNameOp`, which asserts a name operation. -/
def getNameOp (s : CNameScript) : Option opcodetype :=
  if s.op = OP_NAME_NEW ∨ s.op = OP_NAME_FIRSTUPDATE ∨ s.op = OP_NAME_UPDATE then some s.op
  else none

/-- `isAnyUpdate`, which asserts a name operation. -/
def isAnyUpdate (s : CNameScript) : Option Bool :=
  if s.op = OP_NAME_NEW then some false
  else if s.op = OP_NAME_FIRSTUPDATE ∨ s.op = OP_NAME_UPDATE then some true
  else none

/-- `isNewStyleRegistration`, which asserts `OP_NAME_FIRSTUPDATE`. -/
def isNewStyleRegistration (s : CNameScript) : Option Bool :=
  if s.op = OP_NAME_FIRSTUPDATE then some (s.args.length == 2) else none

/-- `getOpName`, valid for the two updates. -/
def getOpName (s : CNameScript) : Option valtype :=
  if s.op = OP_NAME_FIRSTUPDATE ∨ s.op = OP_NAME_UPDATE then s.args[0]? else none

/-- `getOpValue`: the last argument of a new-style registration or an update, the third of an
old-style registration. -/
def getOpValue (s : CNameScript) : Option valtype :=
  if s.op = OP_NAME_FIRSTUPDATE then
    if s.args.length = 2 then s.args[1]? else s.args[2]?
  else if s.op = OP_NAME_UPDATE then s.args[1]?
  else none

/-- `getOpRand`, which asserts an old-style registration. -/
def getOpRand (s : CNameScript) : Option valtype :=
  if s.op = OP_NAME_FIRSTUPDATE ∧ s.args.length ≠ 2 then s.args[1]? else none

/-- `getOpHash`, which asserts `OP_NAME_NEW`. -/
def getOpHash (s : CNameScript) : Option valtype :=
  if s.op = OP_NAME_NEW then s.args[0]? else none

end CNameScript

/-! ## Writing scripts -/

/-- `WriteLE16`, of a size that the caller passes as a `uint16_t`. -/
def WriteLE16 (x : Nat) : List (Fin 256) := [Fin.ofNat 256 x, Fin.ofNat 256 (x / 2 ^ 8)]

/-- `WriteLE32`, of a size that the caller passes as a `uint32_t`. -/
def WriteLE32 (x : Nat) : List (Fin 256) :=
  [Fin.ofNat 256 x, Fin.ofNat 256 (x / 2 ^ 8), Fin.ofNat 256 (x / 2 ^ 16),
    Fin.ofNat 256 (x / 2 ^ 24)]

/-- `CScript::operator<< (opcodetype)`. -/
def pushOpcode (s : CScript) (opcode : opcodetype) : CScript := s ++ [opcode]

/-- The opcode and size field `CScript::operator<< (const std::vector<unsigned char>&)` writes
before `n` bytes: the size itself below `OP_PUSHDATA1`, else `OP_PUSHDATA1`, `OP_PUSHDATA2` or
`OP_PUSHDATA4` and the size in one, two or four bytes. -/
def pushHeader (n : Nat) : List (Fin 256) :=
  if n < OP_PUSHDATA1.val then [Fin.ofNat 256 n]
  else if n ≤ 0xff then [OP_PUSHDATA1, Fin.ofNat 256 n]
  else if n ≤ 0xffff then OP_PUSHDATA2 :: WriteLE16 n
  else OP_PUSHDATA4 :: WriteLE32 n

/-- `CScript::operator<< (const std::vector<unsigned char>&)`. -/
def pushData (s : CScript) (b : valtype) : CScript := s ++ pushHeader b.length ++ b

namespace CNameScript

def buildNameNew (addr : CScript) (hash : uint160) : CScript :=
  let s := pushOpcode [] OP_NAME_NEW
  let s := pushData s (ToByteVector hash)
  let s := pushOpcode s OP_2DROP
  s ++ addr

def buildNameFirstupdate (addr : CScript) (name value rand : valtype) : CScript :=
  let s := pushOpcode [] OP_NAME_FIRSTUPDATE
  let s := pushData s name
  let s := pushData s rand
  let s := pushData s value
  let s := pushOpcode s OP_2DROP
  let s := pushOpcode s OP_2DROP
  s ++ addr

def buildNameRegister (addr : CScript) (name value : valtype) : CScript :=
  let s := pushOpcode [] OP_NAME_FIRSTUPDATE
  let s := pushData s name
  let s := pushData s value
  let s := pushOpcode s OP_2DROP
  let s := pushOpcode s OP_DROP
  s ++ addr

def buildNameUpdate (addr : CScript) (name value : valtype) : CScript :=
  let s := pushOpcode [] OP_NAME_UPDATE
  let s := pushData s name
  let s := pushData s value
  let s := pushOpcode s OP_2DROP
  let s := pushOpcode s OP_DROP
  s ++ addr

end CNameScript

/-! ## Reading back what was written -/

theorem List.drop_add_of_drop_eq {α : Type} {l a r : List α} {n : Nat} (h : l.drop n = a ++ r) :
    l.drop (n + a.length) = r := by
  rw [← List.drop_drop, h, List.drop_left]

theorem ReadLE16_WriteLE16 {x : Nat} (hx : x < 2 ^ 16) :
    ReadLE16 (Fin.ofNat 256 x) (Fin.ofNat 256 (x / 2 ^ 8)) = x := by
  simp only [ReadLE16, Fin.val_ofNat]
  omega

theorem ReadLE32_WriteLE32 {x : Nat} (hx : x < 2 ^ 32) :
    ReadLE32 (Fin.ofNat 256 x) (Fin.ofNat 256 (x / 2 ^ 8)) (Fin.ofNat 256 (x / 2 ^ 16))
      (Fin.ofNat 256 (x / 2 ^ 24)) = x := by
  simp only [ReadLE32, Fin.val_ofNat]
  omega

/-- A push read where its size field says it ends. -/
theorem GetScriptOp_of_pushSize {script : CScript} {pc : Nat} {opcode : opcodetype}
    {field data rest : List (Fin 256)} (h : script.drop pc = opcode :: (field ++ (data ++ rest)))
    (hop : opcode ≤ OP_PUSHDATA4)
    (hs : pushSize opcode (field ++ (data ++ rest)) = some (data.length, field.length)) :
    GetScriptOp script pc = ⟨true, pc + 1 + field.length + data.length, opcode, data⟩ := by
  unfold GetScriptOp
  rw [h]
  dsimp only
  rw [if_pos hop, hs]
  dsimp only
  rw [List.drop_left, if_neg (by simp), List.take_left]

/-- An operation of one byte: `OP_0`, or an opcode that pushes nothing. -/
theorem GetScriptOp_oneByte {script : CScript} {pc : Nat} {opcode : opcodetype}
    {rest : List (Fin 256)} (h : script.drop pc = opcode :: rest)
    (hop : opcode = OP_0 ∨ OP_PUSHDATA4 < opcode) :
    GetScriptOp script pc = ⟨true, pc + 1, opcode, []⟩ := by
  rcases hop with rfl | hop
  · -- `OP_0` pushes zero bytes
    have h' : script.drop pc = OP_0 :: ([] ++ ([] ++ rest)) := h
    exact GetScriptOp_of_pushSize h' (by decide) rfl
  · unfold GetScriptOp
    rw [h]
    dsimp only
    rw [if_neg (not_le.mpr hop)]

/-- `operator<<` writes a byte vector of fewer than `2 ^ 32` bytes so that `GetScriptOp` reads it
back, with a push opcode. -/
theorem GetScriptOp_pushData {script : CScript} {pc : Nat} {b rest : List (Fin 256)}
    (hb : b.length < 2 ^ 32) (h : script.drop pc = pushHeader b.length ++ b ++ rest) :
    ∃ opcode, opcode ≤ OP_PUSHDATA4 ∧
      GetScriptOp script pc = ⟨true, pc + (pushHeader b.length).length + b.length, opcode, b⟩ := by
  unfold pushHeader at h ⊢
  split_ifs at h ⊢ with h₁ h₂ h₃
  · -- the size is the opcode itself
    have hval : (Fin.ofNat 256 b.length).val = b.length := by
      rw [Fin.val_ofNat]
      exact Nat.mod_eq_of_lt (by omega)
    have hlt : Fin.ofNat 256 b.length < OP_PUSHDATA1 := by
      rw [Fin.lt_def, hval]
      exact h₁
    have hs : pushSize (Fin.ofNat 256 b.length) ([] ++ (b ++ rest)) = some (b.length, 0) := by
      unfold pushSize
      rw [if_pos hlt, hval]
    refine ⟨_, le_of_lt (lt_trans hlt (by decide)), ?_⟩
    rw [GetScriptOp_of_pushSize (by rw [h]; rfl) (le_of_lt (lt_trans hlt (by decide))) hs]
    rfl
  · -- `OP_PUSHDATA1` and one byte of size
    have hs : pushSize OP_PUSHDATA1 ([Fin.ofNat 256 b.length] ++ (b ++ rest)) =
        some (b.length, 1) := by
      unfold pushSize
      rw [if_neg (by decide), if_pos rfl]
      simp only [List.cons_append, List.nil_append, Fin.val_ofNat]
      rw [Nat.mod_eq_of_lt (by omega)]
    refine ⟨OP_PUSHDATA1, by decide, ?_⟩
    rw [GetScriptOp_of_pushSize (by rw [h]; rfl) (by decide) hs]
    rfl
  · -- `OP_PUSHDATA2` and two bytes of size
    have hs : pushSize OP_PUSHDATA2 (WriteLE16 b.length ++ (b ++ rest)) = some (b.length, 2) := by
      unfold pushSize
      rw [if_neg (by decide), if_neg (by decide), if_pos rfl]
      simp only [WriteLE16, List.cons_append, List.nil_append]
      rw [ReadLE16_WriteLE16 (by omega)]
    refine ⟨OP_PUSHDATA2, by decide, ?_⟩
    rw [GetScriptOp_of_pushSize (by rw [h]; simp) (by decide) hs]
    simp [WriteLE16]
  · -- `OP_PUSHDATA4` and four bytes of size
    have hs : pushSize OP_PUSHDATA4 (WriteLE32 b.length ++ (b ++ rest)) = some (b.length, 4) := by
      unfold pushSize
      rw [if_neg (by decide), if_neg (by decide), if_neg (by decide)]
      simp only [WriteLE32, List.cons_append, List.nil_append]
      rw [ReadLE32_WriteLE32 hb]
    refine ⟨_, le_refl _, ?_⟩
    rw [GetScriptOp_of_pushSize (by rw [h]; simp) (le_refl _) hs]
    simp [WriteLE32]

theorem lt_of_isDropOrNop {opcode : opcodetype} (h : isDropOrNop opcode = true) :
    OP_PUSHDATA4 < opcode := by
  simp only [isDropOrNop, Bool.or_eq_true, beq_iff_eq] at h
  rcases h with (rfl | rfl) | rfl <;> decide

/-- A push is never a drop. -/
theorem isDropOrNop_of_le {opcode : opcodetype} (h : opcode ≤ OP_PUSHDATA4) :
    isDropOrNop opcode = false := by
  cases hd : isDropOrNop opcode
  · rfl
  · exact absurd (lt_of_isDropOrNop hd) (not_lt.mpr h)

/-- The pushes of a list of arguments, one after the other. -/
def encodeArgs (args : List valtype) : List (Fin 256) :=
  (args.map fun b => pushHeader b.length ++ b).flatten

@[simp] theorem encodeArgs_nil : encodeArgs [] = [] := rfl

@[simp] theorem encodeArgs_cons (b : valtype) (bs : List valtype) :
    encodeArgs (b :: bs) = pushHeader b.length ++ b ++ encodeArgs bs := by
  simp [encodeArgs]

/-- The argument loop reads back the pushes of `args` and stops at the drop after them. -/
theorem readArgs_encodeArgs {script : CScript} {opcode : opcodetype} {rest : List (Fin 256)}
    (hop : isDropOrNop opcode = true) :
    ∀ (args : List valtype) (pc : Nat) (acc : List valtype), (∀ b ∈ args, b.length < 2 ^ 32) →
      script.drop pc = encodeArgs args ++ opcode :: rest →
      readArgs script pc acc = some (acc ++ args, opcode, pc + (encodeArgs args).length + 1)
  | [], pc, acc, _, h => by
    have hr := GetScriptOp_oneByte h (Or.inr (lt_of_isDropOrNop hop))
    rw [readArgs, hr]
    simp [hop]
  | b :: bs, pc, acc, hb, h => by
    have h' : script.drop pc = pushHeader b.length ++ b ++ (encodeArgs bs ++ opcode :: rest) := by
      rw [h, encodeArgs_cons, List.append_assoc]
    obtain ⟨op, hle, hr⟩ := GetScriptOp_pushData (hb b List.mem_cons_self) h'
    have hnext := List.drop_add_of_drop_eq h'
    rw [List.length_append, ← Nat.add_assoc] at hnext
    rw [readArgs, hr]
    simp only [dite_true, isDropOrNop_of_le hle, Bool.false_eq_true, if_false, if_pos hle]
    -- the rest of the arguments, from the position after this push
    rw [readArgs_encodeArgs hop bs _ _ (fun b' hb' => hb b' (List.mem_cons_of_mem b hb')) hnext]
    simp only [encodeArgs_cons, List.length_append, List.append_assoc, List.singleton_append,
      Nat.add_assoc]

/-- The skipping loop, started on a drop, passes the drops that follow and stops after the first
other operation, when that is one byte long. -/
theorem skipDrops_drops {script : CScript} {b : opcodetype} {rest : List (Fin 256)}
    (hb : b = OP_0 ∨ OP_PUSHDATA4 < b) (hbd : isDropOrNop b = false) :
    ∀ (drops : List opcodetype) (opcode : opcodetype) (pc : Nat), isDropOrNop opcode = true →
      (∀ d ∈ drops, isDropOrNop d = true) → script.drop pc = drops ++ b :: rest →
      skipDrops script opcode pc = pc + drops.length + 1
  | [], opcode, pc, hop, _, h => by
    have hr := GetScriptOp_oneByte h hb
    rw [skipDrops, if_pos hop, hr]
    simp only [dite_true]
    rw [skipDrops, if_neg (by simp [hbd])]
    rfl
  | d :: ds, opcode, pc, hop, hds, h => by
    have hd := hds d List.mem_cons_self
    have hr := GetScriptOp_oneByte h (Or.inr (lt_of_isDropOrNop hd))
    have h₁ : script.drop pc = [d] ++ (ds ++ b :: rest) := h
    have hnext : script.drop (pc + 1) = ds ++ b :: rest := List.drop_add_of_drop_eq h₁
    rw [skipDrops, if_pos hop, hr]
    simp only [dite_true]
    rw [skipDrops_drops hb hbd ds d (pc + 1) hd (fun d' hd' => hds d' (List.mem_cons_of_mem d hd'))
      hnext, List.length_cons]
    omega

/-- A script made of a name operation, pushes of its arguments, a drop, more drops, and an
address that starts with a one-byte operation other than a drop is taken apart into exactly
these. -/
theorem parse_nameScript {nameOp d b : opcodetype} {args : List valtype}
    {drops : List opcodetype} {rest : CScript} (hname : OP_PUSHDATA4 < nameOp)
    (hargs : ∀ a ∈ args, a.length < 2 ^ 32) (hvalid : argsValid nameOp args.length = true)
    (hd : isDropOrNop d = true) (hds : drops.all isDropOrNop = true)
    (hb : b = OP_0 ∨ OP_PUSHDATA4 < b) (hbd : isDropOrNop b = false) :
    CNameScript.parse (nameOp :: (encodeArgs args ++ d :: (drops ++ b :: rest))) =
      ⟨nameOp, b :: rest, args⟩ := by
  set script := nameOp :: (encodeArgs args ++ d :: (drops ++ b :: rest))
  -- the positions where the arguments, the drops and the address start
  have h₁ : script.drop 1 = encodeArgs args ++ d :: (drops ++ b :: rest) := rfl
  have h₂ : script.drop (1 + (encodeArgs args).length) = [d] ++ (drops ++ b :: rest) :=
    List.drop_add_of_drop_eq h₁
  have h₃ : script.drop (1 + (encodeArgs args).length + 1) = drops ++ b :: rest :=
    @List.drop_add_of_drop_eq _ script [d] _ _ h₂
  have h₄ : script.drop (1 + (encodeArgs args).length + 1 + drops.length) = b :: rest :=
    List.drop_add_of_drop_eq h₃
  have hr : GetScriptOp script 0 = ⟨true, 1, nameOp, []⟩ := GetScriptOp_oneByte rfl (Or.inr hname)
  have hread := readArgs_encodeArgs hd args 1 [] hargs h₁
  have hskip := skipDrops_drops hb hbd drops d _ hd (fun d' hd' => List.all_eq_true.mp hds d' hd') h₃
  unfold CNameScript.parse
  rw [hr]
  dsimp only
  rw [hread]
  dsimp only
  rw [hskip, Nat.add_sub_cancel, List.nil_append, if_pos rfl, if_pos hvalid, h₄]

theorem nameOp_of_argsValid {nameOp : opcodetype} {n : Nat} (h : argsValid nameOp n = true) :
    nameOp = OP_NAME_NEW ∨ nameOp = OP_NAME_FIRSTUPDATE ∨ nameOp = OP_NAME_UPDATE := by
  unfold argsValid at h
  split_ifs at h with h₁ h₂ h₃
  · exact Or.inl h₁
  · exact Or.inr (Or.inl h₂)
  · exact Or.inr (Or.inr h₃)

/-- The constructor leaves `OP_NOP` or a name operation, so the assertion of `isNameOp` holds
for every parsed script. -/
theorem isNameOp_parse_isSome (script : CScript) :
    (CNameScript.parse script).isNameOp.isSome = true := by
  have hnop : (⟨OP_NOP, script, []⟩ : CNameScript).isNameOp = some false := rfl
  unfold CNameScript.parse
  dsimp only
  split
  · split
    · split
      · next hvalid =>
        simp [CNameScript.isNameOp, nameOp_of_argsValid hvalid]
      · rw [hnop]
        rfl
    · rw [hnop]
      rfl
  · rw [hnop]
    rfl

/-! ## The round trip -/

/-- An address whose first operation is one byte long and not a drop or `OP_NOP`. -/
def plainStart : CScript → Bool
  | [] => false
  | b :: _ => (b == OP_0 || decide (OP_PUSHDATA4 < b)) && !isDropOrNop b

theorem exists_of_plainStart {addr : CScript} (h : plainStart addr = true) :
    ∃ b rest, addr = b :: rest ∧ (b = OP_0 ∨ OP_PUSHDATA4 < b) ∧ isDropOrNop b = false := by
  cases addr with
  | nil => cases h
  | cons b rest =>
    simp only [plainStart, Bool.and_eq_true, Bool.or_eq_true, beq_iff_eq, decide_eq_true_eq,
      Bool.not_eq_true'] at h
    exact ⟨b, rest, rfl, h⟩

namespace CNameScript

theorem buildNameNew_eq (addr : CScript) (hash : uint160) :
    buildNameNew addr hash =
      OP_NAME_NEW :: (encodeArgs [ToByteVector hash] ++ OP_2DROP :: ([] ++ addr)) := by
  simp [buildNameNew, pushOpcode, pushData]

theorem buildNameFirstupdate_eq (addr : CScript) (name value rand : valtype) :
    buildNameFirstupdate addr name value rand =
      OP_NAME_FIRSTUPDATE :: (encodeArgs [name, rand, value] ++ OP_2DROP :: ([OP_2DROP] ++ addr)) := by
  simp [buildNameFirstupdate, pushOpcode, pushData]

theorem buildNameRegister_eq (addr : CScript) (name value : valtype) :
    buildNameRegister addr name value =
      OP_NAME_FIRSTUPDATE :: (encodeArgs [name, value] ++ OP_2DROP :: ([OP_DROP] ++ addr)) := by
  simp [buildNameRegister, pushOpcode, pushData]

theorem buildNameUpdate_eq (addr : CScript) (name value : valtype) :
    buildNameUpdate addr name value =
      OP_NAME_UPDATE :: (encodeArgs [name, value] ++ OP_2DROP :: ([OP_DROP] ++ addr)) := by
  simp [buildNameUpdate, pushOpcode, pushData]

end CNameScript

namespace CNameScript

theorem parse_build (addr : CScript) (name value rand : valtype) (hash : uint160)
    (haddr : plainStart addr = true) (hname : name.length < 2 ^ 32)
    (hvalue : value.length < 2 ^ 32) (hrand : rand.length < 2 ^ 32) :
    (let s := parse (buildNameUpdate addr name value);
      s.getNameOp = some OP_NAME_UPDATE ∧ s.getOpName = some name ∧ s.getOpValue = some value ∧
        s.getAddress = addr) ∧
    (let s := parse (buildNameRegister addr name value);
      s.getNameOp = some OP_NAME_FIRSTUPDATE ∧ s.isNewStyleRegistration = some true ∧
        s.getOpName = some name ∧ s.getOpValue = some value ∧ s.getAddress = addr) ∧
    (let s := parse (buildNameFirstupdate addr name value rand);
      s.getNameOp = some OP_NAME_FIRSTUPDATE ∧ s.isNewStyleRegistration = some false ∧
        s.getOpName = some name ∧ s.getOpValue = some value ∧ s.getOpRand = some rand ∧
        s.getAddress = addr) ∧
    (let s := parse (buildNameNew addr hash);
      s.getNameOp = some OP_NAME_NEW ∧ s.getOpHash = some (ToByteVector hash) ∧
        s.getAddress = addr) := by
  obtain ⟨b, rest, rfl, hb, hbd⟩ := exists_of_plainStart haddr
  have hhash : (ToByteVector hash).length < 2 ^ 32 := by
    rw [ToByteVector, hash.length_bytes]
    decide
  -- each script is the operation, the pushes of its arguments, drops and the address
  have hupdate : parse (buildNameUpdate (b :: rest) name value) =
      ⟨OP_NAME_UPDATE, b :: rest, [name, value]⟩ := by
    rw [buildNameUpdate_eq]
    exact parse_nameScript (by decide) (by simpa using And.intro hname hvalue) rfl rfl rfl hb hbd
  have hregister : parse (buildNameRegister (b :: rest) name value) =
      ⟨OP_NAME_FIRSTUPDATE, b :: rest, [name, value]⟩ := by
    rw [buildNameRegister_eq]
    exact parse_nameScript (by decide) (by simpa using And.intro hname hvalue) rfl rfl rfl hb hbd
  have hfirst : parse (buildNameFirstupdate (b :: rest) name value rand) =
      ⟨OP_NAME_FIRSTUPDATE, b :: rest, [name, rand, value]⟩ := by
    rw [buildNameFirstupdate_eq]
    exact parse_nameScript (by decide) (by simpa using And.intro hname (And.intro hrand hvalue)) rfl
      rfl rfl hb hbd
  have hnew : parse (buildNameNew (b :: rest) hash) =
      ⟨OP_NAME_NEW, b :: rest, [ToByteVector hash]⟩ := by
    rw [buildNameNew_eq]
    exact parse_nameScript (by decide) (by simpa using hhash) rfl rfl rfl hb hbd
  rw [hupdate, hregister, hfirst, hnew]
  exact ⟨⟨rfl, rfl, rfl, rfl⟩, ⟨rfl, rfl, rfl, rfl, rfl⟩, ⟨rfl, rfl, rfl, rfl, rfl, rfl⟩,
    ⟨rfl, rfl, rfl⟩⟩

theorem parse_build_dup :
    plainStart [0x76] = true ∧
    (let s := parse (buildNameUpdate [0x76] [1] [2]);
      s.getNameOp = some OP_NAME_UPDATE ∧ s.getOpName = some [1] ∧ s.getOpValue = some [2] ∧
        s.getAddress = [0x76]) ∧
    (let s := parse (buildNameRegister [0x76] [1] [2]);
      s.getNameOp = some OP_NAME_FIRSTUPDATE ∧ s.isNewStyleRegistration = some true ∧
        s.getOpName = some [1] ∧ s.getOpValue = some [2] ∧ s.getAddress = [0x76]) ∧
    (let s := parse (buildNameFirstupdate [0x76] [1] [2] [3]);
      s.getNameOp = some OP_NAME_FIRSTUPDATE ∧ s.isNewStyleRegistration = some false ∧
        s.getOpName = some [1] ∧ s.getOpValue = some [2] ∧ s.getOpRand = some [3] ∧
        s.getAddress = [0x76]) ∧
    (let s := parse (buildNameNew [0x76] ⟨List.replicate 20 0, rfl⟩);
      s.getNameOp = some OP_NAME_NEW ∧ s.getOpHash = some (List.replicate 20 0) ∧
        s.getAddress = [0x76]) :=
  ⟨rfl, parse_build [0x76] [1] [2] [3] ⟨List.replicate 20 0, rfl⟩ rfl (by decide) (by decide)
    (by decide)⟩

/-- An address that begins with `OP_NOP` loses it: the loop that skips the drops after the
arguments skips it too. -/
theorem parse_buildNameUpdate_nopAddress :
    GetScriptOp [OP_NOP, OP_0] 0 = ⟨true, 1, OP_NOP, []⟩ ∧
    GetScriptOp [OP_NOP, OP_0] 1 = ⟨true, 2, OP_0, []⟩ ∧
    (parse (buildNameUpdate [OP_NOP, OP_0] [] [])).getAddress ≠ [OP_NOP, OP_0] := by
  have hscript : buildNameUpdate [OP_NOP, OP_0] [] [] =
      OP_NAME_UPDATE :: (encodeArgs [[], []] ++ OP_2DROP :: ([OP_DROP, OP_NOP] ++ OP_0 :: [])) :=
    rfl
  rw [hscript, parse_nameScript (by decide) (by simp) rfl rfl rfl (Or.inl rfl) rfl]
  exact ⟨rfl, rfl, by decide⟩

end CNameScript

end Huntercore
