import Mathlib
import Huntercore.Lib.OrdMap
import Huntercore.Lib.Overlay
import Huntercore.Lib.System
import Huntercore.Names.Common
import Huntercore.Names.Script

/-!
# The coins cache

`CCoinsViewCache` (coins.cpp) is a write-back cache of the unspent transaction outputs, the
coins, of the view below it: another cache, or the coins database `CCoinsViewDB` (txdb.cpp).
The node keeps a stack of them: `pcoinsTip` over the database, and over it the cache in which
`ConnectBlock` applies a block, flushed into `pcoinsTip` when the block is valid and dropped
when it is not. Reading through a cache fetches the coin from below and keeps it; a flush hands
the cache's changes down with `BatchWrite`, together with the changes to the names. `SetName`
and `DeleteName` change the names of the top cache; with `-namehistory` a name's overwritten data
go onto its history stack, and come off it again when a block is disconnected.

An entry of a cache carries two flags. `DIRTY` marks an entry that may differ from the view
below; only dirty entries are written back. `FRESH` marks an entry of which the view below has
no unspent coin: spending a fresh coin erases its entry instead of keeping a spent one to write
back, and a fresh entry spent in a child cache never reaches the parent. A reader sees neither
flag, but both are only right under the contract of `AddCoin`: a coin added without
`possible_overwrite` is not in the view.

What a stack is for is a stack of snapshots, each a plain map of coins, of names and of their
history stacks: adding or spending a coin, and setting or deleting a name, updates the top one, a flush copies the top one a level down, a new cache
repeats the top one and a dropped cache uncovers the one below it. `Coherent` says what each
cache's flags promise of the view below it. Every step keeps it, and so on every stack the node
can build, each step, under its contract, succeeds, never throwing `Adding new coin that
replaces non-pruned entry` or `FRESH flag misapplied ...`, and moves the snapshots as the stack
of plain maps does (`coinsSystem_refines`); the reads return what the top snapshot shows
(`coinsSystem_reads`).

The source keeps a cache's coins in an `unordered_map`; they are ordered by outpoint here. The
one loop over them, in `BatchWrite`, treats each outpoint on its own, so its order does not
matter. The memory accounting (`cachedCoinsUsage`) is left out.
-/

namespace Huntercore

/-! ## Coins -/

/-- `COutPoint`s in the order of their `operator<`: by hash, then by index. -/
def COutPoint.key (o : COutPoint) : Nat ×ₗ Nat := toLex (o.hash, o.n.toNat)

theorem COutPoint.key_injective : Function.Injective COutPoint.key := by
  intro a b h
  simp only [COutPoint.key, toLex_inj, Prod.mk.injEq] at h
  cases a
  cases b
  simp_all [UInt32.toNat_inj]

instance : LinearOrder COutPoint := LinearOrder.lift' COutPoint.key COutPoint.key_injective

/-- `CTxOut`: an amount and the script that locks it. -/
structure CTxOut where
  nValue : Int
  scriptPubKey : CScript
  deriving DecidableEq, Repr

namespace CTxOut

/-- `SetNull`, as `CTxOut ()` also does: the amount `-1` marks the output as spent. -/
def SetNull (out : CTxOut) : CTxOut := { out with nValue := -1, scriptPubKey := [] }

def IsNull (out : CTxOut) : Bool := out.nValue == -1

end CTxOut

/-- `MAX_SCRIPT_SIZE`. -/
def MAX_SCRIPT_SIZE : Nat := 10000

/-- `CScript::IsUnspendable`: a script that starts with `OP_RETURN`, or is too long to run. -/
def CScript.IsUnspendable (script : CScript) : Bool :=
  (script.length > 0 && script.head? == some OP_RETURN) || script.length > MAX_SCRIPT_SIZE

/-- `Coin`: an output, whether its transaction was a coinbase or a game transaction, and its
height, the bit-field `uint32_t nHeight : 30`. The constructors store the `int` height they are
given into it, keeping its low thirty bits (`BitVec.ofInt 30`), and a read promotes it back to an
`int` (`toNat`). -/
structure Coin where
  out : CTxOut
  fCoinBase : Bool
  fGameTx : Bool
  nHeight : BitVec 30
  deriving DecidableEq, Repr

namespace Coin

/-- `Coin ()`: a spent coin, the one `AccessCoin` gives for an outpoint without a coin. -/
def coinEmpty : Coin := ⟨⟨-1, []⟩, false, false, 0⟩

/-- `Clear`. -/
def Clear (coin : Coin) : Coin :=
  { coin with out := coin.out.SetNull, fCoinBase := false, fGameTx := false, nHeight := 0 }

def IsSpent (coin : Coin) : Bool := coin.out.IsNull

@[simp] theorem IsSpent_Clear (coin : Coin) : coin.Clear.IsSpent = true := rfl

@[simp] theorem IsSpent_coinEmpty : coinEmpty.IsSpent = true := rfl

/-- A block height that fits the bit-field is read back as stored. -/
theorem toNat_ofInt_height {nHeight : Int} (h0 : 0 ≤ nHeight) (h30 : nHeight < 2 ^ 30) :
    ((BitVec.ofInt 30 nHeight).toNat : Int) = nHeight := by
  rw [BitVec.toNat_ofInt, Int.toNat_of_nonneg (Int.emod_nonneg _ (by decide)),
    Int.emod_eq_of_lt h0 (by exact_mod_cast h30)]

end Coin

/-- `CCoinsCacheEntry`: a coin and its two flags, `DIRTY` and `FRESH`. -/
structure CCoinsCacheEntry where
  coin : Coin
  dirty : Bool
  fresh : Bool
  deriving DecidableEq, Repr

/-- `CCoinsCacheEntry ()`: the empty coin, with neither flag. -/
instance : Inhabited CCoinsCacheEntry := ⟨⟨Coin.coinEmpty, false, false⟩⟩

/-- The coin an entry holds, when it is not spent. -/
def CCoinsCacheEntry.unspentCoin (entry : CCoinsCacheEntry) : Option Coin :=
  if entry.coin.IsSpent then none else some entry.coin

/-- `CCoinsMap`. -/
abbrev CCoinsMap := OrdMap COutPoint CCoinsCacheEntry

/-- `CCoinsViewCache`, but for its base: the best block it is at (`0` when not set), its coins
and its names. -/
structure CCoinsViewCache where
  hashBlock : Nat
  cacheCoins : CCoinsMap
  cacheNames : CNameCache

namespace CCoinsViewCache

/-- A new cache over a view: nothing cached and no best block. -/
def new : CCoinsViewCache := ⟨0, .empty, .init⟩

/-! ## Reading through a cache -/

section Reads

variable {σ : Type}

/-- `FetchCoin`: the cache's entry, else the coin the view below has, which the cache then
keeps, fresh when it is spent there. `base` reads the view below and gives its state after the
read, since a cache below keeps what it fetches in turn; `below` is that state now. -/
def FetchCoin (view : CCoinsViewCache) (below : σ) (base : COutPoint → Option Coin × σ)
    (outpoint : COutPoint) : Option CCoinsCacheEntry × CCoinsViewCache × σ :=
  match view.cacheCoins.find? outpoint with
  | some entry => (some entry, view, below)
  | none =>
    match base outpoint with
    | (none, below') => (none, view, below')
    | (some tmp, below') =>
      -- the parent has only a spent coin here: ours is fresh
      let entry : CCoinsCacheEntry := ⟨tmp, false, tmp.IsSpent⟩
      (some entry, { view with cacheCoins := view.cacheCoins.insert outpoint entry }, below')

/-- `GetCoin`: the coin the fetch finds, if it is not spent. -/
def GetCoin (view : CCoinsViewCache) (below : σ) (base : COutPoint → Option Coin × σ)
    (outpoint : COutPoint) : Option Coin × CCoinsViewCache × σ :=
  let r := view.FetchCoin below base outpoint
  (r.1.bind CCoinsCacheEntry.unspentCoin, r.2)

/-- `HaveCoin`: whether the fetch finds a coin that is not spent. -/
def HaveCoin (view : CCoinsViewCache) (below : σ) (base : COutPoint → Option Coin × σ)
    (outpoint : COutPoint) : Bool × CCoinsViewCache × σ :=
  let r := view.FetchCoin below base outpoint
  (match r.1 with
    | some entry => !entry.coin.IsSpent
    | none => false, r.2)

/-- `AccessCoin`: the coin the fetch finds, spent or not, else the empty coin. -/
def AccessCoin (view : CCoinsViewCache) (below : σ) (base : COutPoint → Option Coin × σ)
    (outpoint : COutPoint) : Coin × CCoinsViewCache × σ :=
  let r := view.FetchCoin below base outpoint
  ((r.1.map CCoinsCacheEntry.coin).getD Coin.coinEmpty, r.2)

/-- The spend of the entry found for `outpoint`: a fresh entry is erased, any other is cleared
and marked dirty. -/
def spendEntry (view : CCoinsViewCache) (outpoint : COutPoint) (entry : CCoinsCacheEntry) :
    CCoinsViewCache :=
  if entry.fresh then { view with cacheCoins := view.cacheCoins.erase outpoint }
  else
    let cleared := { entry with coin := entry.coin.Clear, dirty := true }
    { view with cacheCoins := view.cacheCoins.insert outpoint cleared }

/-- `SpendCoin`: the coin moved out (`moveout`) if the fetch finds an entry, which is then
spent. `none` is the `false` it returns. -/
def SpendCoin (view : CCoinsViewCache) (below : σ) (base : COutPoint → Option Coin × σ)
    (outpoint : COutPoint) : Option Coin × CCoinsViewCache × σ :=
  match view.FetchCoin below base outpoint with
  | (none, view', below') => (none, view', below')
  | (some entry, view', below') => (some entry.coin, view'.spendEntry outpoint entry, below')

end Reads

/-! ## Writing to a cache -/

/-- `HaveCoinInCache`: whether the cache itself holds an unspent coin; nothing is fetched. -/
def HaveCoinInCache (view : CCoinsViewCache) (outpoint : COutPoint) : Bool :=
  match view.cacheCoins.find? outpoint with
  | some entry => !entry.coin.IsSpent
  | none => false

/-- `AddCoin`. The entry is fresh when the coin may not overwrite one and the entry it replaces
was not dirty, as when `emplace` has just put in an empty one. -/
def AddCoin (view : CCoinsViewCache) (outpoint : COutPoint) (coin : Coin)
    (possible_overwrite : Bool) : Except String CCoinsViewCache :=
  if coin.IsSpent then throw "assertion failed: !coin.IsSpent()"
  else if CScript.IsUnspendable coin.out.scriptPubKey then pure view
  else
    let it := (view.cacheCoins.find? outpoint).getD default
    if !possible_overwrite && !it.coin.IsSpent then
      throw "Adding new coin that replaces non-pruned entry"
    else
      let fresh := !possible_overwrite && !it.dirty
      pure { view with
        cacheCoins := view.cacheCoins.insert outpoint ⟨coin, true, it.fresh || fresh⟩ }

/-- `Uncache`: an entry without either flag is dropped. -/
def Uncache (view : CCoinsViewCache) (hash : COutPoint) : CCoinsViewCache :=
  match view.cacheCoins.find? hash with
  | some entry =>
    if !entry.dirty && !entry.fresh then { view with cacheCoins := view.cacheCoins.erase hash }
    else view
  | none => view

/-- `SetBestBlock`. -/
def SetBestBlock (view : CCoinsViewCache) (hashBlockIn : Nat) : CCoinsViewCache :=
  { view with hashBlock := hashBlockIn }

/-- `GetCacheSize`. -/
def GetCacheSize (view : CCoinsViewCache) : Nat := view.cacheCoins.size

/-- The body of the loop of `BatchWrite`: the parent's coins take over one entry of the child's
map. -/
def batchWriteEntry (cacheCoins : CCoinsMap) (it : COutPoint × CCoinsCacheEntry) :
    Except String CCoinsMap :=
  -- an entry that is not dirty is skipped
  if !it.2.dirty then pure cacheCoins
  else
    match cacheCoins.find? it.1 with
    | none =>
      -- a fresh entry that the child has spent need not reach the parent
      if it.2.fresh && it.2.coin.IsSpent then pure cacheCoins
      else pure (cacheCoins.insert it.1 ⟨it.2.coin, true, it.2.fresh⟩)
    | some us =>
      if it.2.fresh && !us.coin.IsSpent then
        throw "FRESH flag misapplied to cache entry for base transaction with spendable outputs"
      else if us.fresh && it.2.coin.IsSpent then
        -- the grandparent has no entry: the parent's can go
        pure (cacheCoins.erase it.1)
      else
        -- the parent's `FRESH` stays, and a child's is not taken over
        pure (cacheCoins.insert it.1 { us with coin := it.2.coin, dirty := true })

/-- `BatchWrite` of a cache: the child's coins, its best block, and its names, which
`CNameCache::apply` takes over (asserting, for a history stack, that history is kept). -/
def BatchWrite (fNameHistory : Bool) (view : CCoinsViewCache) (mapCoins : CCoinsMap)
    (hashBlockIn : Nat) (names : CNameCache) : Except String CCoinsViewCache := do
  let cacheCoins ← mapCoins.entries.foldlM batchWriteEntry view.cacheCoins
  match view.cacheNames.apply fNameHistory names with
  | some cacheNames => pure ⟨hashBlockIn, cacheCoins, cacheNames⟩
  | none => throw "assertion failed: fNameHistory"

end CCoinsViewCache

/-! ## Names of a view -/

/-- `CNameHistory::push`, which asserts that the heights on the stack do not go down. -/
def CNameHistory.push (h : CNameHistory) (entry : CNameData) : Except String CNameHistory :=
  match h.data.getLast? with
  | some back =>
    if back.nHeight ≤ entry.nHeight then pure ⟨h.data ++ [entry]⟩
    else throw "assertion failed: data.empty () || data.back ().getHeight () <= entry.getHeight ()"
  | none => pure ⟨h.data ++ [entry]⟩

/-- `CNameHistory::pop`, which asserts that the entry taken off the top is the one given. -/
def CNameHistory.pop (h : CNameHistory) (entry : CNameData) : Except String CNameHistory :=
  if h.data.getLast? = some entry then pure ⟨h.data.dropLast⟩
  else throw "assertion failed: !data.empty () && data.back () == entry"

namespace CCoinsViewCache

/-- `GetNameHistory`: the cache's stack of the name, else what the view below has. Both
`CNameCache::getHistory` and the database's read assert that history is kept; `SetName` and
`DeleteName` read only where it is. -/
def GetNameHistory (view : CCoinsViewCache) (baseHistory : valtype → Option CNameHistory)
    (name : valtype) : Option CNameHistory :=
  match view.cacheNames.history.find? name with
  | some history => some history
  | none => baseHistory name

section Names

variable (fNameHistory : Bool)

/-- `SetName (name, data, undo)`, over the view below whose `GetName` and `GetNameHistory` are
`baseName` and `baseHistory`. Where the name is there and history is kept, its stack takes the
data overwritten, or, when undoing, gives up the data being set back; a name that is not there
cannot be undone. A failed `GetNameHistory` leaves the stack empty. -/
def SetName (view : CCoinsViewCache) (baseName : valtype → Option CNameData)
    (baseHistory : valtype → Option CNameHistory) (name : valtype) (data : CNameData)
    (undo : Bool) : Except String CCoinsViewCache :=
  match view.cacheNames.GetName baseName name with
  | some oldData => do
    let cacheNames ← (if fNameHistory then do
        let history := (view.GetNameHistory baseHistory name).getD ⟨[]⟩
        let history ← (if undo then history.pop data else history.push oldData)
        match view.cacheNames.setHistory fNameHistory name history with
        | some cacheNames => pure cacheNames
        | none => throw "assertion failed: fNameHistory"
      else pure view.cacheNames)
    pure { view with cacheNames := cacheNames.set name data }
  | none =>
    if undo then throw "assertion failed: !undo"
    else pure { view with cacheNames := view.cacheNames.set name data }

/-- `DeleteName`, which asserts, where history is kept, that the name's stack is empty. -/
def DeleteName (view : CCoinsViewCache) (baseHistory : valtype → Option CNameHistory)
    (name : valtype) : Except String CCoinsViewCache :=
  if fNameHistory && !((view.GetNameHistory baseHistory name).all (·.empty)) then
    throw "assertion failed: !GetNameHistory(name, history) || history.empty()"
  else pure { view with cacheNames := view.cacheNames.remove name }

end Names

end CCoinsViewCache

/-- `CNameCache::empty`, which asserts that a cache without entries or deleted names has no
history stacks either. -/
def CNameCache.empty (c : CNameCache) : Except String Bool :=
  if c.entries.size == 0 && c.deleted.size == 0 then
    if c.history.size == 0 then pure true else throw "assertion failed: history.empty ()"
  else pure false

/-- `Flush` into the view below, whose `BatchWrite` is `batchWrite`: nothing happens when there
is nothing to write; otherwise the cache is handed down and emptied, its best block kept. -/
def CCoinsViewCache.Flush {σ : Type} (view : CCoinsViewCache) (below : σ)
    (batchWrite : σ → CCoinsMap → Nat → CNameCache → Except String σ) :
    Except String (CCoinsViewCache × σ) :=
  let write : Except String (CCoinsViewCache × σ) := do
    let below' ← batchWrite below view.cacheCoins view.hashBlock view.cacheNames
    pure ({ view with cacheCoins := .empty, cacheNames := .init }, below')
  if view.hashBlock == 0 && view.cacheCoins.size == 0 then
    match view.cacheNames.empty with
    | .ok true => pure (view, below)
    | .ok false => write
    | .error e => throw e
  else write

/-! ## The database -/

/-- `CCoinsViewDB`: the coins it stores, none of them spent (`Coin::Serialize` asserts it), its
name rows, and its best block (`0` when there is none). -/
structure CCoinsViewDB where
  coins : OrdMap COutPoint Coin
  unspent : coins.All fun _ coin => coin.IsSpent = false
  names : NameDB
  hashBestChain : Nat

namespace CCoinsViewDB

/-- `GetCoin`: the stored coin. -/
def GetCoin (db : CCoinsViewDB) (outpoint : COutPoint) : Option Coin := db.coins.find? outpoint

/-- The write that one entry of the map puts into the batch: a dirty entry is erased when spent
and written otherwise. -/
def writeCoin (coins : OrdMap COutPoint Coin) (it : COutPoint × CCoinsCacheEntry) :
    OrdMap COutPoint Coin :=
  if it.2.dirty then
    if it.2.coin.IsSpent then coins.erase it.1 else coins.insert it.1 it.2.coin
  else coins

theorem unspent_writeCoin {coins : OrdMap COutPoint Coin}
    (h : coins.All fun _ coin => coin.IsSpent = false) (it : COutPoint × CCoinsCacheEntry) :
    (writeCoin coins it).All fun _ coin => coin.IsSpent = false := by
  unfold writeCoin
  split
  · split
    · exact h.erase _
    · next hspent => exact h.insert (by simpa using hspent)
  · exact h

theorem unspent_foldl_writeCoin (db : CCoinsViewDB) (l : List (COutPoint × CCoinsCacheEntry)) :
    (l.foldl writeCoin db.coins).All fun _ coin => coin.IsSpent = false :=
  List.foldl_invariant (fun coins => coins.All fun _ coin => coin.IsSpent = false) writeCoin l
    (fun _ it _ h => unspent_writeCoin h it) _ db.unspent

/-- `BatchWrite` of the database: after the assertion that the best block is set, the coins of
the map, the names (`CNameCache::writeBatch`, asserting for a history stack that history is
kept), and the best block, in one batch. -/
def BatchWrite (fNameHistory : Bool) (db : CCoinsViewDB) (mapCoins : CCoinsMap)
    (hashBlock : Nat) (names : CNameCache) : Except String CCoinsViewDB :=
  if hashBlock = 0 then throw "assertion failed: !hashBlock.IsNull()"
  else
    match names.writeBatch fNameHistory with
    | some batch => pure ⟨mapCoins.entries.foldl writeCoin db.coins,
        unspent_foldl_writeCoin db _, db.names.WriteBatch batch, hashBlock⟩
    | none => throw "assertion failed: fNameHistory"

end CCoinsViewDB

/-! ## The history stacks a cache shows -/

/-- The history stack of each name in the database's rows, an absent row the empty stack. -/
def NameDB.historyStacks (db : NameDB) (name : valtype) : List CNameData :=
  ((db.history.find? name).map CNameHistory.data).getD []

namespace CNameCache

/-- The history stack of each name through `c` over the stacks `H` of the view below, an absent
stack the empty one: what `GetNameHistory` reads, with a failed read the empty stack that
`SetName` then works on. -/
def historyStack (c : CNameCache) (H : valtype → List CNameData) (name : valtype) :
    List CNameData :=
  match c.history.find? name with
  | some history => history.data
  | none => H name

@[simp] theorem historyStack_init (H : valtype → List CNameData) : init.historyStack H = H := by
  funext name
  simp only [historyStack, init, OrdMap.find?_empty]

@[simp] theorem historyStack_set (c : CNameCache) (name : valtype) (data : CNameData)
    (H : valtype → List CNameData) : (c.set name data).historyStack H = c.historyStack H := rfl

@[simp] theorem historyStack_remove (c : CNameCache) (name : valtype)
    (H : valtype → List CNameData) : (c.remove name).historyStack H = c.historyStack H := rfl

theorem historyStack_insert (c : CNameCache) (name : valtype) (h : CNameHistory)
    (H : valtype → List CNameData) :
    ({ c with history := c.history.insert name h } : CNameCache).historyStack H =
      Function.update (c.historyStack H) name h.data := by
  funext name'
  by_cases hn : name' = name
  · subst hn
    simp [historyStack]
  · rw [Function.update_of_ne hn]
    simp [historyStack, OrdMap.find?_insert_of_ne _ _ (Ne.symm hn)]

/-- The stacks of a cache are its history entries written over the stacks below, one by one. -/
theorem historyStack_eq_foldl (c : CNameCache) (H : valtype → List CNameData) :
    c.historyStack H = c.history.entries.foldl (fun (g : valtype → List CNameData) e =>
      Function.update g e.1 e.2.data) H := by
  funext name
  cases hm : c.history.find? name with
  | some h =>
    rw [OrdMap.foldl_update_entries_of_find? _ _ _ hm]
    simp only [historyStack, hm]
  | none =>
    rw [OrdMap.foldl_update_entries_of_find?_eq_none _ _ _ hm]
    simp only [historyStack, hm]

section History

variable (fNameHistory : Bool)

/-- The history loop of `apply` writes each stack it is given over the stacks there. -/
theorem historyStack_foldlM_setHistory (H : valtype → List CNameData) :
    ∀ (l : List (valtype × CNameHistory)) {a a' : CNameCache},
      l.foldlM (fun c e => c.setHistory fNameHistory e.1 e.2) a = some a' →
      a'.historyStack H = l.foldl (fun (g : valtype → List CNameData) e =>
        Function.update g e.1 e.2.data) (a.historyStack H)
  | [], _, _, h => by
    cases h
    rfl
  | e :: l, a, a', h => by
    rw [List.foldlM_cons] at h
    cases hstep : a.setHistory fNameHistory e.1 e.2 with
    | none =>
      rw [hstep] at h
      cases h
    | some a₁ =>
      rw [hstep] at h
      rw [historyStack_foldlM_setHistory H l h, (setHistory_eq_some fNameHistory hstep).2,
        historyStack_insert, List.foldl_cons]

/-- Flushing a cache into its parent: the parent's stacks afterwards are the cache's over the
parent's. -/
theorem historyStack_apply {c cache c' : CNameCache} (happ : c.apply fNameHistory cache = some c')
    (H : valtype → List CNameData) :
    c'.historyStack H = cache.historyStack (c.historyStack H) := by
  unfold CNameCache.apply at happ
  dsimp only at happ
  -- the writes of the entries and the removals leave the stacks alone
  have hset : (cache.entries.entries.foldl (fun c e => c.set e.1 e.2) c).history = c.history :=
    List.foldl_invariant (fun a : CNameCache => a.history = c.history)
      (fun c (e : valtype × CNameData) => c.set e.1 e.2) _ (fun _ _ _ h => h) c rfl
  have hremove : (cache.deleted.elems.foldl (fun c name => c.remove name)
      (cache.entries.entries.foldl (fun c e => c.set e.1 e.2) c)).history = c.history :=
    List.foldl_invariant (fun a : CNameCache => a.history = c.history)
      (fun c name => c.remove name) _ (fun _ _ _ h => h) _ hset
  rw [historyStack_foldlM_setHistory fNameHistory H _ happ, ← historyStack_eq_foldl]
  congr 1
  funext name
  simp only [historyStack, hremove]

/-- Writing a cache to the database leaves in the rows the stacks the cache showed over them: an
empty stack erases its row, which reads as the empty stack. -/
theorem historyStacks_WriteBatch {c : CNameCache} {batch : List BatchOp}
    (hw : c.writeBatch fNameHistory = some batch) (db : NameDB) :
    (db.WriteBatch batch).historyStacks = c.historyStack db.historyStacks := by
  funext name
  simp only [NameDB.historyStacks, WriteBatch_history fNameHistory hw db, historyView, historyStack]
  cases hm : c.history.find? name with
  | some h =>
    cases he : h.empty
    · simp [he]
    · simp only [he, if_true, Option.map_none, Option.getD_none]
      exact (List.isEmpty_iff.mp he).symm
  | none => rfl

end History

end CNameCache

/-! ## What a cache shows and what its flags promise -/

/-- What a view shows at an outpoint where the cache holds `found` over a view below that shows
`b`: the entry's coin when it is not spent, nothing for a spent one, and `b` without an entry. -/
def entryShows : Option CCoinsCacheEntry → Option Coin → Option Coin
  | some entry, _ => entry.unspentCoin
  | none, b => b

/-- What the flags of an entry promise of the coin `b` the view below shows: an entry that is
not dirty shows `b`, and below a fresh entry there is no coin. -/
structure CCoinsCacheEntry.Coherent (entry : CCoinsCacheEntry) (b : Option Coin) : Prop where
  clean : entry.dirty = false → entry.unspentCoin = b
  fresh : entry.fresh = true → b = none

/-- A view shows no spent coin. -/
def Unspent (B : COutPoint → Option Coin) : Prop :=
  ∀ outpoint coin, B outpoint = some coin → coin.IsSpent = false

theorem CCoinsCacheEntry.unspentCoin_eq_some {entry : CCoinsCacheEntry} {coin : Coin} :
    entry.unspentCoin = some coin ↔ entry.coin = coin ∧ coin.IsSpent = false := by
  unfold CCoinsCacheEntry.unspentCoin
  cases h : entry.coin.IsSpent
  · rw [if_neg Bool.false_ne_true, Option.some.injEq]
    exact ⟨fun he => ⟨he, he ▸ h⟩, fun he => he.1⟩
  · rw [if_pos rfl]
    exact ⟨fun h' => (by cases h'), fun ⟨he, hs⟩ => by rw [he, hs] at h; cases h⟩

theorem CCoinsCacheEntry.unspentCoin_eq_none {entry : CCoinsCacheEntry} :
    entry.unspentCoin = none ↔ entry.coin.IsSpent = true := by
  unfold CCoinsCacheEntry.unspentCoin
  split <;> simp_all

theorem unspent_entryShows {b : Option Coin} (hb : ∀ coin, b = some coin → coin.IsSpent = false) :
    ∀ (found : Option CCoinsCacheEntry) coin, entryShows found b = some coin →
      coin.IsSpent = false
  | some _, _, h => (CCoinsCacheEntry.unspentCoin_eq_some.mp h).2
  | none, coin, h => hb coin h

namespace CCoinsViewCache

/-- What a cache shows over the coins `B` of the view below it. -/
def shows (view : CCoinsViewCache) (B : COutPoint → Option Coin) (outpoint : COutPoint) :
    Option Coin :=
  entryShows (view.cacheCoins.find? outpoint) (B outpoint)

/-- What a cache's flags promise of the coins `B` of the view below it, entry by entry. -/
def Coherent (view : CCoinsViewCache) (B : COutPoint → Option Coin) : Prop :=
  view.cacheCoins.All fun outpoint entry => entry.Coherent (B outpoint)

variable {B : COutPoint → Option Coin}

theorem unspent_shows (view : CCoinsViewCache) (hB : Unspent B) : Unspent (view.shows B) :=
  fun outpoint => unspent_entryShows (hB outpoint) _

theorem shows_insert (view : CCoinsViewCache) (B : COutPoint → Option Coin) (outpoint : COutPoint)
    (entry : CCoinsCacheEntry) :
    ({ view with cacheCoins := view.cacheCoins.insert outpoint entry } : CCoinsViewCache).shows B =
      Function.update (view.shows B) outpoint entry.unspentCoin := by
  funext o
  by_cases h : o = outpoint
  · subst h
    simp [shows, entryShows]
  · rw [Function.update_of_ne h]
    simp [shows, OrdMap.find?_insert_of_ne _ _ (Ne.symm h)]

theorem shows_erase (view : CCoinsViewCache) (B : COutPoint → Option Coin) (outpoint : COutPoint) :
    ({ view with cacheCoins := view.cacheCoins.erase outpoint } : CCoinsViewCache).shows B =
      Function.update (view.shows B) outpoint (B outpoint) := by
  funext o
  by_cases h : o = outpoint
  · subst h
    simp [shows, entryShows]
  · rw [Function.update_of_ne h]
    simp [shows, OrdMap.find?_erase_of_ne _ (Ne.symm h)]

@[simp] theorem shows_new (B : COutPoint → Option Coin) : new.shows B = B := by
  funext o
  simp [shows, new, entryShows]

theorem coherent_new (B : COutPoint → Option Coin) : new.Coherent B :=
  OrdMap.all_empty _

/-! ### Fetching -/

section Reads

variable {σ : Type} {below : σ} {base : COutPoint → Option Coin × σ} {outpoint : COutPoint}

/-- A fetch finds the cache's entry, or finds nothing below, or keeps what it finds below. -/
theorem FetchCoin_cases (view : CCoinsViewCache) (below : σ) (base : COutPoint → Option Coin × σ)
    (outpoint : COutPoint) :
    (∃ entry, view.cacheCoins.find? outpoint = some entry ∧
      view.FetchCoin below base outpoint = (some entry, view, below)) ∨
    (view.cacheCoins.find? outpoint = none ∧ (base outpoint).1 = none ∧
      view.FetchCoin below base outpoint = (none, view, (base outpoint).2)) ∨
    (∃ tmp, view.cacheCoins.find? outpoint = none ∧ (base outpoint).1 = some tmp ∧
      view.FetchCoin below base outpoint = (some ⟨tmp, false, tmp.IsSpent⟩,
        { view with cacheCoins := view.cacheCoins.insert outpoint ⟨tmp, false, tmp.IsSpent⟩ },
        (base outpoint).2)) := by
  unfold FetchCoin
  split
  · next entry hentry => exact .inl ⟨entry, hentry, rfl⟩
  · next hnone =>
    split
    · next below' hb => exact .inr (.inl ⟨hnone, by rw [hb], by rw [hb]⟩)
    · next tmp below' hb => exact .inr (.inr ⟨tmp, hnone, by rw [hb], by rw [hb]⟩)

/-- After a fetch the cache holds what the fetch found. -/
theorem find?_FetchCoin (view : CCoinsViewCache) :
    (view.FetchCoin below base outpoint).2.1.cacheCoins.find? outpoint =
      (view.FetchCoin below base outpoint).1 := by
  rcases FetchCoin_cases view below base outpoint with ⟨entry, hentry, h⟩ | ⟨hnone, -, h⟩ |
    ⟨tmp, -, -, h⟩ <;> rw [h]
  · exact hentry
  · exact hnone
  · exact OrdMap.find?_insert_self _ _ _

@[simp] theorem hashBlock_FetchCoin (view : CCoinsViewCache) :
    (view.FetchCoin below base outpoint).2.1.hashBlock = view.hashBlock := by
  rcases FetchCoin_cases view below base outpoint with ⟨_, _, h⟩ | ⟨_, _, h⟩ | ⟨_, _, _, h⟩ <;>
    simp [h]

@[simp] theorem cacheNames_FetchCoin (view : CCoinsViewCache) :
    (view.FetchCoin below base outpoint).2.1.cacheNames = view.cacheNames := by
  rcases FetchCoin_cases view below base outpoint with ⟨_, _, h⟩ | ⟨_, _, h⟩ | ⟨_, _, _, h⟩ <;>
    simp [h]

/-- The view below after a fetch is as it was, or as the read of it left it. -/
theorem FetchCoin_below (view : CCoinsViewCache) :
    (view.FetchCoin below base outpoint).2.2 = below ∨
      (view.FetchCoin below base outpoint).2.2 = (base outpoint).2 := by
  rcases FetchCoin_cases view below base outpoint with ⟨_, _, h⟩ | ⟨_, _, h⟩ | ⟨_, _, _, h⟩ <;>
    simp [h]

section Spec

variable (hB : Unspent B) (hbase : (base outpoint).1 = B outpoint)
include hB hbase

/-- A coin fetched from below shows what the view below shows, and promises nothing more. -/
theorem fetched_coherent {tmp : Coin} (htmp : (base outpoint).1 = some tmp) :
    tmp.IsSpent = false ∧ (CCoinsCacheEntry.mk tmp false tmp.IsSpent).Coherent (B outpoint) ∧
      (CCoinsCacheEntry.mk tmp false tmp.IsSpent).unspentCoin = B outpoint := by
  have hspent : tmp.IsSpent = false := hB outpoint tmp (hbase ▸ htmp)
  have hshow : (CCoinsCacheEntry.mk tmp false tmp.IsSpent).unspentCoin = B outpoint := by
    rw [← hbase, htmp, CCoinsCacheEntry.unspentCoin_eq_some]
    exact ⟨rfl, hspent⟩
  exact ⟨hspent, ⟨fun _ => hshow, fun h => by rw [hspent] at h; cases h⟩, hshow⟩

/-- A fetch keeps what a cache promises. -/
theorem FetchCoin_coherent (view : CCoinsViewCache) (hc : view.Coherent B) :
    (view.FetchCoin below base outpoint).2.1.Coherent B := by
  rcases FetchCoin_cases view below base outpoint with ⟨_, _, h⟩ | ⟨_, _, h⟩ |
    ⟨tmp, _, htmp, h⟩
  · rw [h]
    exact hc
  · rw [h]
    exact hc
  · rw [h]
    exact OrdMap.All.insert hc (fetched_coherent hB hbase htmp).2.1

/-- A fetch keeps what a cache shows. -/
theorem shows_FetchCoin (view : CCoinsViewCache) :
    (view.FetchCoin below base outpoint).2.1.shows B = view.shows B := by
  rcases FetchCoin_cases view below base outpoint with ⟨_, _, h⟩ | ⟨_, _, h⟩ |
    ⟨tmp, hnone, htmp, h⟩
  · rw [h]
  · rw [h]
  · rw [h, shows_insert, (fetched_coherent hB hbase htmp).2.2]
    funext o
    by_cases ho : o = outpoint
    · subst ho
      simp [shows, hnone, entryShows]
    · rw [Function.update_of_ne ho]

/-- What a fetch finds is what the cache shows. -/
theorem FetchCoin_found (view : CCoinsViewCache) :
    (view.FetchCoin below base outpoint).1.bind CCoinsCacheEntry.unspentCoin =
      view.shows B outpoint := by
  rcases FetchCoin_cases view below base outpoint with ⟨entry, hentry, h⟩ |
    ⟨hnone, hnb, h⟩ | ⟨tmp, hnone, htmp, h⟩
  · simp [h, shows, hentry, entryShows]
  · simp [h, shows, hnone, entryShows, ← hbase, hnb]
  · simp only [h, Option.bind_some, shows, hnone, entryShows]
    exact (fetched_coherent hB hbase htmp).2.2

/-- `GetCoin` gives what the cache shows. -/
theorem GetCoin_eq (view : CCoinsViewCache) :
    (view.GetCoin below base outpoint).1 = view.shows B outpoint :=
  FetchCoin_found hB hbase view

/-- `HaveCoin` tells whether the cache shows a coin. -/
theorem HaveCoin_eq (view : CCoinsViewCache) :
    (view.HaveCoin below base outpoint).1 = (view.shows B outpoint).isSome := by
  rw [← FetchCoin_found hB hbase view]
  simp only [HaveCoin]
  cases (view.FetchCoin below base outpoint).1 with
  | none => rfl
  | some entry =>
    simp only [Option.bind_some, CCoinsCacheEntry.unspentCoin]
    split <;> simp_all

/-- `AccessCoin` gives the coin the cache shows, and a spent coin where it shows none. -/
theorem AccessCoin_eq (view : CCoinsViewCache) :
    match view.shows B outpoint with
    | some coin => (view.AccessCoin below base outpoint).1 = coin
    | none => (view.AccessCoin below base outpoint).1.IsSpent = true := by
  rw [← FetchCoin_found hB hbase view]
  simp only [AccessCoin]
  cases (view.FetchCoin below base outpoint).1 with
  | none => rfl
  | some entry =>
    rw [Option.bind_some, Option.map_some, Option.getD_some]
    cases hu : entry.unspentCoin with
    | none => exact CCoinsCacheEntry.unspentCoin_eq_none.mp hu
    | some coin => exact (CCoinsCacheEntry.unspentCoin_eq_some.mp hu).1

end Spec

/-- `SpendCoin` is the fetch, then the spend of the entry it found. -/
theorem SpendCoin_eq (view : CCoinsViewCache) :
    view.SpendCoin below base outpoint =
      ((view.FetchCoin below base outpoint).1.map CCoinsCacheEntry.coin,
        match (view.FetchCoin below base outpoint).1 with
        | none => (view.FetchCoin below base outpoint).2.1
        | some entry => (view.FetchCoin below base outpoint).2.1.spendEntry outpoint entry,
        (view.FetchCoin below base outpoint).2.2) := by
  unfold SpendCoin
  split <;> next h => rw [h]; rfl

@[simp] theorem hashBlock_spendEntry (view : CCoinsViewCache) (outpoint : COutPoint)
    (entry : CCoinsCacheEntry) : (view.spendEntry outpoint entry).hashBlock = view.hashBlock := by
  unfold spendEntry
  split <;> rfl

@[simp] theorem cacheNames_spendEntry (view : CCoinsViewCache) (outpoint : COutPoint)
    (entry : CCoinsCacheEntry) : (view.spendEntry outpoint entry).cacheNames = view.cacheNames := by
  unfold spendEntry
  split <;> rfl

@[simp] theorem hashBlock_SpendCoin (view : CCoinsViewCache) :
    (view.SpendCoin below base outpoint).2.1.hashBlock = view.hashBlock := by
  rw [SpendCoin_eq]
  split <;> simp

@[simp] theorem cacheNames_SpendCoin (view : CCoinsViewCache) :
    (view.SpendCoin below base outpoint).2.1.cacheNames = view.cacheNames := by
  rw [SpendCoin_eq]
  split <;> simp

theorem SpendCoin_below (view : CCoinsViewCache) :
    (view.SpendCoin below base outpoint).2.2 = (view.FetchCoin below base outpoint).2.2 := by
  rw [SpendCoin_eq]

/-- Spending an entry of a coherent cache: a fresh one goes, as there is nothing below it, and
any other is cleared and marked dirty. Either way the cache shows no coin there after. -/
theorem spendEntry_spec {view : CCoinsViewCache} (hc : view.Coherent B) {entry : CCoinsCacheEntry}
    (hentry : view.cacheCoins.find? outpoint = some entry) :
    (view.spendEntry outpoint entry).Coherent B ∧
      (view.spendEntry outpoint entry).shows B = Function.update (view.shows B) outpoint none := by
  unfold spendEntry
  by_cases hfresh : entry.fresh = true
  · rw [if_pos hfresh]
    refine ⟨hc.erase outpoint, ?_⟩
    rw [shows_erase, (hc outpoint entry hentry).fresh hfresh]
  · rw [if_neg hfresh]
    refine ⟨hc.insert ⟨fun h => (by cases h), fun h => absurd h hfresh⟩, ?_⟩
    rw [shows_insert]
    rfl

section Spend

variable (hB : Unspent B) (hbase : (base outpoint).1 = B outpoint)
include hB hbase

/-- `SpendCoin` moves out the coin the cache shows, and afterwards the cache shows no coin
there; what it promises stays true. -/
theorem SpendCoin_spec (view : CCoinsViewCache) (hc : view.Coherent B) :
    (view.SpendCoin below base outpoint).2.1.Coherent B ∧
      (view.SpendCoin below base outpoint).2.1.shows B =
        Function.update (view.shows B) outpoint none ∧
      ∀ coin, view.shows B outpoint = some coin →
        (view.SpendCoin below base outpoint).1 = some coin := by
  have hc₁ : (view.FetchCoin below base outpoint).2.1.Coherent B :=
    FetchCoin_coherent hB hbase view hc
  have hshows₁ : (view.FetchCoin below base outpoint).2.1.shows B = view.shows B :=
    shows_FetchCoin hB hbase view
  have hfind₁ : (view.FetchCoin below base outpoint).2.1.cacheCoins.find? outpoint =
      (view.FetchCoin below base outpoint).1 := find?_FetchCoin view
  have hfound : (view.FetchCoin below base outpoint).1.bind CCoinsCacheEntry.unspentCoin =
      view.shows B outpoint := FetchCoin_found hB hbase view
  rw [SpendCoin_eq]
  revert hc₁ hshows₁ hfind₁ hfound
  cases (view.FetchCoin below base outpoint).1 with
  | none =>
    -- nothing there: the cache already showed no coin
    intro hc₁ hshows₁ _ hfound
    refine ⟨hc₁, ?_, fun coin h => ?_⟩
    · rw [hshows₁, eq_comm, Function.update_eq_self_iff]
      exact hfound
    · rw [← hfound] at h
      cases h
  | some entry =>
    intro hc₁ hshows₁ hfind₁ hfound
    obtain ⟨hc', hshows'⟩ := spendEntry_spec hc₁ hfind₁
    refine ⟨hc', by rw [hshows', hshows₁], fun coin h => ?_⟩
    rw [← hfound, Option.bind_some] at h
    rw [Option.map_some, (CCoinsCacheEntry.unspentCoin_eq_some.mp h).1]

end Spend

end Reads

/-! ### Adding, dropping, setting the best block -/

/-- `AddCoin` of an unspent coin, which may overwrite or is not in the view, succeeds; the
cache then shows the coin, unless its script is unspendable, and keeps what it promises. -/
theorem AddCoin_spec (view : CCoinsViewCache) (hc : view.Coherent B) {outpoint : COutPoint}
    {coin : Coin} (hcoin : coin.IsSpent = false) {possible_overwrite : Bool}
    (hnew : possible_overwrite = false → view.shows B outpoint = none) :
    ∃ view', view.AddCoin outpoint coin possible_overwrite = .ok view' ∧ view'.Coherent B ∧
      view'.shows B = (if CScript.IsUnspendable coin.out.scriptPubKey then view.shows B
        else Function.update (view.shows B) outpoint (some coin)) ∧
      view'.hashBlock = view.hashBlock ∧ view'.cacheNames = view.cacheNames := by
  unfold AddCoin
  rw [if_neg (by simp [hcoin])]
  split
  · exact ⟨view, rfl, hc, rfl, rfl, rfl⟩
  · next hun =>
    -- the entry `emplace` finds or puts in: spent when the coin may not overwrite, and fresh
    -- only where the view below has no coin
    have hit : (possible_overwrite = false →
        ((view.cacheCoins.find? outpoint).getD default).coin.IsSpent = true) ∧
        (((view.cacheCoins.find? outpoint).getD default).fresh ||
          (!possible_overwrite && !((view.cacheCoins.find? outpoint).getD default).dirty) →
          B outpoint = none) := by
      cases hfind : view.cacheCoins.find? outpoint with
      | none =>
        have hshow : view.shows B outpoint = B outpoint := by simp [shows, hfind, entryShows]
        refine ⟨fun _ => rfl, fun h => ?_⟩
        cases possible_overwrite
        · rw [← hshow]
          exact hnew rfl
        · simp [default] at h
      | some it =>
        have hshow : view.shows B outpoint = it.unspentCoin := by simp [shows, hfind, entryShows]
        have hcoh := hc outpoint it hfind
        refine ⟨fun h => CCoinsCacheEntry.unspentCoin_eq_none.mp (hshow ▸ hnew h), fun h => ?_⟩
        simp only [Option.getD_some, Bool.or_eq_true, Bool.and_eq_true, Bool.not_eq_true'] at h
        rcases h with h | ⟨hpo, hdirty⟩
        · exact hcoh.fresh h
        · rw [← hcoh.clean hdirty, ← hshow]
          exact hnew hpo
    rw [if_neg (by cases possible_overwrite <;> simp_all)]
    refine ⟨_, rfl, hc.insert ⟨fun h => (by cases h), hit.2⟩, ?_, rfl, rfl⟩
    rw [shows_insert]
    simp [CCoinsCacheEntry.unspentCoin, hcoin]

/-- `Uncache` drops only an entry that shows what the view below does: the cache shows the
same. -/
theorem Uncache_spec (view : CCoinsViewCache) (hc : view.Coherent B) (hash : COutPoint) :
    (view.Uncache hash).Coherent B ∧ (view.Uncache hash).shows B = view.shows B := by
  unfold Uncache
  split
  · next entry hentry =>
    split
    · next hflags =>
      simp only [Bool.and_eq_true, Bool.not_eq_true'] at hflags
      refine ⟨hc.erase hash, ?_⟩
      rw [shows_erase, ← (hc hash entry hentry).clean hflags.1, Function.update_eq_self_iff]
      simp [shows, hentry, entryShows]
    · exact ⟨hc, rfl⟩
  · exact ⟨hc, rfl⟩

/-! ### Writing a child cache into its parent -/

/-- What `batchWriteEntry` leaves at an outpoint of the child's map, from the child's entry
there and the parent's. -/
def writeUp (child : CCoinsCacheEntry) : Option CCoinsCacheEntry → Option CCoinsCacheEntry
  | none =>
    if !child.dirty || (child.fresh && child.coin.IsSpent) then none
    else some ⟨child.coin, true, child.fresh⟩
  | some us =>
    if !child.dirty then some us
    else if us.fresh && child.coin.IsSpent then none
    else some { us with coin := child.coin, dirty := true }

/-- Where `batchWriteEntry` does not throw: the parent holds no unspent coin under a dirty fresh
entry of the child. -/
def WriteUpOk (child : CCoinsCacheEntry) (us? : Option CCoinsCacheEntry) : Prop :=
  ∀ us, us? = some us → child.dirty = true → child.fresh = true → us.coin.IsSpent = true

/-- `batchWriteEntry` succeeds where it may, and changes the parent's coins only at the child's
outpoint, to `writeUp` of the two entries. -/
theorem batchWriteEntry_ok (cacheCoins : CCoinsMap) (it : COutPoint × CCoinsCacheEntry)
    (hok : WriteUpOk it.2 (cacheCoins.find? it.1)) :
    ∃ m', batchWriteEntry cacheCoins it = .ok m' ∧
      m'.find? it.1 = writeUp it.2 (cacheCoins.find? it.1) ∧
      ∀ k, it.1 ≠ k → m'.find? k = cacheCoins.find? k := by
  obtain ⟨outpoint, child⟩ := it
  unfold batchWriteEntry
  dsimp only at hok ⊢
  by_cases hdirty : child.dirty = true
  · rw [if_neg (by simp [hdirty])]
    cases hus : cacheCoins.find? outpoint with
    | none =>
      dsimp only
      by_cases hdrop : (child.fresh && child.coin.IsSpent) = true
      · refine ⟨cacheCoins, by rw [if_pos hdrop]; rfl, ?_, fun _ _ => rfl⟩
        simp [writeUp, hus, hdrop]
      · refine ⟨_, by rw [if_neg hdrop]; rfl, ?_, fun k hk => OrdMap.find?_insert_of_ne _ _ hk⟩
        simp [writeUp, hdirty, hdrop]
    | some us =>
      have hthrow : ¬ (child.fresh && !us.coin.IsSpent) = true := by
        intro h
        simp only [Bool.and_eq_true, Bool.not_eq_true'] at h
        rw [hok us hus hdirty h.1] at h
        simp at h
      dsimp only
      rw [if_neg hthrow]
      by_cases herase : (us.fresh && child.coin.IsSpent) = true
      · refine ⟨_, by rw [if_pos herase]; rfl, ?_, fun k hk => OrdMap.find?_erase_of_ne _ hk⟩
        simp [writeUp, hdirty, herase]
      · refine ⟨_, by rw [if_neg herase]; rfl, ?_, fun k hk => OrdMap.find?_insert_of_ne _ _ hk⟩
        simp [writeUp, hdirty, herase]
  · rw [if_pos (by simpa using hdirty)]
    refine ⟨cacheCoins, rfl, ?_, fun _ _ => rfl⟩
    cases cacheCoins.find? outpoint <;> simp [writeUp, hdirty]

theorem unspentCoin_mk (coin : Coin) (dirty fresh : Bool) :
    (CCoinsCacheEntry.mk coin dirty fresh).unspentCoin = if coin.IsSpent then none else some coin :=
  rfl

/-- One outpoint of a flush: where the parent keeps its promises over the coin `g` below it and
the child keeps its promises over what the parent shows, the parent's entry takes over the
child's without throwing, keeps its promises, and shows what the child showed. -/
theorem writeUp_spec {child : CCoinsCacheEntry} {us? : Option CCoinsCacheEntry} {g : Option Coin}
    (hus : ∀ us, us? = some us → us.Coherent g) (hchild : child.Coherent (entryShows us? g)) :
    WriteUpOk child us? ∧ (∀ e, writeUp child us? = some e → e.Coherent g) ∧
      entryShows (writeUp child us?) g = child.unspentCoin := by
  by_cases hdirty : child.dirty = true
  · cases us? with
    | none =>
      -- the parent has no entry: what the child promises is about `g` itself
      have hfresh : child.fresh = true → g = none := hchild.fresh
      refine ⟨fun _ h => (by cases h), fun e he => ?_, ?_⟩
      · by_cases hdrop : (child.fresh && child.coin.IsSpent) = true
        · simp [writeUp, hdirty, hdrop] at he
        · simp [writeUp, hdirty, hdrop] at he
          subst he
          exact ⟨fun h => (by cases h), hfresh⟩
      · by_cases hdrop : (child.fresh && child.coin.IsSpent) = true
        · simp only [Bool.and_eq_true] at hdrop
          simp [writeUp, hdirty, hdrop, entryShows, CCoinsCacheEntry.unspentCoin,
            hfresh hdrop.1]
        · simp only [writeUp, hdirty, hdrop, Bool.not_true, Bool.false_or, entryShows]
          rfl
    | some us =>
      have hus' := hus us rfl
      -- a fresh child entry means the parent shows no coin, so its entry is spent
      have hok : WriteUpOk child (some us) := by
        intro us' h _ hf
        cases h
        exact CCoinsCacheEntry.unspentCoin_eq_none.mp (hchild.fresh hf)
      refine ⟨hok, fun e he => ?_, ?_⟩
      · by_cases herase : (us.fresh && child.coin.IsSpent) = true
        · simp [writeUp, hdirty, herase] at he
        · simp [writeUp, hdirty, herase] at he
          subst he
          exact ⟨fun h => by simp at h, hus'.fresh⟩
      · by_cases herase : (us.fresh && child.coin.IsSpent) = true
        · simp only [Bool.and_eq_true] at herase
          simp [writeUp, hdirty, herase, entryShows, CCoinsCacheEntry.unspentCoin,
            hus'.fresh herase.1]
        · simp only [writeUp, hdirty, herase, Bool.not_true, entryShows]
          rfl
  · -- the child's entry is clean: the parent's stays, and shows what the child does
    have hclean : child.dirty = false := by simpa using hdirty
    refine ⟨fun _ _ h => absurd h hdirty, fun e he => ?_, ?_⟩
    · cases us? with
      | none => simp [writeUp, hclean] at he
      | some us =>
        simp only [writeUp, hclean, Bool.not_false, if_true, Option.some.injEq] at he
        exact he ▸ hus us rfl
    · rw [hchild.clean hclean]
      cases us? <;> simp [writeUp, hclean]

/-- `BatchWrite` of a child into its parent, where the parent keeps its promises over the view
`G` below it and the child keeps its promises over what the parent shows: it succeeds, the
parent keeps its promises, and it shows what the child showed. -/
theorem BatchWrite_spec (fNameHistory : Bool) (parent child : CCoinsViewCache)
    {G : COutPoint → Option Coin} (hp : parent.Coherent G) (hc : child.Coherent (parent.shows G))
    (hnames : CNameCache.Built fNameHistory child.cacheNames) (hashBlockIn : Nat) :
    ∃ parent', parent.BatchWrite fNameHistory child.cacheCoins hashBlockIn child.cacheNames =
        .ok parent' ∧ parent'.Coherent G ∧ parent'.shows G = child.shows (parent.shows G) ∧
      parent'.hashBlock = hashBlockIn ∧
      parent.cacheNames.apply fNameHistory child.cacheNames = some parent'.cacheNames := by
  -- at each outpoint the two entries meet the conditions of `writeUp_spec`
  have hspec : ∀ k e, child.cacheCoins.find? k = some e →
      WriteUpOk e (parent.cacheCoins.find? k) ∧
        (∀ e', writeUp e (parent.cacheCoins.find? k) = some e' → e'.Coherent (G k)) ∧
        entryShows (writeUp e (parent.cacheCoins.find? k)) (G k) = e.unspentCoin :=
    fun k e he => writeUp_spec (fun us hus => hp k us hus) (hc k e he)
  obtain ⟨coins, hloop, hin, hout⟩ := OrdMap.foldlM_of_local batchWriteEntry
    (fun _ e us? => writeUp e us?) (fun _ e us? => WriteUpOk e us?)
    (fun a it hok => batchWriteEntry_ok a it hok) child.cacheCoins.entries parent.cacheCoins
    (OrdMap.nodup_keys _)
    (fun it hit => (hspec it.1 it.2 ((OrdMap.mem_entries_iff _ _ _).mp hit)).1)
  obtain ⟨names', happly⟩ := CNameCache.apply_isSome fNameHistory parent.cacheNames hnames
  refine ⟨⟨hashBlockIn, coins, names'⟩, ?_, fun k e he => ?_, funext fun k => ?_, rfl, happly⟩
  · simp only [BatchWrite, hloop, happly]
    rfl
  · -- the parent's entries after the loop keep their promises, outpoint by outpoint
    change coins.find? k = some e at he
    cases hk : child.cacheCoins.find? k with
    | none =>
      rw [hout k hk] at he
      exact hp k e he
    | some ce =>
      rw [hin k ce hk] at he
      exact (hspec k ce hk).2.1 e he
  · show entryShows (coins.find? k) (G k) = entryShows (child.cacheCoins.find? k) (parent.shows G k)
    cases hk : child.cacheCoins.find? k with
    | none => rw [hout k hk]; rfl
    | some ce => rw [hin k ce hk]; exact (hspec k ce hk).2.2

/-! ### Flushing -/

section Flush

variable {σ : Type}

/-- A flush with the best block set hands the cache down and empties it. -/
theorem Flush_of_hashBlock_ne (view : CCoinsViewCache) (below : σ)
    (batchWrite : σ → CCoinsMap → Nat → CNameCache → Except String σ) (hhash : view.hashBlock ≠ 0) :
    view.Flush below batchWrite =
      (batchWrite below view.cacheCoins view.hashBlock view.cacheNames).map
        fun below' => ({ view with cacheCoins := .empty, cacheNames := .init }, below') := by
  unfold Flush
  rw [if_neg (by simp [hhash])]
  cases batchWrite below view.cacheCoins view.hashBlock view.cacheNames <;> rfl

/-- An emptied cache promises nothing and shows what is below it. -/
theorem emptied_spec (view : CCoinsViewCache) (B : COutPoint → Option Coin) :
    ({ view with cacheCoins := .empty, cacheNames := .init } : CCoinsViewCache).Coherent B ∧
      ({ view with cacheCoins := .empty, cacheNames := .init } : CCoinsViewCache).shows B = B :=
  ⟨OrdMap.all_empty _, funext fun _ => rfl⟩

end Flush

end CCoinsViewCache

namespace CCoinsViewDB

/-- `BatchWrite` of a cache into the database, with the best block set: it succeeds, and the
database then holds the coins and the names the cache showed. -/
theorem BatchWrite_spec (fNameHistory : Bool) (db : CCoinsViewDB) (child : CCoinsViewCache)
    (hc : child.Coherent db.GetCoin) (hnames : CNameCache.Built fNameHistory child.cacheNames)
    {hashBlock : Nat} (hhash : hashBlock ≠ 0) :
    ∃ db', db.BatchWrite fNameHistory child.cacheCoins hashBlock child.cacheNames = .ok db' ∧
      db'.GetCoin = child.shows db.GetCoin ∧
      db'.names.names.find? = child.cacheNames.view db.names.names.find? ∧
      db'.names.historyStacks = child.cacheNames.historyStack db.names.historyStacks := by
  obtain ⟨batch, hbatch⟩ := CNameCache.writeBatch_isSome fNameHistory hnames
  -- the write of an entry changes the stored coin at its outpoint alone
  have hloop := OrdMap.find?_foldl_of_local writeCoin
    (fun _ e c? => if e.dirty then (if e.coin.IsSpent then none else some e.coin) else c?)
    (fun a e => by unfold writeCoin; split <;> [split <;> simp; rfl])
    (fun a e k hk => by
      unfold writeCoin
      split
      · split
        · exact OrdMap.find?_erase_of_ne _ hk
        · exact OrdMap.find?_insert_of_ne _ _ hk
      · rfl)
    child.cacheCoins db.coins
  refine ⟨_, by simp only [BatchWrite, if_neg hhash, hbatch]; rfl, funext fun k => ?_,
    CNameCache.WriteBatch_names fNameHistory hnames.disjoint hbatch db.names,
    CNameCache.historyStacks_WriteBatch fNameHistory hbatch db.names⟩
  show (child.cacheCoins.entries.foldl writeCoin db.coins).find? k =
    entryShows (child.cacheCoins.find? k) (db.GetCoin k)
  cases hk : child.cacheCoins.find? k with
  | none => exact hloop.2 k hk
  | some e =>
    rw [hloop.1 k e hk]
    by_cases hdirty : e.dirty = true
    · simp [hdirty, entryShows, CCoinsCacheEntry.unspentCoin]
    · -- a clean entry shows what the database holds
      have hclean : e.dirty = false := by simpa using hdirty
      rw [if_neg hdirty]
      exact ((hc k e hk).clean hclean).symm

end CCoinsViewDB

namespace CCoinsViewCache

@[simp] theorem cacheNames_Uncache (view : CCoinsViewCache) (hash : COutPoint) :
    (view.Uncache hash).cacheNames = view.cacheNames := by
  unfold Uncache
  split
  · split <;> rfl
  · rfl

theorem coherent_SetBestBlock {view : CCoinsViewCache} {B : COutPoint → Option Coin}
    (hc : view.Coherent B) (hashBlockIn : Nat) : (view.SetBestBlock hashBlockIn).Coherent B := hc

@[simp] theorem shows_SetBestBlock (view : CCoinsViewCache) (hashBlockIn : Nat) :
    (view.SetBestBlock hashBlockIn).shows = view.shows := rfl

/-- What a cache shows of coins does not depend on its names. -/
@[simp] theorem shows_with_cacheNames (view : CCoinsViewCache) (names : CNameCache) :
    ({ view with cacheNames := names } : CCoinsViewCache).shows = view.shows := rfl

end CCoinsViewCache

/-! ## The stack of caches -/

/-- The caches of the node over its database, the top first. -/
structure CoinsStack where
  caches : List CCoinsViewCache
  db : CCoinsViewDB

/-- `GetCoin` of a stack of caches over the database: each cache reads the caches below it. -/
def stackGetCoin (db : CCoinsViewDB) :
    List CCoinsViewCache → COutPoint → Option Coin × List CCoinsViewCache
  | [], outpoint => (db.GetCoin outpoint, [])
  | view :: below, outpoint =>
    let r := view.GetCoin below (stackGetCoin db below) outpoint
    (r.1, r.2.1 :: r.2.2)

/-- `GetName` of a stack of caches over the database. -/
def stackGetName (db : CCoinsViewDB) : List CCoinsViewCache → valtype → Option CNameData
  | [] => db.names.names.find?
  | view :: below => view.cacheNames.GetName (stackGetName db below)

/-- `GetNameHistory` of a stack of caches over the database. -/
def stackGetNameHistory (db : CCoinsViewDB) : List CCoinsViewCache → valtype → Option CNameHistory
  | [] => db.names.history.find?
  | view :: below => view.GetNameHistory (stackGetNameHistory db below)

/-- `Flush` of a cache into the caches below it, or into the database. -/
def flushInto (fNameHistory : Bool) (view : CCoinsViewCache) :
    List CCoinsViewCache → CCoinsViewDB → Except String CoinsStack
  | parent :: rest, db => do
    let r ← view.Flush parent fun p mapCoins h names => p.BatchWrite fNameHistory mapCoins h names
    pure ⟨r.1 :: r.2 :: rest, db⟩
  | [], db => do
    let r ← view.Flush db fun d mapCoins h names => d.BatchWrite fNameHistory mapCoins h names
    pure ⟨[r.1], r.2⟩

/-- What the node does with its coins views. -/
inductive CoinsEvent
  /-- `GetCoin`, `HaveCoin` or `AccessCoin` on the top cache, which all fetch -/
  | fetch (outpoint : COutPoint)
  | addCoin (outpoint : COutPoint) (coin : Coin) (possible_overwrite : Bool)
  | spendCoin (outpoint : COutPoint)
  | uncache (outpoint : COutPoint)
  | setBestBlock (hash : Nat)
  /-- `SetName`, forward or, with `undo`, when disconnecting a block -/
  | setName (name : valtype) (data : CNameData) (undo : Bool)
  | deleteName (name : valtype)
  | flush
  /-- a new cache over the top one, `CCoinsViewCache view (&base)` -/
  | push
  /-- the top cache, dropped without a flush -/
  | pop

/-- The steps of the stack: each event but `push` acts on the top cache. -/
inductive CoinsStep (fNameHistory : Bool) : CoinsStack → CoinsEvent → CoinsStack → Prop
  | fetch {view below db outpoint} :
    CoinsStep fNameHistory ⟨view :: below, db⟩ (.fetch outpoint)
      ⟨(view.GetCoin below (stackGetCoin db below) outpoint).2.1 ::
        (view.GetCoin below (stackGetCoin db below) outpoint).2.2, db⟩
  | addCoin {view view' below db outpoint coin possible_overwrite} :
    view.AddCoin outpoint coin possible_overwrite = .ok view' →
    CoinsStep fNameHistory ⟨view :: below, db⟩ (.addCoin outpoint coin possible_overwrite)
      ⟨view' :: below, db⟩
  | spendCoin {view below db outpoint} :
    CoinsStep fNameHistory ⟨view :: below, db⟩ (.spendCoin outpoint)
      ⟨(view.SpendCoin below (stackGetCoin db below) outpoint).2.1 ::
        (view.SpendCoin below (stackGetCoin db below) outpoint).2.2, db⟩
  | uncache {view below db outpoint} :
    CoinsStep fNameHistory ⟨view :: below, db⟩ (.uncache outpoint)
      ⟨view.Uncache outpoint :: below, db⟩
  | setBestBlock {view below db hash} :
    CoinsStep fNameHistory ⟨view :: below, db⟩ (.setBestBlock hash)
      ⟨view.SetBestBlock hash :: below, db⟩
  | setName {view view' below db name data undo} :
    view.SetName fNameHistory (stackGetName db below) (stackGetNameHistory db below) name data
      undo = .ok view' →
    CoinsStep fNameHistory ⟨view :: below, db⟩ (.setName name data undo) ⟨view' :: below, db⟩
  | deleteName {view view' below db name} :
    view.DeleteName fNameHistory (stackGetNameHistory db below) name = .ok view' →
    CoinsStep fNameHistory ⟨view :: below, db⟩ (.deleteName name) ⟨view' :: below, db⟩
  | flush {view below db s'} :
    flushInto fNameHistory view below db = .ok s' →
    CoinsStep fNameHistory ⟨view :: below, db⟩ .flush s'
  | push {s} : CoinsStep fNameHistory s .push ⟨.new :: s.caches, s.db⟩
  | pop {view below db} : CoinsStep fNameHistory ⟨view :: below, db⟩ .pop ⟨below, db⟩

/-! ## Snapshots -/

/-- What a view shows: its coins, its names and the history stacks of the names. -/
structure Snapshot where
  coins : COutPoint → Option Coin
  names : valtype → Option CNameData
  history : valtype → List CNameData

/-- What a stack of caches over the database shows: each cache over what the ones below show. -/
def viewOf (db : CCoinsViewDB) : List CCoinsViewCache → Snapshot
  | [] => ⟨db.GetCoin, db.names.names.find?, db.names.historyStacks⟩
  | view :: below => ⟨view.shows (viewOf db below).coins, view.cacheNames.view (viewOf db below).names,
      view.cacheNames.historyStack (viewOf db below).history⟩

/-- The snapshots of a stack, the top first: one for each cache, and the database's. -/
def snapshotsOf (db : CCoinsViewDB) : List CCoinsViewCache → List Snapshot
  | [] => [viewOf db []]
  | view :: below => viewOf db (view :: below) :: snapshotsOf db below

/-- What setting a name does to the history stacks: where history is kept and the name was
there, its stack takes the data overwritten, or gives up its top when undoing. -/
def Snapshot.setHistory (fNameHistory : Bool) (v : Snapshot) (name : valtype) (undo : Bool) :
    valtype → List CNameData :=
  match v.names name with
  | some old =>
    if fNameHistory then
      Function.update v.history name (if undo then (v.history name).dropLast else v.history name ++ [old])
    else v.history
  | none => v.history

/-- What an event does to a stack of plain maps: an added coin, unless its script is
unspendable, and a spent one change the top map, and so do the names set, with their history
stacks, and removed; a flush copies the top map one level down, a new cache repeats it and a
dropped cache uncovers the map below it. -/
def Snapshot.step (fNameHistory : Bool) : List Snapshot → CoinsEvent → List Snapshot
  | v :: vs, .addCoin outpoint coin _ =>
    (if CScript.IsUnspendable coin.out.scriptPubKey then v
      else { v with coins := Function.update v.coins outpoint (some coin) }) :: vs
  | v :: vs, .spendCoin outpoint => { v with coins := Function.update v.coins outpoint none } :: vs
  | v :: vs, .setName name data undo =>
    { v with
      names := Function.update v.names name (some data)
      history := v.setHistory fNameHistory name undo } :: vs
  | v :: vs, .deleteName name => { v with names := Function.update v.names name none } :: vs
  | v :: _ :: vs, .flush => v :: v :: vs
  | v :: vs, .push => v :: v :: vs
  | _ :: vs, .pop => vs
  | vs, _ => vs

/-- What the caller of each event sees to: a cache to act on; for `AddCoin`, an unspent coin
that may overwrite or is not in the view; for a flush, the best block set. For `SetName`: a name
that is not there is not undone, and where history is kept, undoing sets back the data on top of
the name's stack and going forward overwrites data no older than that top; for `DeleteName`,
where history is kept, an empty stack. -/
def CoinsEvent.Contract (fNameHistory : Bool) (s : CoinsStack) : CoinsEvent → Prop
  | .push => True
  | .addCoin outpoint coin possible_overwrite => s.caches ≠ [] ∧ coin.IsSpent = false ∧
    (possible_overwrite = false → (viewOf s.db s.caches).coins outpoint = none)
  | .flush => ∃ view below, s.caches = view :: below ∧ view.hashBlock ≠ 0
  | .setName name data undo => s.caches ≠ [] ∧
    match (viewOf s.db s.caches).names name with
    | some old => fNameHistory = true →
      if undo then ((viewOf s.db s.caches).history name).getLast? = some data
      else ∀ top, ((viewOf s.db s.caches).history name).getLast? = some top →
        top.nHeight ≤ old.nHeight
    | none => undo = false
  | .deleteName name => s.caches ≠ [] ∧
    (fNameHistory = true → (viewOf s.db s.caches).history name = [])
  | _ => s.caches ≠ []

/-- The stacks of the node: from its database alone, the events its callers make under their
contracts. -/
def coinsSystem (fNameHistory : Bool) : TransitionSystem CoinsStack CoinsEvent where
  init s := s.caches = []
  step s e s' := e.Contract fNameHistory s ∧ CoinsStep fNameHistory s e s'

/-- Every cache of a stack keeps its promises over the caches below it, and holds names built
by `SetName` and `DeleteName`. -/
def StackCoherent (fNameHistory : Bool) (db : CCoinsViewDB) : List CCoinsViewCache → Prop
  | [] => True
  | view :: below => view.Coherent (viewOf db below).coins ∧
    CNameCache.Built fNameHistory view.cacheNames ∧ StackCoherent fNameHistory db below

/-! ## The stack keeps its promises and shows its snapshots -/

section Stack

variable {fNameHistory : Bool} {db : CCoinsViewDB}

theorem head?_snapshotsOf (db : CCoinsViewDB) :
    ∀ caches, (snapshotsOf db caches).head? = some (viewOf db caches)
  | [] => rfl
  | _ :: _ => rfl

theorem viewOf_eq_of_snapshotsOf {caches caches' : List CCoinsViewCache}
    (h : snapshotsOf db caches = snapshotsOf db caches') : viewOf db caches = viewOf db caches' := by
  have hhead := head?_snapshotsOf db caches
  rw [h, head?_snapshotsOf] at hhead
  exact (Option.some.inj hhead).symm

theorem unspent_viewOf (db : CCoinsViewDB) : ∀ caches, Unspent (viewOf db caches).coins
  | [] => db.unspent
  | view :: below => view.unspent_shows (unspent_viewOf db below)

/-- What a read of the caches below the top one must do for a fetch through the top one: find
what they show, and leave them keeping their promises and showing the same. -/
structure ReadsBelow (fNameHistory : Bool) (db : CCoinsViewDB) (below : List CCoinsViewCache)
    (outpoint : COutPoint) : Prop where
  found : (stackGetCoin db below outpoint).1 = (viewOf db below).coins outpoint
  coherent : StackCoherent fNameHistory db (stackGetCoin db below outpoint).2
  snapshots : snapshotsOf db (stackGetCoin db below outpoint).2 = snapshotsOf db below

/-- A fetch through the top cache leaves the caches below it keeping their promises and showing
the same. -/
theorem ReadsBelow.fetch_below (view : CCoinsViewCache) {below : List CCoinsViewCache}
    {outpoint : COutPoint} (hr : ReadsBelow fNameHistory db below outpoint)
    (hs : StackCoherent fNameHistory db below) :
    StackCoherent fNameHistory db (view.FetchCoin below (stackGetCoin db below) outpoint).2.2 ∧
      snapshotsOf db (view.FetchCoin below (stackGetCoin db below) outpoint).2.2 =
        snapshotsOf db below := by
  have hcases : (view.FetchCoin below (stackGetCoin db below) outpoint).2.2 = below ∨
      (view.FetchCoin below (stackGetCoin db below) outpoint).2.2 =
        (stackGetCoin db below outpoint).2 := view.FetchCoin_below
  rcases hcases with h | h
  · rw [h]
    exact ⟨hs, rfl⟩
  · rw [h]
    exact ⟨hr.coherent, hr.snapshots⟩

/-- A fetch through the top cache of a coherent stack, over a read of the caches below that does
what it must: the stack keeps its promises and shows the same snapshots. -/
theorem ReadsBelow.fetch {view : CCoinsViewCache} {below : List CCoinsViewCache}
    {outpoint : COutPoint} (hr : ReadsBelow fNameHistory db below outpoint)
    (hs : StackCoherent fNameHistory db (view :: below)) :
    StackCoherent fNameHistory db ((view.FetchCoin below (stackGetCoin db below) outpoint).2.1 ::
        (view.FetchCoin below (stackGetCoin db below) outpoint).2.2) ∧
      snapshotsOf db ((view.FetchCoin below (stackGetCoin db below) outpoint).2.1 ::
        (view.FetchCoin below (stackGetCoin db below) outpoint).2.2) =
        snapshotsOf db (view :: below) := by
  obtain ⟨hc, hnames, hrest⟩ := hs
  obtain ⟨hcoh, hsnap⟩ := hr.fetch_below view hrest
  have hview := viewOf_eq_of_snapshotsOf hsnap
  have hB := unspent_viewOf db below
  refine ⟨⟨?_, ?_, hcoh⟩, ?_⟩
  · rw [hview]
    exact CCoinsViewCache.FetchCoin_coherent hB hr.found view hc
  · rw [CCoinsViewCache.cacheNames_FetchCoin]
    exact hnames
  · simp only [snapshotsOf, viewOf, hsnap, hview, CCoinsViewCache.shows_FetchCoin hB hr.found,
      CCoinsViewCache.cacheNames_FetchCoin]

/-- A read through a coherent stack finds what the stack shows, and leaves it keeping its
promises and showing the same snapshots. -/
theorem readsBelow (hs : StackCoherent fNameHistory db caches) (outpoint : COutPoint) :
    ReadsBelow fNameHistory db caches outpoint := by
  induction caches with
  | nil => exact ⟨rfl, trivial, rfl⟩
  | cons view below ih =>
    -- the top cache reads the caches below, which do what they must by induction
    have hr := ih hs.2.2
    obtain ⟨hcoh, hsnap⟩ := hr.fetch hs
    exact ⟨CCoinsViewCache.GetCoin_eq (unspent_viewOf db below) hr.found view, hcoh, hsnap⟩

/-! ### One step at a time -/

/-- A stack whose top cache is replaced by one that keeps its promises over the same caches below
and holds names built the same way. -/
theorem stackCoherent_cons {view view' : CCoinsViewCache} {below : List CCoinsViewCache}
    (hs : StackCoherent fNameHistory db (view :: below))
    (hc : view'.Coherent (viewOf db below).coins)
    (hnames : CNameCache.Built fNameHistory view'.cacheNames) :
    StackCoherent fNameHistory db (view' :: below) :=
  ⟨hc, hnames, hs.2.2⟩

theorem snapshotsOf_cons (view : CCoinsViewCache) (below : List CCoinsViewCache) :
    snapshotsOf db (view :: below) =
      ⟨view.shows (viewOf db below).coins, view.cacheNames.view (viewOf db below).names,
        view.cacheNames.historyStack (viewOf db below).history⟩ :: snapshotsOf db below := rfl

/-- Spending through the top cache: the top snapshot loses the coin. -/
theorem spend_spec {view : CCoinsViewCache} {below : List CCoinsViewCache} (outpoint : COutPoint)
    (hs : StackCoherent fNameHistory db (view :: below)) :
    StackCoherent fNameHistory db ((view.SpendCoin below (stackGetCoin db below) outpoint).2.1 ::
        (view.SpendCoin below (stackGetCoin db below) outpoint).2.2) ∧
      snapshotsOf db ((view.SpendCoin below (stackGetCoin db below) outpoint).2.1 ::
          (view.SpendCoin below (stackGetCoin db below) outpoint).2.2) =
        Snapshot.step fNameHistory (snapshotsOf db (view :: below)) (.spendCoin outpoint) := by
  have hr := readsBelow hs.2.2 outpoint
  obtain ⟨hcoh, hsnap⟩ := hr.fetch_below view hs.2.2
  rw [← CCoinsViewCache.SpendCoin_below] at hcoh hsnap
  have hview := viewOf_eq_of_snapshotsOf hsnap
  obtain ⟨hc', hshows', -⟩ :=
    CCoinsViewCache.SpendCoin_spec (unspent_viewOf db below) hr.found view hs.1
  refine ⟨⟨by rw [hview]; exact hc', by rw [CCoinsViewCache.cacheNames_SpendCoin]; exact hs.2.1,
    hcoh⟩, ?_⟩
  rw [snapshotsOf_cons, snapshotsOf_cons, hsnap, hview, hshows',
    CCoinsViewCache.cacheNames_SpendCoin]
  rfl

/-- Spending through the top cache moves out the coin the stack shows. -/
theorem spend_moved {view : CCoinsViewCache} {below : List CCoinsViewCache} (outpoint : COutPoint)
    (hs : StackCoherent fNameHistory db (view :: below)) {coin : Coin}
    (hshow : (viewOf db (view :: below)).coins outpoint = some coin) :
    (view.SpendCoin below (stackGetCoin db below) outpoint).1 = some coin :=
  (CCoinsViewCache.SpendCoin_spec (unspent_viewOf db below) (readsBelow hs.2.2 outpoint).found view
    hs.1).2.2 coin hshow

/-- Adding a coin to the top cache under the contract of `AddCoin`: it succeeds, and the top
snapshot gains the coin unless its script is unspendable. -/
theorem add_spec {view : CCoinsViewCache} {below : List CCoinsViewCache} {outpoint : COutPoint}
    {coin : Coin} {possible_overwrite : Bool} (hs : StackCoherent fNameHistory db (view :: below))
    (hcoin : coin.IsSpent = false)
    (hnew : possible_overwrite = false → (viewOf db (view :: below)).coins outpoint = none) :
    ∃ view', view.AddCoin outpoint coin possible_overwrite = .ok view' ∧
      StackCoherent fNameHistory db (view' :: below) ∧
      snapshotsOf db (view' :: below) = Snapshot.step fNameHistory (snapshotsOf db (view :: below))
        (.addCoin outpoint coin possible_overwrite) := by
  obtain ⟨view', hadd, hc', hshows', -, hnames'⟩ :=
    CCoinsViewCache.AddCoin_spec view hs.1 hcoin hnew
  refine ⟨view', hadd, stackCoherent_cons hs hc' (hnames' ▸ hs.2.1), ?_⟩
  rw [snapshotsOf_cons, snapshotsOf_cons, hshows', hnames']
  by_cases hun : CScript.IsUnspendable coin.out.scriptPubKey = true
  · simp only [if_pos hun, Snapshot.step]
  · simp only [if_neg hun, Snapshot.step]

/-- Dropping an entry from the top cache: the snapshots stay. -/
theorem uncache_spec {view : CCoinsViewCache} {below : List CCoinsViewCache} (outpoint : COutPoint)
    (hs : StackCoherent fNameHistory db (view :: below)) :
    StackCoherent fNameHistory db (view.Uncache outpoint :: below) ∧
      snapshotsOf db (view.Uncache outpoint :: below) = snapshotsOf db (view :: below) := by
  obtain ⟨hc', hshows'⟩ := view.Uncache_spec hs.1 outpoint
  refine ⟨stackCoherent_cons hs hc' (by rw [CCoinsViewCache.cacheNames_Uncache]; exact hs.2.1), ?_⟩
  rw [snapshotsOf_cons, snapshotsOf_cons, hshows', CCoinsViewCache.cacheNames_Uncache]

/-- The names read through the top cache of a coherent stack are what its top snapshot shows. -/
theorem stackGetName_eq {caches : List CCoinsViewCache} (hs : StackCoherent fNameHistory db caches) :
    stackGetName db caches = (viewOf db caches).names := by
  induction caches with
  | nil => rfl
  | cons view below ih =>
    -- each cache's entries and deletions are apart, so its `GetName` is what it shows
    rw [stackGetName, ih hs.2.2]
    exact CNameCache.GetName_eq_view hs.2.1.disjoint _

/-- The history stacks read through the top cache, a failed read taken as the empty stack, are
what the top snapshot shows. -/
theorem stackGetNameHistory_eq (db : CCoinsViewDB) :
    ∀ caches name, ((stackGetNameHistory db caches name).getD ⟨[]⟩).data =
      (viewOf db caches).history name
  | [], name => by
    simp only [stackGetNameHistory, viewOf, NameDB.historyStacks]
    cases db.names.history.find? name <;> rfl
  | view :: below, name => by
    simp only [stackGetNameHistory, viewOf, CCoinsViewCache.GetNameHistory,
      CNameCache.historyStack]
    cases view.cacheNames.history.find? name with
    | some history => rfl
    | none => exact stackGetNameHistory_eq db below name

/-- Setting a name on the top cache, where the name's data and history stack are those the top
snapshot shows and the caller keeps the contract of `SetName`: no assertion fails, and the top
snapshot's names and history stacks change as setting the name says. -/
theorem setName_spec {view : CCoinsViewCache} {below : List CCoinsViewCache} {name : valtype}
    {data : CNameData} {undo : Bool} (hs : StackCoherent fNameHistory db (view :: below))
    (hpre : match (viewOf db (view :: below)).names name with
      | some old => fNameHistory = true →
        if undo then ((viewOf db (view :: below)).history name).getLast? = some data
        else ∀ top, ((viewOf db (view :: below)).history name).getLast? = some top →
          top.nHeight ≤ old.nHeight
      | none => undo = false) :
    ∃ view', view.SetName fNameHistory (stackGetName db below) (stackGetNameHistory db below) name
        data undo = .ok view' ∧
      StackCoherent fNameHistory db (view' :: below) ∧
      snapshotsOf db (view' :: below) =
        Snapshot.step fNameHistory (snapshotsOf db (view :: below)) (.setName name data undo) := by
  have hget : view.cacheNames.GetName (stackGetName db below) name =
      (viewOf db (view :: below)).names name := by
    rw [stackGetName_eq hs.2.2]
    exact congrFun (CNameCache.GetName_eq_view hs.2.1.disjoint _) name
  have hhist : ((view.GetNameHistory (stackGetNameHistory db below) name).getD ⟨[]⟩).data =
      (viewOf db (view :: below)).history name := stackGetNameHistory_eq db (view :: below) name
  -- the cache the name is finally set on: with the name's new stack where there is one
  suffices hnames : ∃ c, view.SetName fNameHistory (stackGetName db below)
      (stackGetNameHistory db below) name data undo = .ok { view with cacheNames := c.set name data } ∧
      CNameCache.Built fNameHistory c ∧ c.view (viewOf db below).names = view.cacheNames.view (viewOf db below).names ∧
      c.historyStack (viewOf db below).history = (viewOf db (view :: below)).setHistory fNameHistory name undo by
    obtain ⟨c, hset, hbuilt, hview, hstack⟩ := hnames
    refine ⟨_, hset, stackCoherent_cons hs hs.1 (hbuilt.set fNameHistory name data), ?_⟩
    rw [snapshotsOf_cons, snapshotsOf_cons]
    simp only [Snapshot.step, CCoinsViewCache.shows_with_cacheNames, CNameCache.view_set, hview,
      CNameCache.historyStack_set, hstack]
    rfl
  cases hname : (viewOf db (view :: below)).names name with
  | none =>
    -- a new name: no history, and no undo
    rw [hname] at hpre
    subst hpre
    refine ⟨view.cacheNames, ?_, hs.2.1, rfl, ?_⟩
    · simp only [CCoinsViewCache.SetName, hget, hname]
      rfl
    · simp only [Snapshot.setHistory, hname]
      rfl
  | some old =>
    rw [hname] at hpre
    by_cases hf : fNameHistory = true
    · -- the stack the name has, pushed or popped as the contract allows
      have hstep : ∃ history, (if undo then ((view.GetNameHistory (stackGetNameHistory db below) name).getD ⟨[]⟩).pop data
            else ((view.GetNameHistory (stackGetNameHistory db below) name).getD ⟨[]⟩).push old) =
            .ok history ∧
          history.data = if undo then ((viewOf db (view :: below)).history name).dropLast
            else (viewOf db (view :: below)).history name ++ [old] := by
        have hpre' := hpre hf
        cases undo with
        | true =>
          -- the data set back is on top of the stack
          rw [if_pos rfl] at hpre'
          refine ⟨⟨((viewOf db (view :: below)).history name).dropLast⟩, ?_, rfl⟩
          rw [if_pos rfl, CNameHistory.pop, hhist, if_pos hpre']
          rfl
        | false =>
          -- the data overwritten is no older than the top of the stack
          rw [if_neg Bool.false_ne_true] at hpre'
          refine ⟨⟨(viewOf db (view :: below)).history name ++ [old]⟩, ?_, rfl⟩
          rw [if_neg Bool.false_ne_true, CNameHistory.push, hhist]
          cases htop : ((viewOf db (view :: below)).history name).getLast? with
          | none => rfl
          | some top =>
            simp only [if_pos (hpre' top htop)]
            rfl
      obtain ⟨history, hrun, hdata⟩ := hstep
      have hsetHistory : view.cacheNames.setHistory fNameHistory name history =
          some { view.cacheNames with history := view.cacheNames.history.insert name history } := by
        simp [CNameCache.setHistory, hf]
      refine ⟨{ view.cacheNames with history := view.cacheNames.history.insert name history }, ?_,
        hs.2.1.setHistory fNameHistory hsetHistory, rfl, ?_⟩
      · simp only [CCoinsViewCache.SetName, hget, hname, if_pos hf, hrun, Except.ok_bind,
          hsetHistory]
        rfl
      · rw [CNameCache.historyStack_insert, hdata]
        simp only [Snapshot.setHistory, hname, hf, if_true]
        rfl
    · -- without history only the name changes
      have hf' : fNameHistory = false := by simpa using hf
      refine ⟨view.cacheNames, ?_, hs.2.1, rfl, ?_⟩
      · simp only [CCoinsViewCache.SetName, hget, hname, hf']
        rfl
      · simp only [Snapshot.setHistory, hname, hf']
        rfl

/-- Deleting a name from the top cache, where history is kept only with the name's stack empty:
the assertion holds, and the top snapshot loses the name. -/
theorem deleteName_spec {view : CCoinsViewCache} {below : List CCoinsViewCache} {name : valtype}
    (hs : StackCoherent fNameHistory db (view :: below))
    (hpre : fNameHistory = true → (viewOf db (view :: below)).history name = []) :
    view.DeleteName fNameHistory (stackGetNameHistory db below) name =
        .ok { view with cacheNames := view.cacheNames.remove name } ∧
      StackCoherent fNameHistory db ({ view with cacheNames := view.cacheNames.remove name } :: below) ∧
      snapshotsOf db ({ view with cacheNames := view.cacheNames.remove name } :: below) =
        Snapshot.step fNameHistory (snapshotsOf db (view :: below)) (.deleteName name) := by
  have hhist : ((view.GetNameHistory (stackGetNameHistory db below) name).getD ⟨[]⟩).data =
      (viewOf db (view :: below)).history name := stackGetNameHistory_eq db (view :: below) name
  refine ⟨?_, stackCoherent_cons hs hs.1 (hs.2.1.remove fNameHistory name), ?_⟩
  · -- where history is kept, the read finds no stack or an empty one
    have hclean : (fNameHistory &&
        !((view.GetNameHistory (stackGetNameHistory db below) name).all (·.empty))) = false := by
      cases hf : fNameHistory
      · rfl
      · have hempty := hpre hf
        cases hr : view.GetNameHistory (stackGetNameHistory db below) name with
        | none => rfl
        | some history =>
          rw [hr, Option.getD_some, hempty] at hhist
          simp [CNameHistory.empty, hhist]
    simp only [CCoinsViewCache.DeleteName, hclean]
    rfl
  · rw [snapshotsOf_cons, snapshotsOf_cons]
    simp only [Snapshot.step, CCoinsViewCache.shows_with_cacheNames, CNameCache.view_remove,
      CNameCache.historyStack_remove]

/-- A flush of the top cache with its best block set: it succeeds, the level below takes over
what the top cache showed, and the top cache, emptied, shows the same over it. -/
theorem flush_spec {view : CCoinsViewCache} {below : List CCoinsViewCache}
    (hs : StackCoherent fNameHistory db (view :: below)) (hhash : view.hashBlock ≠ 0) :
    ∃ s', flushInto fNameHistory view below db = .ok s' ∧
      StackCoherent fNameHistory s'.db s'.caches ∧
      snapshotsOf s'.db s'.caches = Snapshot.step fNameHistory (snapshotsOf db (view :: below)) .flush := by
  obtain ⟨hc, hnames, hrest⟩ := hs
  have hdisj : view.cacheNames.Disjoint := hnames.disjoint
  have hempty := view.emptied_spec
  cases below with
  | cons parent rest =>
    -- into the parent cache, which then shows what the two levels showed
    obtain ⟨parent', hwrite, hp', hshows', -, happly⟩ := CCoinsViewCache.BatchWrite_spec
      fNameHistory parent view hrest.1 hc hnames view.hashBlock
    have hnames' : parent'.cacheNames.view (viewOf db rest).names =
        view.cacheNames.view (parent.cacheNames.view (viewOf db rest).names) :=
      CNameCache.apply_view fNameHistory hdisj happly _
    have hhist' : parent'.cacheNames.historyStack (viewOf db rest).history =
        view.cacheNames.historyStack (parent.cacheNames.historyStack (viewOf db rest).history) :=
      CNameCache.historyStack_apply fNameHistory happly _
    refine ⟨⟨{ view with cacheCoins := .empty, cacheNames := .init } :: parent' :: rest, db⟩,
      by simp only [flushInto, view.Flush_of_hashBlock_ne _ _ hhash, hwrite]; rfl,
      ⟨(hempty _).1, CNameCache.Built.init fNameHistory, hp', hrest.2.1.apply fNameHistory happly,
        hrest.2.2⟩, ?_⟩
    simp only [snapshotsOf_cons, viewOf, (hempty _).2, CNameCache.view_init, hshows', hnames',
      CNameCache.historyStack_init, hhist', Snapshot.step]
  | nil =>
    -- into the database, which then holds what the cache showed
    obtain ⟨db', hwrite, hcoins', hnames', hhist'⟩ :=
      CCoinsViewDB.BatchWrite_spec fNameHistory db view hc hnames hhash
    refine ⟨⟨[{ view with cacheCoins := .empty, cacheNames := .init }], db'⟩,
      by simp only [flushInto, view.Flush_of_hashBlock_ne _ _ hhash, hwrite]; rfl,
      ⟨(hempty _).1, CNameCache.Built.init fNameHistory, trivial⟩, ?_⟩
    simp only [snapshotsOf, viewOf, (hempty _).2, CNameCache.view_init, hcoins', hnames',
      CNameCache.historyStack_init, hhist', Snapshot.step]

/-- A step of a coherent stack under its contract keeps the stack coherent, and moves its
snapshots as the stack of plain maps does. -/
theorem CoinsStep.spec {s s' : CoinsStack} {e : CoinsEvent} (hstep : CoinsStep fNameHistory s e s')
    (hs : StackCoherent fNameHistory s.db s.caches) (hpre : e.Contract fNameHistory s) :
    StackCoherent fNameHistory s'.db s'.caches ∧
      snapshotsOf s'.db s'.caches = Snapshot.step fNameHistory (snapshotsOf s.db s.caches) e := by
  cases hstep with
  | fetch =>
    obtain ⟨hcoh, hsnap⟩ := (readsBelow hs.2.2 _).fetch hs
    exact ⟨hcoh, by rw [snapshotsOf_cons] at hsnap ⊢; exact hsnap⟩
  | addCoin hadd =>
    obtain ⟨-, hcoin, hnew⟩ := hpre
    obtain ⟨view', hadd', hcoh, hsnap⟩ := add_spec hs hcoin hnew
    rw [hadd, Except.ok.injEq] at hadd'
    exact hadd' ▸ ⟨hcoh, hsnap⟩
  | spendCoin => exact spend_spec _ hs
  | uncache =>
    obtain ⟨hcoh, hsnap⟩ := uncache_spec _ hs
    exact ⟨hcoh, by rw [hsnap]; cases hs; rfl⟩
  | setBestBlock => exact ⟨hs, rfl⟩
  | setName hset =>
    obtain ⟨view', hset', hcoh, hsnap⟩ := setName_spec hs hpre.2
    rw [hset, Except.ok.injEq] at hset'
    exact hset' ▸ ⟨hcoh, hsnap⟩
  | deleteName hdel =>
    obtain ⟨hdel', hcoh, hsnap⟩ := deleteName_spec hs hpre.2
    rw [hdel, Except.ok.injEq] at hdel'
    exact hdel' ▸ ⟨hcoh, hsnap⟩
  | flush hflush =>
    obtain ⟨view, below, hcaches, hhash⟩ := hpre
    cases hcaches
    obtain ⟨s'', hflush', hcoh, hsnap⟩ := flush_spec hs hhash
    rw [hflush, Except.ok.injEq] at hflush'
    exact hflush' ▸ ⟨hcoh, hsnap⟩
  | push =>
    refine ⟨⟨CCoinsViewCache.coherent_new _, CNameCache.Built.init fNameHistory, hs⟩, ?_⟩
    rw [snapshotsOf_cons, CCoinsViewCache.shows_new]
    cases h : s.caches with
    | nil => simp [CCoinsViewCache.new, snapshotsOf, Snapshot.step]
    | cons view below => simp [CCoinsViewCache.new, snapshotsOf, Snapshot.step]
  | pop => exact ⟨hs.2.2, rfl⟩

/-- Under its contract, every event of a coherent stack can be taken: nothing it runs throws. -/
theorem CoinsStep.exists {s : CoinsStack} (hs : StackCoherent fNameHistory s.db s.caches)
    {e : CoinsEvent} (hpre : e.Contract fNameHistory s) : ∃ s', CoinsStep fNameHistory s e s' := by
  obtain ⟨caches, db⟩ := s
  -- every event but `push` needs a cache to act on
  have htop : e ≠ .push → caches ≠ [] → ∃ view below, caches = view :: below :=
    fun _ hne => List.exists_cons_of_ne_nil hne
  cases e with
  | push => exact ⟨_, .push⟩
  | flush =>
    obtain ⟨view, below, rfl, hhash⟩ := hpre
    obtain ⟨s', hflush, -, -⟩ := flush_spec hs hhash
    exact ⟨s', .flush hflush⟩
  | addCoin outpoint coin possible_overwrite =>
    obtain ⟨hne, hcoin, hnew⟩ := hpre
    obtain ⟨view, below, rfl⟩ := htop (by simp) hne
    obtain ⟨view', hadd, -, -⟩ := add_spec hs hcoin hnew
    exact ⟨_, .addCoin hadd⟩
  | setName name data undo =>
    obtain ⟨hne, hname⟩ := hpre
    obtain ⟨view, below, rfl⟩ := htop (by simp) hne
    obtain ⟨view', hset, -, -⟩ := setName_spec hs hname
    exact ⟨_, .setName hset⟩
  | deleteName name =>
    obtain ⟨hne, hhist⟩ := hpre
    obtain ⟨view, below, rfl⟩ := htop (by simp) hne
    exact ⟨_, .deleteName (deleteName_spec hs hhist).1⟩
  | fetch outpoint =>
    obtain ⟨view, below, rfl⟩ := htop (by simp) hpre
    exact ⟨_, .fetch⟩
  | spendCoin outpoint =>
    obtain ⟨view, below, rfl⟩ := htop (by simp) hpre
    exact ⟨_, .spendCoin⟩
  | uncache outpoint =>
    obtain ⟨view, below, rfl⟩ := htop (by simp) hpre
    exact ⟨_, .uncache⟩
  | setBestBlock hash =>
    obtain ⟨view, below, rfl⟩ := htop (by simp) hpre
    exact ⟨_, .setBestBlock⟩
  | pop =>
    obtain ⟨view, below, rfl⟩ := htop (by simp) hpre
    exact ⟨_, .pop⟩

theorem coinsSystem_coherent :
    (coinsSystem fNameHistory).Invariant fun s => StackCoherent fNameHistory s.db s.caches where
  init s h := by
    show StackCoherent fNameHistory s.db s.caches
    rw [show s.caches = [] from h]
    trivial
  step _ _ _ hs h := (h.2.spec hs h.1).1

end Stack

/-- Along every run of the node's coins views, from its database through the events its callers
make under their contracts, every event, again under its contract, can be taken without an
assertion failing or a `logic_error` being thrown, and every way to take it moves the snapshots
of the stack as the stack of plain maps does: the `DIRTY` and `FRESH` flags, the coins kept by
reads and dropped by `Uncache`, and the fresh entries erased instead of written back are all
invisible. -/
theorem coinsSystem_refines {fNameHistory : Bool} {s : CoinsStack}
    (h : (coinsSystem fNameHistory).Reachable s) (e : CoinsEvent)
    (hpre : e.Contract fNameHistory s) :
    (∃ s', (coinsSystem fNameHistory).step s e s') ∧
      ∀ s', (coinsSystem fNameHistory).step s e s' →
        snapshotsOf s'.db s'.caches = Snapshot.step fNameHistory (snapshotsOf s.db s.caches) e := by
  have hs := TransitionSystem.Invariant.reachable _ coinsSystem_coherent h
  obtain ⟨s', hstep⟩ := CoinsStep.exists hs hpre
  exact ⟨⟨s', hpre, hstep⟩, fun s'' h'' => (h''.2.spec hs h''.1).2⟩

/-- The database of a node that has just started. -/
def emptyCoinsDB : CCoinsViewDB := ⟨.empty, OrdMap.all_empty _, ⟨.empty, .empty⟩, 0⟩

/-- Two cache levels over the database with history kept: a name set in the lower cache and
overwritten in the upper one, which pushes the old data onto the name's history stack; then the
upper cache is flushed into the lower one. -/
theorem coinsSystem_refines_flushHistory :
    let d₁ : CNameData := ⟨[1], 5, ⟨7, 0⟩, []⟩
    let d₂ : CNameData := ⟨[2], 6, ⟨8, 0⟩, []⟩
    let lower : CCoinsViewCache := ⟨1, .empty, CNameCache.init.set [0] d₁⟩
    let upper : CCoinsViewCache := ⟨2, .empty,
      ({ CNameCache.init with history := OrdMap.empty.insert [0] ⟨[d₁]⟩ } : CNameCache).set [0] d₂⟩
    let s : CoinsStack := ⟨[upper, lower], emptyCoinsDB⟩
    (coinsSystem true).Reachable s ∧ (viewOf s.db s.caches).history [0] = [d₁] ∧
      CoinsEvent.flush.Contract true s ∧
      (∃ s', (coinsSystem true).step s .flush s') ∧
      ∀ s', (coinsSystem true).step s .flush s' →
        snapshotsOf s'.db s'.caches = Snapshot.step true (snapshotsOf s.db s.caches) .flush := by
  intro d₁ d₂ lower upper s
  have h₀ : (coinsSystem true).Reachable ⟨[], emptyCoinsDB⟩ := TransitionSystem.Reachable.init rfl
  have h₁ : (coinsSystem true).Reachable ⟨[.new], emptyCoinsDB⟩ :=
    TransitionSystem.Reachable.step (e := .push) h₀ ⟨trivial, .push⟩
  -- a new name: no history to push and nothing to undo
  have hnew : (viewOf emptyCoinsDB [.new]).names [0] = none := by decide
  have h₂ : (coinsSystem true).Reachable ⟨[⟨0, .empty, CNameCache.init.set [0] d₁⟩], emptyCoinsDB⟩ :=
    TransitionSystem.Reachable.step (e := .setName [0] d₁ false) h₁
      ⟨⟨List.cons_ne_nil _ _, by simp only [hnew]⟩, .setName rfl⟩
  have h₃ : (coinsSystem true).Reachable ⟨[lower], emptyCoinsDB⟩ :=
    TransitionSystem.Reachable.step (e := .setBestBlock 1) h₂ ⟨List.cons_ne_nil _ _, .setBestBlock⟩
  have h₄ : (coinsSystem true).Reachable ⟨[.new, lower], emptyCoinsDB⟩ :=
    TransitionSystem.Reachable.step (e := .push) h₃ ⟨trivial, .push⟩
  -- the name is there, with an empty stack: going forward pushes its data
  have hold : (viewOf emptyCoinsDB [.new, lower]).names [0] = some d₁ := by decide
  have hstack : (viewOf emptyCoinsDB [.new, lower]).history [0] = [] := by decide
  have h₅ : (coinsSystem true).Reachable ⟨[⟨0, .empty, upper.cacheNames⟩, lower], emptyCoinsDB⟩ :=
    TransitionSystem.Reachable.step (e := .setName [0] d₂ false) h₄
      ⟨⟨List.cons_ne_nil _ _, by simp [hold, hstack]⟩, .setName rfl⟩
  have h₆ : (coinsSystem true).Reachable s :=
    TransitionSystem.Reachable.step (e := .setBestBlock 2) h₅ ⟨List.cons_ne_nil _ _, .setBestBlock⟩
  have hpre : CoinsEvent.flush.Contract true s := ⟨upper, [lower], rfl, by decide⟩
  exact ⟨h₆, by decide, hpre, coinsSystem_refines h₆ .flush hpre⟩

/-- On every stack the node builds, a read through the top cache gives what the top snapshot
shows: `GetCoin` its coin, `HaveCoin` whether it has one, `AccessCoin` that coin or else a spent
one, and `SpendCoin` moves out the coin it shows; and the caches the fetch fills, the top one and
those below it, still show the same: every snapshot of the stack is as it was. -/
theorem coinsSystem_reads {fNameHistory : Bool} {s : CoinsStack}
    (h : (coinsSystem fNameHistory).Reachable s) {view : CCoinsViewCache}
    {below : List CCoinsViewCache} (hcaches : s.caches = view :: below) (outpoint : COutPoint) :
    (view.GetCoin below (stackGetCoin s.db below) outpoint).1 =
        (viewOf s.db s.caches).coins outpoint ∧
      (view.HaveCoin below (stackGetCoin s.db below) outpoint).1 =
        ((viewOf s.db s.caches).coins outpoint).isSome ∧
      (match (viewOf s.db s.caches).coins outpoint with
      | some coin => (view.AccessCoin below (stackGetCoin s.db below) outpoint).1 = coin ∧
          (view.SpendCoin below (stackGetCoin s.db below) outpoint).1 = some coin
      | none => (view.AccessCoin below (stackGetCoin s.db below) outpoint).1.IsSpent = true) ∧
      snapshotsOf s.db ((view.GetCoin below (stackGetCoin s.db below) outpoint).2.1 ::
        (view.GetCoin below (stackGetCoin s.db below) outpoint).2.2) = snapshotsOf s.db s.caches := by
  have hs := TransitionSystem.Invariant.reachable _ coinsSystem_coherent h
  rw [hcaches] at hs ⊢
  have hB := unspent_viewOf s.db below
  have hr := readsBelow hs.2.2 outpoint
  -- the fetch of the three reads is the same, and leaves the snapshots as they were
  have hsnap := (hr.fetch hs).2
  have haccess : match view.shows (viewOf s.db below).coins outpoint with
      | some coin => (view.AccessCoin below (stackGetCoin s.db below) outpoint).1 = coin
      | none => (view.AccessCoin below (stackGetCoin s.db below) outpoint).1.IsSpent = true :=
    CCoinsViewCache.AccessCoin_eq hB hr.found view
  refine ⟨CCoinsViewCache.GetCoin_eq hB hr.found view, CCoinsViewCache.HaveCoin_eq hB hr.found view,
    ?_, hsnap⟩
  show match view.shows (viewOf s.db below).coins outpoint with
    | some coin => _ | none => _
  revert haccess
  cases hshow : view.shows (viewOf s.db below).coins outpoint with
  | none => exact id
  | some coin =>
    intro haccess
    exact ⟨haccess, spend_moved outpoint hs hshow⟩

/-- A coin flushed down to the database, read through two cache levels above it: the upper cache
fetches it through the lower one, which fetches it from the database, and both keep it. -/
theorem coinsSystem_reads_twoLevels :
    let o : COutPoint := ⟨1, 0⟩
    let coin : Coin := ⟨⟨5, [0x51]⟩, false, false, 1⟩
    let db₁ : CCoinsViewDB :=
      ⟨OrdMap.empty.insert o coin, (OrdMap.all_empty _).insert rfl, ⟨.empty, .empty⟩, 1⟩
    let flushed : CCoinsViewCache := ⟨1, .empty, .init⟩
    let s : CoinsStack := ⟨[.new, flushed], db₁⟩
    (coinsSystem false).Reachable s ∧ (viewOf s.db s.caches).coins o = some coin ∧
      (CCoinsViewCache.new.GetCoin [flushed] (stackGetCoin s.db [flushed]) o).1 =
          (viewOf s.db s.caches).coins o ∧
        (CCoinsViewCache.new.HaveCoin [flushed] (stackGetCoin s.db [flushed]) o).1 =
          ((viewOf s.db s.caches).coins o).isSome ∧
        (match (viewOf s.db s.caches).coins o with
        | some coin => (CCoinsViewCache.new.AccessCoin [flushed] (stackGetCoin s.db [flushed]) o).1 = coin ∧
            (CCoinsViewCache.new.SpendCoin [flushed] (stackGetCoin s.db [flushed]) o).1 = some coin
        | none => (CCoinsViewCache.new.AccessCoin [flushed] (stackGetCoin s.db [flushed]) o).1.IsSpent =
            true) ∧
        snapshotsOf s.db ((CCoinsViewCache.new.GetCoin [flushed] (stackGetCoin s.db [flushed]) o).2.1 ::
          (CCoinsViewCache.new.GetCoin [flushed] (stackGetCoin s.db [flushed]) o).2.2) =
          snapshotsOf s.db s.caches := by
  intro o coin db₁ flushed s
  have h₀ : (coinsSystem false).Reachable ⟨[], emptyCoinsDB⟩ := TransitionSystem.Reachable.init rfl
  have h₁ : (coinsSystem false).Reachable ⟨[.new], emptyCoinsDB⟩ :=
    TransitionSystem.Reachable.step (e := .push) h₀ ⟨trivial, .push⟩
  have h₂ : (coinsSystem false).Reachable
      ⟨[⟨0, OrdMap.empty.insert o ⟨coin, true, true⟩, .init⟩], emptyCoinsDB⟩ :=
    TransitionSystem.Reachable.step (e := .addCoin o coin false) h₁
      ⟨⟨List.cons_ne_nil _ _, rfl, fun _ => by decide⟩, .addCoin rfl⟩
  have h₃ : (coinsSystem false).Reachable
      ⟨[⟨1, OrdMap.empty.insert o ⟨coin, true, true⟩, .init⟩], emptyCoinsDB⟩ :=
    TransitionSystem.Reachable.step (e := .setBestBlock 1) h₂ ⟨List.cons_ne_nil _ _, .setBestBlock⟩
  -- the flush writes the coin to the database and empties the cache
  have h₄ : (coinsSystem false).Reachable ⟨[flushed], db₁⟩ :=
    TransitionSystem.Reachable.step (e := .flush) h₃ ⟨⟨_, [], rfl, by decide⟩, .flush rfl⟩
  have h₅ : (coinsSystem false).Reachable s :=
    TransitionSystem.Reachable.step (e := .push) h₄ ⟨trivial, .push⟩
  exact ⟨h₅, by decide, coinsSystem_reads h₅ rfl o⟩

end Huntercore
