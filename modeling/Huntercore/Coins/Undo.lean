import Mathlib
import Huntercore.Lib.Control
import Huntercore.Lib.Overlay
import Huntercore.Coins.Tx

/-!
# Connecting and disconnecting a block's transactions

`ConnectBlock` (validation.cpp) runs `UpdateCoins` on each transaction of a block, then
`ApplyGameTransactions` (game/tx.cpp) on each game transaction the step of the game made, and
keeps the coins every transaction but the coinbase spent as the block's undo data.
`DisconnectBlock` takes a block back, from its last transaction to its first: the coins of each
transaction's outputs are spent again, checked against the outputs, and the coins its inputs
spent are put back from the undo data by `ApplyTxInUndo`.

What this is for is the round trip: on every stack of caches the node builds, connecting a
block's transactions and then disconnecting them with the undo data the connect kept is clean,
and the stack shows again exactly what it showed before (`disconnect_connect`).

## Key lemmas

* `unapplyTx_applyTx` — what undoing a transaction does to the coins takes back what applying it
  did, given the coins its inputs spent.
* `spendOutputs_spec`, `restoreInputs_spec`, `disconnectTx_spec` — the loops of
  `DisconnectBlock` are runs of the coins system that change the top snapshot as `unapplyTx`.
* `connectLoop_spec`, `disconnectLoop_spec` — the loops over the block's transactions.
-/

namespace Huntercore

/-- `DisconnectResult`. -/
inductive DisconnectResult
  | DISCONNECT_OK
  | DISCONNECT_UNCLEAN
  | DISCONNECT_FAILED
  deriving DecidableEq, Repr

/-- `CChainParams::BugType`. -/
inductive BugType
  | BUG_FULLY_APPLY
  | BUG_IN_UTXO
  | BUG_FULLY_IGNORE
  deriving DecidableEq, Repr

/-- What the undo code reads of `CChainParams`: the merkle root of the genesis block, and
`IsHistoricBug`, the lookup of a transaction at a height in the table of historic bugs. -/
structure UndoParams where
  genesisMerkleRoot : Nat
  IsHistoricBug : Nat → Int → Option BugType

def MAX_BLOCK_WEIGHT : Nat := 4000000

def WITNESS_SCALE_FACTOR : Nat := 4

/-- `MIN_TRANSACTION_OUTPUT_WEIGHT`: a serialised null `CTxOut` is an eight-byte amount and the
one-byte length of its empty script. -/
def MIN_TRANSACTION_OUTPUT_WEIGHT : Nat := WITNESS_SCALE_FACTOR * 9

def MAX_OUTPUTS_PER_BLOCK : Nat := MAX_BLOCK_WEIGHT / MIN_TRANSACTION_OUTPUT_WEIGHT

/-- `CTxUndo`: the coins a transaction's inputs spent. -/
structure CTxUndo where
  vprevout : List Coin

/-- `CBlockUndo`, without the undo data of the names: the undo data of each transaction but the
coinbase, and the game transactions the block's step made. -/
structure CBlockUndo where
  vtxundo : List CTxUndo
  vgametx : List CTransaction

/-- `IsBountyTx`: a game transaction with as many inputs as outputs, all inputs null. -/
def CTransaction.IsBountyTx (tx : CTransaction) : Bool :=
  tx.IsGameTx && tx.vin.length == tx.vout.length && tx.vin.all fun prevout => prevout.IsNull

/-! ## The source -/

section Source

variable (params : UndoParams) (db : CCoinsViewDB)

/-- The loop of `AccessByTxid` from the index `n`, with `k` indices left below
`MAX_OUTPUTS_PER_BLOCK`: the first unspent coin of the transaction, else the empty coin. -/
def accessByTxidFrom (txid : Nat) :
    Nat → Nat → CCoinsViewCache × List CCoinsViewCache →
      Coin × CCoinsViewCache × List CCoinsViewCache
  | 0, _, (view, below) => (Coin.coinEmpty, view, below)
  | k + 1, n, (view, below) =>
    let r := view.AccessCoin below (stackGetCoin db below) ⟨txid, UInt32.ofNat n⟩
    if !r.1.IsSpent then r else accessByTxidFrom txid k (n + 1) r.2

/-- `AccessByTxid`. -/
def AccessByTxid (view : CCoinsViewCache) (below : List CCoinsViewCache) (txid : Nat) :
    Coin × CCoinsViewCache × List CCoinsViewCache :=
  accessByTxidFrom db txid MAX_OUTPUTS_PER_BLOCK 0 (view, below)

/-- `ApplyTxInUndo`: the coin `undo` put back at `out`. A coin without its height, unless it is
an output of the genesis block, takes the height and the coinbase flag of another unspent output
of its transaction. -/
def ApplyTxInUndo (undo : Coin) (view : CCoinsViewCache) (below : List CCoinsViewCache)
    (out : COutPoint) : Except String (DisconnectResult × CCoinsViewCache × List CCoinsViewCache) :=
  let isGenesis := out.hash == params.genesisMerkleRoot
  let r := view.HaveCoin below (stackGetCoin db below) out
  -- overwriting transaction output
  let fClean := !r.1
  let result : DisconnectResult := if fClean then .DISCONNECT_OK else .DISCONNECT_UNCLEAN
  if undo.nHeight == 0 && !isGenesis then
    let alternate := AccessByTxid db r.2.1 r.2.2 out.hash
    if !alternate.1.IsSpent then do
      let undo' := { undo with nHeight := alternate.1.nHeight, fCoinBase := alternate.1.fCoinBase }
      let view' ← alternate.2.1.AddCoin out undo' (!fClean)
      pure (result, view', alternate.2.2)
    else
      -- adding output for transaction without known metadata
      pure (.DISCONNECT_FAILED, alternate.2.1, alternate.2.2)
  else do
    let view' ← r.2.1.AddCoin out undo (!fClean)
    pure (result, view', r.2.2)

/-- The check of the outputs of `tx` in `DisconnectBlock`, each with its index: the coin of each
spendable output is spent, and the disconnect is unclean where it is missing or is not the coin
the output made, unless the transaction is a historic bug to ignore fully. -/
def spendOutputs (tx : CTransaction) (nHeight : Int) :
    List (CTxOut × Nat) → Bool × CCoinsViewCache × List CCoinsViewCache →
      Bool × CCoinsViewCache × List CCoinsViewCache
  | [], acc => acc
  | (out, o) :: rest, (fClean, view, below) =>
    if !CScript.IsUnspendable out.scriptPubKey then
      let r := view.SpendCoin below (stackGetCoin db below) ⟨tx.hash, UInt32.ofNat o⟩
      let same : Bool := match r.1 with
        | some coin => out == coin.out && nHeight == (coin.nHeight.toNat : Int) && tx.IsCoinBase == coin.fCoinBase
        | none => false
      let ignored := params.IsHistoricBug tx.hash nHeight == some .BUG_FULLY_IGNORE
      spendOutputs tx nHeight rest (fClean && (same || ignored), r.2.1, r.2.2)
    else spendOutputs tx nHeight rest (fClean, view, below)

/-- The restore of the inputs in `DisconnectBlock`, from the last input back, each with the coin
it spent: `DISCONNECT_FAILED` ends it. -/
def restoreInputs :
    List (COutPoint × Coin) → Bool × CCoinsViewCache × List CCoinsViewCache →
      Except String (DisconnectResult × CCoinsViewCache × List CCoinsViewCache)
  | [], (fClean, view, below) =>
    pure (if fClean then .DISCONNECT_OK else .DISCONNECT_UNCLEAN, view, below)
  | (out, undo) :: rest, (fClean, view, below) =>
    if out.IsNull then throw "assertion failed: !out.IsNull()"
    else do
      let r ← ApplyTxInUndo params db undo view below out
      if r.1 == .DISCONNECT_FAILED then pure r
      else restoreInputs rest (fClean && r.1 != .DISCONNECT_UNCLEAN, r.2.1, r.2.2)

/-- The body of the loop of `DisconnectBlock` for the transaction `tx` at position `i`, with
`fClean` so far: its outputs are checked and spent, and unless it is the coinbase or a bounty
transaction, its inputs are restored from `vtxundo[i-1]`. -/
def disconnectTx (vtxundo : List CTxUndo) (nHeight : Int) (i : Nat) (tx : CTransaction)
    (fClean : Bool) (view : CCoinsViewCache) (below : List CCoinsViewCache) :
    Except String (DisconnectResult × CCoinsViewCache × List CCoinsViewCache) :=
  let r := spendOutputs params db tx nHeight tx.vout.zipIdx (fClean, view, below)
  if decide (0 < i) && !tx.IsBountyTx then
    let txundo := (vtxundo[i - 1]?).getD ⟨[]⟩
    if txundo.vprevout.length != tx.vin.length then
      -- transaction and undo data inconsistent
      pure (.DISCONNECT_FAILED, r.2.1, r.2.2)
    else restoreInputs params db (tx.vin.zip txundo.vprevout).reverse r
  else pure (if r.1 then .DISCONNECT_OK else .DISCONNECT_UNCLEAN, r.2.1, r.2.2)

/-- The loop of `DisconnectBlock` over the transactions to undo, from position `i - 1` down to
the first. -/
def disconnectLoop (txToUndo : List CTransaction) (vtxundo : List CTxUndo) (nHeight : Int) :
    Nat → Bool × CCoinsViewCache × List CCoinsViewCache →
      Except String (DisconnectResult × CCoinsViewCache × List CCoinsViewCache)
  | 0, (fClean, view, below) =>
    pure (if fClean then .DISCONNECT_OK else .DISCONNECT_UNCLEAN, view, below)
  | i + 1, (fClean, view, below) =>
    match txToUndo[i]? with
    | none => disconnectLoop txToUndo vtxundo nHeight i (fClean, view, below)
    | some tx => do
      let r ← disconnectTx params db vtxundo nHeight i tx fClean view below
      if r.1 == .DISCONNECT_FAILED then pure r
      else disconnectLoop txToUndo vtxundo nHeight i (r.1 == .DISCONNECT_OK, r.2.1, r.2.2)

/-- The coins part of `DisconnectBlock` for the block's transactions `vtx` and its undo data: the
undo data must fit the transactions, which are then taken back from the last game transaction to
the coinbase. -/
def disconnectTxs (vtx : List CTransaction) (blockUndo : CBlockUndo) (nHeight : Int)
    (view : CCoinsViewCache) (below : List CCoinsViewCache) :
    Except String (DisconnectResult × CCoinsViewCache × List CCoinsViewCache) :=
  if blockUndo.vtxundo.length + 1 != vtx.length + blockUndo.vgametx.length then
    -- block and undo data inconsistent
    pure (.DISCONNECT_FAILED, view, below)
  else
    let txToUndo := vtx ++ blockUndo.vgametx
    disconnectLoop params db txToUndo blockUndo.vtxundo nHeight txToUndo.length (true, view, below)

/-- The loops of `ConnectBlock` over the block's transactions and of `ApplyGameTransactions` over
the game transactions: `UpdateCoins` of each, with its undo data pushed where the flag says, for
every transaction but the coinbase at position 0. -/
def connectLoop (nHeight : Int) :
    List (CTransaction × Bool) → List CTxUndo × CCoinsViewCache × List CCoinsViewCache →
      Except String (List CTxUndo × CCoinsViewCache × List CCoinsViewCache)
  | [], acc => pure acc
  | (tx, keep) :: rest, (vtxundo, view, below) => do
    let r ← UpdateCoins db tx nHeight view below
    connectLoop nHeight rest (if keep then vtxundo ++ [⟨r.1⟩] else vtxundo, r.2.1, r.2.2)

/-- The coins part of `ConnectBlock` for the block's transactions `vtx` and the game transactions
`vGameTx`: the undo data of the transactions and the caches after them. -/
def connectTxs (vtx vGameTx : List CTransaction) (nHeight : Int) (view : CCoinsViewCache)
    (below : List CCoinsViewCache) :
    Except String (List CTxUndo × CCoinsViewCache × List CCoinsViewCache) :=
  connectLoop db nHeight
    ((vtx.zipIdx.map fun e => (e.1, decide (0 < e.2))) ++ vGameTx.map fun tx => (tx, true)) ([], view, below)

end Source

/-! ## What taking a transaction back does to the coins -/

/-- The coins a view shows after the coins of the spendable outputs `l` of `tx` are spent. -/
def spendOuts (tx : CTransaction) (l : List (CTxOut × Nat)) (V : COutPoint → Option Coin) :
    COutPoint → Option Coin :=
  l.foldl (fun V e => if CScript.IsUnspendable e.1.scriptPubKey then V
    else Function.update V ⟨tx.hash, UInt32.ofNat e.2⟩ none) V

/-- The coins a view shows after the coins `l` are put back at their outpoints. -/
def restoreAll (l : List (COutPoint × Coin)) (V : COutPoint → Option Coin) :
    COutPoint → Option Coin :=
  l.foldl (fun V e => Function.update V e.1 (some e.2)) V

/-- What taking a transaction back does to the coins a view shows, with the coins `undo` its
inputs spent: the coins of its outputs are spent, and those of its inputs put back, the last
first. -/
def unapplyTx (tx : CTransaction) (undo : List Coin) (V : COutPoint → Option Coin) :
    COutPoint → Option Coin :=
  restoreAll (tx.spentInputs.zip undo).reverse (spendOuts tx tx.vout.zipIdx V)

/-- What transactions do to the coins, one after the other. -/
def applyTxs (nHeight : Int) (txs : List CTransaction) (V : COutPoint → Option Coin) :
    COutPoint → Option Coin :=
  txs.foldl (fun V tx => applyTx tx nHeight V) V

/-- The undo data a connect keeps of the transactions `l` applied to the coins `V`: for each
transaction with its flag up, the coins its inputs spend. -/
def undoOf (nHeight : Int) :
    List (CTransaction × Bool) → (COutPoint → Option Coin) → List CTxUndo
  | [], _ => []
  | (tx, keep) :: rest, V =>
    (if keep then [⟨tx.spentInputs.filterMap V⟩] else []) ++
      undoOf nHeight rest (applyTx tx nHeight V)

/-- What taking a transaction back after applying it to the coins `V` asks of it beyond the checks
before `UpdateCoins`: its outputs go where the view has no coin, also for a coinbase; a
transaction whose inputs are restored has no null prevout; and every coin it spends has a
spendable script and its height, or is an output of the genesis block, so that `ApplyTxInUndo`
puts it back as it was. -/
structure CTransaction.Undoable (params : UndoParams) (tx : CTransaction)
    (V : COutPoint → Option Coin) : Prop where
  applicable : tx.Applicable V
  fresh : ∀ i < tx.vout.length, V ⟨tx.hash, UInt32.ofNat i⟩ = none
  notNull : tx.IsCoinBase = false → tx.IsBountyTx = false → ∀ prevout ∈ tx.vin,
    prevout.IsNull = false
  restorable : ∀ prevout ∈ tx.spentInputs, ∀ coin, V prevout = some coin →
    CScript.IsUnspendable coin.out.scriptPubKey = false ∧
      (coin.nHeight ≠ 0 ∨ prevout.hash = params.genesisMerkleRoot)

section Points

variable {tx : CTransaction} {V : COutPoint → Option Coin} {o : COutPoint}

theorem spendAll_of_not_mem {l : List COutPoint} (h : ∀ p ∈ l, p.IsNull = false → p ≠ o) :
    spendAll l V o = V o :=
  List.foldl_update_ite_of_forall_ne COutPoint.IsNull id (fun _ => none) l V h

theorem spendAll_of_mem (ho : o.IsNull = false) :
    ∀ {l : List COutPoint} (V : COutPoint → Option Coin), o ∈ l → spendAll l V o = none
  | p :: l, V, hmem => by
    rw [spendAll_cons]
    rcases List.mem_cons.mp hmem with rfl | hmem
    · apply spendAll_eq_none
      rw [if_neg (by simp [ho])]
      exact Function.update_self _ _ _
    · exact spendAll_of_mem ho _ hmem

theorem addAll_of_not_mem (nHeight : Int) {l : List (CTxOut × Nat)}
    (h : ∀ e ∈ l, CScript.IsUnspendable e.1.scriptPubKey = false →
      (⟨tx.hash, UInt32.ofNat e.2⟩ : COutPoint) ≠ o) :
    addAll tx nHeight l V o = V o :=
  List.foldl_update_ite_of_forall_ne
    (fun e : CTxOut × Nat => CScript.IsUnspendable e.1.scriptPubKey)
    (fun e : CTxOut × Nat => (⟨tx.hash, UInt32.ofNat e.2⟩ : COutPoint))
    (fun e : CTxOut × Nat => some (⟨e.1, tx.IsCoinBase, tx.IsGameTx, BitVec.ofInt 30 nHeight⟩ : Coin)) l V h

theorem addAll_of_mem (nHeight : Int) {l : List (CTxOut × Nat)} {e : CTxOut × Nat}
    (hnd : (l.map fun e => (⟨tx.hash, UInt32.ofNat e.2⟩ : COutPoint)).Nodup) (he : e ∈ l)
    (hsp : CScript.IsUnspendable e.1.scriptPubKey = false) :
    addAll tx nHeight l V ⟨tx.hash, UInt32.ofNat e.2⟩ =
      some ⟨e.1, tx.IsCoinBase, tx.IsGameTx, BitVec.ofInt 30 nHeight⟩ :=
  List.foldl_update_ite_of_mem
    (fun e : CTxOut × Nat => CScript.IsUnspendable e.1.scriptPubKey)
    (fun e : CTxOut × Nat => (⟨tx.hash, UInt32.ofNat e.2⟩ : COutPoint))
    (fun e : CTxOut × Nat => some (⟨e.1, tx.IsCoinBase, tx.IsGameTx, BitVec.ofInt 30 nHeight⟩ : Coin)) l V hnd he hsp

theorem spendOuts_cons (e : CTxOut × Nat) (l : List (CTxOut × Nat)) :
    spendOuts tx (e :: l) V = spendOuts tx l (if CScript.IsUnspendable e.1.scriptPubKey then V
      else Function.update V ⟨tx.hash, UInt32.ofNat e.2⟩ none) := rfl

theorem spendOuts_of_not_mem {l : List (CTxOut × Nat)}
    (h : ∀ e ∈ l, CScript.IsUnspendable e.1.scriptPubKey = false →
      (⟨tx.hash, UInt32.ofNat e.2⟩ : COutPoint) ≠ o) :
    spendOuts tx l V o = V o :=
  List.foldl_update_ite_of_forall_ne
    (fun e : CTxOut × Nat => CScript.IsUnspendable e.1.scriptPubKey)
    (fun e : CTxOut × Nat => (⟨tx.hash, UInt32.ofNat e.2⟩ : COutPoint)) (fun _ => none) l V h

theorem spendOuts_of_mem {l : List (CTxOut × Nat)} {e : CTxOut × Nat}
    (hnd : (l.map fun e => (⟨tx.hash, UInt32.ofNat e.2⟩ : COutPoint)).Nodup) (he : e ∈ l)
    (hsp : CScript.IsUnspendable e.1.scriptPubKey = false) :
    spendOuts tx l V ⟨tx.hash, UInt32.ofNat e.2⟩ = none :=
  List.foldl_update_ite_of_mem
    (fun e : CTxOut × Nat => CScript.IsUnspendable e.1.scriptPubKey)
    (fun e : CTxOut × Nat => (⟨tx.hash, UInt32.ofNat e.2⟩ : COutPoint)) (fun _ => none) l V hnd he hsp

theorem mem_spentInputs {prevout : COutPoint} :
    prevout ∈ tx.spentInputs ↔
      tx.IsCoinBase = false ∧ prevout ∈ tx.vin ∧ prevout.IsNull = false := by
  unfold CTransaction.spentInputs
  cases tx.IsCoinBase <;> simp

theorem nodup_spentInputs (happ : tx.Applicable V) : tx.spentInputs.Nodup := by
  unfold CTransaction.spentInputs
  cases hcb : tx.IsCoinBase with
  | true => simp
  | false => simpa using happ.distinct hcb

/-- The coins a transaction spends are in the view it is applied to. -/
theorem spentInputs_ne_none (happ : tx.Applicable V) :
    ∀ prevout ∈ tx.spentInputs, V prevout ≠ none := by
  intro prevout hp
  obtain ⟨hcb, hmem, hnull⟩ := mem_spentInputs.mp hp
  exact happ.inputs hcb prevout hmem hnull

/-- Undo data whose coins are those the view shows at the outpoints `S` pair each outpoint with
its coin. -/
theorem coins_of_undo : ∀ {S : List COutPoint} {undo : List Coin},
    undo.map some = S.map V → ∀ e ∈ S.zip undo, V e.1 = some e.2
  | [], _, _, e, he => by simp at he
  | _ :: _, [], h, _, _ => by simp at h
  | p :: S, c :: undo, h, e, he => by
    simp only [List.map_cons, List.cons.injEq] at h
    rcases List.mem_cons.mp he with rfl | he
    · exact h.1.symm
    · exact coins_of_undo h.2 e he

theorem map_fst_zip_of_undo {S : List COutPoint} {undo : List Coin}
    (h : undo.map some = S.map V) : (S.zip undo).map Prod.fst = S :=
  List.map_fst_zip (by simpa using (congrArg List.length h).ge)

/-- The undo data `UpdateCoins` keeps are the coins the view shows at the inputs, in order. -/
theorem undo_eq_filterMap : ∀ {S : List COutPoint} {undo : List Coin},
    undo.map some = S.map V → undo = S.filterMap V
  | [], [], _ => rfl
  | [], _ :: _, h => by simp at h
  | _ :: _, [], h => by simp at h
  | p :: S, c :: undo, h => by
    simp only [List.map_cons, List.cons.injEq] at h
    rw [List.filterMap_cons, ← h.1, undo_eq_filterMap h.2]

theorem filterMap_map_some : ∀ {S : List COutPoint}, (∀ p ∈ S, V p ≠ none) →
    (S.filterMap V).map some = S.map V
  | [], _ => rfl
  | p :: S, h => by
    obtain ⟨c, hc⟩ := Option.ne_none_iff_exists'.mp (h p List.mem_cons_self)
    rw [List.filterMap_cons, hc, List.map_cons, List.map_cons, hc,
      filterMap_map_some fun q hq => h q (List.mem_cons_of_mem _ hq)]

end Points

/-- Taking a transaction back with the coins its inputs spent undoes applying it: the coins of its
outputs go, where the view had none, and the coins of its inputs come back. -/
theorem unapplyTx_applyTx {params : UndoParams} {tx : CTransaction} {V : COutPoint → Option Coin}
    (hu : tx.Undoable params V) {undo : List Coin} (hundo : undo.map some = tx.spentInputs.map V)
    (nHeight : Int) : unapplyTx tx undo (applyTx tx nHeight V) = V := by
  have hnd := outpoints_nodup tx hu.applicable.indexable
  have hkeys := map_fst_zip_of_undo hundo
  funext o
  by_cases hin : o ∈ tx.spentInputs
  · -- an input: its coin is put back
    have hin' : o ∈ (tx.spentInputs.zip undo).map Prod.fst := by rw [hkeys]; exact hin
    obtain ⟨e, he, rfl⟩ := List.mem_map.mp hin'
    have hnd' : ((tx.spentInputs.zip undo).reverse.map Prod.fst).Nodup := by
      rw [List.map_reverse, hkeys]
      exact List.nodup_reverse.mpr (nodup_spentInputs hu.applicable)
    rw [unapplyTx, restoreAll, List.foldl_update_of_mem Prod.fst (fun e => some e.2) _ _ hnd'
      (List.mem_reverse.mpr he)]
    exact (coins_of_undo hundo e he).symm
  · have hoff : ∀ e ∈ (tx.spentInputs.zip undo).reverse, e.1 ≠ o := by
      intro e he heq
      apply hin
      rw [← heq, ← hkeys]
      exact List.mem_map_of_mem (List.mem_reverse.mp he)
    rw [unapplyTx, restoreAll, List.foldl_update_of_forall_ne Prod.fst (fun e => some e.2) _ _ hoff]
    by_cases hout : ∃ e ∈ tx.vout.zipIdx, CScript.IsUnspendable e.1.scriptPubKey = false ∧
        (⟨tx.hash, UInt32.ofNat e.2⟩ : COutPoint) = o
    · -- a spendable output: its coin is spent again, and the view had none there
      obtain ⟨e, he, hsp, rfl⟩ := hout
      rw [spendOuts_of_mem hnd he hsp]
      exact (hu.fresh e.2 (by have := (List.mem_zipIdx he).2.1; omega)).symm
    · -- neither: the transaction leaves it alone
      simp only [not_exists, not_and] at hout
      rw [spendOuts_of_not_mem hout, applyTx, addAll_of_not_mem nHeight hout]
      cases hcb : tx.IsCoinBase with
      | true => rfl
      | false =>
        simp only [Bool.false_eq_true, if_false]
        exact spendAll_of_not_mem fun p hp hnull heq =>
          hin (mem_spentInputs.mpr ⟨hcb, heq ▸ hp, heq ▸ hnull⟩)

theorem Unspent.update {V : COutPoint → Option Coin} (hV : Unspent V) (o : COutPoint)
    {c : Option Coin} (hc : ∀ coin, c = some coin → coin.IsSpent = false) :
    Unspent (Function.update V o c) := by
  intro o' coin h
  by_cases ho : o' = o
  · subst ho
    rw [Function.update_self] at h
    exact hc coin h
  · rw [Function.update_of_ne ho] at h
    exact hV o' coin h

/-- A transaction with no negative output amount keeps a view free of spent coins. -/
theorem unspent_applyTx {tx : CTransaction} {V : COutPoint → Option Coin} (hV : Unspent V)
    (hvalue : ∀ out ∈ tx.vout, 0 ≤ out.nValue) (nHeight : Int) :
    Unspent (applyTx tx nHeight V) := by
  have hspent : Unspent (if tx.IsCoinBase then V else spendAll tx.vin V) := by
    split
    · exact hV
    · refine List.foldl_invariant Unspent _ tx.vin (fun V' p _ hV' => ?_) V hV
      split
      · exact hV'
      · exact hV'.update p fun _ h => by cases h
  refine List.foldl_invariant Unspent _ tx.vout.zipIdx (fun V' e he hV' => ?_) _ hspent
  split
  · exact hV'
  · refine hV'.update _ fun coin h => ?_
    cases h
    exact Coin.IsSpent_eq_false_of_nonneg
      (hvalue e.1 (List.mem_of_getElem? (List.mem_zipIdx_iff_getElem?.mp he)))

theorem unspent_applyTxs {V : COutPoint → Option Coin} (nHeight : Int) (txs : List CTransaction)
    (hvalue : ∀ tx ∈ txs, ∀ out ∈ tx.vout, 0 ≤ out.nValue) (hV : Unspent V) :
    Unspent (applyTxs nHeight txs V) :=
  List.foldl_invariant Unspent _ txs (fun _ tx htx hV' => unspent_applyTx hV' (hvalue tx htx) _)
    V hV

theorem applyTxs_take_succ (nHeight : Int) (txs : List CTransaction) (V : COutPoint → Option Coin)
    {k : Nat} (hk : k < txs.length) :
    applyTxs nHeight (txs.take (k + 1)) V = applyTx txs[k] nHeight (applyTxs nHeight (txs.take k) V) := by
  rw [List.take_add_one, List.getElem?_eq_getElem hk, applyTxs, Option.toList_some,
    List.foldl_append]
  rfl

/-! ## Taking a transaction back is a run of the coins system -/

section Run

variable {fNameHistory : Bool} (params : UndoParams) {db : CCoinsViewDB}

/-- `HaveCoin` through the top cache answers whether the top snapshot has a coin, and is a fetch
of the coins system, which leaves the snapshots as they were. -/
theorem haveCoin_step {view : CCoinsViewCache} {below : List CCoinsViewCache}
    (h : (coinsSystem fNameHistory).Reachable ⟨view :: below, db⟩) (outpoint : COutPoint) :
    (view.HaveCoin below (stackGetCoin db below) outpoint).1 =
        ((viewOf db (view :: below)).coins outpoint).isSome ∧
      (coinsSystem fNameHistory).Reachable
        ⟨(view.HaveCoin below (stackGetCoin db below) outpoint).2.1 ::
          (view.HaveCoin below (stackGetCoin db below) outpoint).2.2, db⟩ ∧
      snapshotsOf db ((view.HaveCoin below (stackGetCoin db below) outpoint).2.1 ::
          (view.HaveCoin below (stackGetCoin db below) outpoint).2.2) =
        snapshotsOf db (view :: below) := by
  have hs := TransitionSystem.Invariant.reachable _ coinsSystem_coherent h
  have hr := readsBelow hs.2.2 outpoint
  refine ⟨CCoinsViewCache.HaveCoin_eq (unspent_viewOf db below) hr.found view, ?_, (hr.fetch hs).2⟩
  exact TransitionSystem.Reachable.step (e := .fetch outpoint) h ⟨List.cons_ne_nil _ _, .fetch⟩

/-- The check of the outputs, on a stack whose top snapshot holds the coins the outputs made:
every spend is a step of the system, every coin is the one its output made, and the top snapshot
loses them. -/
theorem spendOutputs_spec (tx : CTransaction) {nHeight : Int} (h0 : 0 ≤ nHeight)
    (h30 : nHeight < 2 ^ 30) : ∀ (l : List (CTxOut × Nat))
    (fClean : Bool) (view : CCoinsViewCache) (below : List CCoinsViewCache) (v : Snapshot)
    (vs : List Snapshot),
    (coinsSystem fNameHistory).Reachable ⟨view :: below, db⟩ →
    snapshotsOf db (view :: below) = v :: vs →
    (l.map fun e => (⟨tx.hash, UInt32.ofNat e.2⟩ : COutPoint)).Nodup →
    (∀ e ∈ l, CScript.IsUnspendable e.1.scriptPubKey = false →
      v.coins ⟨tx.hash, UInt32.ofNat e.2⟩ = some ⟨e.1, tx.IsCoinBase, tx.IsGameTx, BitVec.ofInt 30 nHeight⟩) →
    ∃ view' below', spendOutputs params db tx nHeight l (fClean, view, below) =
        (fClean, view', below') ∧
      (coinsSystem fNameHistory).Reachable ⟨view' :: below', db⟩ ∧
      snapshotsOf db (view' :: below') = { v with coins := spendOuts tx l v.coins } :: vs
  | [], _, view, below, _, _, h, hsnap, _, _ => ⟨view, below, rfl, h, hsnap⟩
  | (out, o) :: rest, fClean, view, below, v, vs, h, hsnap, hnodup, hcoins => by
    obtain ⟨hfresh, hnodup'⟩ := List.nodup_cons.mp hnodup
    have hcoins' : ∀ e ∈ rest, CScript.IsUnspendable e.1.scriptPubKey = false →
        v.coins ⟨tx.hash, UInt32.ofNat e.2⟩ = some ⟨e.1, tx.IsCoinBase, tx.IsGameTx, BitVec.ofInt 30 nHeight⟩ :=
      fun e he => hcoins e (List.mem_cons_of_mem _ he)
    rw [spendOuts_cons]
    cases hsp : CScript.IsUnspendable out.scriptPubKey with
    | true =>
      -- an unspendable output made no coin
      simp only [spendOutputs, hsp, Bool.not_true, Bool.false_eq_true, if_false, if_true]
      exact spendOutputs_spec tx h0 h30 rest fClean view below v vs h hsnap hnodup' hcoins'
    | false =>
      -- the coin the output made is moved out, and found to be the one it made
      let outpoint : COutPoint := ⟨tx.hash, UInt32.ofNat o⟩
      have hs := TransitionSystem.Invariant.reachable _ coinsSystem_coherent h
      have hshow : (viewOf db (view :: below)).coins outpoint =
          some ⟨out, tx.IsCoinBase, tx.IsGameTx, BitVec.ofInt 30 nHeight⟩ := by
        rw [viewOf_of_snapshotsOf hsnap]
        exact hcoins (out, o) List.mem_cons_self hsp
      have hmoved := spend_moved outpoint hs hshow
      have hsnap₁ := (spend_spec outpoint hs).2
      have hr₁ : (coinsSystem fNameHistory).Reachable
          ⟨(view.SpendCoin below (stackGetCoin db below) outpoint).2.1 ::
            (view.SpendCoin below (stackGetCoin db below) outpoint).2.2, db⟩ :=
        TransitionSystem.Reachable.step (e := .spendCoin outpoint) h
          ⟨List.cons_ne_nil _ _, .spendCoin⟩
      rw [hsnap] at hsnap₁
      simp only [spendOutputs, hsp, Bool.not_false, if_true, Bool.false_eq_true, if_false]
      generalize view.SpendCoin below (stackGetCoin db below) outpoint = r at hmoved hsnap₁ hr₁ ⊢
      obtain ⟨moved, view₁, below₁⟩ := r
      cases hmoved
      -- the later outputs go to other outpoints, whose coins the spend leaves
      have hcoins₁ : ∀ e ∈ rest, CScript.IsUnspendable e.1.scriptPubKey = false →
          Function.update v.coins outpoint none ⟨tx.hash, UInt32.ofNat e.2⟩ =
            some ⟨e.1, tx.IsCoinBase, tx.IsGameTx, BitVec.ofInt 30 nHeight⟩ := by
        intro e he hsp'
        have hne : (⟨tx.hash, UInt32.ofNat e.2⟩ : COutPoint) ≠ outpoint :=
          fun heq => hfresh (List.mem_map.mpr ⟨e, he, heq⟩)
        rw [Function.update_of_ne hne]
        exact hcoins' e he hsp'
      obtain ⟨view', below', hrun, hr, hsnap'⟩ := spendOutputs_spec tx h0 h30 rest fClean view₁
        below₁ { v with coins := Function.update v.coins outpoint none } vs hr₁ hsnap₁ hnodup'
        hcoins₁
      -- the coin found has the height of the block: it fits the thirty bits
      have hsame : (nHeight == ((BitVec.ofInt 30 nHeight).toNat : Int)) = true := by
        rw [Coin.toNat_ofInt_height h0 h30]
        exact beq_self_eq_true nHeight
      refine ⟨view', below', ?_, hr, hsnap'⟩
      simpa only [beq_self_eq_true, hsame, Bool.and_self, Bool.true_or, Bool.and_true] using hrun

/-- `ApplyTxInUndo` of a spendable coin with its height, at an outpoint where the top snapshot has
no coin: a fetch and an addition of the coins system, and the coin is back. -/
theorem applyTxInUndo_spec {view : CCoinsViewCache} {below : List CCoinsViewCache} {v : Snapshot}
    {vs : List Snapshot} (h : (coinsSystem fNameHistory).Reachable ⟨view :: below, db⟩)
    (hsnap : snapshotsOf db (view :: below) = v :: vs) {undo : Coin} {out : COutPoint}
    (hnone : v.coins out = none) (hunspent : undo.IsSpent = false)
    (hspendable : CScript.IsUnspendable undo.out.scriptPubKey = false)
    (hheight : undo.nHeight ≠ 0 ∨ out.hash = params.genesisMerkleRoot) :
    ∃ view' below', ApplyTxInUndo params db undo view below out =
        .ok (.DISCONNECT_OK, view', below') ∧
      (coinsSystem fNameHistory).Reachable ⟨view' :: below', db⟩ ∧
      snapshotsOf db (view' :: below') =
        { v with coins := Function.update v.coins out (some undo) } :: vs := by
  obtain ⟨hhave, hr₁, hsnap₁⟩ := haveCoin_step h out
  rw [viewOf_of_snapshotsOf hsnap, hnone] at hhave
  rw [hsnap] at hsnap₁
  -- the coin has its height, so no other output of its transaction is looked for
  have hgen : (undo.nHeight == 0 && !(out.hash == params.genesisMerkleRoot)) = false := by
    rcases hheight with hh | hh
    · rw [beq_false_of_ne hh, Bool.false_and]
    · simp [hh]
  simp only [ApplyTxInUndo, hgen, Bool.false_eq_true, if_false]
  generalize view.HaveCoin below (stackGetCoin db below) out = r at hhave hr₁ hsnap₁ ⊢
  obtain ⟨have₁, view₁, below₁⟩ := r
  simp only [Option.isSome_none] at hhave
  subst hhave
  have hs₁ := TransitionSystem.Invariant.reachable _ coinsSystem_coherent hr₁
  have hnew : false = false → (viewOf db (view₁ :: below₁)).coins out = none := fun _ => by
    rw [viewOf_of_snapshotsOf hsnap₁]
    exact hnone
  obtain ⟨view', hadd, -, hsnap'⟩ := add_spec hs₁ hunspent hnew
  have hr' : (coinsSystem fNameHistory).Reachable ⟨view' :: below₁, db⟩ :=
    TransitionSystem.Reachable.step (e := .addCoin out undo false) hr₁
      ⟨⟨List.cons_ne_nil _ _, hunspent, hnew⟩, .addCoin hadd⟩
  rw [hsnap₁] at hsnap'
  simp only [Snapshot.step, hspendable, Bool.false_eq_true, if_false] at hsnap'
  refine ⟨view', below₁, ?_, hr', hsnap'⟩
  simp only [Bool.not_false, Bool.not_true, hadd, Except.ok_bind, if_true]
  rfl

/-- The restore of the inputs, each an outpoint with no coin in the top snapshot and a spendable
coin with its height: every coin is put back by steps of the system, and nothing is unclean. -/
theorem restoreInputs_spec : ∀ (l : List (COutPoint × Coin)) (fClean : Bool)
    (view : CCoinsViewCache) (below : List CCoinsViewCache) (v : Snapshot) (vs : List Snapshot),
    (coinsSystem fNameHistory).Reachable ⟨view :: below, db⟩ →
    snapshotsOf db (view :: below) = v :: vs →
    (l.map Prod.fst).Nodup →
    (∀ e ∈ l, e.1.IsNull = false ∧ v.coins e.1 = none ∧ e.2.IsSpent = false ∧
      CScript.IsUnspendable e.2.out.scriptPubKey = false ∧
      (e.2.nHeight ≠ 0 ∨ e.1.hash = params.genesisMerkleRoot)) →
    ∃ view' below', restoreInputs params db l (fClean, view, below) =
        .ok (if fClean then .DISCONNECT_OK else .DISCONNECT_UNCLEAN, view', below') ∧
      (coinsSystem fNameHistory).Reachable ⟨view' :: below', db⟩ ∧
      snapshotsOf db (view' :: below') = { v with coins := restoreAll l v.coins } :: vs
  | [], _, view, below, _, _, h, hsnap, _, _ => ⟨view, below, rfl, h, hsnap⟩
  | (out, undo) :: rest, fClean, view, below, v, vs, h, hsnap, hnodup, hok => by
    obtain ⟨hnull, hnone, hunspent, hspendable, hheight⟩ := hok (out, undo) List.mem_cons_self
    obtain ⟨hfresh, hnodup'⟩ := List.nodup_cons.mp hnodup
    obtain ⟨view₁, below₁, hrun₁, hr₁, hsnap₁⟩ :=
      applyTxInUndo_spec params h hsnap hnone hunspent hspendable hheight
    -- the later inputs are other outpoints, where the restored coin changes nothing
    have hok' : ∀ e ∈ rest, e.1.IsNull = false ∧
        Function.update v.coins out (some undo) e.1 = none ∧ e.2.IsSpent = false ∧
        CScript.IsUnspendable e.2.out.scriptPubKey = false ∧
        (e.2.nHeight ≠ 0 ∨ e.1.hash = params.genesisMerkleRoot) := by
      intro e he
      obtain ⟨h₁, h₂, h₃, h₄, h₅⟩ := hok e (List.mem_cons_of_mem _ he)
      have hne : e.1 ≠ out := fun heq => hfresh (List.mem_map.mpr ⟨e, he, heq⟩)
      exact ⟨h₁, by rw [Function.update_of_ne hne]; exact h₂, h₃, h₄, h₅⟩
    obtain ⟨view', below', hrun, hr, hsnap'⟩ :=
      restoreInputs_spec rest fClean view₁ below₁ _ vs hr₁ hsnap₁ hnodup' hok'
    refine ⟨view', below', ?_, hr, hsnap'⟩
    have hclean : (DisconnectResult.DISCONNECT_OK != .DISCONNECT_UNCLEAN) = true := rfl
    have hfailed : (DisconnectResult.DISCONNECT_OK == .DISCONNECT_FAILED) = false := rfl
    simp only [restoreInputs, hnull, Bool.false_eq_true, if_false, hrun₁, Except.ok_bind, hclean,
      hfailed, Bool.and_true]
    exact hrun

/-- A transaction that restores its inputs spends all of them. -/
theorem spentInputs_eq_vin {tx : CTransaction} (hcb : tx.IsCoinBase = false)
    (hall : ∀ prevout ∈ tx.vin, prevout.IsNull = false) : tx.spentInputs = tx.vin := by
  simp only [CTransaction.spentInputs, hcb, Bool.false_eq_true, if_false]
  exact List.filter_eq_self.mpr fun p hp => by simp [hall p hp]

/-- A bounty transaction spends nothing. -/
theorem spentInputs_of_bounty {tx : CTransaction} (hbounty : tx.IsBountyTx = true) :
    tx.spentInputs = [] := by
  have hall : ∀ prevout ∈ tx.vin, prevout.IsNull = true := by
    simp only [CTransaction.IsBountyTx, Bool.and_eq_true, List.all_eq_true] at hbounty
    exact hbounty.2
  unfold CTransaction.spentInputs
  split
  · rfl
  · exact List.filter_eq_nil_iff.mpr fun p hp => by simp [hall p hp]

/-- Taking back the transaction at position `i` from a stack whose top snapshot shows it applied
to the coins `V`, with the coins its inputs spent as undo data: steps of the system, clean, and
the top snapshot shows `V` again. -/
theorem disconnectTx_spec {vtxundo : List CTxUndo} {nHeight : Int} (h0 : 0 ≤ nHeight)
    (h30 : nHeight < 2 ^ 30) {i : Nat} {tx : CTransaction} (fClean : Bool) {view : CCoinsViewCache} {below : List CCoinsViewCache} {v : Snapshot}
    {vs : List Snapshot} {V : COutPoint → Option Coin}
    (h : (coinsSystem fNameHistory).Reachable ⟨view :: below, db⟩)
    (hsnap : snapshotsOf db (view :: below) = v :: vs) (hv : v.coins = applyTx tx nHeight V)
    (hV : Unspent V) (hu : tx.Undoable params V) (hcb : tx.IsCoinBase = true ↔ i = 0)
    (hundo : 0 < i → ((vtxundo[i - 1]?).getD ⟨[]⟩).vprevout.map some = tx.spentInputs.map V) :
    ∃ view' below', disconnectTx params db vtxundo nHeight i tx fClean view below =
        .ok (if fClean then .DISCONNECT_OK else .DISCONNECT_UNCLEAN, view', below') ∧
      (coinsSystem fNameHistory).Reachable ⟨view' :: below', db⟩ ∧
      snapshotsOf db (view' :: below') = { v with coins := V } :: vs := by
  have hnd := outpoints_nodup tx hu.applicable.indexable
  -- the outputs hold the coins the transaction made
  have hcoins : ∀ e ∈ tx.vout.zipIdx, CScript.IsUnspendable e.1.scriptPubKey = false →
      v.coins ⟨tx.hash, UInt32.ofNat e.2⟩ = some ⟨e.1, tx.IsCoinBase, tx.IsGameTx, BitVec.ofInt 30 nHeight⟩ := by
    intro e he hsp
    rw [hv, applyTx]
    exact addAll_of_mem nHeight hnd he hsp
  obtain ⟨view₁, below₁, hrun₁, hr₁, hsnap₁⟩ :=
    spendOutputs_spec params tx h0 h30 tx.vout.zipIdx fClean view below v vs h hsnap hnd hcoins
  simp only [disconnectTx, hrun₁]
  by_cases hrestore : (decide (0 < i) && !tx.IsBountyTx) = true
  · -- the inputs are put back from the undo data
    obtain ⟨hi, hbounty⟩ : 0 < i ∧ tx.IsBountyTx = false := by simpa using hrestore
    have hncb : tx.IsCoinBase = false := by
      cases hc : tx.IsCoinBase with
      | false => rfl
      | true => exact absurd (hcb.mp hc) (Nat.pos_iff_ne_zero.mp hi)
    have hS := spentInputs_eq_vin hncb (hu.notNull hncb hbounty)
    have hundo' := hundo hi
    generalize ((vtxundo[i - 1]?).getD ⟨[]⟩).vprevout = undo at hundo' ⊢
    have hlen : undo.length = tx.vin.length := by
      simpa [hS] using congrArg List.length hundo'
    have hpairs := coins_of_undo hundo'
    have hkeys := map_fst_zip_of_undo hundo'
    rw [hS] at hpairs hkeys
    -- each input is a spent outpoint, not one of the outputs
    have hok : ∀ e ∈ (tx.vin.zip undo).reverse, e.1.IsNull = false ∧
        (spendOuts tx tx.vout.zipIdx v.coins) e.1 = none ∧ e.2.IsSpent = false ∧
        CScript.IsUnspendable e.2.out.scriptPubKey = false ∧
        (e.2.nHeight ≠ 0 ∨ e.1.hash = params.genesisMerkleRoot) := by
      intro e he
      have he' := List.mem_reverse.mp he
      have hmem : e.1 ∈ tx.vin := hkeys ▸ List.mem_map_of_mem he'
      have hnull := hu.notNull hncb hbounty e.1 hmem
      have hcoin := hpairs e he'
      have hnotout : ∀ e' ∈ tx.vout.zipIdx, CScript.IsUnspendable e'.1.scriptPubKey = false →
          (⟨tx.hash, UInt32.ofNat e'.2⟩ : COutPoint) ≠ e.1 := by
        intro e' he'' _ heq
        have := hu.fresh e'.2 (by have := (List.mem_zipIdx he'').2.1; omega)
        rw [heq, hcoin] at this
        cases this
      obtain ⟨hspendable, hheight⟩ :=
        hu.restorable e.1 (hS ▸ hmem) e.2 hcoin
      refine ⟨hnull, ?_, hV e.1 e.2 hcoin, hspendable, hheight⟩
      rw [spendOuts_of_not_mem hnotout, hv, applyTx, addAll_of_not_mem nHeight hnotout, hncb]
      exact spendAll_of_mem hnull V hmem
    have hnodup : ((tx.vin.zip undo).reverse.map Prod.fst).Nodup := by
      rw [List.map_reverse, hkeys]
      exact List.nodup_reverse.mpr (hS ▸ nodup_spentInputs hu.applicable)
    obtain ⟨view', below', hrun, hr, hsnap'⟩ :=
      restoreInputs_spec params (tx.vin.zip undo).reverse fClean view₁ below₁ _ vs hr₁ hsnap₁
        hnodup hok
    have hround := unapplyTx_applyTx hu hundo' nHeight
    rw [unapplyTx, hS, ← hv] at hround
    refine ⟨view', below', ?_, hr, ?_⟩
    · simp only [hrestore, if_true, hlen, bne_self_eq_false, Bool.false_eq_true, if_false]
      exact hrun
    · rw [hsnap']
      simp only [hround]
  · -- nothing to put back: the coinbase, or a bounty transaction
    have hS : tx.spentInputs = [] := by
      cases hc : tx.IsCoinBase with
      | true => simp [CTransaction.spentInputs, hc]
      | false =>
        have hi : 0 < i := Nat.pos_of_ne_zero fun h0 => by simp [hcb.mpr h0] at hc
        exact spentInputs_of_bounty (by simpa [hi] using hrestore)
    have hnil : ([] : List Coin).map some = tx.spentInputs.map V := by simp [hS]
    have hround := unapplyTx_applyTx hu hnil nHeight
    rw [unapplyTx, hS, ← hv] at hround
    refine ⟨view₁, below₁, by rw [if_neg hrestore]; rfl, hr₁, ?_⟩
    rw [hsnap₁]
    simpa [restoreAll] using hround

/-- The loop of `DisconnectBlock` from position `k`, on a stack whose top snapshot shows the
first `k` transactions applied to the coins `V`, each undoable where it was applied and with the
coins its inputs spent in the undo data: steps of the system, clean, and the top snapshot shows
`V` again. -/
theorem disconnectLoop_spec (txs : List CTransaction) (vtxundo : List CTxUndo) {nHeight : Int}
    (h0 : 0 ≤ nHeight) (h30 : nHeight < 2 ^ 30) {V : COutPoint → Option Coin} (hV : Unspent V)
    (hcb : ∀ k (hk : k < txs.length), txs[k].IsCoinBase = true ↔ k = 0)
    (hu : ∀ k (hk : k < txs.length), txs[k].Undoable params (applyTxs nHeight (txs.take k) V))
    (hundo : ∀ k (hk : k < txs.length), 0 < k →
      ((vtxundo[k - 1]?).getD ⟨[]⟩).vprevout.map some =
        txs[k].spentInputs.map (applyTxs nHeight (txs.take k) V)) :
    ∀ k ≤ txs.length, ∀ (fClean : Bool) (view : CCoinsViewCache) (below : List CCoinsViewCache)
      (v : Snapshot) (vs : List Snapshot),
      (coinsSystem fNameHistory).Reachable ⟨view :: below, db⟩ →
      snapshotsOf db (view :: below) = v :: vs → v.coins = applyTxs nHeight (txs.take k) V →
      ∃ view' below', disconnectLoop params db txs vtxundo nHeight k (fClean, view, below) =
          .ok (if fClean then .DISCONNECT_OK else .DISCONNECT_UNCLEAN, view', below') ∧
        (coinsSystem fNameHistory).Reachable ⟨view' :: below', db⟩ ∧
        snapshotsOf db (view' :: below') = { v with coins := V } :: vs
  | 0, _, _, view, below, v, vs, h, hsnap, hv => by
    -- nothing left to take back: the top snapshot shows `V`
    have hV₀ : V = v.coins := hv.symm
    exact ⟨view, below, rfl, h, by rw [hsnap, hV₀]⟩
  | k + 1, hk, fClean, view, below, v, vs, h, hsnap, hv => by
    have hk' : k < txs.length := hk
    -- the views the transactions before position `k` leave are free of spent coins
    have hvalue : ∀ tx ∈ txs.take k, ∀ out ∈ tx.vout, 0 ≤ out.nValue := by
      intro tx htx
      obtain ⟨j, hj, rfl⟩ := List.getElem_of_mem (List.mem_of_mem_take htx)
      exact (hu j hj).applicable.value
    have hVk := unspent_applyTxs nHeight (txs.take k) hvalue hV
    obtain ⟨view₁, below₁, hrun₁, hr₁, hsnap₁⟩ := disconnectTx_spec params h0 h30 fClean h hsnap
      (hv.trans (applyTxs_take_succ nHeight txs V hk')) hVk (hu k hk') (hcb k hk') (hundo k hk')
    obtain ⟨view', below', hrun, hr, hsnap'⟩ := disconnectLoop_spec txs vtxundo h0 h30 hV hcb hu
      hundo k (Nat.le_of_lt hk') fClean view₁ below₁ _ vs hr₁ hsnap₁ rfl
    refine ⟨view', below', ?_, hr, hsnap'⟩
    simp only [disconnectLoop, List.getElem?_eq_getElem hk', hrun₁, Except.ok_bind]
    cases fClean <;> exact hrun

/-- The loops of `ConnectBlock` over transactions the checks before `UpdateCoins` let through,
each on the view the ones before it leave: steps of the system that apply the transactions to
the top snapshot, keeping the undo data `undoOf` says. -/
theorem connectLoop_spec (nHeight : Int) : ∀ (l : List (CTransaction × Bool))
    (vtxundo : List CTxUndo) (view : CCoinsViewCache) (below : List CCoinsViewCache) (v : Snapshot)
    (vs : List Snapshot),
    (coinsSystem fNameHistory).Reachable ⟨view :: below, db⟩ →
    snapshotsOf db (view :: below) = v :: vs →
    (∀ k (hk : k < l.length),
      l[k].1.Applicable (applyTxs nHeight ((l.map Prod.fst).take k) v.coins)) →
    ∃ view' below', connectLoop db nHeight l (vtxundo, view, below) =
        .ok (vtxundo ++ undoOf nHeight l v.coins, view', below') ∧
      (coinsSystem fNameHistory).Reachable ⟨view' :: below', db⟩ ∧
      snapshotsOf db (view' :: below') =
        { v with coins := applyTxs nHeight (l.map Prod.fst) v.coins } :: vs
  | [], vtxundo, view, below, _, _, h, hsnap, _ =>
    ⟨view, below, by simp [connectLoop, undoOf]; rfl, h, hsnap⟩
  | (tx, keep) :: rest, vtxundo, view, below, v, vs, h, hsnap, happ => by
    obtain ⟨undo, view₁, below₁, hrun₁, hundo, hr₁, hsnap₁⟩ :=
      updateCoins_run h hsnap tx nHeight (happ 0 (by simp))
    obtain ⟨view', below', hrun, hr, hsnap'⟩ := connectLoop_spec nHeight rest
      (if keep then vtxundo ++ [⟨undo⟩] else vtxundo) view₁ below₁ _ vs hr₁ hsnap₁
      fun k hk => happ (k + 1) (by simp [hk])
    have hundo' := undo_eq_filterMap hundo
    subst hundo'
    refine ⟨view', below', ?_, hr, hsnap'⟩
    simp only [connectLoop, hrun₁, Except.ok_bind]
    cases keep <;> simpa [undoOf] using hrun

end Run

/-! ## A block -/

theorem map_zipIdx_succ : ∀ (l : List CTransaction) (k : Nat),
    (l.zipIdx (k + 1)).map (fun e => (e.1, decide (0 < e.2))) = l.map fun tx => (tx, true)
  | [], _ => rfl
  | x :: l, k => by
    rw [List.zipIdx_cons, List.map_cons, map_zipIdx_succ l (k + 1)]
    simp

theorem length_undoOf_true (nHeight : Int) :
    ∀ (xs : List CTransaction) (V : COutPoint → Option Coin),
      (undoOf nHeight (xs.map fun tx => (tx, true)) V).length = xs.length
  | [], _ => rfl
  | x :: xs, V => by
    simp [undoOf, length_undoOf_true nHeight xs]

/-- The undo data a connect keeps of transactions it keeps all of: the `j`-th is the coins the
`j`-th transaction spends from the view the ones before it leave. -/
theorem getElem?_undoOf_true (nHeight : Int) :
    ∀ (xs : List CTransaction) (V : COutPoint → Option Coin) (j : Nat),
      (undoOf nHeight (xs.map fun tx => (tx, true)) V)[j]? =
        xs[j]?.map fun tx => ⟨tx.spentInputs.filterMap (applyTxs nHeight (xs.take j) V)⟩
  | [], _, _ => rfl
  | x :: xs, V, 0 => by simp [undoOf, applyTxs]
  | x :: xs, V, j + 1 => by
    simp only [List.map_cons, undoOf, if_true, List.singleton_append, List.getElem?_cons_succ,
      List.take_succ_cons]
    exact getElem?_undoOf_true nHeight xs _ j

/-- On every stack of caches the node builds, the coins part of `ConnectBlock` on a block whose
first transaction is its only coinbase, each transaction undoable on the view the ones before it
leave, applies the block's and the game's transactions as `applyTxs` says. At a height that the
coins' thirty-bit field holds, so that each coin the block made carries the block's height, the
coins part of
`DisconnectBlock` with the undo data the connect kept then succeeds, clean, through steps of the
coins system, and leaves the stack showing exactly what it showed before the block. -/
theorem disconnect_connect {fNameHistory : Bool} {s : CoinsStack}
    (h : (coinsSystem fNameHistory).Reachable s) {view : CCoinsViewCache}
    {below : List CCoinsViewCache} (hcaches : s.caches = view :: below) (params : UndoParams)
    (nHeight : Int) (h0 : 0 ≤ nHeight) (h30 : nHeight < 2 ^ 30) (coinbase : CTransaction)
    (vtx vGameTx : List CTransaction)
    (hcb : coinbase.IsCoinBase = true) (hrest : ∀ tx ∈ vtx ++ vGameTx, tx.IsCoinBase = false)
    (hu : ∀ k (hk : k < (coinbase :: (vtx ++ vGameTx)).length),
      (coinbase :: (vtx ++ vGameTx))[k].Undoable params
        (applyTxs nHeight ((coinbase :: (vtx ++ vGameTx)).take k) (viewOf s.db s.caches).coins)) :
    ∃ vtxundo view₁ below₁,
      connectTxs s.db (coinbase :: vtx) vGameTx nHeight view below =
        .ok (vtxundo, view₁, below₁) ∧
      (coinsSystem fNameHistory).Reachable ⟨view₁ :: below₁, s.db⟩ ∧
      snapshotsOf s.db (view₁ :: below₁) =
        { viewOf s.db s.caches with
          coins := applyTxs nHeight (coinbase :: (vtx ++ vGameTx)) (viewOf s.db s.caches).coins } ::
          snapshotsOf s.db below ∧
      ∃ view₂ below₂, disconnectTxs params s.db (coinbase :: vtx) ⟨vtxundo, vGameTx⟩ nHeight
          view₁ below₁ = .ok (.DISCONNECT_OK, view₂, below₂) ∧
        (coinsSystem fNameHistory).Reachable ⟨view₂ :: below₂, s.db⟩ ∧
        snapshotsOf s.db (view₂ :: below₂) = snapshotsOf s.db s.caches := by
  obtain ⟨caches, db⟩ := s
  subst hcaches
  set xs := vtx ++ vGameTx with hxs
  set V := (viewOf db (view :: below)).coins with hV
  -- the connect loops run over the coinbase, whose undo data are not kept, and the rest
  set l : List (CTransaction × Bool) := (coinbase, false) :: xs.map fun tx => (tx, true) with hl
  have hlist : ((coinbase :: vtx).zipIdx.map fun e => (e.1, decide (0 < e.2))) ++
      vGameTx.map (fun tx => (tx, true)) = l := by
    rw [List.zipIdx_cons, List.map_cons, map_zipIdx_succ, hl, hxs, List.map_append]
    rfl
  have hfst : l.map Prod.fst = coinbase :: xs := by simp [hl, Function.comp_def]
  have happ : ∀ k (hk : k < l.length),
      l[k].1.Applicable (applyTxs nHeight ((l.map Prod.fst).take k) V) := by
    intro k hk
    have hk' : k < (coinbase :: xs).length := by simpa [hl] using hk
    have hget : l[k].1 = (coinbase :: xs)[k] := by cases k <;> simp [hl]
    rw [hfst, hget]
    exact (hu k hk').applicable
  obtain ⟨view₁, below₁, hrun₁, hr₁, hsnap₁⟩ :=
    connectLoop_spec nHeight l [] view below _ _ h rfl happ
  rw [hfst] at hsnap₁
  -- the undo data kept: the coins each transaction after the coinbase spends
  have hvtxundo : undoOf nHeight l V =
      undoOf nHeight (xs.map fun tx => (tx, true)) (applyTx coinbase nHeight V) := by
    simp [hl, undoOf]
  have hcbk : ∀ k (hk : k < (coinbase :: xs).length), (coinbase :: xs)[k].IsCoinBase = true ↔ k = 0 := by
    intro k hk
    cases k with
    | zero => simpa using hcb
    | succ j => simp [hrest _ (List.getElem_mem (by simpa using hk))]
  have hundo : ∀ k (hk : k < (coinbase :: xs).length), 0 < k →
      (((undoOf nHeight l V)[k - 1]?).getD ⟨[]⟩).vprevout.map some =
        (coinbase :: xs)[k].spentInputs.map (applyTxs nHeight ((coinbase :: xs).take k) V) := by
    intro k hk hpos
    obtain ⟨j, rfl⟩ : ∃ j, k = j + 1 := ⟨k - 1, by omega⟩
    have hj : j < xs.length := by simpa using hk
    rw [hvtxundo, Nat.add_sub_cancel, getElem?_undoOf_true, List.getElem?_eq_getElem hj]
    exact filterMap_map_some (spentInputs_ne_none (hu (j + 1) hk).applicable)
  have hV₀ : Unspent V := unspent_viewOf db (view :: below)
  obtain ⟨view₂, below₂, hrun₂, hr₂, hsnap₂⟩ := disconnectLoop_spec params (coinbase :: xs)
    (undoOf nHeight l V) h0 h30 hV₀ hcbk hu hundo (coinbase :: xs).length le_rfl true view₁ below₁
    _ _ hr₁ hsnap₁ (by rw [List.take_length])
  have hlen : (undoOf nHeight l V).length + 1 = (coinbase :: vtx).length + vGameTx.length := by
    rw [hvtxundo, length_undoOf_true, hxs, List.length_append, List.length_cons]
    omega
  refine ⟨undoOf nHeight l V, view₁, below₁, ?_, hr₁, hsnap₁, view₂, below₂, ?_, hr₂, hsnap₂⟩
  · rw [connectTxs, hlist, hrun₁, List.nil_append]
  · simp only [disconnectTxs, hlen, bne_self_eq_false, Bool.false_eq_true, if_false,
      List.cons_append, ← hxs]
    exact hrun₂

/-- A block at height two over the stack holding a coin one level down: its coinbase, and a
transaction spending that coin, whose input the disconnect restores. -/
theorem disconnect_connect_spend :
    let s : CoinsStack := ⟨[.new, coinBelow], emptyCoinsDB⟩
    let params : UndoParams := ⟨0, fun _ _ => none⟩
    let coinbase : CTransaction := ⟨[⟨0, 0xFFFFFFFF⟩], [⟨50, [OP_NOP]⟩], 1, 7⟩
    let tx : CTransaction := ⟨[⟨1, 0⟩], [⟨3, [OP_NOP]⟩], 1, 9⟩
    (coinsSystem false).Reachable s ∧ (0 : Int) ≤ 2 ∧ (2 : Int) < 2 ^ 30 ∧
      coinbase.IsCoinBase = true ∧ (∀ t ∈ ([tx] ++ [] : List CTransaction), t.IsCoinBase = false) ∧
      (∀ k (hk : k < (coinbase :: ([tx] ++ [])).length),
        (coinbase :: ([tx] ++ []))[k].Undoable params
          (applyTxs 2 ((coinbase :: ([tx] ++ [])).take k) (viewOf s.db s.caches).coins)) ∧
      ∃ vtxundo view₁ below₁,
        connectTxs s.db [coinbase, tx] [] 2 CCoinsViewCache.new [coinBelow] =
          .ok (vtxundo, view₁, below₁) ∧
        (coinsSystem false).Reachable ⟨view₁ :: below₁, s.db⟩ ∧
        snapshotsOf s.db (view₁ :: below₁) =
          { viewOf s.db s.caches with
            coins := applyTxs 2 (coinbase :: ([tx] ++ [])) (viewOf s.db s.caches).coins } ::
            snapshotsOf s.db [coinBelow] ∧
        ∃ view₂ below₂, disconnectTxs params s.db [coinbase, tx] ⟨vtxundo, []⟩ 2 view₁ below₁ =
            .ok (.DISCONNECT_OK, view₂, below₂) ∧
          (coinsSystem false).Reachable ⟨view₂ :: below₂, s.db⟩ ∧
          snapshotsOf s.db (view₂ :: below₂) = snapshotsOf s.db s.caches := by
  intro s params coinbase tx
  have hcb : coinbase.IsCoinBase = true := by decide
  have hcoin : ∀ coin, applyTx coinbase 2 (viewOf s.db s.caches).coins ⟨1, 0⟩ = some coin →
      coin = ⟨⟨5, [OP_NOP]⟩, false, false, 1⟩ := by
    intro coin hc
    have hfound : applyTx coinbase 2 (viewOf s.db s.caches).coins ⟨1, 0⟩ =
        some ⟨⟨5, [OP_NOP]⟩, false, false, 1⟩ := by decide
    exact Option.some.inj (hc.symm.trans hfound)
  have hu : ∀ k (hk : k < (coinbase :: ([tx] ++ [])).length),
      (coinbase :: ([tx] ++ []))[k].Undoable params
        (applyTxs 2 ((coinbase :: ([tx] ++ [])).take k) (viewOf s.db s.caches).coins) := by
    intro k hk
    match k, hk with
    | 0, _ =>
      -- the coinbase spends nothing: only its outputs must be free
      show coinbase.Undoable params (viewOf s.db s.caches).coins
      exact ⟨⟨by decide, by decide, fun h => absurd h (by simp [hcb]),
        fun h => absurd h (by simp [hcb]), fun h => absurd h (by simp [hcb]),
        fun h => absurd h (by simp [hcb])⟩, by decide,
        fun h => absurd h (by simp [hcb]),
        fun p hp => absurd hp (by simp [CTransaction.spentInputs, hcb])⟩
    | 1, _ =>
      -- the transaction spends the coin of height one, whose script is spendable
      show tx.Undoable params (applyTx coinbase 2 (viewOf s.db s.caches).coins)
      refine ⟨⟨by decide, by decide, fun _ => by decide, fun _ => by decide, fun _ => by decide,
        fun _ => by decide⟩, by decide, fun _ _ => by decide, fun p hp coin hc => ?_⟩
      simp [CTransaction.spentInputs, tx] at hp
      obtain ⟨-, rfl, -⟩ := hp
      obtain rfl := hcoin coin hc
      exact ⟨by decide, Or.inl (by decide)⟩
  exact ⟨reachable_coinBelow, by decide, by decide, hcb, by decide, hu,
    disconnect_connect reachable_coinBelow rfl params 2 (by decide) (by decide) coinbase [tx] [] hcb
      (by decide) hu⟩

end Huntercore
