import Mathlib
import Huntercore.Lib.Control
import Huntercore.Coins.Cache

/-!
# Applying a transaction to the coins

`UpdateCoins` (validation.cpp) applies a transaction to the cache a block is connected in: it
spends the coin of each input and keeps it as the transaction's undo data, and `AddCoins`
(coins.cpp) then adds a coin for each output. A game transaction's bounty inputs have null
prevouts and spend nothing; a coinbase spends nothing and may overwrite.

What this is for is `applyTx`: the view loses the coins of the inputs and gains one for each
spendable output. On every stack of caches the node builds, a transaction that the checks before
`UpdateCoins` let through (`Applicable`: its inputs are in the view and distinct, its outputs are
not, no amount is negative) is applied so; the assertions on the way hold, the undo data are the
coins the inputs spent, in order, and the stack after it is again one the node builds
(`UpdateCoins_spec`).
-/

namespace Huntercore

/-- `CTransaction`, as far as the coins code reads it: the outpoints its inputs spend, its
outputs, its version and its hash. -/
structure CTransaction where
  vin : List COutPoint
  vout : List CTxOut
  nVersion : Int
  hash : Nat

/-- `CTransaction::GAMETX_VERSION`. -/
def GAMETX_VERSION : Int := 0x87100

/-- `COutPoint::IsNull`: the null hash with the index `(uint32_t) -1`. -/
def COutPoint.IsNull (o : COutPoint) : Bool := o.hash == 0 && o.n == 0xFFFFFFFF

namespace CTransaction

def IsGameTx (tx : CTransaction) : Bool := tx.nVersion == GAMETX_VERSION

/-- `IsCoinBase`: one input, with a null prevout, in a transaction that is not a game
transaction. -/
def IsCoinBase (tx : CTransaction) : Bool :=
  match tx.vin with
  | [prevout] => !tx.IsGameTx && prevout.IsNull
  | _ => false

end CTransaction

/-! ## The source -/

section Source

variable (db : CCoinsViewDB) (tx : CTransaction) (nHeight : Int)

/-- The loop of `UpdateCoins` over the inputs: each input's coin is spent and kept for the undo
data, and a null prevout, which only a game transaction has, is passed over. -/
def spendInputs (isGameTx : Bool) :
    List COutPoint → List Coin × CCoinsViewCache × List CCoinsViewCache →
      Except String (List Coin × CCoinsViewCache × List CCoinsViewCache)
  | [], acc => pure acc
  | prevout :: rest, (undo, inputs, below) =>
    if prevout.IsNull then
      if isGameTx then spendInputs isGameTx rest (undo, inputs, below)
      else throw "assertion failed: tx.IsGameTx()"
    else
      match inputs.SpendCoin below (stackGetCoin db below) prevout with
      | (some coin, inputs', below') => spendInputs isGameTx rest (undo ++ [coin], inputs', below')
      | (none, _, _) => throw "assertion failed: is_spent"

/-- The loop of `AddCoins` over the outputs, each with its index. The coin may overwrite when the
view has one (`check`) or, without `check`, when the transaction is a coinbase. -/
def addOutputs (check : Bool) :
    List (CTxOut × Nat) → CCoinsViewCache × List CCoinsViewCache →
      Except String (CCoinsViewCache × List CCoinsViewCache)
  | [], acc => pure acc
  | (out, i) :: rest, (cache, below) => do
    let outpoint : COutPoint := ⟨tx.hash, UInt32.ofNat i⟩
    let r := if check then cache.HaveCoin below (stackGetCoin db below) outpoint
      else (tx.IsCoinBase, cache, below)
    let cache' ← r.2.1.AddCoin outpoint ⟨out, tx.IsCoinBase, tx.IsGameTx, BitVec.ofInt 30 nHeight⟩ r.1
    addOutputs check rest (cache', r.2.2)

/-- `AddCoins` on the cache `cache` over the caches `below`. -/
def AddCoins (cache : CCoinsViewCache) (below : List CCoinsViewCache) (check : Bool) :
    Except String (CCoinsViewCache × List CCoinsViewCache) :=
  addOutputs db tx nHeight check tx.vout.zipIdx (cache, below)

/-- `UpdateCoins` on the cache `inputs` over the caches `below`: the undo data and the caches
after it. -/
def UpdateCoins (inputs : CCoinsViewCache) (below : List CCoinsViewCache) :
    Except String (List Coin × CCoinsViewCache × List CCoinsViewCache) := do
  let spent ← if tx.IsCoinBase then pure ([], inputs, below)
    else spendInputs db tx.IsGameTx tx.vin ([], inputs, below)
  let added ← AddCoins db tx nHeight spent.2.1 spent.2.2 false
  pure (spent.1, added)

end Source

/-! ## What a transaction does to the coins -/

/-- The coins a view shows after the inputs `l` are spent. -/
def spendAll (l : List COutPoint) (V : COutPoint → Option Coin) : COutPoint → Option Coin :=
  l.foldl (fun V prevout => if prevout.IsNull then V else Function.update V prevout none) V

/-- The coins a view shows after the outputs `l` of `tx`, with their indices, are added: an
unspendable output adds none. -/
def addAll (tx : CTransaction) (nHeight : Int) (l : List (CTxOut × Nat))
    (V : COutPoint → Option Coin) : COutPoint → Option Coin :=
  l.foldl (fun V e => if CScript.IsUnspendable e.1.scriptPubKey then V
    else Function.update V ⟨tx.hash, UInt32.ofNat e.2⟩ (some ⟨e.1, tx.IsCoinBase, tx.IsGameTx, BitVec.ofInt 30 nHeight⟩)) V

/-- What a transaction does to the coins a view shows: a transaction that is not a coinbase
spends its inputs, and then its spendable outputs are added. -/
def applyTx (tx : CTransaction) (nHeight : Int) (V : COutPoint → Option Coin) :
    COutPoint → Option Coin :=
  addAll tx nHeight tx.vout.zipIdx (if tx.IsCoinBase then V else spendAll tx.vin V)

/-- The outpoints whose coins a transaction spends, in order: none for a coinbase. -/
def CTransaction.spentInputs (tx : CTransaction) : List COutPoint :=
  if tx.IsCoinBase then [] else tx.vin.filter fun prevout => !prevout.IsNull

/-- What the checks before `UpdateCoins` establish of a transaction and the coins `V` of the view
it is applied to (`CheckTransaction`, `CheckTxInputs`, the overwrite check of `ConnectBlock`):
no output amount is negative and `COutPoint` can index every output; and for a transaction that
is not a coinbase, only a game transaction has null prevouts, no input is spent twice, the view
has a coin for every input and none where an output goes. -/
structure CTransaction.Applicable (tx : CTransaction) (V : COutPoint → Option Coin) : Prop where
  value : ∀ out ∈ tx.vout, 0 ≤ out.nValue
  indexable : tx.vout.length ≤ UInt32.size
  nullGame : tx.IsCoinBase = false → ∀ prevout ∈ tx.vin, prevout.IsNull = true →
    tx.IsGameTx = true
  distinct : tx.IsCoinBase = false → (tx.vin.filter fun prevout => !prevout.IsNull).Nodup
  inputs : tx.IsCoinBase = false → ∀ prevout ∈ tx.vin, prevout.IsNull = false → V prevout ≠ none
  outputs : tx.IsCoinBase = false → ∀ i < tx.vout.length, V ⟨tx.hash, UInt32.ofNat i⟩ = none

/-- The coin of an output with no negative amount is not spent. -/
theorem Coin.IsSpent_eq_false_of_nonneg {coin : Coin} (h : 0 ≤ coin.out.nValue) :
    coin.IsSpent = false := by
  simp only [Coin.IsSpent, CTxOut.IsNull, beq_eq_false_iff_ne]
  omega

/-! ## What the loops do to the coins -/

@[simp]
theorem spendAll_nil (V : COutPoint → Option Coin) : spendAll [] V = V := rfl

theorem spendAll_cons (prevout : COutPoint) (l : List COutPoint) (V : COutPoint → Option Coin) :
    spendAll (prevout :: l) V =
      spendAll l (if prevout.IsNull then V else Function.update V prevout none) := rfl

/-- Spending never brings a coin back. -/
theorem spendAll_eq_none {outpoint : COutPoint} :
    ∀ (l : List COutPoint) {V : COutPoint → Option Coin}, V outpoint = none →
      spendAll l V outpoint = none
  | [], _, h => h
  | prevout :: l, V, h => by
    rw [spendAll_cons]
    apply spendAll_eq_none l
    split
    · exact h
    · rw [Function.update_apply]; split <;> simp [h]

theorem addAll_cons (tx : CTransaction) (nHeight : Int) (e : CTxOut × Nat)
    (l : List (CTxOut × Nat)) (V : COutPoint → Option Coin) :
    addAll tx nHeight (e :: l) V = addAll tx nHeight l
      (if CScript.IsUnspendable e.1.scriptPubKey then V
        else Function.update V ⟨tx.hash, UInt32.ofNat e.2⟩
          (some ⟨e.1, tx.IsCoinBase, tx.IsGameTx, BitVec.ofInt 30 nHeight⟩)) := rfl

/-- The outputs of a transaction that `COutPoint` can index go to distinct outpoints. -/
theorem outpoints_nodup (tx : CTransaction) (h : tx.vout.length ≤ UInt32.size) :
    (tx.vout.zipIdx.map fun e => (⟨tx.hash, UInt32.ofNat e.2⟩ : COutPoint)).Nodup := by
  have hmap : (tx.vout.zipIdx.map fun e => (⟨tx.hash, UInt32.ofNat e.2⟩ : COutPoint)) =
      (List.range' 0 tx.vout.length).map fun i => (⟨tx.hash, UInt32.ofNat i⟩ : COutPoint) := by
    rw [← List.zipIdx_map_snd 0 tx.vout, List.map_map]
    rfl
  rw [hmap]
  refine List.Nodup.map_on (fun i hi j hj hij => ?_) List.nodup_range'
  have hi' : i < UInt32.size := by rw [List.mem_range'_1] at hi; omega
  have hj' : j < UInt32.size := by rw [List.mem_range'_1] at hj; omega
  have hn := congrArg (fun o : COutPoint => o.n.toNat) hij
  simpa only [UInt32.toNat_ofNat_of_lt' hi', UInt32.toNat_ofNat_of_lt' hj'] using hn

/-! ## Applying a transaction is a run of the coins system -/

section Run

variable {fNameHistory : Bool} {db : CCoinsViewDB}

/-- The top snapshot of a stack is what its top cache shows. -/
theorem viewOf_of_snapshotsOf {view : CCoinsViewCache} {below : List CCoinsViewCache}
    {v : Snapshot} {vs : List Snapshot} (hsnap : snapshotsOf db (view :: below) = v :: vs) :
    viewOf db (view :: below) = v :=
  (List.cons_eq_cons.mp hsnap).1

/-- The loop over the inputs, from a stack the node builds: each input's coin is in the view,
so it is spent and its coin kept, and every spend is a step of the system. -/
theorem spendInputs_spec (isGameTx : Bool) : ∀ (l : List COutPoint) (undo : List Coin)
    (view : CCoinsViewCache) (below : List CCoinsViewCache) (v : Snapshot) (vs : List Snapshot),
    (coinsSystem fNameHistory).Reachable ⟨view :: below, db⟩ →
    snapshotsOf db (view :: below) = v :: vs →
    (∀ prevout ∈ l, prevout.IsNull = true → isGameTx = true) →
    (l.filter fun prevout => !prevout.IsNull).Nodup →
    (∀ prevout ∈ l, prevout.IsNull = false → v.coins prevout ≠ none) →
    ∃ spent view' below', spendInputs db isGameTx l (undo, view, below) =
        .ok (undo ++ spent, view', below') ∧
      spent.map some = (l.filter fun prevout => !prevout.IsNull).map v.coins ∧
      (coinsSystem fNameHistory).Reachable ⟨view' :: below', db⟩ ∧
      snapshotsOf db (view' :: below') = { v with coins := spendAll l v.coins } :: vs
  | [], undo, view, below, v, vs, h, hsnap, _, _, _ =>
    ⟨[], view, below, by rw [List.append_nil]; rfl, rfl, h, hsnap⟩
  | prevout :: rest, undo, view, below, v, vs, h, hsnap, hnull, hnodup, hin => by
    have hnull' : ∀ p ∈ rest, p.IsNull = true → isGameTx = true :=
      fun p hp => hnull p (List.mem_cons_of_mem _ hp)
    have hin' : ∀ p ∈ rest, p.IsNull = false → v.coins p ≠ none :=
      fun p hp => hin p (List.mem_cons_of_mem _ hp)
    cases hp : prevout.IsNull with
    | true =>
      -- a bounty input: passed over, and only a game transaction has one
      have hgame := hnull prevout List.mem_cons_self hp
      have hnodup' : (rest.filter fun p => !p.IsNull).Nodup := by
        simpa [List.filter_cons, hp] using hnodup
      obtain ⟨spent, view', below', hrun, hundo, hr, hsnap'⟩ :=
        spendInputs_spec isGameTx rest undo view below v vs h hsnap hnull' hnodup' hin'
      have hstep : spendInputs db isGameTx (prevout :: rest) (undo, view, below) =
          spendInputs db isGameTx rest (undo, view, below) := by
        simp only [spendInputs, hp, hgame, if_true]
      refine ⟨spent, view', below', hstep ▸ hrun, ?_, hr, ?_⟩
      · simpa [List.filter_cons, hp] using hundo
      · rw [spendAll_cons, if_pos hp]; exact hsnap'
    | false =>
      -- the input's coin is moved out and the top snapshot loses it
      obtain ⟨hfresh, hnodup'⟩ : prevout ∉ rest.filter (fun p => !p.IsNull) ∧
          (rest.filter fun p => !p.IsNull).Nodup := by
        simpa [List.filter_cons, hp] using hnodup
      obtain ⟨coin, hcoin⟩ := Option.ne_none_iff_exists'.mp (hin prevout List.mem_cons_self hp)
      have hs := TransitionSystem.Invariant.reachable _ coinsSystem_coherent h
      have hmoved := spend_moved prevout hs (by rw [viewOf_of_snapshotsOf hsnap]; exact hcoin)
      have hsnap₁ := (spend_spec prevout hs).2
      have hr₁ : (coinsSystem fNameHistory).Reachable
          ⟨(view.SpendCoin below (stackGetCoin db below) prevout).2.1 ::
            (view.SpendCoin below (stackGetCoin db below) prevout).2.2, db⟩ :=
        TransitionSystem.Reachable.step (e := .spendCoin prevout) h
          ⟨List.cons_ne_nil _ _, .spendCoin⟩
      rw [hsnap] at hsnap₁
      simp only [spendInputs, hp, Bool.false_eq_true, if_false]
      generalize view.SpendCoin below (stackGetCoin db below) prevout = r at hmoved hsnap₁ hr₁ ⊢
      obtain ⟨moved, view₁, below₁⟩ := r
      cases hmoved
      -- the later inputs are not this one, so the spend leaves their coins as they were
      have hin₁ : ∀ p ∈ rest, p.IsNull = false →
          (Function.update v.coins prevout none) p ≠ none := by
        intro p hpr hpn
        have hne : p ≠ prevout := by
          rintro rfl
          exact hfresh (List.mem_filter.mpr ⟨hpr, by simp [hpn]⟩)
        rw [Function.update_of_ne hne]
        exact hin' p hpr hpn
      obtain ⟨spent, view', below', hrun, hundo, hr, hsnap'⟩ :=
        spendInputs_spec isGameTx rest (undo ++ [coin]) view₁ below₁
          { v with coins := Function.update v.coins prevout none } vs hr₁ hsnap₁ hnull' hnodup'
          hin₁
      refine ⟨coin :: spent, view', below', by simpa using hrun, ?_, hr, ?_⟩
      · have hrest : (rest.filter fun p => !p.IsNull).map (Function.update v.coins prevout none) =
            (rest.filter fun p => !p.IsNull).map v.coins :=
          List.map_congr_left fun p hpr =>
            Function.update_of_ne (fun hpe => hfresh (by rw [← hpe]; exact hpr)) _ _
        simp only [List.map_cons, List.filter_cons, hp, Bool.not_false, if_true, hcoin, hundo,
          hrest]
      · rw [spendAll_cons, if_neg (by simp [hp])]; exact hsnap'

/-- The loop over the outputs, from a stack the node builds: each coin is added by a step of the
system, which the outputs going to distinct outpoints, not in the view unless they may
overwrite, allow. -/
theorem addOutputs_spec (tx : CTransaction) (nHeight : Int) : ∀ (l : List (CTxOut × Nat))
    (view : CCoinsViewCache) (below : List CCoinsViewCache) (v : Snapshot) (vs : List Snapshot),
    (coinsSystem fNameHistory).Reachable ⟨view :: below, db⟩ →
    snapshotsOf db (view :: below) = v :: vs →
    (∀ e ∈ l, 0 ≤ e.1.nValue) →
    (l.map fun e => (⟨tx.hash, UInt32.ofNat e.2⟩ : COutPoint)).Nodup →
    (tx.IsCoinBase = false → ∀ e ∈ l, v.coins ⟨tx.hash, UInt32.ofNat e.2⟩ = none) →
    ∃ view' below', addOutputs db tx nHeight false l (view, below) = .ok (view', below') ∧
      (coinsSystem fNameHistory).Reachable ⟨view' :: below', db⟩ ∧
      snapshotsOf db (view' :: below') = { v with coins := addAll tx nHeight l v.coins } :: vs
  | [], view, below, v, vs, h, hsnap, _, _, _ => ⟨view, below, rfl, h, hsnap⟩
  | (out, i) :: rest, view, below, v, vs, h, hsnap, hvalue, hnodup, hfree => by
    let outpoint : COutPoint := ⟨tx.hash, UInt32.ofNat i⟩
    let coin : Coin := ⟨out, tx.IsCoinBase, tx.IsGameTx, BitVec.ofInt 30 nHeight⟩
    obtain ⟨hfresh, hnodup'⟩ := List.nodup_cons.mp hnodup
    have hcoin : coin.IsSpent = false :=
      Coin.IsSpent_eq_false_of_nonneg (hvalue (out, i) List.mem_cons_self)
    have hnew : tx.IsCoinBase = false → (viewOf db (view :: below)).coins outpoint = none := by
      intro hcb
      rw [viewOf_of_snapshotsOf hsnap]
      exact hfree hcb (out, i) List.mem_cons_self
    have hs := TransitionSystem.Invariant.reachable _ coinsSystem_coherent h
    obtain ⟨view₁, hadd, -, hsnap₁⟩ := add_spec hs hcoin hnew
    have hr₁ : (coinsSystem fNameHistory).Reachable ⟨view₁ :: below, db⟩ :=
      TransitionSystem.Reachable.step (e := .addCoin outpoint coin tx.IsCoinBase) h
        ⟨⟨List.cons_ne_nil _ _, hcoin, hnew⟩, .addCoin hadd⟩
    rw [hsnap] at hsnap₁
    have hvalue' : ∀ e ∈ rest, 0 ≤ e.1.nValue := fun e he => hvalue e (List.mem_cons_of_mem _ he)
    have hrun : addOutputs db tx nHeight false ((out, i) :: rest) (view, below) =
        addOutputs db tx nHeight false rest (view₁, below) := by
      simp only [addOutputs, Bool.false_eq_true, if_false]
      rw [hadd, Except.ok_bind]
    rw [hrun, addAll_cons]
    by_cases hun : CScript.IsUnspendable out.scriptPubKey = true
    · -- an unspendable output adds nothing
      simp only [Snapshot.step, coin, hun, if_true] at hsnap₁
      simp only [hun, if_true]
      exact addOutputs_spec tx nHeight rest view₁ below v vs hr₁ hsnap₁ hvalue' hnodup'
        fun hcb e he => hfree hcb e (List.mem_cons_of_mem _ he)
    · -- the coin goes to an outpoint the later outputs do not use
      simp only [Snapshot.step, coin, hun, if_false, Bool.false_eq_true] at hsnap₁
      simp only [hun, if_false, Bool.false_eq_true]
      refine addOutputs_spec tx nHeight rest view₁ below _ vs hr₁ hsnap₁ hvalue' hnodup'
        fun hcb e he => ?_
      have hne : (⟨tx.hash, UInt32.ofNat e.2⟩ : COutPoint) ≠ outpoint :=
        fun hpe => hfresh (List.mem_map.mpr ⟨e, he, hpe⟩)
      simp only [Function.update_of_ne hne]
      exact hfree hcb e (List.mem_cons_of_mem _ he)

/-- `UpdateCoins` on the top cache of a stack the node builds, with a transaction the checks
before it let through, is a run of the coins system that changes the top snapshot's coins as
`applyTx` does. -/
theorem updateCoins_run {view : CCoinsViewCache} {below : List CCoinsViewCache} {v : Snapshot}
    {vs : List Snapshot} (h : (coinsSystem fNameHistory).Reachable ⟨view :: below, db⟩)
    (hsnap : snapshotsOf db (view :: below) = v :: vs) (tx : CTransaction) (nHeight : Int)
    (happ : tx.Applicable v.coins) :
    ∃ undo view' below', UpdateCoins db tx nHeight view below = .ok (undo, view', below') ∧
      undo.map some = tx.spentInputs.map v.coins ∧
      (coinsSystem fNameHistory).Reachable ⟨view' :: below', db⟩ ∧
      snapshotsOf db (view' :: below') = { v with coins := applyTx tx nHeight v.coins } :: vs := by
  have hvalue : ∀ e ∈ tx.vout.zipIdx, 0 ≤ e.1.nValue :=
    fun e he => happ.value e.1 (List.mem_of_getElem? (List.mem_zipIdx_iff_getElem?.mp he))
  have hnodup := outpoints_nodup tx happ.indexable
  cases hcb : tx.IsCoinBase with
  | true =>
    -- a coinbase spends nothing and its coins may overwrite
    obtain ⟨view', below', hrun, hr, hsnap'⟩ := addOutputs_spec
      tx nHeight tx.vout.zipIdx view below _ _ h hsnap hvalue hnodup (by simp [hcb])
    refine ⟨[], view', below', ?_, by simp [CTransaction.spentInputs, hcb], hr, ?_⟩
    · simp only [UpdateCoins, hcb, if_true, Except.pure_eq_ok, Except.ok_bind, AddCoins, hrun]
    · simpa [applyTx, hcb] using hsnap'
  | false =>
    obtain ⟨spent, view₁, below₁, hrun₁, hundo, hr₁, hsnap₁⟩ :=
      spendInputs_spec tx.IsGameTx tx.vin [] view below _ _ h
        hsnap (happ.nullGame hcb) (happ.distinct hcb) (happ.inputs hcb)
    -- the outputs' outpoints were free, and spending frees more
    have hfree : tx.IsCoinBase = false → ∀ e ∈ tx.vout.zipIdx,
        spendAll tx.vin v.coins ⟨tx.hash, UInt32.ofNat e.2⟩ = none :=
      fun _ e he => spendAll_eq_none _ (happ.outputs hcb e.2 (by
        have := (List.mem_zipIdx he).2.1
        omega))
    obtain ⟨view', below', hrun, hr, hsnap'⟩ :=
      addOutputs_spec tx nHeight tx.vout.zipIdx view₁ below₁ _ _ hr₁ hsnap₁ hvalue hnodup hfree
    refine ⟨spent, view', below', ?_, by simpa [CTransaction.spentInputs, hcb] using hundo, hr,
      by simpa [applyTx, hcb] using hsnap'⟩
    simp only [UpdateCoins, hcb, Bool.false_eq_true, if_false, hrun₁, Except.ok_bind, AddCoins,
      hrun, List.nil_append]
    rfl

end Run

/-- On every stack of caches the node builds, `UpdateCoins` applies a transaction that the checks
before it let through as `applyTx` says: no assertion fails and `AddCoin` throws nothing, the
undo data are the coins the transaction's inputs spent, in their order, the top snapshot takes
the transaction's effect, the ones below stay, and the stack it leaves is again one the node
builds, reached by the spends and additions of the coins system. -/
theorem UpdateCoins_spec {fNameHistory : Bool} {s : CoinsStack}
    (h : (coinsSystem fNameHistory).Reachable s) {inputs : CCoinsViewCache}
    {below : List CCoinsViewCache} (hcaches : s.caches = inputs :: below) (tx : CTransaction)
    (nHeight : Int) (happ : tx.Applicable (viewOf s.db s.caches).coins) :
    ∃ undo inputs' below', UpdateCoins s.db tx nHeight inputs below = .ok (undo, inputs', below') ∧
      undo.map some = tx.spentInputs.map (viewOf s.db s.caches).coins ∧
      (coinsSystem fNameHistory).Reachable ⟨inputs' :: below', s.db⟩ ∧
      snapshotsOf s.db (inputs' :: below') =
        { viewOf s.db s.caches with coins := applyTx tx nHeight (viewOf s.db s.caches).coins } ::
          snapshotsOf s.db below := by
  obtain ⟨caches, db⟩ := s
  subst hcaches
  exact updateCoins_run h rfl tx nHeight happ

/-- A cache holding one unspent coin of height one at `⟨1, 0⟩`, added to it and not yet flushed,
with its best block set. -/
def coinBelow : CCoinsViewCache :=
  ⟨1, OrdMap.empty.insert ⟨1, 0⟩ ⟨⟨⟨5, [OP_NOP]⟩, false, false, 1⟩, true, true⟩, .init⟩

/-- The cache holding the coin, under a new cache: a stack the node builds by a push, the
addition of the coin, the best block and a second push. -/
theorem reachable_coinBelow : (coinsSystem false).Reachable ⟨[.new, coinBelow], emptyCoinsDB⟩ := by
  have h₀ : (coinsSystem false).Reachable ⟨[], emptyCoinsDB⟩ := TransitionSystem.Reachable.init rfl
  have h₁ : (coinsSystem false).Reachable ⟨[.new], emptyCoinsDB⟩ :=
    TransitionSystem.Reachable.step (e := .push) h₀ ⟨trivial, .push⟩
  have h₂ : (coinsSystem false).Reachable
      ⟨[{ coinBelow with hashBlock := 0 }], emptyCoinsDB⟩ :=
    TransitionSystem.Reachable.step (e := .addCoin ⟨1, 0⟩ ⟨⟨5, [OP_NOP]⟩, false, false, 1⟩ false) h₁
      ⟨⟨List.cons_ne_nil _ _, rfl, fun _ => by decide⟩, .addCoin rfl⟩
  have h₃ : (coinsSystem false).Reachable ⟨[coinBelow], emptyCoinsDB⟩ :=
    TransitionSystem.Reachable.step (e := .setBestBlock 1) h₂ ⟨List.cons_ne_nil _ _, .setBestBlock⟩
  exact TransitionSystem.Reachable.step (e := .push) h₃ ⟨trivial, .push⟩

/-- A transaction spending the coin held one level down, with one output. -/
theorem UpdateCoins_spec_spend :
    let s : CoinsStack := ⟨[.new, coinBelow], emptyCoinsDB⟩
    let tx : CTransaction := ⟨[⟨1, 0⟩], [⟨3, [OP_NOP]⟩], 1, 9⟩
    (coinsSystem false).Reachable s ∧ tx.IsCoinBase = false ∧
      (viewOf s.db s.caches).coins ⟨1, 0⟩ = some ⟨⟨5, [OP_NOP]⟩, false, false, 1⟩ ∧
      tx.Applicable (viewOf s.db s.caches).coins ∧
      ∃ undo inputs' below', UpdateCoins s.db tx 2 CCoinsViewCache.new [coinBelow] =
          .ok (undo, inputs', below') ∧
        undo.map some = tx.spentInputs.map (viewOf s.db s.caches).coins ∧
        (coinsSystem false).Reachable ⟨inputs' :: below', s.db⟩ ∧
        snapshotsOf s.db (inputs' :: below') =
          { viewOf s.db s.caches with coins := applyTx tx 2 (viewOf s.db s.caches).coins } ::
            snapshotsOf s.db [coinBelow] := by
  intro s tx
  have happ : tx.Applicable (viewOf s.db s.caches).coins :=
    ⟨by decide, by decide, fun _ => by decide, fun _ => by decide, fun _ => by decide,
      fun _ => by decide⟩
  exact ⟨reachable_coinBelow, by decide, by decide, happ,
    UpdateCoins_spec reachable_coinBelow rfl tx 2 happ⟩

end Huntercore
