import Mathlib
import Huntercore.Lib.OrdMap
import Huntercore.Lib.System
import Huntercore.Game.Invariant.Step

/-!
# The game-state database

`CGameDB` (game/db.cpp) answers the question "what is the game state after block `hash`?". It
holds the states of the last few blocks in memory (`cache`) and every `KEEP_EVERY_NTH`-th on
disk (`db`). `get` recomputes a state it does not hold: it walks back through the block index to
the nearest block whose state it holds, or to the genesis block, whose input is the state before
the chain, and runs the game step of each block forward from there. `flush` empties the cache
but for the main chain's last `MIN_IN_MEMORY` blocks, writes to disk what it takes out at a
height divisible by `KEEP_EVERY_NTH` (everything, when saving all), and prunes the disk by the
same rule.

What the database is for is `StateOf`: the state after a block is the game step of the block
from the state after its parent. The database is a memo table of `StateOf`: every state it
holds is the state of its block, every operation keeps that, and so `get` answers with the state
of the block, whatever gets, stores and flushes came before. Along every run the pruning loop
finds each state on disk in the block index, as the source asserts, and the cache never holds
more than `MAX_IN_MEMORY` states while flushing is on.

The block index is fixed here: blocks enter `mapBlockIndex` but never leave it or change their
parent, so what holds for one index holds for every larger one. The database reads other fields
of `CBlockIndex` than the proof-of-work does, so its view of the index has a namespace of its own.
-/

namespace Huntercore.GameDB

/-- `KEEP_EVERY_NTH`. -/
def KEEP_EVERY_NTH : Int := 2000
/-- `MIN_IN_MEMORY`. -/
def MIN_IN_MEMORY : Int := 10
/-- `MAX_IN_MEMORY`. -/
def MAX_IN_MEMORY : Nat := 100

/-- `CBlockIndex`, as far as the game database reads it: the height and the hash of the parent,
none for the genesis block. -/
structure CBlockIndex where
  nHeight : Int
  pprev : Option Nat

/-- `mapBlockIndex`, by block hash. Every parent is in the index one height below its child, the
block without a parent is at height zero, and no height is negative. -/
structure BlockMap where
  find : Nat → Option CBlockIndex
  parent : ∀ {hash i p}, find hash = some i → i.pprev = some p →
    ∃ ip, find p = some ip ∧ ip.nHeight + 1 = i.nHeight
  genesis : ∀ {hash i}, find hash = some i → i.pprev = none → i.nHeight = 0
  height_nonneg : ∀ {hash i}, find hash = some i → 0 ≤ i.nHeight

/-- The database: the flag that holds off flushing, the states on disk and those in memory. -/
structure CGameDB where
  keepEverything : Bool
  db : OrdMap Nat GameState
  cache : OrdMap Nat GameState

section Model

variable (index : BlockMap) (param : Params) {β : Type} (ReadBlockFromDisk : Nat → Option β)
  (PerformBlockStep : β → GameState → Option GameState)

/-- `getFromCache`: the state in memory, else the state on disk. -/
def CGameDB.getFromCache (gdb : CGameDB) (hash : Nat) : Option GameState :=
  match gdb.cache.find? hash with
  | some state => some state
  | none => gdb.db.find? hash

/-- The backward loop of `get`: `back` is the oldest block collected so far (`needed.back ()`)
and `newer` the others, the oldest first. It stops at the genesis block, whose input is the
state before the chain, or at a block whose parent's state is held. -/
def collectNeeded (gdb : CGameDB) (back : Nat × CBlockIndex) (hback : index.find back.1 = some back.2)
    (newer : List (Nat × CBlockIndex)) : GameState × List (Nat × CBlockIndex) :=
  match hp : back.2.pprev with
  | none => (GameState.init param, back :: newer)
  | some p =>
    match gdb.getFromCache p with
    | some stateIn => (stateIn, back :: newer)
    | none =>
      match hip : index.find p with
      | some ip => collectNeeded gdb (p, ip) hip (back :: newer)
      | none => absurd (index.parent hback hp) (by simp [hip])
termination_by back.2.nHeight.toNat
decreasing_by
  obtain ⟨ip', hip', hh⟩ := index.parent hback hp
  rw [hip] at hip'
  cases hip'
  have := index.height_nonneg hip
  omega

/-- The forward loop of `get`: the game step of each needed block, the oldest first. -/
def integrate : GameState → List (Nat × CBlockIndex) → Except String GameState
  | state, [] => .ok state
  | stateIn, (hash, _) :: rest =>
    match ReadBlockFromDisk hash with
    | none => .error "get: failed to read block from disk"
    | some block =>
      match PerformBlockStep block stateIn with
      | none => .error "get: failed to perform game step"
      | some state => integrate state rest

/-- The loop of `flush` that collects the blocks whose states stay in memory: from the tip back
while the height is above `minHeight`, walking back at most `fuel` blocks. -/
def keepInMemoryLoop (minHeight : Int) : Nat → Option Nat → List Nat
  | 0, _ => []
  | _, none => []
  | fuel + 1, some hash =>
    match index.find hash with
    | none => []
    | some i => if i.nHeight > minHeight then hash :: keepInMemoryLoop minHeight fuel i.pprev else []

/-- `keepInMemory` of `flush`: the main chain's blocks above `MIN_IN_MEMORY` below the tip. The
walk back from the tip ends after as many blocks as its height and one. -/
def keepInMemory (tip : Nat) : List Nat :=
  match index.find tip with
  | none => []
  | some i => keepInMemoryLoop index (i.nHeight - MIN_IN_MEMORY) (i.nHeight.toNat + 1) (some tip)

/-- Whether a block's height is one whose state is kept on disk. -/
def keptOnDisk (hash : Nat) : Bool :=
  match index.find hash with
  | some i => i.nHeight % KEEP_EVERY_NTH == 0
  | none => false

/-- `flush (saveAll)`. Every state in memory but those to keep there (unless saving all) leaves
the cache, and is written to disk when it is to be kept or its height is kept on disk; then every
state on disk that is not to be kept (unless saving all) is erased at a height not kept on disk.
The batch holds the writes before the erasures. -/
def CGameDB.flush (gdb : CGameDB) (tip : Nat) (saveAll : Bool) : CGameDB :=
  let keep := keepInMemory index tip
  let leaves (hash : Nat) : Bool := saveAll || !keep.contains hash
  let writes := gdb.cache.entries.filter fun e => leaves e.1 && (keep.contains e.1 || keptOnDisk index e.1)
  let erases := gdb.db.keys.filter fun hash => !(saveAll && keep.contains hash) &&
    (index.find hash).isSome && !keptOnDisk index hash
  let db := writes.foldl (fun db e => db.insert e.1 e.2) gdb.db
  { gdb with
    db := erases.foldl OrdMap.erase db
    cache := gdb.cache.filter fun hash _ => !leaves hash }

/-- `attemptFlush`: flush when the cache has grown past `MAX_IN_MEMORY`, unless everything is
kept. -/
def CGameDB.attemptFlush (gdb : CGameDB) (tip : Nat) : CGameDB :=
  if !gdb.keepEverything && gdb.cache.size > MAX_IN_MEMORY then gdb.flush index tip false else gdb

/-- `store (hash, state)`. -/
def CGameDB.store (gdb : CGameDB) (tip hash : Nat) (state : GameState) : CGameDB :=
  { gdb with cache := gdb.cache.insert hash state }.attemptFlush index tip

/-- `setKeepEverything (keep)`: the source asserts that the call changes the flag, so that a
later call never reverts a change that was not made; a failed assertion aborts the node. -/
def CGameDB.setKeepEverything (gdb : CGameDB) (tip : Nat) (keep : Bool) : Except String CGameDB :=
  if (keep && !gdb.keepEverything) || (!keep && gdb.keepEverything) then
    let gdb := { gdb with keepEverything := keep }
    .ok (if !keep then gdb.attemptFlush index tip else gdb)
  else .error "assertion failed: (keep && !keepEverything) || (!keep && keepEverything)"

/-- `get (hash, state)`: the state held, or the state recomputed from the nearest one held,
which is then stored. The tip is that of `chainActive`, which a flush reads. -/
def CGameDB.get (gdb : CGameDB) (tip hash : Nat) : Except String (GameState × CGameDB) :=
  match gdb.getFromCache hash with
  | some state => .ok (state, gdb)
  | none =>
    match h : index.find hash with
    | none => .error "get: block hash not found"
    | some i =>
      let (stateIn, needed) := collectNeeded index param gdb (hash, i) h []
      match integrate ReadBlockFromDisk PerformBlockStep stateIn needed with
      | .error e => .error e
      | .ok state => .ok (state, gdb.store index tip hash state)

end Model

/-! ## The state of a block -/

section StateOf

variable (index : BlockMap) (param : Params) {β : Type} (ReadBlockFromDisk : Nat → Option β)
  (PerformBlockStep : β → GameState → Option GameState)

/-- The game step of a block: read it, then step. -/
def blockStep (hash : Nat) (stateIn : GameState) : Option GameState :=
  (ReadBlockFromDisk hash).bind fun block => PerformBlockStep block stateIn

/-- What the database is for: the game state after a block is the step of the block from the
state after its parent, or from the state before the chain for the genesis block. -/
inductive StateOf : Nat → GameState → Prop
  | genesis {hash : Nat} {i : CBlockIndex} {state : GameState} :
      index.find hash = some i → i.pprev = none →
      blockStep ReadBlockFromDisk PerformBlockStep hash (GameState.init param) = some state →
      StateOf hash state
  | child {hash p : Nat} {i : CBlockIndex} {stateIn state : GameState} :
      index.find hash = some i → i.pprev = some p → StateOf p stateIn →
      blockStep ReadBlockFromDisk PerformBlockStep hash stateIn = some state → StateOf hash state

/-- The state a block is stepped from: the state before the chain for the genesis block, else the
state after its parent. -/
def InputOf (i : CBlockIndex) (stateIn : GameState) : Prop :=
  match i.pprev with
  | none => stateIn = GameState.init param
  | some p => StateOf index param ReadBlockFromDisk PerformBlockStep p stateIn

variable {index param ReadBlockFromDisk PerformBlockStep}

theorem stateOf_iff {hash : Nat} {state : GameState} :
    StateOf index param ReadBlockFromDisk PerformBlockStep hash state ↔
      ∃ i stateIn, index.find hash = some i ∧
        InputOf index param ReadBlockFromDisk PerformBlockStep i stateIn ∧
        blockStep ReadBlockFromDisk PerformBlockStep hash stateIn = some state := by
  constructor
  · rintro (⟨hi, hp, hs⟩ | ⟨hi, hp, hin, hs⟩)
    · exact ⟨_, _, hi, by simp [InputOf, hp], hs⟩
    · exact ⟨_, _, hi, by simpa [InputOf, hp] using hin, hs⟩
  · rintro ⟨i, stateIn, hi, hin, hs⟩
    unfold InputOf at hin
    split at hin
    · next hp =>
      subst hin
      exact StateOf.genesis hi hp hs
    · next p hp => exact StateOf.child hi hp hin hs

/-- A block has one state. -/
theorem StateOf.unique {hash : Nat} {state : GameState}
    (h : StateOf index param ReadBlockFromDisk PerformBlockStep hash state) :
    ∀ {state'}, StateOf index param ReadBlockFromDisk PerformBlockStep hash state' → state' = state := by
  induction h with
  | genesis hi hp hs =>
    intro state' h'
    cases h' with
    | genesis hi' _ hs' => rw [hs'] at hs; exact Option.some_inj.mp hs
    | child hi' hp' _ _ => rw [hi] at hi'; cases hi'; simp [hp] at hp'
  | child hi hp _ hs ih =>
    intro state' h'
    cases h' with
    | genesis hi' hp' _ => rw [hi] at hi'; cases hi'; simp [hp] at hp'
    | child hi' hp' hin' hs' =>
      rw [hi] at hi'
      cases hi'
      rw [hp] at hp'
      cases hp'
      rw [ih hin'] at hs'
      rw [hs'] at hs
      exact Option.some_inj.mp hs

/-- Only blocks of the index have a state. -/
theorem StateOf.find_isSome {hash : Nat} {state : GameState}
    (h : StateOf index param ReadBlockFromDisk PerformBlockStep hash state) :
    (index.find hash).isSome := by
  cases h with
  | genesis hi _ _ => simp [hi]
  | child hi _ _ _ => simp [hi]

end StateOf

/-! ## A memo table -/

section Holds

variable {index : BlockMap}

/-- Every state the database holds, in memory or on disk, satisfies `P`. -/
structure CGameDB.Holds (P : Nat → GameState → Prop) (gdb : CGameDB) : Prop where
  cache : gdb.cache.All P
  db : gdb.db.All P

variable {P : Nat → GameState → Prop} {gdb : CGameDB}

theorem CGameDB.Holds.getFromCache (h : gdb.Holds P) {hash : Nat} {state : GameState}
    (hget : gdb.getFromCache hash = some state) : P hash state := by
  unfold CGameDB.getFromCache at hget
  split at hget
  · next hc =>
    cases hget
    exact h.cache _ _ hc
  · exact h.db _ _ hget

theorem OrdMap.All.foldl_insert {ν : Type} {Q : Nat → ν → Prop} :
    ∀ (l : List (Nat × ν)) {m : OrdMap Nat ν}, m.All Q → (∀ e ∈ l, Q e.1 e.2) →
      (l.foldl (fun m e => m.insert e.1 e.2) m).All Q
  | [], _, hm, _ => hm
  | e :: l, _, hm, hl =>
    OrdMap.All.foldl_insert l (hm.insert (hl e List.mem_cons_self))
      fun e' he' => hl e' (List.mem_cons_of_mem e he')

theorem OrdMap.All.foldl_erase {ν : Type} {Q : Nat → ν → Prop} :
    ∀ (l : List Nat) {m : OrdMap Nat ν}, m.All Q → (l.foldl OrdMap.erase m).All Q
  | [], _, hm => hm
  | k :: l, _, hm => OrdMap.All.foldl_erase l (hm.erase k)

/-- A flush moves states between memory and disk and drops some: it holds nothing new. -/
theorem CGameDB.Holds.flush (h : gdb.Holds P) (tip : Nat) (saveAll : Bool) :
    (gdb.flush index tip saveAll).Holds P := by
  refine ⟨h.cache.filter _, OrdMap.All.foldl_erase _ (OrdMap.All.foldl_insert _ h.db ?_)⟩
  -- what is written comes from the cache
  intro e he
  exact h.cache e.1 e.2 ((gdb.cache.mem_entries_iff e.1 e.2).mp (List.mem_of_mem_filter he))

theorem CGameDB.Holds.attemptFlush (h : gdb.Holds P) (tip : Nat) :
    (gdb.attemptFlush index tip).Holds P := by
  unfold CGameDB.attemptFlush
  split
  · exact h.flush tip false
  · exact h

theorem CGameDB.Holds.store (h : gdb.Holds P) (tip : Nat) {hash : Nat} {state : GameState}
    (hstate : P hash state) : (gdb.store index tip hash state).Holds P := by
  have h' : ({ gdb with cache := gdb.cache.insert hash state } : CGameDB).Holds P :=
    ⟨h.cache.insert hstate, h.db⟩
  exact h'.attemptFlush tip

/-- The assertion of `setKeepEverything` holds exactly when the call changes the flag; the flag
is then set, and switching it off attempts a flush. -/
theorem CGameDB.setKeepEverything_eq_ok_iff {tip : Nat} {keep : Bool} {gdb' : CGameDB} :
    gdb.setKeepEverything index tip keep = .ok gdb' ↔ keep ≠ gdb.keepEverything ∧
      gdb' = if !keep then { gdb with keepEverything := keep }.attemptFlush index tip
        else { gdb with keepEverything := keep } := by
  unfold CGameDB.setKeepEverything
  cases keep <;> cases gdb.keepEverything <;> simp [eq_comm]

theorem CGameDB.Holds.setKeepEverything (h : gdb.Holds P) {tip : Nat} {keep : Bool} {gdb' : CGameDB}
    (hset : gdb.setKeepEverything index tip keep = .ok gdb') : gdb'.Holds P := by
  have h' : ({ gdb with keepEverything := keep } : CGameDB).Holds P := ⟨h.cache, h.db⟩
  obtain ⟨-, rfl⟩ := CGameDB.setKeepEverything_eq_ok_iff.mp hset
  split
  · exact h'.attemptFlush tip
  · exact h'

end Holds

/-! ## The size of the cache -/

section Size

variable {index : BlockMap}

/-- The walk back from a block of height `h` above `minHeight` collects at most `h - minHeight`
blocks: heights drop by one from block to parent. -/
theorem length_keepInMemoryLoop (minHeight : Int) :
    ∀ (fuel : Nat) {hash : Nat} {i : CBlockIndex}, index.find hash = some i →
      (keepInMemoryLoop index minHeight fuel (some hash)).length ≤ (i.nHeight - minHeight).toNat
  | 0, _, _, _ => Nat.zero_le _
  | fuel + 1, hash, i, hi => by
    unfold keepInMemoryLoop
    rw [hi]
    dsimp only
    split
    · next hgt =>
      rw [List.length_cons]
      cases hp : i.pprev with
      | none => cases fuel <;> simp [keepInMemoryLoop] <;> omega
      | some p =>
        obtain ⟨ip, hip, hh⟩ := index.parent hi hp
        have := length_keepInMemoryLoop minHeight fuel hip
        omega
    · exact Nat.zero_le _

/-- At most `MIN_IN_MEMORY` states stay in memory. -/
theorem length_keepInMemory (index : BlockMap) (tip : Nat) :
    (keepInMemory index tip).length ≤ MIN_IN_MEMORY.toNat := by
  unfold keepInMemory
  split
  · exact Nat.zero_le _
  · next i hi =>
    have := length_keepInMemoryLoop (i.nHeight - MIN_IN_MEMORY) (i.nHeight.toNat + 1) hi
    rw [show i.nHeight - (i.nHeight - MIN_IN_MEMORY) = MIN_IN_MEMORY by omega] at this
    exact this

/-- A map whose keys all lie in a list has no more entries than the list. -/
theorem OrdMap.size_le_of_keys_subset {ν : Type} (m : OrdMap Nat ν) {l : List Nat}
    (h : ∀ k, m.contains k = true → k ∈ l) : m.size ≤ l.length := by
  have hsub : m.keys ⊆ l := fun k hk => h k ((m.mem_keys k).mp hk)
  have hlen : m.keys.length = m.size := by simp [OrdMap.keys, OrdMap.size]
  rw [← hlen]
  exact (m.nodup_keys.subperm hsub).length_le

/-- A flush that does not save all leaves only the states to keep in memory. -/
theorem size_flush_false (gdb : CGameDB) (tip : Nat) :
    (gdb.flush index tip false).cache.size ≤ MIN_IN_MEMORY.toNat := by
  refine le_trans (OrdMap.size_le_of_keys_subset _ fun k hk => ?_) (length_keepInMemory index tip)
  -- a key left in memory is one to keep there
  simp only [CGameDB.flush, OrdMap.contains, OrdMap.find?_filter, Option.isSome_filter,
    Bool.false_or, Bool.not_not] at hk
  cases hc : gdb.cache.find? k with
  | none => simp [hc] at hk
  | some v => simpa [hc] using hk

/-- With flushing on, the cache is at most `MAX_IN_MEMORY` after an attempt to flush, whatever
it was before. -/
theorem size_attemptFlush_le (gdb : CGameDB) (tip : Nat) (hkeep : gdb.keepEverything = false) :
    (gdb.attemptFlush index tip).cache.size ≤ MAX_IN_MEMORY := by
  unfold CGameDB.attemptFlush
  split
  · exact le_trans (size_flush_false gdb tip) (by simp [MIN_IN_MEMORY, MAX_IN_MEMORY])
  · next hnot =>
    simp only [hkeep, Bool.not_false, Bool.true_and, decide_eq_true_eq, not_lt] at hnot
    exact hnot

theorem keepEverything_store (gdb : CGameDB) (tip hash : Nat) (state : GameState) :
    (gdb.store index tip hash state).keepEverything = gdb.keepEverything := by
  unfold CGameDB.store CGameDB.attemptFlush
  split <;> rfl

theorem size_store_le (gdb : CGameDB) (tip hash : Nat) (state : GameState)
    (hkeep : gdb.keepEverything = false) :
    (gdb.store index tip hash state).cache.size ≤ MAX_IN_MEMORY :=
  size_attemptFlush_le { gdb with cache := gdb.cache.insert hash state } tip hkeep

end Size

/-! ## `get` answers with the state of the block -/

section Get

variable {index : BlockMap} {param : Params} {β : Type} {ReadBlockFromDisk : Nat → Option β}
  {PerformBlockStep : β → GameState → Option GameState}

theorem InputOf.unique {i : CBlockIndex} {stateIn : GameState}
    (h : InputOf index param ReadBlockFromDisk PerformBlockStep i stateIn) {stateIn' : GameState}
    (h' : InputOf index param ReadBlockFromDisk PerformBlockStep i stateIn') : stateIn' = stateIn := by
  unfold InputOf at h h'
  split at h
  · next hp =>
    rw [hp] at h'
    exact h'.trans h.symm
  · next p hp =>
    rw [hp] at h'
    exact h.unique h'

/-- Given the state a block is stepped from, its state is the step. -/
theorem stateOf_iff_of_input {hash : Nat} {i : CBlockIndex} {stateIn state : GameState}
    (hi : index.find hash = some i)
    (hin : InputOf index param ReadBlockFromDisk PerformBlockStep i stateIn) :
    StateOf index param ReadBlockFromDisk PerformBlockStep hash state ↔
      blockStep ReadBlockFromDisk PerformBlockStep hash stateIn = some state := by
  rw [stateOf_iff]
  constructor
  · rintro ⟨i', stateIn', hi', hin', hs⟩
    rw [hi] at hi'
    cases hi'
    rwa [hin.unique hin'] at hs
  · exact fun hs => ⟨i, stateIn, hi, hin, hs⟩

/-- A block with a state has a parent with a state. -/
theorem StateOf.exists_parent {hash p : Nat} {i : CBlockIndex} {state : GameState}
    (h : StateOf index param ReadBlockFromDisk PerformBlockStep hash state)
    (hi : index.find hash = some i) (hp : i.pprev = some p) :
    ∃ stateIn, StateOf index param ReadBlockFromDisk PerformBlockStep p stateIn := by
  obtain ⟨i', stateIn, hi', hin, _⟩ := stateOf_iff.mp h
  rw [hi] at hi'
  cases hi'
  unfold InputOf at hin
  rw [hp] at hin
  exact ⟨stateIn, hin⟩

/-- A run of blocks of the index, each the parent of the next. -/
def IsPath (index : BlockMap) (l : List (Nat × CBlockIndex)) : Prop :=
  (∀ e ∈ l, index.find e.1 = some e.2) ∧ l.IsChain (fun a b => b.2.pprev = some a.1)

/-- Every block of a path up to a block with a state has a state. -/
theorem IsPath.stateOf_head :
    ∀ {e : Nat × CBlockIndex} {rest : List (Nat × CBlockIndex)} {last : Nat × CBlockIndex}
      {state : GameState}, IsPath index (e :: rest) → (e :: rest).getLast? = some last →
      StateOf index param ReadBlockFromDisk PerformBlockStep last.1 state →
      ∃ state₀, StateOf index param ReadBlockFromDisk PerformBlockStep e.1 state₀
  | e, [], last, state, _, hlast, h => by
    obtain rfl : e = last := by simpa using hlast
    exact ⟨state, h⟩
  | e, e' :: rest, last, state, hpath, hlast, h => by
    have hpath' : IsPath index (e' :: rest) :=
      ⟨fun x hx => hpath.1 x (List.mem_cons_of_mem e hx), (List.isChain_cons_cons.mp hpath.2).2⟩
    obtain ⟨state', h'⟩ := IsPath.stateOf_head hpath' (by rwa [List.getLast?_cons_cons] at hlast) h
    exact h'.exists_parent (hpath.1 e' (by simp)) (List.isChain_cons_cons.mp hpath.2).1

theorem integrate_cons_ok {stateIn state : GameState} {hash : Nat} {i : CBlockIndex}
    {rest : List (Nat × CBlockIndex)} :
    integrate ReadBlockFromDisk PerformBlockStep stateIn ((hash, i) :: rest) = .ok state ↔
      ∃ state', blockStep ReadBlockFromDisk PerformBlockStep hash stateIn = some state' ∧
        integrate ReadBlockFromDisk PerformBlockStep state' rest = .ok state := by
  conv_lhs => rw [integrate]
  unfold blockStep
  cases ReadBlockFromDisk hash with
  | none => simp
  | some block =>
    cases hs : PerformBlockStep block stateIn with
    | none => simp [hs]
    | some state' => simp [hs]

/-- The forward loop along a path computes the state of its last block, from the state its first
block is stepped from, and fails only where that block has no state. -/
theorem integrate_path :
    ∀ {e : Nat × CBlockIndex} {rest : List (Nat × CBlockIndex)} {last : Nat × CBlockIndex}
      {stateIn state : GameState}, IsPath index (e :: rest) → (e :: rest).getLast? = some last →
      InputOf index param ReadBlockFromDisk PerformBlockStep e.2 stateIn →
      (integrate ReadBlockFromDisk PerformBlockStep stateIn (e :: rest) = .ok state ↔
        StateOf index param ReadBlockFromDisk PerformBlockStep last.1 state)
  | e, [], last, stateIn, state, hpath, hlast, hin => by
    obtain rfl : e = last := by simpa using hlast
    rw [stateOf_iff_of_input (hpath.1 e (by simp)) hin, integrate_cons_ok]
    simp [integrate]
  | e, e' :: rest, last, stateIn, state, hpath, hlast, hin => by
    have hpath' : IsPath index (e' :: rest) :=
      ⟨fun x hx => hpath.1 x (List.mem_cons_of_mem e hx), (List.isChain_cons_cons.mp hpath.2).2⟩
    have hlast' : (e' :: rest).getLast? = some last := by rwa [List.getLast?_cons_cons] at hlast
    have hlink : e'.2.pprev = some e.1 := (List.isChain_cons_cons.mp hpath.2).1
    -- the state of the first block is what the next one is stepped from
    have hnext : ∀ state₀, blockStep ReadBlockFromDisk PerformBlockStep e.1 stateIn = some state₀ →
        InputOf index param ReadBlockFromDisk PerformBlockStep e'.2 state₀ := by
      intro state₀ hs
      unfold InputOf
      rw [hlink]
      exact (stateOf_iff_of_input (hpath.1 e (by simp)) hin).mpr hs
    rw [integrate_cons_ok]
    constructor
    · rintro ⟨state₀, hs, hrest⟩
      exact (integrate_path hpath' hlast' (hnext state₀ hs)).mp hrest
    · intro h
      obtain ⟨state₀, h₀⟩ := IsPath.stateOf_head hpath hlast h
      have hs := (stateOf_iff_of_input (hpath.1 e (by simp)) hin).mp h₀
      exact ⟨state₀, hs, (integrate_path hpath' hlast' (hnext state₀ hs)).mpr h⟩

/-- The walk back of `get` ends on a path down to the block it started from, and returns the
state its first block is stepped from. -/
theorem collectNeeded_spec (gdb : CGameDB)
    (hsound : gdb.Holds (StateOf index param ReadBlockFromDisk PerformBlockStep))
    (back : Nat × CBlockIndex) (hback : index.find back.1 = some back.2)
    (newer : List (Nat × CBlockIndex)) (hpath : IsPath index (back :: newer)) :
    ∃ first rest, (collectNeeded index param gdb back hback newer).2 = first :: rest ∧
      IsPath index (first :: rest) ∧ (first :: rest).getLast? = (back :: newer).getLast? ∧
      InputOf index param ReadBlockFromDisk PerformBlockStep first.2
        (collectNeeded index param gdb back hback newer).1 := by
  fun_induction collectNeeded index param gdb back hback newer with
  | case1 back hback newer hp =>
    -- the genesis block is stepped from the state before the chain
    refine ⟨back, newer, rfl, hpath, rfl, ?_⟩
    unfold InputOf
    rw [hp]
  | case2 back hback newer p hp state hcache =>
    -- the parent's state is held
    refine ⟨back, newer, rfl, hpath, rfl, ?_⟩
    unfold InputOf
    rw [hp]
    exact hsound.getFromCache hcache
  | case3 back hback newer p hp hcache ip hip ih =>
    obtain ⟨first, rest, h, hpath', hlast, hin⟩ := ih ⟨fun e he => by
        rcases List.mem_cons.mp he with rfl | he
        · exact hip
        · exact hpath.1 e he,
      List.isChain_cons_cons.mpr ⟨hp, hpath.2⟩⟩
    exact ⟨first, rest, h, hpath', by rw [hlast, List.getLast?_cons_cons], hin⟩

/-- Over a database whose states are right, `get` answers with the state of the block exactly
when the block has one, and leaves a database whose states are right. -/
theorem CGameDB.Holds.get (gdb : CGameDB)
    (hsound : gdb.Holds (StateOf index param ReadBlockFromDisk PerformBlockStep))
    (tip hash : Nat) (state : GameState) :
    ((∃ gdb', gdb.get index param ReadBlockFromDisk PerformBlockStep tip hash = .ok (state, gdb')) ↔
      StateOf index param ReadBlockFromDisk PerformBlockStep hash state) ∧
    ∀ state' gdb', gdb.get index param ReadBlockFromDisk PerformBlockStep tip hash = .ok (state', gdb') →
      gdb'.Holds (StateOf index param ReadBlockFromDisk PerformBlockStep) := by
  unfold CGameDB.get
  split
  · -- the state is held
    next held hheld =>
    have hstate := hsound.getFromCache hheld
    refine ⟨⟨fun ⟨_, h⟩ => ?_, fun h => ⟨gdb, ?_⟩⟩, fun _ _ h => ?_⟩
    · cases h
      exact hstate
    · rw [h.unique hstate]
    · cases h
      exact hsound
  · split
    · -- a block outside the index has no state
      next hnone =>
      refine ⟨⟨fun ⟨_, h⟩ => (by cases h), fun h => ?_⟩, fun _ _ h => by cases h⟩
      have := h.find_isSome
      rw [hnone] at this
      cases this
    · next i hi =>
      obtain ⟨first, rest, hneeded, hpath, hlast, hin⟩ := collectNeeded_spec gdb hsound (hash, i) hi []
        ⟨by simpa using hi, List.isChain_singleton _⟩
      rw [List.getLast?_singleton] at hlast
      generalize hc : collectNeeded index param gdb (hash, i) hi [] = c at hneeded hin
      obtain ⟨stateIn, needed⟩ := c
      dsimp only at hneeded hin ⊢
      subst hneeded
      have hrun : ∀ state, integrate ReadBlockFromDisk PerformBlockStep stateIn (first :: rest) =
          .ok state ↔ StateOf index param ReadBlockFromDisk PerformBlockStep hash state :=
        fun _ => integrate_path hpath hlast hin
      split
      · next e he =>
        refine ⟨⟨fun ⟨_, h⟩ => (by cases h), fun h => ?_⟩, fun _ _ h => by cases h⟩
        rw [(hrun state).mpr h] at he
        cases he
      · next computed hcomputed =>
        have hstate := (hrun computed).mp hcomputed
        refine ⟨⟨fun ⟨_, h⟩ => ?_, fun h => ⟨gdb.store index tip hash computed, ?_⟩⟩,
          fun _ _ h => ?_⟩
        · cases h
          exact hstate
        · rw [h.unique hstate]
        · cases h
          exact hsound.store tip hstate

end Get

/-! ## The database over whole runs -/

/-- What the node does with the database: ask for a state (`get`), store the state it has just
computed while connecting a block (`store`), flush (the destructor saves all), and switch
flushing off and on (`setKeepEverything`). Each takes the tip of the active chain, which a flush
reads. -/
inductive GameDBEvent
  | get (tip hash : Nat)
  | store (tip hash : Nat) (state : GameState)
  | flush (tip : Nat) (saveAll : Bool)
  | setKeepEverything (tip : Nat) (keep : Bool)

/-- A successful `get` leaves the database as it was when it held the state, and else stores the
state it computed. -/
theorem CGameDB.get_eq_ok {index : BlockMap} {param : Params} {β : Type}
    {ReadBlockFromDisk : Nat → Option β} {PerformBlockStep : β → GameState → Option GameState}
    {gdb gdb' : CGameDB} {tip hash : Nat} {state : GameState}
    (h : gdb.get index param ReadBlockFromDisk PerformBlockStep tip hash = .ok (state, gdb')) :
    (gdb.getFromCache hash = some state ∧ gdb' = gdb) ∨
      (gdb.getFromCache hash = none ∧ gdb' = gdb.store index tip hash state) := by
  unfold CGameDB.get at h
  split at h
  · next held hheld =>
    cases h
    exact Or.inl ⟨hheld, rfl⟩
  · next hnone =>
    split at h
    · cases h
    · generalize collectNeeded index param gdb _ _ [] = c at h
      obtain ⟨stateIn, needed⟩ := c
      dsimp only at h
      split at h
      · cases h
      · cases h
        exact Or.inr ⟨hnone, rfl⟩

section System

variable (index : BlockMap) (param : Params) {β : Type} (ReadBlockFromDisk : Nat → Option β)
  (PerformBlockStep : β → GameState → Option GameState)

/-- The database as a system. It starts with an empty cache over what earlier runs left on disk,
which were states of their blocks. `ConnectBlock` stores the state its game step computed from the
state of the parent, that is the state of the block; a failed `get` changes nothing; a call of
`setKeepEverything` whose assertion fails aborts the node and has no next state. -/
def gameDBSystem : TransitionSystem CGameDB GameDBEvent where
  init gdb := gdb.keepEverything = false ∧ gdb.cache = .empty ∧
    gdb.db.All (StateOf index param ReadBlockFromDisk PerformBlockStep)
  step gdb e gdb' :=
    match e with
    | .get tip hash =>
      match gdb.get index param ReadBlockFromDisk PerformBlockStep tip hash with
      | .ok (_, g) => gdb' = g
      | .error _ => gdb' = gdb
    | .store tip hash state =>
      StateOf index param ReadBlockFromDisk PerformBlockStep hash state ∧
        gdb' = gdb.store index tip hash state
    | .flush tip saveAll => gdb' = gdb.flush index tip saveAll
    | .setKeepEverything tip keep => gdb.setKeepEverything index tip keep = .ok gdb'

/-- What holds of the database along every run: every state it holds is the state of its block,
and while flushing is on the cache holds at most `MAX_IN_MEMORY` states. -/
structure CGameDB.Sound (gdb : CGameDB) : Prop where
  holds : gdb.Holds (StateOf index param ReadBlockFromDisk PerformBlockStep)
  size_le : gdb.keepEverything = false → gdb.cache.size ≤ MAX_IN_MEMORY

variable {index param ReadBlockFromDisk PerformBlockStep}

/-- A `get` that answers steps the database to the one it returns. -/
theorem gameDBSystem_step_get {gdb g : CGameDB} {tip hash : Nat} {state : GameState}
    (h : gdb.get index param ReadBlockFromDisk PerformBlockStep tip hash = .ok (state, g)) :
    (gameDBSystem index param ReadBlockFromDisk PerformBlockStep).step gdb (.get tip hash) g := by
  simp only [gameDBSystem, h]

theorem CGameDB.Sound.store {gdb : CGameDB}
    (h : gdb.Sound index param ReadBlockFromDisk PerformBlockStep) (tip hash : Nat)
    {state : GameState} (hstate : StateOf index param ReadBlockFromDisk PerformBlockStep hash state) :
    (gdb.store index tip hash state).Sound index param ReadBlockFromDisk PerformBlockStep :=
  ⟨h.holds.store tip hstate, fun hkeep =>
    size_store_le gdb tip hash state (by rwa [keepEverything_store] at hkeep)⟩

/-- The step lemma of the database: every operation keeps it sound. -/
theorem CGameDB.Sound.step {gdb gdb' : CGameDB} {e : GameDBEvent}
    (h : gdb.Sound index param ReadBlockFromDisk PerformBlockStep)
    (hstep : (gameDBSystem index param ReadBlockFromDisk PerformBlockStep).step gdb e gdb') :
    gdb'.Sound index param ReadBlockFromDisk PerformBlockStep := by
  cases e with
  | get tip hash =>
    simp only [gameDBSystem] at hstep
    split at hstep
    · next state g hget =>
      subst hstep
      -- a successful `get` stores the state it computed, or changes nothing
      rcases CGameDB.get_eq_ok hget with ⟨-, rfl⟩ | ⟨-, rfl⟩
      · exact h
      · exact h.store tip hash ((h.holds.get gdb tip hash state).1.mp ⟨_, hget⟩)
    · subst hstep
      exact h
  | store tip hash state =>
    obtain ⟨hstate, rfl⟩ := hstep
    exact h.store tip hash hstate
  | flush tip saveAll =>
    subst hstep
    exact ⟨h.holds.flush tip saveAll, fun hkeep =>
      le_trans (OrdMap.size_filter_le _ _) (h.size_le hkeep)⟩
  | setKeepEverything tip keep =>
    refine ⟨h.holds.setKeepEverything hstep, fun hkeep => ?_⟩
    obtain ⟨-, rfl⟩ := CGameDB.setKeepEverything_eq_ok_iff.mp hstep
    -- switching flushing on leaves the flag on; switching it off attempts a flush
    cases keep with
    | false => exact size_attemptFlush_le _ tip rfl
    | true => simp at hkeep

theorem gameDBSystem_invariant :
    (gameDBSystem index param ReadBlockFromDisk PerformBlockStep).Invariant
      (CGameDB.Sound index param ReadBlockFromDisk PerformBlockStep) where
  init gdb h := by
    obtain ⟨_, hcache, hdb⟩ := h
    refine ⟨⟨?_, hdb⟩, fun _ => ?_⟩
    · rw [hcache]
      exact OrdMap.all_empty _
    · rw [hcache]
      exact Nat.zero_le _
  step _ _ _ h hstep := h.step hstep

/-- Along every run of the database, every state it holds, in memory or on disk, is the state of
its block; every state on disk is of a block of the index, so the assertion of the pruning loop
holds; and while flushing is on, the cache holds at most `MAX_IN_MEMORY` states. -/
theorem gameDBSystem_sound {gdb : CGameDB}
    (h : (gameDBSystem index param ReadBlockFromDisk PerformBlockStep).Reachable gdb) :
    gdb.Holds (StateOf index param ReadBlockFromDisk PerformBlockStep) ∧
      (∀ hash state, gdb.db.find? hash = some state → (index.find hash).isSome) ∧
      (gdb.keepEverything = false → gdb.cache.size ≤ MAX_IN_MEMORY) := by
  have hs := TransitionSystem.Invariant.reachable _ gameDBSystem_invariant h
  exact ⟨hs.holds, fun hash state hdb => (hs.holds.db hash state hdb).find_isSome, hs.size_le⟩

/-- Whatever gets, stores, flushes and switches came before, `get` answers with the state of the
block exactly when the block has one: the database is a transparent memo table of the game's
states. -/
theorem gameDBSystem_get {gdb : CGameDB}
    (h : (gameDBSystem index param ReadBlockFromDisk PerformBlockStep).Reachable gdb)
    (tip hash : Nat) (state : GameState) :
    (∃ gdb', gdb.get index param ReadBlockFromDisk PerformBlockStep tip hash = .ok (state, gdb')) ↔
      StateOf index param ReadBlockFromDisk PerformBlockStep hash state :=
  ((TransitionSystem.Invariant.reachable _ gameDBSystem_invariant h).holds.get gdb tip hash state).1

end System

/-! ## A chain of three blocks -/

/-- The block index of a chain of `n` blocks under the hashes `1` to `n`, each the parent of the
next. -/
def chainIndex (n : Nat) : BlockMap where
  find hash := if 1 ≤ hash ∧ hash ≤ n then
    some ⟨(hash : Int) - 1, if hash = 1 then none else some (hash - 1)⟩ else none
  parent := by
    intro hash i p hi hp
    split at hi
    · next hin =>
      cases hi
      split at hp
      · cases hp
      · next hne =>
        cases hp
        refine ⟨_, if_pos ⟨by omega, by omega⟩, ?_⟩
        dsimp only
        omega
    · cases hi
  genesis := by
    intro hash i hi hp
    split at hi
    · next hin =>
      cases hi
      split at hp
      · next h1 =>
        subst h1
        rfl
      · cases hp
    · cases hi
  height_nonneg := by
    intro hash i hi
    split at hi
    · next hin =>
      cases hi
      dsimp only
      omega
    · cases hi

/-- The blocks of the chain, read as their hash and their moves: the first spawns a player. -/
def chainBlock (hash : Nat) : Option (Nat × List Move) :=
  some (hash, if hash = 1 then [spawnMove "a" 0] else [])

/-- The game step of a block on the flat map. -/
def flatBlockStep (block : Nat × List Move) (stateIn : GameState) : Option GameState :=
  (PerformStep World.flat 10 stateIn (StepData.init stateIn block.1 block.2)).toOption.map Prod.fst

/-- The main-net game runs the three blocks of the chain, and what it computes are the states of
the blocks. -/
theorem chain_states : ∃ st₁ st₂ st₃,
    blockStep chainBlock flatBlockStep 1 (GameState.init MainNetParams) = some st₁ ∧
    blockStep chainBlock flatBlockStep 2 st₁ = some st₂ ∧
    blockStep chainBlock flatBlockStep 3 st₂ = some st₃ ∧
    StateOf (chainIndex 3) MainNetParams chainBlock flatBlockStep 1 st₁ ∧
    StateOf (chainIndex 3) MainNetParams chainBlock flatBlockStep 2 st₂ ∧
    StateOf (chainIndex 3) MainNetParams chainBlock flatBlockStep 3 st₃ := by
  have hrun : (blockStep chainBlock flatBlockStep 1 (GameState.init MainNetParams)).any (fun st₁ =>
      (blockStep chainBlock flatBlockStep 2 st₁).any fun st₂ =>
        (blockStep chainBlock flatBlockStep 3 st₂).isSome) = true := by decide +kernel
  obtain ⟨st₁, h₁, hrest⟩ := (Option.any_eq_true _ _).mp hrun
  obtain ⟨st₂, h₂, hrest⟩ := (Option.any_eq_true _ _).mp hrest
  obtain ⟨st₃, h₃⟩ := Option.isSome_iff_exists.mp hrest
  -- each block is stepped from the state of its parent
  have s₁ : StateOf (chainIndex 3) MainNetParams chainBlock flatBlockStep 1 st₁ :=
    StateOf.genesis (i := ⟨0, none⟩) rfl rfl h₁
  have s₂ := StateOf.child (i := ⟨1, some 1⟩) rfl rfl s₁ h₂
  have s₃ := StateOf.child (i := ⟨2, some 2⟩) rfl rfl s₂ h₃
  exact ⟨st₁, st₂, st₃, h₁, h₂, h₃, s₁, s₂, s₃⟩

/-- The database after the state of the genesis block has been stored and everything flushed to
disk. -/
theorem reachable_flushed {st₁ : GameState}
    (h₁ : StateOf (chainIndex 3) MainNetParams chainBlock flatBlockStep 1 st₁) :
    (gameDBSystem (chainIndex 3) MainNetParams chainBlock flatBlockStep).Reachable
      (((⟨false, .empty, .empty⟩ : CGameDB).store (chainIndex 3) 1 1 st₁).flush (chainIndex 3) 1 true) :=
  TransitionSystem.Reachable.step (e := .flush 1 true)
    (TransitionSystem.Reachable.step (e := .store 1 1 st₁)
      (TransitionSystem.Reachable.init ⟨rfl, rfl, OrdMap.all_empty _⟩) ⟨h₁, rfl⟩) rfl

/-- Over the chain, with the genesis block's state on disk and nothing in memory, `get` of the third
block walks back to the genesis block and runs the game of the second and third blocks: it answers
with the state of the third block. -/
theorem gameDBSystem_get_recompute : ∃ st₁ st₂ st₃,
    blockStep chainBlock flatBlockStep 1 (GameState.init MainNetParams) = some st₁ ∧
    blockStep chainBlock flatBlockStep 2 st₁ = some st₂ ∧
    blockStep chainBlock flatBlockStep 3 st₂ = some st₃ ∧
    let gdb : CGameDB :=
      ((⟨false, .empty, .empty⟩ : CGameDB).store (chainIndex 3) 1 1 st₁).flush (chainIndex 3) 1 true
    (gameDBSystem (chainIndex 3) MainNetParams chainBlock flatBlockStep).Reachable gdb ∧
      gdb.getFromCache 3 = none ∧ gdb.db.find? 1 = some st₁ ∧
      StateOf (chainIndex 3) MainNetParams chainBlock flatBlockStep 3 st₃ ∧
      ((∃ gdb', gdb.get (chainIndex 3) MainNetParams chainBlock flatBlockStep 1 3 = .ok (st₃, gdb')) ↔
        StateOf (chainIndex 3) MainNetParams chainBlock flatBlockStep 3 st₃) := by
  obtain ⟨st₁, st₂, st₃, h₁, h₂, h₃, s₁, -, s₃⟩ := chain_states
  have hr := reachable_flushed s₁
  exact ⟨st₁, st₂, st₃, h₁, h₂, h₃, hr, rfl, rfl, s₃, gameDBSystem_get hr 1 3 st₃⟩

/-- A run over the chain: store the genesis block's state, flush everything to disk, get the third
block's state (recomputed and stored), switch flushing off as the level-4 check of `VerifyDB` does,
store the second block's state and switch flushing back on. The database then holds the three
states, one on disk and two in memory, and they are the states of their blocks. -/
theorem gameDBSystem_sound_run : ∃ st₁ st₂ st₃,
    blockStep chainBlock flatBlockStep 1 (GameState.init MainNetParams) = some st₁ ∧
    blockStep chainBlock flatBlockStep 2 st₁ = some st₂ ∧
    blockStep chainBlock flatBlockStep 3 st₂ = some st₃ ∧
    let gdb₂ : CGameDB :=
      ((⟨false, .empty, .empty⟩ : CGameDB).store (chainIndex 3) 1 1 st₁).flush (chainIndex 3) 1 true
    let gdb : CGameDB :=
      ({ ({ gdb₂.store (chainIndex 3) 1 3 st₃ with keepEverything := true } : CGameDB).store
          (chainIndex 3) 3 2 st₂ with keepEverything := false } : CGameDB).attemptFlush (chainIndex 3) 3
    (gameDBSystem (chainIndex 3) MainNetParams chainBlock flatBlockStep).Reachable gdb ∧
      gdb.db.find? 1 = some st₁ ∧ gdb.cache.find? 3 = some st₃ ∧ gdb.cache.find? 2 = some st₂ ∧
      gdb.Holds (StateOf (chainIndex 3) MainNetParams chainBlock flatBlockStep) ∧
      (∀ hash state, gdb.db.find? hash = some state → ((chainIndex 3).find hash).isSome) ∧
      (gdb.keepEverything = false → gdb.cache.size ≤ MAX_IN_MEMORY) := by
  obtain ⟨st₁, st₂, st₃, h₁, h₂, h₃, s₁, s₂, s₃⟩ := chain_states
  refine ⟨st₁, st₂, st₃, h₁, h₂, h₃, ?_⟩
  intro gdb₂ gdb
  have hr₂ : (gameDBSystem (chainIndex 3) MainNetParams chainBlock flatBlockStep).Reachable gdb₂ :=
    reachable_flushed s₁
  -- the third block's state is not held, so `get` computes and stores it
  obtain ⟨g, hget⟩ := ((TransitionSystem.Invariant.reachable _ gameDBSystem_invariant hr₂).holds.get
    gdb₂ 1 3 st₃).1.mpr s₃
  have hg : g = gdb₂.store (chainIndex 3) 1 3 st₃ := by
    have hnone : gdb₂.getFromCache 3 = none := rfl
    rcases CGameDB.get_eq_ok hget with ⟨hheld, -⟩ | ⟨-, hg⟩
    · simp [hnone] at hheld
    · exact hg
  subst hg
  have hr₃ : (gameDBSystem (chainIndex 3) MainNetParams chainBlock flatBlockStep).Reachable
      (gdb₂.store (chainIndex 3) 1 3 st₃) :=
    TransitionSystem.Reachable.step (e := .get 1 3) hr₂ (gameDBSystem_step_get hget)
  have hr : (gameDBSystem (chainIndex 3) MainNetParams chainBlock flatBlockStep).Reachable gdb :=
    TransitionSystem.Reachable.step (e := .setKeepEverything 3 false)
      (TransitionSystem.Reachable.step (e := .store 3 2 st₂)
        (TransitionSystem.Reachable.step (e := .setKeepEverything 3 true) hr₃ rfl) ⟨s₂, rfl⟩) rfl
  exact ⟨hr, rfl, rfl, rfl, gameDBSystem_sound hr⟩

end Huntercore.GameDB
