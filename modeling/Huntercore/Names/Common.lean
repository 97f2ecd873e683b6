import Mathlib
import Huntercore.Lib.Control
import Huntercore.Lib.System
import Huntercore.Lib.Overlay

/-!
# The name database and its caches

The players of the game are the names of the name database. A `CCoinsViewCache` keeps the
changes it makes to the names of the view below it in a `CNameCache` (names/common.h): new or
updated names in `entries`, names removed by a rollback in `deleted`, and new history stacks in
`history`. A read through the cache (`CCoinsViewCache::GetName`) asks the cache, then the view
below. A flush hands the cache down: to a parent cache, which takes it over with
`CNameCache::apply` (from `CCoinsViewCache::BatchWrite`), or to the database, which gets the
writes `CNameCache::writeBatch` puts into a `CDBBatch` (from `CCoinsViewDB::BatchWrite`).

What a cache shows over the names `B` below it is `view`: its own entry where it has one,
nothing for a deleted name, `B` otherwise. The caches a view builds are those `set`, `remove`
and `setHistory` make from the empty cache (`Built`, the reachable states of `system`). They
keep their entries and their deleted names apart (`Built.disjoint`), and over such caches the
two ways of handing a cache down are right: the read through two layers is the read through the
parent after the flush (`apply_view`), and writing a cache to the database leaves there what it
showed (`WriteBatch_names`).

The three containers are ordered here by the byte order of names, where the source orders
`entries` by length first (`NameComparator`). Only the order of the loops over a container
depends on that, and each loop writes distinct names.
-/

namespace Huntercore

/-- `valtype`: the bytes of a name or a value. -/
abbrev valtype := List (Fin 256)

/-- `CScript`, as its bytes. -/
abbrev CScript := List (Fin 256)

/-- `COutPoint`: a transaction hash, a `uint256`, and an output index. -/
structure COutPoint where
  hash : Nat
  n : UInt32
  deriving DecidableEq, Repr

/-- `CNameData`: what the database holds for a name. -/
structure CNameData where
  value : valtype
  nHeight : UInt32
  prevout : COutPoint
  addr : CScript
  deriving DecidableEq, Repr

/-- `CNameHistory`: the stack of the data a name has had. -/
structure CNameHistory where
  data : List CNameData
  deriving DecidableEq, Repr

def CNameHistory.empty (h : CNameHistory) : Bool := h.data.isEmpty

structure CNameCache where
  entries : OrdMap valtype CNameData
  deleted : OrdSet valtype
  history : OrdMap valtype CNameHistory

/-- The name rows of the coins database: `DB_NAME` and `DB_NAME_HISTORY`. -/
structure NameDB where
  names : OrdMap valtype CNameData
  history : OrdMap valtype CNameHistory

/-- A write to the name rows, as `CDBBatch::Write` and `CDBBatch::Erase` record it. -/
inductive BatchOp
  | writeName (name : valtype) (data : CNameData)
  | eraseName (name : valtype)
  | writeHistory (name : valtype) (data : CNameHistory)
  | eraseHistory (name : valtype)

namespace NameDB

def applyOp (db : NameDB) : BatchOp → NameDB
  | .writeName name data => { db with names := db.names.insert name data }
  | .eraseName name => { db with names := db.names.erase name }
  | .writeHistory name data => { db with history := db.history.insert name data }
  | .eraseHistory name => { db with history := db.history.erase name }

/-- `CDBWrapper::WriteBatch`: the writes of the batch, in order. -/
def WriteBatch (db : NameDB) (batch : List BatchOp) : NameDB := batch.foldl applyOp db

end NameDB

namespace CNameCache

/-- A cache with no changes, as a `CCoinsViewCache` starts with and as `clear` leaves it. -/
def init : CNameCache := ⟨.empty, .empty, .empty⟩

def isDeleted (c : CNameCache) (name : valtype) : Bool := c.deleted.contains name

/-- `get` looks only at the entries, deleted names apart. -/
def get (c : CNameCache) (name : valtype) : Option CNameData := c.entries.find? name

/-- `set` takes away a deletion mark of the name and writes its entry. -/
def set (c : CNameCache) (name : valtype) (data : CNameData) : CNameCache :=
  { c with deleted := c.deleted.erase name, entries := c.entries.insert name data }

/-- `remove` takes away the name's entry and marks it deleted. -/
def remove (c : CNameCache) (name : valtype) : CNameCache :=
  { c with entries := c.entries.erase name, deleted := c.deleted.insert name }

/-- `CCoinsViewCache::GetName` of a view whose name cache is `c`, over the view below read by
`base`: a deleted name is not there, whatever the cache's entries hold. -/
def GetName (c : CNameCache) (base : valtype → Option CNameData) (name : valtype) :
    Option CNameData :=
  if c.isDeleted name then none
  else match c.get name with
    | some data => some data
    | none => base name

/-- The write of one history stack: an empty stack erases the row. -/
def historyOp (e : valtype × CNameHistory) : BatchOp :=
  if e.2.empty then .eraseHistory e.1 else .writeHistory e.1 e.2

section History

-- whether the node keeps name history (`-namehistory`)
variable (fNameHistory : Bool)

/-- `setHistory`, which asserts that the node keeps name history. -/
def setHistory (c : CNameCache) (name : valtype) (data : CNameHistory) : Option CNameCache :=
  if fNameHistory then some { c with history := c.history.insert name data } else none

/-- `apply`: the entries of `cache` are set on `c`, then its deleted names removed, then its
history stacks set. -/
def apply (c cache : CNameCache) : Option CNameCache :=
  let c := cache.entries.entries.foldl (fun c e => c.set e.1 e.2) c
  let c := cache.deleted.elems.foldl (fun c name => c.remove name) c
  cache.history.entries.foldlM (fun c e => c.setHistory fNameHistory e.1 e.2) c

/-- `writeBatch`: the entries written, the deleted names erased, and, after the assertion
that history is kept or there is none, each history stack written or erased. -/
def writeBatch (c : CNameCache) : Option (List BatchOp) :=
  let batch := c.entries.entries.map (fun e => BatchOp.writeName e.1 e.2) ++
    c.deleted.elems.map BatchOp.eraseName
  if fNameHistory || c.history.entries.isEmpty then
    some (batch ++ c.history.entries.map historyOp)
  else none

/-! ## The caches a view builds -/

/-- A change a view makes to its name cache: `CCoinsViewCache::SetName` ends in `set`, after a
`setHistory` where history is kept, and `DeleteName` in `remove`. -/
inductive CacheOp
  | set (name : valtype) (data : CNameData)
  | remove (name : valtype)
  | setHistory (name : valtype) (data : CNameHistory)

def perform (c : CNameCache) : CacheOp → Option CNameCache
  | .set name data => some (c.set name data)
  | .remove name => some (c.remove name)
  | .setHistory name data => c.setHistory fNameHistory name data

/-- A name cache changed one call at a time from the empty cache. -/
def system : TransitionSystem CNameCache CacheOp where
  init c := c = init
  step c op c' := c.perform fNameHistory op = some c'

/-- The caches built by a sequence of calls from the empty one. -/
def Built (c : CNameCache) : Prop := (system fNameHistory).Reachable c

end History

/-! ## What a cache shows -/

/-- What the names look like through `c` over the names `B` of the view below: the entries of
`c` over `B` with the deleted names taken out. -/
def view (c : CNameCache) (B : valtype → Option CNameData) : valtype → Option CNameData :=
  c.entries.overlay c.deleted B

/-- What the history rows hold once `c` is written over the rows `H`. -/
def historyView (c : CNameCache) (H : valtype → Option CNameHistory) (name : valtype) :
    Option CNameHistory :=
  match c.history.find? name with
  | some h => if h.empty then none else some h
  | none => H name

/-- No name is both an entry and deleted. -/
def Disjoint (c : CNameCache) : Prop :=
  ∀ name, c.deleted.contains name = true → c.entries.find? name = none

@[simp] theorem view_init (B : valtype → Option CNameData) : init.view B = B := by
  funext name
  exact OrdMap.overlay_of_not_contains (OrdMap.find?_empty name) (OrdSet.contains_empty name) B

theorem view_set (c : CNameCache) (name : valtype) (data : CNameData)
    (B : valtype → Option CNameData) :
    (c.set name data).view B = Function.update (c.view B) name (some data) :=
  OrdMap.overlay_insert c.entries c.deleted B name data

theorem view_remove (c : CNameCache) (name : valtype) (B : valtype → Option CNameData) :
    (c.remove name).view B = Function.update (c.view B) name none :=
  OrdMap.overlay_erase c.entries c.deleted B name

theorem view_eq_foldl {c : CNameCache} (h : c.Disjoint) (B : valtype → Option CNameData) :
    c.view B = c.deleted.elems.foldl (fun (g : valtype → Option CNameData) k =>
      Function.update g k none)
      (c.entries.entries.foldl (fun (g : valtype → Option CNameData) e =>
        Function.update g e.1 (some e.2)) B) :=
  OrdMap.overlay_eq_foldl_update c.entries c.deleted B h

theorem historyView_eq_foldl (c : CNameCache) (H : valtype → Option CNameHistory) :
    c.historyView H = c.history.entries.foldl (fun (g : valtype → Option CNameHistory) e =>
      Function.update g e.1 (if e.2.empty then none else some e.2)) H := by
  funext name
  cases hm : c.history.find? name with
  | some h =>
    rw [OrdMap.foldl_update_entries_of_find? _ _ _ hm]
    simp only [historyView, hm]
  | none =>
    rw [OrdMap.foldl_update_entries_of_find?_eq_none _ _ _ hm]
    simp only [historyView, hm]

/-- The read of `CCoinsViewCache::GetName` is what the cache shows, once no name is both an
entry and deleted; `GetName` looks at the deletions first and `view` at the entries. -/
theorem GetName_eq_view {c : CNameCache} (h : c.Disjoint) (B : valtype → Option CNameData) :
    c.GetName B = c.view B := by
  funext name
  cases hd : c.deleted.contains name
  · cases hm : c.entries.find? name with
    | some data =>
      rw [view, OrdMap.overlay_of_find? hm]
      simp [GetName, isDeleted, get, hd, hm]
    | none =>
      rw [view, OrdMap.overlay_of_not_contains hm hd]
      simp [GetName, isDeleted, get, hd, hm]
  · rw [view, OrdMap.overlay_of_contains (h name hd) hd]
    simp [GetName, isDeleted, hd]

/-! ## Disjointness over every run -/

theorem Disjoint.init : CNameCache.init.Disjoint := fun _ _ => OrdMap.find?_empty _

theorem Disjoint.set {c : CNameCache} (h : c.Disjoint) (name : valtype) (data : CNameData) :
    (c.set name data).Disjoint := by
  intro k hk
  simp only [CNameCache.set, OrdSet.contains_erase, Bool.and_eq_true, Bool.not_eq_true',
    decide_eq_false_iff_not] at hk
  exact (OrdMap.find?_insert_of_ne c.entries data (Ne.symm hk.1)).trans (h k hk.2)

theorem Disjoint.remove {c : CNameCache} (h : c.Disjoint) (name : valtype) :
    (c.remove name).Disjoint := by
  intro k hk
  by_cases hkn : k = name
  · subst hkn
    exact OrdMap.find?_erase_self c.entries k
  · simp only [CNameCache.remove, OrdSet.contains_insert, hkn] at hk
    exact (OrdMap.find?_erase_of_ne c.entries (Ne.symm hkn)).trans (h k hk)

section History

variable (fNameHistory : Bool)

theorem setHistory_eq_some {c c' : CNameCache} {name : valtype} {data : CNameHistory}
    (h : c.setHistory fNameHistory name data = some c') :
    fNameHistory = true ∧ c' = { c with history := c.history.insert name data } := by
  unfold setHistory at h
  split at h
  · next hf => exact ⟨hf, (Option.some.inj h).symm⟩
  · cases h

theorem view_of_setHistory {c c' : CNameCache} {name : valtype} {data : CNameHistory}
    (h : c.setHistory fNameHistory name data = some c') (B : valtype → Option CNameData) :
    c'.view B = c.view B := by
  rw [(setHistory_eq_some fNameHistory h).2]
  rfl

theorem Disjoint.perform {c c' : CNameCache} (h : c.Disjoint) :
    ∀ op, c.perform fNameHistory op = some c' → c'.Disjoint
  | .set name data, hop => by
    cases hop
    exact h.set name data
  | .remove name, hop => by
    cases hop
    exact h.remove name
  | .setHistory name data, hop => by
    rw [(setHistory_eq_some fNameHistory hop).2]
    exact h

theorem disjoint_invariant : (system fNameHistory).Invariant Disjoint where
  init c hc := by
    obtain rfl : c = init := hc
    exact Disjoint.init
  step _ op _ hc hstep := hc.perform fNameHistory op hstep

theorem Built.disjoint {c : CNameCache} (h : Built fNameHistory c) : c.Disjoint :=
  (disjoint_invariant fNameHistory).reachable _ h

/-- Without name history no call writes a history stack. -/
theorem history_invariant : (system false).Invariant fun c => c.history = .empty where
  init c hc := by
    obtain rfl : c = init := hc
    rfl
  step c op c' hc hstep := by
    cases op with
    | set name data =>
      cases hstep
      exact hc
    | remove name =>
      cases hstep
      exact hc
    | setHistory name data => exact absurd (setHistory_eq_some false hstep).1 Bool.false_ne_true

theorem Built.history_eq_empty {c : CNameCache} (h : Built false c) : c.history = .empty :=
  history_invariant.reachable _ h

theorem Built.init : Built fNameHistory CNameCache.init := TransitionSystem.Reachable.init rfl

theorem Built.set {c : CNameCache} (h : Built fNameHistory c) (name : valtype)
    (data : CNameData) : Built fNameHistory (c.set name data) :=
  TransitionSystem.Reachable.step h
    (show c.perform fNameHistory (.set name data) = some (c.set name data) from rfl)

theorem Built.remove {c : CNameCache} (h : Built fNameHistory c) (name : valtype) :
    Built fNameHistory (c.remove name) :=
  TransitionSystem.Reachable.step h
    (show c.perform fNameHistory (.remove name) = some (c.remove name) from rfl)

theorem Built.setHistory {c c' : CNameCache} (h : Built fNameHistory c) {name : valtype}
    {data : CNameHistory} (hs : c.setHistory fNameHistory name data = some c') :
    Built fNameHistory c' :=
  TransitionSystem.Reachable.step h
    (show c.perform fNameHistory (.setHistory name data) = some c' from hs)

/-- A flush into a built cache leaves a built cache: `apply` is a sequence of calls. -/
theorem Built.apply {c cache c' : CNameCache} (h : Built fNameHistory c)
    (happ : c.apply fNameHistory cache = some c') : Built fNameHistory c' := by
  unfold CNameCache.apply at happ
  dsimp only at happ
  -- the history loop, the removals and the writes are each a run of the system
  refine List.foldlM_option_invariant (Built fNameHistory) _
    (fun _ _ _ ha hstep => ha.setHistory fNameHistory hstep) _ _ _ ?_ happ
  refine List.foldl_invariant (Built fNameHistory) (fun c name => c.remove name)
    cache.deleted.elems (fun _ name _ ha => ha.remove fNameHistory name) _ ?_
  exact List.foldl_invariant (Built fNameHistory) (fun c (e : valtype × CNameData) => c.set e.1 e.2)
    cache.entries.entries (fun _ e _ ha => ha.set fNameHistory e.1 e.2) c h

/-! ## Flushing into a parent cache -/

theorem view_foldl_set (l : List (valtype × CNameData)) (c : CNameCache)
    (B : valtype → Option CNameData) :
    (l.foldl (fun c e => c.set e.1 e.2) c).view B =
      l.foldl (fun (g : valtype → Option CNameData) e => Function.update g e.1 (some e.2))
        (c.view B) :=
  (List.foldl_hom (fun c => c.view B) fun c e => (view_set c e.1 e.2 B).symm).symm

theorem view_foldl_remove (l : List valtype) (c : CNameCache) (B : valtype → Option CNameData) :
    (l.foldl (fun c name => c.remove name) c).view B =
      l.foldl (fun (g : valtype → Option CNameData) k => Function.update g k none) (c.view B) :=
  (List.foldl_hom (fun c => c.view B) fun c name => (view_remove c name B).symm).symm

/-- Flushing a cache whose entries and deletions are apart into its parent: what the parent
shows afterwards is what the two layers showed. -/
theorem apply_view {c cache c' : CNameCache} (hd : cache.Disjoint)
    (happ : c.apply fNameHistory cache = some c') (B : valtype → Option CNameData) :
    c'.view B = cache.view (c.view B) := by
  unfold CNameCache.apply at happ
  dsimp only at happ
  generalize hc₂ : List.foldl (fun c name => c.remove name)
    (List.foldl (fun c e => c.set e.1 e.2) c cache.entries.entries) cache.deleted.elems = c₂ at happ
  -- the history loop leaves the names alone
  have hhist : c'.view B = c₂.view B :=
    List.foldlM_option_invariant (fun a => a.view B = c₂.view B) _
      (fun a e a' ha hstep => (view_of_setHistory fNameHistory hstep B).trans ha) _ c₂ c' rfl happ
  rw [hhist, ← hc₂, view_foldl_remove, view_foldl_set, view_eq_foldl hd]

theorem apply_isSome (c : CNameCache) {cache : CNameCache} (h : Built fNameHistory cache) :
    ∃ c', c.apply fNameHistory cache = some c' := by
  -- each `setHistory` of the loop passes its assertion: history is kept, or there is none
  have hpass : ∀ (a : CNameCache) (e : valtype × CNameHistory), e ∈ cache.history.entries →
      a.setHistory fNameHistory e.1 e.2 = some { a with history := a.history.insert e.1 e.2 } := by
    intro a e he
    cases fNameHistory
    · rw [h.history_eq_empty] at he
      exact absurd he List.not_mem_nil
    · rfl
  exact ⟨_, List.foldlM_eq_some _ _ _ hpass _⟩

/-! ## Writing to the database -/

theorem writeBatch_isSome {c : CNameCache} (h : Built fNameHistory c) :
    ∃ batch, c.writeBatch fNameHistory = some batch := by
  unfold writeBatch
  cases fNameHistory
  · rw [h.history_eq_empty]
    exact ⟨_, rfl⟩
  · exact ⟨_, rfl⟩

theorem writeBatch_eq_some {c : CNameCache} {batch : List BatchOp}
    (hw : c.writeBatch fNameHistory = some batch) :
    batch = c.entries.entries.map (fun e => BatchOp.writeName e.1 e.2) ++
      c.deleted.elems.map BatchOp.eraseName ++ c.history.entries.map historyOp := by
  unfold writeBatch at hw
  split at hw
  · exact (Option.some.inj hw).symm
  · cases hw

end History

end CNameCache

namespace NameDB

theorem WriteBatch_append (db : NameDB) (b₁ b₂ : List BatchOp) :
    db.WriteBatch (b₁ ++ b₂) = (db.WriteBatch b₁).WriteBatch b₂ :=
  List.foldl_append

theorem find?_names_WriteBatch_writeName (db : NameDB) (l : List (valtype × CNameData)) :
    (db.WriteBatch (l.map fun e => BatchOp.writeName e.1 e.2)).names.find? =
      l.foldl (fun (g : valtype → Option CNameData) e => Function.update g e.1 (some e.2))
        db.names.find? := by
  rw [WriteBatch, List.foldl_map]
  exact (List.foldl_hom (fun db : NameDB => db.names.find?)
    fun (db : NameDB) (e : valtype × CNameData) =>
      (OrdMap.find?_insert_eq_update db.names e.1 e.2).symm).symm

theorem find?_names_WriteBatch_eraseName (db : NameDB) (l : List valtype) :
    (db.WriteBatch (l.map BatchOp.eraseName)).names.find? =
      l.foldl (fun (g : valtype → Option CNameData) k => Function.update g k none)
        db.names.find? := by
  rw [WriteBatch, List.foldl_map]
  exact (List.foldl_hom (fun db : NameDB => db.names.find?) fun (db : NameDB) (k : valtype) =>
    (OrdMap.find?_erase_eq_update db.names k).symm).symm

theorem find?_history_WriteBatch_historyOp (db : NameDB) (l : List (valtype × CNameHistory)) :
    (db.WriteBatch (l.map CNameCache.historyOp)).history.find? =
      l.foldl (fun (g : valtype → Option CNameHistory) e =>
        Function.update g e.1 (if e.2.empty then none else some e.2)) db.history.find? := by
  rw [WriteBatch, List.foldl_map]
  refine (List.foldl_hom (fun db : NameDB => db.history.find?)
    fun (db : NameDB) (e : valtype × CNameHistory) => ?_).symm
  -- an empty stack erases the row, any other is written
  unfold CNameCache.historyOp
  cases e.2.empty
  · exact (OrdMap.find?_insert_eq_update db.history e.1 e.2).symm
  · exact (OrdMap.find?_erase_eq_update db.history e.1).symm

/-- The history writes leave the name rows alone. -/
theorem names_WriteBatch_historyOp (db : NameDB) (l : List (valtype × CNameHistory)) :
    (db.WriteBatch (l.map CNameCache.historyOp)).names = db.names := by
  rw [WriteBatch, List.foldl_map]
  refine List.foldl_invariant (fun db' : NameDB => db'.names = db.names) _ l (fun db' e _ h => ?_) db rfl
  unfold CNameCache.historyOp
  split
  · exact h
  · exact h

/-- The name writes leave the history rows alone. -/
theorem history_WriteBatch_names (db : NameDB) (l₁ : List (valtype × CNameData))
    (l₂ : List valtype) :
    (db.WriteBatch (l₁.map (fun e => BatchOp.writeName e.1 e.2) ++ l₂.map BatchOp.eraseName)).history =
      db.history := by
  rw [WriteBatch_append, WriteBatch, WriteBatch, List.foldl_map, List.foldl_map]
  refine List.foldl_invariant (fun db' : NameDB => db'.history = db.history)
    (fun db' k => db'.applyOp (.eraseName k)) l₂ (fun db' _ _ h => h) _ ?_
  exact List.foldl_invariant (fun db' : NameDB => db'.history = db.history)
    (fun db' (e : valtype × CNameData) => db'.applyOp (.writeName e.1 e.2)) l₁
    (fun db' _ _ h => h) db rfl

end NameDB

namespace CNameCache

section History

variable (fNameHistory : Bool)

/-- Writing a cache whose entries and deletions are apart to the database leaves there what the
cache showed over the database. -/
theorem WriteBatch_names {c : CNameCache} {batch : List BatchOp} (hd : c.Disjoint)
    (hw : c.writeBatch fNameHistory = some batch) (db : NameDB) :
    (db.WriteBatch batch).names.find? = c.view db.names.find? := by
  rw [writeBatch_eq_some fNameHistory hw, NameDB.WriteBatch_append,
    NameDB.names_WriteBatch_historyOp, NameDB.WriteBatch_append,
    NameDB.find?_names_WriteBatch_eraseName, NameDB.find?_names_WriteBatch_writeName,
    view_eq_foldl hd]

/-- Writing a cache to the database writes its non-empty history stacks and erases the rows of
its empty ones. -/
theorem WriteBatch_history {c : CNameCache} {batch : List BatchOp}
    (hw : c.writeBatch fNameHistory = some batch) (db : NameDB) :
    (db.WriteBatch batch).history.find? = c.historyView db.history.find? := by
  rw [writeBatch_eq_some fNameHistory hw, NameDB.WriteBatch_append,
    NameDB.find?_history_WriteBatch_historyOp, NameDB.history_WriteBatch_names,
    historyView_eq_foldl]

theorem view_apply_writeBatch (B : valtype → Option CNameData) (c₁ c₂ : CNameCache)
    (h₁ : Built fNameHistory c₁) (h₂ : Built fNameHistory c₂) :
    c₁.Disjoint ∧ c₂.Disjoint ∧
    (∃ c₁', c₁.apply fNameHistory c₂ = some c₁' ∧ c₂.view (c₁.view B) = c₁'.view B) ∧
    ∀ db : NameDB, ∃ batch, c₁.writeBatch fNameHistory = some batch ∧
      (db.WriteBatch batch).names.find? = c₁.view db.names.find? ∧
      (db.WriteBatch batch).history.find? = c₁.historyView db.history.find? := by
  obtain ⟨c₁', happ⟩ := apply_isSome fNameHistory c₁ h₂
  refine ⟨h₁.disjoint, h₂.disjoint,
    ⟨c₁', happ, (apply_view fNameHistory h₂.disjoint happ B).symm⟩, fun db => ?_⟩
  obtain ⟨batch, hw⟩ := writeBatch_isSome fNameHistory h₁
  exact ⟨batch, hw, WriteBatch_names fNameHistory h₁.disjoint hw db,
    WriteBatch_history fNameHistory hw db⟩

end History

theorem view_apply_writeBatch_setThenRemove :
    let c₁ := init.set [0] ⟨[1], 5, ⟨0, 0⟩, []⟩
    let c₂ := init.remove [0]
    c₁.Disjoint ∧ c₂.Disjoint ∧
    (∃ c₁', c₁.apply false c₂ = some c₁' ∧
      c₂.view (c₁.view fun _ => none) = c₁'.view fun _ => none) ∧
    ∀ db : NameDB, ∃ batch, c₁.writeBatch false = some batch ∧
      (db.WriteBatch batch).names.find? = c₁.view db.names.find? ∧
      (db.WriteBatch batch).history.find? = c₁.historyView db.history.find? :=
  view_apply_writeBatch false (fun _ => none) _ _ ((Built.init false).set false [0] _)
    ((Built.init false).remove false [0])

end CNameCache

end Huntercore
