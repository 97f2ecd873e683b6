import Mathlib
import Huntercore.Lib.Merge
import Huntercore.Names.Common

/-!
# Iterating over the names of a cached view

`CCacheNameIterator` (names/common.cpp) lists the names of a view through a `CNameCache`, as
`name_scan` reads them: it walks the cache's entries and the iterator of the view below side by
side. `advanceBaseIterator` pulls the base's next entry, skipping the names the cache has deleted;
`next` gives the smaller of the two current names by `NameComparator` (length first, then the
bytes), and the cache's entry where both have one name, after moving the base past it.

The base here is the database's iterator `CDbNameIterator` (txdb.cpp): its `seek` goes to the
first row not below the name and its `next` reads the rows in order. The database's rows are
assumed sorted by `NameComparator`, which is what the comparator is for.

Over a state, what the base has still to give (`pending`: its buffered entry and its rows not
deleted) and the cache entries from `cacheIter` on are two sorted lists. One `next` gives the head
of their merge `Entries.mergeRight` and leaves the merge of what is left (`next_mergeRight`), so
the calls of `next` from a state yield the whole merge (`yields_mergeRight`). After a `seek` that
merge is the view of the cache over the database from the name on, in order and each name once
(`seek_yields_view`).
-/

namespace Huntercore

namespace CNameCache

/-- `NameComparator`: shorter names first, names of one length by their bytes. -/
def NameComparator (a b : valtype) : Bool :=
  if a.length ≠ b.length then decide (a.length < b.length) else decide (a < b)

/-- `NameComparator` as a relation. -/
def NameLt (a b : valtype) : Prop := NameComparator a b = true

instance : DecidableRel NameLt := fun a b => inferInstanceAs (Decidable (NameComparator a b = true))

/-- `NameComparator` is the order of the pairs (length, bytes). -/
theorem nameLt_iff (a b : valtype) : NameLt a b ↔ toLex (a.length, a) < toLex (b.length, b) := by
  unfold NameLt NameComparator
  rw [Prod.Lex.toLex_lt_toLex]
  by_cases h : a.length = b.length <;> simp [h]

instance : IsStrictTotalOrder valtype NameLt where
  irrefl a h := lt_irrefl _ ((nameLt_iff a a).mp h)
  trans a b c hab hbc :=
    (nameLt_iff a c).mpr (lt_trans ((nameLt_iff a b).mp hab) ((nameLt_iff b c).mp hbc))
  trichotomous a b hab hba := by
    rw [nameLt_iff, not_lt] at hab hba
    exact congrArg Prod.snd (toLex.injective (le_antisymm hba hab))

/-- The cache's entries in the order of `EntryMap`, a `std::map` keyed by `NameComparator`; the
model keeps `entries` in byte order. -/
def sortedEntries (c : CNameCache) : List (valtype × CNameData) :=
  c.entries.entries.mergeSort (fun a b => !NameComparator b.1 a.1)

theorem mem_sortedEntries (c : CNameCache) (e : valtype × CNameData) :
    e ∈ c.sortedEntries ↔ c.entries.find? e.1 = some e.2 := by
  rw [sortedEntries, (List.mergeSort_perm _ _).mem_iff]
  exact OrdMap.mem_entries_iff c.entries e.1 e.2

theorem nameComparator_iff (a b : valtype) : NameComparator a b = true ↔ NameLt a b := Iff.rfl

theorem not_nameComparator_iff (a b : valtype) : (!NameComparator a b) = true ↔ ¬ NameLt a b := by
  simp [NameLt]

theorem sortedBy_sortedEntries (c : CNameCache) : Entries.SortedBy NameLt c.sortedEntries := by
  -- `mergeSort` orders by "not above"; the keys are distinct, so that is "below"
  have hle := @List.pairwise_mergeSort _
    (fun a b : valtype × CNameData => !NameComparator b.1 a.1)
    (fun a b d hab hbd => (not_nameComparator_iff _ _).mpr (Entries.not_rel_trans
      ((not_nameComparator_iff _ _).mp hab) ((not_nameComparator_iff _ _).mp hbd)))
    (fun a b => by
      by_cases h : NameLt a.1 b.1
      · simp [(not_nameComparator_iff _ _).mpr (asymm_of NameLt h)]
      · simp [(not_nameComparator_iff _ _).mpr h])
    c.entries.entries
  have hne : c.sortedEntries.Pairwise (fun a b => a.1 ≠ b.1) :=
    ((List.mergeSort_perm _ _).pairwise_iff (fun h => Ne.symm h)).mpr
      (List.pairwise_map.mp (OrdMap.nodup_keys c.entries))
  exact (hle.and hne).imp fun ⟨h, hab⟩ =>
    Entries.rel_of_not_rel_of_ne ((not_nameComparator_iff _ _).mp h) hab.symm

end CNameCache

open CNameCache (NameComparator NameLt)

/-- A `CDbNameIterator` over the name rows of the database, kept in key order: the rows, and those
from its position on. -/
structure CDbNameIterator where
  rows : List (valtype × CNameData)
  pos : List (valtype × CNameData)

namespace CDbNameIterator

/-- `seek`: `CDBIterator::Seek` to the key `(DB_NAME, start)`, the first row not below it. -/
def seek (it : CDbNameIterator) (start : valtype) : CDbNameIterator :=
  { it with pos := it.rows.dropWhile (fun e => NameComparator e.1 start) }

/-- `next`: the row at the position and the iterator past it, or `false` past the name rows. -/
def next (it : CDbNameIterator) : Option ((valtype × CNameData) × CDbNameIterator) :=
  match it.pos with
  | [] => none
  | e :: rest => some (e, { it with pos := rest })

theorem next_eq_none {it : CDbNameIterator} (h : it.next = none) : it.pos = [] := by
  unfold next at h
  split at h
  · assumption
  · cases h

theorem next_eq_some {it it' : CDbNameIterator} {e : valtype × CNameData}
    (h : it.next = some (e, it')) : it.pos = e :: it'.pos := by
  unfold next at h
  split at h
  · cases h
  · next e' rest hpos =>
    cases h
    exact hpos

end CDbNameIterator

/-- `CCacheNameIterator`: the cache it reads, its base iterator, whether the base has more, the
base's "next" name and data, and the cache entries from `cacheIter` on. -/
structure CCacheNameIterator where
  cache : CNameCache
  base : CDbNameIterator
  baseHasMore : Bool
  baseName : valtype
  baseData : CNameData
  cacheIter : List (valtype × CNameData)

namespace CCacheNameIterator

/-- The `do`/`while` loop of `advanceBaseIterator`: the base's `next` until it has no more or
gives a name the cache has not deleted. -/
def advanceLoop (it : CCacheNameIterator) : CCacheNameIterator :=
  match _hnext : it.base.next with
  | none => { it with baseHasMore := false }
  | some ((name, data), base) =>
    let it' := { it with base, baseHasMore := true, baseName := name, baseData := data }
    if it.cache.isDeleted name then advanceLoop it' else it'
termination_by it.base.pos.length
decreasing_by simp [CDbNameIterator.next_eq_some _hnext]

/-- `advanceBaseIterator`; its `assert (baseHasMore)` fails as an error. -/
def advanceBaseIterator (it : CCacheNameIterator) : Except String CCacheNameIterator :=
  if it.baseHasMore then .ok it.advanceLoop else .error "baseHasMore"

/-- `seek`: the cache entries from the first name not below `start` (`lower_bound`), the base
sought to `start`, and its first name not deleted. -/
def seek (it : CCacheNameIterator) (start : valtype) : Except String CCacheNameIterator :=
  advanceBaseIterator { it with
    cacheIter := it.cache.sortedEntries.dropWhile (fun e => NameComparator e.1 start)
    base := it.base.seek start
    baseHasMore := true }

/-- `next`: the next name with its data and the iterator past it, `none` where `next` returns
false; an assertion that fails is an error. -/
def next (it : CCacheNameIterator) :
    Except String (Option ((valtype × CNameData) × CCacheNameIterator)) :=
  match it.baseHasMore, it.cacheIter with
  | false, [] => .ok none
  | false, e :: rest => .ok (some (e, { it with cacheIter := rest }))
  | true, [] => do
    let it' ← it.advanceBaseIterator
    return some ((it.baseName, it.baseData), it')
  | true, e :: rest => do
    -- both have more: on an equal name the base moves past it, and the cache's entry is used
    let it ← if it.baseName = e.1 then it.advanceBaseIterator else pure it
    if !it.baseHasMore then return some (e, { it with cacheIter := rest })
    else if it.baseName = e.1 then throw "baseName != cacheIter->first"
    else if NameComparator it.baseName e.1 then do
      let it' ← it.advanceBaseIterator
      return some ((it.baseName, it.baseData), it')
    else return some (e, { it with cacheIter := rest })

/-- `Yields it M`: the calls of `next` from `it` give the entries `M`, then return false, and no
assertion fails on the way. -/
inductive Yields : CCacheNameIterator → List (valtype × CNameData) → Prop
  | done {it : CCacheNameIterator} : it.next = .ok none → Yields it []
  | step {it it' : CCacheNameIterator} {e : valtype × CNameData} {M : List (valtype × CNameData)} :
      it.next = .ok (some (e, it')) → Yields it' M → Yields it (e :: M)

/-- What the base has still to give: its buffered entry, then its rows not deleted. -/
def pending (it : CCacheNameIterator) : List (valtype × CNameData) :=
  if it.baseHasMore then
    (it.baseName, it.baseData) :: it.base.pos.filter (fun e => !it.cache.isDeleted e.1)
  else []

@[simp] theorem pending_with_cacheIter (it : CCacheNameIterator) (l : List (valtype × CNameData)) :
    pending { it with cacheIter := l } = pending it := rfl

/-! ## The base loop -/

@[simp] theorem advanceLoop_cache (it : CCacheNameIterator) : it.advanceLoop.cache = it.cache := by
  fun_induction advanceLoop it with
  | case1 => rfl
  | case2 _ _ _ _ _ _ _ ih => exact ih
  | case3 => rfl

@[simp] theorem advanceLoop_cacheIter (it : CCacheNameIterator) :
    it.advanceLoop.cacheIter = it.cacheIter := by
  fun_induction advanceLoop it with
  | case1 => rfl
  | case2 _ _ _ _ _ _ _ ih => exact ih
  | case3 => rfl

/-- After the loop the base has to give its rows that are not deleted: the loop skipped the
deleted ones before the one it buffered. -/
theorem pending_advanceLoop (it : CCacheNameIterator) :
    pending it.advanceLoop = it.base.pos.filter (fun e => !it.cache.isDeleted e.1) := by
  fun_induction advanceLoop it with
  | case1 it h => simp [pending, CDbNameIterator.next_eq_none h]
  | case2 it name data base h it' hdel ih =>
    rw [ih, CDbNameIterator.next_eq_some h, List.filter_cons_of_neg (by simp [hdel])]
  | case3 it name data base h it' hdel =>
    rw [CDbNameIterator.next_eq_some h, List.filter_cons_of_pos (by simpa using hdel)]
    simp [pending, it']

/-- The loop run from a buffered entry leaves what comes after it. -/
theorem pending_advanceLoop_of_baseHasMore {it : CCacheNameIterator} (h : it.baseHasMore = true) :
    pending it.advanceLoop = (pending it).tail := by
  rw [pending_advanceLoop]
  simp [pending, h]

/-! ## One call of `next` -/

section Next

variable {it : CCacheNameIterator}

theorem next_of_cache_only {e : valtype × CNameData} {rest : List (valtype × CNameData)}
    (hb : it.baseHasMore = false) (hc : it.cacheIter = e :: rest) :
    it.next = .ok (some (e, { it with cacheIter := rest })) := by
  simp [next, hb, hc]

theorem next_of_base_only (hb : it.baseHasMore = true) (hc : it.cacheIter = []) :
    it.next = .ok (some ((it.baseName, it.baseData), it.advanceLoop)) := by
  simp [next, Except.pure_eq_ok, Except.ok_bind, hb, hc, advanceBaseIterator]

/-- Where both have more and the base's name is below: the base's entry. -/
theorem next_of_base_lt {e : valtype × CNameData} {rest : List (valtype × CNameData)}
    (hb : it.baseHasMore = true) (hc : it.cacheIter = e :: rest) (hne : it.baseName ≠ e.1)
    (hlt : NameComparator it.baseName e.1 = true) :
    it.next = .ok (some ((it.baseName, it.baseData), it.advanceLoop)) := by
  simp [next, Except.pure_eq_ok, Except.ok_bind, hb, hc, hne, hlt, advanceBaseIterator]

/-- Where both have more and the cache's name is below: the cache's entry. -/
theorem next_of_cache_lt {e : valtype × CNameData} {rest : List (valtype × CNameData)}
    (hb : it.baseHasMore = true) (hc : it.cacheIter = e :: rest) (hne : it.baseName ≠ e.1)
    (hlt : NameComparator it.baseName e.1 = false) :
    it.next = .ok (some (e, { it with cacheIter := rest })) := by
  simp [next, Except.pure_eq_ok, Except.ok_bind, hb, hc, hne, hlt]

/-- Where both have one name: the base moves on, and its next name, if it has one, is above that
name since the base is sorted, so the assertion holds and the cache's entry is used. -/
theorem next_of_eq {e : valtype × CNameData} {rest : List (valtype × CNameData)}
    (hp : Entries.SortedBy NameLt (pending it)) (hb : it.baseHasMore = true)
    (hc : it.cacheIter = e :: rest) (heq : it.baseName = e.1) :
    it.next = .ok (some (e, { it.advanceLoop with cacheIter := rest })) := by
  have hnext : ∀ x ∈ pending it.advanceLoop, NameLt e.1 x.1 := by
    rw [pending_advanceLoop_of_baseHasMore hb]
    intro x hx
    simp only [pending, hb, if_true, List.tail_cons] at hp hx
    exact heq ▸ (List.pairwise_cons.mp hp).1 x hx
  cases hb' : it.advanceLoop.baseHasMore
  · simp [next, Except.pure_eq_ok, Except.ok_bind, hb, hc, heq, advanceBaseIterator, hb']
  · -- the buffered entry after the loop is the head of what the base has left
    have hlt : NameLt e.1 it.advanceLoop.baseName :=
      hnext (it.advanceLoop.baseName, it.advanceLoop.baseData) (by simp [pending, hb'])
    have hne : it.advanceLoop.baseName ≠ e.1 := fun h => irrefl_of NameLt e.1 (h ▸ hlt)
    have hnlt : NameComparator it.advanceLoop.baseName e.1 = false := by
      simpa [NameLt] using asymm_of NameLt hlt
    simp [next, Except.pure_eq_ok, Except.ok_bind, hb, hc, heq, advanceBaseIterator, hb', hne, hnlt]

/-- One call of `next`: with nothing pending on either side it returns false; otherwise it gives
the head of the merge of the two sides and leaves suffixes of them whose merge is the rest. -/
theorem next_mergeRight (hp : Entries.SortedBy NameLt (pending it)) :
    (pending it = [] ∧ it.cacheIter = [] ∧ it.next = .ok none) ∨
    ∃ e it', it.next = .ok (some (e, it')) ∧ pending it' <:+ pending it ∧
      it'.cacheIter <:+ it.cacheIter ∧
      Entries.mergeRight NameLt (pending it) it.cacheIter =
        e :: Entries.mergeRight NameLt (pending it') it'.cacheIter := by
  have hP : ∀ h : it.baseHasMore = true, pending it =
      (it.baseName, it.baseData) :: (pending it.advanceLoop) := fun h => by
    rw [pending_advanceLoop_of_baseHasMore h]
    simp [pending, h]
  cases hb : it.baseHasMore
  · -- the base is done: the cache's entries, or false
    cases hc : it.cacheIter with
    | nil => exact Or.inl ⟨by simp [pending, hb], rfl, by simp [next, hb, hc]⟩
    | cons e rest =>
      refine Or.inr ⟨e, _, next_of_cache_only hb hc, ?_, List.suffix_cons e rest, ?_⟩
      · simp [pending, hb]
      · simp [pending, hb]
  · cases hc : it.cacheIter with
    | nil =>
      refine Or.inr ⟨_, _, next_of_base_only hb hc, ?_, ?_, ?_⟩
      · rw [hP hb]
        exact List.suffix_cons _ _
      · rw [advanceLoop_cacheIter, hc]
      · rw [hP hb, advanceLoop_cacheIter, hc, Entries.mergeRight_nil_right,
          Entries.mergeRight_nil_right]
    | cons e rest =>
      by_cases heq : it.baseName = e.1
      · refine Or.inr ⟨e, _, next_of_eq hp hb hc heq, ?_, List.suffix_cons e rest, ?_⟩
        · rw [pending_with_cacheIter, hP hb]
          exact List.suffix_cons _ _
        · have hp' := hp
          rw [pending_with_cacheIter it.advanceLoop rest]
          rw [hP hb] at hp' ⊢
          exact Entries.mergeRight_cons_of_eq hp' heq
      · cases hlt : NameComparator it.baseName e.1
        · -- the cache's name is below
          refine Or.inr ⟨e, _, next_of_cache_lt hb hc heq hlt, ?_, List.suffix_cons e rest, ?_⟩
          · rw [pending_with_cacheIter]
          · rw [pending_with_cacheIter it rest, hP hb, Entries.mergeRight, if_neg heq,
              if_neg (by simp [NameLt, hlt])]
        · -- the base's name is below
          refine Or.inr ⟨_, _, next_of_base_lt hb hc heq hlt, ?_, ?_, ?_⟩
          · rw [hP hb]
            exact List.suffix_cons _ _
          · rw [advanceLoop_cacheIter, hc]
          · rw [hP hb, advanceLoop_cacheIter, hc, Entries.mergeRight, if_neg heq,
              if_pos (by simp [NameLt, hlt])]

end Next

/-! ## A whole scan -/

/-- From a state whose base is sorted, the calls of `next` yield the merge of what the base has
still to give and the cache entries left. The recursion is on how many entries are left. -/
theorem yields_mergeRight (it : CCacheNameIterator) (hp : Entries.SortedBy NameLt (pending it)) :
    Yields it (Entries.mergeRight NameLt (pending it) it.cacheIter) := by
  rcases next_mergeRight hp with ⟨hP, hC, hnext⟩ | ⟨e, it', hnext, hsufP, hsufC, hmerge⟩
  · rw [hP, hC, Entries.mergeRight_nil_left]
    exact Yields.done hnext
  · rw [hmerge]
    exact Yields.step hnext (yields_mergeRight it' (hp.sublist hsufP.sublist))
termination_by (pending it).length + it.cacheIter.length
decreasing_by exact Entries.length_lt_of_mergeRight_eq_cons NameLt hsufP hsufC hmerge

/-- After `seek start`, over a database whose name rows are sorted by `NameComparator`, the
iterator yields the names of the cache's view over the database that are not below `start`, with
their data, in `NameComparator` order and so each once. -/
theorem seek_yields_view (it : CCacheNameIterator) (start : valtype)
    (hrows : Entries.SortedBy NameLt it.base.rows) :
    ∃ it₀ M, it.seek start = .ok it₀ ∧ Yields it₀ M ∧ Entries.SortedBy NameLt M ∧
      ∀ name data, (name, data) ∈ M ↔ NameComparator name start = false ∧
        it.cache.view (fun n => Entries.lookup n it.base.rows) name = some data := by
  set it₁ : CCacheNameIterator := { it with
    cacheIter := it.cache.sortedEntries.dropWhile (fun e => NameComparator e.1 start)
    base := it.base.seek start
    baseHasMore := true } with hit₁
  set P := pending it₁.advanceLoop with hPdef
  set C := it.cache.sortedEntries.dropWhile (fun e => NameComparator e.1 start) with hCdef
  -- the two sides after the seek: the rows and the entries not below `start`
  have hP : P = (it.base.rows.dropWhile (fun e => NameComparator e.1 start)).filter
      (fun e => !it.cache.isDeleted e.1) := by
    rw [hPdef, pending_advanceLoop]
    rfl
  have hC : it₁.advanceLoop.cacheIter = C := by simp [it₁, hCdef]
  have hsortP : Entries.SortedBy NameLt P :=
    hP ▸ ((hrows.sublist (List.dropWhile_suffix _).sublist).filter _)
  have hsortC : Entries.SortedBy NameLt C :=
    (CNameCache.sortedBy_sortedEntries it.cache).sublist (List.dropWhile_suffix _).sublist
  have hmemC : ∀ e, e ∈ C ↔ it.cache.entries.find? e.1 = some e.2 ∧ ¬ NameLt e.1 start :=
    fun e => by
      rw [hCdef, ← CNameCache.mem_sortedEntries]
      exact Entries.mem_dropWhile_of_sortedBy (fun a => CNameCache.nameComparator_iff a start)
        (CNameCache.sortedBy_sortedEntries it.cache) e
  have hmemP : ∀ e, e ∈ P ↔ (e ∈ it.base.rows ∧ ¬ NameLt e.1 start) ∧
      it.cache.isDeleted e.1 = false := fun e => by
    rw [hP, List.mem_filter,
      Entries.mem_dropWhile_of_sortedBy (fun a => CNameCache.nameComparator_iff a start) hrows e]
    simp
  refine ⟨it₁.advanceLoop, Entries.mergeRight NameLt P C, by simp [seek, advanceBaseIterator, it₁],
    hC ▸ yields_mergeRight _ hsortP, Entries.sortedBy_mergeRight hsortP hsortC, ?_⟩
  intro name data
  rw [Entries.mem_mergeRight hsortP hsortC, hmemC, hmemP]
  have hkeys : name ∈ C.map Prod.fst ↔
      (it.cache.entries.find? name).isSome ∧ ¬ NameLt name start := by
    simp only [List.mem_map, Prod.exists, exists_and_right, exists_eq_right]
    constructor
    · rintro ⟨d, hd⟩
      obtain ⟨hf, hs⟩ := (hmemC (name, d)).mp hd
      exact ⟨by simp [hf], hs⟩
    · rintro ⟨hf, hs⟩
      obtain ⟨d, hd⟩ := Option.isSome_iff_exists.mp hf
      exact ⟨d, (hmemC (name, d)).mpr ⟨hd, hs⟩⟩
  rw [hkeys]
  have hlookup : Entries.lookup name it.base.rows = some data ↔ (name, data) ∈ it.base.rows :=
    ⟨Entries.mem_of_lookup_eq_some, Entries.lookup_eq_some_of_mem_of_nodup hrows.nodup_keys⟩
  -- the view reads the entry first, then the deletion, then the database
  cases hf : it.cache.entries.find? name with
  | some v =>
    simp only [CNameCache.view, OrdMap.overlay, hf, NameLt]
    by_cases hs : NameComparator name start = true <;> simp [hs]
  | none =>
    cases hd : it.cache.isDeleted name <;>
      simp_all [CNameCache.view, OrdMap.overlay, CNameCache.isDeleted, NameLt, and_comm]

/-- Over a database of the names `[7]` and `[1, 2]`, in `NameComparator` order (by length), a cache
that overwrites `[1, 2]`, adds `[4]` and deletes `[7]`, seeking from `[5]`: the iteration shows the
cache's data of `[1, 2]`, and neither the deleted `[7]` nor `[4]`, which comes before `[5]`. -/
theorem seek_yields_view_cacheOverRows :
    let d : CNameData := ⟨[], 0, ⟨0, 0⟩, []⟩
    let d₂ : CNameData := ⟨[], 5, ⟨3, 0⟩, []⟩
    let d₃ : CNameData := ⟨[], 6, ⟨4, 1⟩, []⟩
    let it : CCacheNameIterator :=
      ⟨((CNameCache.init.set [1, 2] d₂).set [4] d₃).remove [7], ⟨[([7], d), ([1, 2], d)], []⟩, false, [], d, []⟩
    it.cache.view (fun n => Entries.lookup n it.base.rows) [1, 2] = some d₂ ∧
      it.cache.view (fun n => Entries.lookup n it.base.rows) [7] = none ∧
      NameComparator [4] [5] = true ∧
      ∃ it₀ M, it.seek [5] = .ok it₀ ∧ Yields it₀ M ∧ Entries.SortedBy NameLt M ∧
        ∀ name data, (name, data) ∈ M ↔ NameComparator name [5] = false ∧
          it.cache.view (fun n => Entries.lookup n it.base.rows) name = some data := by
  intro d d₂ d₃ it
  exact ⟨by decide, by decide, by decide, seek_yields_view it [5] (by decide)⟩

end CCacheNameIterator

end Huntercore
