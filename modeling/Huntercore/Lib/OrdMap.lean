import Mathlib

/-!
# Finite maps as key-sorted entry lists

The game engine keeps players, characters, loot and banks in `std::map` and
`std::set`, and consensus depends on the order in which loops visit them, which is
the key order. `OrdMap κ ν` models such a map by the list of its entries in that
order. The structure carries the strict sortedness of the keys, so a map with a
duplicate or misplaced key cannot be built, and equality of maps is equality of
their lookups (`OrdMap.ext`). `OrdSet κ` does the same for `std::set`.

Nothing here mentions the game: only a key type with a linear order.
-/

/-! ## Entry lists -/

namespace Entries

variable {κ ν : Type} [LinearOrder κ]

/-- Strict sortedness of an entry list by key. -/
def Sorted (l : List (κ × ν)) : Prop := l.Pairwise (fun a b => a.1 < b.1)

/-- The value stored under `k`, if any. -/
def lookup (k : κ) : List (κ × ν) → Option ν
  | [] => none
  | e :: es => if e.1 = k then some e.2 else lookup k es

/-- Insert `(k, v)`, replacing an entry with key `k`, at its place in the key order. -/
def insert (k : κ) (v : ν) : List (κ × ν) → List (κ × ν)
  | [] => [(k, v)]
  | e :: es =>
    if k < e.1 then (k, v) :: e :: es
    else if k = e.1 then (k, v) :: es
    else e :: insert k v es

@[simp] theorem lookup_nil (k : κ) : lookup k ([] : List (κ × ν)) = none := rfl

theorem lookup_cons (k : κ) (e : κ × ν) (es : List (κ × ν)) :
    lookup k (e :: es) = if e.1 = k then some e.2 else lookup k es := rfl

/-- A key below every key of the list is not found. -/
theorem lookup_eq_none_of_lt {k : κ} :
    ∀ {l : List (κ × ν)}, (∀ e ∈ l, k < e.1) → lookup k l = none
  | [], _ => rfl
  | e :: es, h => by
    have hne : e.1 ≠ k := (ne_of_lt (h e (by simp))).symm
    rw [lookup_cons, if_neg hne]
    exact lookup_eq_none_of_lt (fun e' he' => h e' (by simp [he']))

theorem lookup_eq_none_of_forall_ne {k : κ} :
    ∀ {l : List (κ × ν)}, (∀ e ∈ l, e.1 ≠ k) → lookup k l = none
  | [], _ => rfl
  | e :: es, h => by
    rw [lookup_cons, if_neg (h e (by simp))]
    exact lookup_eq_none_of_forall_ne (fun e' he' => h e' (by simp [he']))

theorem mem_of_lookup_eq_some {k : κ} {v : ν} :
    ∀ {l : List (κ × ν)}, lookup k l = some v → (k, v) ∈ l
  | [], h => by simp at h
  | e :: es, h => by
    rw [lookup_cons] at h
    split at h
    · next he =>
      cases h
      simp [← he]
    · exact List.mem_cons_of_mem _ (mem_of_lookup_eq_some h)

theorem lookup_eq_some_of_mem {k : κ} {v : ν} :
    ∀ {l : List (κ × ν)}, Sorted l → (k, v) ∈ l → lookup k l = some v
  | [], _, h => by simp at h
  | e :: es, hs, h => by
    have hs' : Sorted es := (List.pairwise_cons.mp hs).2
    rw [lookup_cons]
    rcases List.mem_cons.mp h with rfl | h'
    · simp
    · have hlt : e.1 < k := (List.pairwise_cons.mp hs).1 (k, v) h'
      rw [if_neg (ne_of_lt hlt)]
      exact lookup_eq_some_of_mem hs' h'

theorem lookup_insert (k k' : κ) (v : ν) :
    ∀ l : List (κ × ν), lookup k' (insert k v l) = if k = k' then some v else lookup k' l
  | [] => rfl
  | e :: es => by
    unfold insert
    split
    · rfl
    · split
      · next heq =>
        simp only [lookup_cons]
        by_cases hk : k = k'
        · simp [hk]
        · rw [if_neg hk, if_neg hk, if_neg (heq ▸ hk)]
      · rw [lookup_cons, lookup_cons, lookup_insert k k' v es]
        by_cases he : e.1 = k'
        · have hne : k ≠ k' := fun h => by simp_all
          simp [he, hne]
        · simp [he]

theorem lookup_filter (k : κ) (p : κ → ν → Bool) :
    ∀ {l : List (κ × ν)}, Sorted l →
      lookup k (l.filter (fun e => p e.1 e.2)) = (lookup k l).filter (p k)
  | [], _ => rfl
  | e :: es, hs => by
    have ⟨he, hs'⟩ := List.pairwise_cons.mp hs
    have ih := lookup_filter k p hs'
    by_cases hk : e.1 = k
    · subst hk
      -- the later entries have larger keys, so dropping `e` leaves nothing under its key
      have hnone : lookup e.1 es = none := lookup_eq_none_of_lt he
      by_cases hp : p e.1 e.2 = true
      · simp [hp, lookup_cons, Option.filter_some]
      · simp [hp, lookup_cons, ih, hnone, Option.filter_some]
    · by_cases hp : p e.1 e.2 = true
      · simp [hp, lookup_cons, hk, ih]
      · simp [hp, lookup_cons, hk, ih]

theorem mem_insert {k : κ} {v : ν} {a : κ × ν} :
    ∀ {l : List (κ × ν)}, a ∈ insert k v l → a = (k, v) ∨ a ∈ l
  | [], h => by simpa [insert] using h
  | e :: es, h => by
    unfold insert at h
    split at h
    · simpa using h
    · split at h
      · rcases List.mem_cons.mp h with h | h
        · exact .inl h
        · exact .inr (List.mem_cons_of_mem _ h)
      · rcases List.mem_cons.mp h with h | h
        · exact .inr (by simp [h])
        · rcases mem_insert h with h | h
          · exact .inl h
          · exact .inr (List.mem_cons_of_mem _ h)

theorem sorted_insert (k : κ) (v : ν) :
    ∀ {l : List (κ × ν)}, Sorted l → Sorted (insert k v l)
  | [], _ => List.pairwise_singleton _ _
  | e :: es, hs => by
    have ⟨he, hs'⟩ := List.pairwise_cons.mp hs
    unfold insert
    split
    · next hlt =>
      refine List.Pairwise.cons (fun a ha => ?_) hs
      rcases List.mem_cons.mp ha with rfl | ha
      · exact hlt
      · exact lt_trans hlt (he a ha)
    · split
      · next heq =>
        refine List.Pairwise.cons (fun a ha => ?_) hs'
        rw [heq]
        exact he a ha
      · next hge hne =>
        refine List.Pairwise.cons (fun a ha => ?_) (sorted_insert k v hs')
        rcases mem_insert ha with rfl | ha
        · exact lt_of_le_of_ne (not_lt.mp hge) (Ne.symm hne)
        · exact he a ha

/-- Two sorted entry lists with the same lookups are equal. -/
theorem eq_of_lookup_eq :
    ∀ {l₁ l₂ : List (κ × ν)}, Sorted l₁ → Sorted l₂ →
      (∀ k, lookup k l₁ = lookup k l₂) → l₁ = l₂
  | [], [], _, _, _ => rfl
  | [], e :: _, _, _, h => by
    have := h e.1
    simp [lookup_cons] at this
  | e :: _, [], _, _, h => by
    have := h e.1
    simp [lookup_cons] at this
  | a :: as, b :: bs, ha, hb, h => by
    have ⟨ha₁, ha₂⟩ := List.pairwise_cons.mp ha
    have ⟨hb₁, hb₂⟩ := List.pairwise_cons.mp hb
    -- the smaller head key would be found in one list and not in the other
    have hkey : a.1 = b.1 := by
      rcases lt_trichotomy a.1 b.1 with hlt | heq | hgt
      · have h1 := h a.1
        rw [lookup_cons, if_pos rfl, lookup_cons, if_neg (ne_of_gt hlt),
          lookup_eq_none_of_lt (fun e he => lt_trans hlt (hb₁ e he))] at h1
        cases h1
      · exact heq
      · have h1 := h b.1
        rw [lookup_cons, if_neg (ne_of_gt hgt), lookup_cons, if_pos rfl,
          lookup_eq_none_of_lt (fun e he => lt_trans hgt (ha₁ e he))] at h1
        cases h1
    have hval : a.2 = b.2 := by
      have h1 := h a.1
      rw [lookup_cons, if_pos rfl, lookup_cons, if_pos hkey.symm] at h1
      exact Option.some.inj h1
    have htail : ∀ k, lookup k as = lookup k bs := by
      intro k
      by_cases hk : a.1 = k
      · subst hk
        rw [lookup_eq_none_of_lt ha₁, hkey, lookup_eq_none_of_lt hb₁]
      · have h1 := h k
        rwa [lookup_cons, if_neg hk, lookup_cons, if_neg (hkey ▸ hk)] at h1
    rw [Prod.ext hkey hval, eq_of_lookup_eq ha₂ hb₂ htail]

/-- Change every value in list order, threading an accumulator through the changes. -/
def mapAccum {σ μ : Type} (f : σ → κ → ν → μ × σ) : σ → List (κ × ν) → List (κ × μ) × σ
  | acc, [] => ([], acc)
  | acc, e :: es =>
    let r := f acc e.1 e.2
    let rs := mapAccum f r.2 es
    ((e.1, r.1) :: rs.1, rs.2)

omit [LinearOrder κ] in
theorem map_fst_mapAccum {σ μ : Type} (f : σ → κ → ν → μ × σ) :
    ∀ (acc : σ) (l : List (κ × ν)), (mapAccum f acc l).1.map Prod.fst = l.map Prod.fst
  | _, [] => rfl
  | acc, e :: es => by
    simp only [mapAccum, List.map_cons, map_fst_mapAccum f _ es]

omit [LinearOrder κ] in
/-- Every entry the loop produces is the change of an entry of the list, at some value of
the accumulator. -/
theorem mem_mapAccum {σ μ : Type} (f : σ → κ → ν → μ × σ) :
    ∀ {acc : σ} {l : List (κ × ν)} {k : κ} {v' : μ}, (k, v') ∈ (mapAccum f acc l).1 →
      ∃ acc' v, (k, v) ∈ l ∧ v' = (f acc' k v).1
  | _, [], _, _, h => by simp [mapAccum] at h
  | acc, e :: es, k, v', h => by
    simp only [mapAccum, List.mem_cons] at h
    rcases h with h | h
    · obtain ⟨rfl, rfl⟩ := Prod.mk.inj h
      exact ⟨acc, e.2, List.mem_cons_self, rfl⟩
    · obtain ⟨acc', v, hv, rfl⟩ := mem_mapAccum f h
      exact ⟨acc', v, List.mem_cons_of_mem e hv, rfl⟩

theorem sorted_of_map_fst_eq {μ : Type} {l : List (κ × ν)} {l' : List (κ × μ)}
    (h : l'.map Prod.fst = l.map Prod.fst) (hl : Sorted l) : Sorted l' := by
  unfold Sorted at *
  rw [← List.pairwise_map (R := fun a b : κ => a < b), h]
  exact List.pairwise_map.mpr hl

/-- The sum of `g` over the values of an entry list. -/
def sumBy (g : ν → Int) (l : List (κ × ν)) : Int := (l.map (fun e => g e.2)).sum

omit [LinearOrder κ] in
@[simp] theorem sumBy_nil (g : ν → Int) : sumBy g ([] : List (κ × ν)) = 0 := rfl

omit [LinearOrder κ] in
@[simp] theorem sumBy_cons (g : ν → Int) (e : κ × ν) (es : List (κ × ν)) :
    sumBy g (e :: es) = g e.2 + sumBy g es := by
  simp [sumBy]

omit [LinearOrder κ] in
/-- A loop that keeps `g` of the values plus `h` of the accumulator keeps their total. -/
theorem sumBy_mapAccum {σ μ : Type} (f : σ → κ → ν → μ × σ) (g : ν → Int) (g' : μ → Int)
    (h : σ → Int) (hf : ∀ acc k v, g' (f acc k v).1 + h (f acc k v).2 = g v + h acc) :
    ∀ (acc : σ) (l : List (κ × ν)),
      sumBy g' (mapAccum f acc l).1 + h (mapAccum f acc l).2 = sumBy g l + h acc
  | _, [] => by simp [mapAccum, sumBy]
  | acc, e :: es => by
    have ih := sumBy_mapAccum f g g' h hf (f acc e.1 e.2).2 es
    have he := hf acc e.1 e.2
    simp only [mapAccum, sumBy_cons] at ih ⊢
    omega

/-- Inserting replaces the value under `k`, if there is one, in the sum. -/
theorem sumBy_insert (g : ν → Int) (k : κ) (v : ν) :
    ∀ {l : List (κ × ν)}, Sorted l →
      sumBy g (insert k v l) = sumBy g l - ((lookup k l).map g).getD 0 + g v
  | [], _ => by simp [insert, sumBy]
  | e :: es, hs => by
    have ⟨he, hs'⟩ := List.pairwise_cons.mp hs
    unfold insert
    split
    · next hlt =>
      have hne : e.1 ≠ k := ne_of_gt hlt
      rw [lookup_cons, if_neg hne, lookup_eq_none_of_lt (fun e' he' => lt_trans hlt (he e' he'))]
      simp only [sumBy_cons, Option.map_none, Option.getD_none]
      omega
    · split
      · next heq =>
        subst heq
        rw [lookup_cons, if_pos rfl]
        simp only [sumBy_cons, Option.map_some, Option.getD_some]
        omega
      · next hne =>
        rw [lookup_cons, if_neg (Ne.symm hne)]
        simp only [sumBy_cons, sumBy_insert g k v hs']
        omega

/-- Dropping the entry under `k` removes its value from the sum. -/
theorem sumBy_filter_ne (g : ν → Int) (k : κ) :
    ∀ {l : List (κ × ν)}, Sorted l →
      sumBy g (l.filter (fun e => e.1 != k)) = sumBy g l - ((lookup k l).map g).getD 0
  | [], _ => rfl
  | e :: es, hs => by
    have ⟨he, hs'⟩ := List.pairwise_cons.mp hs
    by_cases hk : e.1 = k
    · subst hk
      -- the later keys are larger, so nothing else is dropped
      have hkeep : es.filter (fun e' => e'.1 != e.1) = es :=
        List.filter_eq_self.mpr (fun e' he' => by simpa using ne_of_gt (he e' he'))
      simp [hkeep, lookup_cons]
    · have ih := sumBy_filter_ne g k hs'
      simp [hk, lookup_cons, ih]
      omega

/-- A list with no key twice finds each of its entries, in whatever order it is kept. -/
theorem lookup_eq_some_of_mem_of_nodup {k : κ} {v : ν} :
    ∀ {l : List (κ × ν)}, (l.map Prod.fst).Nodup → (k, v) ∈ l → lookup k l = some v
  | [], _, h => by simp at h
  | e :: es, hn, h => by
    rw [List.map_cons, List.nodup_cons] at hn
    rw [lookup_cons]
    rcases List.mem_cons.mp h with rfl | h'
    · simp
    · have hne : e.1 ≠ k := fun he => hn.1 (by rw [he]; exact List.mem_map_of_mem h')
      rw [if_neg hne]
      exact lookup_eq_some_of_mem_of_nodup hn.2 h'
end Entries

/-! ## Maps -/

/-- A finite map from `κ` to `ν`, its entries listed in increasing key order: the
model of `std::map`. -/
structure OrdMap (κ ν : Type) [LinearOrder κ] where
  entries : List (κ × ν)
  sorted : Entries.Sorted entries

namespace OrdMap

variable {κ ν μ : Type} [LinearOrder κ]

theorem ext_entries {m₁ m₂ : OrdMap κ ν} (h : m₁.entries = m₂.entries) : m₁ = m₂ := by
  cases m₁
  cases m₂
  cases h
  rfl

instance [DecidableEq ν] : DecidableEq (OrdMap κ ν) := fun m₁ m₂ =>
  decidable_of_iff (m₁.entries = m₂.entries) ⟨ext_entries, fun h => h ▸ rfl⟩

/-- The empty map. -/
def empty : OrdMap κ ν := ⟨[], List.Pairwise.nil⟩

instance : EmptyCollection (OrdMap κ ν) := ⟨empty⟩

instance : Inhabited (OrdMap κ ν) := ⟨empty⟩

/-- `find`: the value stored under `k`. -/
def find? (m : OrdMap κ ν) (k : κ) : Option ν := Entries.lookup k m.entries

/-- `count (k) > 0`. -/
def contains (m : OrdMap κ ν) (k : κ) : Bool := (m.find? k).isSome

/-- Keys in iteration order. -/
def keys (m : OrdMap κ ν) : List κ := m.entries.map Prod.fst

/-- Number of entries. -/
def size (m : OrdMap κ ν) : Nat := m.entries.length

/-- `m[k] = v`: insert or overwrite. -/
def insert (m : OrdMap κ ν) (k : κ) (v : ν) : OrdMap κ ν :=
  ⟨Entries.insert k v m.entries, Entries.sorted_insert k v m.sorted⟩

/-- Keep the entries satisfying `p`. -/
def filter (m : OrdMap κ ν) (p : κ → ν → Bool) : OrdMap κ ν :=
  ⟨m.entries.filter (fun e => p e.1 e.2), m.sorted.sublist List.filter_sublist⟩

/-- `erase (k)`. -/
def erase (m : OrdMap κ ν) (k : κ) : OrdMap κ ν := m.filter (fun k' _ => k' != k)

/-- Change every value in place, keys unchanged. -/
def mapVals (m : OrdMap κ ν) (f : κ → ν → μ) : OrdMap κ μ :=
  ⟨m.entries.map (fun e => (e.1, f e.1 e.2)),
    List.pairwise_map.mpr (m.sorted.imp id)⟩

/-- Change the value stored under `k` (through a reference obtained by `find`), if any. -/
def modify (m : OrdMap κ ν) (k : κ) (f : ν → ν) : OrdMap κ ν :=
  m.mapVals (fun k' v => if k' = k then f v else v)

/-- `m[k]` for reading through `operator[]`: the value, or the default one. -/
def getD (m : OrdMap κ ν) (k : κ) (d : ν) : ν := (m.find? k).getD d

/-- The sum of `g` over the values, in iteration order. -/
def sumBy (m : OrdMap κ ν) (g : ν → Int) : Int := Entries.sumBy g m.entries

/-- Change every value in key order, threading an accumulator: a loop over a map that
assigns through its iterator while it draws from a generator. -/
def mapAccum {σ : Type} (m : OrdMap κ ν) (f : σ → κ → ν → μ × σ) (init : σ) : OrdMap κ μ × σ :=
  let r := Entries.mapAccum f init m.entries
  (⟨r.1, Entries.sorted_of_map_fst_eq (Entries.map_fst_mapAccum f init m.entries) m.sorted⟩, r.2)

/-- Erase every key of `ks`, in turn. -/
def eraseList (m : OrdMap κ ν) (ks : List κ) : OrdMap κ ν := ks.foldl erase m

/-! ### Lookup -/

@[simp] theorem find?_empty (k : κ) : (empty : OrdMap κ ν).find? k = none := rfl

theorem find?_insert (m : OrdMap κ ν) (k k' : κ) (v : ν) :
    (m.insert k v).find? k' = if k = k' then some v else m.find? k' :=
  Entries.lookup_insert k k' v m.entries

@[simp] theorem find?_insert_self (m : OrdMap κ ν) (k : κ) (v : ν) :
    (m.insert k v).find? k = some v := by
  simp [find?_insert]

theorem find?_insert_of_ne (m : OrdMap κ ν) {k k' : κ} (v : ν) (h : k ≠ k') :
    (m.insert k v).find? k' = m.find? k' := by
  simp [find?_insert, h]

@[simp] theorem getD_insert_self (m : OrdMap κ ν) (k : κ) (v d : ν) : (m.insert k v).getD k d = v := by
  simp [getD]

theorem getD_insert_of_ne (m : OrdMap κ ν) {k k' : κ} (v d : ν) (h : k ≠ k') :
    (m.insert k v).getD k' d = m.getD k' d := by
  rw [getD, find?_insert_of_ne _ _ h, getD]

theorem find?_filter (m : OrdMap κ ν) (p : κ → ν → Bool) (k : κ) :
    (m.filter p).find? k = (m.find? k).filter (p k) :=
  Entries.lookup_filter k p m.sorted

theorem find?_erase (m : OrdMap κ ν) (k k' : κ) :
    (m.erase k).find? k' = if k = k' then none else m.find? k' := by
  unfold erase
  rw [find?_filter]
  by_cases h : k = k'
  · subst h
    cases m.find? k <;> simp
  · have h' : k' ≠ k := Ne.symm h
    cases m.find? k' <;> simp [h, h']

@[simp] theorem find?_erase_self (m : OrdMap κ ν) (k : κ) : (m.erase k).find? k = none := by
  simp [find?_erase]

theorem find?_erase_of_ne (m : OrdMap κ ν) {k k' : κ} (h : k ≠ k') :
    (m.erase k).find? k' = m.find? k' := by
  simp [find?_erase, h]

theorem find?_mapVals (m : OrdMap κ ν) (f : κ → ν → μ) (k : κ) :
    (m.mapVals f).find? k = (m.find? k).map (f k) := by
  unfold find? mapVals
  dsimp only
  induction m.entries with
  | nil => rfl
  | cons e es ih =>
    by_cases he : e.1 = k
    · subst he
      simp [Entries.lookup_cons]
    · simp [Entries.lookup_cons, he, ih]

theorem find?_modify (m : OrdMap κ ν) (k k' : κ) (f : ν → ν) :
    (m.modify k f).find? k' = if k' = k then (m.find? k').map f else m.find? k' := by
  unfold modify
  rw [find?_mapVals]
  split
  · rfl
  · next h =>
    cases m.find? k' <;> simp

theorem find?_eraseList (m : OrdMap κ ν) (ks : List κ) (k : κ) :
    (m.eraseList ks).find? k = if k ∈ ks then none else m.find? k := by
  induction ks generalizing m with
  | nil => simp [eraseList]
  | cons a as ih =>
    simp only [eraseList, List.foldl_cons] at ih ⊢
    rw [ih, find?_erase]
    by_cases ha : a = k
    · simp [ha]
    · by_cases hk : k ∈ as <;> simp [ha, hk, Ne.symm ha]

/-! ### Sums -/

theorem sumBy_insert (m : OrdMap κ ν) (g : ν → Int) (k : κ) (v : ν) :
    (m.insert k v).sumBy g = m.sumBy g - ((m.find? k).map g).getD 0 + g v :=
  Entries.sumBy_insert g k v m.sorted

theorem sumBy_erase (m : OrdMap κ ν) (g : ν → Int) (k : κ) :
    (m.erase k).sumBy g = m.sumBy g - ((m.find? k).map g).getD 0 :=
  Entries.sumBy_filter_ne g k m.sorted

theorem sumBy_mapVals (m : OrdMap κ ν) (f : κ → ν → μ) (g : μ → Int) :
    (m.mapVals f).sumBy g = (m.entries.map fun e => g (f e.1 e.2)).sum := by
  simp [sumBy, mapVals, Entries.sumBy, Function.comp_def]

/-- Maps are equal when their lookups are. -/
theorem ext {m₁ m₂ : OrdMap κ ν} (h : ∀ k, m₁.find? k = m₂.find? k) : m₁ = m₂ :=
  ext_entries (Entries.eq_of_lookup_eq m₁.sorted m₂.sorted h)

/-- Insertions at different keys commute. -/
theorem insert_comm (m : OrdMap κ ν) {a b : κ} (h : a ≠ b) (x y : ν) :
    (m.insert a x).insert b y = (m.insert b y).insert a x := by
  apply ext
  intro k
  simp only [find?_insert]
  by_cases hb : b = k
  · subst hb
    simp [h]
  · simp [hb]

theorem mem_entries_iff (m : OrdMap κ ν) (k : κ) (v : ν) :
    (k, v) ∈ m.entries ↔ m.find? k = some v :=
  ⟨Entries.lookup_eq_some_of_mem m.sorted, Entries.mem_of_lookup_eq_some⟩

theorem find?_mapAccum {σ : Type} (m : OrdMap κ ν) (f : σ → κ → ν → μ × σ) (init : σ) {k : κ}
    {v' : μ} (h : (m.mapAccum f init).1.find? k = some v') :
    ∃ acc v, m.find? k = some v ∧ v' = (f acc k v).1 := by
  obtain ⟨acc, v, hv, rfl⟩ :=
    Entries.mem_mapAccum f (Entries.mem_of_lookup_eq_some (k := k) (v := v') h)
  exact ⟨acc, v, (mem_entries_iff m k v).mp hv, rfl⟩

/-- A loop over the map that keeps `g` of the values plus `h` of the accumulator keeps
their total. -/
theorem sumBy_mapAccum {σ : Type} (m : OrdMap κ ν) (f : σ → κ → ν → μ × σ) (init : σ)
    (g : ν → Int) (g' : μ → Int) (h : σ → Int)
    (hf : ∀ acc k v, g' (f acc k v).1 + h (f acc k v).2 = g v + h acc) :
    (m.mapAccum f init).1.sumBy g' + h (m.mapAccum f init).2 = m.sumBy g + h init :=
  Entries.sumBy_mapAccum f g g' h hf init m.entries

/-! ### Keys -/

@[simp] theorem contains_insert (m : OrdMap κ ν) (k k' : κ) (v : ν) :
    (m.insert k v).contains k' = (k = k' || m.contains k') := by
  by_cases h : k = k' <;> simp [contains, find?_insert, h]

@[simp] theorem contains_erase (m : OrdMap κ ν) (k k' : κ) :
    (m.erase k).contains k' = (k != k' && m.contains k') := by
  by_cases h : k = k' <;> simp [contains, find?_erase, h]

@[simp] theorem contains_eraseList (m : OrdMap κ ν) (ks : List κ) (k : κ) :
    (m.eraseList ks).contains k = (!decide (k ∈ ks) && m.contains k) := by
  by_cases h : k ∈ ks <;> simp [contains, find?_eraseList, h]

@[simp] theorem contains_mapVals (m : OrdMap κ ν) (f : κ → ν → μ) (k : κ) :
    (m.mapVals f).contains k = m.contains k := by
  simp [contains, find?_mapVals]

@[simp] theorem contains_modify (m : OrdMap κ ν) (k k' : κ) (f : ν → ν) :
    (m.modify k f).contains k' = m.contains k' := by
  simp only [contains, find?_modify]
  split <;> simp

theorem contains_mapAccum {σ : Type} (m : OrdMap κ ν) (f : σ → κ → ν → μ × σ) (init : σ) (k : κ) :
    (m.mapAccum f init).1.contains k = m.contains k := by
  have hkeys : (m.mapAccum f init).1.entries.map Prod.fst = m.entries.map Prod.fst :=
    Entries.map_fst_mapAccum f init m.entries
  have hmem : ∀ (n : OrdMap κ μ) (n' : OrdMap κ ν), n.entries.map Prod.fst = n'.entries.map Prod.fst →
      (n.contains k = true ↔ n'.contains k = true) := by
    intro n n' h
    simp only [contains, Option.isSome_iff_exists, ← mem_entries_iff]
    constructor
    · rintro ⟨v, hv⟩
      have : k ∈ n'.entries.map Prod.fst := h ▸ List.mem_map_of_mem (f := Prod.fst) hv
      obtain ⟨⟨k', v'⟩, hv', rfl⟩ := List.mem_map.mp this
      exact ⟨v', hv'⟩
    · rintro ⟨v, hv⟩
      have : k ∈ n.entries.map Prod.fst := h.symm ▸ List.mem_map_of_mem (f := Prod.fst) hv
      obtain ⟨⟨k', v'⟩, hv', rfl⟩ := List.mem_map.mp this
      exact ⟨v', hv'⟩
  exact Bool.eq_iff_iff.mpr (hmem _ _ hkeys)

theorem contains_insert_of_contains {m : OrdMap κ ν} {k : κ} (v : ν) (h : m.contains k = true)
    (k' : κ) : (m.insert k v).contains k' = m.contains k' := by
  by_cases hk : k = k'
  · subst hk
    simp [h]
  · simp [hk]

/-- A key of the map is a key of the result of the loop, with the value the loop computed. -/
theorem find?_mapAccum_of_find? {σ : Type} (m : OrdMap κ ν) (f : σ → κ → ν → μ × σ) (init : σ)
    {k : κ} {v : ν} (h : m.find? k = some v) :
    ∃ acc, (m.mapAccum f init).1.find? k = some (f acc k v).1 := by
  have hc : (m.mapAccum f init).1.contains k = true := by
    rw [contains_mapAccum]
    simp [contains, h]
  obtain ⟨v', hv'⟩ := Option.isSome_iff_exists.mp hc
  obtain ⟨acc, v₀, hv₀, rfl⟩ := find?_mapAccum m f init hv'
  rw [h, Option.some.injEq] at hv₀
  exact ⟨acc, hv₀ ▸ hv'⟩

/-! ### Size -/

theorem size_eq_sumBy (m : OrdMap κ ν) : m.size = m.sumBy (fun _ => 1) := by
  simp [size, sumBy, Entries.sumBy]

theorem size_insert (m : OrdMap κ ν) (k : κ) (v : ν) :
    ((m.insert k v).size : Int) = m.size + if m.contains k then 0 else 1 := by
  rw [size_eq_sumBy, size_eq_sumBy, sumBy_insert]
  cases h : m.find? k <;> simp [contains, h]

theorem size_insert_of_contains {m : OrdMap κ ν} {k : κ} (v : ν) (h : m.contains k = true) :
    (m.insert k v).size = m.size := by
  have := size_insert m k v
  simp only [h, if_true] at this
  omega

theorem size_mapAccum {σ : Type} (m : OrdMap κ ν) (f : σ → κ → ν → μ × σ) (init : σ) :
    (m.mapAccum f init).1.size = m.size := by
  have hkeys : (m.mapAccum f init).1.entries.map Prod.fst = m.entries.map Prod.fst :=
    Entries.map_fst_mapAccum f init m.entries
  simpa [size] using congrArg List.length hkeys

theorem size_erase_le (m : OrdMap κ ν) (k : κ) : (m.erase k).size ≤ m.size := by
  have h : ((m.erase k).size : Int) = m.size - ((m.find? k).map fun _ => (1 : Int)).getD 0 := by
    rw [size_eq_sumBy, size_eq_sumBy, sumBy_erase]
  rcases hk : m.find? k with _ | v <;> rw [hk] at h <;> simp at h <;> omega

theorem size_eraseList_le (m : OrdMap κ ν) (ks : List κ) : (m.eraseList ks).size ≤ m.size := by
  induction ks generalizing m with
  | nil => exact le_refl _
  | cons k ks ih => exact (ih (m.erase k)).trans (size_erase_le m k)

@[simp] theorem size_mapVals (m : OrdMap κ ν) (f : κ → ν → μ) : (m.mapVals f).size = m.size := by
  simp [size, mapVals]

@[simp] theorem size_modify (m : OrdMap κ ν) (k : κ) (f : ν → ν) : (m.modify k f).size = m.size := by
  simp [modify]

theorem nodup_keys (m : OrdMap κ ν) : (m.entries.map Prod.fst).Nodup :=
  (List.pairwise_map.mpr m.sorted).imp ne_of_lt

theorem mem_keys (m : OrdMap κ ν) (k : κ) : k ∈ m.keys ↔ m.contains k = true := by
  simp only [keys, List.mem_map, contains, Option.isSome_iff_exists, ← mem_entries_iff]
  exact ⟨fun ⟨e, he, hek⟩ => ⟨e.2, hek ▸ he⟩, fun ⟨v, hv⟩ => ⟨(k, v), hv, rfl⟩⟩

/-- A map with a key has an entry. -/
theorem size_pos_of_contains {m : OrdMap κ ν} {k : κ} (hk : m.contains k = true) : 0 < m.size := by
  have hpos : 0 < m.keys.length := List.length_pos_of_mem ((m.mem_keys k).mpr hk)
  simpa [keys, size] using hpos

/-- A map whose only key is `k` has one entry. -/
theorem size_eq_one {m : OrdMap κ ν} {k : κ} (hk : m.contains k = true)
    (honly : ∀ k', m.contains k' = true → k' = k) : m.size = 1 := by
  have hmem := m.mem_keys
  have hnodup : m.keys.Nodup := (List.pairwise_map.mpr m.sorted).imp ne_of_lt
  have hle : m.keys.length ≤ [k].length :=
    (List.subperm_of_subset hnodup fun k' hk' => by
      simp [honly k' ((hmem k').mp hk')]).length_le
  have hpos : 0 < m.keys.length := List.length_pos_of_mem ((hmem k).mpr hk)
  simp only [size, keys, List.length_map, List.length_singleton] at hle hpos ⊢
  omega

theorem size_filter_le (m : OrdMap κ ν) (p : κ → ν → Bool) : (m.filter p).size ≤ m.size :=
  List.length_filter_le _ _

theorem size_insert_of_not_contains {m : OrdMap κ ν} {k : κ} (v : ν) (h : m.contains k = false) :
    (m.insert k v).size = m.size + 1 := by
  have := size_insert m k v
  simp only [h, Bool.false_eq_true, if_false] at this
  omega

/-- Taking the keys of `m` out of a list without repetitions that holds all of them leaves
`m.size` elements fewer. -/
theorem length_filter_not_contains {l : List κ} (hl : l.Nodup) (m : OrdMap κ ν)
    (hsub : ∀ k, m.contains k = true → k ∈ l) :
    (l.filter fun k => !m.contains k).length + m.size = l.length := by
  -- the elements that are keys are the keys, in another order
  have hnd : m.keys.Nodup := m.nodup_keys
  have hperm : (l.filter fun k => m.contains k).Perm m.keys :=
    (List.perm_ext_iff_of_nodup (hl.filter _) hnd).mpr fun k => by
      rw [List.mem_filter, mem_keys]
      exact ⟨fun h => h.2, fun h => ⟨hsub k h, h⟩⟩
  have hsplit := List.length_eq_length_filter_add (l := l) (fun k => m.contains k)
  have hkeys : m.keys.length = m.size := by simp [keys, size]
  rw [hperm.length_eq, hkeys] at hsplit
  omega

/-! ### Properties of every entry -/

/-- Every entry of the map satisfies `P`. -/
def All (P : κ → ν → Prop) (m : OrdMap κ ν) : Prop := ∀ k v, m.find? k = some v → P k v

theorem all_empty (P : κ → ν → Prop) : (empty : OrdMap κ ν).All P := by
  intro k v h
  simp at h

theorem All.imp {P Q : κ → ν → Prop} {m : OrdMap κ ν} (h : m.All P) (hPQ : ∀ k v, P k v → Q k v) :
    m.All Q :=
  fun k v hv => hPQ k v (h k v hv)

theorem All.insert {P : κ → ν → Prop} {m : OrdMap κ ν} (h : m.All P) {k : κ} {v : ν} (hv : P k v) :
    (m.insert k v).All P := by
  intro k' v' hk'
  rw [find?_insert] at hk'
  split at hk'
  · next heq =>
    cases hk'
    exact heq ▸ hv
  · exact h k' v' hk'

theorem All.filter {P : κ → ν → Prop} {m : OrdMap κ ν} (h : m.All P) (p : κ → ν → Bool) :
    (m.filter p).All P := by
  intro k v hk
  rw [find?_filter] at hk
  exact h k v (Option.filter_eq_some_iff.mp hk).1

theorem All.erase {P : κ → ν → Prop} {m : OrdMap κ ν} (h : m.All P) (k : κ) : (m.erase k).All P :=
  h.filter _

theorem All.eraseList {P : κ → ν → Prop} {m : OrdMap κ ν} (h : m.All P) (ks : List κ) :
    (m.eraseList ks).All P := by
  intro k v hk
  rw [find?_eraseList] at hk
  split at hk
  · cases hk
  · exact h k v hk

theorem All.mapVals {P : κ → ν → Prop} {Q : κ → μ → Prop} {m : OrdMap κ ν} (h : m.All P)
    {f : κ → ν → μ} (hf : ∀ k v, P k v → Q k (f k v)) : (m.mapVals f).All Q := by
  intro k v hk
  rw [find?_mapVals] at hk
  obtain ⟨v₀, hv₀, rfl⟩ := Option.map_eq_some_iff.mp hk
  exact hf k v₀ (h k v₀ hv₀)

theorem All.modify {P : κ → ν → Prop} {m : OrdMap κ ν} (h : m.All P) (k : κ) {f : ν → ν}
    (hf : ∀ v, m.find? k = some v → P k v → P k (f v)) : (m.modify k f).All P := by
  intro k' v hk'
  rw [find?_modify] at hk'
  split at hk'
  · next heq =>
    subst heq
    obtain ⟨v₀, hv₀, rfl⟩ := Option.map_eq_some_iff.mp hk'
    exact hf v₀ hv₀ (h k' v₀ hv₀)
  · exact h k' v hk'

theorem All.mapAccum {σ : Type} {P : κ → ν → Prop} {Q : κ → μ → Prop} {m : OrdMap κ ν}
    (h : m.All P) {f : σ → κ → ν → μ × σ} (hf : ∀ acc k v, P k v → Q k (f acc k v).1)
    (init : σ) : (m.mapAccum f init).1.All Q := by
  intro k v hk
  obtain ⟨acc, v₀, hv₀, rfl⟩ := find?_mapAccum m f init hk
  exact hf acc k v₀ (h k v₀ hv₀)

end OrdMap

/-! ## Multimaps -/

namespace Entries

variable {κ ν : Type} [LinearOrder κ]

/-- `std::multimap::insert`: the new entry goes after those with an equal key. -/
def insertMulti (k : κ) (v : ν) : List (κ × ν) → List (κ × ν)
  | [] => [(k, v)]
  | e :: es => if k < e.1 then (k, v) :: e :: es else e :: insertMulti k v es

/-- An insertion adds its entry and keeps the others. -/
theorem mem_insertMulti {k : κ} {v : ν} {e : κ × ν} :
    ∀ {l : List (κ × ν)}, e ∈ insertMulti k v l ↔ e = (k, v) ∨ e ∈ l
  | [] => by simp [insertMulti]
  | e' :: es => by
    unfold insertMulti
    split
    · simp
    · simp only [List.mem_cons, mem_insertMulti]
      tauto

/-- `equal_range (k)`, in iteration order. -/
def equalRange (k : κ) (l : List (κ × ν)) : List ν :=
  (l.filter (fun e => e.1 = k)).map Prod.snd

/-- `find (k)` on a multimap: the first entry of the equal range. -/
def findMulti (k : κ) (l : List (κ × ν)) : Option ν := (equalRange k l).head?

end Entries

/-! ## Sets -/

/-- A finite set listed in increasing order: the model of `std::set`. -/
structure OrdSet (κ : Type) [LinearOrder κ] where
  elems : List κ
  sorted : elems.Pairwise (· < ·)

namespace OrdSet

variable {κ : Type} [LinearOrder κ]

/-- Insertion into an increasing list, a no-op on a present element. -/
def insertList (k : κ) : List κ → List κ
  | [] => [k]
  | a :: as => if k < a then k :: a :: as else if k = a then a :: as else a :: insertList k as

theorem mem_insertList {k a : κ} : ∀ {l : List κ}, a ∈ insertList k l ↔ a = k ∨ a ∈ l
  | [] => by simp [insertList]
  | b :: bs => by
    unfold insertList
    split
    · simp
    · split
      · next h =>
        subst h
        constructor
        · intro ha
          exact .inr ha
        · rintro (rfl | ha)
          · exact List.mem_cons_self
          · exact ha
      · simp only [List.mem_cons, mem_insertList]
        tauto

theorem sorted_insertList (k : κ) : ∀ {l : List κ}, l.Pairwise (· < ·) →
    (insertList k l).Pairwise (· < ·)
  | [], _ => List.pairwise_singleton _ _
  | a :: as, hs => by
    have ⟨ha, hs'⟩ := List.pairwise_cons.mp hs
    unfold insertList
    split
    · next hlt =>
      refine List.Pairwise.cons (fun b hb => ?_) hs
      rcases List.mem_cons.mp hb with rfl | hb
      · exact hlt
      · exact lt_trans hlt (ha b hb)
    · split
      · exact hs
      · next hge hne =>
        refine List.Pairwise.cons (fun b hb => ?_) (sorted_insertList k hs')
        rcases mem_insertList.mp hb with rfl | hb
        · exact lt_of_le_of_ne (not_lt.mp hge) (Ne.symm hne)
        · exact ha b hb

instance [DecidableEq κ] : DecidableEq (OrdSet κ) := fun s₁ s₂ =>
  decidable_of_iff (s₁.elems = s₂.elems)
    ⟨fun h => by cases s₁; cases s₂; cases h; rfl, fun h => h ▸ rfl⟩

/-- The empty set. -/
def empty : OrdSet κ := ⟨[], List.Pairwise.nil⟩

instance : EmptyCollection (OrdSet κ) := ⟨empty⟩

instance : Inhabited (OrdSet κ) := ⟨empty⟩

/-- `insert (k)`. -/
def insert (s : OrdSet κ) (k : κ) : OrdSet κ := ⟨insertList k s.elems, sorted_insertList k s.sorted⟩

/-- `count (k) > 0`. -/
def contains (s : OrdSet κ) (k : κ) : Bool := decide (k ∈ s.elems)

/-- Keep the elements satisfying `p`. -/
def filter (s : OrdSet κ) (p : κ → Bool) : OrdSet κ :=
  ⟨s.elems.filter p, s.sorted.sublist List.filter_sublist⟩

/-- `erase (k)`. -/
def erase (s : OrdSet κ) (k : κ) : OrdSet κ := s.filter (fun a => a != k)

/-- `size ()`. -/
def size (s : OrdSet κ) : Nat := s.elems.length

/-- `empty ()`. -/
def isEmpty (s : OrdSet κ) : Bool := s.elems.isEmpty

theorem mem_insert {s : OrdSet κ} {k a : κ} : a ∈ (s.insert k).elems ↔ a = k ∨ a ∈ s.elems :=
  mem_insertList

theorem contains_iff (s : OrdSet κ) (k : κ) : s.contains k = true ↔ k ∈ s.elems := by
  simp [contains]

/-- Sets are equal when they have the same elements. -/
theorem ext {s₁ s₂ : OrdSet κ} (h : ∀ a, a ∈ s₁.elems ↔ a ∈ s₂.elems) : s₁ = s₂ := by
  have hperm : s₁.elems.Perm s₂.elems :=
    (List.perm_ext_iff_of_nodup (s₁.sorted.imp ne_of_lt) (s₂.sorted.imp ne_of_lt)).mpr h
  have heq : s₁.elems = s₂.elems :=
    List.Perm.eq_of_pairwise (fun a b _ _ hab hba => absurd hab (not_lt.mpr hba.le))
      s₁.sorted s₂.sorted hperm
  cases s₁
  cases s₂
  cases heq
  rfl

theorem insert_comm (s : OrdSet κ) (a b : κ) : (s.insert a).insert b = (s.insert b).insert a :=
  ext (fun c => by simp only [mem_insert]; tauto)

@[simp] theorem contains_empty (k : κ) : (empty : OrdSet κ).contains k = false := by
  simp [contains, empty]

@[simp] theorem contains_insert (s : OrdSet κ) (k a : κ) :
    (s.insert k).contains a = (decide (a = k) || s.contains a) := by
  simp [contains, mem_insert]

@[simp] theorem contains_erase (s : OrdSet κ) (k a : κ) :
    (s.erase k).contains a = (!decide (a = k) && s.contains a) := by
  simp [contains, erase, filter, and_comm]

theorem nodup (s : OrdSet κ) : s.elems.Nodup := s.sorted.imp ne_of_lt

theorem mem_foldl_insert {a : κ} : ∀ (l : List κ) (s : OrdSet κ),
    a ∈ (l.foldl insert s).elems ↔ a ∈ l ∨ a ∈ s.elems
  | [], s => by simp
  | b :: l, s => by
    rw [List.foldl_cons, mem_foldl_insert l, mem_insert, List.mem_cons]
    tauto

/-- `std::set (l.begin (), l.end ())` of a list without repetitions has as many elements as
the list. -/
theorem size_foldl_insert {l : List κ} (hl : l.Nodup) : (l.foldl insert empty).size = l.length := by
  have hperm : (l.foldl insert empty).elems.Perm l :=
    (List.perm_ext_iff_of_nodup (nodup _) hl).mpr fun a => by
      simp [mem_foldl_insert, empty]
  exact hperm.length_eq

end OrdSet
