import Mathlib

/-!
# Merging sorted entry lists

Two lists of `(key, value)` entries, each strictly sorted by a strict total order `r` on the keys,
are merged front to front by `mergeRight`: the smaller head goes first, and where both heads have
one key the left one is dropped, so that the right list's entry shadows it. This is how a cache's
entries are read in order over the entries of the store below it.

Over sorted lists the merge holds the right list's entries and those of the left list whose key
the right list does not have (`mem_mergeRight`), sorted again (`sortedBy_mergeRight`). A sorted
list read from its first key not below `k` (what a `lower_bound` or a seek finds) holds exactly
its entries not below `k` (`mem_dropWhile_of_sortedBy`). Nothing here mentions a particular
program.
-/

namespace Entries

variable {κ ν : Type}

/-- Strict sortedness of an entry list by `r` on the keys. -/
def SortedBy (r : κ → κ → Prop) (l : List (κ × ν)) : Prop := l.Pairwise (fun a b => r a.1 b.1)

instance (r : κ → κ → Prop) [DecidableRel r] : DecidablePred (SortedBy (ν := ν) r) := fun l =>
  inferInstanceAs (Decidable (l.Pairwise _))

section Order

variable {r : κ → κ → Prop} [IsStrictTotalOrder κ r]

/-- Of two distinct keys, the one not below the other is above it. -/
theorem rel_of_not_rel_of_ne {a b : κ} (h : ¬ r a b) (hne : a ≠ b) : r b a :=
  ((trichotomous_of r a b).resolve_left h).resolve_left hne

/-- Not being below is transitive. -/
theorem not_rel_trans {a b c : κ} (hab : ¬ r b a) (hbc : ¬ r c b) : ¬ r c a := fun hca => by
  rcases trichotomous_of r b c with h | rfl | h
  · exact hab (trans_of r h hca)
  · exact hab hca
  · exact hbc h

/-- A sorted list has no key twice. -/
theorem SortedBy.nodup_keys {l : List (κ × ν)} (hs : SortedBy r l) : (l.map Prod.fst).Nodup := by
  refine List.pairwise_map.mpr (hs.imp ?_)
  intro a b h heq
  rw [heq] at h
  exact irrefl_of r _ h

/-- A key below the head of a sorted list is below each of its keys. -/
theorem SortedBy.rel_of_mem {k : κ} {y : κ × ν} {ys : List (κ × ν)} (hs : SortedBy r (y :: ys))
    (hk : r k y.1) : ∀ e ∈ y :: ys, r k e.1 := by
  intro e he
  rcases List.mem_cons.mp he with rfl | he
  · exact hk
  · exact trans_of r hk ((List.pairwise_cons.mp hs).1 e he)

/-- ... and so is none of its keys. -/
theorem SortedBy.not_mem_keys {k : κ} {y : κ × ν} {ys : List (κ × ν)} (hs : SortedBy r (y :: ys))
    (hk : r k y.1) : k ∉ (y :: ys).map Prod.fst := by
  intro hmem
  obtain ⟨e, he, rfl⟩ := List.mem_map.mp hmem
  exact irrefl_of r _ (hs.rel_of_mem hk e he)

/-- A sorted list read from its first key not below `k` holds its entries not below `k`; `p` is
the test "below `k`" as the code computes it. -/
theorem mem_dropWhile_of_sortedBy {k : κ} {p : κ → Bool} (hp : ∀ a, p a = true ↔ r a k) :
    ∀ {l : List (κ × ν)}, SortedBy r l → ∀ e : κ × ν,
      e ∈ l.dropWhile (fun a => p a.1) ↔ e ∈ l ∧ ¬ r e.1 k
  | [], _, e => by simp
  | a :: l, hs, e => by
    by_cases ha : r a.1 k
    · rw [List.dropWhile_cons, if_pos ((hp a.1).mpr ha),
        mem_dropWhile_of_sortedBy hp (List.pairwise_cons.mp hs).2 e, List.mem_cons]
      constructor
      · rintro ⟨h, hk⟩
        exact ⟨Or.inr h, hk⟩
      · rintro ⟨rfl | h, hk⟩
        · exact absurd ha hk
        · exact ⟨h, hk⟩
    · -- every later key is above `a`, hence not below `k` either
      rw [List.dropWhile_cons, if_neg (by simpa [hp] using ha)]
      constructor
      · intro h
        refine ⟨h, fun hk => ha ?_⟩
        rcases List.mem_cons.mp h with rfl | h
        · exact hk
        · exact trans_of r ((List.pairwise_cons.mp hs).1 e h) hk
      · exact fun h => h.1

end Order

section Merge

variable (r : κ → κ → Prop) [DecidableRel r] [DecidableEq κ]

/-- The merge of two entry lists sorted by `r`, the right one's entry kept where both have a key:
the left head is dropped when the right head has its key, else the smaller head goes first. -/
def mergeRight : List (κ × ν) → List (κ × ν) → List (κ × ν)
  | [], ys => ys
  | x :: xs, [] => x :: xs
  | x :: xs, y :: ys =>
    if x.1 = y.1 then mergeRight xs (y :: ys)
    else if r x.1 y.1 then x :: mergeRight xs (y :: ys)
    else y :: mergeRight (x :: xs) ys
termination_by xs ys => xs.length + ys.length

@[simp] theorem mergeRight_nil_left (ys : List (κ × ν)) : mergeRight r [] ys = ys := by
  simp [mergeRight]

@[simp] theorem mergeRight_nil_right (xs : List (κ × ν)) : mergeRight r xs [] = xs := by
  cases xs <;> simp [mergeRight]

/-- Every entry of the merge comes from one of the two lists. -/
theorem mem_of_mem_mergeRight {e : κ × ν} {xs ys : List (κ × ν)}
    (h : e ∈ mergeRight r xs ys) : e ∈ xs ∨ e ∈ ys := by
  fun_induction mergeRight r xs ys with
  | case1 ys => exact Or.inr h
  | case2 x xs => exact Or.inl h
  | case3 x xs y ys _ ih =>
    rcases ih h with h | h
    · exact Or.inl (List.mem_cons_of_mem _ h)
    · exact Or.inr h
  | case4 x xs y ys _ _ ih =>
    rcases List.mem_cons.mp h with rfl | h
    · exact Or.inl List.mem_cons_self
    · rcases ih h with h | h
      · exact Or.inl (List.mem_cons_of_mem _ h)
      · exact Or.inr h
  | case5 x xs y ys _ _ ih =>
    rcases List.mem_cons.mp h with rfl | h
    · exact Or.inr List.mem_cons_self
    · rcases ih h with h | h
      · exact Or.inl h
      · exact Or.inr (List.mem_cons_of_mem _ h)

/-- A step of the merge that gives its head and leaves the merge of two suffixes takes away at
least one entry. -/
theorem length_lt_of_mergeRight_eq_cons {xs ys xs' ys' : List (κ × ν)} {e : κ × ν}
    (hx : xs' <:+ xs) (hy : ys' <:+ ys) (h : mergeRight r xs ys = e :: mergeRight r xs' ys') :
    xs'.length + ys'.length < xs.length + ys.length := by
  have hxl := hx.length_le
  have hyl := hy.length_le
  refine lt_of_le_of_ne (Nat.add_le_add hxl hyl) fun hlen => ?_
  -- both suffixes would be the whole lists, and the merge its own tail
  rw [hx.eq_of_length (by omega), hy.eq_of_length (by omega)] at h
  exact List.cons_ne_self e _ h.symm

variable {r} [IsStrictTotalOrder κ r]

/-- Where both heads have one key, the right one goes first and the left one is gone: the next
left key is above it. -/
theorem mergeRight_cons_of_eq {x y : κ × ν} {xs ys : List (κ × ν)} (hx : SortedBy r (x :: xs))
    (heq : x.1 = y.1) : mergeRight r (x :: xs) (y :: ys) = y :: mergeRight r xs ys := by
  rw [mergeRight, if_pos heq]
  cases xs with
  | nil => simp
  | cons x' xs =>
    have hlt : r y.1 x'.1 := heq ▸ (List.pairwise_cons.mp hx).1 x' List.mem_cons_self
    have hne : x'.1 ≠ y.1 := fun h => irrefl_of r y.1 (h ▸ hlt)
    rw [mergeRight, if_neg hne, if_neg (asymm_of r hlt)]

/-- The merge holds the right list, and the entries of the left list whose key the right list
does not have. -/
theorem mem_mergeRight {xs ys : List (κ × ν)} (hx : SortedBy r xs) (hy : SortedBy r ys)
    (e : κ × ν) :
    e ∈ mergeRight r xs ys ↔ e ∈ ys ∨ (e ∈ xs ∧ e.1 ∉ ys.map Prod.fst) := by
  fun_induction mergeRight r xs ys with
  | case1 ys => simp
  | case2 x xs => simp
  | case3 x xs y ys heq ih =>
    -- the dropped left head has the right head's key
    have hxK : x.1 ∈ (y :: ys).map Prod.fst := by simp [heq]
    rw [ih (List.pairwise_cons.mp hx).2 hy]
    constructor
    · rintro (h | ⟨h, hk⟩)
      · exact Or.inl h
      · exact Or.inr ⟨List.mem_cons_of_mem _ h, hk⟩
    · rintro (h | ⟨h, hk⟩)
      · exact Or.inl h
      · rcases List.mem_cons.mp h with rfl | h
        · exact absurd hxK hk
        · exact Or.inr ⟨h, hk⟩
  | case4 x xs y ys _ hlt ih =>
    have hxK : x.1 ∉ (y :: ys).map Prod.fst := hy.not_mem_keys hlt
    rw [List.mem_cons, ih (List.pairwise_cons.mp hx).2 hy]
    constructor
    · rintro (rfl | h | ⟨h, hk⟩)
      · exact Or.inr ⟨List.mem_cons_self, hxK⟩
      · exact Or.inl h
      · exact Or.inr ⟨List.mem_cons_of_mem _ h, hk⟩
    · rintro (h | ⟨h, hk⟩)
      · exact Or.inr (Or.inl h)
      · rcases List.mem_cons.mp h with rfl | h
        · exact Or.inl rfl
        · exact Or.inr (Or.inr ⟨h, hk⟩)
  | case5 x xs y ys hne hnlt ih =>
    -- the right head is below the left one, so no left entry has its key
    have hlt : r y.1 x.1 := rel_of_not_rel_of_ne hnlt hne
    have hyK : y.1 ∉ (x :: xs).map Prod.fst := hx.not_mem_keys hlt
    rw [List.mem_cons, ih hx (List.pairwise_cons.mp hy).2]
    constructor
    · rintro (rfl | h | ⟨h, hk⟩)
      · exact Or.inl List.mem_cons_self
      · exact Or.inl (List.mem_cons_of_mem _ h)
      · refine Or.inr ⟨h, ?_⟩
        rw [List.map_cons, List.mem_cons]
        rintro (hey | hk')
        · exact hyK (hey ▸ List.mem_map_of_mem h)
        · exact hk hk'
    · rintro (h | ⟨h, hk⟩)
      · rcases List.mem_cons.mp h with rfl | h
        · exact Or.inl rfl
        · exact Or.inr (Or.inl h)
      · exact Or.inr (Or.inr ⟨h, fun hk' => hk (List.mem_cons_of_mem _ hk')⟩)

/-- The merge of two sorted lists is sorted. -/
theorem sortedBy_mergeRight {xs ys : List (κ × ν)} (hx : SortedBy r xs) (hy : SortedBy r ys) :
    SortedBy r (mergeRight r xs ys) := by
  fun_induction mergeRight r xs ys with
  | case1 ys => exact hy
  | case2 x xs => exact hx
  | case3 x xs y ys _ ih => exact ih (List.pairwise_cons.mp hx).2 hy
  | case4 x xs y ys _ hlt ih =>
    refine List.pairwise_cons.mpr ⟨fun e he => ?_, ih (List.pairwise_cons.mp hx).2 hy⟩
    rcases mem_of_mem_mergeRight r he with he | he
    · exact (List.pairwise_cons.mp hx).1 e he
    · exact hy.rel_of_mem hlt e he
  | case5 x xs y ys hne hnlt ih =>
    have hlt : r y.1 x.1 := rel_of_not_rel_of_ne hnlt hne
    refine List.pairwise_cons.mpr ⟨fun e he => ?_, ih hx (List.pairwise_cons.mp hy).2⟩
    rcases mem_of_mem_mergeRight r he with he | he
    · exact hx.rel_of_mem hlt e he
    · exact (List.pairwise_cons.mp hy).1 e he

end Merge

end Entries
