import Mathlib
import Huntercore.Lib.OrdMap

/-!
# Overlays

A write-back cache over a store keeps the values it has changed and the keys it has removed; a
read through it asks the cache first and the store only for a key the cache does not know.
`OrdMap.overlay` is that read, as a function of the store's own read.

Writing a value or removing a key through the cache is `Function.update` of what the cache
shows (`overlay_insert`, `overlay_erase`), and so is writing or erasing a key of a store
(`find?_insert_eq_update`, `find?_erase_eq_update`). A loop of such updates is read off its
list of keys (`List.foldl_update_of_mem`, `List.foldl_update_of_forall_ne`), also when it skips
some entries (`List.foldl_update_ite_of_mem`). Nothing here mentions a particular program.
-/

/-! ## Loops of updates -/

section Update

variable {α β γ : Type} [DecidableEq α]

/-- A loop of updates leaves alone a point it never writes. -/
theorem List.foldl_update_of_forall_ne (key : γ → α) (val : γ → β) :
    ∀ (l : List γ) (f : α → β) {a : α}, (∀ e ∈ l, key e ≠ a) →
      l.foldl (fun f e => Function.update f (key e) (val e)) f a = f a
  | [], _, _, _ => rfl
  | e :: l, f, a, h => by
    rw [List.foldl_cons,
      List.foldl_update_of_forall_ne key val l _ fun e' he' => h e' (List.mem_cons_of_mem e he')]
    exact Function.update_of_ne (h e List.mem_cons_self).symm _ _

/-- A loop of updates at distinct points leaves each point at the value written there. -/
theorem List.foldl_update_of_mem (key : γ → α) (val : γ → β) :
    ∀ (l : List γ) (f : α → β) {e : γ}, (l.map key).Nodup → e ∈ l →
      l.foldl (fun f e => Function.update f (key e) (val e)) f (key e) = val e
  | [], _, _, _, he => absurd he List.not_mem_nil
  | e' :: l, f, e, hnd, he => by
    rw [List.map_cons, List.nodup_cons] at hnd
    rw [List.foldl_cons]
    rcases List.mem_cons.mp he with rfl | he
    · -- the point is written first, and never again
      rw [List.foldl_update_of_forall_ne key val l _
        fun e'' he'' heq => hnd.1 (List.mem_map.mpr ⟨e'', he'', heq⟩)]
      exact Function.update_self _ _ _
    · exact List.foldl_update_of_mem key val l _ hnd.2 he

/-- A loop that updates at each entry but those it skips is the loop of updates over the entries
it keeps. -/
theorem List.foldl_update_ite_eq_filter (skip : γ → Bool) (key : γ → α) (val : γ → β)
    (l : List γ) (f : α → β) :
    l.foldl (fun f e => if skip e then f else Function.update f (key e) (val e)) f =
      (l.filter fun e => !skip e).foldl (fun f e => Function.update f (key e) (val e)) f := by
  rw [List.foldl_filter]
  congr
  funext f e
  cases skip e <;> rfl

/-- A loop of updates that skips some entries leaves alone a point no kept entry writes. -/
theorem List.foldl_update_ite_of_forall_ne (skip : γ → Bool) (key : γ → α) (val : γ → β)
    (l : List γ) (f : α → β) {a : α} (h : ∀ e ∈ l, skip e = false → key e ≠ a) :
    l.foldl (fun f e => if skip e then f else Function.update f (key e) (val e)) f a = f a := by
  rw [List.foldl_update_ite_eq_filter]
  exact List.foldl_update_of_forall_ne key val _ f fun e he =>
    h e (List.mem_filter.mp he).1 (by simpa using (List.mem_filter.mp he).2)

/-- A loop of updates at distinct points that skips some entries leaves each point a kept entry
writes at the value written there. -/
theorem List.foldl_update_ite_of_mem (skip : γ → Bool) (key : γ → α) (val : γ → β)
    (l : List γ) (f : α → β) {e : γ} (hnd : (l.map key).Nodup) (he : e ∈ l)
    (hkeep : skip e = false) :
    l.foldl (fun f e => if skip e then f else Function.update f (key e) (val e)) f (key e) =
      val e := by
  rw [List.foldl_update_ite_eq_filter]
  have hsub : ((l.filter fun e => !skip e).map key).Sublist (l.map key) :=
    (List.filter_sublist).map key
  exact List.foldl_update_of_mem key val _ f (hnd.sublist hsub)
    (List.mem_filter.mpr ⟨he, by simp [hkeep]⟩)

end Update

/-! ## Stores and caches -/

namespace OrdMap

variable {κ ν : Type} [LinearOrder κ]

theorem find?_insert_eq_update [DecidableEq κ] (m : OrdMap κ ν) (k : κ) (v : ν) :
    (m.insert k v).find? = Function.update m.find? k (some v) := by
  funext k'
  by_cases h : k' = k
  · subst h
    simp
  · rw [find?_insert_of_ne _ _ (Ne.symm h), Function.update_of_ne h]

theorem find?_erase_eq_update [DecidableEq κ] (m : OrdMap κ ν) (k : κ) :
    (m.erase k).find? = Function.update m.find? k none := by
  funext k'
  by_cases h : k' = k
  · subst h
    simp
  · rw [find?_erase_of_ne _ (Ne.symm h), Function.update_of_ne h]

/-- What a cache holding the new values `m` and the removed keys `d` shows over a store read by
`f`: its own value, nothing for a removed key, and the store's value otherwise. -/
def overlay (m : OrdMap κ ν) (d : OrdSet κ) (f : κ → Option ν) (k : κ) : Option ν :=
  match m.find? k with
  | some v => some v
  | none => if d.contains k then none else f k

theorem overlay_of_find? {m : OrdMap κ ν} {k : κ} {v : ν} (h : m.find? k = some v)
    (d : OrdSet κ) (f : κ → Option ν) : m.overlay d f k = some v := by
  simp [overlay, h]

theorem overlay_of_contains {m : OrdMap κ ν} {d : OrdSet κ} {k : κ} (hm : m.find? k = none)
    (hd : d.contains k = true) (f : κ → Option ν) : m.overlay d f k = none := by
  simp [overlay, hm, hd]

theorem overlay_of_not_contains {m : OrdMap κ ν} {d : OrdSet κ} {k : κ} (hm : m.find? k = none)
    (hd : d.contains k = false) (f : κ → Option ν) : m.overlay d f k = f k := by
  simp [overlay, hm, hd]

/-- Writing a value through the cache: it is no longer removed, and shows the new value. -/
theorem overlay_insert [DecidableEq κ] (m : OrdMap κ ν) (d : OrdSet κ) (f : κ → Option ν) (k : κ) (v : ν) :
    (m.insert k v).overlay (d.erase k) f = Function.update (m.overlay d f) k (some v) := by
  funext k'
  by_cases h : k' = k
  · subst h
    simp [overlay]
  · rw [Function.update_of_ne h]
    simp [overlay, find?_insert_of_ne _ _ (Ne.symm h), h]

/-- Removing a key through the cache: it shows nothing there. -/
theorem overlay_erase [DecidableEq κ] (m : OrdMap κ ν) (d : OrdSet κ) (f : κ → Option ν) (k : κ) :
    (m.erase k).overlay (d.insert k) f = Function.update (m.overlay d f) k none := by
  funext k'
  by_cases h : k' = k
  · subst h
    simp [overlay]
  · rw [Function.update_of_ne h]
    simp [overlay, find?_erase_of_ne _ (Ne.symm h), h]

/-- A loop writing each entry of a map leaves, at a key of the map, what it wrote for that
entry. -/
theorem foldl_update_entries_of_find? {β : Type} [DecidableEq κ] (m : OrdMap κ ν) (F : κ × ν → β) (f : κ → β)
    {k : κ} {v : ν} (h : m.find? k = some v) :
    m.entries.foldl (fun (g : κ → β) e => Function.update g e.1 (F e)) f k = F (k, v) :=
  List.foldl_update_of_mem Prod.fst F m.entries f (nodup_keys m) ((mem_entries_iff m k v).mpr h)

/-- A loop writing each entry of a map leaves a key outside the map alone. -/
theorem foldl_update_entries_of_find?_eq_none {β : Type} [DecidableEq κ] (m : OrdMap κ ν) (F : κ × ν → β)
    (f : κ → β) {k : κ} (h : m.find? k = none) :
    m.entries.foldl (fun (g : κ → β) e => Function.update g e.1 (F e)) f k = f k := by
  refine List.foldl_update_of_forall_ne Prod.fst F m.entries f fun e he hek => ?_
  rw [← hek, (mem_entries_iff m e.1 e.2).mp he] at h
  exact Option.some_ne_none _ h

/-- Writing a cache back: its new values one by one, then its removals one by one. When no key is
both written and removed, the outcome is what the cache showed. -/
theorem overlay_eq_foldl_update [DecidableEq κ] (m : OrdMap κ ν) (d : OrdSet κ) (f : κ → Option ν)
    (hdisj : ∀ k, d.contains k = true → m.find? k = none) :
    m.overlay d f = d.elems.foldl (fun (g : κ → Option ν) k => Function.update g k none)
      (m.entries.foldl (fun (g : κ → Option ν) e => Function.update g e.1 (some e.2)) f) := by
  funext k
  -- a key the removals never write keeps what the writes left there
  have hkeep : d.contains k = false →
      d.elems.foldl (fun (g : κ → Option ν) k => Function.update g k none)
        (m.entries.foldl (fun (g : κ → Option ν) e => Function.update g e.1 (some e.2)) f) k =
      m.entries.foldl (fun (g : κ → Option ν) e => Function.update g e.1 (some e.2)) f k := by
    intro hd
    refine List.foldl_update_of_forall_ne id (fun _ => none) d.elems _ fun a ha hak => ?_
    have hk : d.contains k = true := (OrdSet.contains_iff d k).mpr (by rw [← hak]; exact ha)
    rw [hd] at hk
    exact Bool.false_ne_true hk
  cases hm : m.find? k with
  | some v =>
    have hd : d.contains k = false := by
      cases hc : d.contains k
      · rfl
      · exact absurd (hdisj k hc) (by simp [hm])
    rw [overlay_of_find? hm, hkeep hd]
    exact (foldl_update_entries_of_find? m (fun e => some e.2) f hm).symm
  | none =>
    cases hd : d.contains k
    · rw [overlay_of_not_contains hm hd, hkeep hd]
      exact (foldl_update_entries_of_find?_eq_none m (fun e => some e.2) f hm).symm
    · rw [overlay_of_contains hm hd]
      have hnd : (d.elems.map id).Nodup := by rw [List.map_id]; exact d.nodup
      exact (List.foldl_update_of_mem id (fun _ => none) d.elems _ hnd
        ((OrdSet.contains_iff d k).mp hd)).symm

end OrdMap

/-! ## Loops that write key by key -/

namespace OrdMap

variable {κ ν μ ε : Type} [LinearOrder κ]

/-- A loop that can throw, over entries with distinct keys, whose step at an entry changes the
lookup at the entry's key alone, to `g` of the entry and of the lookup before, and succeeds
where `ok` holds of them: when `ok` holds at every entry before the loop, the loop succeeds;
afterwards each key of the list has `g` of its entry and of its lookup before the loop, and
every other key its lookup before the loop. -/
theorem foldlM_of_local (step : OrdMap κ μ → κ × ν → Except ε (OrdMap κ μ))
    (g : κ → ν → Option μ → Option μ) (ok : κ → ν → Option μ → Prop)
    (hstep : ∀ a e, ok e.1 e.2 (a.find? e.1) → ∃ a', step a e = .ok a' ∧
      a'.find? e.1 = g e.1 e.2 (a.find? e.1) ∧ ∀ k, e.1 ≠ k → a'.find? k = a.find? k) :
    ∀ (l : List (κ × ν)) (a : OrdMap κ μ), (l.map Prod.fst).Nodup →
      (∀ e ∈ l, ok e.1 e.2 (a.find? e.1)) →
      ∃ a', l.foldlM step a = .ok a' ∧
        (∀ k v, Entries.lookup k l = some v → a'.find? k = g k v (a.find? k)) ∧
        (∀ k, Entries.lookup k l = none → a'.find? k = a.find? k)
  | [], a, _, _ => ⟨a, rfl, fun _ _ h => (by cases h), fun _ _ => rfl⟩
  | e :: l, a, hnd, hok => by
    rw [List.map_cons, List.nodup_cons] at hnd
    obtain ⟨a₁, hs, hat, hoff⟩ := hstep a e (hok e List.mem_cons_self)
    have hne : ∀ e' ∈ l, e.1 ≠ e'.1 := fun e' he' h => hnd.1 (h ▸ List.mem_map_of_mem he')
    -- the step leaves the keys still to come alone, so `ok` still holds there
    have hrest : ∀ e' ∈ l, ok e'.1 e'.2 (a₁.find? e'.1) := by
      intro e' he'
      rw [hoff e'.1 (hne e' he')]
      exact hok e' (List.mem_cons_of_mem e he')
    obtain ⟨a', hl, hin, hout⟩ := foldlM_of_local step g ok hstep l a₁ hnd.2 hrest
    have hlast : Entries.lookup e.1 l = none :=
      Entries.lookup_eq_none_of_forall_ne fun e' he' h => hne e' he' h.symm
    refine ⟨a', by rw [List.foldlM_cons, hs]; exact hl, fun k v hk => ?_, fun k hk => ?_⟩
    · rw [Entries.lookup_cons] at hk
      by_cases hek : e.1 = k
      · subst hek
        rw [if_pos rfl] at hk
        cases hk
        rw [hout e.1 hlast, hat]
      · rw [if_neg hek] at hk
        rw [hin k v hk, hoff k hek]
    · rw [Entries.lookup_cons] at hk
      by_cases hek : e.1 = k
      · rw [if_pos hek] at hk
        cases hk
      · rw [if_neg hek] at hk
        rw [hout k hk, hoff k hek]

/-- The same for a loop over the entries of a map that cannot throw. -/
theorem find?_foldl_of_local (step : OrdMap κ μ → κ × ν → OrdMap κ μ)
    (g : κ → ν → Option μ → Option μ)
    (hat : ∀ a e, (step a e).find? e.1 = g e.1 e.2 (a.find? e.1))
    (hoff : ∀ a e k, e.1 ≠ k → (step a e).find? k = a.find? k) (m : OrdMap κ ν) (a : OrdMap κ μ) :
    (∀ k v, m.find? k = some v → (m.entries.foldl step a).find? k = g k v (a.find? k)) ∧
      (∀ k, m.find? k = none → (m.entries.foldl step a).find? k = a.find? k) := by
  obtain ⟨a', hl, hin, hout⟩ := foldlM_of_local (ε := Empty) (fun a e => pure (step a e)) g
    (fun _ _ _ => True) (fun a e _ => ⟨step a e, rfl, hat a e, hoff a e⟩) m.entries a
    (nodup_keys m) (fun _ _ => trivial)
  have hfold : m.entries.foldl step a = a' := by
    rw [List.foldlM_pure] at hl
    exact Except.ok.inj hl
  rw [hfold]
  exact ⟨hin, hout⟩

end OrdMap
