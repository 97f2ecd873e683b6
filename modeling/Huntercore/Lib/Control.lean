import Mathlib

/-!
# Loops and failures

Facts about the two shapes a translated imperative procedure takes: a `foldl` whose
accumulator pairs the mutated state with what the loop collects, and an `Except`
computation whose failures end it early. The fold lemmas say when a loop's steps can be
reordered: a loop over a batch of requests that touch distinct keys does not depend on the
order of the batch. Nothing here mentions a particular program.
-/

/-- A fold whose step commutes with a change `f` of the first component of its
accumulator: the change can be made before the loop or after it. -/
theorem List.foldl_map_fst {α β γ : Type} (f : α → α) (g : α × γ → β → α × γ)
    (hg : ∀ a c b, g (f a, c) b = (f (g (a, c) b).1, (g (a, c) b).2)) :
    ∀ (l : List β) (a : α) (c : γ), l.foldl g (f a, c) = (f (l.foldl g (a, c)).1, (l.foldl g (a, c)).2)
  | [], _, _ => rfl
  | b :: bs, a, c => by
    simp only [List.foldl_cons, hg]
    exact List.foldl_map_fst f g hg bs _ _

/-- The invariant rule of a loop: a property that each step keeps holds after the loop. -/
theorem List.foldl_invariant {α β : Type} (P : α → Prop) (f : α → β → α) :
    ∀ (l : List β), (∀ a b, b ∈ l → P a → P (f a b)) → ∀ a, P a → P (l.foldl f a)
  | [], _, _, ha => ha
  | b :: bs, hf, a, ha =>
    List.foldl_invariant P f bs (fun a' b' hb' => hf a' b' (List.mem_cons_of_mem b hb'))
      (f a b) (hf a b List.mem_cons_self ha)

/-- The invariant rule of a loop whose invariant speaks of the elements still to come: what
holds before the loop with the whole list to go holds after it with nothing to go. -/
theorem List.foldl_suffix_invariant {α β : Type} (P : α → List β → Prop) (f : α → β → α)
    (hf : ∀ a b l, P a (b :: l) → P (f a b) l) : ∀ (l : List β) (a : α), P a l → P (l.foldl f a) []
  | [], _, ha => ha
  | b :: bs, a, ha => List.foldl_suffix_invariant P f hf bs (f a b) (hf a b bs ha)

/-- The invariant rule of a loop that can fail: a property that each successful step keeps
holds after a successful loop. -/
theorem List.foldlM_option_invariant {α β : Type} (P : α → Prop) (f : α → β → Option α)
    (hf : ∀ a b a', P a → f a b = some a' → P a') :
    ∀ (l : List β) (a a' : α), P a → l.foldlM f a = some a' → P a'
  | [], a, a', ha, h => by
    rw [List.foldlM_nil] at h
    cases h
    exact ha
  | b :: bs, a, a', ha, h => by
    rw [List.foldlM_cons] at h
    cases hb : f a b with
    | none =>
      rw [hb] at h
      cases h
    | some a₁ =>
      rw [hb] at h
      exact List.foldlM_option_invariant P f hf bs a₁ a' (hf a b a₁ ha hb) h

/-- A loop none of whose steps fails succeeds, with what the loop computes when failures are
left out. -/
theorem List.foldlM_eq_some {α β : Type} (f : α → β → Option α) (g : α → β → α) :
    ∀ (l : List β), (∀ a b, b ∈ l → f a b = some (g a b)) → ∀ a, l.foldlM f a = some (l.foldl g a)
  | [], _, _ => rfl
  | b :: bs, hfg, a => by
    rw [List.foldlM_cons, hfg a b List.mem_cons_self, List.foldl_cons]
    exact List.foldlM_eq_some f g bs (fun a' b' hb' => hfg a' b' (List.mem_cons_of_mem b hb')) _

/-- Two folds whose steps commute with each other can be run in either order. -/
theorem List.foldl_foldl_comm {α β γ : Type} (f : α → β → α) (g : α → γ → α)
    (h : ∀ a b c, g (f a b) c = f (g a c) b) (l₁ : List β) (l₂ : List γ) (a : α) :
    l₂.foldl g (l₁.foldl f a) = l₁.foldl f (l₂.foldl g a) := by
  -- one step of `g` commutes with the whole fold of `f`
  have hone : ∀ a c, g (l₁.foldl f a) c = l₁.foldl f (g a c) := fun a c =>
    (List.foldl_hom (fun a => g a c) fun x b => (h x b c).symm).symm
  exact List.foldl_hom (fun a => l₁.foldl f a) hone

/-- A fold over a list whose elements have distinct keys gives the same result for every
order of the list, when the steps for two different keys commute. -/
theorem List.Perm.foldl_eq_of_nodup_keys {α β κ : Type} {f : β → α → β} {key : α → κ}
    {l₁ l₂ : List α} (p : l₁.Perm l₂) (hnd : (l₁.map key).Nodup)
    (H : ∀ x y, key x ≠ key y → ∀ z, f (f z x) y = f (f z y) x) (init : β) :
    l₁.foldl f init = l₂.foldl f init := by
  apply p.foldl_eq'
  intro x hx y hy z
  by_cases hk : key x = key y
  · have hxy : x = y := List.inj_on_of_nodup_map hnd hx hy hk
    rw [hxy]
  · exact H x y hk z

/-- A successful computation whose result is paired with a constant returns that
constant. -/
theorem Except.snd_of_map_pair_eq_ok {ε α β γ : Type} {x : Except ε α} {f : α → β} {c : γ}
    {o : β} {r : γ} (h : x.map (fun a => (f a, c)) = .ok (o, r)) : r = c := by
  cases x with
  | error e => cases h
  | ok a =>
    simp only [Except.map, Except.ok.injEq, Prod.mk.injEq] at h
    exact h.2.symm

/-- A mapped computation that succeeds succeeded with a value that the map sends to the
result. -/
theorem Except.map_eq_ok {ε α β : Type} {f : α → β} {x : Except ε α} {b : β} (h : x.map f = .ok b) :
    ∃ a, x = .ok a ∧ f a = b := by
  cases x with
  | error e => cases h
  | ok a => exact ⟨a, rfl, by simpa [Except.map] using h⟩

/-- `pure` of `Except` succeeds. -/
theorem Except.pure_eq_ok {ε α : Type} (a : α) : (pure a : Except ε α) = .ok a := rfl

/-- A computation that starts with a success goes on with its value. -/
theorem Except.ok_bind {ε α β : Type} (a : α) (f : α → Except ε β) :
    (Except.ok a >>= f) = f a := rfl

/-- A success mapped is the mapped success. -/
theorem Except.functor_map_ok {ε α β : Type} (f : α → β) (a : α) :
    (f <$> Except.ok a : Except ε β) = .ok (f a) := rfl

/-- A computation whose value, when it has one, passes a check has one: this is how a run at a
fixed input, which evaluation shows to succeed, becomes a value that a proof can name. -/
theorem Except.exists_eq_ok_of_any {ε α : Type} {x : Except ε α} {p : α → Bool}
    (h : x.toOption.any p = true) : ∃ a, x = .ok a ∧ p a = true := by
  cases x with
  | error e => cases h
  | ok a => exact ⟨a, rfl, h⟩
