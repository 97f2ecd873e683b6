import Mathlib

/-!
# Walks as chains

A walk in a relation `R` is a list whose neighbours are related (`List.IsChain`). The facts that
arguments about walks rest on: walks compose end to start; along a walk whose steps each move at
most one unit of a distance with the triangle inequality, the ends are at most the number of
steps apart; and a walk that visits a point twice can be cut to a shorter walk between the same
ends, so a shortest walk visits no point twice.
-/

namespace List

variable {α : Type}

/-- Along a walk whose steps each move at most one unit, the ends are at most the number of
steps apart. -/
theorem IsChain.dist_le {d : α → α → Nat} (hself : ∀ a, d a a = 0)
    (htri : ∀ a b c, d a c ≤ d a b + d b c) :
    ∀ {a b : α} {l : List α}, IsChain (fun x y => d x y ≤ 1) (a :: l) →
      (a :: l).getLast? = some b → d a b ≤ l.length
  | a, b, [], _, hlast => by
    obtain rfl : a = b := by simpa using hlast
    rw [hself]
    exact le_refl _
  | a, b, c :: l, h, hlast => by
    rw [isChain_cons_cons] at h
    have hrest : d c b ≤ l.length :=
      IsChain.dist_le hself htri h.2 (by rw [← hlast, getLast?_cons_cons])
    calc d a b ≤ d a c + d c b := htri a c b
      _ ≤ 1 + l.length := Nat.add_le_add h.1 hrest
      _ = (c :: l).length := by rw [length_cons, Nat.add_comm]

/-- Every point a walk enters has what each step guarantees of its end. -/
theorem IsChain.forall_mem_of_rel {R : α → α → Prop} {p : α → Prop} (hR : ∀ a b, R a b → p b) :
    ∀ {a : α} {l : List α}, IsChain R (a :: l) → ∀ x ∈ l, p x
  | _, [], _ => by simp
  | a, c :: l, h => by
    rw [isChain_cons_cons] at h
    intro x hx
    rcases mem_cons.mp hx with rfl | hx
    · exact hR a x h.1
    · exact IsChain.forall_mem_of_rel hR h.2 x hx

/-- Two walks compose when the first ends where the second starts. -/
theorem IsChain.append_of_getLast? {R : α → α → Prop} {a b : α} {l₁ l₂ : List α}
    (h₁ : IsChain R (a :: l₁)) (hlast : (a :: l₁).getLast? = some b) (h₂ : IsChain R (b :: l₂)) :
    IsChain R (a :: (l₁ ++ l₂)) := by
  rw [← cons_append]
  refine h₁.append h₂.tail ?_
  intro x hx y hy
  rw [hlast, Option.mem_some_iff] at hx
  subst hx
  cases l₂ with
  | nil => simp at hy
  | cons c l₂ =>
    rw [head?_cons, Option.mem_some_iff] at hy
    subst hy
    exact (isChain_cons_cons.mp h₂).1

theorem getLast?_cons_append_of_getLast? {a b : α} {l₁ l₂ : List α}
    (hlast : (a :: l₁).getLast? = some b) : (a :: (l₁ ++ l₂)).getLast? = (b :: l₂).getLast? := by
  rw [← cons_append, getLast?_append, hlast]
  cases l₂ with
  | nil => simp
  | cons c l₂ => simp [getLast?_cons]

/-- A walk that visits a point twice can be cut to a shorter walk between the same ends. -/
theorem IsChain.exists_shorter {R : α → α → Prop} :
    ∀ {a : α} {l : List α}, IsChain R (a :: l) → ¬ (a :: l).Nodup →
      ∃ l', IsChain R (a :: l') ∧ (a :: l').getLast? = (a :: l).getLast? ∧ l'.length < l.length
  | a, [], _, hdup => absurd (nodup_singleton a) hdup
  | a, c :: l, h, hdup => by
    rw [nodup_cons, not_and_or, not_not] at hdup
    rcases hdup with hmem | hdup
    · -- `a` comes back: keep the walk from its second visit on
      obtain ⟨l₁, l₂, hsplit⟩ := append_of_mem hmem
      rw [hsplit] at h ⊢
      refine ⟨l₂, (isChain_cons_split.mp h).2, ?_, ?_⟩
      · rw [getLast?_cons, getLast?_cons, getLast?_append_cons, getLast?_cons, Option.getD_some]
      · rw [length_append, length_cons]
        omega
    · -- a later point comes back: cut the rest of the walk
      rw [isChain_cons_cons] at h
      obtain ⟨l', hchain, hlast, hlen⟩ := IsChain.exists_shorter h.2 hdup
      refine ⟨c :: l', isChain_cons_cons.mpr ⟨h.1, hchain⟩, ?_, ?_⟩
      · rw [getLast?_cons_cons, getLast?_cons_cons, hlast]
      · rw [length_cons, length_cons]
        omega

/-- A shortest walk between two points visits no point twice. -/
theorem IsChain.nodup_of_shortest {R : α → α → Prop} {a : α} {l : List α}
    (h : IsChain R (a :: l))
    (hmin : ∀ l', IsChain R (a :: l') → (a :: l').getLast? = (a :: l).getLast? →
      l.length ≤ l'.length) :
    (a :: l).Nodup := by
  by_contra hdup
  obtain ⟨l', hchain, hlast, hlen⟩ := h.exists_shorter hdup
  exact absurd (hmin l' hchain hlast) (not_le.mpr hlen)

end List
