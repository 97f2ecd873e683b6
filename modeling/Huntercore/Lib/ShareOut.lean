import Mathlib

/-!
# Sharing out in turn

An amount `a` is shared out among claimants one after another. Each takes its even share of
what is left, the amount divided by the number of claimants still to come, or as much as it
can still hold where that is less (`takeShare`); what it leaves goes to those after it
(`shareOut`). Capacities are in `ℕ∞`, where `⊤` is a claimant that takes any share.

With the claimants in increasing order of capacity, this one pass is water-filling:
- the claimants take `min a (Σ capacities)` together (`sum_shareOut`);
- none takes more than its capacity (`le_cap_of_mem_shareOut`);
- two claimants that both stayed below their capacity took amounts at most one apart
  (`shareOut_fair`). From the first claimant that stays below its capacity on, the shares
  are those of floor division by a shrinking count, which splits what is left evenly
  (`shareOut_even`), and every later claimant has room for them.
-/

/-! ## Floor division by a shrinking count -/

/-- If `a` lies between `q` and `q + 1` per head for `n + 1` heads, then so does the first
share `a / (n + 1)`, and what it leaves lies between `q` and `q + 1` per head for the other
`n`. -/
theorem Nat.div_succ_share_bounds {a q n : ℕ} (hlo : q * (n + 1) ≤ a) (hhi : a ≤ (q + 1) * (n + 1)) :
    q ≤ a / (n + 1) ∧ a / (n + 1) ≤ q + 1 ∧
      q * n ≤ a - a / (n + 1) ∧ a - a / (n + 1) ≤ (q + 1) * n := by
  have hq : q ≤ a / (n + 1) := (Nat.le_div_iff_mul_le n.succ_pos).mpr hlo
  have hq1 : a / (n + 1) ≤ q + 1 := Nat.div_le_of_le_mul (by rw [Nat.mul_comm]; exact hhi)
  have hdiv := Nat.div_mul_le_self a (n + 1)
  have hmod := Nat.lt_mul_div_succ a n.succ_pos
  refine ⟨hq, hq1, ?_, ?_⟩
  · -- the others get at least what the first got, per head
    have := Nat.mul_le_mul_right n hq
    rw [Nat.mul_succ] at hdiv
    omega
  · -- the share is `q` or `q + 1`; either way the rest fits
    rcases (show a / (n + 1) = q ∨ a / (n + 1) = q + 1 by omega) with h | h
    · rw [h, Nat.mul_comm, Nat.mul_succ] at hmod
      omega
    · rw [Nat.mul_succ] at hhi
      omega

/-- The first share itself lies between `q` and `q + 1` per head, for `q` the share. -/
theorem Nat.div_succ_mul_bounds (a n : ℕ) :
    a / (n + 1) * (n + 1) ≤ a ∧ a ≤ (a / (n + 1) + 1) * (n + 1) :=
  ⟨Nat.div_mul_le_self a _, Nat.mul_comm (n + 1) _ ▸ (Nat.lt_mul_div_succ a n.succ_pos).le⟩

/-! ## Taking a share -/

/-- What a claimant of capacity `c` takes of a share: all of it where it fits. -/
def takeShare (share : ℕ) (c : ℕ∞) : ℕ := if (share : ℕ∞) ≤ c then share else c.toNat

theorem takeShare_of_le {share : ℕ} {c : ℕ∞} (h : (share : ℕ∞) ≤ c) : takeShare share c = share :=
  if_pos h

@[simp] theorem coe_takeShare (share : ℕ) (c : ℕ∞) : (takeShare share c : ℕ∞) = min (share : ℕ∞) c := by
  unfold takeShare
  split
  · next h => rw [min_eq_left h]
  · next h =>
    rw [not_le] at h
    rw [min_eq_right h.le, ENat.natCast_toNat (ne_top_of_lt h)]

theorem takeShare_le (share : ℕ) (c : ℕ∞) : takeShare share c ≤ share := by
  have h : (takeShare share c : ℕ∞) ≤ share := by rw [coe_takeShare]; exact min_le_left _ _
  exact_mod_cast h

theorem takeShare_le_cap (share : ℕ) (c : ℕ∞) : (takeShare share c : ℕ∞) ≤ c := by
  rw [coe_takeShare]
  exact min_le_right _ _

/-- A claimant left below its capacity took the whole share. -/
theorem takeShare_eq_of_lt {share : ℕ} {c : ℕ∞} (h : (takeShare share c : ℕ∞) < c) :
    takeShare share c = share := by
  rw [coe_takeShare, min_lt_iff] at h
  rcases h with h | h
  · exact takeShare_of_le h.le
  · exact absurd h (lt_irrefl c)

/-! ## Sharing out -/

section ShareOut

variable {ι : Type} (cap : ι → ℕ∞)

/-- Sharing out `a` among the claimants `l` in turn: each claimant with what it takes. -/
def shareOut : ℕ → List ι → List (ι × ℕ)
  | _, [] => []
  | a, x :: l =>
    let t := takeShare (a / (l.length + 1)) (cap x)
    (x, t) :: shareOut (a - t) l

@[simp] theorem shareOut_nil (a : ℕ) : shareOut cap a [] = [] := rfl

theorem shareOut_cons (a : ℕ) (x : ι) (l : List ι) :
    shareOut cap a (x :: l) =
      (x, takeShare (a / (l.length + 1)) (cap x)) ::
        shareOut cap (a - takeShare (a / (l.length + 1)) (cap x)) l := rfl

/-- A claimant takes no more than what is left. -/
theorem takeShare_le_left (a : ℕ) (x : ι) (l : List ι) :
    takeShare (a / (l.length + 1)) (cap x) ≤ a :=
  (takeShare_le _ _).trans (Nat.div_le_self _ _)

@[simp] theorem map_fst_shareOut : ∀ (a : ℕ) (l : List ι), (shareOut cap a l).map Prod.fst = l
  | _, [] => rfl
  | a, x :: l => by rw [shareOut_cons, List.map_cons, map_fst_shareOut]

/-- No claimant takes more than its capacity. -/
theorem le_cap_of_mem_shareOut : ∀ (a : ℕ) (l : List ι) (p : ι × ℕ), p ∈ shareOut cap a l →
    (p.2 : ℕ∞) ≤ cap p.1
  | _, [], _, hp => absurd hp List.not_mem_nil
  | a, x :: l, p, hp => by
    rw [shareOut_cons, List.mem_cons] at hp
    rcases hp with rfl | hp
    · exact takeShare_le_cap _ _
    · exact le_cap_of_mem_shareOut _ l p hp

/-- Between `q` and `q + 1` per head, with room for `q + 1` each, every claimant takes `q` or
`q + 1`. -/
theorem shareOut_even (q : ℕ) : ∀ (l : List ι) (a : ℕ), q * l.length ≤ a → a ≤ (q + 1) * l.length →
    (∀ x ∈ l, ((q + 1 : ℕ) : ℕ∞) ≤ cap x) → ∀ p ∈ shareOut cap a l, q ≤ p.2 ∧ p.2 ≤ q + 1
  | [], _, _, _, _, p, hp => absurd hp List.not_mem_nil
  | x :: l, a, hlo, hhi, hcap, p, hp => by
    rw [List.length_cons] at hlo hhi
    obtain ⟨hq, hq1, hlo', hhi'⟩ := Nat.div_succ_share_bounds hlo hhi
    -- the share fits, so the claimant takes all of it
    have ht : takeShare (a / (l.length + 1)) (cap x) = a / (l.length + 1) :=
      takeShare_of_le ((Nat.cast_le.mpr hq1).trans (hcap x List.mem_cons_self))
    rw [shareOut_cons, ht, List.mem_cons] at hp
    rcases hp with rfl | hp
    · exact ⟨hq, hq1⟩
    · exact shareOut_even q l _ hlo' hhi' (fun y hy => hcap y (List.mem_cons_of_mem x hy)) p hp

/-- With the capacities increasing, the claimants take `min a (Σ capacities)` together. -/
theorem sum_shareOut : ∀ (a : ℕ) (l : List ι), l.Pairwise (fun x y => cap x ≤ cap y) →
    (((shareOut cap a l).map Prod.snd).sum : ℕ∞) = min (a : ℕ∞) (l.map cap).sum
  | a, [], _ => by simp
  | a, x :: l, hsort => by
    rw [List.pairwise_cons] at hsort
    rw [shareOut_cons, List.map_cons, List.sum_cons, Nat.cast_add, sum_shareOut _ l hsort.2,
      List.map_cons, List.sum_cons]
    generalize ht : takeShare (a / (l.length + 1)) (cap x) = t
    have hta : t ≤ a := ht ▸ takeShare_le_left cap a x l
    have hsplit : (a : ℕ∞) = t + ((a - t : ℕ) : ℕ∞) := by
      rw [← Nat.cast_add, Nat.add_sub_cancel' hta]
    rcases (ht ▸ takeShare_le_cap _ _ : (t : ℕ∞) ≤ cap x).lt_or_eq with hlt | heq
    · -- the first claimant keeps room, so the others have room for all that is left
      have hshare : t = a / (l.length + 1) := ht ▸ takeShare_eq_of_lt (ht ▸ hlt)
      have hrest : a - t ≤ (t + 1) * l.length := by
        obtain ⟨hlo, hhi⟩ := Nat.div_succ_mul_bounds a l.length
        rw [hshare]
        exact (Nat.div_succ_share_bounds hlo hhi).2.2.2
      have hroom : ((a - t : ℕ) : ℕ∞) ≤ (l.map cap).sum := calc
        ((a - t : ℕ) : ℕ∞) ≤ (l.map cap).length • ((t + 1 : ℕ) : ℕ∞) := by
          rw [List.length_map, nsmul_eq_mul, ← Nat.cast_mul, Nat.mul_comm]
          exact Nat.cast_le.mpr hrest
        _ ≤ (l.map cap).length • cap x := by
          refine nsmul_le_nsmul_right ?_ _
          rw [Nat.cast_succ]
          exact Order.add_one_le_of_lt hlt
        _ ≤ (l.map cap).sum := List.card_nsmul_le_sum _ _ (by simpa using hsort.1)
      rw [min_eq_left hroom, ← hsplit, min_eq_left (hsplit ▸ add_le_add hlt.le hroom)]
    · -- the first claimant filled up: the rest is shared out among the others
      rw [hsplit, ← heq, min_add_add_left]

/-- With the capacities increasing, two claimants that both stayed below their capacity took
amounts at most one apart. -/
theorem shareOut_fair : ∀ (a : ℕ) (l : List ι), l.Pairwise (fun x y => cap x ≤ cap y) →
    ∀ p ∈ shareOut cap a l, ∀ p' ∈ shareOut cap a l, (p.2 : ℕ∞) < cap p.1 → (p'.2 : ℕ∞) < cap p'.1 →
      p.2 ≤ p'.2 + 1
  | _, [], _, p, hp, _, _, _, _ => absurd hp List.not_mem_nil
  | a, x :: l, hsort, p, hp, p', hp', hlt, hlt' => by
    rw [List.pairwise_cons] at hsort
    rcases (takeShare_le_cap (a / (l.length + 1)) (cap x)).lt_or_eq with hx | hx
    · -- from the first claimant below its capacity on, everyone takes the even share of `a`
      have hshare := takeShare_eq_of_lt hx
      rw [hshare] at hx
      have hroom : ∀ y ∈ x :: l, ((a / (l.length + 1) + 1 : ℕ) : ℕ∞) ≤ cap y := by
        intro y hy
        have hxy : cap x ≤ cap y := by
          rcases List.mem_cons.mp hy with rfl | hy
          · exact le_rfl
          · exact hsort.1 y hy
        rw [Nat.cast_succ]
        exact (Order.add_one_le_of_lt hx).trans hxy
      obtain ⟨hlo, hhi⟩ := Nat.div_succ_mul_bounds a l.length
      have heven := shareOut_even cap (a / (l.length + 1)) (x :: l) a
        (by rwa [List.length_cons]) (by rwa [List.length_cons]) hroom
      have h₁ := heven p hp
      have h₂ := heven p' hp'
      omega
    · -- the first claimant filled up, so neither of the two is it
      rw [shareOut_cons, List.mem_cons] at hp hp'
      rcases hp with rfl | hp
      · exact absurd hx (ne_of_lt hlt)
      rcases hp' with rfl | hp'
      · exact absurd hx (ne_of_lt hlt')
      exact shareOut_fair _ l hsort.2 p hp p' hp' hlt hlt'

end ShareOut
