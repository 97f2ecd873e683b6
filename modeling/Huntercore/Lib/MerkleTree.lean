import Mathlib

/-!
# Merkle trees whose odd levels are closed by duplication

The tree over a list of leaves is built level by level: a level is the list of the hashes of the
adjacent pairs of the level below, and an odd level pairs its last node with itself (`levelUp`).
The root is the one node of the first level that has a single node (`root`). The path of a leaf
lists the siblings of its ancestors, the sibling of a node being its pair partner, or the node
itself at the end of an odd level (`branch`); hashing a leaf up its path gives the root back
(`foldPath_branch`).

`node L ℓ p` is node `p` of level `ℓ`. Level `ℓ` has `⌈n / 2^ℓ⌉` nodes (`length_level`), so node
`p` is there iff `p * 2^ℓ < n` (`lt_length_level_iff`), and a node is the hash of its two children
(`node_succ_of_lt`) or of its one child twice (`node_succ_of_eq`). Two siblings are complete when
both cover `2^ℓ` leaves. When the hash is injective, a level with two equal siblings has a pair
of equal complete siblings at or below it (`equalSiblings_iff`). Nothing here mentions a
particular program.
-/

namespace MerkleTree

variable {α : Type} (H : α → α → α)

/-! ## Levels -/

/-- One level up: the hashes of adjacent pairs, the last node of an odd level hashed with
itself. -/
def levelUp : List α → List α
  | [] => []
  | [a] => [H a a]
  | a :: b :: l => H a b :: levelUp l

theorem length_levelUp : ∀ l : List α, (levelUp H l).length = (l.length + 1) / 2
  | [] => by simp [levelUp]
  | [_] => by simp [levelUp]
  | _ :: _ :: l => by
    simp only [levelUp, List.length_cons, length_levelUp l]
    omega

/-- Level `ℓ` of the tree over the leaves `L`, which are level `0`. -/
def level (L : List α) (ℓ : Nat) : List α := (levelUp H)^[ℓ] L

variable {H} in
@[simp] theorem level_zero (L : List α) : level H L 0 = L := rfl

variable {H} in
theorem level_succ (L : List α) (ℓ : Nat) : level H L (ℓ + 1) = levelUp H (level H L ℓ) :=
  Function.iterate_succ_apply' _ _ _

variable {H} in
theorem level_succ' (L : List α) (ℓ : Nat) : level H L (ℓ + 1) = level H (levelUp H L) ℓ :=
  Function.iterate_succ_apply _ _ _

variable {H} in
theorem length_level_succ (L : List α) (ℓ : Nat) :
    (level H L (ℓ + 1)).length = ((level H L ℓ).length + 1) / 2 := by
  rw [level_succ, length_levelUp]

variable {H} in
/-- Level `ℓ` has `⌈n / 2^ℓ⌉` nodes. -/
theorem length_level (L : List α) : ∀ ℓ, (level H L ℓ).length = (L.length + 2 ^ ℓ - 1) / 2 ^ ℓ
  | 0 => by simp
  | ℓ + 1 => by
    have hP : 0 < 2 ^ ℓ := Nat.two_pow_pos ℓ
    rw [length_level_succ, length_level L ℓ, pow_succ, ← Nat.div_div_eq_div_mul,
      ← Nat.add_div_right _ hP]
    congr 2
    omega

variable {H} in
/-- Node `p` of level `ℓ` exists iff the leaves before its block are fewer than the leaves. -/
theorem lt_length_level_iff (L : List α) (ℓ p : Nat) :
    p < (level H L ℓ).length ↔ p * 2 ^ ℓ < L.length := by
  have hP : 0 < 2 ^ ℓ := Nat.two_pow_pos ℓ
  rw [length_level, ← Nat.add_one_le_iff, Nat.le_div_iff_mul_le hP, Nat.add_mul, one_mul]
  omega

variable {H} in
theorem length_level_pos {L : List α} (hL : L ≠ []) (ℓ : Nat) : 0 < (level H L ℓ).length := by
  rw [lt_length_level_iff, zero_mul]
  exact List.length_pos_iff.mpr hL

variable {H} in
/-- The nodes of a level cover the leaves with less than one block to spare. -/
theorem length_level_mul_lt {L : List α} (hL : L ≠ []) (ℓ : Nat) :
    (level H L ℓ).length * 2 ^ ℓ < L.length + 2 ^ ℓ := by
  have hpos := length_level_pos (H := H) hL ℓ
  have hlast := (lt_length_level_iff (H := H) L ℓ ((level H L ℓ).length - 1)).mp (by omega)
  calc (level H L ℓ).length * 2 ^ ℓ = ((level H L ℓ).length - 1) * 2 ^ ℓ + 2 ^ ℓ := by
        rw [← add_one_mul, Nat.sub_add_cancel (Nat.one_le_iff_ne_zero.mpr hpos.ne')]
    _ < L.length + 2 ^ ℓ := by omega

variable {H} in
/-- Up to the lowest set bit of the number of leaves, each level has half the nodes of the one
below. -/
theorem length_level_of_low_bits (L : List α) {ℓ0 : Nat}
    (hlow : ∀ ℓ < ℓ0, L.length / 2 ^ ℓ % 2 = 0) :
    ∀ ℓ ≤ ℓ0, (level H L ℓ).length = L.length / 2 ^ ℓ
  | 0, _ => by simp
  | ℓ + 1, hle => by
    have hbit := hlow ℓ (by omega)
    rw [length_level_succ, length_level_of_low_bits L hlow ℓ (by omega), pow_succ,
      ← Nat.div_div_eq_div_mul]
    omega

variable [Inhabited α]

theorem getD_levelUp_of_lt : ∀ {l : List α} {q : Nat}, 2 * q + 1 < l.length →
    (levelUp H l).getD q default = H (l.getD (2 * q) default) (l.getD (2 * q + 1) default)
  | [], _, h => absurd h (by simp)
  | [_], _, h => absurd h (by simp)
  | _ :: _ :: _, 0, _ => rfl
  | _ :: _ :: l, q + 1, h => by
    have h' : 2 * q + 1 < l.length := by simp at h; omega
    rw [levelUp, List.getD_cons_succ, getD_levelUp_of_lt h',
      show 2 * (q + 1) = 2 * q + 1 + 1 by omega]
    simp

theorem getD_levelUp_of_eq : ∀ {l : List α} {q : Nat}, 2 * q + 1 = l.length →
    (levelUp H l).getD q default = H (l.getD (2 * q) default) (l.getD (2 * q) default)
  | [], _, h => absurd h (by simp)
  | [_], 0, _ => rfl
  | [_], _ + 1, h => absurd h (by simp)
  | _ :: _ :: _, 0, h => absurd h (by simp)
  | _ :: _ :: l, q + 1, h => by
    have h' : 2 * q + 1 = l.length := by simp at h; omega
    rw [levelUp, List.getD_cons_succ, getD_levelUp_of_eq h',
      show 2 * (q + 1) = 2 * q + 1 + 1 by omega]
    simp

/-- Node `p` of level `ℓ`. -/
def node (L : List α) (ℓ p : Nat) : α := (level H L ℓ).getD p default

variable {H}

@[simp] theorem node_zero (L : List α) (p : Nat) : node H L 0 p = L.getD p default := rfl

/-- A node with two children hashes them. -/
theorem node_succ_of_lt {L : List α} {ℓ p : Nat} (h : 2 * p + 1 < (level H L ℓ).length) :
    node H L (ℓ + 1) p = H (node H L ℓ (2 * p)) (node H L ℓ (2 * p + 1)) := by
  rw [node, level_succ, getD_levelUp_of_lt H h]
  rfl

/-- The last node of a level above an odd one hashes its one child twice. -/
theorem node_succ_of_eq {L : List α} {ℓ p : Nat} (h : 2 * p + 1 = (level H L ℓ).length) :
    node H L (ℓ + 1) p = H (node H L ℓ (2 * p)) (node H L ℓ (2 * p)) := by
  rw [node, level_succ, getD_levelUp_of_eq H h]
  rfl

/-! ## The root -/

variable (H)

/-- The root: the one node of the first level with a single node; the default value for no
leaves. -/
def root : List α → α
  | [] => default
  | [a] => a
  | a :: b :: l => root (levelUp H (a :: b :: l))
termination_by l => l.length
decreasing_by
  rw [length_levelUp]
  simp only [List.length_cons]
  omega

variable {H}

/-- The root is node `0` of the first level with one node. -/
theorem root_eq_node : ∀ {L : List α} {ℓ : Nat}, (level H L ℓ).length = 1 →
    (∀ ℓ' < ℓ, 1 < (level H L ℓ').length) → root H L = node H L ℓ 0
  | L, 0, h, _ => by
    obtain ⟨a, rfl⟩ := List.length_eq_one_iff.mp h
    unfold root
    rfl
  | L, ℓ + 1, h, hmin => by
    -- a level above the leaves: the leaves are at least two, and the root is that of the
    -- level above them
    have h2 : 1 < L.length := hmin 0 (Nat.succ_pos ℓ)
    match L, h2 with
    | a :: b :: l, _ =>
      unfold root
      rw [node, level_succ', ← node]
      rw [level_succ'] at h
      exact root_eq_node h fun ℓ' hℓ' => by
        simpa [level_succ'] using hmin (ℓ' + 1) (Nat.succ_lt_succ hℓ')

/-! ## Paths -/

/-- The pair partner of position `p`. -/
def partner (p : Nat) : Nat := if p % 2 = 0 then p + 1 else p - 1

variable (H)

/-- The sibling of node `p` of level `ℓ`: its partner, or itself where the partner is past the end
of an odd level. -/
def sibling (L : List α) (ℓ p : Nat) : α :=
  if partner p < (level H L ℓ).length then node H L ℓ (partner p) else node H L ℓ p

/-- The path of leaf `i` through the levels below `d`: the sibling of its ancestor on each. -/
def branch (L : List α) (i d : Nat) : List α :=
  (List.range d).map fun ℓ => sibling H L ℓ (i / 2 ^ ℓ)

/-- Hashing a node up a path: the sibling goes to the left where the position is odd. -/
def foldPath : α → List α → Nat → α
  | h, [], _ => h
  | h, s :: b, i => foldPath (if i % 2 = 1 then H s h else H h s) b (i / 2)

variable {H}

theorem branch_succ (L : List α) (i d : Nat) :
    branch H L i (d + 1) = branch H L i d ++ [sibling H L d (i / 2 ^ d)] := by
  simp [branch, List.range_succ]

/-- A right child's sibling is the node on its left. -/
theorem sibling_of_odd {L : List α} {ℓ p : Nat} (hp : p % 2 = 1)
    (hlt : p < (level H L ℓ).length) : sibling H L ℓ p = node H L ℓ (p - 1) := by
  have hpart : partner p = p - 1 := by simp [partner, hp]
  rw [sibling, hpart, if_pos (by omega)]

/-- A left child's sibling is the node on its right, where there is one. -/
theorem sibling_of_even {L : List α} {ℓ p : Nat} (hp : p % 2 = 0)
    (hlt : p + 1 < (level H L ℓ).length) : sibling H L ℓ p = node H L ℓ (p + 1) := by
  have hpart : partner p = p + 1 := by simp [partner, hp]
  rw [sibling, hpart, if_pos hlt]

/-- The last node of an odd level is its own sibling. -/
theorem sibling_of_last {L : List α} {ℓ p : Nat} (hp : p % 2 = 0)
    (hlast : p + 1 = (level H L ℓ).length) : sibling H L ℓ p = node H L ℓ p := by
  have hpart : partner p = p + 1 := by simp [partner, hp]
  rw [sibling, hpart, if_neg (by omega)]

/-- One step up a path gives the parent. -/
theorem hash_sibling {L : List α} {ℓ p : Nat} (hp : p < (level H L ℓ).length) :
    (if p % 2 = 1 then H (sibling H L ℓ p) (node H L ℓ p) else H (node H L ℓ p) (sibling H L ℓ p))
      = node H L (ℓ + 1) (p / 2) := by
  by_cases hodd : p % 2 = 1
  · -- the right child: its partner is on its left
    rw [if_pos hodd, sibling_of_odd hodd hp, node_succ_of_lt (show 2 * (p / 2) + 1 < _ by omega)]
    congr 2 <;> omega
  · rw [if_neg hodd]
    by_cases hlast : p + 1 < (level H L ℓ).length
    · rw [sibling_of_even (by omega) hlast, node_succ_of_lt (show 2 * (p / 2) + 1 < _ by omega)]
      congr 2 <;> omega
    · -- the last node of an odd level
      rw [sibling_of_last (by omega) (by omega), node_succ_of_eq (show 2 * (p / 2) + 1 = _ by omega)]
      congr 2 <;> omega

omit [Inhabited α] in
theorem div_two_pow_lt_length {L : List α} {i : Nat} (hi : i < L.length) (ℓ : Nat) :
    i / 2 ^ ℓ < (level H L ℓ).length := by
  rw [lt_length_level_iff]
  exact lt_of_le_of_lt (Nat.div_mul_le_self i (2 ^ ℓ)) hi

/-- Hashing the ancestor of leaf `i` at level `ℓ` up the siblings of the next `k` levels gives its
ancestor `k` levels up. -/
theorem foldPath_range' {L : List α} {i : Nat} (hi : i < L.length) :
    ∀ k ℓ, foldPath H (node H L ℓ (i / 2 ^ ℓ))
      ((List.range' ℓ k).map fun ℓ' => sibling H L ℓ' (i / 2 ^ ℓ')) (i / 2 ^ ℓ) =
        node H L (ℓ + k) (i / 2 ^ (ℓ + k))
  | 0, ℓ => rfl
  | k + 1, ℓ => by
    have hdiv : i / 2 ^ ℓ / 2 = i / 2 ^ (ℓ + 1) := by
      rw [Nat.div_div_eq_div_mul, pow_succ]
    rw [List.range'_succ, List.map_cons, foldPath, hash_sibling (div_two_pow_lt_length hi ℓ),
      hdiv, foldPath_range' hi k (ℓ + 1), show ℓ + 1 + k = ℓ + (k + 1) by omega]

/-- Hashing a leaf up its path to a level with one node gives the root. -/
theorem foldPath_branch {L : List α} {i d : Nat} (hi : i < L.length)
    (hd : (level H L d).length = 1) (hmin : ∀ ℓ' < d, 1 < (level H L ℓ').length) :
    foldPath H (L.getD i default) (branch H L i d) i = root H L := by
  have h := @foldPath_range' α H _ L i hi d 0
  simp only [pow_zero, Nat.div_one, node_zero, zero_add] at h
  rw [branch, List.range_eq_range', h, root_eq_node hd hmin]
  congr
  -- the ancestor on a level with one node is that node
  have h' : i / 2 ^ d < (level H L d).length := div_two_pow_lt_length hi d
  rw [hd] at h'
  exact Nat.lt_one_iff.mp h'

/-! ## Equal siblings -/

variable (H)

/-- Some level has two equal siblings at `2k` and `2k + 1`, both inside the level. -/
def EqualSiblings (L : List α) : Prop :=
  ∃ ℓ k, 2 * k + 1 < (level H L ℓ).length ∧ node H L ℓ (2 * k) = node H L ℓ (2 * k + 1)

/-- Some level has two equal siblings that both cover `2^ℓ` leaves. -/
def EqualCompleteSiblings (L : List α) : Prop :=
  ∃ ℓ k, k < L.length / 2 ^ (ℓ + 1) ∧ node H L ℓ (2 * k) = node H L ℓ (2 * k + 1)

variable {H}

theorem equalSiblings_of_equalCompleteSiblings {L : List α} (h : EqualCompleteSiblings H L) :
    EqualSiblings H L := by
  obtain ⟨ℓ, k, hk, heq⟩ := h
  refine ⟨ℓ, k, ?_, heq⟩
  rw [lt_length_level_iff]
  have hk' : (k + 1) * 2 ^ (ℓ + 1) ≤ L.length := (Nat.le_div_iff_mul_le (Nat.two_pow_pos _)).mp hk
  have : (k + 1) * 2 ^ (ℓ + 1) = (2 * k + 1) * 2 ^ ℓ + 2 ^ ℓ := by ring
  have := Nat.two_pow_pos ℓ
  omega

/-- With an injective hash, a complete node equal to the last node of its level where that one is
not complete has two equal complete siblings below it: unfolding both down the right edge ends at
a node hashed with itself. -/
theorem equalCompleteSiblings_of_eq_last {L : List α} (hH : Function.Injective2 H) :
    ∀ ℓ p q, (p + 1) * 2 ^ ℓ ≤ L.length → q < (level H L ℓ).length →
      L.length < (q + 1) * 2 ^ ℓ → node H L ℓ p = node H L ℓ q → EqualCompleteSiblings H L
  | 0, p, q, _, hq, hlast, _ => by
    simp only [level_zero, pow_zero, mul_one] at hq hlast
    omega
  | ℓ + 1, p, q, hp, hq, hlast, heq => by
    have h2 : (p + 1) * 2 ^ (ℓ + 1) = (2 * p + 1) * 2 ^ ℓ + 2 ^ ℓ := by ring
    have h2' : (2 * p + 1 + 1) * 2 ^ ℓ = (2 * p + 1) * 2 ^ ℓ + 2 ^ ℓ := by ring
    have h2q : (q + 1) * 2 ^ (ℓ + 1) = (2 * q + 1 + 1) * 2 ^ ℓ := by ring
    have hp' : 2 * p + 1 < (level H L ℓ).length := by
      rw [lt_length_level_iff]
      have := Nat.two_pow_pos ℓ
      omega
    have hq' := length_level_succ L ℓ ▸ hq
    rw [node_succ_of_lt hp'] at heq
    by_cases hpair : 2 * q + 1 < (level H L ℓ).length
    · -- the last node has two children, and its right one is the last node below
      rw [node_succ_of_lt hpair] at heq
      exact equalCompleteSiblings_of_eq_last hH ℓ (2 * p + 1) (2 * q + 1) (by omega) hpair
        (by omega) (hH heq).2
    · -- the last node is a child hashed with itself, so the complete node's children are equal
      rw [node_succ_of_eq (by omega)] at heq
      obtain ⟨h1, h2⟩ := hH heq
      refine ⟨ℓ, p, (Nat.le_div_iff_mul_le (Nat.two_pow_pos (ℓ + 1))).mpr hp, ?_⟩
      rw [h1, h2]

/-- With an injective hash, a level with two equal siblings inside it has two equal complete
siblings at or below it. -/
theorem equalSiblings_iff {L : List α} (hH : Function.Injective2 H) :
    EqualSiblings H L ↔ EqualCompleteSiblings H L := by
  refine ⟨fun ⟨ℓ, k, hk, heq⟩ => ?_, equalSiblings_of_equalCompleteSiblings⟩
  have hP := Nat.two_pow_pos (ℓ + 1)
  by_cases hc : k < L.length / 2 ^ (ℓ + 1)
  · exact ⟨ℓ, k, hc, heq⟩
  · -- the right sibling is the last node of its level and not complete
    have h2 : (k + 1) * 2 ^ (ℓ + 1) = (2 * k + 1 + 1) * 2 ^ ℓ := by ring
    have hlast : L.length < (2 * k + 1 + 1) * 2 ^ ℓ := by
      rw [← h2]
      exact Nat.lt_of_not_le fun h => hc ((Nat.le_div_iff_mul_le hP).mpr h)
    exact equalCompleteSiblings_of_eq_last hH ℓ (2 * k) (2 * k + 1)
      (le_of_lt ((lt_length_level_iff L ℓ (2 * k + 1)).mp hk)) hk hlast heq

end MerkleTree
