import Mathlib
import Huntercore.Game.Character

/-!
# Walking a straight line

`CheckLinearPath` of `movecreator.cpp` asks whether `MoveTowardsWaypoint`, started on `start`
with the single waypoint `target`, arrives there. The step rule walks the rounded straight line
from `from` to the waypoint: one tile along the major axis per block, the minor coordinate
rounded half away from zero (`Helper::CoordUpd`). `linePoint start target k` is the `k`-th tile
of that line in closed form. The step lemma says that `MoveTowardsWaypoint` goes from
`linePoint k` to `linePoint (k + 1)` or stops in front of an obstacle; from it, `CheckLinearPath`
holds exactly when every tile of the line after `start` is walkable. The line has
`distLInf start target` steps, each of L∞ length one.
-/

namespace Huntercore

/-! ## The L∞ distance -/

/-- `distLInf` of `state.h`: the L∞ distance of two tiles. -/
def distLInf (c1 c2 : Coord) : Nat := max (c1.x - c2.x).natAbs (c1.y - c2.y).natAbs

theorem distLInf_comm (a b : Coord) : distLInf a b = distLInf b a := by
  unfold distLInf
  omega

@[simp] theorem distLInf_self (a : Coord) : distLInf a a = 0 := by
  simp [distLInf]

theorem eq_of_distLInf_eq_zero {a b : Coord} (h : distLInf a b = 0) : a = b := by
  unfold distLInf at h
  cases a
  cases b
  dsimp only at h
  congr 1 <;> omega

theorem distLInf_triangle (a b c : Coord) : distLInf a c ≤ distLInf a b + distLInf b c := by
  unfold distLInf
  omega

/-! ## The rounded line -/

/-- The minor offset after `k` tiles along the major axis of a line with major extent `du` and
minor extent `dv`: `k·|dv|/|du|` rounded half up. -/
def lineOffset (du dv : Int) (k : Nat) : Nat := (k * dv.natAbs + du.natAbs / 2) / du.natAbs

section Offset

variable (du dv : Int)

@[simp] theorem lineOffset_zero : lineOffset du dv 0 = 0 := by
  unfold lineOffset
  rcases Nat.eq_zero_or_pos du.natAbs with h | h
  · rw [h, Nat.div_zero]
  · rw [Nat.zero_mul, Nat.zero_add]
    exact Nat.div_eq_of_lt (Nat.div_lt_self h (by decide))

theorem lineOffset_natAbs (hdu : du ≠ 0) : lineOffset du dv du.natAbs = dv.natAbs := by
  have hpos : 0 < du.natAbs := Int.natAbs_pos.mpr hdu
  unfold lineOffset
  rw [Nat.mul_add_div hpos, Nat.div_eq_of_lt (Nat.div_lt_self hpos (by decide)),
    Nat.add_zero]

theorem lineOffset_le_succ (k : Nat) : lineOffset du dv k ≤ lineOffset du dv (k + 1) := by
  unfold lineOffset
  apply Nat.div_le_div_right
  rw [Nat.add_mul]
  omega

theorem lineOffset_succ_le (hle : dv.natAbs ≤ du.natAbs) (k : Nat) :
    lineOffset du dv (k + 1) ≤ lineOffset du dv k + 1 := by
  rcases Nat.eq_zero_or_pos du.natAbs with h | h
  · simp [lineOffset, h]
  unfold lineOffset
  calc ((k + 1) * dv.natAbs + du.natAbs / 2) / du.natAbs
      ≤ ((k * dv.natAbs + du.natAbs / 2) + du.natAbs) / du.natAbs := by
        apply Nat.div_le_div_right
        rw [Nat.add_mul]
        omega
    _ = (k * dv.natAbs + du.natAbs / 2) / du.natAbs + 1 := Nat.add_div_right _ h

theorem lineOffset_le (hdu : du ≠ 0) {k : Nat} (hk : k ≤ du.natAbs) :
    lineOffset du dv k ≤ dv.natAbs := by
  rw [← lineOffset_natAbs du dv hdu]
  unfold lineOffset
  apply Nat.div_le_div_right
  have := Nat.mul_le_mul_right dv.natAbs hk
  omega

/-- What is left of the minor extent never exceeds what is left of the major one: the line
reaches its target along the major axis. -/
theorem natAbs_sub_lineOffset_le (hdu : du ≠ 0) (hle : dv.natAbs ≤ du.natAbs) :
    ∀ j k, k + j = du.natAbs → dv.natAbs - lineOffset du dv k ≤ du.natAbs - k
  | 0, k, hk => by
    rw [Nat.add_zero] at hk
    rw [hk, lineOffset_natAbs du dv hdu]
    omega
  | j + 1, k, hk => by
    have ih := natAbs_sub_lineOffset_le hdu hle j (k + 1) (by omega)
    have := lineOffset_succ_le du dv hle k
    omega

end Offset

/-- Truncated division of a natural number: the sign of the divisor times the quotient of the
magnitudes. -/
theorem tdiv_natCast_eq_sign_mul (n : Nat) {d : Int} (hd : d ≠ 0) :
    (n : Int).tdiv d = d.sign * (n / d.natAbs : Nat) := by
  rcases Int.lt_or_gt_of_ne hd with hneg | hpos
  · have hd' : d = -(d.natAbs : Int) := by omega
    rw [Int.sign_eq_neg_one_of_neg hneg, hd', Int.tdiv_neg, Int.natAbs_neg, Int.natAbs_natCast]
    rw [show (n : Int).tdiv (d.natAbs : Int) = ((n / d.natAbs : Nat) : Int) from rfl]
    omega
  · obtain ⟨m, rfl⟩ := Int.eq_ofNat_of_zero_le hpos.le
    rw [Int.sign_eq_one_of_pos hpos, Int.natAbs_natCast, Int.one_mul]
    rfl

/-! ## Rays

A coordinate of the line moves from `s` towards `e` by the sign of `e - s`; these are the facts
about such a ray that the line's two axes share.
-/

section Ray

variable (s e : Int)

theorem sign_cases (d : Int) : (d < 0 ∧ d.sign = -1) ∨ (d = 0 ∧ d.sign = 0) ∨ (0 < d ∧ d.sign = 1) := by
  rcases Int.lt_trichotomy d 0 with h | h | h
  · exact Or.inl ⟨h, Int.sign_eq_neg_one_of_neg h⟩
  · exact Or.inr (Or.inl ⟨h, by rw [h, Int.sign_zero]⟩)
  · exact Or.inr (Or.inr ⟨h, Int.sign_eq_one_of_pos h⟩)

theorem ray_end : s + (e - s).sign * (e - s).natAbs = e := by
  rw [Int.sign_mul_natAbs]
  omega

theorem natAbs_ray_sub_end {m : Nat} (hm : m ≤ (e - s).natAbs) :
    (s + (e - s).sign * m - e).natAbs = (e - s).natAbs - m := by
  rcases sign_cases (e - s) with ⟨_, hs⟩ | ⟨_, hs⟩ | ⟨_, hs⟩ <;> rw [hs] <;> omega

theorem natAbs_ray_sub_ray_le {m n : Nat} (hnm : n ≤ m) (hm : m ≤ n + 1) :
    (s + (e - s).sign * n - (s + (e - s).sign * m)).natAbs ≤ 1 := by
  rcases sign_cases (e - s) with ⟨_, hs⟩ | ⟨_, hs⟩ | ⟨_, hs⟩ <;> rw [hs] <;> omega

theorem natAbs_ray_sub_ray_succ (he : e ≠ s) (n : Nat) :
    (s + (e - s).sign * n - (s + (e - s).sign * (n + 1 : Nat))).natAbs = 1 := by
  rcases sign_cases (e - s) with ⟨_, hs⟩ | ⟨_, hs⟩ | ⟨_, hs⟩ <;> rw [hs] <;> omega

theorem ray_mem_Icc {m : Nat} (hm : m ≤ (e - s).natAbs) :
    min s e ≤ s + (e - s).sign * m ∧ s + (e - s).sign * m ≤ max s e := by
  rcases sign_cases (e - s) with ⟨_, hs⟩ | ⟨_, hs⟩ | ⟨_, hs⟩ <;> rw [hs] <;> omega

/-- `CoordStep` moves the major coordinate one tile further along its ray. -/
theorem CoordStep_ray {k : Nat} (hk : k < (e - s).natAbs) :
    CoordStep (s + (e - s).sign * k) e = s + (e - s).sign * (k + 1 : Nat) := by
  unfold CoordStep
  rcases sign_cases (e - s) with ⟨_, hs⟩ | ⟨_, hs⟩ | ⟨_, hs⟩ <;> rw [hs] <;> split_ifs <;> omega

end Ray

/-- `CoordUpd` computes the minor coordinate of the line after `k` tiles along the major axis,
wherever the minor coordinate was before. -/
theorem CoordUpd_line {du : Int} (hdu : du ≠ 0) (dv fu fv : Int) (k j : Nat) :
    CoordUpd (fu + du.sign * k) (fv + dv.sign * lineOffset du dv j) du dv fu fv =
      fv + dv.sign * lineOffset du dv k := by
  unfold CoordUpd
  by_cases hdv : dv = 0
  · simp [hdv]
  rw [if_pos hdv]
  dsimp only
  have hnum : |(fu + du.sign * k - fu) * dv| + |du| / 2 =
      ((k * dv.natAbs + du.natAbs / 2 : Nat) : Int) := by
    rw [add_sub_cancel_left, abs_mul, abs_mul, Int.abs_sign_of_ne_zero hdu, Int.abs_natCast]
    push_cast
    rw [Int.abs_eq_natAbs, Int.abs_eq_natAbs, one_mul]
  rw [hnum, tdiv_natCast_eq_sign_mul _ hdu,
    show (k * dv.natAbs + du.natAbs / 2) / du.natAbs = lineOffset du dv k from rfl]
  rcases Nat.eq_zero_or_pos k with rfl | hk
  · simp
  -- for `k > 0` the product is negative exactly when the two extents have opposite signs
  have hneg : (fu + du.sign * k - fu) * dv < 0 ↔ du.sign * dv.sign = -1 := by
    rw [← Int.sign_eq_neg_one_iff_neg, add_sub_cancel_left, Int.sign_mul, Int.sign_mul,
      Int.sign_sign, Int.sign_natCast_of_ne_zero (by omega), mul_one]
  rw [if_congr hneg rfl rfl]
  rcases Int.lt_or_gt_of_ne hdu with hu | hu <;> rcases Int.lt_or_gt_of_ne hdv with hv | hv <;>
    simp [Int.sign_eq_neg_one_of_neg, Int.sign_eq_one_of_pos, hu, hv, add_comm]

/-! ## The tiles of the line -/

/-- The `k`-th tile of the rounded straight line from `start` to `target`: `k` tiles along the
major axis (`x` when `|dx| > |dy|`, as `MoveTowardsWaypoint` chooses it) and `lineOffset` tiles
along the minor one. -/
def linePoint (start target : Coord) (k : Nat) : Coord :=
  let dx := target.x - start.x
  let dy := target.y - start.y
  if |dx| > |dy| then ⟨start.x + dx.sign * k, start.y + dy.sign * lineOffset dx dy k⟩
  else ⟨start.x + dx.sign * lineOffset dy dx k, start.y + dy.sign * k⟩

section LinePoint

variable (start target : Coord)

theorem natAbs_lt_of_abs_gt {a b : Int} (h : |a| > |b|) : b.natAbs < a.natAbs := by
  rw [Int.abs_eq_natAbs, Int.abs_eq_natAbs] at h
  omega

theorem natAbs_le_of_not_abs_gt {a b : Int} (h : ¬ |a| > |b|) : a.natAbs ≤ b.natAbs := by
  rw [Int.abs_eq_natAbs, Int.abs_eq_natAbs] at h
  omega

/-- The line's length is the extent of its major axis. -/
theorem distLInf_eq_of_gt (h : |target.x - start.x| > |target.y - start.y|) :
    distLInf start target = (target.x - start.x).natAbs := by
  have := natAbs_lt_of_abs_gt h
  unfold distLInf
  omega

theorem distLInf_eq_of_le (h : ¬ |target.x - start.x| > |target.y - start.y|) :
    distLInf start target = (target.y - start.y).natAbs := by
  have := natAbs_le_of_not_abs_gt h
  unfold distLInf
  omega

@[simp] theorem linePoint_zero : linePoint start target 0 = start := by
  unfold linePoint
  dsimp only
  split <;> simp

theorem linePoint_distLInf : linePoint start target (distLInf start target) = target := by
  unfold linePoint
  dsimp only
  split
  · next h =>
    have hdx : target.x - start.x ≠ 0 := by
      have := natAbs_lt_of_abs_gt h
      omega
    rw [distLInf_eq_of_gt start target h, lineOffset_natAbs _ _ hdx, ray_end, ray_end]
  · next h =>
    rw [distLInf_eq_of_le start target h]
    by_cases hdy : target.y - start.y = 0
    · have hdx : target.x - start.x = 0 := by
        have := natAbs_le_of_not_abs_gt h
        omega
      simp only [hdx, hdy, Int.sign_zero, zero_mul, add_zero]
      cases start
      cases target
      dsimp only at hdx hdy ⊢
      congr 1 <;> omega
    · rw [lineOffset_natAbs _ _ hdy, ray_end, ray_end]

/-- After `k` tiles the line is `D - k` tiles from its target. -/
theorem distLInf_linePoint_target {k : Nat} (hk : k ≤ distLInf start target) :
    distLInf (linePoint start target k) target = distLInf start target - k := by
  rcases Nat.eq_zero_or_pos (distLInf start target) with h0 | hpos
  · obtain rfl : k = 0 := by omega
    rw [linePoint_zero, h0]
  unfold linePoint
  dsimp only
  split
  · next h =>
    rw [distLInf_eq_of_gt start target h] at hk hpos ⊢
    have hle := (natAbs_lt_of_abs_gt h).le
    have hdx : target.x - start.x ≠ 0 := by omega
    have hoff := lineOffset_le _ (target.y - start.y) hdx hk
    have hgap := natAbs_sub_lineOffset_le _ (target.y - start.y) hdx hle
      ((target.x - start.x).natAbs - k) k (by omega)
    unfold distLInf
    dsimp only
    rw [natAbs_ray_sub_end _ _ hk, natAbs_ray_sub_end _ _ hoff]
    omega
  · next h =>
    rw [distLInf_eq_of_le start target h] at hk hpos ⊢
    have hle := natAbs_le_of_not_abs_gt h
    have hdy : target.y - start.y ≠ 0 := by omega
    have hoff := lineOffset_le _ (target.x - start.x) hdy hk
    have hgap := natAbs_sub_lineOffset_le _ (target.x - start.x) hdy hle
      ((target.y - start.y).natAbs - k) k (by omega)
    unfold distLInf
    dsimp only
    rw [natAbs_ray_sub_end _ _ hk, natAbs_ray_sub_end _ _ hoff]
    omega

/-- Consecutive tiles of the line are neighbours. -/
theorem distLInf_linePoint_succ {k : Nat} (hk : k < distLInf start target) :
    distLInf (linePoint start target k) (linePoint start target (k + 1)) = 1 := by
  unfold linePoint
  dsimp only
  split
  · next h =>
    rw [distLInf_eq_of_gt start target h] at hk
    have hle := (natAbs_lt_of_abs_gt h).le
    have hx : target.x ≠ start.x := by omega
    have hminor := natAbs_ray_sub_ray_le start.y target.y (lineOffset_le_succ _ _ k)
      (lineOffset_succ_le _ _ hle k)
    unfold distLInf
    dsimp only
    rw [natAbs_ray_sub_ray_succ _ _ hx]
    omega
  · next h =>
    rw [distLInf_eq_of_le start target h] at hk
    have hle := natAbs_le_of_not_abs_gt h
    have hy : target.y ≠ start.y := by omega
    have hminor := natAbs_ray_sub_ray_le start.x target.x (lineOffset_le_succ _ _ k)
      (lineOffset_succ_le _ _ hle k)
    unfold distLInf
    dsimp only
    rw [natAbs_ray_sub_ray_succ _ _ hy]
    omega

/-- The line stays in the box spanned by its ends. -/
theorem linePoint_mem_box {k : Nat} (hk : k ≤ distLInf start target) :
    (min start.x target.x ≤ (linePoint start target k).x ∧
      (linePoint start target k).x ≤ max start.x target.x) ∧
    (min start.y target.y ≤ (linePoint start target k).y ∧
      (linePoint start target k).y ≤ max start.y target.y) := by
  rcases Nat.eq_zero_or_pos (distLInf start target) with h0 | hpos
  · obtain rfl : k = 0 := by omega
    rw [linePoint_zero]
    omega
  unfold linePoint
  dsimp only
  split
  · next h =>
    rw [distLInf_eq_of_gt start target h] at hk
    have hdx : target.x - start.x ≠ 0 := by
      have := natAbs_lt_of_abs_gt h
      omega
    exact ⟨ray_mem_Icc _ _ hk, ray_mem_Icc _ _ (lineOffset_le _ _ hdx hk)⟩
  · next h =>
    rw [distLInf_eq_of_le start target h] at hk hpos
    have hdy : target.y - start.y ≠ 0 := by omega
    exact ⟨ray_mem_Icc _ _ (lineOffset_le _ _ hdy hk), ray_mem_Icc _ _ hk⟩

theorem IsInsideMap_linePoint (hs : IsInsideMap start.x start.y = true)
    (ht : IsInsideMap target.x target.y = true) {k : Nat} (hk : k ≤ distLInf start target) :
    IsInsideMap (linePoint start target k).x (linePoint start target k).y = true := by
  have hbox := linePoint_mem_box start target hk
  simp only [IsInsideMap, Bool.and_eq_true, decide_eq_true_eq] at hs ht ⊢
  omega

/-- One step of `MoveTowardsWaypoint` from `from = start` towards `target`, taken on the line's
`k`-th tile, lands on its next tile. -/
theorem linePoint_succ {k : Nat} (hk : k < distLInf start target) :
    (if |target.x - start.x| > |target.y - start.y| then
        (⟨CoordStep (linePoint start target k).x target.x,
          CoordUpd (CoordStep (linePoint start target k).x target.x) (linePoint start target k).y
            (target.x - start.x) (target.y - start.y) start.x start.y⟩ : Coord)
      else
        ⟨CoordUpd (CoordStep (linePoint start target k).y target.y) (linePoint start target k).x
            (target.y - start.y) (target.x - start.x) start.y start.x,
          CoordStep (linePoint start target k).y target.y⟩) =
      linePoint start target (k + 1) := by
  unfold linePoint
  dsimp only
  split
  · next h =>
    rw [distLInf_eq_of_gt start target h] at hk
    have hdx : target.x - start.x ≠ 0 := by omega
    rw [CoordStep_ray _ _ hk, CoordUpd_line hdx]
  · next h =>
    rw [distLInf_eq_of_le start target h] at hk
    have hdy : target.y - start.y ≠ 0 := by omega
    rw [CoordStep_ray _ _ hk, CoordUpd_line hdy]

end LinePoint

/-! ## Walking the line -/

section Walk

variable (w : World) {start target : Coord}

/-- The character of `CheckLinearPath` after `k` tiles of the line from `start` to `target`. -/
structure OnLine (start target : Coord) (k : Nat) (ch : CharacterState) : Prop where
  coord : ch.coord = linePoint start target k
  from_ : ch.from_ = start
  waypoints : ch.waypoints = [target]

theorem linePoint_ne_target {k : Nat} (hk : k < distLInf start target) :
    linePoint start target k ≠ target := by
  intro h
  have := distLInf_linePoint_target start target hk.le
  rw [h, distLInf_self] at this
  omega

variable {w} in
/-- The step lemma: `k` tiles down the line from `from` towards the next waypoint,
`MoveTowardsWaypoint` computes the line's next tile, whatever waypoints come after it. -/
theorem moveTowardsWaypoint_of_linePoint {k : Nat} {ch : CharacterState}
    (hlast : ch.waypoints.getLast? = some target) (hfrom : ch.from_ = start)
    (hcoord : ch.coord = linePoint start target k) (hk : k < distLInf start target) :
    ch.MoveTowardsWaypoint w =
      let new_c := linePoint start target (k + 1)
      if !w.IsWalkableCoord new_c then ch.StopMoving
      else
        let new_dir := GetDirection ch.coord new_c
        let ch := { ch with dir := if new_dir != 5 then new_dir else ch.dir, coord := new_c }
        if new_c = target then { ch with from_ := new_c, waypoints := popReached new_c ch.waypoints }
        else ch := by
  rw [CharacterState.MoveTowardsWaypoint, hlast]
  simp only [hcoord, hfrom, linePoint_ne_target hk, if_false, hlast]
  rw [linePoint_succ start target hk]

variable {w} in
theorem OnLine.moveTowardsWaypoint {k : Nat} {ch : CharacterState} (h : OnLine start target k ch)
    (hk : k < distLInf start target) :
    ch.MoveTowardsWaypoint w =
      let new_c := linePoint start target (k + 1)
      if !w.IsWalkableCoord new_c then ch.StopMoving
      else
        let new_dir := GetDirection ch.coord new_c
        let ch := { ch with dir := if new_dir != 5 then new_dir else ch.dir, coord := new_c }
        if new_c = target then { ch with from_ := new_c, waypoints := popReached new_c ch.waypoints }
        else ch :=
  moveTowardsWaypoint_of_linePoint (by rw [h.waypoints, List.getLast?_singleton]) h.from_ h.coord hk

variable {w}

theorem OnLine.move_of_walkable {k : Nat} {ch : CharacterState} (h : OnLine start target k ch)
    (hk : k + 1 < distLInf start target)
    (hw : w.IsWalkableCoord (linePoint start target (k + 1)) = true) :
    OnLine start target (k + 1) (ch.MoveTowardsWaypoint w) := by
  rw [h.moveTowardsWaypoint (by omega)]
  simp only [hw, Bool.not_true, Bool.false_eq_true, if_false, linePoint_ne_target hk]
  exact ⟨rfl, h.from_, h.waypoints⟩

theorem OnLine.move_of_last {k : Nat} {ch : CharacterState} (h : OnLine start target k ch)
    (hk : k + 1 = distLInf start target) (hw : w.IsWalkableCoord target = true) :
    (ch.MoveTowardsWaypoint w).coord = target ∧ (ch.MoveTowardsWaypoint w).waypoints = [] := by
  have hlast : linePoint start target (k + 1) = target := by
    rw [hk]
    exact linePoint_distLInf start target
  rw [h.moveTowardsWaypoint (by omega)]
  simp only [hlast, hw, Bool.not_true, Bool.false_eq_true, if_false, if_true]
  simp [popReached, h.waypoints]

theorem OnLine.move_of_blocked {k : Nat} {ch : CharacterState} (h : OnLine start target k ch)
    (hk : k < distLInf start target)
    (hw : w.IsWalkableCoord (linePoint start target (k + 1)) = false) :
    (ch.MoveTowardsWaypoint w).coord = linePoint start target k ∧
      (ch.MoveTowardsWaypoint w).waypoints = [] := by
  rw [h.moveTowardsWaypoint hk]
  simp only [hw, Bool.not_false, if_true]
  exact ⟨h.coord, rfl⟩

variable (w)

/-- The loop of `CheckLinearPath`, `while (!tmp.waypoints.empty()) tmp.MoveTowardsWaypoint();`,
run for at most `fuel` iterations. -/
def walkToEnd : Nat → CharacterState → CharacterState
  | 0, ch => ch
  | fuel + 1, ch => if ch.waypoints.isEmpty then ch else walkToEnd fuel (ch.MoveTowardsWaypoint w)

theorem walkToEnd_of_waypoints_nil {ch : CharacterState} (h : ch.waypoints = []) :
    ∀ n, walkToEnd w n ch = ch
  | 0 => rfl
  | _ + 1 => by simp [walkToEnd, h]

variable {w}

/-- The run lemma: from the line's `k`-th tile the loop arrives exactly when every later tile of
the line is walkable, given fuel for the tiles that are left. -/
theorem OnLine.walkToEnd {k : Nat} {ch : CharacterState} (h : OnLine start target k ch)
    (hk : k < distLInf start target) (n : Nat) (hn : distLInf start target - k ≤ n) :
    (walkToEnd w n ch).coord = target ↔
      ∀ j, k < j → j ≤ distLInf start target → w.IsWalkableCoord (linePoint start target j) = true := by
  induction n generalizing k ch with
  | zero => omega
  | succ n ih =>
    have hstep : Huntercore.walkToEnd w (n + 1) ch =
        Huntercore.walkToEnd w n (ch.MoveTowardsWaypoint w) := by
      simp [Huntercore.walkToEnd, h.waypoints]
    rw [hstep]
    cases hw : w.IsWalkableCoord (linePoint start target (k + 1)) with
    | false =>
      -- blocked in front of the next tile: the walk stops short of the target
      obtain ⟨hcoord, hnil⟩ := h.move_of_blocked hk hw
      rw [walkToEnd_of_waypoints_nil w hnil, hcoord]
      exact ⟨fun heq => absurd heq (linePoint_ne_target hk),
        fun hall => absurd (hall (k + 1) (by omega) (by omega)) (by rw [hw]; decide)⟩
    | true =>
      rcases Nat.lt_or_ge (k + 1) (distLInf start target) with hlt | hge
      · rw [ih (h.move_of_walkable hlt hw) hlt (by omega)]
        constructor
        · intro hall j hj hjD
          rcases Nat.eq_or_lt_of_le hj with rfl | hj'
          · exact hw
          · exact hall j hj' hjD
        · intro hall j hj hjD
          exact hall j (by omega) hjD
      · -- the next tile is the target
        have hlast : k + 1 = distLInf start target := by omega
        have hwt : w.IsWalkableCoord target = true := by
          rw [← linePoint_distLInf start target, ← hlast]
          exact hw
        obtain ⟨hcoord, hnil⟩ := h.move_of_last hlast hwt
        rw [walkToEnd_of_waypoints_nil w hnil, hcoord]
        refine ⟨fun _ j hj hjD => ?_, fun _ => rfl⟩
        obtain rfl : j = k + 1 := by omega
        exact hw

variable (w)

/-- `CheckLinearPath`: a character put on `start` with the single waypoint `target` walks all the
way there. The line has `distLInf start target` tiles after `start`, so one iteration more than
that ends the loop. -/
def CheckLinearPath (start target : Coord) : Bool :=
  let tmp : CharacterState :=
    { (default : CharacterState) with coord := start, from_ := start, waypoints := [target] }
  (walkToEnd w (distLInf start target + 1) tmp).coord == target

/-- `CheckLinearPath` holds exactly when every tile of the line after `start` is walkable. -/
theorem CheckLinearPath_iff (start target : Coord) :
    CheckLinearPath w start target = true ↔
      ∀ j, 0 < j → j ≤ distLInf start target →
        w.IsWalkableCoord (linePoint start target j) = true := by
  unfold CheckLinearPath
  rw [beq_iff_eq]
  rcases Nat.eq_zero_or_pos (distLInf start target) with h0 | hpos
  · -- `start = target`: the first step pops the waypoint
    obtain rfl := eq_of_distLInf_eq_zero h0
    rw [h0]
    simp only [walkToEnd, CharacterState.MoveTowardsWaypoint, List.getLast?_singleton, if_true]
    simp [popReached]
    exact fun j hj hj0 => absurd hj0 (by omega)
  · have hon : OnLine start target 0
        { (default : CharacterState) with coord := start, from_ := start, waypoints := [target] } :=
      ⟨(linePoint_zero start target).symm, rfl, rfl⟩
    exact hon.walkToEnd hpos _ (by omega)

/-- A step to a walkable neighbour is always a straight line. -/
theorem CheckLinearPath_of_distLInf_eq_one {a b : Coord} (hd : distLInf a b = 1)
    (hb : w.IsWalkableCoord b = true) : CheckLinearPath w a b = true := by
  rw [CheckLinearPath_iff]
  intro j hj hjD
  obtain rfl : j = distLInf a b := by omega
  rw [linePoint_distLInf]
  exact hb

end Walk

end Huntercore
