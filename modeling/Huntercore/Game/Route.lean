import Mathlib
import Huntercore.Lib.System
import Huntercore.Game.PathFinding
import Huntercore.Game.Step

/-!
# Walking a route

A character's waypoints are stored reversed: the next one is the last. Each block
`MoveTowardsWaypoint` takes one step along the straight line from `from` to the next waypoint,
pops it on arrival, and turns to the line towards the one after. This module follows a character
over whole runs of that step.

Between steps a character with waypoints stands on the line from `from` to its next waypoint
(`OnItsLine`). Every operation the game applies to a character's route keeps that (the step
itself, new waypoints from a move, `StopMoving`), so it holds of every character the game can
reach, and from it every step is a king's move onto a walkable tile or no move at all.

When the rest of the route is clear (the tiles still ahead on the current line are walkable and
every later segment passes `CheckLinearPath`), `TimeToDestination` is exact: each step lowers it
by one, the character stands on its last waypoint when it reaches zero, and `DumpPath` lists
one tile more than it.
-/

namespace Huntercore

/-! ## Travel time -/

theorem travelTime_cons_cons (a b : Coord) (l : List Coord) :
    travelTime (a :: b :: l) = distLInf a b + travelTime (b :: l) := rfl

theorem travelTime_append_singleton (b : Coord) :
    ∀ l : List Coord, travelTime (l ++ [b]) = travelTime l + (l.getLast?.map (distLInf · b)).getD 0
  | [] => rfl
  | [a] => by
    show distLInf a b + 0 = 0 + distLInf a b
    omega
  | a :: c :: l => by
    rw [List.cons_append, List.cons_append, travelTime_cons_cons, ← List.cons_append,
      travelTime_append_singleton b (c :: l), travelTime_cons_cons, List.getLast?_cons_cons]
    omega

/-- The travel time of a route does not depend on the direction it is read in. -/
theorem travelTime_reverse : ∀ l : List Coord, travelTime l.reverse = travelTime l
  | [] => rfl
  | a :: l => by
    rw [List.reverse_cons, travelTime_append_singleton, travelTime_reverse l,
      List.getLast?_reverse]
    cases l with
    | nil => rfl
    | cons c l => simp [travelTime_cons_cons, distLInf_comm, Nat.add_comm]

/-- Waypoints equal to the tile a segment starts from add nothing to the travel time. -/
theorem travelTime_cons_dropWhile (c : Coord) :
    ∀ l : List Coord, travelTime (c :: l.dropWhile (· == c)) = travelTime (c :: l)
  | [] => rfl
  | a :: l => by
    by_cases h : a = c
    · subst h
      rw [List.dropWhile_cons_of_pos (by simp), travelTime_cons_dropWhile a l,
        travelTime_cons_cons, distLInf_self, Nat.zero_add]
    · rw [List.dropWhile_cons_of_neg (by simpa using h)]

/-- A route of travel time zero never leaves its first tile. -/
theorem eq_of_travelTime_eq_zero {c : Coord} :
    ∀ {l : List Coord}, travelTime (c :: l) = 0 → ∀ x ∈ l, x = c
  | [], _ => by simp
  | a :: l, h => by
    rw [travelTime_cons_cons] at h
    have hac : a = c := (eq_of_distLInf_eq_zero (by omega)).symm
    subst hac
    intro x hx
    rcases List.mem_cons.mp hx with rfl | hx
    · rfl
    · exact eq_of_travelTime_eq_zero (by omega) x hx

/-! ## `TimeToDestination` -/

/-- The loop of `TimeToDestination`: the running sum and the last waypoint seen. -/
def timeLoop (acc : Nat × Coord) (c : Coord) : Nat × Coord := (acc.1 + distLInf acc.2 c, c)

/-- `TimeToDestination (altWP)`: the L∞ length of the outstanding path. The stored waypoints
(`none`) are reversed, so the walk from `coord` starts at their back; alternative waypoints are
given in walking order. -/
def CharacterState.TimeToDestination (ch : CharacterState) (altWP : Option (List Coord)) : Nat :=
  let (wps, reverse) :=
    match altWP with
    | none => (ch.waypoints, true)
    | some wp => (wp, false)
  match wps with
  | [] => 0
  | first :: rest =>
    let res := (rest.foldl timeLoop (0, first)).1
    if reverse then res + distLInf ch.coord (rest.getLastD first)
    else res + distLInf ch.coord first

theorem foldl_timeLoop (rest : List Coord) :
    ∀ (res : Nat) (last : Coord),
      rest.foldl timeLoop (res, last) = (res + travelTime (last :: rest), rest.getLastD last) := by
  induction rest with
  | nil => intro res last; rfl
  | cons c rest ih =>
    intro res last
    rw [List.foldl_cons, timeLoop, ih, travelTime_cons_cons, List.getLastD_cons]
    simp only [Prod.mk.injEq, and_true]
    omega

/-- The stored route takes the travel time of the walk from `coord` through the waypoints in
walking order. -/
theorem TimeToDestination_none (ch : CharacterState) :
    ch.TimeToDestination none = travelTime (ch.coord :: ch.waypoints.reverse) := by
  unfold CharacterState.TimeToDestination
  cases h : ch.waypoints with
  | nil => rfl
  | cons first rest =>
    dsimp only
    -- the walk in walking order starts with the back of the stored waypoints
    obtain ⟨a, l, hl⟩ : ∃ a l, (first :: rest).reverse = a :: l :=
      List.exists_cons_of_ne_nil (by simp)
    have ha : a = rest.getLastD first := by
      have := congrArg List.head? hl
      rw [List.head?_reverse, List.head?_cons, List.getLast?_cons] at this
      rw [List.getLastD_eq_getLast?]
      exact (Option.some_inj.mp this).symm
    rw [foldl_timeLoop, if_pos rfl, hl, travelTime_cons_cons, ← hl, travelTime_reverse, ← ha]
    omega

/-! ## Popping reached waypoints -/

section Pop

variable (c : Coord) (wps : List Coord)

/-- In walking order, popping drops the waypoints equal to `c` from the front. -/
theorem reverse_popReached : (popReached c wps).reverse = wps.reverse.dropWhile (· == c) := by
  rw [popReached, List.reverse_reverse]

/-- After the pop the next waypoint, if any, is not `c`. -/
theorem getLast?_popReached_ne : (popReached c wps).getLast? ≠ some c := by
  intro h
  have := List.head?_dropWhile_not (· == c) wps.reverse
  rw [← reverse_popReached, List.head?_reverse, h] at this
  simp at this

/-- The stored waypoints are what the pop keeps followed by waypoints equal to `c`. -/
theorem popReached_append : popReached c wps ++ (wps.reverse.takeWhile (· == c)).reverse = wps := by
  rw [popReached, ← List.reverse_append, List.takeWhile_append_dropWhile, List.reverse_reverse]

/-- Popping keeps the final waypoint: only the waypoints equal to `c` ahead of the others go. -/
theorem headD_popReached : (popReached c wps).headD c = wps.headD c := by
  conv_rhs => rw [← popReached_append c wps]
  cases popReached c wps with
  | cons a l => rfl
  | nil =>
    -- nothing is kept, so every waypoint was `c`
    rw [List.nil_append]
    cases ht : (wps.reverse.takeWhile (· == c)).reverse with
    | nil => rfl
    | cons a l =>
      have ha : a ∈ wps.reverse.takeWhile (· == c) := by
        rw [← List.mem_reverse, ht]
        exact List.mem_cons_self
      have hac : a = c := by simpa using List.mem_takeWhile_imp ha
      rw [hac]
      rfl

end Pop

/-! ## The step on a route -/

section Step

variable {w : World} {ch : CharacterState}

/-- The first block of `MoveTowardsWaypoint`: a character standing on its next waypoint restarts
from there, with every waypoint it stands on popped. -/
def CharacterState.popIfReached (ch : CharacterState) : CharacterState :=
  if ch.waypoints.getLast? = some ch.coord then
    { ch with from_ := ch.coord, waypoints := popReached ch.coord ch.waypoints }
  else ch

@[simp] theorem coord_popIfReached (ch : CharacterState) : ch.popIfReached.coord = ch.coord := by
  unfold CharacterState.popIfReached
  split <;> rfl

theorem getLast?_popIfReached_ne (ch : CharacterState) :
    ch.popIfReached.waypoints.getLast? ≠ some ch.coord := by
  unfold CharacterState.popIfReached
  split
  · exact getLast?_popReached_ne _ _
  · assumption

theorem MoveTowardsWaypoint_of_nil (h : ch.waypoints = []) :
    ch.MoveTowardsWaypoint w = { ch with from_ := ch.coord } := by
  simp [CharacterState.MoveTowardsWaypoint, h]

/-- The step of `MoveTowardsWaypoint` is the step from the state its first block leaves, where
the next waypoint, if any, is not the tile the character stands on. -/
theorem MoveTowardsWaypoint_popIfReached (ch : CharacterState) :
    ch.MoveTowardsWaypoint w = ch.popIfReached.MoveTowardsWaypoint w := by
  unfold CharacterState.popIfReached
  split
  · next h =>
    have hne := getLast?_popReached_ne ch.coord ch.waypoints
    unfold CharacterState.MoveTowardsWaypoint
    cases hp : (popReached ch.coord ch.waypoints).getLast? with
    | none => simp [h, hp]
    | some t =>
      have ht : ch.coord ≠ t := fun heq => hne (by rw [hp, heq])
      simp [h, hp, ht]
  · rfl

/-- A character `k` tiles down the line from `from` to its next waypoint `target`. -/
structure Heading (target : Coord) (k : Nat) (ch : CharacterState) : Prop where
  last : ch.waypoints.getLast? = some target
  le : k ≤ distLInf ch.from_ target
  coord : ch.coord = linePoint ch.from_ target k

/-- Away from its next waypoint, a character on the line still has tiles of it ahead. -/
theorem Heading.lt_of_ne {target : Coord} {k : Nat} (h : Heading target k ch)
    (hne : ch.waypoints.getLast? ≠ some ch.coord) : k < distLInf ch.from_ target := by
  refine lt_of_le_of_ne h.le fun hk => hne ?_
  rw [h.last, h.coord, hk, linePoint_distLInf]

/-- A popped character starts the line to its new next waypoint, which is not where it stands. -/
theorem heading_of_popped (ch : CharacterState) {wps : List Coord} (hfrom : ch.from_ = ch.coord)
    (hwps : ch.waypoints = popReached ch.coord wps) :
    ch.waypoints = [] ∨ ∃ target, Heading target 0 ch ∧ 0 < distLInf ch.from_ target := by
  cases hl : ch.waypoints.getLast? with
  | none => exact Or.inl (List.getLast?_eq_none_iff.mp hl)
  | some t =>
    have hne : t ≠ ch.coord := fun heq => getLast?_popReached_ne ch.coord wps (by rw [← hwps, hl, heq])
    refine Or.inr ⟨t, ⟨hl, Nat.zero_le _, by rw [linePoint_zero, hfrom]⟩, ?_⟩
    rw [hfrom]
    exact Nat.pos_of_ne_zero fun h0 => hne (eq_of_distLInf_eq_zero h0).symm

theorem Heading.move_of_blocked {target : Coord} {k : Nat} (h : Heading target k ch)
    (hk : k < distLInf ch.from_ target)
    (hw : w.IsWalkableCoord (linePoint ch.from_ target (k + 1)) = false) :
    ch.MoveTowardsWaypoint w = ch.StopMoving := by
  rw [moveTowardsWaypoint_of_linePoint h.last rfl h.coord hk]
  simp [hw]

/-- On a walkable tile the step moves one tile down the line and then pops the waypoint if it
has arrived. -/
theorem Heading.move_of_walkable {target : Coord} {k : Nat} (h : Heading target k ch)
    (hk : k < distLInf ch.from_ target)
    (hw : w.IsWalkableCoord (linePoint ch.from_ target (k + 1)) = true) :
    ∃ d, ch.MoveTowardsWaypoint w =
      ({ ch with dir := d, coord := linePoint ch.from_ target (k + 1) }).popIfReached := by
  rw [moveTowardsWaypoint_of_linePoint h.last rfl h.coord hk]
  let new_dir := GetDirection ch.coord (linePoint ch.from_ target (k + 1))
  refine ⟨if new_dir != 5 then new_dir else ch.dir, ?_⟩
  simp only [hw, Bool.not_true, Bool.false_eq_true, if_false, CharacterState.popIfReached, h.last,
    Option.some_inj]
  by_cases heq : linePoint ch.from_ target (k + 1) = target
  · rw [if_pos heq, if_pos heq.symm]
  · rw [if_neg heq, if_neg (Ne.symm heq)]

end Step

/-! ## Characters stay on their lines -/

section OnItsLine

variable {w : World} {ch : CharacterState}

/-- Between steps a character with waypoints stands on the line from `from` to its next
waypoint. -/
def CharacterState.OnItsLine (ch : CharacterState) : Prop :=
  ch.waypoints = [] ∨ ∃ target k, Heading target k ch

theorem CharacterState.OnItsLine.popIfReached (h : ch.OnItsLine) : ch.popIfReached.OnItsLine := by
  unfold CharacterState.popIfReached
  split
  · obtain hnil | ⟨t, ht, _⟩ := heading_of_popped
      { ch with from_ := ch.coord, waypoints := popReached ch.coord ch.waypoints } rfl rfl
    · exact Or.inl hnil
    · exact Or.inr ⟨t, 0, ht⟩
  · exact h

/-- Once its first block has run, a character on its line either has no waypoints or still has
tiles of the line ahead. -/
theorem CharacterState.OnItsLine.cases_popIfReached (h : ch.OnItsLine) :
    ch.popIfReached.waypoints = [] ∨
      ∃ target k, Heading target k ch.popIfReached ∧ k < distLInf ch.popIfReached.from_ target := by
  rcases h.popIfReached with hnil | ⟨t, k, ht⟩
  · exact Or.inl hnil
  · refine Or.inr ⟨t, k, ht, ht.lt_of_ne ?_⟩
    rw [coord_popIfReached]
    exact getLast?_popIfReached_ne ch

/-- The step lemma of the invariant: `MoveTowardsWaypoint` keeps a character on its line. -/
theorem CharacterState.OnItsLine.move (h : ch.OnItsLine) : (ch.MoveTowardsWaypoint w).OnItsLine := by
  rw [MoveTowardsWaypoint_popIfReached]
  rcases h.cases_popIfReached with hnil | ⟨t, k, ht, hk⟩
  · rw [MoveTowardsWaypoint_of_nil hnil]
    exact Or.inl hnil
  · cases hw : w.IsWalkableCoord (linePoint ch.popIfReached.from_ t (k + 1)) with
    | false =>
      rw [ht.move_of_blocked hk hw]
      exact Or.inl rfl
    | true =>
      -- one tile down the line, and the line's end is popped
      obtain ⟨d, hstep⟩ := ht.move_of_walkable hk hw
      rw [hstep]
      exact CharacterState.OnItsLine.popIfReached (Or.inr ⟨t, k + 1, ⟨ht.last, hk, rfl⟩⟩)

/-- New waypoints keep a character on its line: `from` restarts unless the next waypoint stays. -/
theorem CharacterState.OnItsLine.setWaypoints (h : ch.OnItsLine) (wp : List Coord) :
    (Move.setWaypoints ch wp).OnItsLine := by
  cases hl : wp.getLast? with
  | none => exact Or.inl (List.getLast?_eq_none_iff.mp hl)
  | some t =>
    unfold Move.setWaypoints
    split
    · exact Or.inr ⟨t, 0, ⟨hl, Nat.zero_le _, (linePoint_zero _ _).symm⟩⟩
    · next hkeep =>
      -- the next waypoint is the old one, and the character is on the old line
      simp only [Bool.or_eq_true, bne_iff_ne, ne_eq, decide_eq_true_eq, not_or, not_not] at hkeep
      rcases h with hnil | ⟨t', k, ht'⟩
      · exact absurd hnil (by simpa using hkeep.1.1)
      · have htt : t' = t := Option.some_inj.mp (by rw [← ht'.last, hkeep.2, hl])
        subst htt
        exact Or.inr ⟨t', k, ⟨hl, ht'.le, ht'.coord⟩⟩

/-- Being on its line reads the tile, `from` and the waypoints only. -/
theorem CharacterState.OnItsLine.of_eq (h : ch.OnItsLine) (ch' : CharacterState)
    (hc : ch'.coord = ch.coord) (hf : ch'.from_ = ch.from_) (hw : ch'.waypoints = ch.waypoints) :
    ch'.OnItsLine := by
  rcases h with hnil | ⟨t, k, ht⟩
  · exact Or.inl (hw.trans hnil)
  · exact Or.inr ⟨t, k, ⟨hw ▸ ht.last, hf ▸ ht.le, by rw [hc, hf]; exact ht.coord⟩⟩

theorem CharacterState.OnItsLine.StopMoving (ch : CharacterState) : ch.StopMoving.OnItsLine := Or.inl rfl

/-- Every step of a character on its line is a king's move onto a walkable tile, or none. -/
theorem CharacterState.OnItsLine.move_king (h : ch.OnItsLine) :
    (ch.MoveTowardsWaypoint w).coord = ch.coord ∨
      distLInf ch.coord (ch.MoveTowardsWaypoint w).coord = 1 ∧
        w.IsWalkableCoord (ch.MoveTowardsWaypoint w).coord = true := by
  rw [MoveTowardsWaypoint_popIfReached, ← coord_popIfReached ch]
  rcases h.cases_popIfReached with hnil | ⟨t, k, ht, hk⟩
  · rw [MoveTowardsWaypoint_of_nil hnil]
    exact Or.inl rfl
  · cases hw : w.IsWalkableCoord (linePoint ch.popIfReached.from_ t (k + 1)) with
    | false =>
      rw [ht.move_of_blocked hk hw]
      exact Or.inl rfl
    | true =>
      obtain ⟨d, hstep⟩ := ht.move_of_walkable hk hw
      rw [hstep, coord_popIfReached, ht.coord]
      exact Or.inr ⟨distLInf_linePoint_succ _ _ hk, hw⟩

end OnItsLine

/-! ## Clear routes -/

section Clear

variable (w : World)

/-- The rest of the route is clear: the tiles still ahead on the current line are walkable and
every later segment passes `CheckLinearPath`. -/
structure Clear (target : Coord) (k : Nat) (ch : CharacterState) : Prop
    extends Heading target k ch where
  ahead : ∀ j, k < j → j ≤ distLInf ch.from_ target →
    w.IsWalkableCoord (linePoint ch.from_ target j) = true
  segments : ch.waypoints.reverse.IsChain (fun a b => CheckLinearPath w a b = true)

/-- A character without waypoints, or one whose route is clear. -/
def CharacterState.RouteClear (ch : CharacterState) : Prop :=
  ch.waypoints = [] ∨ ∃ target k, Clear w target k ch

/-- The tile a walk ends on: the last waypoint, or where the character stands. -/
def CharacterState.destination (ch : CharacterState) : Coord := ch.waypoints.headD ch.coord

variable {w} {ch : CharacterState}

theorem reverse_eq_cons_of_getLast? {l : List Coord} {t : Coord} (h : l.getLast? = some t) :
    ∃ later, l.reverse = t :: later :=
  List.head?_eq_some_iff.mp (by rw [List.head?_reverse, h])

/-- The time left on the current line is the number of its tiles still ahead. -/
theorem Heading.time {target : Coord} {k : Nat} (h : Heading target k ch) :
    ch.TimeToDestination none = (distLInf ch.from_ target - k) + travelTime ch.waypoints.reverse := by
  obtain ⟨later, hl⟩ := reverse_eq_cons_of_getLast? h.last
  rw [TimeToDestination_none, hl, travelTime_cons_cons, h.coord,
    distLInf_linePoint_target _ _ h.le]

theorem Heading.destination {target : Coord} {k : Nat} (h : Heading target k ch) (c : Coord) :
    ch.waypoints.headD c = ch.destination := by
  cases hw : ch.waypoints with
  | nil =>
    have hlast := h.last
    rw [hw] at hlast
    exact absurd hlast (by simp)
  | cons a l => simp [CharacterState.destination, hw]

theorem isChain_cons_dropWhile {R : Coord → Coord → Prop} (c : Coord) :
    ∀ l : List Coord, (c :: l).IsChain R → (c :: l.dropWhile (· == c)).IsChain R
  | [], h => h
  | a :: l, h => by
    by_cases hac : a = c
    · subst hac
      rw [List.dropWhile_cons_of_pos (by simp)]
      exact isChain_cons_dropWhile a l (List.isChain_cons_cons.mp h).2
    · rwa [List.dropWhile_cons_of_neg (by simpa using hac)]

/-- The first block of the step keeps a route clear, and its time and destination. -/
theorem CharacterState.RouteClear.popIfReached (h : ch.RouteClear w) :
    ch.popIfReached.RouteClear w ∧
      ch.popIfReached.TimeToDestination none = ch.TimeToDestination none ∧
      ch.popIfReached.destination = ch.destination := by
  unfold CharacterState.popIfReached
  split
  · next hlast =>
    -- in walking order the route starts with the waypoint the character stands on
    obtain ⟨later, hl⟩ := reverse_eq_cons_of_getLast? hlast
    have hseg : (ch.coord :: later).IsChain (fun a b => CheckLinearPath w a b = true) := by
      rcases h with hnil | ⟨_, _, hc⟩
      · rw [hnil] at hlast
        exact absurd hlast (by simp)
      · rw [← hl]
        exact hc.segments
    have hpop : (popReached ch.coord ch.waypoints).reverse = later.dropWhile (· == ch.coord) := by
      rw [reverse_popReached, hl, List.dropWhile_cons_of_pos (by simp)]
    have hchain := isChain_cons_dropWhile ch.coord later hseg
    refine ⟨?_, ?_, headD_popReached _ _⟩
    · cases hd : later.dropWhile (· == ch.coord) with
      | nil =>
        left
        rw [← List.reverse_eq_nil_iff, hpop, hd]
      | cons t rest =>
        -- the next segment starts where the character stands
        rw [hd, List.isChain_cons_cons] at hchain
        refine Or.inr ⟨t, 0, ⟨⟨?_, Nat.zero_le _, (linePoint_zero _ _).symm⟩, ?_, ?_⟩⟩
        · rw [← List.head?_reverse, hpop, hd]
          rfl
        · exact fun j hj hjD => (CheckLinearPath_iff w _ _).mp hchain.1 j hj hjD
        · rw [hpop, hd]
          exact hchain.2
    · rw [TimeToDestination_none, TimeToDestination_none, hpop, travelTime_cons_dropWhile, hl,
        travelTime_cons_cons, distLInf_self, Nat.zero_add]
  · exact ⟨h, rfl, rfl⟩

theorem CharacterState.RouteClear.cases_popIfReached (h : ch.RouteClear w) :
    ch.popIfReached.waypoints = [] ∨
      ∃ target k, Clear w target k ch.popIfReached ∧ k < distLInf ch.popIfReached.from_ target := by
  rcases h.popIfReached.1 with hnil | ⟨t, k, hc⟩
  · exact Or.inl hnil
  · refine Or.inr ⟨t, k, hc, hc.lt_of_ne ?_⟩
    rw [coord_popIfReached]
    exact getLast?_popIfReached_ne ch

/-- One tile down a clear line: the route stays clear, the time drops by one, the destination
stays, and the tile entered is a walkable neighbour. -/
theorem Clear.move {target : Coord} {k : Nat} (h : Clear w target k ch)
    (hk : k < distLInf ch.from_ target) :
    (ch.MoveTowardsWaypoint w).RouteClear w ∧
      (ch.MoveTowardsWaypoint w).TimeToDestination none = ch.TimeToDestination none - 1 ∧
      (ch.MoveTowardsWaypoint w).destination = ch.destination ∧
      distLInf ch.coord (ch.MoveTowardsWaypoint w).coord = 1 ∧
      w.IsWalkableCoord (ch.MoveTowardsWaypoint w).coord = true := by
  have hw := h.ahead (k + 1) (Nat.lt_succ_self k) hk
  obtain ⟨d, hstep⟩ := h.move_of_walkable hk hw
  rw [hstep]
  have hc₁ : Clear w target (k + 1) { ch with dir := d, coord := linePoint ch.from_ target (k + 1) } :=
    ⟨⟨h.last, hk, rfl⟩, fun j hj hjD => h.ahead j (by omega) hjD, h.segments⟩
  obtain ⟨h', htime, hdest⟩ := CharacterState.RouteClear.popIfReached (Or.inr ⟨target, k + 1, hc₁⟩)
  refine ⟨h', ?_, ?_, ?_, ?_⟩
  · rw [htime, hc₁.time, h.time]
    dsimp only
    omega
  · rw [hdest, ← hc₁.destination ch.coord]
    rfl
  · rw [coord_popIfReached, h.coord]
    exact distLInf_linePoint_succ _ _ hk
  · rw [coord_popIfReached]
    exact hw

/-- The step lemma of a clear route: it stays clear, its time drops by one (down to zero), and
its destination stays. -/
theorem CharacterState.RouteClear.move (h : ch.RouteClear w) :
    (ch.MoveTowardsWaypoint w).RouteClear w ∧
      (ch.MoveTowardsWaypoint w).TimeToDestination none = ch.TimeToDestination none - 1 ∧
      (ch.MoveTowardsWaypoint w).destination = ch.destination := by
  obtain ⟨_, htime, hdest⟩ := h.popIfReached
  rw [MoveTowardsWaypoint_popIfReached, ← htime, ← hdest]
  rcases h.cases_popIfReached with hnil | ⟨t, k, hc, hk⟩
  · -- no waypoints: the character stays and its time is zero
    rw [MoveTowardsWaypoint_of_nil hnil]
    refine ⟨Or.inl hnil, ?_, ?_⟩
    · simp [TimeToDestination_none, hnil, travelTime]
    · simp [CharacterState.destination, hnil]
  · obtain ⟨h', htime', hdest', _⟩ := hc.move hk
    exact ⟨h', htime', hdest'⟩

theorem CharacterState.RouteClear.onItsLine (h : ch.RouteClear w) : ch.OnItsLine := by
  rcases h with hnil | ⟨t, k, hc⟩
  · exact Or.inl hnil
  · exact Or.inr ⟨t, k, hc.toHeading⟩

/-- With time left on a clear route, every step enters a walkable neighbour. -/
theorem CharacterState.RouteClear.move_king (h : ch.RouteClear w) (hpos : 0 < ch.TimeToDestination none) :
    distLInf ch.coord (ch.MoveTowardsWaypoint w).coord = 1 ∧
      w.IsWalkableCoord (ch.MoveTowardsWaypoint w).coord = true := by
  rw [MoveTowardsWaypoint_popIfReached, ← coord_popIfReached ch]
  rcases h.cases_popIfReached with hnil | ⟨t, k, hc, hk⟩
  · -- without waypoints there would be no time left
    rw [← h.popIfReached.2.1, TimeToDestination_none, hnil] at hpos
    exact absurd hpos (by simp [travelTime])
  · obtain ⟨_, _, _, hdist, hw⟩ := hc.move hk
    exact ⟨hdist, hw⟩

/-- After a step on its line the next waypoint, if any, is not the tile the character stands on. -/
theorem CharacterState.OnItsLine.getLast?_move_ne (h : ch.OnItsLine) :
    (ch.MoveTowardsWaypoint w).waypoints.getLast? ≠ some (ch.MoveTowardsWaypoint w).coord := by
  rw [MoveTowardsWaypoint_popIfReached]
  rcases h.cases_popIfReached with hnil | ⟨t, k, ht, hk⟩
  · rw [MoveTowardsWaypoint_of_nil hnil]
    simp [hnil]
  · cases hw : w.IsWalkableCoord (linePoint ch.popIfReached.from_ t (k + 1)) with
    | false =>
      rw [ht.move_of_blocked hk hw]
      simp [CharacterState.StopMoving]
    | true =>
      obtain ⟨d, hstep⟩ := ht.move_of_walkable hk hw
      rw [hstep, coord_popIfReached]
      exact getLast?_popIfReached_ne _

theorem all_eq_coord_of_time_zero (h0 : ch.TimeToDestination none = 0) :
    ∀ x ∈ ch.waypoints, x = ch.coord := by
  rw [TimeToDestination_none] at h0
  intro x hx
  exact eq_of_travelTime_eq_zero h0 x (List.mem_reverse.mpr hx)

theorem coord_eq_destination_of_time_zero (h0 : ch.TimeToDestination none = 0) :
    ch.coord = ch.destination := by
  have hall := all_eq_coord_of_time_zero h0
  unfold CharacterState.destination
  cases hw : ch.waypoints with
  | nil => rfl
  | cons a l => exact (hall a (by rw [hw]; exact List.mem_cons_self)).symm

/-- A character whose waypoints are all where it stands pops them and stays. -/
theorem move_of_all_eq (h : ∀ x ∈ ch.waypoints, x = ch.coord) :
    (ch.MoveTowardsWaypoint w).waypoints = [] ∧ (ch.MoveTowardsWaypoint w).coord = ch.coord := by
  have hnil : ch.popIfReached.waypoints = [] := by
    unfold CharacterState.popIfReached
    split
    · show (ch.waypoints.reverse.dropWhile (· == ch.coord)).reverse = []
      rw [List.reverse_eq_nil_iff, List.dropWhile_eq_nil_iff]
      intro x hx
      simpa using h x (List.mem_reverse.mp hx)
    · next hne =>
      cases hl : ch.waypoints.getLast? with
      | none => exact List.getLast?_eq_none_iff.mp hl
      | some t => exact absurd (by rw [hl, h t (List.mem_of_getLast? hl)]) hne
  rw [MoveTowardsWaypoint_popIfReached, MoveTowardsWaypoint_of_nil hnil]
  exact ⟨hnil, coord_popIfReached ch⟩

/-- The run lemma: along a clear route every step keeps the route clear and its destination, and
`TimeToDestination` counts the steps left. -/
theorem CharacterState.RouteClear.run (h : ch.RouteClear w) (n : Nat) :
    ((CharacterState.MoveTowardsWaypoint w)^[n] ch).RouteClear w ∧
      ((CharacterState.MoveTowardsWaypoint w)^[n] ch).destination = ch.destination ∧
      ((CharacterState.MoveTowardsWaypoint w)^[n] ch).TimeToDestination none =
        ch.TimeToDestination none - n := by
  -- the invariant of the run: the route stays clear and its destination stays
  obtain ⟨⟨h', hdest⟩, htime⟩ := @Function.iterate_potential _
    (CharacterState.MoveTowardsWaypoint w) (fun c => c.RouteClear w ∧ c.destination = ch.destination)
    (fun c => c.TimeToDestination none)
    (fun c hc => by
      obtain ⟨h', htime, hdest⟩ := hc.1.move
      exact ⟨⟨h', hdest.trans hc.2⟩, htime⟩) n ch ⟨h, rfl⟩
  exact ⟨h', hdest, htime⟩

/-- When its time runs out the character stands on its last waypoint. -/
theorem CharacterState.RouteClear.coord_run (h : ch.RouteClear w) :
    ((CharacterState.MoveTowardsWaypoint w)^[ch.TimeToDestination none] ch).coord =
      ch.destination := by
  obtain ⟨_, hdest, h0⟩ := h.run (ch.TimeToDestination none)
  rw [Nat.sub_self] at h0
  rw [coord_eq_destination_of_time_zero h0, hdest]

/-- Along a clear route `TimeToDestination` is the number of blocks the walk takes: every step
lowers it by one, after as many steps as it was the character stands on its last waypoint, and
one step later it has no waypoints left. -/
theorem CharacterState.RouteClear.arrive (h : ch.RouteClear w) :
    (∀ n, ((CharacterState.MoveTowardsWaypoint w)^[n] ch).TimeToDestination none =
      ch.TimeToDestination none - n) ∧
    ((CharacterState.MoveTowardsWaypoint w)^[ch.TimeToDestination none] ch).coord =
      ch.destination ∧
    ((CharacterState.MoveTowardsWaypoint w)^[ch.TimeToDestination none + 1] ch).waypoints = [] := by
  have h0 := (h.run (ch.TimeToDestination none)).2.2
  rw [Nat.sub_self] at h0
  refine ⟨fun n => (h.run n).2.2, h.coord_run, ?_⟩
  rw [Function.iterate_succ_apply']
  exact (move_of_all_eq (all_eq_coord_of_time_zero h0)).1

/-- On open ground the route from `(0, 0)` by `(2, 1)` to `(3, 1)` is clear. -/
theorem routeClear_flat :
    ({ (default : CharacterState) with
        coord := ⟨0, 0⟩, from_ := ⟨0, 0⟩, waypoints := [⟨3, 1⟩, ⟨2, 1⟩] } : CharacterState).RouteClear World.flat :=
  Or.inr ⟨⟨2, 1⟩, 0, ⟨⟨rfl, Nat.zero_le _, (linePoint_zero _ _).symm⟩, fun _ _ _ => rfl,
    List.isChain_pair.mpr (CheckLinearPath_of_distLInf_eq_one World.flat (by decide) rfl)⟩⟩

theorem RouteClear_arrive_flat :
    let ch : CharacterState :=
      { (default : CharacterState) with
        coord := ⟨0, 0⟩, from_ := ⟨0, 0⟩, waypoints := [⟨3, 1⟩, ⟨2, 1⟩] }
    ch.RouteClear World.flat ∧ ch.TimeToDestination none = 3 ∧
      (∀ n, ((CharacterState.MoveTowardsWaypoint World.flat)^[n] ch).TimeToDestination none =
        ch.TimeToDestination none - n) ∧
      ((CharacterState.MoveTowardsWaypoint World.flat)^[ch.TimeToDestination none] ch).coord =
        ch.destination ∧
      ((CharacterState.MoveTowardsWaypoint World.flat)^[ch.TimeToDestination none + 1] ch).waypoints =
        [] :=
  ⟨routeClear_flat, by decide, CharacterState.RouteClear.arrive routeClear_flat⟩

end Clear

/-! ## `DumpPath` -/

section DumpPath

variable (w : World)

/-- The loop of `DumpPath`, `do { ret.push_back (tmp.coord); tmp.MoveTowardsWaypoint (); }
while (!tmp.waypoints.empty ());`, run for at most `fuel` iterations. -/
def dumpPathLoop : Nat → CharacterState → List Coord → List Coord × CharacterState
  | 0, tmp, ret => (ret, tmp)
  | fuel + 1, tmp, ret =>
    let ret := ret ++ [tmp.coord]
    let tmp := tmp.MoveTowardsWaypoint w
    if tmp.waypoints.isEmpty then (ret, tmp) else dumpPathLoop fuel tmp ret

/-- `DumpPath (alternative_waypoints)`: the tiles the character walks through, given fuel for the
loop. Alternative waypoints replace the stored ones after `StopMoving`. -/
def CharacterState.DumpPath (ch : CharacterState) (alternative_waypoints : Option (List Coord))
    (fuel : Nat) : List Coord :=
  let tmp :=
    match alternative_waypoints with
    | none => ch
    | some wp => { ch.StopMoving with waypoints := wp }
  if tmp.waypoints.isEmpty then []
  else
    let (ret, tmp) := dumpPathLoop w fuel tmp []
    if ret.isEmpty || ret.getLast? != some tmp.coord then ret ++ [tmp.coord] else ret

variable {w} {ch : CharacterState}

/-- The loop of `DumpPath` on a clear route with time `m + 1` left collects the tiles of the next
`m + 1` steps and stops on the last waypoint. -/
theorem dumpPathLoop_clear :
    ∀ (m fuel : Nat) (tmp : CharacterState) (ret : List Coord), tmp.RouteClear w →
      tmp.TimeToDestination none = m + 1 → m + 1 ≤ fuel →
      dumpPathLoop w fuel tmp ret =
        (ret ++ (List.range (m + 1)).map (fun n => ((CharacterState.MoveTowardsWaypoint w)^[n] tmp).coord),
          (CharacterState.MoveTowardsWaypoint w)^[m + 1] tmp) := by
  intro m
  induction m with
  | zero =>
    intro fuel tmp ret h htime hfuel
    obtain ⟨fuel, rfl⟩ : ∃ f, fuel = f + 1 := ⟨fuel - 1, by omega⟩
    -- one step is left: it arrives, and the last waypoint is popped
    obtain ⟨h', htime', _⟩ := h.move
    have hnil : (tmp.MoveTowardsWaypoint w).waypoints = [] := by
      cases hl : (tmp.MoveTowardsWaypoint w).waypoints.getLast? with
      | none => exact List.getLast?_eq_none_iff.mp hl
      | some t =>
        have ht := all_eq_coord_of_time_zero (by rw [htime', htime]) t (List.mem_of_getLast? hl)
        exact absurd (by rw [hl, ht]) h.onItsLine.getLast?_move_ne
    simp [dumpPathLoop, hnil]
  | succ m ih =>
    intro fuel tmp ret h htime hfuel
    obtain ⟨fuel, rfl⟩ : ∃ f, fuel = f + 1 := ⟨fuel - 1, by omega⟩
    obtain ⟨h', htime', _⟩ := h.move
    rw [htime, Nat.add_sub_cancel] at htime'
    -- time is left after the step, so waypoints are
    have hne : (tmp.MoveTowardsWaypoint w).waypoints ≠ [] := by
      intro hnil
      rw [TimeToDestination_none, hnil] at htime'
      exact absurd htime' (by simp [travelTime])
    have hrec := ih fuel (tmp.MoveTowardsWaypoint w) (ret ++ [tmp.coord]) h' htime' (by omega)
    simp only [dumpPathLoop, List.isEmpty_iff, hne, if_false, hrec]
    rw [List.range_succ_eq_map (n := m + 1), List.map_cons, List.map_map, Function.iterate_succ_apply]
    simp [Function.comp_def, Function.iterate_succ_apply]

/-- On a clear route `DumpPath` lists the tiles of the walk: where the character stands and where
it is after each of the `TimeToDestination` steps. -/
theorem DumpPath_clear (h : ch.RouteClear w) (hne : ch.waypoints ≠ []) {fuel : Nat}
    (hfuel : ch.TimeToDestination none + 1 ≤ fuel) :
    ch.DumpPath w none fuel = (List.range (ch.TimeToDestination none + 1)).map
      (fun n => ((CharacterState.MoveTowardsWaypoint w)^[n] ch).coord) := by
  unfold CharacterState.DumpPath
  simp only [List.isEmpty_iff, hne, if_false]
  cases htime : ch.TimeToDestination none with
  | zero =>
    -- every waypoint is where the character stands: one iteration pops them
    obtain ⟨fuel, rfl⟩ : ∃ f, fuel = f + 1 := ⟨fuel - 1, by omega⟩
    obtain ⟨hnil, hcoord⟩ := move_of_all_eq (w := w) (all_eq_coord_of_time_zero htime)
    simp [dumpPathLoop, hnil, hcoord]
  | succ m =>
    rw [dumpPathLoop_clear m fuel ch [] h htime (by omega), List.nil_append]
    -- the last step entered a neighbour, so the final tile is pushed
    have hpos : 0 < ((CharacterState.MoveTowardsWaypoint w)^[m] ch).TimeToDestination none := by
      rw [(h.run m).2.2, htime]
      omega
    have hking := ((h.run m).1.move_king hpos).1
    have hmove : ((CharacterState.MoveTowardsWaypoint w)^[m] ch).coord ≠
        ((CharacterState.MoveTowardsWaypoint w)^[m + 1] ch).coord := by
      intro heq
      rw [Function.iterate_succ_apply'] at heq
      rw [← heq, distLInf_self] at hking
      exact absurd hking (by decide)
    have hlast : ((List.range (m + 1)).map
        (fun n => ((CharacterState.MoveTowardsWaypoint w)^[n] ch).coord)).getLast? =
          some ((CharacterState.MoveTowardsWaypoint w)^[m] ch).coord := by
      rw [List.getLast?_map, List.getLast?_range, if_neg (by omega), Nat.add_sub_cancel]
      rfl
    dsimp only
    rw [hlast, if_pos (by simp only [Bool.or_eq_true, bne_iff_ne, ne_eq, Option.some.injEq, hmove,
      not_false_eq_true, or_true]), List.range_succ (n := m + 1), List.map_append,
      List.map_singleton]

/-- On a clear route `DumpPath` lists `TimeToDestination + 1` tiles: from where the character
stands to its last waypoint, each a walkable neighbour of the one before. -/
theorem DumpPath_walk (h : ch.RouteClear w) (hne : ch.waypoints ≠ []) {fuel : Nat}
    (hfuel : ch.TimeToDestination none + 1 ≤ fuel) :
    (ch.DumpPath w none fuel).length = ch.TimeToDestination none + 1 ∧
      (ch.DumpPath w none fuel).head? = some ch.coord ∧
      (ch.DumpPath w none fuel).getLast? = some ch.destination ∧
      (ch.DumpPath w none fuel).IsChain
        (fun a b => distLInf a b = 1 ∧ w.IsWalkableCoord b = true) := by
  rw [DumpPath_clear h hne hfuel]
  refine ⟨by simp, by simp [List.range_succ_eq_map], ?_, ?_⟩
  · rw [List.getLast?_map, List.getLast?_range, if_neg (by omega), Nat.add_sub_cancel,
      Option.map_some]
    exact congrArg some h.coord_run
  · -- each step of the run with time left enters a walkable neighbour
    rw [List.isChain_map, List.isChain_range_succ]
    intro n hn
    have hpos : 0 < ((CharacterState.MoveTowardsWaypoint w)^[n] ch).TimeToDestination none := by
      rw [(h.run n).2.2]
      omega
    rw [Function.iterate_succ_apply']
    exact (h.run n).1.move_king hpos

theorem DumpPath_walk_flat :
    let ch : CharacterState :=
      { (default : CharacterState) with
        coord := ⟨0, 0⟩, from_ := ⟨0, 0⟩, waypoints := [⟨3, 1⟩, ⟨2, 1⟩] }
    ch.RouteClear World.flat ∧ ch.waypoints ≠ [] ∧ ch.TimeToDestination none + 1 ≤ 4 ∧
      (ch.DumpPath World.flat none 4).length = ch.TimeToDestination none + 1 ∧
      (ch.DumpPath World.flat none 4).head? = some ch.coord ∧
      (ch.DumpPath World.flat none 4).getLast? = some ch.destination ∧
      (ch.DumpPath World.flat none 4).IsChain
        (fun a b => distLInf a b = 1 ∧ World.flat.IsWalkableCoord b = true) :=
  ⟨routeClear_flat, List.cons_ne_nil _ _, by decide,
    DumpPath_walk routeClear_flat (List.cons_ne_nil _ _) (by decide)⟩

end DumpPath

/-! ## The route machine of a character -/

/-- What the game does to a character's route: the waypoints of a move (`Move::ApplyWaypoints`)
and, once a block, the movement phase of `PerformStep`. -/
inductive RouteEvent
  | waypoints (wp : List Coord)
  | block (s : GameState)

/-- A character's route as a system: a spawned character stands still (`Spawn` ends in
`StopMoving`), and each event changes the route as the game does. -/
def routeSystem (w : World) : TransitionSystem CharacterState RouteEvent where
  init ch := ch.waypoints = []
  step ch e ch' :=
    match e with
    | .waypoints wp => ch' = Move.setWaypoints ch wp
    | .block s => ch' = moveCharacter w s ch

section Machine

variable {w : World}

/-- The movement phase stops a spectator or clears its spawn protection, then steps. -/
theorem moveCharacter_cases (s : GameState) (ch : CharacterState) :
    moveCharacter w s ch = ch.StopMoving.MoveTowardsWaypoint w ∨
      ∃ st, moveCharacter w s ch = { ch with stay_in_spawn_area := st }.MoveTowardsWaypoint w := by
  unfold moveCharacter
  split
  · split
    · exact Or.inl rfl
    · exact Or.inr ⟨_, rfl⟩
  · exact Or.inr ⟨ch.stay_in_spawn_area, rfl⟩

theorem CharacterState.OnItsLine.moveCharacter {ch : CharacterState} (h : ch.OnItsLine)
    (s : GameState) : (moveCharacter w s ch).OnItsLine := by
  rcases moveCharacter_cases s ch with hstop | ⟨st, hmove⟩
  · rw [hstop]
    exact (CharacterState.OnItsLine.StopMoving ch).move
  · rw [hmove]
    exact (h.of_eq { ch with stay_in_spawn_area := st } rfl rfl rfl).move

/-- Being on its line is an invariant of a character's route. -/
theorem routeSystem_invariant : (routeSystem w).Invariant CharacterState.OnItsLine where
  init _ h := Or.inl h
  step ch e ch' h hstep := by
    cases e with
    | waypoints wp =>
      rw [show ch' = Move.setWaypoints ch wp from hstep]
      exact h.setWaypoints wp
    | block s =>
      rw [show ch' = moveCharacter w s ch from hstep]
      exact h.moveCharacter s

/-- Whatever waypoints the players send, every character the game can reach is on its line, and
its next block moves it to a walkable neighbouring tile or leaves it where it is. -/
theorem routeSystem_move_king {ch : CharacterState} (h : (routeSystem w).Reachable ch)
    (s : GameState) :
    ch.OnItsLine ∧
      ((moveCharacter w s ch).coord = ch.coord ∨
        distLInf ch.coord (moveCharacter w s ch).coord = 1 ∧
          w.IsWalkableCoord (moveCharacter w s ch).coord = true) := by
  have hline := TransitionSystem.Invariant.reachable _ routeSystem_invariant h
  refine ⟨hline, ?_⟩
  rcases moveCharacter_cases s ch with hstop | ⟨st, hmove⟩
  · -- a stopped character has no waypoints and stays
    rw [hstop, MoveTowardsWaypoint_of_nil rfl]
    exact Or.inl rfl
  · rw [hmove]
    exact (hline.of_eq { ch with stay_in_spawn_area := st } rfl rfl rfl).move_king

theorem routeSystem_move_king_flat :
    let ch := Move.setWaypoints default [⟨3, 1⟩, ⟨2, 1⟩]
    let s := GameState.init MainNetParams
    (routeSystem World.flat).Reachable ch ∧
      ch.OnItsLine ∧
      ((moveCharacter World.flat s ch).coord = ch.coord ∨
        distLInf ch.coord (moveCharacter World.flat s ch).coord = 1 ∧
          World.flat.IsWalkableCoord (moveCharacter World.flat s ch).coord = true) := by
  intro ch s
  have hr : (routeSystem World.flat).Reachable ch :=
    TransitionSystem.Reachable.step
      (TransitionSystem.Reachable.init (show (routeSystem World.flat).init default from rfl))
      (show (routeSystem World.flat).step default (.waypoints [⟨3, 1⟩, ⟨2, 1⟩]) ch from rfl)
  exact ⟨hr, routeSystem_move_king hr s⟩

end Machine

end Huntercore
