import Mathlib
import Huntercore.Lib.Chain
import Huntercore.Game.Line

/-!
# Path finding

`FindPath` of `movecreator.cpp` runs Boost's A* search over the maze whose vertices are tiles and
whose edges join a tile to its walkable in-map neighbours (`neighbor_iterator`), reads the path
back through the predecessor map, and cuts it into straight segments that `CheckLinearPath`
accepts, each the longest a binary search finds. The search is a library call; its outcome
enters as an `AStarResult`, and `AStarCorrect` states what `astar_search_no_init` provides with
the admissible L∞ heuristic: the goal is examined exactly when it is reachable, and the
predecessor map then leads back along a shortest walk.

For walkable in-map ends, the waypoints start at `startPt` and end at `goal`, every segment
passes `CheckLinearPath`, and their total L∞ length is the maze distance; an unreachable goal
gives no waypoints. The length is at most the walk the segments replace, since each segment cuts
a piece of it, and at least the maze distance, since each segment is itself a maze walk of its
L∞ length (the line lemmas of `Game.Line`).
-/

namespace Huntercore

variable (w : World)

/-! ## The maze -/

/-- `WalkableCoord` of `movecreator.cpp`: the tile is on the map and walkable. -/
def WalkableCoord (c : Coord) : Bool := IsInsideMap c.x c.y && w.IsWalkable c.x c.y

/-- The eight offsets of the neighbours, in the order `neighbor_iterator::increment` visits
them (rows by `dy`, skipping the tile itself). -/
def neighborOffsets : List (Int × Int) :=
  [(-1, -1), (0, -1), (1, -1), (-1, 0), (1, 0), (-1, 1), (0, 1), (1, 1)]

/-- `out_edges (v, g)`: the targets of the edges the neighbour iterator yields from `v`, its
walkable in-map neighbours. -/
def Maze.out_edges (v : Coord) : List Coord :=
  (neighborOffsets.map fun d => (⟨v.x + d.1, v.y + d.2⟩ : Coord)).filter (WalkableCoord w)

/-- An edge of the maze. -/
def MazeEdge (a b : Coord) : Prop := b ∈ Maze.out_edges w a

instance : DecidableRel (MazeEdge w) := fun a b =>
  inferInstanceAs (Decidable (b ∈ Maze.out_edges w a))

/-- A walk of the maze from `s` to `g`. -/
def MazePath (s g : Coord) (p : List Coord) : Prop :=
  p.head? = some s ∧ p.getLast? = some g ∧ p.IsChain (MazeEdge w)

instance (s g : Coord) (p : List Coord) : Decidable (MazePath w s g p) :=
  inferInstanceAs (Decidable (_ ∧ _ ∧ _))

/-- A walk of the maze from `s` to `g` with no shorter one. -/
def ShortestPath (s g : Coord) (p : List Coord) : Prop :=
  MazePath w s g p ∧ ∀ q, MazePath w s g q → p.length ≤ q.length

theorem mem_neighbors_iff {a b : Coord} :
    b ∈ neighborOffsets.map (fun d => (⟨a.x + d.1, a.y + d.2⟩ : Coord)) ↔
      b ≠ a ∧ distLInf a b ≤ 1 := by
  obtain ⟨ax, ay⟩ := a
  obtain ⟨bx, by_⟩ := b
  simp [neighborOffsets, distLInf, Coord.mk.injEq]
  omega

/-- The edges from `a` go to the walkable in-map tiles one L∞ step away. -/
theorem mazeEdge_iff {a b : Coord} :
    MazeEdge w a b ↔ b ≠ a ∧ distLInf a b ≤ 1 ∧ WalkableCoord w b = true := by
  rw [MazeEdge, Maze.out_edges, List.mem_filter, mem_neighbors_iff, and_assoc]

variable {w}

theorem MazeEdge.distLInf_le {a b : Coord} (h : MazeEdge w a b) : distLInf a b ≤ 1 :=
  ((mazeEdge_iff w).mp h).2.1

theorem MazeEdge.walkable {a b : Coord} (h : MazeEdge w a b) : WalkableCoord w b = true :=
  ((mazeEdge_iff w).mp h).2.2

theorem IsInsideMap_iff {x y : Int} :
    IsInsideMap x y = true ↔ 0 ≤ x ∧ x < 502 ∧ 0 ≤ y ∧ y < 502 := by
  unfold IsInsideMap
  rw [show MAP_WIDTH = 502 from rfl, show MAP_HEIGHT = 502 from rfl]
  simp only [Bool.and_eq_true, decide_eq_true_eq]
  omega

theorem IsInsideMap_of_walkable {c : Coord} (h : WalkableCoord w c = true) :
    IsInsideMap c.x c.y = true := by
  unfold WalkableCoord at h
  simp only [Bool.and_eq_true] at h
  exact h.1

theorem IsWalkableCoord_of_walkable {c : Coord} (h : WalkableCoord w c = true) :
    w.IsWalkableCoord c = true := by
  unfold WalkableCoord at h
  simp only [Bool.and_eq_true] at h
  exact h.2

/-- Each step of a walk moves one L∞ unit at most, so a walk is at least as long as the L∞
distance of its ends. -/
theorem distLInf_le_of_chain {a b : Coord} {q : List Coord} (h : (a :: q).IsChain (MazeEdge w))
    (hlast : (a :: q).getLast? = some b) : distLInf a b ≤ q.length :=
  List.IsChain.dist_le distLInf_self distLInf_triangle
    (h.imp fun _ _ hab => MazeEdge.distLInf_le hab) hlast

theorem MazePath.exists_eq_cons {s g : Coord} {p : List Coord} (h : MazePath w s g p) :
    ∃ q, p = s :: q := by
  cases p with
  | nil => simp [MazePath] at h
  | cons a q =>
    have hhead := h.1
    rw [List.head?_cons, Option.some_inj] at hhead
    exact ⟨q, by rw [hhead]⟩

theorem MazePath.distLInf_le {s g : Coord} {p : List Coord} (h : MazePath w s g p) :
    distLInf s g + 1 ≤ p.length := by
  obtain ⟨q, rfl⟩ := h.exists_eq_cons
  have := distLInf_le_of_chain h.2.2 h.2.1
  rw [List.length_cons]
  omega

/-- A walk from a walkable tile stays on walkable tiles. -/
theorem walkable_of_chain {a : Coord} {q : List Coord} (ha : WalkableCoord w a = true)
    (h : (a :: q).IsChain (MazeEdge w)) : ∀ c ∈ a :: q, WalkableCoord w c = true := by
  intro c hc
  rcases List.mem_cons.mp hc with rfl | hc
  · exact ha
  · exact h.forall_mem_of_rel (fun _ _ hab => MazeEdge.walkable hab) c hc

/-- A walk that visits no tile twice and stays on the map has at most as many tiles as the
map. -/
theorem length_le_of_nodup_inside {p : List Coord} (hnd : p.Nodup)
    (hin : ∀ c ∈ p, IsInsideMap c.x c.y = true) : p.length ≤ (MAP_WIDTH * MAP_HEIGHT).toNat := by
  let f : Coord → Nat × Nat := fun c => (c.x.toNat, c.y.toNat)
  have hbounds : ∀ c ∈ p, 0 ≤ c.x ∧ c.x < 502 ∧ 0 ≤ c.y ∧ c.y < 502 :=
    fun c hc => IsInsideMap_iff.mp (hin c hc)
  have hinj : ∀ a ∈ p, ∀ b ∈ p, f a = f b → a = b := by
    intro a ha b hb hab
    have h1 := hbounds a ha
    have h2 := hbounds b hb
    simp only [f, Prod.mk.injEq] at hab
    cases a
    cases b
    dsimp only at h1 h2 hab
    congr 1 <;> omega
  have hsub : (p.map f).toFinset ⊆ Finset.range 502 ×ˢ Finset.range 502 := by
    intro x hx
    rw [Finset.mem_product, Finset.mem_range, Finset.mem_range]
    rw [List.mem_toFinset, List.mem_map] at hx
    obtain ⟨c, hc, rfl⟩ := hx
    have := hbounds c hc
    simp only [f]
    omega
  calc p.length = (p.map f).toFinset.card := by
        rw [List.toFinset_card_of_nodup (hnd.map_on hinj), List.length_map]
    _ ≤ (Finset.range 502 ×ˢ Finset.range 502).card := Finset.card_le_card hsub
    _ = (MAP_WIDTH * MAP_HEIGHT).toNat := by
        rw [Finset.card_product, Finset.card_range]
        rfl

/-- A shortest walk visits no tile twice. -/
theorem ShortestPath.nodup {s g : Coord} {q : List Coord} (h : ShortestPath w s g (s :: q)) :
    (s :: q).Nodup := by
  refine h.1.2.2.nodup_of_shortest fun l' hchain hlast => ?_
  have hmin := h.2 (s :: l') ⟨rfl, hlast.trans h.1.2.1, hchain⟩
  simp only [List.length_cons] at hmin
  omega

/-! ## Straight segments as maze walks -/

/-- A segment that `CheckLinearPath` accepts between in-map tiles is a maze walk of its L∞
length: the line's tiles. -/
theorem exists_chain_of_CheckLinearPath {a b : Coord} (ha : IsInsideMap a.x a.y = true)
    (hb : IsInsideMap b.x b.y = true) (hc : CheckLinearPath w a b = true) :
    ∃ q, (a :: q).IsChain (MazeEdge w) ∧ (a :: q).getLast? = some b ∧
      q.length = distLInf a b := by
  have hline : (List.range (distLInf a b + 1)).map (linePoint a b) =
      a :: (List.range (distLInf a b)).map (fun j => linePoint a b (j + 1)) := by
    rw [List.range_succ_eq_map, List.map_cons, List.map_map, linePoint_zero]
    rfl
  refine ⟨(List.range (distLInf a b)).map (fun j => linePoint a b (j + 1)), ?_, ?_, by simp⟩
  · -- each step is an edge: a neighbour on the map that `CheckLinearPath` found walkable
    rw [← hline, List.isChain_map, List.isChain_range_succ]
    intro m hm
    have hd := distLInf_linePoint_succ a b hm
    refine (mazeEdge_iff w).mpr ⟨fun heq => ?_, hd.le, ?_⟩
    · rw [heq, distLInf_self] at hd
      exact absurd hd (by decide)
    · unfold WalkableCoord
      rw [IsInsideMap_linePoint a b ha hb hm,
        show w.IsWalkable _ _ = w.IsWalkableCoord (linePoint a b m.succ) from rfl,
        (CheckLinearPath_iff w a b).mp hc (m + 1) (by omega) hm]
      rfl
  · rw [← hline, List.getLast?_map, List.getLast?_range, if_neg (by omega), Nat.add_sub_cancel,
      Option.map_some, linePoint_distLInf]

/-- The blocks a character takes to walk the waypoints: the L∞ length of each segment. -/
def travelTime : List Coord → Nat
  | a :: b :: rest => distLInf a b + travelTime (b :: rest)
  | _ => 0

/-- Waypoints whose segments `CheckLinearPath` accepts, all on the map, are joined by a maze walk
as long as their travel time. -/
theorem exists_chain_of_waypoints :
    ∀ (a : Coord) (wps : List Coord),
      (a :: wps).IsChain (fun u v => CheckLinearPath w u v = true) →
      (∀ c ∈ a :: wps, IsInsideMap c.x c.y = true) →
      ∃ q, (a :: q).IsChain (MazeEdge w) ∧ (a :: q).getLast? = (a :: wps).getLast? ∧
        q.length = travelTime (a :: wps)
  | a, [], _, _ => ⟨[], List.isChain_singleton a, rfl, rfl⟩
  | a, b :: wps, hchain, hin => by
    rw [List.isChain_cons_cons] at hchain
    obtain ⟨q₁, hc₁, hl₁, hn₁⟩ := exists_chain_of_CheckLinearPath (hin a (by simp))
      (hin b (by simp)) hchain.1
    obtain ⟨q₂, hc₂, hl₂, hn₂⟩ := exists_chain_of_waypoints b wps hchain.2
      (fun c hc => hin c (List.mem_cons_of_mem a hc))
    refine ⟨q₁ ++ q₂, hc₁.append_of_getLast? hl₁ hc₂, ?_, ?_⟩
    · rw [List.getLast?_cons_append_of_getLast? hl₁, hl₂, List.getLast?_cons_cons]
    · rw [List.length_append, hn₁, hn₂, travelTime]

/-! ## Reading back the predecessor map -/

/-- The loop `for (Coord u = goal; u != startPt; u = predecessor[u]) solution.push_front(u);`,
run for at most `fuel` iterations. -/
def walkBack (predecessor : Coord → Coord) (startPt : Coord) :
    Nat → Coord → List Coord → List Coord
  | 0, _, solution => solution
  | fuel + 1, u, solution =>
    if u ≠ startPt then walkBack predecessor startPt fuel (predecessor u) (u :: solution)
    else solution

/-- From the end of a predecessor chain `startPt :: q` that does not come back to `startPt`, the
loop collects `q`, given fuel for its length. -/
theorem walkBack_chain (predecessor : Coord → Coord) (startPt : Coord) (q : List Coord) :
    ∀ (fuel : Nat) (solution : List Coord),
      (startPt :: q).IsChain (fun a b => predecessor b = a) → startPt ∉ q → q.length ≤ fuel →
      walkBack predecessor startPt fuel (q.getLastD startPt) solution = q ++ solution := by
  -- the loop reads the chain from its end, so the induction peels the last tile
  induction q using List.reverseRecOn with
  | nil =>
    intro fuel solution _ _ _
    cases fuel <;> simp [walkBack]
  | append_singleton q u ih =>
    intro fuel solution hchain hnot hlen
    obtain ⟨fuel, rfl⟩ : ∃ f, fuel = f + 1 := ⟨fuel - 1, by simp at hlen; omega⟩
    rw [← List.cons_append, List.isChain_append] at hchain
    have hne : u ≠ startPt := fun h => hnot (by simp [h])
    have hpred : predecessor u = q.getLastD startPt := by
      have := hchain.2.2 (q.getLastD startPt) (by simp [List.getLast?_cons, List.getLastD_eq_getLast?])
        u (by simp)
      exact this
    rw [List.getLastD_concat, walkBack, if_pos hne, hpred,
      ih fuel (u :: solution) hchain.1 (fun h => hnot (List.mem_append_left _ h))
        (by simp at hlen; omega)]
    simp

/-! ## Linearising the path -/

variable (w)

/-- The binary search of `FindPath` for the longest prefix of `solution` that `CheckLinearPath`
walks straight from `back`: the index of its last tile, between `start` and `end`. -/
def searchPrefix (back : Coord) (solution : List Coord) (start end_ : Nat) : Nat :=
  if start < end_ - 1 then
    let mid := (start + end_) / 2
    if CheckLinearPath w back (solution.getD mid default) then searchPrefix back solution mid end_
    else searchPrefix back solution start mid
  else start
termination_by end_ - start

/-- The search moves its lower end only to a tile that `CheckLinearPath` accepted, so it returns
an index in range that is either where it started or accepted. -/
theorem searchPrefix_spec (back : Coord) (solution : List Coord) (start end_ : Nat)
    (h : start < end_) :
    start ≤ searchPrefix w back solution start end_ ∧ searchPrefix w back solution start end_ < end_ ∧
      (searchPrefix w back solution start end_ = start ∨
        CheckLinearPath w back (solution.getD (searchPrefix w back solution start end_) default)
          = true) := by
  fun_induction searchPrefix w back solution start end_ with
  | case1 start end_ hlt mid hcheck ih =>
    obtain ⟨hle, hlt', hor⟩ := ih (by omega)
    refine ⟨by omega, hlt', Or.inr ?_⟩
    rcases hor with heq | hc
    · rw [heq]
      exact hcheck
    · exact hc
  | case2 start end_ hlt mid _ ih =>
    obtain ⟨hle, hlt', hor⟩ := ih (by omega)
    exact ⟨hle, by omega, hor⟩
  | case3 start end_ hge => exact ⟨le_refl _, h, Or.inl rfl⟩

/-- The outer loop of the linearisation, with `back` the last waypoint so far: cut the prefix
the search found, push its last tile as the next waypoint and go on from there. -/
def linearize (back : Coord) (solution : List Coord) : List Coord :=
  match _h : solution.drop (searchPrefix w back solution 0 solution.length) with
  | [] => []
  | next :: rest => next :: linearize next rest
termination_by solution.length
decreasing_by
  have := congrArg List.length _h
  simp only [List.length_drop, List.length_cons] at this
  omega

/-- One cut of the linearisation: the tile pushed next is reached straight from `back`, is no
farther from it than the steps of the walk it replaces, and the walk goes on from it. -/
theorem linearize_cut {back next : Coord} {solution rest : List Coord}
    (hchain : (back :: solution).IsChain (MazeEdge w))
    (hdrop : solution.drop (searchPrefix w back solution 0 solution.length) = next :: rest) :
    CheckLinearPath w back next = true ∧ distLInf back next + rest.length ≤ solution.length ∧
      (next :: rest).IsChain (MazeEdge w) ∧
      (back :: solution).getLast? = (next :: rest).getLast? ∧ ∀ c ∈ next :: rest, c ∈ solution := by
  have hmem : ∀ c ∈ next :: rest, c ∈ solution := fun c hc =>
    List.mem_of_mem_drop (hdrop ▸ hc)
  generalize hs : searchPrefix w back solution 0 solution.length = s at hdrop
  have hlt : s < solution.length := by
    by_contra hge
    rw [List.drop_eq_nil_of_le (by omega)] at hdrop
    cases hdrop
  obtain ⟨-, -, hacc⟩ := searchPrefix_spec w back solution 0 solution.length (by omega)
  rw [hs] at hacc
  rw [List.drop_eq_getElem_cons hlt] at hdrop
  obtain ⟨hnext, hrest⟩ := List.cons.inj hdrop
  -- the walk splits at the cut: `back`, the tiles before `next`, then `next :: rest`
  have hsplit : back :: solution = (back :: solution.take s) ++ next :: rest := by
    rw [← hnext, ← hrest, List.cons_append, ← List.drop_eq_getElem_cons hlt,
      List.take_append_drop]
  have hparts := List.isChain_split.mp (hsplit ▸ hchain)
  have hlen : (solution.take s ++ [next]).length = s + 1 := by
    rw [List.length_append, List.length_take, Nat.min_eq_left hlt.le, List.length_singleton]
  have hdist : distLInf back next ≤ s + 1 := by
    have hcut : (back :: (solution.take s ++ [next])).IsChain (MazeEdge w) := hparts.1
    have hlast : (back :: (solution.take s ++ [next])).getLast? = some next := by
      rw [← List.cons_append, List.getLast?_concat]
    rw [← hlen]
    exact distLInf_le_of_chain hcut hlast
  refine ⟨?_, ?_, hparts.2, ?_, hmem⟩
  · rcases hacc with h0 | hc
    · -- nothing was cut: `next` is the first tile of the walk, a neighbour of `back`
      rw [h0, List.take_zero, List.cons_append, List.nil_append, List.isChain_pair] at hparts
      obtain ⟨hne, hle, hwalk⟩ := (mazeEdge_iff w).mp hparts.1
      have hd : distLInf back next = 1 := by
        have : distLInf back next ≠ 0 := fun h0 => hne (eq_of_distLInf_eq_zero h0).symm
        omega
      exact CheckLinearPath_of_distLInf_eq_one w hd (IsWalkableCoord_of_walkable hwalk)
    · rwa [List.getD_eq_getElem _ _ hlt, hnext] at hc
  · rw [← hrest, List.length_drop]
    omega
  · rw [hsplit, List.getLast?_append_cons]

/-- The linearisation invariant: the waypoints after `back` lead by accepted straight segments to
the end of the walk `back :: solution`, take at most as long as it, and are tiles of it. -/
theorem linearize_spec (back : Coord) (solution : List Coord)
    (hchain : (back :: solution).IsChain (MazeEdge w)) :
    (back :: linearize w back solution).IsChain (fun a b => CheckLinearPath w a b = true) ∧
      (back :: linearize w back solution).getLast? = (back :: solution).getLast? ∧
      travelTime (back :: linearize w back solution) ≤ solution.length ∧
      ∀ c ∈ linearize w back solution, c ∈ solution := by
  fun_induction linearize w back solution with
  | case1 back solution hdrop =>
    -- the search cuts nothing only from an empty walk
    obtain rfl : solution = [] := by
      by_contra hne
      have hpos : 0 < solution.length := List.length_pos_of_ne_nil hne
      have := (searchPrefix_spec w back solution 0 solution.length hpos).2.1
      rw [List.drop_eq_nil_iff] at hdrop
      omega
    exact ⟨List.isChain_singleton back, rfl, by simp [travelTime], by simp⟩
  | case2 back solution next rest hdrop ih =>
    obtain ⟨hcheck, hdist, hchain', hlast, hmem⟩ := linearize_cut w hchain hdrop
    obtain ⟨ih₁, ih₂, ih₃, ih₄⟩ := ih hchain'
    refine ⟨List.isChain_cons_cons.mpr ⟨hcheck, ih₁⟩, ?_, ?_, ?_⟩
    · rw [List.getLast?_cons_cons, ih₂, hlast]
    · rw [travelTime]
      omega
    · intro c hc
      rcases List.mem_cons.mp hc with rfl | hc
      · exact hmem c List.mem_cons_self
      · exact hmem c (List.mem_cons_of_mem next (ih₄ c hc))

/-! ## The search and `FindPath` -/

/-- What `astar_search_no_init` leaves behind: whether `examine_vertex` met the goal (the
`found_goal` exception) and the predecessor map. -/
structure AStarResult where
  found : Bool
  predecessor : Coord → Coord

/-- What `FindPath` takes from Boost's A* with the admissible L∞ heuristic: the goal is examined
exactly when it is reachable, and the predecessor map then leads back from it along a shortest
walk. -/
structure AStarCorrect (startPt goal : Coord) (r : AStarResult) : Prop where
  found_iff : r.found = true ↔ ∃ p, MazePath w startPt goal p
  shortest : r.found = true →
    ∃ p, ShortestPath w startPt goal p ∧ p.IsChain (fun a b => r.predecessor b = a)

/-- `FindPath`: the waypoints from `startPt` to `goal`, given the outcome of the A* search. The
predecessor chain is read back with one iteration per tile of the map at most. -/
def FindPath (r : AStarResult) (startPt goal : Coord) : List Coord :=
  if !WalkableCoord w startPt || !WalkableCoord w goal then []
  else if !r.found then []
  else
    let solution := walkBack r.predecessor startPt (MAP_WIDTH * MAP_HEIGHT).toNat goal []
    startPt :: linearize w startPt solution

variable {w}

/-- Along a shortest walk `startPt :: q` held by the predecessor map, the read-back collects
`q`, so the waypoints are `startPt` and the linearisation of `q`. -/
theorem FindPath_eq_of_shortest {startPt goal : Coord} {r : AStarResult} {q : List Coord}
    (hs : WalkableCoord w startPt = true) (hg : WalkableCoord w goal = true)
    (hfound : r.found = true) (hsp : ShortestPath w startPt goal (startPt :: q))
    (hpred : (startPt :: q).IsChain (fun a b => r.predecessor b = a)) :
    FindPath w r startPt goal = startPt :: linearize w startPt q := by
  have hnd := hsp.nodup
  -- the walk visits no tile twice and stays on the map, so the fuel covers it
  have hin : ∀ c ∈ startPt :: q, IsInsideMap c.x c.y = true := fun c hc =>
    IsInsideMap_of_walkable (walkable_of_chain hs hsp.1.2.2 c hc)
  have hlen := length_le_of_nodup_inside hnd hin
  have hgoal : q.getLastD startPt = goal := by
    have := hsp.1.2.1
    rw [List.getLast?_cons, ← List.getLastD_eq_getLast?] at this
    exact Option.some_inj.mp this
  have hback := walkBack_chain r.predecessor startPt q (MAP_WIDTH * MAP_HEIGHT).toNat []
    hpred (List.nodup_cons.mp hnd).1 (by rw [List.length_cons] at hlen; omega)
  rw [hgoal, List.append_nil] at hback
  simp [FindPath, hs, hg, hfound, hback]

/-- `FindPath` yields executable shortest paths. For walkable in-map ends and a search that keeps
A*'s guarantee: when the goal is reachable, the waypoints run from `startPt` to `goal`, each
segment passes `CheckLinearPath`, and the travel time is the length of a shortest maze walk;
otherwise there are no waypoints. -/
theorem FindPath_correct {startPt goal : Coord} (hs : WalkableCoord w startPt = true)
    (hg : WalkableCoord w goal = true) {r : AStarResult} (hr : AStarCorrect w startPt goal r) :
    ((∃ p, MazePath w startPt goal p) →
      (FindPath w r startPt goal).head? = some startPt ∧
      (FindPath w r startPt goal).getLast? = some goal ∧
      (FindPath w r startPt goal).IsChain (fun a b => CheckLinearPath w a b = true) ∧
      IsLeast {n | ∃ p, MazePath w startPt goal p ∧ p.length = n + 1}
        (travelTime (FindPath w r startPt goal))) ∧
    ((¬ ∃ p, MazePath w startPt goal p) → FindPath w r startPt goal = []) := by
  refine ⟨fun hreach => ?_, fun hnot => ?_⟩
  · have hfound := hr.found_iff.mpr hreach
    obtain ⟨p, hsp, hpred⟩ := hr.shortest hfound
    obtain ⟨q, rfl⟩ := hsp.1.exists_eq_cons
    rw [FindPath_eq_of_shortest hs hg hfound hsp hpred]
    obtain ⟨hcheck, hlast, htime, hmem⟩ := linearize_spec w startPt q hsp.1.2.2
    have hgoal := hlast.trans hsp.1.2.1
    -- the waypoints are tiles of the walk, so on the map
    have hin : ∀ c ∈ startPt :: linearize w startPt q, IsInsideMap c.x c.y = true := by
      intro c hc
      refine IsInsideMap_of_walkable (walkable_of_chain hs hsp.1.2.2 c ?_)
      rcases List.mem_cons.mp hc with rfl | hc
      · exact List.mem_cons_self
      · exact List.mem_cons_of_mem startPt (hmem c hc)
    obtain ⟨q', hchain', hlast', hlen'⟩ := exists_chain_of_waypoints startPt _ hcheck hin
    refine ⟨rfl, hgoal, hcheck,
      ⟨startPt :: q', ⟨rfl, hlast'.trans hgoal, hchain'⟩, by rw [List.length_cons, hlen']⟩, ?_⟩
    -- no walk is shorter than the one A* returned, which the waypoints take no longer than
    rintro n ⟨p', hp', hlen''⟩
    have hmin := hsp.2 p' hp'
    rw [List.length_cons] at hmin
    omega
  · have hnf : r.found = false := by
      cases hf : r.found with
      | false => rfl
      | true => exact absurd (hr.found_iff.mp hf) hnot
    simp [FindPath, hnf]

theorem FindPath_correct_flat :
    let s : Coord := ⟨0, 0⟩
    let g : Coord := ⟨2, 1⟩
    let r : AStarResult := ⟨true, fun c => if c = ⟨2, 1⟩ then ⟨1, 1⟩ else ⟨0, 0⟩⟩
    WalkableCoord World.flat s = true ∧ WalkableCoord World.flat g = true ∧
      AStarCorrect World.flat s g r ∧
      (((∃ p, MazePath World.flat s g p) →
        (FindPath World.flat r s g).head? = some s ∧
        (FindPath World.flat r s g).getLast? = some g ∧
        (FindPath World.flat r s g).IsChain (fun a b => CheckLinearPath World.flat a b = true) ∧
        IsLeast {n | ∃ p, MazePath World.flat s g p ∧ p.length = n + 1}
          (travelTime (FindPath World.flat r s g))) ∧
      ((¬ ∃ p, MazePath World.flat s g p) → FindPath World.flat r s g = [])) := by
  intro s g r
  have hs : WalkableCoord World.flat s = true := by decide
  have hg : WalkableCoord World.flat g = true := by decide
  have hpath : MazePath World.flat s g [s, ⟨1, 1⟩, g] := by decide
  have hr : AStarCorrect World.flat s g r := by
    refine ⟨⟨fun _ => ⟨_, hpath⟩, fun _ => rfl⟩, fun _ => ⟨_, ⟨hpath, fun q hq => ?_⟩, by decide⟩⟩
    have := hq.distLInf_le
    exact le_trans (by decide) this
  exact ⟨hs, hg, hr, FindPath_correct hs hg hr⟩

end Huntercore
