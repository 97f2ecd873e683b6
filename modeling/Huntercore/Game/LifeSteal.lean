import Mathlib
import Huntercore.Lib.Control
import Huntercore.Game.Attacks

/-!
# Life steal

After `FORK_LIFESTEAL` a destruct no longer kills: `DrawLife` draws the name coin amount `D`
from an attacked general for each of its attackers, and kills it only when less than `D` is
left (`stealLife_value`). `DistributeDrawnLife` then pays the drawn life back, `D` to each of
as many attackers as it covers, drawn at random, and the rest to the game fund
(`spendDrawnLife_spec`).

The attackers it pays are those found in `alivePlayers`, which it assembles from the tile map
of attackable characters. After `FORK_TIMESAVE` a spawn-protected character is left out of
that map, yet it may destruct: its victims lose their life all the same, and what it should
get goes to the game fund (`DistributeDrawnLife_find?_of_not_mem`,
`DistributeDrawnLife_protectedAttacker`).
-/

namespace Huntercore

namespace CharactersOnTiles

/-! ## Drawing life -/

/-- The value an attacked general keeps: `V - k * D`, or nothing where less than `D` would be
left. -/
theorem stealLife_value {damage : Int} (hD : 0 < damage) (victim : PlayerState)
    (a : AttackableCharacter) :
    (stealLife damage victim a).1.value =
      if victim.value - min victim.value (damage * a.attackers.size) < damage then 0
      else victim.value - damage * a.attackers.size := by
  unfold stealLife
  dsimp only
  rw [min_comm]
  split
  · rfl
  · next h =>
    -- with `D` left over, the value covered the whole damage
    have hmin : min victim.value (damage * a.attackers.size) = damage * a.attackers.size := by
      refine min_eq_right (not_lt.mp fun hlt => h ?_)
      rw [min_eq_left hlt.le]
      omega
    show victim.value - min victim.value (damage * a.attackers.size) = _
    rw [hmin]

/-! ## Paying out drawn life -/

variable (w : World)

/-- A player none of whose characters is among those to pay keeps its record. -/
theorem spendDrawnLife_find?_of_forall_ne (damage : Int) (P : PlayerID) :
    ∀ (fuel : Nat) (alive : List CharacterID) (toSpend : Int) (s : GameState) (g : RandomGenerator),
      (∀ c ∈ alive, c.player ≠ P) →
        (spendDrawnLife w damage fuel alive toSpend (s, g)).1.players.find? P = s.players.find? P
  | 0, _, _, _, _, _ => rfl
  | fuel + 1, alive, toSpend, s, g, h => by
    unfold spendDrawnLife
    split
    · rfl
    · -- the one paid is among those to pay, and the rest of them are still to pay
      next hgo =>
      simp only [Bool.or_eq_true, decide_eq_true_eq, not_or] at hgo
      have hind := RandomGenerator.getIntRnd_lt w g (List.length_pos_iff.mpr hgo.1)
      generalize g.GetIntRnd w alive.length = r at hind ⊢
      obtain ⟨ind, g'⟩ := r
      dsimp only at hind ⊢
      have hne : (alive.getD ind default).player ≠ P := by
        rw [List.getD_eq_getElem _ _ hind]
        exact h _ (List.getElem_mem hind)
      rw [spendDrawnLife_find?_of_forall_ne damage P fuel _ _ _ _
        fun c hc => h c (List.mem_of_mem_eraseIdx hc)]
      exact OrdMap.find?_insert_of_ne _ _ hne

/-- Paying `damage` to the player of `c`. -/
theorem value_getD_pay (s : GameState) (damage : Int) (c : CharacterID) (P : PlayerID) :
    ((s.players.insert c.player { s.players.getD c.player default with
        value := (s.players.getD c.player default).value + damage }).getD P default).value =
      (s.players.getD P default).value + if c.player = P then damage else 0 := by
  by_cases h : c.player = P
  · subst h
    simp
  · simp [OrdMap.getD_insert_of_ne _ _ _ h, h]

/-- The payout loop pays `D` to each of `min m (toSpend / D)` distinct characters among the `m`
to pay, and puts the rest into the game fund. -/
theorem spendDrawnLife_spec {damage : Int} (hD : 0 < damage) :
    ∀ (fuel : Nat) (alive : List CharacterID) (toSpend : Int) (s : GameState) (g : RandomGenerator),
      alive.length ≤ fuel → alive.Nodup → 0 ≤ toSpend →
      ∃ paid : List CharacterID, paid.Nodup ∧ (∀ c ∈ paid, c ∈ alive) ∧
        (paid.length : Int) = min (alive.length : Int) (toSpend / damage) ∧
        (spendDrawnLife w damage fuel alive toSpend (s, g)).1.gameFund =
          s.gameFund + (toSpend - damage * paid.length) ∧
        ∀ P, ((spendDrawnLife w damage fuel alive toSpend (s, g)).1.players.getD P default).value =
          (s.players.getD P default).value + damage * paid.countP (·.player == P)
  | 0, alive, toSpend, s, g, hlen, _, hpos => by
    have halive : alive = [] := List.eq_nil_of_length_eq_zero (Nat.le_zero.mp hlen)
    subst halive
    refine ⟨[], List.nodup_nil, fun c hc => absurd hc List.not_mem_nil, ?_, ?_, fun P => ?_⟩
    · have := Int.ediv_nonneg hpos hD.le
      simp [min_eq_left this]
    · simp [spendDrawnLife]
    · simp [spendDrawnLife]
  | fuel + 1, alive, toSpend, s, g, hlen, hnd, hpos => by
    unfold spendDrawnLife
    split
    · -- nobody left to pay, or less than `D` left: all of it goes to the fund
      next hstop =>
      simp only [Bool.or_eq_true, decide_eq_true_eq] at hstop
      refine ⟨[], List.nodup_nil, fun c hc => absurd hc List.not_mem_nil, ?_, by simp, fun P => by simp⟩
      rcases hstop with h | h
      · subst h
        have := Int.ediv_nonneg hpos hD.le
        simp [min_eq_left this]
      · simp [Int.ediv_eq_zero_of_lt hpos h]
    · -- one attacker drawn at random gets `D`, and the loop goes on without it
      next hgo =>
      simp only [Bool.or_eq_true, decide_eq_true_eq, not_or, not_lt] at hgo
      have hind := RandomGenerator.getIntRnd_lt w g (List.length_pos_iff.mpr hgo.1)
      generalize g.GetIntRnd w alive.length = r at hind ⊢
      obtain ⟨ind, g'⟩ := r
      dsimp only at hind ⊢
      have hc : alive.getD ind default = alive[ind] := List.getD_eq_getElem _ _ hind
      rw [hc]
      have hlen' : (alive.eraseIdx ind).length = alive.length - 1 := List.length_eraseIdx_of_lt hind
      obtain ⟨paid, hnd', hsub, hcount, hfund, hvalue⟩ := spendDrawnLife_spec hD fuel (alive.eraseIdx ind)
        (toSpend - damage)
        { s with
          players := s.players.insert alive[ind].player { s.players.getD alive[ind].player default with
            value := (s.players.getD alive[ind].player default).value + damage } } g'
        (by omega) (hnd.eraseIdx ind) (by omega)
      have hnot : alive[ind] ∉ paid := fun hmem => by
        obtain ⟨i, hi, hne, heq⟩ := List.mem_eraseIdx_iff_getElem.mp (hsub _ hmem)
        exact hne ((List.Nodup.getElem_inj_iff hnd).mp heq)
      have hdiv : toSpend / damage = (toSpend - damage) / damage + 1 := by
        rw [← Int.add_mul_ediv_right _ 1 hD.ne', Int.one_mul, Int.sub_add_cancel]
      refine ⟨alive[ind] :: paid, List.nodup_cons.mpr ⟨hnot, hnd'⟩, fun c hc => ?_, ?_, ?_, fun P => ?_⟩
      · rcases List.mem_cons.mp hc with rfl | hc
        · exact List.getElem_mem hind
        · exact List.mem_of_mem_eraseIdx (hsub c hc)
      · rw [hlen'] at hcount
        rw [List.length_cons, hdiv]
        push_cast [Nat.cast_sub (List.length_pos_iff.mpr hgo.1)] at hcount ⊢
        omega
      · rw [hfund, List.length_cons]
        push_cast
        ring
      · rw [hvalue, value_getD_pay, List.countP_cons]
        by_cases hP : alive[ind].player = P
        · simp only [hP, ↓reduceIte, beq_self_eq_true, Nat.cast_add, Nat.cast_one]
          ring
        · simp [hP]

/-- `DistributeDrawnLife` pays the characters of the tile map only: a player none of whose
characters is in it keeps its record, whatever it attacked. -/
theorem DistributeDrawnLife_find?_of_not_mem (t : CharactersOnTiles) (g : RandomGenerator) (s : GameState)
    (P : PlayerID) (hP : ∀ e ∈ t.tiles, e.2.chid.player ≠ P) :
    (t.DistributeDrawnLife w g s).1.players.find? P = s.players.find? P := by
  unfold DistributeDrawnLife
  split
  · rfl
  · refine List.foldl_invariant (fun acc => acc.1.players.find? P = s.players.find? P) _ t.tiles
      (fun acc e _ hacc => ?_) (s, g) rfl
    dsimp only
    split
    · exact hacc
    · rw [spendDrawnLife_find?_of_forall_ne w _ P _ _ _ _ _ fun c hc => ?_]
      · exact hacc
      · -- whoever is paid is the character of an entry of the map
        obtain ⟨-, hc⟩ := List.mem_filter.mp hc
        obtain ⟨e', he', rfl⟩ := List.mem_map.mp (List.contains_iff_mem.mp hc)
        exact hP e' (List.mem_filter.mp he').1

/-- At a height where `FORK_TIMESAVE` is in effect, the general of `a` has just spawned and is
spawn-protected (`stay_in_spawn_area` 0); it destructs next to the general of `b`, of another
colour. `b` loses `D` of its value and the drawn life is `D`, but `DistributeDrawnLife` pays
none of it to `a`, which is not in the tile map: it all goes to the game fund. -/
theorem DistributeDrawnLife_protectedAttacker :
    let s : GameState := { GameState.init MainNetParams with
      nHeight := 1521500
      players := (OrdMap.empty.insert "a"
          ⟨0, 0, 200 * COIN, OrdMap.empty.insert 0 ⟨⟨10, 10⟩, 0, ⟨10, 10⟩, [], default, 0⟩, 1, -1, "", 0, "", ""⟩).insert
        "b" ⟨1, 0, 300 * COIN, OrdMap.empty.insert 0 ⟨⟨11, 10⟩, 0, ⟨11, 10⟩, [], default, 6⟩, 1, -1, "", 0, "", ""⟩ }
    let tiles := ((default : CharactersOnTiles).ApplyAttacks s
      [⟨"a", 0, none, none, none, 0xFF, .empty, OrdSet.empty.insert 0⟩]).DefendMutualAttacks
    let r := tiles.DrawLife s default
    let s' := (r.1.DistributeDrawnLife World.flat ⟨0, 0⟩ r.2.1).1
    (r.1.tiles.map fun e => (e.2.chid, e.2.attackers.elems, e.2.drawnLife)) =
        [(⟨"b", 0⟩, [⟨"a", 0⟩], 100 * COIN)] ∧
      (r.2.1.players.getD "b" default).value = 200 * COIN ∧
      (s'.players.getD "a" default).value = 200 * COIN ∧ s'.gameFund = 100 * COIN := by
  decide

end CharactersOnTiles

end Huntercore
