import Mathlib
import Huntercore.Game.Move
import Huntercore.Univalue.UniValue

/-!
# Parsing moves

The value of a player's name update is the JSON text of a move (`Move::Parse`, game/move.cpp).
A spawn is an object with a `color`; any other move is an object whose members are the
characters it moves, keyed by their index in decimal, each an object with an optional list of
waypoints `wp` and an optional flag `destruct`. Both may carry a chat message `msg` and the
reward addresses `address` and `addressLock`. Every field is taken out of the object with
`extractField` as it is read, and a member left over makes the move invalid.

The JSON reader, the regular expression of player names (boost) and the decoding of addresses
are parameters here: the first is too large to embed, the second lies outside the repository,
and the third rests on the address encodings.

The colour is stored in an `unsigned char` before it is checked against `NUM_TEAM_COLORS`, so a
colour of 256 is accepted as colour 0 (`Parse_color`).
-/

namespace Huntercore

def MAX_WAYPOINTS : Nat := 100
def NUM_TEAM_COLORS : Nat := 4
/-- `MAX_NAME_LENGTH` of names/main.h. -/
def MAX_NAME_LENGTH : Nat := 10

/-- `Move ()`: the move `Move::Parse` starts from, with the locked amount of its output. -/
def Move.init (newLocked : Int) : Move :=
  ⟨"", newLocked, none, none, none, 0xFF, .empty, .empty⟩

section Parse

/- `read` is `UniValue::read (json, false)`, `none` where it fails; `regex_search` is the match
of a player name against `^([a-zA-Z0-9_-]+ )*[a-zA-Z0-9_-]+$`; `IsValidReceiveAddress` decodes
an address and checks that it is a key address. -/
variable (read : String → Option UniValue) (regex_search : String → Bool)
  (IsValidReceiveAddress : String → Bool)

/-- `Move::IsValidPlayerName`: at most `MAX_NAME_LENGTH` bytes, and the regular expression. -/
def Move.IsValidPlayerName (player : PlayerID) : Bool :=
  if player.utf8ByteSize > MAX_NAME_LENGTH then false else regex_search player

/-- The loop of `ParseWaypoints` from index `i` on, with `k` pairs left. `acc` holds the
waypoints read so far with the last one first, as `result[n - 1 - i]` onwards holds them. -/
def ParseWaypointsLoop (v : UniValue) : Nat → Nat → List Coord →
    Except String (Option (List Coord))
  | 0, _, acc => .ok (some acc)
  | k + 1, i, acc => do
    let x ← (v.getIdx (2 * i)).get_int
    let y ← (v.getIdx (2 * i + 1)).get_int
    if !IsInsideMap x y then return none
    -- the same waypoint twice in a row is forbidden
    if i ≠ 0 ∧ acc.head? = some ⟨x, y⟩ then return none
    ParseWaypointsLoop v k (i + 1) (⟨x, y⟩ :: acc)

/-- `ParseWaypoints (obj, result, bWaypoints)`: the object without `wp` and the waypoints, in
reverse order, where there is a `wp`; `none` where it returns false. -/
def ParseWaypoints (obj : UniValue) : Except String (Option (UniValue × Option (List Coord))) :=
  match obj.extractField "wp" with
  | none => .ok (some (obj, none))
  | some (v, obj) =>
    if !v.isArray then .ok none
    else if v.size % 2 ≠ 0 then .ok none
    else if v.size / 2 > MAX_WAYPOINTS then .ok none
    else do
      let some result ← ParseWaypointsLoop v (v.size / 2) 0 [] | return none
      return some (obj, some result)

/-- `ParseDestruct (obj, result)`: the object without `destruct` and its flag. -/
def ParseDestruct (obj : UniValue) : Except String (UniValue × Bool) :=
  match obj.extractField "destruct" with
  | none => .ok (obj, false)
  | some (v, obj) => do
    let result ← v.get_bool
    return (obj, result)

/-- The fields `address` and `addressLock` of `Move::Parse`: a string, empty or a valid
address. It gives the object without the field and the string where there is one, and `none`
where `Move::Parse` returns false. -/
def parseAddressField (obj : UniValue) (name : String) :
    Except String (Option (UniValue × Option String)) :=
  match obj.extractField name with
  | none => .ok (some (obj, none))
  | some (v, obj) => do
    let addr ← v.get_str
    if !addr.isEmpty && !IsValidReceiveAddress addr then return none
    return some (obj, some addr)

/-- The loop of `Move::Parse` over the members of a move that is not a spawn: each key is the
index of a character, written as `strprintf ("%d", i)` writes it, and no index comes twice. -/
def parseCharacters (obj : UniValue) : List String → OrdSet Int → Move →
    Except String (Option Move)
  | [], _, m => .ok (some m)
  | key :: keys, character_indices, m => do
    let i := atoi key
    if i < 0 ∨ toString i ≠ key then return none
    if character_indices.contains i then return none
    let v := obj.get key
    if !v.isObject then return none
    let some (v, wp) ← ParseWaypoints v | return none
    let (v, bDestruct) ← ParseDestruct v
    let m := if bDestruct then { m with destruct := m.destruct.insert i } else m
    -- `std::map::insert` keeps an entry that is there already
    let m := match wp with
      | some wp => if m.waypoints.contains i then m else { m with waypoints := m.waypoints.insert i wp }
      | none => m
    if !v.empty then return none
    parseCharacters obj keys (character_indices.insert i) m

/-- The body of `Move::Parse (player, json)` on the move `m`, with the exceptions it catches:
`none` where it returns false. -/
def Move.ParseBody (m : Move) (p : PlayerID) (json : String) : Except String (Option Move) := do
  if !Move.IsValidPlayerName regex_search p then return none
  let some obj := read json | return none
  if !obj.isObject then return none
  let (obj, message) ← match obj.extractField "msg" with
    | some (v, obj) => do
      let msg ← v.get_str
      pure (obj, some msg)
    | none => pure (obj, m.message)
  let some (obj, address) ← parseAddressField IsValidReceiveAddress obj "address" | return none
  let some (obj, addressLock) ← parseAddressField IsValidReceiveAddress obj "addressLock"
    | return none
  let m := { m with message := message, address := address.or m.address }
  let m := { m with addressLock := addressLock.or m.addressLock }
  match obj.extractField "color" with
  | some (v, obj) =>
    -- the colour is stored in an `unsigned char` first
    let color := ((← v.get_int) % 256).toNat
    if color ≥ NUM_TEAM_COLORS then return none
    -- extra fields are not allowed
    if !obj.empty then return none
    return some { m with color, player := p }
  | none =>
    let keys ← obj.getKeys
    let some m ← parseCharacters obj keys .empty m | return none
    return some { m with player := p }

/-- `Move::Parse (player, json)` on a fresh move `m`: the parsed move, or `none` where it returns
false, also where a value of the wrong type throws. -/
def Move.Parse (m : Move) (p : PlayerID) (json : String) : Option Move :=
  match Move.ParseBody read regex_search IsValidReceiveAddress m p json with
  | .ok r => r
  | .error _ => none

/-! ## The colour of a spawn -/

/-- A spawn that has only its colour, read by `get_int` as `c`, is accepted where the low byte
of `c` is a colour, and takes that byte as its colour. -/
theorem Parse_color (m : Move) (p : PlayerID) (json s : String) (c : Int)
    (hread : read json = some (.VOBJ ["color"] [.VNUM s])) (hs : ParseInt32 s = some c)
    (hname : Move.IsValidPlayerName regex_search p = true) :
    Move.Parse read regex_search IsValidReceiveAddress m p json =
      if (c % 256).toNat < NUM_TEAM_COLORS then
        some { m with color := (c % 256).toNat, player := p }
      else none := by
  -- the object has no message and no addresses, and nothing is left besides the colour
  have hmsg : (UniValue.VOBJ ["color"] [.VNUM s]).extractField "msg" = none := rfl
  have haddr : parseAddressField IsValidReceiveAddress (.VOBJ ["color"] [.VNUM s]) "address" =
      pure (some (.VOBJ ["color"] [.VNUM s], none)) := rfl
  have hlock : parseAddressField IsValidReceiveAddress (.VOBJ ["color"] [.VNUM s]) "addressLock" =
      pure (some (.VOBJ ["color"] [.VNUM s], none)) := rfl
  have hcolor : (UniValue.VOBJ ["color"] [.VNUM s]).extractField "color" =
      some (.VNUM s, .VOBJ [] []) := rfl
  have hint : (UniValue.VNUM s).get_int = pure c := by
    rw [UniValue.get_int, hs]
    rfl
  unfold Move.Parse Move.ParseBody
  simp [hname, hread, hmsg, haddr, hlock, hcolor, hint, UniValue.isObject, UniValue.empty,
    UniValue.size]
  by_cases hlt : (c % 256).toNat < NUM_TEAM_COLORS
  · rw [if_neg (not_le.mpr hlt), if_pos hlt]
    rfl
  · rw [if_pos (not_lt.mp hlt), if_neg hlt]
    rfl

end Parse

/-- `{"color":256}` from the player `a`: a spawn of colour 0. -/
theorem Parse_color_256 :
    Move.Parse (fun _ => some (.VOBJ ["color"] [.VNUM "256"])) (fun _ => true) (fun _ => false)
        (Move.init 0) "a" "\x7b\"color\":256\x7d" =
      some { Move.init 0 with color := 0, player := "a" } :=
  (Parse_color _ _ _ (Move.init 0) "a" _ "256" 256 rfl (by decide) (by decide)).trans rfl

end Huntercore
