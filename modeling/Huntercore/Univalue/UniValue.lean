import Mathlib

/-!
# JSON values

The moves of the game are JSON texts, read into `UniValue`s (src/univalue). A value keeps the
text of a number as it was read, and an object keeps its keys and its values in two lists of
the same length, in the order of the text and with repeated keys kept. This module holds the
parts of the library that move parsing uses: the accessors, `extractField`, and the typed
getters, which throw where the value has another type (`Except`); `get_int` reads the number's
text with `ParseInt32`, that is with C's `strtol`, as do `atoi` and the check on the indices of
characters. Reading a value from its text (`UniValue::read`) is left to the caller.
-/

namespace Huntercore

/-- `UniValue`, one constructor per `VType`. -/
inductive UniValue where
  | VNULL
  | VOBJ (keys : List String) (values : List UniValue)
  | VARR (values : List UniValue)
  | VSTR (val : String)
  | VNUM (val : String)
  | VBOOL (val : Bool)
  deriving Repr

namespace UniValue

def isObject : UniValue → Bool
  | VOBJ _ _ => true
  | _ => false

def isArray : UniValue → Bool
  | VARR _ => true
  | _ => false

/-- `size`: the number of values of an object or an array. -/
def size : UniValue → Nat
  | VOBJ _ values => values.length
  | VARR values => values.length
  | _ => 0

def empty (v : UniValue) : Bool := v.size == 0

/-- `operator[] (const std::string&)`: the value of the first occurrence of the key, and
`NullUniValue` where there is none. -/
def get (v : UniValue) (key : String) : UniValue :=
  match v with
  | VOBJ keys values =>
    match keys.findIdx? (· == key) with
    | some i => values.getD i VNULL
    | none => VNULL
  | _ => VNULL

/-- `operator[] (size_t)`. -/
def getIdx (v : UniValue) (index : Nat) : UniValue :=
  match v with
  | VOBJ _ values => values.getD index VNULL
  | VARR values => values.getD index VNULL
  | _ => VNULL

/-- `extractField (name, res)`: the value of the first occurrence of `name` and the object
without that member, or `none` where there is none. The source asserts that `v` is an
object. -/
def extractField (v : UniValue) (name : String) : Option (UniValue × UniValue) :=
  match v with
  | VOBJ keys values =>
    match keys.findIdx? (· == name) with
    | some i => some (values.getD i VNULL, VOBJ (keys.eraseIdx i) (values.eraseIdx i))
    | none => none
  | _ => none

def getKeys : UniValue → Except String (List String)
  | VOBJ keys _ => .ok keys
  | _ => .error "JSON value is not an object as expected"

def get_bool : UniValue → Except String Bool
  | VBOOL val => .ok val
  | _ => .error "JSON value is not a boolean as expected"

def get_str : UniValue → Except String String
  | VSTR val => .ok val
  | _ => .error "JSON value is not a string as expected"

end UniValue

/-! ## Numbers in text -/

/-- C's `isspace` in the "C" locale. -/
def isspace (c : Char) : Bool :=
  c == ' ' || c == '\t' || c == '\n' || c == '\x0b' || c == '\x0c' || c == '\r'

def json_isspace (c : Char) : Bool :=
  c == ' ' || c == '\t' || c == '\n' || c == '\r'

/-- The decimal digits at the front of `cs` as a number, with what follows them; `none` where
`cs` does not start with a digit. -/
def decimalPrefix (cs : List Char) : Option (Nat × List Char) :=
  match cs.takeWhile Char.isDigit with
  | [] => none
  | ds => some (ds.foldl (fun n c => 10 * n + (c.toNat - '0'.toNat)) 0, cs.dropWhile Char.isDigit)

/-- `strtol (s, &endp, 10)`: the number after blanks and an optional sign, with the characters
after it; `none` where no number is converted. The value is not clamped to `long`: every caller
here rejects or wraps what lies outside `int`. -/
def strtol (cs : List Char) : Option (Int × List Char) :=
  match cs.dropWhile isspace with
  | '-' :: rest => (decimalPrefix rest).map fun r => (-(r.1 : Int), r.2)
  | '+' :: rest => (decimalPrefix rest).map fun r => ((r.1 : Int), r.2)
  | rest => (decimalPrefix rest).map fun r => ((r.1 : Int), r.2)

/-- The `int32_t` that a conversion from a wider integer leaves. -/
def toInt32 (n : Int) : Int := (n + 2 ^ 31) % 2 ^ 32 - 2 ^ 31

def LONG_MIN : Int := -2 ^ 63
def LONG_MAX : Int := 2 ^ 63 - 1

/-- `atoi`, which glibc computes as `(int) strtol (s, NULL, 10)`: `strtol` clamps to `long`,
and the cast keeps the low 32 bits. -/
def atoi (s : String) : Int :=
  match strtol s.toList with
  | some (n, _) => toInt32 (max LONG_MIN (min LONG_MAX n))
  | none => 0

/-- `ParsePrechecks`: not empty, no blank at either end, no NUL inside. -/
def ParsePrechecks (str : String) : Bool :=
  match str.toList with
  | [] => false
  | c :: cs =>
    !json_isspace c && !json_isspace ((c :: cs).getLastD c) && !(c :: cs).contains '\x00'

/-- `ParseInt32`: the whole text is a number of `int32_t`. -/
def ParseInt32 (str : String) : Option Int :=
  if ParsePrechecks str then
    match strtol str.toList with
    | some (n, []) => if -2 ^ 31 ≤ n ∧ n < 2 ^ 31 then some n else none
    | _ => none
  else none

def UniValue.get_int : UniValue → Except String Int
  | VNUM val =>
    match ParseInt32 val with
    | some n => .ok n
    | none => .error "JSON integer out of range"
  | _ => .error "JSON value is not an integer as expected"

end Huntercore
