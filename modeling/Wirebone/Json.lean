/-
  File:      Wirebone/Json.lean
  Subject:   What the coordinator uses of nlohmann::json, and the exceptions it meets.

  A JSON text is represented by the value it parses to; a `Json` is such a value. What the code
  reads from values goes through five accessors, each with the exceptions of the library:

  * `contains`, `value?` -- members of an object (`value` throws 306 on anything but an object);
  * `getString`, `getBool`, `getInt`, `getStrings` -- conversions (302 on a wrong type; a number is
    cast to a 32-bit `int`, and a boolean converts too). The cast of a double that no `int` holds is
    undefined: what it gives is a part of the value;
  * `items` -- what a range-`for` over a value visits;
  * `dumps` -- `dump` succeeds: it throws 316 on a string that is not UTF-8.

  What a text itself says, apart from any conversion, is `member` (a member or its default) and
  `number` (the number a value stands for).
-/
import Mathlib.Data.Int.Basic
import Wirebone.Lib.ByteString

namespace Wirebone

open ByteString

/-- The exceptions of the program, with the text of those it throws itself. -/
inductive Exn where
  | runtimeError (what : Bytes)
  /-- `std::invalid_argument` and `std::out_of_range`, from `std::stoi`. -/
  | invalidArgument
  | outOfRange
  /-- `nlohmann::json::type_error` with its number. -/
  | typeError (id : Nat)
  /-- `nlohmann::json::parse_error`. -/
  | parseError
  /-- What the persist hook throws. -/
  | hook
  deriving DecidableEq, Repr

/-- A JSON value. An object lists its members in key order. -/
inductive Json where
  | null
  | bool (b : Bool)
  /-- An integer that 64 bits hold. -/
  | num (n : Int)
  /-- Any other number, a double. `cast` is what the machine makes of it where no `int` holds its
      integer part. -/
  | float (value : Rat) (cast : Int32)
  | str (s : Bytes)
  | arr (elems : List Json)
  | obj (members : List (Bytes × Json))

/-- The number is an `int`. -/
def intFits (n : Int) : Bool := decide (-2 ^ 31 ≤ n ∧ n < 2 ^ 31)

namespace Json

def isObject : Json → Bool
  | obj _ => true
  | _ => false

/-- The member `key` of an object. -/
def find (j : Json) (key : Bytes) : Option Json :=
  match j with
  | obj ms => (ms.find? fun m => m.1 = key).map (·.2)
  | _ => none

/-- The member `name`, or the default where there is none. -/
def member (j : Json) (name : String) (dflt : Json) : Json := (j.find (ascii name)).getD dflt

/-- The number a value stands for: a boolean is 0 or 1. -/
def number : Json → Option Rat
  | num n => some (.ofInt n)
  | float q _ => some q
  | bool b => some (.ofInt (if b then 1 else 0))
  | _ => none

/-- `static_cast<int>` of an integer. -/
def toInt32 (n : Int) : Int := n.bmod (2 ^ 32)

/-- `static_cast<int>` of a double: its integer part, where an `int` holds it. -/
def doubleToInt (q : Rat) (cast : Int32) : Int :=
  if intFits (q.num.tdiv q.den) then q.num.tdiv q.den else cast.toInt

def getString : Json → Except Exn Bytes
  | str s => .ok s
  | _ => .error (.typeError 302)

def getBool : Json → Except Exn Bool
  | bool b => .ok b
  | _ => .error (.typeError 302)

/-- `get<int>()`. -/
def getInt : Json → Except Exn Int
  | num n => .ok (toInt32 n)
  | float q cast => .ok (doubleToInt q cast)
  | bool b => .ok (if b then 1 else 0)
  | _ => .error (.typeError 302)

/-- `get<std::vector<std::string>>()`. -/
def getStrings : Json → Except Exn (List Bytes)
  | arr es => es.mapM getString
  | _ => .error (.typeError 302)

/-- `value(key, dflt)` with the conversion `get`. -/
def value {α : Type} (get : Json → Except Exn α) (j : Json) (key : String) (dflt : α) :
    Except Exn α :=
  if j.isObject then
    match j.find (ascii key) with
    | some v => get v
    | none => .ok dflt
  else .error (.typeError 306)

/-- What `for (const auto& k : j)` visits. -/
def items : Json → List Json
  | null => []
  | arr es => es
  | obj ms => ms.map (·.2)
  | j => [j]

end Json

/-! ## UTF-8 -/

/-- One octet of the UTF-8 automaton. A state is how many octets a character still owes, and the
    bounds of the next one. -/
def utf8Step : Nat × Nat × Nat → UInt8 → Option (Nat × Nat × Nat)
  | (0, _, _), b =>
    let n := b.toNat
    if n ≤ 0x7f then some (0, 0, 0)
    else if 0xc2 ≤ n ∧ n ≤ 0xdf then some (1, 0x80, 0xbf)
    else if n = 0xe0 then some (2, 0xa0, 0xbf)
    else if n = 0xed then some (2, 0x80, 0x9f)
    else if 0xe1 ≤ n ∧ n ≤ 0xef then some (2, 0x80, 0xbf)
    else if n = 0xf0 then some (3, 0x90, 0xbf)
    else if 0xf1 ≤ n ∧ n ≤ 0xf3 then some (3, 0x80, 0xbf)
    else if n = 0xf4 then some (3, 0x80, 0x8f)
    else none
  | (owed + 1, low, high), b =>
    if low ≤ b.toNat ∧ b.toNat ≤ high then some (owed, 0x80, 0xbf) else none

/-- The string is UTF-8. -/
def utf8 (s : Bytes) : Bool :=
  match s.foldlM utf8Step (0, 0, 0) with
  | some (0, _, _) => true
  | _ => false

mutual

/-- `dump()` of the value succeeds: its strings are UTF-8. -/
def Json.dumps : Json → Bool
  | .str s => utf8 s
  | .arr es => Json.dumpsAll es
  | .obj ms => Json.dumpsMembers ms
  | _ => true

def Json.dumpsAll : List Json → Bool
  | [] => true
  | j :: js => j.dumps && Json.dumpsAll js

def Json.dumpsMembers : List (Bytes × Json) → Bool
  | [] => true
  | (k, j) :: ms => utf8 k && j.dumps && Json.dumpsMembers ms

end

end Wirebone
