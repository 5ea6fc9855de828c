/-
JSON values.

A number keeps what its notation says about it: a whole number written without a
point or an exponent is an integer if a machine word of 64 bits, signed or not,
can hold it; any other number is the double nearest to it.  Minus zero is such a
double, since no integer carries a sign of its own.
-/
import ChipTiming.Binary64

namespace ChipTiming

/-- A JSON value. -/
inductive Json where
  | null
  | flag (value : Bool)
  | integer (value : Int)
  | real (value : Binary64)
  | text (value : String)
  | array (items : List Json)
  | object (members : List (String × Json))

namespace Json

/-- The value of a member of an object; null if there is none, or if this is not an
object. -/
def get (j : Json) (name : String) : Json :=
  match j with
  | object members => (members.lookup name).getD null
  | _ => null

/-- The value of a member of an object, if there is one. -/
def get? (j : Json) (name : String) : Option Json :=
  match j with
  | object members => members.lookup name
  | _ => none

/-- A value that may be absent, as null or as itself. -/
def ofOption {α : Type} (write : α → Json) : Option α → Json
  | none => null
  | some a => write a

/-- A list of values. -/
def ofList {α : Type} (write : α → Json) (xs : List α) : Json := array (xs.map write)

/-- A natural number. -/
def ofNat (n : Nat) : Json := integer n

/-- An object in which a name that occurs twice has the value given last. -/
def ofMembers (members : List (String × Json)) : Json :=
  object (members.foldl (fun kept m => (kept.filter (·.1 != m.1)) ++ [m]) [])

end Json

end ChipTiming
