/-
Writing JSON text, on one line and without white space.

Doubles are written as their words in hexadecimal, in a string, because every
decimal form would either lose digits or depend on the reader; infinities and NaN
have no form and are null.
-/
import ChipTiming.Json.Basic

namespace ChipTiming.Json

/-- A character inside a string. -/
def escape (c : Char) : List Char :=
  if c = '\x22' then ['\x5c', '\x22']
  else if c = '\x5c' then ['\x5c', '\x5c']
  else if c.toNat < 0x20 then
    ['\x5c', 'u', '0', '0', Nat.digitChar (c.toNat / 16), Nat.digitChar (c.toNat % 16)]
  else [c]

/-- A string in quotes. -/
def quoted (s : String) : String :=
  "\"" ++ String.ofList (s.toList.flatMap escape) ++ "\""

/-- A double. -/
def double (x : Binary64) : Json :=
  if x.isFinite then text ("0x" ++ x.hex) else null

mutual

/-- The text of a value. -/
def render : Json → String
  | null => "null"
  | flag true => "true"
  | flag false => "false"
  | integer n => toString n
  | real x => if x.isFinite then quoted ("0x" ++ x.hex) else "null"
  | text s => quoted s
  | array items => "[" ++ ",".intercalate (renderItems items) ++ "]"
  | object members => "\x7b" ++ ",".intercalate (renderMembers members) ++ "\x7d"

/-- The texts of the items of an array. -/
def renderItems : List Json → List String
  | [] => []
  | item :: items => render item :: renderItems items

/-- The texts of the members of an object. -/
def renderMembers : List (String × Json) → List String
  | [] => []
  | (name, value) :: members => (quoted name ++ ":" ++ render value) :: renderMembers members

end

end ChipTiming.Json
