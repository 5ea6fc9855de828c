/-
JSON as a kind of document.

A record is an object, or an array of its members in order; the array must not be
longer than the record.  A choice is a word, or an object whose only member has
that name and is null.
-/
import ChipTiming.Exchange.Reading
import ChipTiming.Json.Basic

namespace ChipTiming.Json

open Exchange

instance : Readable Json where
  members names
    | object members => pure ⟨true, members⟩
    | array items => if names.length < items.length then refuse else pure ⟨false, names.zip items⟩
    | _ => refuse
  items
    | array items => pure items
    | _ => refuse
  text
    | text s => pure s
    | _ => refuse
  number
    | integer n => pure (Binary64.ofRatio (n < 0) n.natAbs 1)
    | real x => pure x
    | _ => refuse
  natural
    | integer n => if 0 ≤ n then pure n.toNat else refuse
    | _ => refuse
  flag
    | flag b => pure b
    | _ => refuse
  optional
    | null => pure none
    | value => pure (some value)
  choice
    | text s => pure s
    | object [(name, null)] => pure name
    | _ => refuse

/-- The result of a reading that follows no references. -/
def read? {α : Type} (reading : Json → Reading α) (j : Json) : Option α :=
  (reading j 0).map (·.1)

end ChipTiming.Json
