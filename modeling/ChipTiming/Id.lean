/-
Identifiers.

Everything in a race is named by a 128-bit number written in the form of a UUID.
The type of an identifier says what it names, so a split can never be looked up
among the waves; apart from that, an identifier is its number, and identifiers are
ordered as numbers.
-/
import ChipTiming.Decimal

namespace ChipTiming

/-- What an identifier names. -/
inductive Entity where
  | race | event | category | timeReader | split | wave | athlete
  deriving DecidableEq, Repr

/-- The identifier of an entity. -/
structure Id (entity : Entity) where
  number : BitVec 128
  deriving DecidableEq, Repr

abbrev RaceId := Id .race
abbrev EventId := Id .event
abbrev CategoryId := Id .category
abbrev TimeReaderId := Id .timeReader
abbrev SplitId := Id .split
abbrev WaveId := Id .wave
abbrev AthleteId := Id .athlete

namespace Id

variable {entity : Entity}

instance : Ord (Id entity) := ⟨fun a b => compare a.number.toNat b.number.toNat⟩

/-- The identifier with this number, if the number fits. -/
def ofNat? (n : Nat) : Option (Id entity) :=
  let number := BitVec.ofNat 128 n
  if number.toNat = n then some ⟨number⟩ else none

/-! ### Text -/

/-- Removes the hyphens of the five-group form; a text without them is in another
form. -/
def ungroup? (cs : List Char) : Option (List Char) :=
  let groups := cs.splitOn '-'
  if groups.map List.length = [8, 4, 4, 4, 12] then some groups.flatten else none

/-- A text without the letters it is expected to open with, in either case. -/
def after? (opening : String) (cs : List Char) : Option (List Char) :=
  let size := opening.length
  if (cs.take size).map Char.toLower = opening.toList then some (cs.drop size) else none

/-- The thirty-two digits of an identifier: alone, in hyphenated groups, or in groups
inside braces or after `urn:uuid:`. -/
def digits? (cs : List Char) : Option (List Char) :=
  match cs.length with
  | 32 => some cs
  | 36 => ungroup? cs
  | 38 =>
    if cs.head? = some '\x7b' && cs.getLast? = some '\x7d' then ungroup? (cs.drop 1).dropLast
    else none
  | 45 => (after? "urn:uuid:" cs).bind ungroup?
  | _ => none

/-- Reads an identifier. -/
def ofText? (s : String) : Option (Id entity) := do
  let digits ← digits? s.toList
  let n ← natOfDigits? 16 digits
  ofNat? n

/-- The written form: lower-case digits in hyphenated groups. -/
def text (i : Id entity) : String :=
  let digits := Nat.toDigits 16 i.number.toNat
  let all := List.replicate (32 - digits.length) '0' ++ digits
  let group (start size : Nat) := String.ofList ((all.drop start).take size)
  "-".intercalate [group 0 8, group 8 4, group 12 4, group 16 4, group 20 12]

end Id

end ChipTiming
