/-
Reading records from documents.

Configurations and settings come as YAML or as JSON.  The records are the same and
so is most of what a document may leave out, so a record is read once, over
anything that is a `Readable`: a kind of document whose parts can be read as
members, items, texts, numbers, truth values and choices.  What differs, such as
whether a number may be spelt in hexadecimal, is decided there.

Reading either succeeds or does not; no reason is kept.  It may spend a budget,
which a document with references in it needs so that following them comes to an
end.
-/
import ChipTiming.Binary64

namespace ChipTiming.Exchange

/-- A reading of something, with a budget of references that may still be followed. -/
abbrev Reading := StateT Nat Option

/-- A reading that does not succeed. -/
def refuse {α : Type} : Reading α := fun _ => none

/-- A value that has to be there. -/
def need {α : Type} : Option α → Reading α
  | some a => pure a
  | none => refuse

/-- The members of a record. -/
structure Members (δ : Type) where
  /-- Whether members were given by name; otherwise by position, all up to some
  place. -/
  areNamed : Bool
  values : List (String × δ)

/-- A kind of document. -/
class Readable (δ : Type) where
  /-- The members with the given names, in the order in which positions count. -/
  members : List String → δ → Reading (Members δ)
  /-- The items of a list. -/
  items : δ → Reading (List δ)
  text : δ → Reading String
  /-- A number as the double nearest to it. -/
  number : δ → Reading Binary64
  /-- A natural number below `2 ^ 64`. -/
  natural : δ → Reading Nat
  flag : δ → Reading Bool
  /-- Nothing, or something. -/
  optional : δ → Reading (Option δ)
  /-- One of several words. -/
  choice : δ → Reading String

namespace Members

variable {δ α : Type} [Readable δ]

/-- A member that has to be there. -/
def required (m : Members δ) (name : String) (read : δ → Reading α) : Reading α :=
  match m.values.lookup name with
  | some value => read value
  | none => refuse

/-- A member with a value of its own where it is left out. -/
def withDefault (m : Members δ) (name : String) (value : α) (read : δ → Reading α) : Reading α :=
  match m.values.lookup name with
  | some given => read given
  | none => pure value

/-- A part that may be nothing. -/
def readOptional (read : δ → Reading α) (given : δ) : Reading (Option α) := do
  match ← Readable.optional given with
  | some value => return some (← read value)
  | none => return none

/-- A member that may be nothing.  It may be left out where members have names. -/
def nullable (m : Members δ) (name : String) (read : δ → Reading α) : Reading (Option α) :=
  match m.values.lookup name with
  | some given => readOptional read given
  | none => if m.areNamed then pure none else refuse

end Members

/-- A list of records. -/
def readList {δ α : Type} [Readable δ] (read : δ → Reading α) (given : δ) : Reading (List α) := do
  (← Readable.items given).mapM read

end ChipTiming.Exchange
