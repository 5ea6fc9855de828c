/-
Entries made by hand.

An operator's entry replaces the computed slot of its split as it stands, ranks
included; nothing is checked against the other slots.  The status is then read off
the slots that result.
-/
import ChipTiming.Slot

namespace ChipTiming

/-- The entry that replaces a slot: the first one made for its split. -/
def override? (entries : List Slot) (slot : Slot) : Option Slot :=
  entries.find? (·.split == slot.split)

/-- The slots with every entry in its place. -/
def applyOverrides (entries slots : List Slot) : List Slot :=
  slots.map fun slot => (override? entries slot).getD slot

/-- How many slots an entry replaces. -/
def countOverrides (entries slots : List Slot) : Nat :=
  slots.countP fun slot => (override? entries slot).isSome

/-- The status that slots amount to, each paired with its split: finished once a
finish is crossed, running once anything is. -/
def impliedStatus : List Slot → List Split → Status
  | slot :: slots, split :: splits =>
    if !slot.isVisited then impliedStatus slots splits
    else if split.isFinish then .finished
    else match impliedStatus slots splits with
      | .notYetStarted => .running
      | later => later
  | _, _ => .notYetStarted

end ChipTiming
