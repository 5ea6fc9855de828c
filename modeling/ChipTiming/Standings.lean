/-
Places and leaderboards.

For each basis the crossings are put in the order of their times, those of equal
time in the order given, and then numbered three times over: within their split,
within their split and gender, and within their split and category.  So places run
1, 2, 3, … without ties or gaps in every scope, and a slot that was not crossed
has none.
-/
import ChipTiming.Slot

namespace ChipTiming

/-- For each element how often it occurs up to there, itself included; `earlier` came
before. -/
def occurrencesAfter {κ : Type} [BEq κ] (earlier : List κ) : List κ → List Nat
  | [] => []
  | k :: ks => (earlier.count k + 1) :: occurrencesAfter (k :: earlier) ks

/-- Numbers the members of each class of equal keys 1, 2, 3, … in their order. -/
def occurrences {κ : Type} [BEq κ] (keys : List κ) : List Nat := occurrencesAfter [] keys

namespace Standings

/-- The positions of the crossed slots in the order of their times on a basis. -/
def order (slots : List Slot) (basis : TimeBasis) : List (Nat × Slot) :=
  let timed := slots.zipIdx.filterMap fun (slot, position) =>
    (slot.time? basis).map fun time => (time, position, slot)
  (timed.mergeSort fun a b => a.1 ≤ b.1).map fun (_, position, slot) => (position, slot)

/-- The places of slots that are already in order. -/
def placesInOrder (slots : List Slot) : List Ranks :=
  let overall := occurrences (slots.map (·.split))
  let gender := occurrences (slots.map fun s => (s.gender, s.split))
  let category := occurrences (slots.map fun s => (s.category, s.split))
  (slots.zip (overall.zip (gender.zip category))).map fun (slot, o, g, c) =>
    { overall := some o, gender := some g, category := slot.category.map fun _ => c }

/-- The places on a basis, with the positions of the slots that have them. -/
def places (slots : List Slot) (basis : TimeBasis) : List (Nat × Ranks) :=
  let ordered := order slots basis
  (ordered.map (·.1)).zip (placesInOrder (ordered.map (·.2)))

/-- Slots with fresh places on a basis. -/
def rankOn (basis : TimeBasis) (slots : List Slot) : List Slot :=
  (places slots basis).foldl
    (fun ranked (position, ranks) => ranked.modify position (·.setRanks basis ranks))
    (slots.map (·.setRanks basis .none))

end Standings

/-- Slots with fresh places on both bases. -/
def assignRanks (slots : List Slot) : List Slot :=
  Standings.rankOn .net (Standings.rankOn .gun slots)

/-- The slots of a split that have a place, best first. -/
def leaderboard (slots : List Slot) (split : SplitId) (basis : TimeBasis) : List Slot :=
  let placed := slots.filterMap fun slot =>
    if slot.split == split then (slot.ranks basis).overall.map fun place => (place, slot) else none
  (placed.mergeSort fun a b => a.1 ≤ b.1).map (·.2)

end ChipTiming
