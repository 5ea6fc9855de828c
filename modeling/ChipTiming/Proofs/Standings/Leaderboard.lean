/-
Leaderboards.

A leaderboard never looks at a time.  It takes the slots of a split that have an
overall place and sorts them by it (`leaderboard_eq`), although places were given
in one pass over the slots of all splits.  Once places are fresh, the slots that
have one are those that were crossed, and in the order of their times they have
the places 1, 2, 3, … (`map_place_listed`).  Sorting by places that are all
different leaves no choice, so that the board is what a stable sort by time makes
of the crossed slots (`leaderboard_assignRanks`).
-/
import ChipTiming.Proofs.Standings

namespace ChipTiming

open Standings

variable {basis : TimeBasis} {slots : List Slot} {split : SplitId}

/-- The slots of a split that were crossed. -/
def crossedAt (slots : List Slot) (split : SplitId) : List Slot :=
  slots.filter fun slot => slot.isVisited && slot.split == split

/-- Slots in the order of their times on a basis. -/
def fastestFirst (basis : TimeBasis) (slots : List Slot) : List Slot :=
  slots.mergeSort fun a b => a.timeOn basis ≤ b.timeOn basis

/-- A list in the order of times, with slots that are level as they were given. -/
structure IsFastestFirst (basis : TimeBasis) (given ordered : List Slot) : Prop where
  perm : ordered.Perm given
  sorted : ordered.Pairwise fun a b => a.timeOn basis ≤ b.timeOn basis
  stable : ∀ time : Duration,
    ordered.filter (·.timeOn basis = time) = given.filter (·.timeOn basis = time)

theorem isFastestFirst_fastestFirst (basis : TimeBasis) (given : List Slot) :
    IsFastestFirst basis given (fastestFirst basis given) where
  perm := List.mergeSort_perm _ _
  sorted := pairwise_mergeSort_key Duration.le_trans Duration.le_total given
  stable := filter_mergeSort_key Duration.le_trans Duration.le_total given

/-! ### Sorting by places -/

/-- The overall place on a basis, or 0. -/
def Slot.placeOn (s : Slot) (basis : TimeBasis) : Nat := (s.ranks basis).overall.getD 0

/-- The slots of a split that have a place, behind their places. -/
def placed (slots : List Slot) (split : SplitId) (basis : TimeBasis) : List (Nat × Slot) :=
  slots.filterMap fun slot =>
    if slot.split == split then (slot.ranks basis).overall.map fun place => (place, slot) else none

theorem map_placed (slots : List Slot) (split : SplitId) (basis : TimeBasis) :
    (placed slots split basis).map Prod.snd =
      slots.filter fun slot => (slot.ranks basis).overall.isSome && slot.split == split := by
  rw [placed, List.map_filterMap, ← List.filterMap_eq_filter]
  refine List.filterMap_congr fun slot _ => ?_
  by_cases hsplit : slot.split = split <;> cases hrank : (slot.ranks basis).overall <;>
    simp [Option.guard, hsplit, hrank]

theorem placeOn_of_mem_placed {x : Nat × Slot} (h : x ∈ placed slots split basis) :
    x.2.placeOn basis = x.1 := by
  obtain ⟨slot, -, hslot⟩ := List.mem_filterMap.mp h
  split at hslot
  · obtain ⟨place, hplace, rfl⟩ := Option.map_eq_some_iff.mp hslot
    rw [Slot.placeOn, hplace, Option.getD_some]
  · cases hslot

/-- A leaderboard sorts the slots of a split that have a place. -/
theorem leaderboard_eq (slots : List Slot) (split : SplitId) (basis : TimeBasis) :
    leaderboard slots split basis =
      (slots.filter fun slot => (slot.ranks basis).overall.isSome && slot.split == split).mergeSort
        fun a b => a.placeOn basis ≤ b.placeOn basis := by
  show ((placed slots split basis).mergeSort fun a b => a.1 ≤ b.1).map Prod.snd = _
  rw [← map_placed]
  refine List.map_mergeSort fun a ha b hb => ?_
  rw [placeOn_of_mem_placed ha, placeOn_of_mem_placed hb]

/-! ### After places have been given -/

/-- Those who have a fresh place are those who came. -/
theorem isSome_overall_of_mem_assignRanks {slot : Slot} (h : slot ∈ assignRanks slots)
    (basis : TimeBasis) : (slot.ranks basis).overall.isSome = slot.isVisited := by
  rw [assignRanks_eq] at h
  obtain ⟨entry, -, rfl⟩ := List.mem_map.mp h
  show _ = entry.1.isVisited
  rw [ranks_ranked, counted]
  cases hvisited : entry.1.isVisited <;> rfl

theorem leaderboard_assignRanks_eq_mergeSort (slots : List Slot) (split : SplitId)
    (basis : TimeBasis) :
    leaderboard (assignRanks slots) split basis =
      (crossedAt (assignRanks slots) split).mergeSort
        fun a b => a.placeOn basis ≤ b.placeOn basis := by
  rw [leaderboard_eq, crossedAt]
  refine congrArg (List.mergeSort · _) (List.filter_congr fun slot hslot => ?_)
  rw [isSome_overall_of_mem_assignRanks hslot]

/-- In the order of time the places at a split are 1, 2, 3, … -/
theorem map_overall_fastestFirst (slots : List Slot) (split : SplitId) (basis : TimeBasis) :
    ((fastestFirst basis (crossedAt (assignRanks slots) split)).map fun slot =>
        (slot.ranks basis).overall) =
      (List.range' 1 (crossedAt (assignRanks slots) split).length).map some := by
  have hlisted : fastestFirst basis (crossedAt (assignRanks slots) split) =
      (listed .everyone split basis slots).map (ranked slots) :=
    (map_ranked_listed .everyone split basis slots).symm
  have hlength := ((isFastestFirst_fastestFirst basis
    (crossedAt (assignRanks slots) split)).perm).length_eq
  rw [hlisted, List.length_map] at hlength
  rw [hlisted, List.map_map, ← hlength]
  exact map_place_listed .everyone split basis slots

/-- So sorting by places is sorting by times. -/
theorem mergeSort_placeOn_eq (slots : List Slot) (split : SplitId) (basis : TimeBasis) :
    ((crossedAt (assignRanks slots) split).mergeSort
        fun a b => a.placeOn basis ≤ b.placeOn basis) =
      fastestFirst basis (crossedAt (assignRanks slots) split) := by
  have hplaces : (fastestFirst basis (crossedAt (assignRanks slots) split)).map
      (·.placeOn basis) = List.range' 1 (crossedAt (assignRanks slots) split).length := by
    have hmap := congrArg (List.map (·.getD 0)) (map_overall_fastestFirst slots split basis)
    rw [List.map_map, List.map_map] at hmap
    exact hmap.trans (List.map_id _)
  generalize crossedAt (assignRanks slots) split = given at hplaces ⊢
  have hperm := (isFastestFirst_fastestFirst basis given).perm
  have hstrict : (fastestFirst basis given).Pairwise
      fun a b => a.placeOn basis < b.placeOn basis := by
    rw [← List.pairwise_map (f := (Slot.placeOn · basis)) (R := (· < ·)), hplaces]
    exact List.pairwise_lt_range'
  -- Two lists in the order of places could differ only in slots that have the same place.
  have hsame : ∀ a b : Slot, a ∈ given.mergeSort (fun a b => a.placeOn basis ≤ b.placeOn basis) →
      b ∈ fastestFirst basis given → a.placeOn basis ≤ b.placeOn basis →
      b.placeOn basis ≤ a.placeOn basis → a = b := by
    intro a b ha hb hab hba
    have hnodup : ((fastestFirst basis given).map (·.placeOn basis)).Nodup := by
      rw [hplaces]
      exact List.nodup_range'
    rw [List.mem_mergeSort] at ha
    exact List.inj_on_of_nodup_map hnodup (hperm.mem_iff.mpr ha) hb (Nat.le_antisymm hab hba)
  exact List.Perm.eq_of_pairwise hsame (pairwise_mergeSort_key Nat.le_trans Nat.le_total given)
    (hstrict.imp Nat.le_of_lt) ((List.mergeSort_perm given _).trans hperm.symm)

/-- But for the places, they are the slots that were given, in the order of their
times. -/
theorem map_unranked_fastestFirst (slots : List Slot) (split : SplitId) (basis : TimeBasis) :
    (fastestFirst basis (crossedAt (assignRanks slots) split)).map Slot.unranked =
      (fastestFirst basis (crossedAt slots split)).map Slot.unranked := by
  have hcrossed (xs : List Slot) :
      (crossedAt xs split).map Slot.unranked = crossedAt (xs.map Slot.unranked) split := by
    rw [crossedAt, crossedAt, List.filter_map]
    rfl
  have hsort (xs : List Slot) :
      (fastestFirst basis xs).map Slot.unranked = fastestFirst basis (xs.map Slot.unranked) :=
    List.map_mergeSort fun _ _ _ _ => by cases basis <;> rfl
  rw [hsort, hsort, hcrossed, hcrossed, map_unranked_assignRanks]

/--
**The board of a split is a stable sort of those who came by their times**, once
places have been given, and the places on it are 1, 2, 3, … from the top.  Nobody else
is on it, and nobody twice; level times stay in the order in which the slots were
given, and no place exceeds their number.
-/
theorem leaderboard_assignRanks (slots : List Slot) (split : SplitId) (basis : TimeBasis) :
    leaderboard (assignRanks slots) split basis =
        fastestFirst basis (crossedAt (assignRanks slots) split) ∧
      IsFastestFirst basis (crossedAt (assignRanks slots) split)
        (leaderboard (assignRanks slots) split basis) ∧
      (leaderboard (assignRanks slots) split basis).map Slot.unranked =
        (fastestFirst basis (crossedAt slots split)).map Slot.unranked ∧
      ((leaderboard (assignRanks slots) split basis).map fun slot => (slot.ranks basis).overall) =
        (List.range' 1 (leaderboard (assignRanks slots) split basis).length).map some ∧
      (leaderboard (assignRanks slots) split basis).length ≤ slots.length := by
  have hboard : leaderboard (assignRanks slots) split basis =
      fastestFirst basis (crossedAt (assignRanks slots) split) :=
    (leaderboard_assignRanks_eq_mergeSort slots split basis).trans
      (mergeSort_placeOn_eq slots split basis)
  have hordered := isFastestFirst_fastestFirst basis (crossedAt (assignRanks slots) split)
  rw [hboard, hordered.perm.length_eq]
  refine ⟨rfl, hordered, map_unranked_fastestFirst slots split basis,
    map_overall_fastestFirst slots split basis, ?_⟩
  calc (crossedAt (assignRanks slots) split).length
    _ ≤ (assignRanks slots).length := List.length_filter_le _ _
    _ = slots.length := by rw [assignRanks_eq, List.length_map, List.length_zipIdx]

end ChipTiming
