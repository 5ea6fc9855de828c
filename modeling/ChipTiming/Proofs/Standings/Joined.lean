/-
Ranking lists one by one.

A place counts the slots of the same split that come before.  Slots of other
splits have no part in it, wherever they stand in the order of times, and of
positions it only matters which of two comes first.  So if two lists have no split
in common, either is ranked in their concatenation as it is alone
(`assignRanks_append`), and by induction so is each of several lists
(`assignRanks_flatten`).
-/
import ChipTiming.Proofs.Standings

namespace ChipTiming

namespace Standings

variable {basis : TimeBasis} {slots xs ys : List Slot} {entry : Slot × Nat} {board : Board}

/-- A slot with the position that it has behind others. -/
def behind (n : Nat) (entry : Slot × Nat) : Slot × Nat := (entry.1, n + entry.2)

theorem zipIdx_append_eq (xs ys : List Slot) :
    (xs ++ ys).zipIdx = xs.zipIdx ++ ys.zipIdx.map (behind xs.length) := by
  rw [List.zipIdx_append, Nat.zero_add, List.zipIdx_eq_map_add (l := ys)]
  rfl

/-- Positions only count against each other. -/
theorem isBefore_behind (basis : TimeBasis) (n : Nat) (a b : Slot × Nat) :
    isBefore basis (behind n a) (behind n b) = isBefore basis a b := by
  simp [isBefore, behind]

theorem ahead_append (xs ys : List Slot) (entry : Slot × Nat) (board : Board) :
    ahead basis (xs ++ ys) entry board = ahead basis xs entry board +
      ys.zipIdx.countP fun other => (board.lists other.1 && other.1.split == entry.1.split) &&
        isBefore basis (behind xs.length other) entry := by
  rw [ahead, zipIdx_append_eq, List.countP_append, List.countP_map]
  rfl

/-- With slots of other splits behind it, a slot has as many before it as alone. -/
theorem ahead_append_left (h : ∀ slot ∈ ys, slot.split ≠ entry.1.split) :
    ahead basis (xs ++ ys) entry board = ahead basis xs entry board := by
  rw [ahead_append, Nat.add_eq_left, List.countP_eq_zero]
  intro other hother
  simp [h other.1 (List.fst_mem_of_mem_zipIdx hother)]

/-- So it has with slots of other splits in front of it. -/
theorem ahead_append_right (h : ∀ slot ∈ xs, slot.split ≠ entry.1.split) :
    ahead basis (xs ++ ys) (behind xs.length entry) board = ahead basis ys entry board := by
  have hnone : ahead basis xs (behind xs.length entry) board = 0 := by
    rw [ahead, List.countP_eq_zero]
    intro other hother
    simp [behind, h other.1 (List.fst_mem_of_mem_zipIdx hother)]
  rw [ahead_append, hnone, Nat.zero_add]
  simp only [isBefore_behind]
  rfl

theorem ranked_append_left (h : ∀ slot ∈ ys, slot.split ≠ entry.1.split) :
    ranked (xs ++ ys) entry = ranked xs entry := by
  simp only [ranked, counted, ahead_append_left h]

theorem ranked_append_right (h : ∀ slot ∈ xs, slot.split ≠ entry.1.split) :
    ranked (xs ++ ys) (behind xs.length entry) = ranked ys entry := by
  simp only [ranked, counted, ahead_append_right h]
  rfl

end Standings

open Standings

variable {xs ys : List Slot}

@[simp] theorem assignRanks_nil : assignRanks [] = [] := assignRanks_eq []

/-- **Lists without a common split are ranked together as they are one by one.** -/
theorem assignRanks_append (h : (xs.map Slot.split).Disjoint (ys.map Slot.split)) :
    assignRanks (xs ++ ys) = assignRanks xs ++ assignRanks ys := by
  have hne : ∀ x ∈ xs, ∀ y ∈ ys, x.split ≠ y.split := fun x hx y hy heq =>
    h (List.mem_map_of_mem hx) (heq ▸ List.mem_map_of_mem hy)
  rw [assignRanks_eq, assignRanks_eq, assignRanks_eq, zipIdx_append_eq, List.map_append,
    List.map_map]
  refine congrArg₂ (· ++ ·) (List.map_congr_left fun entry hentry => ?_)
    (List.map_congr_left fun entry hentry => ?_)
  · have hentry := List.fst_mem_of_mem_zipIdx hentry
    exact ranked_append_left fun slot hslot heq => hne entry.1 hentry slot hslot heq.symm
  · have hentry := List.fst_mem_of_mem_zipIdx hentry
    exact ranked_append_right fun slot hslot => hne slot hslot entry.1 hentry

theorem assignRanks_flatten {lists : List (List Slot)}
    (h : lists.Pairwise fun xs ys => (xs.map Slot.split).Disjoint (ys.map Slot.split)) :
    assignRanks lists.flatten = (lists.map assignRanks).flatten := by
  induction lists with
  | nil => exact assignRanks_nil
  | cons xs rest ih =>
      rw [List.pairwise_cons] at h
      have hrest : (xs.map Slot.split).Disjoint (rest.flatten.map Slot.split) := by
        intro split hxs hflat
        obtain ⟨slot, hslot, rfl⟩ := List.mem_map.mp hflat
        obtain ⟨ys, hys, hslot⟩ := List.mem_flatten.mp hslot
        exact h.1 ys hys hxs (List.mem_map_of_mem hslot)
      rw [List.flatten_cons, assignRanks_append hrest, ih h.2, List.map_cons, List.flatten_cons]

end ChipTiming
