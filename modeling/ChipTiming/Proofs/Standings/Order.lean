/-
The order in which places are given.

Crossed slots are put in the order of their times, those of equal time in the
order given.  Together with its position a slot therefore comes before another or
after it (`isBefore`), and the order is strict (`pairwise_inOrder`).  In a strict
order, what comes before an element is what stands in front of it
(`take_eq_filter_of_pairwise`), so each has as many before it as its position says
(`map_countP_of_pairwise`).
-/
import ChipTiming.Proofs.StableSort
import ChipTiming.Standings
import Mathlib.Data.List.Nodup
import Mathlib.Data.List.Perm.Basic

namespace ChipTiming

/-! ### Positions in a strict order -/

section

variable {α : Type} {r : α → α → Bool} {xs : List α} {n : Nat} {x : α}

/-- In a strict order, what comes before an element is what stands in front of it. -/
theorem take_eq_filter_of_pairwise (hasymm : ∀ x y, r x y = true → r y x = false)
    (h : xs.Pairwise (r · ·)) (hx : xs[n]? = some x) : xs.take n = xs.filter (r · x) := by
  induction xs generalizing n with
  | nil => cases hx
  | cons y ys ih =>
      rw [List.pairwise_cons] at h
      cases n with
      | zero =>
          obtain rfl : y = x := by simpa using hx
          have hnone : ∀ z ∈ y :: ys, ¬r z y = true := by
            intro z hz hzy
            have hyz := hasymm z y hzy
            rcases List.mem_cons.mp hz with rfl | hz
            · simp [hzy] at hyz
            · simp [h.1 z hz] at hyz
          rw [List.take_zero, List.filter_eq_nil_iff.mpr hnone]
      | succ n =>
          rw [List.getElem?_cons_succ] at hx
          have hyx : r y x = true := h.1 x (List.mem_of_getElem? hx)
          rw [List.take_succ_cons, List.filter_cons_of_pos (p := (r · x)) hyx, ih h.2 hx]

/-- So each element has as many before it as stand in front of it. -/
theorem map_countP_of_pairwise (hasymm : ∀ x y, r x y = true → r y x = false)
    (h : xs.Pairwise (r · ·)) : (xs.map fun x => xs.countP (r · x)) = List.range xs.length := by
  refine List.ext_getElem (by simp) fun n hn _ => ?_
  rw [List.length_map] at hn
  rw [List.getElem_map, List.getElem_range, List.countP_eq_length_filter,
    ← take_eq_filter_of_pairwise hasymm h (List.getElem?_eq_getElem hn), List.length_take,
    Nat.min_eq_left (Nat.le_of_lt hn)]

end

namespace Duration

theorem le_trans {a b c : Duration} (hab : a ≤ b) (hbc : b ≤ c) : a ≤ c := Nat.le_trans hab hbc

theorem le_total (a b : Duration) : a ≤ b ∨ b ≤ a := Nat.le_total a.nanos b.nanos

theorem le_antisymm {a b : Duration} (hab : a ≤ b) (hba : b ≤ a) : a = b :=
  congrArg mk (Nat.le_antisymm hab hba)

end Duration

/-- The time on a basis, or no time at all if the split was not crossed. -/
def Slot.timeOn (s : Slot) (basis : TimeBasis) : Duration := (s.time? basis).getD .zero

theorem Slot.time?_eq_some_timeOn {s : Slot} (h : s.isVisited = true) (basis : TimeBasis) :
    s.time? basis = some (s.timeOn basis) := by
  rw [← s.isSome_time? basis, Option.isSome_iff_exists] at h
  obtain ⟨time, htime⟩ := h
  rw [Slot.timeOn, htime, Option.getD_some]

namespace Standings

/-! ### Before and after -/

/-- Whether one slot comes before another: by its time, or by its position if the
times are equal.  A slot that was not crossed neither comes before another nor after
it. -/
def isBefore (basis : TimeBasis) (a b : Slot × Nat) : Bool :=
  match a.1.time? basis, b.1.time? basis with
  | some s, some t => s < t || (s == t && decide (a.2 < b.2))
  | _, _ => false

variable {basis : TimeBasis} {slots : List Slot} {a b entry : Slot × Nat}

theorem isBefore_iff :
    isBefore basis a b = true ↔ ∃ s t, a.1.time? basis = some s ∧ b.1.time? basis = some t ∧
      (s < t ∨ s = t ∧ a.2 < b.2) := by
  unfold isBefore
  split
  · next s t hs ht => simp [hs, ht]
  · next hnone =>
      refine iff_of_false Bool.false_ne_true ?_
      rintro ⟨s, t, hs, ht, -⟩
      exact hnone s t hs ht

theorem isBefore_asymm (a b : Slot × Nat) (h : isBefore basis a b = true) :
    isBefore basis b a = false := by
  rw [← Bool.not_eq_true, isBefore_iff]
  rintro ⟨t', s', ht', hs', hlt'⟩
  obtain ⟨s, t, hs, ht, hlt⟩ := isBefore_iff.mp h
  rw [hs, Option.some.injEq] at hs'
  rw [ht, Option.some.injEq] at ht'
  subst hs' ht'
  rw [Duration.lt_def] at hlt hlt'
  rcases hlt with hlt | ⟨rfl, hlt⟩
  · rcases hlt' with hlt' | ⟨rfl, -⟩ <;> omega
  · rcases hlt' with hlt' | ⟨-, hlt'⟩ <;> omega

/-- What comes before something has been crossed. -/
theorem isVisited_of_isBefore (h : isBefore basis a b = true) : a.1.isVisited = true := by
  obtain ⟨time, -, htime, -⟩ := isBefore_iff.mp h
  rw [← a.1.isSome_time? basis, htime, Option.isSome_some]

/-! ### The order of times -/

/-- The crossed slots with their times and positions. -/
def timed (slots : List Slot) (basis : TimeBasis) : List (Duration × Nat × Slot) :=
  slots.zipIdx.filterMap fun (slot, position) =>
    (slot.time? basis).map fun time => (time, position, slot)

/-- The crossed slots with their positions, in the order of time. -/
def inOrder (slots : List Slot) (basis : TimeBasis) : List (Slot × Nat) :=
  (order slots basis).map Prod.swap

theorem map_timed (slots : List Slot) (basis : TimeBasis) :
    ((timed slots basis).map fun x => x.2.swap) = slots.zipIdx.filter (·.1.isVisited) := by
  unfold timed
  induction slots.zipIdx with
  | nil => rfl
  | cons entry entries ih =>
      cases htime : entry.1.time? basis with
      | none =>
          have hentry : entry.1.isVisited = false := by
            rw [← entry.1.isSome_time? basis, htime]
            rfl
          simp [htime, hentry, ih]
      | some time =>
          have hentry : entry.1.isVisited = true := by
            rw [← entry.1.isSome_time? basis, htime]
            rfl
          simp [htime, hentry, ih]

theorem time?_of_mem_timed {x : Duration × Nat × Slot} (h : x ∈ timed slots basis) :
    x.2.2.time? basis = some x.1 := by
  obtain ⟨entry, -, hentry⟩ := List.mem_filterMap.mp h
  obtain ⟨time, htime, rfl⟩ := Option.map_eq_some_iff.mp hentry
  exact htime

/-- The order is a sort of the crossed slots with their positions. -/
theorem inOrder_eq (slots : List Slot) (basis : TimeBasis) :
    inOrder slots basis = (slots.zipIdx.filter (·.1.isVisited)).mergeSort fun a b =>
      a.1.timeOn basis ≤ b.1.timeOn basis := by
  have hswap : inOrder slots basis =
      ((timed slots basis).mergeSort fun a b => a.1 ≤ b.1).map fun x => x.2.swap := by
    rw [inOrder, order, List.map_map]
    rfl
  have htime : ∀ x ∈ timed slots basis, x.2.swap.1.timeOn basis = x.1 := by
    intro x hx
    rw [Slot.timeOn, Prod.fst_swap, time?_of_mem_timed hx, Option.getD_some]
  rw [hswap, ← map_timed slots basis]
  refine List.map_mergeSort fun a ha b hb => ?_
  rw [htime a ha, htime b hb]

/-- Every crossed slot is in the order, with its position. -/
theorem inOrder_perm (slots : List Slot) (basis : TimeBasis) :
    (inOrder slots basis).Perm (slots.zipIdx.filter (·.1.isVisited)) := by
  rw [inOrder_eq]
  exact List.mergeSort_perm _ _

theorem nodup_positions (slots : List Slot) (basis : TimeBasis) :
    ((inOrder slots basis).map Prod.snd).Nodup := by
  rw [((inOrder_perm slots basis).map Prod.snd).nodup_iff]
  refine List.Nodup.sublist (List.filter_sublist.map Prod.snd) ?_
  rw [List.zipIdx_map_snd]
  exact List.nodup_range'

/-- The order is strict: positions tell slots of equal times apart. -/
theorem pairwise_inOrder (slots : List Slot) (basis : TimeBasis) :
    (inOrder slots basis).Pairwise (isBefore basis · ·) := by
  have hpositions : slots.zipIdx.Pairwise fun a b => a.2 < b.2 := by
    rw [← List.pairwise_map (f := Prod.snd) (R := (· < ·)), List.zipIdx_map_snd]
    exact List.pairwise_lt_range'
  rw [inOrder_eq, List.pairwise_iff_forall_sublist]
  intro a b hab
  have htime : ∀ x ∈ [a, b], x.1.time? basis = some (x.1.timeOn basis) := fun x hx =>
    Slot.time?_eq_some_timeOn (List.mem_filter.mp (List.mem_mergeSort.mp (hab.subset hx))).2 basis
  rw [isBefore_iff]
  refine ⟨_, _, htime a (by simp), htime b (by simp), ?_⟩
  by_cases heq : a.1.timeOn basis = b.1.timeOn basis
  · -- Those of equal times stand as they were given, that is by position.
    have hsame := hab.filter (·.1.timeOn basis = b.1.timeOn basis)
    have hpair : [a, b].filter (·.1.timeOn basis = b.1.timeOn basis) = [a, b] := by simp [heq]
    rw [hpair, filter_mergeSort_key Duration.le_trans Duration.le_total] at hsame
    exact Or.inr ⟨heq, List.pairwise_iff_forall_sublist.mp hpositions
      (hsame.trans (List.filter_sublist.trans List.filter_sublist))⟩
  · have hle : a.1.timeOn basis ≤ b.1.timeOn basis := List.pairwise_iff_forall_sublist.mp
      (pairwise_mergeSort_key Duration.le_trans Duration.le_total _) hab
    exact Or.inl (Nat.lt_of_le_of_ne hle fun hnanos => heq (congrArg Duration.mk hnanos))

/-- Only crossed slots count, so that counting in the order is counting in the
list. -/
theorem countP_inOrder (entry : Slot × Nat) (p : Slot × Nat → Bool) :
    ((inOrder slots basis).countP fun other => p other && isBefore basis other entry) =
      slots.zipIdx.countP fun other => p other && isBefore basis other entry := by
  rw [(inOrder_perm slots basis).countP_eq, List.countP_filter]
  refine List.countP_congr fun other _ => ?_
  rw [Bool.and_eq_true, and_iff_left_iff_imp, Bool.and_eq_true]
  exact fun h => isVisited_of_isBefore h.2

end Standings

end ChipTiming
