/-
Sorting by a value of the elements.

Detections are sorted by time, splits by distance, crossings by the time that they
took.  The values are compared by a relation that is total and transitive, and
that is all that is needed: the result is in the order of the values, and of each
value the elements are left as they were given.

If different values are never level, there is one list only of which both is true
(`eq_of_filter_key_eq`).  So it does not matter whether elements are left out
before a list is sorted or after (`filter_mergeSort`).

Two lists that correspond to each other element by element, and whose elements
compare alike, still do so when both are sorted (`forall₂_mergeSort`).
-/
import Mathlib.Data.List.Basic
import Mathlib.Data.List.Forall2

namespace ChipTiming

variable {α β : Type} {key : α → β} {xs ys : List α} {x y : α}

section

variable [LE β] [DecidableLE β]

theorem decide_key_le_trans (htrans : ∀ {a b c : β}, a ≤ b → b ≤ c → a ≤ c) (a b c : α)
    (hab : decide (key a ≤ key b) = true) (hbc : decide (key b ≤ key c) = true) :
    decide (key a ≤ key c) = true := by
  rw [decide_eq_true_eq] at *
  exact htrans hab hbc

theorem decide_key_le_total (htotal : ∀ a b : β, a ≤ b ∨ b ≤ a) (a b : α) :
    (decide (key a ≤ key b) || decide (key b ≤ key a)) = true := by
  rw [Bool.or_eq_true, decide_eq_true_eq, decide_eq_true_eq]
  exact htotal (key a) (key b)

/-- Sorting by a value puts the elements in its order. -/
theorem pairwise_mergeSort_key (htrans : ∀ {a b c : β}, a ≤ b → b ≤ c → a ≤ c)
    (htotal : ∀ a b : β, a ≤ b ∨ b ≤ a) (xs : List α) :
    (xs.mergeSort fun a b => key a ≤ key b).Pairwise fun a b => key a ≤ key b := by
  have hsorted : (xs.mergeSort fun a b => key a ≤ key b).Pairwise fun a b =>
      decide (key a ≤ key b) = true :=
    List.pairwise_mergeSort (decide_key_le_trans htrans) (decide_key_le_total htotal) xs
  exact hsorted.imp fun h => of_decide_eq_true h

/-- Sorting by a value leaves the elements of each value as they were given. -/
theorem filter_mergeSort_key [DecidableEq β] (htrans : ∀ {a b c : β}, a ≤ b → b ≤ c → a ≤ c)
    (htotal : ∀ a b : β, a ≤ b ∨ b ≤ a) (xs : List α) (k : β) :
    (xs.mergeSort fun a b => key a ≤ key b).filter (key · = k) = xs.filter (key · = k) := by
  have hequal : (xs.filter (key · = k)).Pairwise fun a b => decide (key a ≤ key b) = true := by
    refine List.pairwise_of_forall_mem_list fun a ha b hb => ?_
    have hak : key a = k := by simpa using (List.mem_filter.mp ha).2
    have hbk : key b = k := by simpa using (List.mem_filter.mp hb).2
    rw [hak, hbk, decide_eq_true_eq]
    exact or_self_iff.mp (htotal k k)
  have hsub : (xs.filter (key · = k)).Sublist (xs.mergeSort fun a b => key a ≤ key b) :=
    List.sublist_mergeSort (decide_key_le_trans htrans) (decide_key_le_total htotal) hequal
      List.filter_sublist
  have hkept := hsub.filter (key · = k)
  rw [List.filter_filter] at hkept
  simp only [Bool.and_self] at hkept
  -- Both hold as many elements of the value, so nothing is left out.
  exact (hkept.eq_of_length ((List.mergeSort_perm xs _).filter _).length_eq.symm).symm

end

/-! ### One list only -/

/-- A list in the order of the values begins with the least of them. -/
theorem key_le_of_mem_cons [LE β] (htotal : ∀ a b : β, a ≤ b ∨ b ≤ a)
    (h : (x :: xs).Pairwise fun a b => key a ≤ key b) (hy : y ∈ x :: xs) : key x ≤ key y := by
  rcases List.mem_cons.mp hy with rfl | hy
  · exact or_self_iff.mp (htotal (key y) (key y))
  · exact List.rel_of_pairwise_cons h hy

section

variable [DecidableEq β]

theorem mem_iff_of_filter_key_eq
    (h : ∀ k : β, xs.filter (key · = k) = ys.filter (key · = k)) : x ∈ xs ↔ x ∈ ys := by
  have hfilter : x ∈ xs.filter (key · = key x) ↔ x ∈ ys.filter (key · = key x) := by
    rw [h (key x)]
  simpa using hfilter

variable [LE β]

/-- Lists in the order of the values are the same if they have the same elements of
each value, in the same order. -/
theorem eq_of_filter_key_eq (htotal : ∀ a b : β, a ≤ b ∨ b ≤ a)
    (hantisymm : ∀ {a b : β}, a ≤ b → b ≤ a → a = b)
    (hxs : xs.Pairwise fun a b => key a ≤ key b) (hys : ys.Pairwise fun a b => key a ≤ key b)
    (h : ∀ k : β, xs.filter (key · = k) = ys.filter (key · = k)) : xs = ys := by
  induction xs generalizing ys with
  | nil =>
      symm
      rw [List.eq_nil_iff_forall_not_mem]
      intro y hy
      exact absurd ((mem_iff_of_filter_key_eq h).mpr hy) List.not_mem_nil
  | cons x xs ih =>
      cases ys with
      | nil =>
          exact absurd ((mem_iff_of_filter_key_eq h).mp (List.mem_cons_self ..)) List.not_mem_nil
      | cons y ys =>
          have hx := (mem_iff_of_filter_key_eq h).mp (List.mem_cons_self (a := x))
          have hy := (mem_iff_of_filter_key_eq h).mpr (List.mem_cons_self (a := y))
          have hkey : key y = key x :=
            hantisymm (key_le_of_mem_cons htotal hys hx) (key_le_of_mem_cons htotal hxs hy)
          -- Of the value that both begin with, both begin with the same element.
          have hfirst := h (key x)
          rw [List.filter_cons_of_pos (by simp), List.filter_cons_of_pos (by simp [hkey]),
            List.cons.injEq] at hfirst
          obtain ⟨rfl, -⟩ := hfirst
          refine congrArg (x :: ·) (ih hxs.of_cons hys.of_cons fun k => ?_)
          have hk := h k
          by_cases hat : key x = k
          · rw [List.filter_cons_of_pos (by simpa using hat),
              List.filter_cons_of_pos (by simpa using hat), List.cons.injEq] at hk
            exact hk.2
          · rwa [List.filter_cons_of_neg (by simpa using hat),
              List.filter_cons_of_neg (by simpa using hat)] at hk

variable [DecidableLE β]

/-- Leaving out elements leaves the others in their order. -/
theorem filter_mergeSort (htrans : ∀ {a b c : β}, a ≤ b → b ≤ c → a ≤ c)
    (htotal : ∀ a b : β, a ≤ b ∨ b ≤ a) (hantisymm : ∀ {a b : β}, a ≤ b → b ≤ a → a = b)
    (keep : α → Bool) (xs : List α) :
    (xs.mergeSort fun a b => key a ≤ key b).filter keep =
      (xs.filter keep).mergeSort fun a b => key a ≤ key b := by
  refine eq_of_filter_key_eq htotal hantisymm
    ((pairwise_mergeSort_key htrans htotal xs).filter keep)
    (pairwise_mergeSort_key htrans htotal (xs.filter keep)) fun k => ?_
  rw [List.filter_comm, filter_mergeSort_key htrans htotal, filter_mergeSort_key htrans htotal,
    List.filter_comm]

end

/-! ### Two lists side by side -/

/-- Elements that correspond and compare alike go to the same places. -/
theorem forall₂_mergeSort {γ : Type} {R : α → γ → Prop} {ys : List γ} {le : α → α → Bool}
    {le' : γ → γ → Bool} (h : List.Forall₂ R xs ys)
    (hle : ∀ {a b c d}, R a c → R b d → le a b = le' c d) :
    List.Forall₂ R (xs.mergeSort le) (ys.mergeSort le') := by
  obtain ⟨hlength, hzip⟩ := List.forall₂_iff_zip.mp h
  -- Sorting the pairs by either of their sides sorts both lists.
  have hleft : ((xs.zip ys).mergeSort fun a b => le a.1 b.1).map Prod.fst = xs.mergeSort le := by
    rw [List.map_mergeSort (s := le) fun _ _ _ _ => rfl, List.map_fst_zip (Nat.le_of_eq hlength)]
  have hright : ((xs.zip ys).mergeSort fun a b => le a.1 b.1).map Prod.snd = ys.mergeSort le' := by
    rw [List.map_mergeSort (s := le') fun _ ha _ hb => hle (hzip ha) (hzip hb),
      List.map_snd_zip (Nat.le_of_eq hlength.symm)]
  rw [← hleft, ← hright, List.forall₂_map_left_iff, List.forall₂_map_right_iff, List.forall₂_same]
  exact fun z hz => hzip ((List.mergeSort_perm _ _).mem_iff.mp hz)

end ChipTiming
