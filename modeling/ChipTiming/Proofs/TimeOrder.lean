/-
The order of time, and lists put into it.

Instants are compared by second and then by fraction, which is a linear order.  So
detections can be sorted by time, and the sort is stable: the detections of each
instant stay as they were given.  Nothing else matters for the outcome: there is
one list only that is in the order of time and has the detections of each instant
as they were given (`IsTimeOrder.eq_inTimeOrder`).

All samples are made of instants that are `early`, and what becomes of a sample is
found by `cbv`.  It takes the equations of `LE.le`, `List.lookup` and `Prod.snd`
from the modules imported last.
-/
import ChipTiming.Athlete
import ChipTiming.Proofs.StableSort
import Mathlib.Algebra.Module.Submodule.Lattice
import Mathlib.Computability.Primrec.List
import Mathlib.Data.List.Permutation

namespace ChipTiming

namespace Instant

theorem le_refl (a : Instant) : a ≤ a := Or.inr ⟨rfl, Nat.le_refl _⟩

theorem le_trans {a b c : Instant} (hab : a ≤ b) (hbc : b ≤ c) : a ≤ c := by
  rw [le_def] at *
  omega

theorem le_total (a b : Instant) : a ≤ b ∨ b ≤ a := by
  rw [le_def, le_def]
  omega

theorem le_antisymm {a b : Instant} (hab : a ≤ b) (hba : b ≤ a) : a = b := by
  rw [le_def] at hab hba
  rw [mk.injEq]
  omega

end Instant

/-- So many seconds after 1970-01-01T00:00:00Z, up to a thousand. -/
def early (seconds : Nat) : Instant :=
  ⟨(seconds % 1000 : Nat), 0, by unfold firstSecond lastSecond; omega, by decide⟩

/-- The second list holds the detections of the first in the order of time,
simultaneous ones as they were given. -/
structure IsTimeOrder (given ordered : List Detection) : Prop where
  sorted : ordered.Pairwise (·.time ≤ ·.time)
  stable : ∀ t : Instant, ordered.filter (·.time = t) = given.filter (·.time = t)

theorem inTimeOrder_perm (given : List Detection) : (inTimeOrder given).Perm given :=
  List.mergeSort_perm given _

theorem pairwise_inTimeOrder (given : List Detection) :
    (inTimeOrder given).Pairwise (·.time ≤ ·.time) :=
  pairwise_mergeSort_key Instant.le_trans Instant.le_total given

/-- Sorting by time keeps simultaneous detections as they were given. -/
theorem isTimeOrder_inTimeOrder (given : List Detection) :
    IsTimeOrder given (inTimeOrder given) :=
  ⟨pairwise_inTimeOrder given, filter_mergeSort_key Instant.le_trans Instant.le_total given⟩

theorem IsTimeOrder.eq_inTimeOrder {given ordered : List Detection}
    (h : IsTimeOrder given ordered) : ordered = inTimeOrder given := by
  refine eq_of_filter_key_eq Instant.le_total Instant.le_antisymm h.sorted
    (pairwise_inTimeOrder given) fun t => ?_
  rw [h.stable, (isTimeOrder_inTimeOrder given).stable]

/-! ### Parts of a list -/

section

variable {xs : List Detection}

/-- Leaving out detections leaves the others in their order. -/
theorem inTimeOrder_filter (keep : Detection → Bool) (given : List Detection) :
    inTimeOrder (given.filter keep) = (inTimeOrder given).filter keep :=
  (filter_mergeSort Instant.le_trans Instant.le_total Instant.le_antisymm keep given).symm

/-- In the order of time, what is selected for being early stands in front of all
else. -/
theorem filter_append_filter_not (h : xs.Pairwise (·.time ≤ ·.time)) {p : Detection → Bool}
    (hp : ∀ d e : Detection, d.time ≤ e.time → p e = true → p d = true) :
    xs.filter p ++ xs.filter (!p ·) = xs := by
  induction xs with
  | nil => rfl
  | cons x xs ih =>
      by_cases hx : p x = true
      · rw [List.filter_cons_of_pos hx, List.filter_cons_of_neg (by simpa using hx),
          List.cons_append, ih h.of_cons]
      · have hlate : ∀ y ∈ x :: xs, ¬p y = true := by
          intro y hy hpy
          exact hx (hp x y (key_le_of_mem_cons Instant.le_total h hy) hpy)
        have hnone : (x :: xs).filter p = [] := List.filter_eq_nil_iff.mpr hlate
        have hall : (x :: xs).filter (!p ·) = x :: xs := by simpa using hlate
        rw [hnone, hall, List.nil_append]

theorem filter_le_append_filter_not_le (h : xs.Pairwise (·.time ≤ ·.time)) (t : Instant) :
    xs.filter (·.time ≤ t) ++ xs.filter (¬·.time ≤ t) = xs := by
  have hsplit := filter_append_filter_not h (p := fun d => d.time ≤ t) fun d e hle he => by
    simpa using Instant.le_trans hle (by simpa using he)
  simpa using hsplit

/-- Detections that are no earlier than any of the others come behind them. -/
theorem inTimeOrder_append {given further : List Detection}
    (h : ∀ d ∈ given, ∀ e ∈ further, d.time ≤ e.time) :
    inTimeOrder (given ++ further) = inTimeOrder given ++ inTimeOrder further := by
  symm
  refine IsTimeOrder.eq_inTimeOrder ⟨List.pairwise_append.mpr
    ⟨pairwise_inTimeOrder given, pairwise_inTimeOrder further, fun d hd e he => ?_⟩, fun t => ?_⟩
  · exact h d ((inTimeOrder_perm given).mem_iff.mp hd) e ((inTimeOrder_perm further).mem_iff.mp he)
  · rw [List.filter_append, List.filter_append, (isTimeOrder_inTimeOrder given).stable,
      (isTimeOrder_inTimeOrder further).stable]

/-- The detections of an instant stand as they were given, between the earlier and the
later ones. -/
theorem inTimeOrder_around (t : Instant) (given : List Detection) :
    inTimeOrder given =
      inTimeOrder (given.filter (¬t ≤ ·.time)) ++
        (given.filter (·.time = t) ++ inTimeOrder (given.filter (¬·.time ≤ t))) := by
  have hsorted := pairwise_inTimeOrder given
  have hsplit := filter_append_filter_not hsorted (p := fun d => ¬t ≤ d.time) fun d e hle he => by
    simp only [decide_not, Bool.not_eq_true', decide_eq_false_iff_not] at he ⊢
    exact fun hd => he (Instant.le_trans hd hle)
  have hrest : (inTimeOrder given).filter (t ≤ ·.time) =
      given.filter (·.time = t) ++ inTimeOrder (given.filter (¬·.time ≤ t)) := by
    rw [← filter_le_append_filter_not_le (hsorted.filter _) t, List.filter_filter,
      List.filter_filter, ← (isTimeOrder_inTimeOrder given).stable, inTimeOrder_filter]
    refine congrArg₂ (· ++ ·) (List.filter_congr fun d _ => ?_) (List.filter_congr fun d _ => ?_)
    · rw [Bool.eq_iff_iff]
      simp only [Bool.and_eq_true, decide_eq_true_eq]
      refine ⟨fun h => Instant.le_antisymm h.1 h.2, ?_⟩
      rintro rfl
      exact ⟨Instant.le_refl _, Instant.le_refl _⟩
    · have htotal := Instant.le_total d.time t
      by_cases hle : d.time ≤ t
      · simp [hle]
      · simp [hle, htotal.resolve_left hle]
  rw [← hrest, inTimeOrder_filter]
  simpa using hsplit.symm

/-- So a copy given right behind a detection is right behind it in the order of
time. -/
theorem exists_inTimeOrder_twice (before after : List Detection) (d : Detection) :
    ∃ earlier later, inTimeOrder (before ++ d :: after) = earlier ++ d :: later ∧
      inTimeOrder (before ++ d :: d :: after) = earlier ++ d :: d :: later := by
  refine ⟨inTimeOrder ((before ++ after).filter (¬d.time ≤ ·.time)) ++
      before.filter (·.time = d.time),
    after.filter (·.time = d.time) ++
      inTimeOrder ((before ++ after).filter (¬·.time ≤ d.time)), ?_, ?_⟩
  · rw [inTimeOrder_around d.time]
    simp [Instant.le_refl]
  · rw [inTimeOrder_around d.time]
    simp [Instant.le_refl]

end

end ChipTiming
