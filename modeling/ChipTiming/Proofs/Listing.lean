/-
Lists in the order of two values of their elements.

The catalog lists waves, categories, events and readers by a value that people
read (a time, a name, a date), and by identifier where that is equal.  Since
identifiers are distinct the order is strict, so a listing is determined by what
it lists: `IsListing` says no more than that nothing is added or left out and that
everything stands in order.
-/
import ChipTiming.Catalog
import Mathlib.Data.List.Nodup

namespace ChipTiming

open Std

/-! ### The orders involved -/

instance : TransOrd Instant :=
  inferInstanceAs (TransCmp (compareLex (compareOn Instant.second) (compareOn Instant.fraction)))

instance : LawfulEqOrd Instant where
  eq_of_compare {a b} h := by
    obtain ⟨hsecond, hfraction⟩ := Ordering.then_eq_eq.mp h
    obtain ⟨second, fraction, _, _⟩ := a
    obtain ⟨second', fraction', _, _⟩ := b
    obtain rfl : second = second' := LawfulEqOrd.eq_of_compare hsecond
    obtain rfl : fraction = fraction' := LawfulEqOrd.eq_of_compare hfraction
    rfl

instance : TransOrd Date :=
  inferInstanceAs (TransCmp (compareLex (compareOn Date.year)
    (compareLex (compareOn Date.month) (compareOn Date.day))))

instance : LawfulEqOrd Date where
  eq_of_compare {a b} h := by
    obtain ⟨hyear, hrest⟩ := Ordering.then_eq_eq.mp h
    obtain ⟨hmonth, hday⟩ := Ordering.then_eq_eq.mp hrest
    obtain ⟨year, month, day, _, _, _⟩ := a
    obtain ⟨year', month', day', _, _, _⟩ := b
    obtain rfl : year = year' := LawfulEqOrd.eq_of_compare hyear
    obtain rfl : month = month' := LawfulEqOrd.eq_of_compare hmonth
    obtain rfl : day = day' := LawfulEqOrd.eq_of_compare hday
    rfl

instance {entity : Entity} : TransOrd (Id entity) :=
  inferInstanceAs (TransCmp (compareOn fun id : Id entity => id.number.toNat))

instance {entity : Entity} : LawfulEqOrd (Id entity) where
  eq_of_compare {a b} h := by
    obtain ⟨number⟩ := a
    obtain ⟨number'⟩ := b
    have hnumber : number.toNat = number'.toNat := LawfulEqOrd.eq_of_compare h
    rw [BitVec.eq_of_toNat_eq hnumber]

/-! ### Listings -/

variable {α β γ : Type} [Ord β] [Ord γ] {first : α → β} {second : α → γ}
  {entities entities' listed : List α}

/-- Whether an element comes before another by its first value, or by its second where
the first is equal. -/
def Precedes (first : α → β) (second : α → γ) (a b : α) : Prop :=
  compare (first a) (first b) = .lt ∨
    first a = first b ∧ compare (second a) (second b) = .lt

/-- The second list holds the elements of the first, in the order of two values. -/
structure IsListing (first : α → β) (second : α → γ) (entities listed : List α) : Prop where
  perm : listed.Perm entities
  sorted : listed.Pairwise (Precedes first second)

theorem IsListing.of_perm (h : IsListing first second entities listed)
    (hperm : entities.Perm entities') : IsListing first second entities' listed :=
  ⟨h.perm.trans hperm, h.sorted⟩

/-- Sorting by two values gives a listing, if the second value tells elements
apart. -/
theorem isListing_sortedBy [TransOrd β] [LawfulEqOrd β] [TransOrd γ] [LawfulEqOrd γ]
    (h : (entities.map second).Nodup) :
    IsListing first second entities (Catalog.sortedBy first second entities) := by
  have hperm : (Catalog.sortedBy first second entities).Perm entities :=
    List.mergeSort_perm entities _
  refine ⟨hperm, ?_⟩
  have hle : (Catalog.sortedBy first second entities).Pairwise fun a b =>
      (compareLex (compareOn first) (compareOn second) a b).isLE = true :=
    List.pairwise_mergeSort (fun _ _ _ => TransCmp.isLE_trans)
      (fun a b => by
        have hswap : compareLex (compareOn first) (compareOn second) b a =
            (compareLex (compareOn first) (compareOn second) a b).swap := OrientedCmp.eq_swap
        rw [hswap]
        cases compareLex (compareOn first) (compareOn second) a b <;> rfl) entities
  have hne : (Catalog.sortedBy first second entities).Pairwise fun a b => second a ≠ second b :=
    List.pairwise_map.mp ((hperm.map second).nodup_iff.mpr h)
  refine (hle.and hne).imp ?_
  intro a b hboth
  obtain ⟨hab, hsecond⟩ := hboth
  rcases Ordering.isLE_then_iff_or.mp hab with hlt | ⟨heq, hle⟩
  · exact Or.inl hlt
  · refine Or.inr ⟨LawfulEqOrd.eq_of_compare heq, ?_⟩
    rcases Ordering.isLE_iff_eq_lt_or_eq_eq.mp hle with hlt | heq
    · exact hlt
    · exact absurd (LawfulEqOrd.eq_of_compare heq) hsecond

end ChipTiming
