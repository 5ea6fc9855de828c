/-
Lists in which every element has a key.

Rosters, entries made by hand, stored results and the tables of a catalog are all
kept in the same way: an element that arrives takes the place of the one with its
key, or goes to the end if there is none.  So keys stay distinct, an element keeps
its place when it is replaced, and the order is that of first arrival.
-/
namespace ChipTiming

variable {α κ : Type} [DecidableEq κ]

/-- The element with a key. -/
def withKey? (key : α → κ) (k : κ) (xs : List α) : Option α := xs.find? (key · = k)

/-- Puts an element in the place of the one with its key, or at the end. -/
def put (key : α → κ) (x : α) : List α → List α
  | [] => [x]
  | y :: ys => if key y = key x then x :: ys else y :: put key x ys

/-- Puts elements one after another. -/
def putAll (key : α → κ) (batch xs : List α) : List α :=
  batch.foldl (fun xs x => put key x xs) xs

@[simp] theorem putAll_nil (key : α → κ) (xs : List α) : putAll key [] xs = xs := rfl

@[simp] theorem putAll_cons (key : α → κ) (x : α) (batch xs : List α) :
    putAll key (x :: batch) xs = putAll key batch (put key x xs) := rfl

theorem putAll_append (key : α → κ) (first second xs : List α) :
    putAll key (first ++ second) xs = putAll key second (putAll key first xs) := by
  simp [putAll]

end ChipTiming
