/-
What the detections of a run mean, said without walking over them.

A moment is a position among the detections together with a place among the
splits, and moments are ordered as the walk meets them: by position, then by
place.  `Eligible` says at which moments a split would accept the detection,
whatever its own slot holds.  It recurses along the links from a lap to the one
before, which lead to earlier places.

What a split keeps of its eligible positions is `Keeps`: of a start the last, of
every other split the first.  The same rule is used three times, only up to
different moments: up to the position at hand for the crossing that a lap is
measured from, up to the moment at hand for the start that a net time runs from,
and up to the finish for the result.

Each of the relations determines its value, so a description by them is a complete
one (`passageIn_unique`).
-/
import ChipTiming.Proofs.Matching.Walk
import Mathlib.Data.Prod.Lex
import Mathlib.Order.Lattice.Nat
import Mathlib.Order.WellFounded

namespace ChipTiming.Matching

/-- A position among the detections and a place among the splits, by position
first. -/
abbrev Moment := ℕ ×ₗ ℕ

/-! ### The first or the last of several positions -/

/-- The position that a split keeps of its eligible ones: a start the last of those
within a limit, any other split the first of all, if that is within the limit. -/
def Keeps (isStart : Bool) (eligible within : Set ℕ) (q : ℕ) : Prop :=
  if isStart then IsGreatest (eligible ∩ within) q else IsLeast eligible q ∧ q ∈ within

namespace Keeps

variable {isStart : Bool} {eligible within within' : Set ℕ} {q q' : ℕ}

theorem mem (h : Keeps isStart eligible within q) : q ∈ eligible ∧ q ∈ within := by
  unfold Keeps at h
  split at h
  · exact h.1
  · exact ⟨h.1.1, h.2⟩

theorem unique (h : Keeps isStart eligible within q) (h' : Keeps isStart eligible within q') :
    q = q' := by
  unfold Keeps at h h'
  split at h
  · rename_i hstart
    rw [if_pos hstart] at h'
    exact h.unique h'
  · rename_i hstart
    rw [if_neg hstart] at h'
    exact h.1.unique h'.1

/-- Only the eligible positions of a limit matter. -/
theorem congr (hw : ∀ q ∈ eligible, q ∈ within ↔ q ∈ within') :
    Keeps isStart eligible within q ↔ Keeps isStart eligible within' q := by
  have hinter : eligible ∩ within = eligible ∩ within' := by
    ext x
    exact and_congr_right (hw x)
  unfold Keeps
  rw [hinter]
  split
  · exact Iff.rfl
  · exact and_congr_right fun h => hw q h.1

/-- Something is kept as soon as something is eligible within the limit. -/
theorem exists_of_mem (hbound : BddAbove eligible) (hlower : IsLowerSet within)
    (hq : q ∈ eligible) (hw : q ∈ within) : ∃ q, Keeps isStart eligible within q := by
  unfold Keeps
  split
  · have hbound' : BddAbove (eligible ∩ within) := hbound.mono Set.inter_subset_left
    exact ⟨sSup (eligible ∩ within), Nat.sSup_mem ⟨q, hq, hw⟩ hbound', fun _ hx =>
      le_csSup hbound' hx⟩
  · have hleast : IsLeast eligible (sInf eligible) :=
      ⟨Nat.sInf_mem ⟨q, hq⟩, fun _ hx => Nat.sInf_le hx⟩
    exact ⟨sInf eligible, hleast, hlower (hleast.2 hq) hw⟩

end Keeps

namespace Run

/-! ### Eligible moments -/

/-- Whether a detection is by the split's reader and inside its window. -/
def Fits (r : Run) (split : Split) (d : Detection) : Prop :=
  split.reader = d.reader ∧
    (split.window r.setting.waveStart r.setting.ceiling).contains d.time = true

/--
Whether the split at place `i` may take the detection at position `p`.  A split that
closes a lap may do so only if the split before it, at an earlier place `j`, has been
crossed by then, at least the least time of the lap earlier.
-/
def Eligible (r : Run) (i p : ℕ) : Prop :=
  ∃ split d, r.splits[i]? = some split ∧ r.reads[p]? = some d ∧ r.Fits split d ∧
    ∀ previous, split.previousLap = some previous →
      ∃ j, ∃ _ : j < i, ∃ before q opened lap,
        r.splits[j]? = some before ∧ before.id = previous ∧
        Keeps before.isStart {q | Eligible r j q} (Set.Iic p) q ∧
        r.reads[q]? = some opened ∧ opened.time.elapsed d.time = some lap ∧
        split.minLapTime ≤ lap
termination_by i

variable {r : Run} {i p q : ℕ} {split : Split} {d : Detection}

theorem eligible_iff (hsplit : r.splits[i]? = some split) (hread : r.reads[p]? = some d) :
    r.Eligible i p ↔ r.Fits split d ∧
      ∀ previous, split.previousLap = some previous →
        ∃ j < i, ∃ before q opened lap,
          r.splits[j]? = some before ∧ before.id = previous ∧
          Keeps before.isStart {q | r.Eligible j q} (Set.Iic p) q ∧
          r.reads[q]? = some opened ∧ opened.time.elapsed d.time = some lap ∧
          split.minLapTime ≤ lap := by
  rw [Eligible]
  refine ⟨?_, ?_⟩
  · intro heligible
    obtain ⟨split', d', hsplit', hread', hfits, hlap⟩ := heligible
    rw [hsplit, Option.some.injEq] at hsplit'
    rw [hread, Option.some.injEq] at hread'
    subst hsplit'
    subst hread'
    refine ⟨hfits, fun previous hprevious => ?_⟩
    obtain ⟨j, hj, hrest⟩ := hlap previous hprevious
    exact ⟨j, hj, hrest⟩
  · intro heligible
    obtain ⟨hfits, hlap⟩ := heligible
    refine ⟨split, d, hsplit, hread, hfits, fun previous hprevious => ?_⟩
    obtain ⟨j, hj, hrest⟩ := hlap previous hprevious
    exact ⟨j, hj, hrest⟩

theorem Eligible.exists_split (h : r.Eligible i p) : ∃ split, r.splits[i]? = some split := by
  rw [Eligible] at h
  obtain ⟨split, -, hsplit, -⟩ := h
  exact ⟨split, hsplit⟩

theorem Eligible.exists_read (h : r.Eligible i p) : ∃ d, r.reads[p]? = some d := by
  rw [Eligible] at h
  obtain ⟨-, d, -, hread, -⟩ := h
  exact ⟨d, hread⟩

theorem Eligible.lt_length (h : r.Eligible i p) : p < r.reads.length := by
  obtain ⟨d, hread⟩ := h.exists_read
  exact (List.getElem?_eq_some_iff.mp hread).1

theorem bddAbove_eligible (r : Run) (i : ℕ) : BddAbove {p | r.Eligible i p} :=
  ⟨r.reads.length, fun _ h => Nat.le_of_lt h.lt_length⟩

/-! ### What a slot holds -/

/-- The position whose detection the slot at place `i` holds, as far as the moments of
a set go. -/
def Holds (r : Run) (within : Set Moment) (i q : ℕ) : Prop :=
  ∃ split, r.splits[i]? = some split ∧
    Keeps split.isStart {p | r.Eligible i p} {p | toLex (p, i) ∈ within} q

variable {within within' : Set Moment}

theorem Holds.eligible (h : r.Holds within i q) : r.Eligible i q := by
  obtain ⟨_, _, hkeeps⟩ := h
  exact hkeeps.mem.1

theorem Holds.mem (h : r.Holds within i q) : toLex (q, i) ∈ within := by
  obtain ⟨_, _, hkeeps⟩ := h
  exact hkeeps.mem.2

theorem Holds.unique {q' : ℕ} (h : r.Holds within i q) (h' : r.Holds within i q') : q = q' := by
  obtain ⟨split, hsplit, hkeeps⟩ := h
  obtain ⟨split', hsplit', hkeeps'⟩ := h'
  rw [hsplit, Option.some.injEq] at hsplit'
  subst hsplit'
  exact hkeeps.unique hkeeps'

theorem holds_congr (hw : ∀ q, r.Eligible i q → (toLex (q, i) ∈ within ↔ toLex (q, i) ∈ within')) :
    r.Holds within i q ↔ r.Holds within' i q :=
  exists_congr fun _ => and_congr_right fun _ => Keeps.congr hw

theorem exists_holds (hlower : IsLowerSet within) (h : r.Eligible i p)
    (hw : toLex (p, i) ∈ within) : ∃ q, r.Holds within i q := by
  obtain ⟨split, hsplit⟩ := h.exists_split
  have hlower' : IsLowerSet {p | toLex (p, i) ∈ within} := by
    intro a b hba ha
    refine hlower ?_ ha
    rw [Prod.Lex.toLex_le_toLex]
    show b < a ∨ b = a ∧ i ≤ i
    omega
  obtain ⟨q, hq⟩ : ∃ q, Keeps split.isStart {p | r.Eligible i p} _ q :=
    Keeps.exists_of_mem (r.bddAbove_eligible i) hlower' h hw
  exact ⟨q, split, hsplit, hq⟩

/-! ### The finish -/

/-- The moments at which a finish is eligible. -/
def finishes (r : Run) : Set Moment :=
  {m | ∃ split, r.splits[(ofLex m).2]? = some split ∧ split.isFinish = true ∧
    r.Eligible (ofLex m).2 (ofLex m).1}

/-- The moments up to the first finish, or all of them if there is none. -/
def inTime (r : Run) : Set Moment := {m | ∀ f, IsLeast r.finishes f → m ≤ f}

theorem isLowerSet_inTime (r : Run) : IsLowerSet r.inTime :=
  fun _ _ hle hm f hf => le_trans hle (hm f hf)

/-- Where a finish is eligible there is a first one. -/
theorem exists_isLeast_finishes {m : Moment} (hm : m ∈ r.finishes) :
    ∃ f, IsLeast r.finishes f ∧ f ≤ m := by
  have hwf : WellFounded (α := Moment) (· < ·) := wellFounded_lt
  refine ⟨hwf.min r.finishes ⟨m, hm⟩, ⟨hwf.min_mem _ _, fun x hx => ?_⟩, ?_⟩
  · exact not_lt.mp (hwf.not_lt_min _ hx)
  · exact not_lt.mp (hwf.not_lt_min _ hm)

/-! ### Times, passages and the status -/

/-- The time from the start of the wave to a detection. -/
def gunTime (r : Run) (d : Detection) : Duration :=
  (r.setting.waveStart.elapsed d.time).getD .zero

/-- The timing of a crossing of the split at place `i` by the detection at position
`p`. -/
inductive Timed (r : Run) (i p : ℕ) : Timing → Prop
  /-- A start is crossed at net time zero. -/
  | atStart {split : Split} {d : Detection} (hsplit : r.splits[i]? = some split)
      (hread : r.reads[p]? = some d) (hkind : split.isStart = true) :
      Timed r i p ⟨d.time, r.gunTime d, .zero⟩
  /-- Net times run from the crossing that the slot of the start holds at that
  moment. -/
  | fromStart {split : Split} {d start : Detection} {k q : ℕ}
      (hsplit : r.splits[i]? = some split) (hread : r.reads[p]? = some d)
      (hkind : split.isStart = false) (hplace : r.setting.startPlace = some k)
      (hholds : r.Holds (Set.Iio (toLex (p, i))) k q) (hstart : r.reads[q]? = some start) :
      Timed r i p ⟨d.time, r.gunTime d, (start.time.elapsed d.time).getD .zero⟩
  /-- While that slot holds none, the net time is the gun time. -/
  | fromGun {split : Split} {d : Detection} (hsplit : r.splits[i]? = some split)
      (hread : r.reads[p]? = some d) (hkind : split.isStart = false)
      (hnone : ∀ k q, r.setting.startPlace = some k → ¬r.Holds (Set.Iio (toLex (p, i))) k q) :
      Timed r i p ⟨d.time, r.gunTime d, r.gunTime d⟩

/-- What the slot at place `i` shows, as far as the moments of a set go. -/
inductive PassageIn (r : Run) (within : Set Moment) (i : ℕ) : Passage → Prop
  | crossed {q : ℕ} {t : Timing} (hholds : r.Holds within i q) (htimed : r.Timed i q t) :
      PassageIn r within i (.detected t)
  | notCrossed (hnone : ∀ q, ¬r.Holds within i q) : PassageIn r within i .notVisited

/-- The status, as far as the moments of a set go. -/
inductive StatusIn (r : Run) (within : Set Moment) : Status → Prop
  | finished {f : Moment} (hfinish : IsLeast r.finishes f) (hmem : f ∈ within) :
      StatusIn r within .finished
  | running {i q : ℕ} (hnone : ∀ f, IsLeast r.finishes f → f ∉ within)
      (hholds : r.Holds within i q) : StatusIn r within .running
  | notYetStarted (hnone : ∀ i q, ¬r.Holds within i q) : StatusIn r within .notYetStarted

theorem Timed.time_eq {t : Timing} (h : r.Timed i p t) (hread : r.reads[p]? = some d) :
    t.time = d.time := by
  cases h with
  | atStart _ hread' _ | fromStart _ hread' _ _ _ _ | fromGun _ hread' _ _ =>
      rw [hread, Option.some.injEq] at hread'
      rw [hread']

theorem Timed.unique {t t' : Timing} (h : r.Timed i p t) (h' : r.Timed i p t') : t = t' := by
  cases h with
  | atStart hsplit hread hkind =>
      cases h' with
      | atStart _ hread' _ => simp_all
      | fromStart hsplit' _ hkind' _ _ _ => simp_all
      | fromGun hsplit' _ hkind' _ => simp_all
  | fromStart hsplit hread hkind hplace hholds hstart =>
      cases h' with
      | atStart hsplit' _ hkind' => simp_all
      | fromStart _ hread' _ hplace' hholds' hstart' =>
          rw [hplace, Option.some.injEq] at hplace'
          subst hplace'
          have hq := hholds.unique hholds'
          simp_all
      | fromGun _ _ _ hnone => exact absurd hholds (hnone _ _ hplace)
  | fromGun hsplit hread hkind hnone =>
      cases h' with
      | atStart hsplit' _ hkind' => simp_all
      | fromStart _ _ _ hplace hholds _ => exact absurd hholds (hnone _ _ hplace)
      | fromGun _ hread' _ _ => simp_all

/-- There is no second reading of a slot. -/
theorem passageIn_unique {x y : Passage} (hx : r.PassageIn within i x)
    (hy : r.PassageIn within i y) : x = y := by
  cases hx with
  | crossed hholds htimed =>
      cases hy with
      | crossed hholds' htimed' =>
          have hq := hholds.unique hholds'
          subst hq
          rw [htimed.unique htimed']
      | notCrossed hnone => exact absurd hholds (hnone _)
  | notCrossed hnone =>
      cases hy with
      | crossed hholds _ => exact absurd hholds (hnone _)
      | notCrossed _ => rfl

end Run

end ChipTiming.Matching
