/-
What holds at every moment of a run.

`Reached r m p` is the invariant of the walk: before the moment `m` every slot
shows the detection that it holds by then, the list of crossings agrees with the
slots, and the status is the one that goes with them.  After the finish no further
moment counts, so the same invariant covers the rest of the walk, in which nothing
is taken any more.

The step has two halves.  If the detection is not taken, then no slot comes to
hold another one (`Reached.next_of_not_takes`); the reason may be that the moment
is not eligible, that the race is over, or that the slot keeps its first
detection.  If it is taken, then the slot at the place holds it from now on and
nothing else changes (`Reached.next_of_takes`).  Both rest on
`Reached.isEligible_iff`: what the walk reads off the crossings so far is what
`Eligible` says without them.  That is where links have to lead to earlier places,
and identifiers have to be distinct.
-/
import ChipTiming.Proofs.Matching.Reading

namespace ChipTiming.Matching

/-- Every link from a lap to the one before leads to an earlier place, if it leads to
a split of the list at all. -/
def LapsLeadBack (splits : List Split) : Prop :=
  ∀ i j : Fin splits.length, splits[i].previousLap = some splits[j].id → j < i

instance (splits : List Split) : Decidable (LapsLeadBack splits) :=
  inferInstanceAs (Decidable (∀ i j : Fin splits.length,
    splits[i].previousLap = some splits[j].id → j < i))

theorem LapsLeadBack.lt {splits : List Split} (h : LapsLeadBack splits) {i j : ℕ}
    {split before : Split} (hsplit : splits[i]? = some split) (hbefore : splits[j]? = some before)
    (hlink : split.previousLap = some before.id) : j < i := by
  obtain ⟨hi, rfl⟩ := List.getElem?_eq_some_iff.mp hsplit
  obtain ⟨hj, rfl⟩ := List.getElem?_eq_some_iff.mp hbefore
  exact h ⟨i, hi⟩ ⟨j, hj⟩ hlink

namespace Run

/-- The moments before one, as far as the race lasts. -/
def seen (r : Run) (m : Moment) : Set Moment := {x | x < m ∧ x ∈ r.inTime}

variable {r : Run} {i p k q : ℕ} {split : Split} {d : Detection}

theorem isLowerSet_seen (r : Run) (m : Moment) : IsLowerSet (r.seen m) :=
  fun _ _ hle hx => ⟨lt_of_le_of_lt hle hx.1, r.isLowerSet_inTime hle hx.2⟩

theorem seen_eq_Iio {m : Moment} (hm : m ∈ r.inTime) : r.seen m = Set.Iio m := by
  ext x
  exact ⟨fun hx => hx.1, fun hx => ⟨hx, r.isLowerSet_inTime (le_of_lt hx) hm⟩⟩

/-- Going on by one split adds one moment, unless the race is over. -/
theorem mem_seen_next :
    toLex (q, k) ∈ r.seen (toLex (p, i + 1)) ↔
      toLex (q, k) ∈ r.seen (toLex (p, i)) ∨ (q = p ∧ k = i ∧ toLex (p, i) ∈ r.inTime) := by
  have horder : toLex (q, k) < toLex (p, i + 1) ↔
      toLex (q, k) < toLex (p, i) ∨ (q = p ∧ k = i) := by
    simp only [Prod.Lex.toLex_lt_toLex]
    omega
  refine ⟨?_, ?_⟩
  · intro hnext
    obtain ⟨hlt, hin⟩ := hnext
    rcases horder.mp hlt with hlt | ⟨rfl, rfl⟩
    · exact Or.inl ⟨hlt, hin⟩
    · exact Or.inr ⟨rfl, rfl, hin⟩
  · intro hnext
    rcases hnext with ⟨hlt, hin⟩ | ⟨rfl, rfl, hin⟩
    · exact ⟨horder.mpr (Or.inl hlt), hin⟩
    · exact ⟨horder.mpr (Or.inr ⟨rfl, rfl⟩), hin⟩

/-! ### How the slots change from one moment to the next -/

/-- A slot can only come to hold the detection of its own moment. -/
theorem holds_next_iff (h : k = i → r.Eligible i p → toLex (p, i) ∉ r.inTime) :
    r.Holds (r.seen (toLex (p, i + 1))) k q ↔ r.Holds (r.seen (toLex (p, i))) k q := by
  refine holds_congr fun x hx => ?_
  rw [mem_seen_next]
  refine or_iff_left ?_
  intro hnext
  obtain ⟨rfl, rfl, hin⟩ := hnext
  exact h rfl hx hin

/-- A slot other than a start's keeps its first detection. -/
theorem holds_next_iff_of_holds {x : ℕ} (hsplit : r.splits[i]? = some split)
    (hkind : split.isStart = false) (hx : r.Holds (r.seen (toLex (p, i))) i x) :
    r.Holds (r.seen (toLex (p, i + 1))) i q ↔ r.Holds (r.seen (toLex (p, i))) i q := by
  have hnext : ∀ y, r.Holds (r.seen (toLex (p, i))) i y →
      r.Holds (r.seen (toLex (p, i + 1))) i y := by
    intro y hy
    obtain ⟨split', hsplit', hkeeps⟩ := hy
    rw [hsplit, Option.some.injEq] at hsplit'
    subst hsplit'
    simp only [Keeps, hkind, Bool.false_eq_true, if_false] at hkeeps
    refine ⟨split, hsplit, ?_⟩
    simp only [Keeps, hkind, Bool.false_eq_true, if_false]
    exact ⟨hkeeps.1, mem_seen_next.mpr (Or.inl hkeeps.2)⟩
  refine ⟨?_, ?_⟩
  · intro hq
    rw [hq.unique (hnext x hx)]
    exact hx
  · exact hnext q

/-- A slot that is open comes to hold the detection of an eligible moment. -/
theorem holds_next_self (hsplit : r.splits[i]? = some split) (h : r.Eligible i p)
    (hin : toLex (p, i) ∈ r.inTime)
    (hopen : split.isStart = true ∨ ∀ q, ¬r.Holds (r.seen (toLex (p, i))) i q) :
    r.Holds (r.seen (toLex (p, i + 1))) i p := by
  have hmem : toLex (p, i) ∈ r.seen (toLex (p, i + 1)) :=
    mem_seen_next.mpr (Or.inr ⟨rfl, rfl, hin⟩)
  refine ⟨split, hsplit, ?_⟩
  unfold Keeps
  split
  · refine ⟨⟨h, hmem⟩, ?_⟩
    intro q hseen
    obtain ⟨-, hq⟩ := hseen
    have hlt := hq.1
    rw [Prod.Lex.toLex_lt_toLex] at hlt
    show q ≤ p
    simp only at hlt
    omega
  · rename_i hkind
    refine ⟨⟨h, ?_⟩, hmem⟩
    intro q hq
    by_contra hlt
    have hseen : toLex (q, i) ∈ r.seen (toLex (p, i)) := by
      have hless : toLex (q, i) < toLex (p, i) := by
        rw [Prod.Lex.toLex_lt_toLex]
        exact Or.inl (Nat.lt_of_not_le hlt)
      exact ⟨hless, r.isLowerSet_inTime (le_of_lt hless) hin⟩
    obtain ⟨y, hy⟩ := exists_holds (r.isLowerSet_seen _) hq hseen
    rcases hopen with hstart | hnone
    · exact hkind hstart
    · exact hnone y hy

/-! ### The invariant -/

/-- The progress is what the moments before one amount to. -/
structure Reached (r : Run) (m : Moment) (x : Progress) : Prop where
  length : x.passages.length = r.splits.length
  passage : ∀ {k : ℕ} {y : Passage}, x.passages[k]? = some y → r.PassageIn (r.seen m) k y
  /-- The list of crossings tells of a split what its slot tells. -/
  crossing : ∀ {k : ℕ} {y : Passage} {split : Split}, x.passages[k]? = some y →
    r.splits[k]? = some split → x.crossing? split.id = y.timing?.map (·.time)
  /-- It tells nothing of splits that are not on the course. -/
  known : ∀ {id : SplitId} {t : Instant}, x.crossing? id = some t →
    ∃ split ∈ r.splits, split.id = id
  status : r.StatusIn (r.seen m) x.status

variable {x : Progress} {m : Moment}

theorem PassageIn.congr {within within' : Set Moment} {y : Passage}
    (hholds : ∀ q, r.Holds within' k q ↔ r.Holds within k q) (h : r.PassageIn within k y) :
    r.PassageIn within' k y := by
  cases h with
  | crossed hq htimed => exact .crossed ((hholds _).mpr hq) htimed
  | notCrossed hnone => exact .notCrossed fun q hq => hnone q ((hholds q).mp hq)

theorem StatusIn.congr {within within' : Set Moment} {status : Status}
    (hholds : ∀ k q, r.Holds within' k q ↔ r.Holds within k q)
    (hfinish : ∀ f, IsLeast r.finishes f → (f ∈ within' ↔ f ∈ within))
    (h : r.StatusIn within status) : r.StatusIn within' status := by
  cases h with
  | finished hf hmem => exact .finished hf ((hfinish _ hf).mpr hmem)
  | running hnone hq =>
      exact .running (fun f hf hmem => hnone f hf ((hfinish f hf).mp hmem)) ((hholds _ _).mpr hq)
  | notYetStarted hnone => exact .notYetStarted fun k q hq => hnone k q ((hholds k q).mp hq)

/-- The invariant passes to another moment before which the same happens. -/
theorem Reached.congr {m' : Moment} (h : r.Reached m x)
    (hholds : ∀ k q, r.Holds (r.seen m') k q ↔ r.Holds (r.seen m) k q)
    (hfinish : ∀ f, IsLeast r.finishes f → (f ∈ r.seen m' ↔ f ∈ r.seen m)) :
    r.Reached m' x where
  length := h.length
  passage hy := (h.passage hy).congr (hholds _)
  crossing := h.crossing
  known := h.known
  status := h.status.congr hholds hfinish

theorem Reached.exists_passage (h : r.Reached m x) (hsplit : r.splits[k]? = some split) :
    ∃ y, x.passages[k]? = some y := by
  have hk : k < x.passages.length := by
    rw [h.length]
    exact (List.getElem?_eq_some_iff.mp hsplit).1
  exact ⟨_, List.getElem?_eq_getElem hk⟩

theorem Reached.inStep (h : r.Reached m x) : x.InStep r.splits where
  length := h.length
  crossing hsplit := by
    obtain ⟨y, hy⟩ := h.exists_passage hsplit
    rw [h.crossing hy hsplit, Progress.timingAt?, hy, Option.bind_some]
  known := h.known

/-- The time of a crossing is that of the detection that the slot holds. -/
theorem PassageIn.holds_of_time {y : Passage} {within : Set Moment} {t : Instant}
    (h : r.PassageIn within k y) (ht : y.timing?.map (·.time) = some t) :
    ∃ q d, r.Holds within k q ∧ r.reads[q]? = some d ∧ d.time = t := by
  cases h with
  | crossed hq htimed =>
      obtain ⟨d, hread⟩ := hq.eligible.exists_read
      refine ⟨_, d, hq, hread, ?_⟩
      rw [← htimed.time_eq hread]
      simpa [Passage.timing?] using ht
  | notCrossed _ => simp [Passage.timing?] at ht

/-- A slot that holds a detection shows its time. -/
theorem PassageIn.time_of_holds {y : Passage} {within : Set Moment}
    (h : r.PassageIn within k y) (hq : r.Holds within k q) (hread : r.reads[q]? = some d) :
    y.timing?.map (·.time) = some d.time := by
  cases h with
  | crossed hq' htimed =>
      have heq := hq.unique hq'
      subst heq
      simp [Passage.timing?, htimed.time_eq hread]
  | notCrossed hnone => exact absurd hq (hnone q)

theorem PassageIn.isVisited_iff {y : Passage} {within : Set Moment}
    (h : r.PassageIn within k y) : y.isVisited = true ↔ ∃ q, r.Holds within k q := by
  cases h with
  | crossed hq _ => simpa [Passage.isVisited, Passage.timing?] using ⟨_, hq⟩
  | notCrossed hnone => simpa [Passage.isVisited, Passage.timing?] using hnone

theorem StatusIn.finished_iff {within : Set Moment} {status : Status}
    (hlower : IsLowerSet within) (h : r.StatusIn within status) :
    status = .finished ↔ ∃ f, IsLeast r.finishes f ∧ f ∈ within := by
  cases h with
  | finished hf hmem => exact ⟨fun _ => ⟨_, hf, hmem⟩, fun _ => rfl⟩
  | running hnone _ => simpa using hnone
  | notYetStarted hnone =>
      refine ⟨fun h => by simp at h, ?_⟩
      intro hfinish
      obtain ⟨f, hf, hmem⟩ := hfinish
      obtain ⟨-, -, -, heligible⟩ := hf.1
      obtain ⟨q, hq⟩ := exists_holds hlower heligible hmem
      exact absurd hq (hnone _ q)

/-- The race is over once the walk says so. -/
theorem Reached.mem_inTime_iff (h : r.Reached m x) : m ∈ r.inTime ↔ x.status ≠ .finished := by
  rw [Ne, h.status.finished_iff (r.isLowerSet_seen m)]
  refine ⟨?_, ?_⟩
  · intro hm hover
    obtain ⟨f, hf, hlt, -⟩ := hover
    exact absurd (hm f hf) (not_le_of_gt hlt)
  · intro hnone f hf
    by_contra hlt
    exact hnone ⟨f, hf, lt_of_not_ge hlt, fun g hg => hf.2 hg.1⟩

theorem reached_initial (r : Run) :
    r.Reached (toLex (0, 0)) (.initial r.splits.length) := by
  have hempty : ∀ k q, ¬r.Holds (r.seen (toLex (0, 0))) k q := by
    intro k q hq
    have hlt := hq.mem.1
    rw [Prod.Lex.toLex_lt_toLex] at hlt
    simp only at hlt
    omega
  have hstep := Progress.inStep_initial r.splits
  refine ⟨hstep.length, ?_, ?_, ?_, .notYetStarted hempty⟩
  · intro k y hy
    obtain ⟨-, rfl⟩ : k < r.splits.length ∧ Passage.notVisited = y := by
      simpa [Progress.initial, List.getElem?_replicate] using hy
    exact .notCrossed (hempty k)
  · intro k y split hy hsplit
    rw [hstep.crossing hsplit, Progress.timingAt?, hy, Option.bind_some]
  · exact hstep.known

/-- After the last split comes the first split of the next detection. -/
theorem Reached.next_read (h : r.Reached (toLex (p, r.splits.length)) x) :
    r.Reached (toLex (p + 1, 0)) x := by
  have hmem : ∀ k q, r.Eligible k q → (toLex (q, k) ∈ r.seen (toLex (p + 1, 0)) ↔
      toLex (q, k) ∈ r.seen (toLex (p, r.splits.length))) := by
    intro k q hq
    obtain ⟨split, hsplit⟩ := hq.exists_split
    have hk : k < r.splits.length := (List.getElem?_eq_some_iff.mp hsplit).1
    refine and_congr_left fun _ => ?_
    simp only [Prod.Lex.toLex_lt_toLex]
    omega
  refine h.congr (fun k q => holds_congr (hmem k)) fun f hf => ?_
  obtain ⟨-, -, -, heligible⟩ := hf.1
  exact hmem _ _ heligible

/-! ### What the walk reads off its progress -/

/-- Up to the race's end, a slot at an earlier place holds what it keeps up to the
detection at hand. -/
theorem holds_seen_iff_keeps {j : ℕ} {before : Split} (hin : toLex (p, i) ∈ r.inTime)
    (hj : j < i) (hbefore : r.splits[j]? = some before) :
    r.Holds (r.seen (toLex (p, i))) j q ↔
      Keeps before.isStart {q | r.Eligible j q} (Set.Iic p) q := by
  have hkeeps : r.Holds (r.seen (toLex (p, i))) j q ↔
      Keeps before.isStart {q | r.Eligible j q} {q | toLex (q, j) ∈ r.seen (toLex (p, i))} q := by
    refine ⟨?_, fun hq => ⟨before, hbefore, hq⟩⟩
    intro hholds
    obtain ⟨before', hbefore', hq⟩ := hholds
    rw [hbefore, Option.some.injEq] at hbefore'
    rwa [hbefore']
  rw [hkeeps, seen_eq_Iio hin]
  refine Keeps.congr fun y _ => ?_
  show toLex (y, j) < toLex (p, i) ↔ y ≤ p
  rw [Prod.Lex.toLex_lt_toLex]
  simp only
  omega

/-- A split would take a detection according to the crossings so far just if it would
according to the detections. -/
theorem Reached.isEligible_iff (h : r.Reached (toLex (p, i)) x) (hlinks : LapsLeadBack r.splits)
    (hin : toLex (p, i) ∈ r.inTime) (hsplit : r.splits[i]? = some split)
    (hread : r.reads[p]? = some d) :
    isEligible r.setting x split d = true ↔ r.Eligible i p := by
  rw [Matching.isEligible_iff, eligible_iff hsplit hread, ← and_assoc]
  refine and_congr_right fun _ => forall_congr' fun previous => forall_congr' fun hlink => ?_
  refine ⟨?_, ?_⟩
  · intro htold
    obtain ⟨t, lap, hcrossing, helapsed, hlap⟩ := htold
    obtain ⟨before, hmem, rfl⟩ := h.known hcrossing
    obtain ⟨j, hbefore⟩ := List.mem_iff_getElem?.mp hmem
    have hj : j < i := hlinks.lt hsplit hbefore hlink
    obtain ⟨y, hy⟩ := h.exists_passage hbefore
    rw [h.crossing hy hbefore] at hcrossing
    obtain ⟨q, opened, hq, hopened, rfl⟩ := (h.passage hy).holds_of_time hcrossing
    exact ⟨j, hj, before, q, opened, lap, hbefore, rfl,
      (holds_seen_iff_keeps hin hj hbefore).mp hq, hopened, helapsed, hlap⟩
  · intro heligible
    obtain ⟨j, hj, before, q, opened, lap, hbefore, rfl, hkeeps, hopened, helapsed, hlap⟩ :=
      heligible
    obtain ⟨y, hy⟩ := h.exists_passage hbefore
    have hq := (holds_seen_iff_keeps hin hj hbefore).mpr hkeeps
    refine ⟨opened.time, lap, ?_, helapsed, hlap⟩
    rw [h.crossing hy hbefore, (h.passage hy).time_of_holds hq hopened]

/-- A slot is open if it is a start's, or holds nothing yet. -/
theorem Reached.isOpen_iff (h : r.Reached m x) (hsplit : r.splits[i]? = some split) :
    isOpen x i split = true ↔
      split.isStart = true ∨ ∀ q, ¬r.Holds (r.seen m) i q := by
  obtain ⟨y, hy⟩ := h.exists_passage hsplit
  unfold isOpen
  rw [hy, Bool.or_eq_true, Option.any_some, Bool.not_eq_true', ← Bool.not_eq_true,
    (h.passage hy).isVisited_iff, not_exists]

/-- The timing that is written is the timing of the moment. -/
theorem Reached.timed (h : r.Reached (toLex (p, i)) x) (hin : toLex (p, i) ∈ r.inTime)
    (hsplit : r.splits[i]? = some split) (hread : r.reads[p]? = some d) :
    r.Timed i p (timing r.setting x split d) := by
  unfold timing
  cases hkind : split.isStart with
  | true => exact .atStart hsplit hread hkind
  | false =>
      simp only [Bool.false_eq_true, if_false]
      cases hplace : r.setting.startPlace with
      | none => exact .fromGun hsplit hread hkind fun k q hk => by simp [hplace] at hk
      | some k =>
          rw [Option.bind_some]
          have hnone : (∀ q, ¬r.Holds (r.seen (toLex (p, i))) k q) → ∀ k' q,
              r.setting.startPlace = some k' → ¬r.Holds (Set.Iio (toLex (p, i))) k' q := by
            intro hall k' q hk' hq
            rw [hplace, Option.some.injEq] at hk'
            subst hk'
            rw [← seen_eq_Iio hin] at hq
            exact hall q hq
          cases hy : x.passages[k]? with
          | none =>
              refine .fromGun hsplit hread hkind (hnone fun q hq => ?_)
              obtain ⟨start, hstart⟩ := hq.eligible.exists_split
              obtain ⟨y, hy'⟩ := h.exists_passage hstart
              simp [hy] at hy'
          | some y =>
              cases h.passage hy with
              | notCrossed hall => exact .fromGun hsplit hread hkind (hnone hall)
              | @crossed q t hq htimed =>
                  obtain ⟨start, hstart⟩ := hq.eligible.exists_read
                  rw [seen_eq_Iio hin] at hq
                  simp only [Option.bind_some, Passage.timing?]
                  rw [htimed.time_eq hstart]
                  exact .fromStart hsplit hread hkind hplace hq hstart

/-! ### One offer -/

theorem Reached.takes_iff (h : r.Reached (toLex (p, i)) x) (hlinks : LapsLeadBack r.splits)
    (hsplit : r.splits[i]? = some split) (hread : r.reads[p]? = some d) :
    Takes r.setting d x split i ↔ toLex (p, i) ∈ r.inTime ∧ r.Eligible i p ∧
      (split.isStart = true ∨ ∀ q, ¬r.Holds (r.seen (toLex (p, i))) i q) := by
  unfold Takes
  rw [← h.mem_inTime_iff, h.isOpen_iff hsplit]
  refine and_congr_right fun hin => and_congr_left fun _ => ?_
  exact h.isEligible_iff hlinks hin hsplit hread

/-- An eligible finish before the race is over is the first one. -/
theorem isLeast_of_mem_inTime (hfinish : m ∈ r.finishes) (hin : m ∈ r.inTime) :
    IsLeast r.finishes m := by
  refine ⟨hfinish, fun g hg => ?_⟩
  obtain ⟨f, hf, hle⟩ := exists_isLeast_finishes hg
  exact le_trans (hin f hf) hle

theorem Reached.next_of_not_takes (h : r.Reached (toLex (p, i)) x)
    (hlinks : LapsLeadBack r.splits) (hsplit : r.splits[i]? = some split)
    (hread : r.reads[p]? = some d) (hno : ¬Takes r.setting d x split i) :
    r.Reached (toLex (p, i + 1)) x := by
  rw [h.takes_iff hlinks hsplit hread] at hno
  -- An eligible detection that comes in time is refused only by a slot that holds one.
  have hkept : r.Eligible i p → toLex (p, i) ∈ r.inTime →
      split.isStart = false ∧ ∃ y, r.Holds (r.seen (toLex (p, i))) i y := by
    intro heligible hin
    obtain ⟨hkind, hheld⟩ := not_or.mp fun hopen => hno ⟨hin, heligible, hopen⟩
    obtain ⟨y, hy⟩ := not_forall.mp hheld
    exact ⟨by simpa using hkind, y, not_not.mp hy⟩
  refine h.congr (fun k q => ?_) fun f hf => ?_
  · by_cases hcase : k = i ∧ r.Eligible i p ∧ toLex (p, i) ∈ r.inTime
    · obtain ⟨rfl, heligible, hin⟩ := hcase
      obtain ⟨hkind, y, hy⟩ := hkept heligible hin
      exact holds_next_iff_of_holds hsplit hkind hy
    · exact holds_next_iff fun hk heligible hin => hcase ⟨hk, heligible, hin⟩
  · obtain ⟨⟨q, k⟩, rfl⟩ := toLex.surjective f
    rw [mem_seen_next]
    refine or_iff_left ?_
    intro hnext
    obtain ⟨rfl, rfl, hin⟩ := hnext
    -- The detection that the slot holds would be an earlier finish.
    obtain ⟨finish, hfinish, hkind, heligible⟩ := hf.1
    obtain ⟨-, y, hy⟩ := hkept heligible hin
    have hle := hf.2 (show toLex (y, k) ∈ r.finishes from ⟨finish, hfinish, hkind, hy.eligible⟩)
    exact absurd hy.mem.1 (not_lt_of_ge hle)

theorem Reached.next_of_takes (h : r.Reached (toLex (p, i)) x)
    (hids : (r.splits.map Split.id).Nodup) (hlinks : LapsLeadBack r.splits)
    (hsplit : r.splits[i]? = some split) (hread : r.reads[p]? = some d)
    (htakes : Takes r.setting d x split i) :
    r.Reached (toLex (p, i + 1)) (taken r.setting d x split i) := by
  obtain ⟨hin, heligible, hopen⟩ := (h.takes_iff hlinks hsplit hread).mp htakes
  have hself := holds_next_self hsplit heligible hin hopen
  have hi : i < x.passages.length := by
    rw [h.length]
    exact (List.getElem?_eq_some_iff.mp hsplit).1
  have hstep : (taken r.setting d x split i).InStep r.splits := h.inStep.taken hids hsplit
  constructor
  case length => exact hstep.length
  case passage =>
    intro k y hy
    by_cases hk : i = k
    · subst hk
      obtain rfl : .detected (timing r.setting x split d) = y := by simpa [taken, hi] using hy
      exact .crossed hself (h.timed hin hsplit hread)
    · have hold : x.passages[k]? = some y := by simpa [taken, hk] using hy
      exact (h.passage hold).congr fun q => holds_next_iff fun hki => absurd hki.symm hk
  case crossing =>
    intro k y split' hy hsplit'
    rw [hstep.crossing hsplit', Progress.timingAt?, hy, Option.bind_some]
  case known => exact hstep.known
  case status =>
    show r.StatusIn _ (if split.isFinish then .finished else .running)
    cases hkind : split.isFinish with
    | true =>
        have hfirst : IsLeast r.finishes (toLex (p, i)) :=
          isLeast_of_mem_inTime ⟨split, hsplit, hkind, heligible⟩ hin
        exact .finished hfirst (mem_seen_next.mpr (Or.inr ⟨rfl, rfl, hin⟩))
    | false =>
        refine .running (fun f hf hmem => ?_) hself
        obtain ⟨⟨q, k⟩, rfl⟩ := toLex.surjective f
        rcases mem_seen_next.mp hmem with hmem | ⟨rfl, rfl, -⟩
        · exact absurd (hin _ hf) (not_le_of_gt hmem.1)
        · obtain ⟨finish, hfinish, hfinishKind, -⟩ := hf.1
          have heq : finish = split := by simpa [hsplit] using hfinish.symm
          rw [heq, hkind] at hfinishKind
          exact Bool.noConfusion hfinishKind

/-! ### The whole run -/

theorem reached_progress (r : Run) (hids : (r.splits.map Split.id).Nodup)
    (hlinks : LapsLeadBack r.splits) :
    r.Reached (toLex (r.reads.length, 0)) r.progress := by
  refine r.induction (motive := fun p i x => r.Reached (toLex (p, i)) x) r.reached_initial ?_ ?_
  · intro p i x d split hread hsplit hx
    by_cases htakes : Takes r.setting d x split i
    · rw [offer_of_takes htakes]
      exact hx.next_of_takes hids hlinks hsplit hread htakes
    · rw [offer_of_not_takes htakes]
      exact hx.next_of_not_takes hlinks hsplit hread htakes
  · intro p x _ hx
    exact hx.next_read

/-- The last moment comes after everything that is eligible. -/
theorem mem_seen_end_iff (h : r.Eligible k q) :
    toLex (q, k) ∈ r.seen (toLex (r.reads.length, 0)) ↔ toLex (q, k) ∈ r.inTime := by
  refine and_iff_right ?_
  rw [Prod.Lex.toLex_lt_toLex]
  exact Or.inl h.lt_length

theorem passageIn_progress (hids : (r.splits.map Split.id).Nodup)
    (hlinks : LapsLeadBack r.splits) {y : Passage} (hy : r.progress.passages[k]? = some y) :
    r.PassageIn r.inTime k y :=
  ((r.reached_progress hids hlinks).passage hy).congr fun _ =>
    (holds_congr fun _ h => mem_seen_end_iff h).symm

theorem statusIn_progress (hids : (r.splits.map Split.id).Nodup)
    (hlinks : LapsLeadBack r.splits) : r.StatusIn r.inTime r.progress.status := by
  refine (r.reached_progress hids hlinks).status.congr
    (fun _ _ => (holds_congr fun _ h => mem_seen_end_iff h).symm) fun f hf => ?_
  obtain ⟨-, -, -, heligible⟩ := hf.1
  exact (mem_seen_end_iff heligible).symm

end Run

end ChipTiming.Matching
