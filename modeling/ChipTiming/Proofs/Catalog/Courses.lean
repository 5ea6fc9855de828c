/-
The courses that a catalog hands out.

Matching takes a course as it comes: it looks for the start once, offers every
detection to the splits in their order and follows laps by identifier, and checks
none of it.  What it relies on is `IsCourse`.  Validation checks configurations,
and those as a whole; the course of an event is a part of one, put in order.  So
most of `IsCourse` is what the parts of a well-formed configuration inherit, and
the rest is what sorting gives (`Configuration.WellFormed.isCourse`).

A catalog does not check anything either, and it mixes the entities of all races,
which may even use identifiers of each other.  Its courses, though, are only ever
taken over from a configuration or dropped as a whole (`CoursesConfigured.after`),
so that each of them still is the course of one configuration
(`isCourse_of_course?_eq_some`).
-/
import ChipTiming.Proofs.Catalog.Answers
import ChipTiming.Proofs.StableSort

namespace ChipTiming

/-! ### The order along the course -/

namespace Binary64

theorem le_def {x y : Binary64} : x ≤ y ↔ x.rank ≤ y.rank := Iff.rfl

theorem le_trans {x y z : Binary64} (hxy : x ≤ y) (hyz : y ≤ z) : x ≤ z := by
  rw [le_def] at *
  omega

theorem le_total (x y : Binary64) : x ≤ y ∨ y ≤ x := by
  rw [le_def, le_def]
  omega

end Binary64

variable {splits course : List Split} {event : EventId}

/-- Sorting puts any distances in order, zeros of either sign and those that are not
numbers among them. -/
theorem pairwise_courseOrder (splits : List Split) :
    (courseOrder splits).Pairwise fun a b => a.distance ≤ b.distance :=
  pairwise_mergeSort_key Binary64.le_trans Binary64.le_total splits

/-- What is in order already is left as it is. -/
theorem courseOrder_of_pairwise
    (h : splits.Pairwise fun a b => a.distance ≤ b.distance) : courseOrder splits = splits :=
  List.mergeSort_of_pairwise (h.imp fun hab => by simpa using hab)

/-! ### Courses -/

/-- On a course, the second split closes the lap before the one that the first
closes. -/
def LapBeforeOn (course : List Split) (s t : Split) : Prop :=
  t ∈ course ∧ s.previousLap = some t.id

/-- What matching relies on in the course of an event. -/
structure IsCourse (event : EventId) (course : List Split) : Prop where
  nonempty : course ≠ []
  event_eq : ∀ s ∈ course, s.event = event
  ids : (course.map Split.id).Nodup
  sorted : course.Pairwise fun a b => a.distance ≤ b.distance
  /-- There is one start and no other. -/
  start : ∃ s, course.filter (·.isStart) = [s]
  window : ∀ s ∈ course, s.maxTime = .zero ∨ s.minTime ≤ s.maxTime
  /-- The lap before is closed by another split of the course. -/
  previousLap : ∀ s ∈ course, ∀ id, s.previousLap = some id → ∃ t ∈ course, t ≠ s ∧ t.id = id
  /-- Following laps back never returns to a split. -/
  acyclic : ∀ s, ¬Relation.TransGen (LapBeforeOn course) s s

namespace Configuration.WellFormed

variable {c : Configuration}

/-- An event that has splits has one start. -/
theorem exists_filter_course_eq (h : c.WellFormed) (hsplit : ∃ s ∈ c.splits, s.event = event) :
    ∃ s, (c.course event).filter (·.isStart) = [s] := by
  obtain ⟨s, hs, rfl⟩ := hsplit
  obtain ⟨e, he, heq⟩ := (h.splits s hs).event
  rcases h.starts e he with hnone | ⟨only, ⟨honly, hevent, hkind⟩, hunique⟩
  · exact absurd heq.symm (hnone s hs)
  refine ⟨only, List.perm_singleton.mp ?_⟩
  have hnodup : ((c.course s.event).filter (·.isStart)).Nodup :=
    (h.nodup_course s.event).of_map.filter _
  rw [List.perm_ext_iff_of_nodup hnodup (List.nodup_singleton only)]
  intro t
  rw [List.mem_filter, mem_course, isStart_iff, List.mem_singleton, and_assoc, ← heq]
  refine ⟨hunique t, ?_⟩
  rintro rfl
  exact ⟨honly, hevent, hkind⟩

/-- **The splits of an event, put in order, are a course.** -/
theorem isCourse (h : c.WellFormed) (hsplit : ∃ s ∈ c.splits, s.event = event) :
    IsCourse event (c.course event) where
  nonempty := course_ne_nil_iff.mpr hsplit
  event_eq s hs := (mem_course.mp hs).2
  ids := h.nodup_course event
  sorted := pairwise_courseOrder _
  start := h.exists_filter_course_eq hsplit
  window s hs := (h.splits s (mem_course.mp hs).1).window
  previousLap s hs id hid := by
    obtain ⟨hmem, hevent⟩ := mem_course.mp hs
    obtain ⟨hne, t, ht, htid, htevent⟩ := (h.splits s hmem).previousLap id hid
    refine ⟨t, mem_course.mpr ⟨ht, htevent.trans hevent⟩, ?_, htid⟩
    rintro rfl
    exact hne htid.symm
  acyclic s hcycle := by
    have hpath : Relation.TransGen c.LapBefore s s :=
      Relation.TransGen.mono (fun _ _ hlap => ⟨(mem_course.mp hlap.1).1, hlap.2⟩) s s hcycle
    -- The last link of a cycle leads to the split itself, which is therefore configured.
    obtain ⟨_, -, hlast⟩ := Relation.TransGen.tail'_iff.mp hpath
    exact (h.lapsEnd s hlast.1).not_transGen_self h.splitIds hlast.1 hpath

end Configuration.WellFormed

namespace Catalog

variable {c : Catalog}

theorem CoursesConfigured.foldl_after (h : c.CoursesConfigured) (changes : List Change) :
    (changes.foldl Catalog.after c).CoursesConfigured := by
  induction changes generalizing c with
  | nil => exact h
  | cons change changes ih => exact ih (h.after change)

theorem coursesConfigured_foldl_empty (changes : List Change) :
    (changes.foldl Catalog.after .empty).CoursesConfigured :=
  CoursesConfigured.foldl_after (fun _ hentry => absurd hentry List.not_mem_nil) changes

theorem CoursesConfigured.isCourse (h : c.CoursesConfigured)
    (hcourse : c.course? event = some course) : IsCourse event course := by
  obtain ⟨entry, hentry, rfl⟩ := Option.map_eq_some_iff.mp hcourse
  obtain ⟨hmem, rfl⟩ := mem_of_withKey? hentry
  obtain ⟨config, hvalid, hconfig⟩ := h entry hmem
  obtain ⟨hsplit, heq⟩ := mem_coursesOf.mp hconfig
  rw [heq]
  exact (Configuration.wellFormed hvalid).isCourse hsplit

theorem start?_of_filter_eq (hcourse : c.course? event = some course) {s : Split}
    (hstart : course.filter (·.isStart) = [s]) : c.start? event = some s := by
  rw [start?, hcourse, Option.bind_some, ← List.head?_filter, hstart]
  rfl

/--
**Every course that a catalog hands out is one that matching can rely on**, whatever
configurations were saved or refused and whatever races were removed before, and
whether or not they share identifiers; and the start looked up for the event is the
one of its course.
-/
theorem isCourse_of_course?_eq_some (changes : List Change)
    (hcourse : (changes.foldl Catalog.after .empty).course? event = some course) :
    IsCourse event course ∧
      ∃ s, course.filter (·.isStart) = [s] ∧
        (changes.foldl Catalog.after .empty).start? event = some s := by
  have his := (coursesConfigured_foldl_empty changes).isCourse hcourse
  obtain ⟨s, hs⟩ := his.start
  exact ⟨his, s, hs, start?_of_filter_eq hcourse hs⟩

/-- A race of one lap whose splits are configured from the finish back to the start.
The finish is at a distance that is not a number, the lap and the start are at the two
zeros. -/
def backToFront : Configuration :=
  let split (n : BitVec 128) (kind : SplitKind) (distance : UInt64) (previous : Option SplitId) :
      Split :=
    { id := ⟨n⟩, event := ⟨1⟩, name := "", kind, distance := ⟨distance⟩, reader := ⟨1⟩
      minTime := .zero, maxTime := .zero, minLapTime := .zero, previousLap := previous }
  { smallRace 1 1 with
    splits := [split 3 .finish 0x7FF8000000000000 (some ⟨2⟩), split 2 .standard 0 (some ⟨1⟩),
      split 1 .start 0x8000000000000000 none] }

/-- A race of its own, whose one split has the identifier of the start in
`backToFront`. -/
def sharingStart : Configuration :=
  { smallRace 2 2 with splits := (smallRace 2 2).splits.map ({ · with id := ⟨1⟩ }) }

/-- The two are saved, an attempt is made to save the first without a start, and the
second is removed. -/
def sharedChanges : List Change :=
  [.save backToFront, .save sharingStart,
    .save { backToFront with splits := backToFront.splits.take 2 }, .remove ⟨2⟩]

theorem isCourse_backToFront :
    (sharedChanges.foldl Catalog.after .empty).course? ⟨1⟩ = some backToFront.splits.reverse ∧
      IsCourse ⟨1⟩ backToFront.splits.reverse ∧
      ∃ s, backToFront.splits.reverse.filter (·.isStart) = [s] ∧
        (sharedChanges.foldl Catalog.after .empty).start? ⟨1⟩ = some s :=
  have hcourse : (sharedChanges.foldl Catalog.after .empty).course? ⟨1⟩ =
      some backToFront.splits.reverse := by cbv
  ⟨hcourse, isCourse_of_course?_eq_some sharedChanges hcourse⟩

end Catalog

end ChipTiming
