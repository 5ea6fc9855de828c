/-
An event is a grid of athletes and splits.

The results of an event have one row for each athlete that is scored and each
split of the course, athlete by athlete.  What stands in a row is told by the
history of the store alone: the entry made last by hand for that athlete and
split, or else the slot that matching gives (`IsGrid`).  Places are then given to
the whole grid at once, and nothing else is touched by it.

What a store has filed is the last entry for each athlete and split
(`Store.Remembers`), so that it does not matter that an entry is looked for as the
first that fits (`Store.Remembers.override?_eq`).
-/
import ChipTiming.Proofs.Catalog.Courses
import ChipTiming.Proofs.Cycle.Keys
import ChipTiming.Proofs.Store.History

namespace ChipTiming

open Store (lastMade?)

/-! ### Grids -/

section

variable {α β : Type} {f : α → List β} {n : Nat}

/-- Where all parts are of one length, an element is found by its part and its place
in it. -/
theorem getElem?_flatMap_of_length {xs : List α} (h : ∀ x ∈ xs, (f x).length = n) {i j : Nat}
    (hj : j < n) {x : α} (hx : xs[i]? = some x) : (xs.flatMap f)[i * n + j]? = (f x)[j]? := by
  induction xs generalizing i with
  | nil => cases hx
  | cons y ys ih =>
      have hy : (f y).length = n := h y (List.mem_cons_self ..)
      rw [List.flatMap_cons]
      cases i with
      | zero =>
          rw [List.getElem?_cons_zero, Option.some.injEq] at hx
          subst hx
          rw [Nat.zero_mul, Nat.zero_add, List.getElem?_append_left (by omega)]
      | succ i =>
          have hplace : (i + 1) * n + j = n + (i * n + j) := by rw [Nat.succ_mul]; omega
          rw [List.getElem?_cons_succ] at hx
          rw [hplace, List.getElem?_append_right (by omega), hy, Nat.add_sub_cancel_left]
          exact ih (fun z hz => h z (List.mem_cons_of_mem _ hz)) hx

theorem length_flatMap_of_length {xs : List α} (h : ∀ x ∈ xs, (f x).length = n) :
    (xs.flatMap f).length = xs.length * n := by
  rw [List.length_flatMap, List.map_congr_left h, List.map_const', List.sum_replicate_nat]

theorem getElem?_product {xs : List α} {ys : List β} {i j : Nat} {x : α} {y : β}
    (hx : xs[i]? = some x) (hy : ys[j]? = some y) :
    (xs ×ˢ ys)[i * ys.length + j]? = some (x, y) := by
  have hj : j < ys.length := (List.getElem?_eq_some_iff.mp hy).1
  show (xs.flatMap fun a => ys.map (Prod.mk a))[i * ys.length + j]? = _
  rw [getElem?_flatMap_of_length (fun a _ => List.length_map _) hj hx, List.getElem?_map, hy,
    Option.map_some]

theorem total_countP (p : α → β → Bool) (xs : List α) (ys : List β) :
    total (fun x => ys.countP (p x)) xs = (xs ×ˢ ys).countP fun cell => p cell.1 cell.2 := by
  induction xs with
  | nil => rfl
  | cons x xs ih =>
      rw [List.product_cons, List.countP_append, List.countP_map, ← ih]
      rfl

end

/-- The rows of an event before they are ranked, athlete by athlete: at each split of
the course the entry made for it, or else what matching gives. -/
structure IsGrid (made? : AthleteId → SplitId → Option Slot) (ceiling : Duration)
    (course : List Split) (traces : List Trace) (rows : List Slot) : Prop where
  length : rows.length = traces.length * course.length
  row : ∀ {i j : Nat} {trace : Trace} {split : Split},
    traces[i]? = some trace → course[j]? = some split →
      ∃ slot, (matchTrace ceiling trace course (course.find? (·.isStart))).slots[j]? = some slot ∧
        rows[i * course.length + j]? = some ((made? trace.athlete split.id).getD slot)

/-- The results of an event are a grid, with places given to it as a whole. -/
structure EventResults.IsRankedGrid (computed : EventResults)
    (made? : AthleteId → SplitId → Option Slot) (ceiling : Duration) (course : List Split)
    (traces : List Trace) : Prop where
  athletes : computed.athletes = traces.length
  length : computed.results.length = traces.length * course.length
  key : ∀ {i j : Nat} {trace : Trace} {split : Split},
    traces[i]? = some trace → course[j]? = some split →
      ∃ row, computed.results[i * course.length + j]? = some row ∧
        row.key = (trace.athlete, split.id)
  /-- No two rows are for one athlete and one split. -/
  keys : (computed.results.map Slot.key).Nodup
  /-- But for the places the rows are those of the grid. -/
  rows : ∃ rows, IsGrid made? ceiling course traces rows ∧ computed.results = assignRanks rows ∧
    computed.results.map Slot.unranked = rows.map Slot.unranked
  /-- How many of them were made by hand. -/
  overrides : computed.overrides =
    (traces ×ˢ course).countP fun cell => (made? cell.1.athlete cell.2.id).isSome

namespace Store

variable {s : Store} {registered : List Athlete} {entered : List Slot} {catalog : Catalog}
  {settings : Settings} {race : RaceId} {event : EventId} {trace : Trace}

/-! ### Entries that count -/

/-- All entries of an athlete count in the event of the athlete. -/
theorem entriesIn_of_mem_eventTraces (h : trace ∈ s.eventTraces race event) :
    s.entriesIn race event trace.athlete = s.entriesOf trace.athlete := by
  obtain ⟨a, ha, hid⟩ := exists_athlete_of_mem_eventTraces h
  have hcounts : ((s.athletesOf race event).map (·.id)).contains trace.athlete = true := by
    rw [List.contains_iff_mem, ← hid]
    exact List.mem_map_of_mem ha
  rw [entriesIn, entriesOf, lookup_eq_map_withKey?, overrides,
    withKey?_filter fun athlete => ((s.athletesOf race event).map (·.id)).contains athlete,
    if_pos hcounts]

/-- The first entry that fits a slot is the last one that was made for it. -/
theorem Remembers.override?_eq (h : s.Remembers registered entered) (athlete : AthleteId)
    (slot : Slot) :
    override? (s.entriesOf athlete) slot = lastMade? entered athlete slot.split :=
  h.entry athlete slot.split

theorem Remembers.slots_scoreIn (h : s.Remembers registered entered)
    (htrace : trace ∈ s.eventTraces race event) :
    (s.scoreIn catalog settings race event trace).slots =
      (matchTrace settings.ceiling trace (s.courseOf catalog race event)
        ((s.courseOf catalog race event).find? (·.isStart))).slots.map
          fun slot => (lastMade? entered trace.athlete slot.split).getD slot := by
  rw [scoreIn, scoreTrace_eq, entriesIn_of_mem_eventTraces htrace]
  exact List.map_congr_left fun slot _ => by rw [h.override?_eq]

theorem Remembers.overrides_scoreIn (h : s.Remembers registered entered)
    (htrace : trace ∈ s.eventTraces race event) :
    (s.scoreIn catalog settings race event trace).overrides =
      (s.courseOf catalog race event).countP
        fun split => (lastMade? entered trace.athlete split.id).isSome := by
  rw [scoreIn, scoreTrace_eq, entriesIn_of_mem_eventTraces htrace]
  generalize (s.courseOf catalog race event).find? (·.isStart) = start
  generalize s.courseOf catalog race event = course
  calc countOverrides (s.entriesOf trace.athlete)
        (matchTrace settings.ceiling trace course start).slots
      = (matchTrace settings.ceiling trace course start).slots.countP
          ((fun split => (lastMade? entered trace.athlete split).isSome) ∘ Slot.split) :=
        List.countP_congr fun slot _ => by rw [h.override?_eq]; rfl
    _ = ((matchTrace settings.ceiling trace course start).slots.map Slot.split).countP
          fun split => (lastMade? entered trace.athlete split).isSome := List.countP_map.symm
    _ = course.countP fun split => (lastMade? entered trace.athlete split.id).isSome := by
        rw [Matching.map_split_matchTrace, List.countP_map]
        rfl

/-! ### Rows of an event -/

theorem Remembers.isGrid (h : s.Remembers registered entered) (catalog : Catalog)
    (settings : Settings) (race : RaceId) (event : EventId) :
    IsGrid (lastMade? entered) settings.ceiling (s.courseOf catalog race event)
      (s.eventTraces race event)
      ((s.eventTraces race event).flatMap
        fun trace => (s.scoreIn catalog settings race event trace).slots) := by
  have hsplits : ∀ trace, (matchTrace settings.ceiling trace (s.courseOf catalog race event)
      ((s.courseOf catalog race event).find? (·.isStart))).slots.map Slot.split =
        (s.courseOf catalog race event).map Split.id :=
    fun trace => Matching.map_split_matchTrace ..
  have hlength : ∀ trace ∈ s.eventTraces race event,
      (s.scoreIn catalog settings race event trace).slots.length =
        (s.courseOf catalog race event).length := by
    intro trace htrace
    rw [h.slots_scoreIn htrace, List.length_map]
    simpa using congrArg List.length (hsplits trace)
  refine ⟨length_flatMap_of_length hlength, ?_⟩
  intro i j trace split htrace hsplit
  have hmem : trace ∈ s.eventTraces race event := List.mem_of_getElem? htrace
  have hj : j < (s.courseOf catalog race event).length := (List.getElem?_eq_some_iff.mp hsplit).1
  have hid := congrArg (·[j]?) (hsplits trace)
  simp only [List.getElem?_map, hsplit, Option.map_some] at hid
  obtain ⟨slot, hslot, hslotid⟩ := Option.map_eq_some_iff.mp hid
  refine ⟨slot, hslot, ?_⟩
  rw [getElem?_flatMap_of_length hlength hj htrace, h.slots_scoreIn hmem, List.getElem?_map, hslot,
    Option.map_some, hslotid]

theorem Remembers.overrides_score (h : s.Remembers registered entered) (catalog : Catalog)
    (settings : Settings) (race : RaceId) (event : EventId) :
    total (·.overrides)
        ((s.eventTraces race event).map (s.scoreIn catalog settings race event)) =
      (s.eventTraces race event ×ˢ s.courseOf catalog race event).countP
        fun cell => (lastMade? entered cell.1.athlete cell.2.id).isSome := by
  rw [← total_countP fun (trace : Trace) (split : Split) =>
    (lastMade? entered trace.athlete split.id).isSome]
  have hcounts : (s.eventTraces race event).map
      (fun trace => (s.scoreIn catalog settings race event trace).overrides) =
        (s.eventTraces race event).map fun trace => (s.courseOf catalog race event).countP
          fun split => (lastMade? entered trace.athlete split.id).isSome :=
    List.map_congr_left fun trace htrace => h.overrides_scoreIn htrace
  rw [total_map]
  have htotal := congrArg (total id) hcounts
  rwa [total_map, total_map] at htotal

theorem exists_row_score (hs : s.Filed) {i j : Nat} {split : Split}
    (htrace : (s.eventTraces race event)[i]? = some trace)
    (hsplit : (s.courseOf catalog race event)[j]? = some split) :
    ∃ row, (s.score catalog settings race event).results[
        i * (s.courseOf catalog race event).length + j]? = some row ∧
      row.key = (trace.athlete, split.id) := by
  have hathlete : ((s.eventTraces race event).map (·.athlete))[i]? = some trace.athlete := by
    rw [List.getElem?_map, htrace, Option.map_some]
  have hid : ((s.courseOf catalog race event).map (·.id))[j]? = some split.id := by
    rw [List.getElem?_map, hsplit, Option.map_some]
  have hcell := getElem?_product hathlete hid
  rw [← keys_score hs catalog settings race event, List.length_map, List.getElem?_map] at hcell
  exact Option.map_eq_some_iff.mp hcell

/-- What an event scores is a grid that was ranked as a whole. -/
theorem Remembers.isRankedGrid (h : s.Remembers registered entered) (hs : s.Reachable)
    (hcatalog : catalog.CoursesConfigured) (settings : Settings)
    (hne : s.courseOf catalog race event ≠ []) :
    (s.score catalog settings race event).IsRankedGrid (lastMade? entered) settings.ceiling
      (s.courseOf catalog race event) (s.eventTraces race event) := by
  have hgrid := h.isGrid catalog settings race event
  generalize hrows : (s.eventTraces race event).flatMap
    (fun trace => (s.scoreIn catalog settings race event trace).slots) = rows at hgrid
  have hscore : s.score catalog settings race event = .ofScored event
      ((s.eventTraces race event).map (s.scoreIn catalog settings race event)) := by
    rw [score_eq, if_neg (by simpa using hne)]
  have hresults : (s.score catalog settings race event).results = assignRanks rows := by
    rw [hscore, EventResults.ofScored, List.flatMap_map, hrows]
  have hunranked := map_unranked_assignRanks rows
  rw [← hresults] at hunranked
  refine ⟨?_, ?_, exists_row_score hs.filed, ?_, ⟨rows, hgrid, hresults, hunranked⟩, ?_⟩
  · rw [hscore]
    exact List.length_map _
  · have hlength := congrArg List.length hunranked
    rwa [List.length_map, List.length_map, hgrid.length] at hlength
  · exact nodup_keys_score hs.keyed hs.filed hcatalog settings race event
  · rw [hscore]
    exact h.overrides_score catalog settings race event

end Store

/--
**What an event scores is the grid of its athletes and the splits of its course, with
the entries made last in their places.**
-/
theorem computeEvent_isRankedGrid (steps : List Store.Step) (changes : List Catalog.Change)
    (settings : Settings) {race : RaceId} {event : EventId} {s : Store} {catalog : Catalog}
    {course : List Split} {traces : List Trace} (hs : steps.foldl Store.next .empty = s)
    (hcatalog : changes.foldl Catalog.after .empty = catalog)
    (hcourse : courseFor s.source catalog race event = .ok course) (hne : course ≠ [])
    (htraces : s.source.eventTraces race event = .ok traces) :
    ∃ computed, computeEvent s.source catalog settings race event = .ok computed ∧
      computed.IsRankedGrid (lastMade? (steps.filterMap Store.Step.entered?)) settings.ceiling
        course traces := by
  subst hs
  subst hcatalog
  rw [Store.courseFor_source] at hcourse
  cases hcourse
  cases htraces
  exact ⟨_, Store.computeEvent_source .., (Store.remembers_foldl_next steps).isRankedGrid
    (Store.Reachable.empty.foldl_next steps) (Catalog.coursesConfigured_foldl_empty changes)
    settings hne⟩

/-- A finish entered by hand for the second of two athletes, so many seconds after the
start. -/
def finishByHand (seconds : Nat) : Slot :=
  ⟨⟨2⟩, ⟨3⟩, ⟨1⟩, none, .unspecified,
    .manual ⟨early seconds, .ofSeconds seconds, .ofSeconds seconds⟩, .none, .none⟩

/-- Two athletes, one of them seen at the start; the finish of the other is entered,
scored and then corrected. -/
def correctedFinish : List Store.Step :=
  [.operate (.saveConfiguration Catalog.backToFront), .operate (.register (starter 1 "a")),
    .operate (.register { starter 1 "b" with id := ⟨2⟩ }), .operate (.record [startRead 1 "a"]),
    .operate (.enter (finishByHand 900)),
    .recompute .wholeRace Store.source (fun _ => .empty) .standard ⟨1⟩,
    .operate (.enter (finishByHand 800))]

theorem computeEvent_correctedFinish :
    ∃ s traces computed, correctedFinish.foldl Store.next .empty = s ∧
      courseFor s.source .empty ⟨1⟩ ⟨1⟩ = .ok Catalog.backToFront.splits.reverse ∧
      s.source.eventTraces ⟨1⟩ ⟨1⟩ = .ok traces ∧ traces.map (·.athlete) = [⟨1⟩, ⟨2⟩] ∧
      lastMade? (correctedFinish.filterMap Store.Step.entered?) ⟨2⟩ ⟨3⟩ =
        some (finishByHand 800) ∧
      computeEvent s.source .empty .standard ⟨1⟩ ⟨1⟩ = .ok computed ∧
      computed.IsRankedGrid (lastMade? (correctedFinish.filterMap Store.Step.entered?))
        Settings.standard.ceiling Catalog.backToFront.splits.reverse traces := by
  have hcourse : courseFor (correctedFinish.foldl Store.next .empty).source .empty ⟨1⟩ ⟨1⟩ =
      .ok Catalog.backToFront.splits.reverse := by cbv
  obtain ⟨computed, hcomputed, hgrid⟩ := computeEvent_isRankedGrid correctedFinish [] .standard
    rfl rfl hcourse (by decide) rfl
  exact ⟨_, _, computed, rfl, hcourse, rfl, by cbv, by cbv, hcomputed, hgrid⟩

end ChipTiming
