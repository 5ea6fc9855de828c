/-
What a cycle computes.

Computing asks a source and can fail only where the source does.  What it gives
for an event is either nothing, for an event without a course, or the scores of
the event's traces (`computeEvent_eq_ok`); in particular a change of status is
always that of an athlete with a trace (`Scope.exists_trace_of_mem_changes`).

A store answers every question, so over a store there is nothing to fail: what an
event scores is a plain function of the store (`Store.score`), and it reads no
more of it than the catalog, the reads, the entries made by hand and the event's
own athletes (`Store.score_congr`).  An athlete is in one event, so writing what
one event scored leaves what another scores as it was (`Store.score_written`).
-/
import ChipTiming.Proofs.Cycle.Commit
import ChipTiming.Proofs.Store.Reachable

namespace ChipTiming

/-! ### Computations that may fail -/

section

variable {ε α β γ : Type}

theorem bind_eq_ok_iff {x : Except ε α} {f : α → Except ε β} {y : β} :
    (x >>= f) = .ok y ↔ ∃ a, x = .ok a ∧ f a = .ok y := by
  cases x with
  | error failure =>
      refine ⟨?_, ?_⟩
      · intro h
        cases h
      · intro hbind
        obtain ⟨a, h, -⟩ := hbind
        cases h
  | ok a =>
      refine ⟨?_, ?_⟩
      · intro h
        exact ⟨a, rfl, h⟩
      · intro hbind
        obtain ⟨b, h, hf⟩ := hbind
        cases h
        exact hf

theorem mapM_cons_eq_ok_iff {f : α → Except ε β} {x : α} {xs : List α} {ys : List β} :
    (x :: xs).mapM f = .ok ys ↔
      ∃ y rest, f x = .ok y ∧ xs.mapM f = .ok rest ∧ ys = y :: rest := by
  simp only [List.mapM_cons, bind_eq_ok_iff]
  refine ⟨?_, ?_⟩
  · rintro ⟨y, hy, rest, hrest, hys⟩
    cases hys
    exact ⟨y, rest, hy, hrest, rfl⟩
  · rintro ⟨y, rest, hy, hrest, rfl⟩
    exact ⟨y, hy, rest, hrest, rfl⟩

theorem exists_of_mem_mapM {f : α → Except ε β} {xs : List α} {ys : List β}
    (h : xs.mapM f = .ok ys) {y : β} (hy : y ∈ ys) : ∃ x ∈ xs, f x = .ok y := by
  induction xs generalizing ys with
  | nil =>
      rw [List.mapM_nil] at h
      cases h
      exact absurd hy List.not_mem_nil
  | cons x xs ih =>
      obtain ⟨first, rest, hx, hxs, rfl⟩ := mapM_cons_eq_ok_iff.mp h
      rcases List.mem_cons.mp hy with rfl | hy
      · exact ⟨x, List.mem_cons_self .., hx⟩
      · obtain ⟨x', hx', hfx'⟩ := ih hxs hy
        exact ⟨x', List.mem_cons_of_mem _ hx', hfx'⟩

/-- What is computed of related elements is related. -/
theorem pairwise_of_mapM {f : α → Except ε β} {R : α → α → Prop} {S : β → β → Prop}
    {xs : List α} {ys : List β} (hf : ∀ a b x y, R a b → f a = .ok x → f b = .ok y → S x y)
    (h : xs.Pairwise R) (hys : xs.mapM f = .ok ys) : ys.Pairwise S := by
  induction xs generalizing ys with
  | nil =>
      rw [List.mapM_nil] at hys
      cases hys
      exact List.Pairwise.nil
  | cons a xs ih =>
      rw [List.pairwise_cons] at h
      obtain ⟨x, rest, hx, hrest, rfl⟩ := mapM_cons_eq_ok_iff.mp hys
      refine List.pairwise_cons.mpr ⟨fun y hy => ?_, ih h.2 hrest⟩
      obtain ⟨b, hb, hy⟩ := exists_of_mem_mapM hrest hy
      exact hf a b x y (h.1 b hb) hx hy

theorem mapM_map_right (f : α → Except ε β) (g : β → γ) (xs : List α) :
    (xs.mapM fun x => (f x).map g) = (xs.mapM f).map (List.map g) := by
  induction xs with
  | nil => rfl
  | cons x xs ih =>
      rw [List.mapM_cons, List.mapM_cons, ih]
      cases f x with
      | error failure => rfl
      | ok y => cases xs.mapM f <;> rfl

end

variable {source : Source} {catalog : Catalog} {settings : Settings} {race : RaceId}
  {event : EventId} {computed : EventResults} {change : StatusChange}

/-! ### Any source -/

theorem computeEvent_eq_ok (h : computeEvent source catalog settings race event = .ok computed) :
    computed = .none event ∨
      ∃ splits traces overrides, courseFor source catalog race event = .ok splits ∧
        source.eventTraces race event = .ok traces ∧
        source.overrides race event = .ok overrides ∧
        computed = scoreTraces settings.ceiling event splits traces overrides := by
  rw [computeEvent, bind_eq_ok_iff] at h
  obtain ⟨splits, hsplits, h⟩ := h
  by_cases hempty : splits.isEmpty = true
  · rw [if_pos hempty] at h
    cases h
    exact Or.inl rfl
  · rw [if_neg hempty, bind_eq_ok_iff] at h
    obtain ⟨traces, htraces, h⟩ := h
    rw [bind_eq_ok_iff] at h
    obtain ⟨overrides, hoverrides, h⟩ := h
    cases h
    exact Or.inr ⟨splits, traces, overrides, hsplits, htraces, hoverrides, rfl⟩

/-- A change of status is one that scoring a trace gave. -/
theorem exists_of_mem_changes {ceiling : Duration} {splits : List Split} {traces : List Trace}
    {overrides : List (AthleteId × List Slot)}
    (h : change ∈ (scoreTraces ceiling event splits traces overrides).changes) :
    ∃ trace ∈ traces, change.athlete = trace.athlete ∧ change.current = trace.status ∧
      change.next ≠ trace.status ∧ trace.status.canBecome change.next = true := by
  rw [scoreTraces, List.mem_filterMap] at h
  obtain ⟨scored, hscored, hchange⟩ := h
  obtain ⟨trace, htrace, rfl⟩ := List.mem_map.mp hscored
  refine ⟨trace, htrace, ?_⟩
  rw [scoreTrace] at hchange
  simp only [Option.ite_none_right_eq_some, Bool.and_eq_true, bne_iff_ne, ne_eq,
    Option.some.injEq] at hchange
  obtain ⟨⟨hne, hallowed⟩, rfl⟩ := hchange
  exact ⟨rfl, rfl, hne, hallowed⟩

theorem computeLaunched_eq (source : Source) (catalog : Catalog) (settings : Settings)
    (race : RaceId) (event : EventId) :
    computeLaunched source catalog settings race event =
      source.launchedEvents race >>= fun launched =>
        if event ∈ launched then
          computeEvent source catalog settings race event >>= fun computed =>
            .ok (.ofEvents race [computed])
        else .error (.eventNotFound event.text) := by
  rw [computeLaunched]
  refine congrArg (source.launchedEvents race >>= ·) (funext fun launched => ?_)
  by_cases hmem : event ∈ launched
  · rw [if_pos hmem, if_neg (by simpa using hmem)]
    rfl
  · rw [if_neg hmem, if_pos (by simpa using hmem)]
    rfl

namespace Scope

variable {scope : Scope} {report : Report}

/-- A report is put together from the results of events. -/
theorem compute_eq_ok (h : scope.compute source catalog settings race = .ok report) :
    ∃ results, report = .ofEvents race results ∧
      ∀ computed ∈ results, ∃ event,
        computeEvent source catalog settings race event = .ok computed := by
  cases scope with
  | wholeRace =>
      rw [compute, computeRace, bind_eq_ok_iff] at h
      obtain ⟨events, -, h⟩ := h
      rw [bind_eq_ok_iff] at h
      obtain ⟨results, hresults, h⟩ := h
      cases h
      refine ⟨results, rfl, fun computed hcomputed => ?_⟩
      obtain ⟨event, -, hevent⟩ := exists_of_mem_mapM hresults hcomputed
      exact ⟨event, hevent⟩
  | oneEvent event =>
      rw [compute, computeLaunched_eq, bind_eq_ok_iff] at h
      obtain ⟨launched, -, h⟩ := h
      by_cases hmem : event ∈ launched
      · rw [if_pos hmem, bind_eq_ok_iff] at h
        obtain ⟨computed, hcomputed, h⟩ := h
        cases h
        refine ⟨[computed], rfl, fun other hother => ⟨event, ?_⟩⟩
        rw [List.mem_singleton.mp hother, hcomputed]
      · rw [if_neg hmem] at h
        cases h

/-- A change of status that is reported is that of an athlete with a trace. -/
theorem exists_trace_of_mem_changes
    (h : scope.compute source catalog settings race = .ok report)
    (hchange : change ∈ report.changes) :
    ∃ event traces, source.eventTraces race event = .ok traces ∧
      ∃ trace ∈ traces, change.athlete = trace.athlete := by
  obtain ⟨results, rfl, hresults⟩ := compute_eq_ok h
  obtain ⟨computed, hcomputed, hchange⟩ := List.mem_flatMap.mp hchange
  obtain ⟨event, hevent⟩ := hresults computed hcomputed
  rcases computeEvent_eq_ok hevent with rfl | ⟨splits, traces, overrides, -, htraces, -, rfl⟩
  · exact absurd hchange List.not_mem_nil
  · obtain ⟨trace, htrace, hathlete, -⟩ := exists_of_mem_changes hchange
    exact ⟨event, traces, htraces, trace, htrace, hathlete⟩

end Scope

/-! ### A store as the source -/

namespace Store

variable {s s' : Store} {events : List EventId}

theorem mem_athletesOf {a : Athlete} :
    a ∈ s.athletesOf race event ↔ a ∈ s.athletes ∧ a.race = race ∧ a.event = event := by
  rw [athletesOf, List.mem_filter, Bool.and_eq_true, beq_iff_eq, beq_iff_eq]

/-- An athlete is in one event. -/
theorem eq_of_mem_athletesOf (hids : (s.athletes.map Athlete.id).Nodup) {a b : Athlete}
    {event' : EventId} (ha : a ∈ s.athletesOf race event) (hb : b ∈ s.athletesOf race event')
    (hid : a.id = b.id) : a = b ∧ event = event' := by
  rw [mem_athletesOf] at ha hb
  obtain rfl : a = b := List.inj_on_of_nodup_map hids ha.1 hb.1 hid
  exact ⟨rfl, ha.2.2.symm.trans hb.2.2⟩

theorem exists_athlete_of_mem_eventTraces {trace : Trace}
    (h : trace ∈ s.eventTraces race event) :
    ∃ a ∈ s.athletesOf race event, a.id = trace.athlete := by
  obtain ⟨a, ha, htrace⟩ := List.mem_filterMap.mp h
  obtain ⟨waveStart, -, rfl⟩ := Option.map_eq_some_iff.mp htrace
  exact ⟨a, ha, rfl⟩

/-- The course that an event is scored on. -/
def courseOf (s : Store) (catalog : Catalog) (race : RaceId) (event : EventId) : List Split :=
  (catalog.course? event).getD (courseOrder (s.eventSplits race event))

theorem courseFor_source (s : Store) (catalog : Catalog) (race : RaceId) (event : EventId) :
    courseFor s.source catalog race event = .ok (s.courseOf catalog race event) := by
  rw [courseFor, courseOf]
  cases catalog.course? event <;> rfl

/-- A store has no splits for an event to which its catalog gives no course. -/
theorem courseOf_catalog (s : Store) (race : RaceId) (event : EventId) :
    s.courseOf s.catalog race event = (s.catalog.course? event).getD [] := by
  rw [courseOf]
  cases hcourse : s.catalog.course? event with
  | some course => rfl
  | none =>
      have hsplits : s.eventSplits race event = [] := by
        rw [eventSplits, hcourse]
        cases s.catalog.event? event with
        | none => rfl
        | some found => exact ite_self []
      simp [hsplits, courseOrder]

/-- What an event scores over a store. -/
def score (s : Store) (catalog : Catalog) (settings : Settings) (race : RaceId)
    (event : EventId) : EventResults :=
  let course := s.courseOf catalog race event
  if course.isEmpty then .none event
  else scoreTraces settings.ceiling event course (s.eventTraces race event)
    (s.overrides race event)

theorem computeEvent_source (s : Store) (catalog : Catalog) (settings : Settings)
    (race : RaceId) (event : EventId) :
    computeEvent s.source catalog settings race event =
      .ok (s.score catalog settings race event) := by
  rw [computeEvent, courseFor_source, score]
  show (if _ then _ else _) = _
  split <;> rfl

/-- A store with other reads on record. -/
def withReads (s : Store) (reads : List ChipRead) : Store := { s with reads }

/-- Scoring an event reads the roster for its own athletes only. -/
theorem score_congr (hcatalog : s'.catalog = s.catalog) (hreads : s'.reads = s.reads)
    (hentries : s'.entries = s.entries)
    (hathletes : s'.athletesOf race event = s.athletesOf race event) :
    s'.score catalog settings race event = s.score catalog settings race event := by
  have hcourse : s'.courseOf catalog race event = s.courseOf catalog race event := by
    rw [courseOf, courseOf, eventSplits, eventSplits, hcatalog]
  have hlaunch : s'.launchTime? event = s.launchTime? event := by
    funext wave
    rw [launchTime?, launchTime?, hcatalog]
  have htraces : s'.eventTraces race event = s.eventTraces race event := by
    rw [eventTraces, eventTraces, readsOf, readsOf, hathletes, hcatalog, hreads, hlaunch]
  have hoverrides : s'.overrides race event = s.overrides race event := by
    rw [overrides, overrides, hathletes, hentries]
  rw [score, score, hcourse, htraces, hoverrides]

theorem exists_athlete_of_mem_changes
    (h : change ∈ (s.score catalog settings race event).changes) :
    ∃ a ∈ s.athletesOf race event, a.id = change.athlete := by
  rcases computeEvent_eq_ok (s.computeEvent_source catalog settings race event) with
    hnone | ⟨splits, traces, overrides, -, htraces, -, hscore⟩
  · rw [hnone] at h
    exact absurd h List.not_mem_nil
  · rw [hscore] at h
    obtain ⟨trace, htrace, hathlete, -⟩ := exists_of_mem_changes h
    cases htraces
    rw [hathlete]
    exact exists_athlete_of_mem_eventTraces htrace

/-- Writing what one event scored does not change what another does. -/
theorem score_written (hids : (s.athletes.map Athlete.id).Nodup) {other : EventId}
    (hne : other ≠ event) :
    (s.written (.ofEvents race [s.score catalog settings race event])).score catalog settings
      race other = s.score catalog settings race other := by
  refine score_congr rfl rfl rfl (athletesOf_written fun change hchange a ha => ?_)
  have hchange' : change ∈ (s.score catalog settings race event).changes := by
    simpa [Report.ofEvents] using hchange
  obtain ⟨b, hb, hid⟩ := exists_athlete_of_mem_changes hchange'
  intro heq
  exact hne (eq_of_mem_athletesOf hids ha hb (heq.trans hid.symm)).2

theorem knows_of_mem_changes {change : StatusChange}
    (h : change ∈ (Report.ofEvents race (events.map (s.score catalog settings race))).changes) :
    s.Knows change.athlete := by
  obtain ⟨results, hresults, hchange⟩ := List.mem_flatMap.mp h
  obtain ⟨event, -, rfl⟩ := List.mem_map.mp hresults
  obtain ⟨a, ha, hid⟩ := exists_athlete_of_mem_changes hchange
  rw [← hid]
  exact List.mem_map_of_mem (mem_athletesOf.mp ha).1

end Store

/-! ### Cycles over a store that is its own source -/

variable {s : Store}

theorem computeRace_source (s : Store) (catalog : Catalog) (settings : Settings)
    (race : RaceId) :
    computeRace s.source catalog settings race =
      .ok (.ofEvents race ((s.launchedEvents race).map (s.score catalog settings race))) := by
  have hevents : (s.launchedEvents race).mapM (computeEvent s.source catalog settings race) =
      .ok ((s.launchedEvents race).map (s.score catalog settings race)) := by
    rw [funext (s.computeEvent_source catalog settings race)]
    exact List.mapM_pure
  show (s.launchedEvents race).mapM (computeEvent s.source catalog settings race) >>= _ = _
  rw [hevents]
  rfl

theorem computeLaunched_source (s : Store) (catalog : Catalog) (settings : Settings)
    (race : RaceId) (event : EventId) :
    computeLaunched s.source catalog settings race event =
      if event ∈ s.launchedEvents race then
        .ok (.ofEvents race [s.score catalog settings race event])
      else .error (.eventNotFound event.text) := by
  rw [computeLaunched_eq]
  show (if event ∈ s.launchedEvents race then _ else _) = _
  rw [s.computeEvent_source]
  rfl

/-- What a cycle over a store computes is put together from what its events score. -/
theorem Scope.compute_source_eq_ok {scope : Scope} {report : Report} (hs : s.Keyed)
    (h : scope.compute s.source catalog settings race = .ok report) :
    ∃ events : List EventId, events.Nodup ∧ (∀ event ∈ events, event ∈ s.launchedEvents race) ∧
      report = .ofEvents race (events.map (s.score catalog settings race)) := by
  cases scope with
  | wholeRace =>
      rw [compute, computeRace_source] at h
      cases h
      exact ⟨_, Store.nodup_launchedEvents hs race, fun _ hevent => hevent, rfl⟩
  | oneEvent event =>
      rw [compute, computeLaunched_source] at h
      by_cases hlaunched : event ∈ s.launchedEvents race
      · rw [if_pos hlaunched] at h
        cases h
        refine ⟨[event], List.nodup_singleton event, fun other hother => ?_, rfl⟩
        rwa [List.mem_singleton.mp hother]
      · rw [if_neg hlaunched] at h
        cases h

theorem recomputeRace_source (hs : s.Reachable) (hwritable : s.writeFault = none) :
    recomputeRace s.source catalog settings race s =
      (s.written (.ofEvents race ((s.launchedEvents race).map (s.score catalog settings race))),
        .ok (.ofEvents race ((s.launchedEvents race).map (s.score catalog settings race)))) := by
  rw [recomputeRace, computeRace_source, commitComputed]
  exact commit_of_knows hwritable hs.keyed.athletes fun change => Store.knows_of_mem_changes

/-- A cycle over a race that succeeds has written what the launched events score. -/
theorem recomputeRace_source_eq_ok {left : Store} {report : Report} (hs : s.Reachable)
    (h : recomputeRace s.source catalog settings race s = (left, .ok report)) :
    s.writeFault = none ∧
      report = .ofEvents race ((s.launchedEvents race).map (s.score catalog settings race)) ∧
      left = s.written report := by
  rw [recomputeRace, computeRace_source] at h
  obtain ⟨hwritable, rfl, hleft, -⟩ := commit_eq_ok hs.keyed.athletes h
  exact ⟨hwritable, rfl, hleft⟩

theorem recomputeEvent_source (hs : s.Reachable) (hwritable : s.writeFault = none)
    (hlaunched : event ∈ s.launchedEvents race) :
    recomputeEvent s.source catalog settings race event s =
      (s.written (.ofEvents race [s.score catalog settings race event]),
        .ok (.ofEvents race [s.score catalog settings race event])) := by
  rw [recomputeEvent, computeLaunched_source, if_pos hlaunched, commitComputed]
  refine commit_of_knows hwritable hs.keyed.athletes fun change hchange => ?_
  have hchange' : change ∈
      (Report.ofEvents race ([event].map (s.score catalog settings race))).changes := hchange
  exact Store.knows_of_mem_changes hchange'

/-- A cycle leaves the store as it was, or writes what launched events score. -/
theorem Scope.recompute_source (hs : s.Reachable) (scope : Scope) (catalog : Catalog)
    (settings : Settings) (race : RaceId) :
    (∃ failure, scope.recompute s.source catalog settings race s = (s, .error failure)) ∨
      ∃ (events : List EventId) (report : Report),
        (∀ event ∈ events, event ∈ s.launchedEvents race) ∧
        report = .ofEvents race (events.map (s.score catalog settings race)) ∧
        scope.recompute s.source catalog settings race s = (s.written report, .ok report) := by
  rw [scope.recompute_eq]
  cases hcomputed : scope.compute s.source catalog settings race with
  | error failure => exact Or.inl ⟨failure, rfl⟩
  | ok report =>
      obtain hwritable | ⟨reason, hfault⟩ := Option.eq_none_or_eq_some s.writeFault
      · obtain ⟨events, -, hlaunched, rfl⟩ := Scope.compute_source_eq_ok hs.keyed hcomputed
        exact Or.inr ⟨events, _, hlaunched, rfl,
          commit_of_knows hwritable hs.keyed.athletes fun change => Store.knows_of_mem_changes⟩
      · exact Or.inl ⟨_, commit_of_fault hfault⟩

end ChipTiming
