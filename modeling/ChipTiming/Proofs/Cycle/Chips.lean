/-
Reads of other chips.

Reads come in on one list and are scored into one list of rows, with places given
to all of them at once.  Still, what is found for an athlete is found from the
reads of one chip.  A trace has no others (`Athlete.trace_congr`), and what comes
of a trace is rows, a change of status or a refused one under its own athlete, so
that those of an athlete can be told from the traces of the athlete
(`Store.filter_results_score`).

So take two stores that agree on the reads of a chip (`Store.AgreeOn`), whatever
else was read.  For an athlete with the chip an event has the same rows over both
of them but for the places, which are those of all athletes together
(`computeEvent_of_agreeOn`).
-/
import ChipTiming.Proofs.Cycle.Athletes

namespace ChipTiming

/-! ### Lists of what belongs to someone -/

section

variable {α β κ : Type} [DecidableEq κ] (owner : α → κ) (key : β → κ) (k : κ)

/-- If all that comes of an element is its owner's, what is one owner's comes of the
elements of the owner. -/
theorem filter_flatMap_of_owner {f : α → List β} {xs : List α}
    (h : ∀ x ∈ xs, ∀ y ∈ f x, key y = owner x) :
    (xs.flatMap f).filter (key · == k) = (xs.filter (owner · == k)).flatMap f := by
  induction xs with
  | nil => rfl
  | cons x xs ih =>
      have hx : ∀ y ∈ f x, key y = owner x := h x (List.mem_cons_self ..)
      have hxs := ih fun z hz => h z (List.mem_cons_of_mem _ hz)
      rw [List.flatMap_cons, List.filter_append, hxs]
      by_cases howner : owner x = k
      · have hall : (f x).filter (key · == k) = f x :=
          List.filter_eq_self.mpr fun y hy => by simp [hx y hy, howner]
        rw [hall, List.filter_cons_of_pos (by simpa using howner), List.flatMap_cons]
      · have hnone : (f x).filter (key · == k) = [] :=
          List.filter_eq_nil_iff.mpr fun y hy => by simp [hx y hy, howner]
        rw [hnone, List.filter_cons_of_neg (by simpa using howner), List.nil_append]

theorem filter_filterMap_of_owner {f : α → Option β} {xs : List α}
    (h : ∀ x ∈ xs, ∀ y, f x = some y → key y = owner x) :
    (xs.filterMap f).filter (key · == k) = (xs.filter (owner · == k)).filterMap f := by
  rw [List.filterMap_eq_flatMap_toList, List.filterMap_eq_flatMap_toList]
  exact filter_flatMap_of_owner owner key k fun x hx y hy => h x hx y (Option.mem_toList.mp hy)

end

variable {s s' : Store} {catalog : Catalog} {settings : Settings} {race : RaceId}
  {event : EventId} {trace : Trace} {chip : String}

/-! ### Changes that are refused -/

/-- The change of status that a trace amounts to, if it is not allowed. -/
def refusal? (ceiling : Duration) (splits : List Split) (start : Option Split)
    (entries : List Slot) (trace : Trace) : Option StatusChange :=
  let status := scoredStatus ceiling splits start entries trace
  if status != trace.status && !trace.status.canBecome status then
    some ⟨trace.athlete, trace.status, status⟩
  else none

theorem isSome_refusal? (ceiling : Duration) (splits : List Split) (start : Option Split)
    (entries : List Slot) (trace : Trace) :
    (refusal? ceiling splits start entries trace).isSome =
      (scoreTrace ceiling splits start entries trace).rejected := by
  rw [refusal?, scoreTrace_eq]
  exact Bool.eq_iff_iff.mpr Option.isSome_ite

theorem athlete_of_refusal?_eq_some {ceiling : Duration} {splits : List Split}
    {start : Option Split} {entries : List Slot} {refused : StatusChange}
    (h : refusal? ceiling splits start entries trace = some refused) :
    refused.athlete = trace.athlete := by
  rw [refusal?, Option.ite_none_right_eq_some] at h
  rw [← Option.some.inj h.2]

namespace Store

/-- What an athlete's trace amounts to in an event, if it is not allowed. -/
def refusalIn (s : Store) (catalog : Catalog) (settings : Settings) (race : RaceId)
    (event : EventId) (trace : Trace) : Option StatusChange :=
  let course := s.courseOf catalog race event
  refusal? settings.ceiling course (course.find? (·.isStart))
    (s.entriesIn race event trace.athlete) trace

/-- The changes of status that are refused in an event. -/
def refusals (s : Store) (catalog : Catalog) (settings : Settings) (race : RaceId)
    (event : EventId) : List StatusChange :=
  if (s.courseOf catalog race event).isEmpty then []
  else (s.eventTraces race event).filterMap (s.refusalIn catalog settings race event)

/-- All that is reported of them is how many there are. -/
theorem rejected_score (s : Store) (catalog : Catalog) (settings : Settings) (race : RaceId)
    (event : EventId) :
    (s.score catalog settings race event).rejected =
      (s.refusals catalog settings race event).length := by
  rw [score_eq, refusals]
  split
  · rfl
  · rw [List.length_filterMap_eq_countP, EventResults.ofScored, List.countP_map]
    exact List.countP_congr fun trace _ => by
      rw [refusalIn, isSome_refusal?]
      rfl

/-! ### What an athlete has in an event -/

theorem athlete_of_mem_slots_scoreIn (hs : s.Filed) {row : Slot}
    (h : row ∈ (s.scoreIn catalog settings race event trace).slots) :
    row.athlete = trace.athlete := by
  have hkey := List.mem_map_of_mem (f := Slot.key) h
  rw [scoreIn, keys_scoreTrace fun entry => athlete_of_mem_entriesIn hs] at hkey
  obtain ⟨split, -, hsplit⟩ := List.mem_map.mp hkey
  exact (congrArg Prod.fst hsplit).symm

/-- The rows of an athlete come of the athlete's trace, but for the places. -/
theorem filter_results_score (hs : s.Filed) (catalog : Catalog) (settings : Settings)
    (race : RaceId) (event : EventId) (athlete : AthleteId) :
    ((s.score catalog settings race event).results.filter (·.athlete == athlete)).map
        Slot.unranked =
      if (s.courseOf catalog race event).isEmpty then []
      else (((s.eventTraces race event).filter (·.athlete == athlete)).flatMap
        fun trace => (s.scoreIn catalog settings race event trace).slots).map Slot.unranked := by
  rw [score_eq]
  split
  · rfl
  · have hunranked : ∀ rows : List Slot,
        (rows.filter (·.athlete == athlete)).map Slot.unranked =
          (rows.map Slot.unranked).filter (·.athlete == athlete) := by
      intro rows
      rw [List.filter_map]
      rfl
    rw [hunranked, EventResults.ofScored, map_unranked_assignRanks, ← hunranked,
      List.flatMap_map, filter_flatMap_of_owner Trace.athlete]
    exact fun trace _ row => athlete_of_mem_slots_scoreIn hs

theorem filter_changes_score (s : Store) (catalog : Catalog) (settings : Settings)
    (race : RaceId) (event : EventId) (athlete : AthleteId) :
    (s.score catalog settings race event).changes.filter (·.athlete == athlete) =
      if (s.courseOf catalog race event).isEmpty then []
      else ((s.eventTraces race event).filter (·.athlete == athlete)).filterMap
        fun trace => (s.scoreIn catalog settings race event trace).change := by
  rw [score_eq]
  split
  · rfl
  · rw [EventResults.ofScored, List.filterMap_map]
    refine filter_filterMap_of_owner Trace.athlete _ athlete fun trace _ change hchange => ?_
    rw [(change_scoreTrace_eq_some hchange).1]

theorem filter_refusals (s : Store) (catalog : Catalog) (settings : Settings)
    (race : RaceId) (event : EventId) (athlete : AthleteId) :
    (s.refusals catalog settings race event).filter (·.athlete == athlete) =
      if (s.courseOf catalog race event).isEmpty then []
      else ((s.eventTraces race event).filter (·.athlete == athlete)).filterMap
        (s.refusalIn catalog settings race event) := by
  rw [refusals]
  split
  · rfl
  · exact filter_filterMap_of_owner Trace.athlete _ athlete fun trace _ refused =>
      athlete_of_refusal?_eq_some

end Store

/-! ### Reads of one chip -/

namespace Store

/-- Two stores that differ in nothing but the reads of other chips. -/
structure AgreeOn (chip : String) (s s' : Store) : Prop where
  rest : s' = s.withReads s'.reads
  reads : s'.reads.filter (·.chip == chip) = s.reads.filter (·.chip == chip)

theorem AgreeOn.readsOf (h : AgreeOn chip s s') (race : RaceId) :
    (s'.readsOf race).filter (·.chip == chip) = (s.readsOf race).filter (·.chip == chip) := by
  have hreaders : s'.catalog = s.catalog := by rw [h.rest]; rfl
  rw [Store.readsOf, Store.readsOf, hreaders, List.filter_comm, h.reads, List.filter_comm]

/-- The traces of an athlete with the chip are the same. -/
theorem AgreeOn.filter_eventTraces (h : AgreeOn chip s s')
    (hids : (s.athletes.map Athlete.id).Nodup) {a : Athlete} (ha : a ∈ s.athletes)
    (hchip : a.chip = chip) (race : RaceId) (event : EventId) :
    (s'.eventTraces race event).filter (·.athlete == a.id) =
      (s.eventTraces race event).filter (·.athlete == a.id) := by
  have hathletes : s'.athletesOf race event = s.athletesOf race event := by rw [h.rest]; rfl
  have hlaunch : s'.launchTime? event = s.launchTime? event := by rw [h.rest]; rfl
  rw [eventTraces, eventTraces, hathletes, hlaunch, List.filter_filterMap, List.filter_filterMap]
  refine List.filterMap_congr fun b hb => ?_
  cases s.launchTime? event b.wave with
  | none => rfl
  | some waveStart =>
      rw [Option.map_some, Option.map_some]
      -- Others may have the chip as well, but not the identifier.
      by_cases hid : b.id = a.id
      · obtain rfl : b = a := List.inj_on_of_nodup_map hids (mem_athletesOf.mp hb).1 ha hid
        subst hchip
        rw [b.trace_congr waveStart (h.readsOf race)]
      · simp [Option.filter, Athlete.trace, hid]

end Store

/-- Two results of an event have the same for an athlete but for places: the same rows
and the same change of status, if any. -/
structure EventResults.SameFor (athlete : AthleteId) (computed computed' : EventResults) :
    Prop where
  rows : (computed'.results.filter (·.athlete == athlete)).map Slot.unranked =
    (computed.results.filter (·.athlete == athlete)).map Slot.unranked
  changes : computed'.changes.filter (·.athlete == athlete) =
    computed.changes.filter (·.athlete == athlete)

/--
**What an athlete has in an event does not depend on the reads of other chips**,
whichever were added, left out or moved, but for the places.  The rows are the same
and so is the change of status or, beside the results, the one that was refused.
-/
theorem computeEvent_of_agreeOn (hs : s.Reachable) (h : Store.AgreeOn chip s s')
    (catalog : Catalog) (settings : Settings) (race : RaceId) (event : EventId) {a : Athlete}
    (ha : a ∈ s.athletes) (hchip : a.chip = chip) :
    ∃ computed computed', computeEvent s.source catalog settings race event = .ok computed ∧
      computeEvent s'.source catalog settings race event = .ok computed' ∧
      computed.SameFor a.id computed' ∧
      computed.rejected = (s.refusals catalog settings race event).length ∧
      computed'.rejected = (s'.refusals catalog settings race event).length ∧
      (s'.refusals catalog settings race event).filter (·.athlete == a.id) =
        (s.refusals catalog settings race event).filter (·.athlete == a.id) := by
  have hfiled : s'.Filed := by
    rw [h.rest]
    exact ⟨hs.filed.entries, hs.filed.results, hs.filed.courses⟩
  have hcourse : s'.courseOf catalog race event = s.courseOf catalog race event := by
    rw [h.rest]; rfl
  have hscore : s'.scoreIn catalog settings race event =
      s.scoreIn catalog settings race event := by rw [h.rest]; rfl
  have hrefusal : s'.refusalIn catalog settings race event =
      s.refusalIn catalog settings race event := by rw [h.rest]; rfl
  have htraces := h.filter_eventTraces hs.keyed.athletes ha hchip race event
  refine ⟨_, _, s.computeEvent_source .., s'.computeEvent_source .., ⟨?_, ?_⟩,
    s.rejected_score .., s'.rejected_score .., ?_⟩
  · rw [Store.filter_results_score hfiled, Store.filter_results_score hs.filed, hcourse, hscore,
      htraces]
  · rw [Store.filter_changes_score, Store.filter_changes_score, hcourse, hscore, htraces]
  · rw [Store.filter_refusals, Store.filter_refusals, hcourse, hrefusal, htraces]

/-- Two athletes, and what was read. -/
def pairSeen (reads : List ChipRead) : Store :=
  (((Store.empty.perform (.saveConfiguration (Catalog.smallRace 1 1))).perform
    (.register (starter 1 "a"))).perform
    (.register { starter 1 "b" with id := ⟨2⟩, status := .disqualified })).perform (.record reads)

theorem reachable_pairSeen (reads : List ChipRead) : (pairSeen reads).Reachable :=
  (((Store.Reachable.empty.perform _).perform _).perform _).perform _

/-- The second athlete is read after the first. -/
def readBehind : List ChipRead := [startRead 1 "a", { startRead 1 "b" with time := early 10 }]

/-- The second athlete is read before the first, and so is someone unknown. -/
def readAhead : List ChipRead :=
  [{ startRead 1 "b" with time := early 2 }, startRead 1 "c", startRead 1 "a"]

/-- The first athlete is overtaken by reads of another chip, but keeps the time. -/
theorem computeEvent_pairSeen :
    Store.AgreeOn "a" (pairSeen readBehind) (pairSeen readAhead) ∧
      ∃ computed computed',
        computeEvent (pairSeen readBehind).source .empty .standard ⟨1⟩ ⟨1⟩ = .ok computed ∧
        computeEvent (pairSeen readAhead).source .empty .standard ⟨1⟩ ⟨1⟩ = .ok computed' ∧
        computed.results.map (fun row => (row.athlete, row.gunRanks.overall)) =
          [(⟨1⟩, some 1), (⟨2⟩, some 2)] ∧
        computed'.results.map (fun row => (row.athlete, row.gunRanks.overall)) =
          [(⟨1⟩, some 2), (⟨2⟩, some 1)] ∧
        computed.SameFor ⟨1⟩ computed' ∧ computed.rejected = 1 ∧ computed'.rejected = 1 := by
  have hagree : Store.AgreeOn "a" (pairSeen readBehind) (pairSeen readAhead) :=
    ⟨rfl, by decide⟩
  obtain ⟨computed, computed', hcomputed, hcomputed', hsame, -⟩ :=
    computeEvent_of_agreeOn (reachable_pairSeen readBehind) hagree .empty .standard ⟨1⟩ ⟨1⟩
      (List.mem_cons_self ..) rfl
  have hbehind : (computeEvent (pairSeen readBehind).source .empty .standard ⟨1⟩ ⟨1⟩).map
      (fun computed => (computed.results.map fun row => (row.athlete, row.gunRanks.overall),
        computed.rejected)) = .ok ([(⟨1⟩, some 1), (⟨2⟩, some 2)], 1) := by cbv
  have hahead : (computeEvent (pairSeen readAhead).source .empty .standard ⟨1⟩ ⟨1⟩).map
      (fun computed => (computed.results.map fun row => (row.athlete, row.gunRanks.overall),
        computed.rejected)) = .ok ([(⟨1⟩, some 2), (⟨2⟩, some 1)], 1) := by cbv
  rw [hcomputed] at hbehind
  rw [hcomputed'] at hahead
  obtain ⟨hranks, hrejected⟩ := Prod.mk.inj (Except.ok.inj hbehind)
  obtain ⟨hranks', hrejected'⟩ := Prod.mk.inj (Except.ok.inj hahead)
  exact ⟨hagree, computed, computed', hcomputed, hcomputed', hranks, hranks', hsame, hrejected,
    hrejected'⟩

end ChipTiming
