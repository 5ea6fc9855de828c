/-
Looking up a split, and looking for it on a course.

A catalog keeps splits twice: by identifier, and in the course of their event.
Within one race the two cannot come apart, and removing a race takes from both
just what names one of its events (`Sound.agrees_purge`).

Saving is another matter once races share identifiers.  The new splits displace
those with their identifiers, whatever event these are of, and the new courses
displace those of their events, whatever splits these have.  So the two still
agree afterwards just if both displace the same: among the splits that stay, those
whose identifiers the configuration takes must be those whose events it has splits
for (`Sound.agrees_insert_iff`).  Over a whole run they agree at every moment just
if every save is of that kind (`agrees_take_iff`), as it is where races share no
identifier (`agrees_of_compatible`).  A split identifier that two races share is
enough for a course to list what cannot be looked up any more
(`not_agrees_foldl`).
-/
import ChipTiming.Proofs.Catalog.Courses

namespace ChipTiming.Catalog

variable {c : Catalog} {s : Split} {race : RaceId} {event : EventId} {config : Configuration}

/-- Look-ups by identifier and courses have the same splits. -/
structure Agrees (c : Catalog) : Prop where
  /-- What a course lists is what its identifier stands for. -/
  found : ∀ event course, c.course? event = some course → ∀ s ∈ course, c.split? s.id = some s
  /-- What an identifier stands for is listed in the course of its event. -/
  listed : ∀ id s, c.split? id = some s → ∃ course, c.course? s.event = some course ∧ s ∈ course

/-! ### Catalogs that there can be -/

/-- Identifiers and events are keys, and every course was configured. -/
structure Sound (c : Catalog) : Prop where
  splitIds : (c.splits.map Split.id).Nodup
  courseEvents : (c.courses.map Prod.fst).Nodup
  courses : c.CoursesConfigured

theorem sound_empty : Sound .empty :=
  ⟨List.nodup_nil, List.nodup_nil, fun _ hentry => absurd hentry List.not_mem_nil⟩

theorem Sound.purge (h : c.Sound) (race : RaceId) : (c.purge race).Sound where
  splitIds := h.splitIds.sublist (List.filter_sublist.map Split.id)
  courseEvents := h.courseEvents.sublist (List.filter_sublist.map Prod.fst)
  courses := h.courses.purge race

theorem Sound.insert (h : c.Sound) (hvalid : config.validate = .ok ()) :
    (c.insert config).Sound where
  splitIds := nodup_putAll h.splitIds
  courseEvents := nodup_putAll h.courseEvents
  courses := h.courses.insert hvalid

/-- How often a catalog was changed does not matter. -/
theorem Sound.setVersion (h : c.Sound) (version : Nat) :
    ({ c with version := version } : Catalog).Sound :=
  ⟨h.splitIds, h.courseEvents, h.courses⟩

theorem Agrees.setVersion (h : c.Agrees) (version : Nat) :
    ({ c with version := version } : Catalog).Agrees :=
  ⟨h.found, h.listed⟩

theorem Sound.after (h : c.Sound) (change : Change) : (c.after change).Sound := by
  cases change with
  | remove race => exact (h.purge race).setVersion _
  | save config =>
      cases hvalid : config.validate with
      | error mistake => rwa [after_save_of_refused hvalid]
      | ok =>
          rw [after_save hvalid]
          exact ((h.purge config.race.id).insert hvalid).setVersion _

/-! ### The splits on courses -/

/-- A split stands in the course of its event. -/
def Lists (c : Catalog) (s : Split) : Prop :=
  ∃ course, c.course? s.event = some course ∧ s ∈ course

theorem Sound.lists_iff (h : c.Sound) :
    c.Lists s ↔ ∃ course, (s.event, course) ∈ c.courses ∧ s ∈ course := by
  unfold Lists course?
  refine ⟨?_, ?_⟩
  · intro hlisted
    obtain ⟨course, hcourse, hs⟩ := hlisted
    obtain ⟨entry, hentry, rfl⟩ := Option.map_eq_some_iff.mp hcourse
    obtain ⟨hmem, hevent⟩ := mem_of_withKey? hentry
    exact ⟨entry.2, hevent ▸ hmem, hs⟩
  · intro hlisted
    obtain ⟨course, hmem, hs⟩ := hlisted
    refine ⟨course, ?_, hs⟩
    rw [(withKey?_eq_some_iff h.courseEvents).mpr ⟨hmem, rfl⟩]
    rfl

/-- The two agree just if the table of splits has what the courses list. -/
theorem Sound.agrees_iff (h : c.Sound) : c.Agrees ↔ ∀ s, s ∈ c.splits ↔ c.Lists s := by
  have hlookup : ∀ {id s}, c.split? id = some s ↔ s ∈ c.splits ∧ s.id = id :=
    withKey?_eq_some_iff h.splitIds
  refine ⟨?_, ?_⟩
  · intro hagrees s
    refine ⟨fun hs => hagrees.listed s.id s (hlookup.mpr ⟨hs, rfl⟩), ?_⟩
    intro hlisted
    obtain ⟨course, hcourse, hs⟩ := hlisted
    exact (hlookup.mp (hagrees.found s.event course hcourse s hs)).1
  · intro hsame
    refine ⟨?_, ?_⟩
    · intro event course hcourse s hs
      obtain rfl := (h.courses.isCourse hcourse).event_eq s hs
      exact hlookup.mpr ⟨(hsame s).mpr ⟨course, hcourse, hs⟩, rfl⟩
    · intro id s hs
      exact (hsame s).mp (hlookup.mp hs).1

/-! ### Removing a race -/

theorem course?_purge (c : Catalog) (race : RaceId) (event : EventId) :
    (c.purge race).course? event =
      if ((c.events.filter (·.race == race)).map (·.id)).contains event then none
      else c.course? event := by
  have hfilter : withKey? Prod.fst event (c.purge race).courses = _ :=
    withKey?_filter fun event => !((c.events.filter (·.race == race)).map (·.id)).contains event
  rw [course?, hfilter, course?]
  cases ((c.events.filter (·.race == race)).map (·.id)).contains event <;> rfl

/-- **Removing a race keeps look-ups and courses in agreement.** -/
theorem Sound.agrees_purge (h : c.Sound) (hagrees : c.Agrees) (race : RaceId) :
    (c.purge race).Agrees := by
  rw [(h.purge race).agrees_iff]
  intro s
  have hsplits : s ∈ (c.purge race).splits ↔ s ∈ c.splits ∧
      (!((c.events.filter (·.race == race)).map (·.id)).contains s.event) = true :=
    List.mem_filter
  rw [hsplits, h.agrees_iff.mp hagrees, Lists, Lists, course?_purge]
  cases ((c.events.filter (·.race == race)).map (·.id)).contains s.event <;> simp

/-! ### Adding a configuration -/

theorem mem_keys_coursesOf :
    event ∈ (coursesOf config).map Prod.fst ↔ event ∈ config.splits.map Split.event := by
  rw [List.mem_map, List.mem_map]
  refine ⟨?_, ?_⟩
  · intro hevent
    obtain ⟨entry, hentry, rfl⟩ := hevent
    exact (mem_coursesOf.mp hentry).1
  · intro hsplit
    exact ⟨(event, config.course event), mem_coursesOf.mpr ⟨hsplit, rfl⟩, rfl⟩

/-- The splits of a configuration displace those with their identifiers. -/
theorem Sound.mem_splits_insert (h : c.Sound) (hvalid : config.validate = .ok ()) :
    s ∈ (c.insert config).splits ↔
      s ∈ config.splits ∨ s ∈ c.splits ∧ s.id ∉ config.splits.map Split.id :=
  mem_putAll_iff (Configuration.wellFormed hvalid).splitIds h.splitIds

/-- Its courses displace those of their events. -/
theorem Sound.lists_insert_iff (h : c.Sound) (hvalid : config.validate = .ok ()) :
    (c.insert config).Lists s ↔
      s ∈ config.splits ∨ c.Lists s ∧ s.event ∉ config.splits.map Split.event := by
  have hcourses : ∀ entry, entry ∈ (c.insert config).courses ↔ entry ∈ coursesOf config ∨
      entry ∈ c.courses ∧ entry.1 ∉ (coursesOf config).map Prod.fst := fun _ =>
    mem_putAll_iff (nodup_coursesOf config) h.courseEvents
  rw [(h.insert hvalid).lists_iff, h.lists_iff]
  simp only [hcourses, mem_keys_coursesOf]
  refine ⟨?_, ?_⟩
  · intro hlisted
    obtain ⟨course, hentry | ⟨hentry, hother⟩, hs⟩ := hlisted
    · obtain ⟨-, hcourse⟩ := mem_coursesOf.mp hentry
      exact Or.inl (Configuration.mem_course.mp (hcourse ▸ hs : s ∈ config.course s.event)).1
    · exact Or.inr ⟨⟨course, hentry, hs⟩, hother⟩
  · intro hlisted
    rcases hlisted with hs | ⟨⟨course, hentry, hs⟩, hother⟩
    · exact ⟨config.course s.event, Or.inl (mem_coursesOf.mpr ⟨⟨s, hs, rfl⟩, rfl⟩),
        Configuration.mem_course.mpr ⟨hs, rfl⟩⟩
    · exact ⟨course, Or.inr ⟨hentry, hother⟩, hs⟩

/-- Of the splits in the catalog, a configuration has the identifiers of just those
for whose events it has splits. -/
def Accommodates (c : Catalog) (config : Configuration) : Prop :=
  ∀ s ∈ c.splits, s.id ∈ config.splits.map Split.id ↔ s.event ∈ config.splits.map Split.event

/-- **Adding a configuration keeps the two in agreement just if it displaces the same
splits from both.** -/
theorem Sound.agrees_insert_iff (h : c.Sound) (hagrees : c.Agrees)
    (hvalid : config.validate = .ok ()) :
    (c.insert config).Agrees ↔ c.Accommodates config := by
  rw [(h.insert hvalid).agrees_iff]
  simp only [h.mem_splits_insert hvalid, h.lists_insert_iff hvalid, ← h.agrees_iff.mp hagrees]
  refine ⟨?_, ?_⟩
  · intro hsame s hs
    by_cases hnew : s ∈ config.splits
    · exact iff_of_true (List.mem_map_of_mem hnew) (List.mem_map_of_mem hnew)
    · have hboth := hsame s
      simp only [hnew, hs, true_and, false_or] at hboth
      exact not_iff_not.mp hboth
  · intro hfits s
    refine or_congr_right (and_congr_right fun hs => ?_)
    rw [hfits s hs]

/-! ### Runs of changes -/

/-- A configuration that is accepted is accommodated by what other races leave of the
catalog. -/
def Admits (c : Catalog) : Change → Prop
  | .save config => config.validate = .ok () → (c.purge config.race.id).Accommodates config
  | .remove _ => True

/-- Every change comes to a catalog that admits it. -/
def AdmitsEach (c : Catalog) : List Change → Prop
  | [] => True
  | change :: changes => c.Admits change ∧ (c.after change).AdmitsEach changes

theorem Sound.agrees_after_iff (h : c.Sound) (hagrees : c.Agrees) (change : Change) :
    (c.after change).Agrees ↔ c.Admits change := by
  cases change with
  | remove race => exact iff_of_true ((h.agrees_purge hagrees race).setVersion _) trivial
  | save config =>
      have hpurged := h.agrees_purge hagrees config.race.id
      show _ ↔ (config.validate = .ok () → (c.purge config.race.id).Accommodates config)
      cases hvalid : config.validate with
      | error mistake =>
          rw [after_save_of_refused hvalid]
          refine iff_of_true hagrees fun h => ?_
          cases h
      | ok =>
          have hinsert := (h.purge config.race.id).agrees_insert_iff hpurged hvalid
          rw [after_save hvalid]
          exact ⟨fun hafter _ => hinsert.mp (hafter.setVersion _),
            fun hadmits => (hinsert.mpr (hadmits rfl)).setVersion _⟩

theorem Sound.agrees_take_iff (h : c.Sound) (hagrees : c.Agrees) (changes : List Change) :
    (∀ n, ((changes.take n).foldl Catalog.after c).Agrees) ↔ c.AdmitsEach changes := by
  induction changes generalizing c with
  | nil => simp [AdmitsEach, hagrees]
  | cons change changes ih =>
      unfold AdmitsEach
      rw [← h.agrees_after_iff hagrees change]
      refine ⟨?_, ?_⟩
      · intro hall
        have hfirst : (c.after change).Agrees := by simpa using hall 1
        exact ⟨hfirst, (ih (h.after change) hfirst).mp fun n => hall (n + 1)⟩
      · intro hrest n
        cases n with
        | zero => exact hagrees
        | succ n => exact (ih (h.after change) hrest.1).mpr hrest.2 n

theorem agrees_empty : Agrees .empty := by
  rw [sound_empty.agrees_iff]
  intro s
  refine iff_of_false List.not_mem_nil ?_
  rw [sound_empty.lists_iff]
  rintro ⟨course, hentry, -⟩
  exact absurd hentry List.not_mem_nil

/--
**Look-ups and courses agree at every moment of a run just if every configuration
displaces the same splits from both.**  Configurations that are refused and races that
are removed never matter.
-/
theorem agrees_iff_admitsEach (changes : List Change) :
    (∀ n, ((changes.take n).foldl Catalog.after .empty).Agrees) ↔
      Catalog.empty.AdmitsEach changes :=
  sound_empty.agrees_take_iff agrees_empty changes

/-- Races that share no identifier never displace splits of each other. -/
theorem Represents.admitsEach {m : Saved} (h : c.Represents m) {changes : List Change}
    (hcompatible : m.Compatible changes) : c.AdmitsEach changes := by
  induction changes generalizing c m with
  | nil => trivial
  | cons change changes ih =>
      obtain ⟨hadmits, hrest⟩ := hcompatible
      refine ⟨?_, ih (h.after hadmits) hrest⟩
      cases change with
      | remove race => trivial
      | save config =>
          intro hvalid s hs
          obtain ⟨race, other, hsaved, hmem⟩ := ((h.purge config.race.id).splits.mem_iff s).mp hs
          have hrace : race ≠ config.race.id := by
            rintro rfl
            simp at hsaved
          rw [Function.update_of_ne hrace] at hsaved
          have hapart : config.Apart other := hadmits hvalid race other hrace hsaved
          refine iff_of_false (fun hid => hapart.splits hid (List.mem_map_of_mem hmem)) ?_
          intro hevent
          obtain ⟨t, ht, heq⟩ := List.mem_map.mp hevent
          have hhas : config.HasEvent s.event := by
            rw [← heq]
            exact ((Configuration.wellFormed hvalid).splits t ht).event
          have hother := Configuration.wellFormed (h.consistent.valid race other hsaved)
          exact hapart.not_hasEvent hhas (hother.splits s hmem).event

/-- **So look-ups and courses agree as long as races share no identifier.** -/
theorem agrees_of_compatible {changes : List Change}
    (hcompatible : Saved.nothing.Compatible changes) :
    (changes.foldl Catalog.after .empty).Agrees := by
  have hall := (sound_empty.agrees_take_iff agrees_empty changes).mpr
    (represents_empty.admitsEach hcompatible)
  simpa using hall changes.length

/-- Two races share the identifier of a split.  Removing the second leaves the first
with a course whose start cannot be looked up. -/
theorem not_agrees_foldl :
    ¬∀ changes : List Change,
      (∀ config, .save config ∈ changes → config.validate = .ok ()) →
        (changes.foldl Catalog.after .empty).Agrees := by
  intro hagree
  have hvalid : ∀ config, Change.save config ∈
      [Change.save (smallRace 1 1), .save sharingStart, .remove ⟨2⟩] →
        config.validate = .ok () := by
    intro config hmem
    simp only [List.mem_cons, Change.save.injEq, reduceCtorEq, List.not_mem_nil, or_false] at hmem
    rcases hmem with rfl | rfl <;> rfl
  have hagrees := hagree _ hvalid
  have hlisted := hagrees.found ⟨1⟩ (smallRace 1 1).splits (by cbv) _ (List.mem_singleton_self _)
  have hlookup : ([Change.save (smallRace 1 1), .save sharingStart, .remove ⟨2⟩].foldl
      Catalog.after .empty).split? ⟨1⟩ = none := by cbv
  rw [hlookup] at hlisted
  cases hlisted

end ChipTiming.Catalog
