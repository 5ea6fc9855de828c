/-
A catalog beside the plain map that it stands for.

What a catalog is for is quickly said: everything known about a race is what the
configuration saved last for it says.  `Saved` takes that literally, as a map from
races to configurations that forgets the old one when a race is saved again or
removed.  The catalog itself keeps no configurations.  It has one table for each
kind of entity and one for courses, removes by the events it finds in its own
table of events, and adds entity by entity.

`Tabulates` ties one table to the map: keys are distinct, and the table has just
what the saved configurations have.  The two halves of saving are two lemmas about
any such table (`Tabulates.filter`, `Tabulates.putAll`), so that `Represents`, the
same for all seven tables, is kept by every change.  What makes removal right is
`contains_gone`: an event of the table is of a race just if it is of the
configuration saved for that race, because configurations name events of their own
only and share no identifiers.
-/
import ChipTiming.Proofs.Configuration.Valid
import ChipTiming.Proofs.Keyed
import ChipTiming.Proofs.TimeOrder
import ChipTiming.Catalog
import Mathlib.Logic.Function.Basic

namespace ChipTiming

/-! ### Configurations apart -/

namespace Configuration

/-- Two configurations have no identifier of any kind in common. -/
structure Apart (a b : Configuration) : Prop where
  events : (a.events.map Event.id).Disjoint (b.events.map Event.id)
  categories : (a.categories.map Category.id).Disjoint (b.categories.map Category.id)
  readers : (a.readers.map TimeReader.id).Disjoint (b.readers.map TimeReader.id)
  splits : (a.splits.map Split.id).Disjoint (b.splits.map Split.id)
  waves : (a.waves.map Wave.id).Disjoint (b.waves.map Wave.id)

theorem Apart.symm {a b : Configuration} (h : a.Apart b) : b.Apart a where
  events _ hb ha := h.events ha hb
  categories _ hb ha := h.categories ha hb
  readers _ hb ha := h.readers ha hb
  splits _ hb ha := h.splits ha hb
  waves _ hb ha := h.waves ha hb

/-- The configuration has an event. -/
def HasEvent (c : Configuration) (event : EventId) : Prop := ∃ e ∈ c.events, e.id = event

/-- The splits of an event have identifiers of their own. -/
theorem WellFormed.nodup_course {c : Configuration} (h : c.WellFormed) (event : EventId) :
    ((c.course event).map Split.id).Nodup := by
  have hperm : (c.course event).Perm (c.splits.filter (·.event == event)) :=
    List.mergeSort_perm _ _
  rw [(hperm.map Split.id).nodup_iff]
  exact h.splitIds.sublist (List.filter_sublist.map Split.id)

theorem Apart.not_hasEvent {a b : Configuration} (h : a.Apart b) {event : EventId}
    (ha : a.HasEvent event) : ¬b.HasEvent event := by
  intro hb
  obtain ⟨e', he', rfl⟩ := hb
  obtain ⟨e, he, heq⟩ := ha
  exact h.events (List.mem_map_of_mem he) (heq ▸ List.mem_map_of_mem he')

end Configuration

namespace Catalog

/-! ### Changes -/

/-- What is done to a catalog. -/
inductive Change where
  /-- A configuration is saved. -/
  | save (config : Configuration)
  /-- A race is removed. -/
  | remove (race : RaceId)

/-- The catalog after a change.  A configuration that is refused changes nothing. -/
def after (c : Catalog) : Change → Catalog
  | .save config =>
    match c.update config with
    | .ok next => next
    | .error _ => c
  | .remove race => c.removeRace race

theorem update_of_valid {config : Configuration} (hvalid : config.validate = .ok ())
    (c : Catalog) :
    c.update config =
      .ok { (c.purge config.race.id).insert config with version := c.version + 1 } := by
  rw [update, hvalid]
  rfl

theorem after_save {config : Configuration} (hvalid : config.validate = .ok ()) (c : Catalog) :
    c.after (.save config) =
      { (c.purge config.race.id).insert config with version := c.version + 1 } := by
  rw [after, update_of_valid hvalid]

theorem after_save_of_refused {config : Configuration} {mistake : Misconfiguration}
    (hrefused : config.validate = .error mistake) (c : Catalog) : c.after (.save config) = c := by
  rw [after, update, hrefused]
  rfl

/-- The configuration saved last for each race. -/
abbrev Saved := RaceId → Option Configuration

namespace Saved

/-- Nothing is saved. -/
def nothing : Saved := fun _ => none

/-- What is saved after a change. -/
def after (m : Saved) : Change → Saved
  | .save config =>
    match config.validate with
    | .ok _ => Function.update m config.race.id (some config)
    | .error _ => m
  | .remove race => Function.update m race none

/-- A configuration saved for some race has an entity. -/
def Has {α : Type} (m : Saved) (part : Configuration → List α) (x : α) : Prop :=
  ∃ race config, m race = some config ∧ x ∈ part config

/-- A configuration that is accepted has no identifier in common with those of other
races. -/
def Admits (m : Saved) : Change → Prop
  | .save config => config.validate = .ok () →
    ∀ race other, race ≠ config.race.id → m race = some other → config.Apart other
  | .remove _ => True

/-- Every change finds configurations that it keeps apart from. -/
def Compatible (m : Saved) : List Change → Prop
  | [] => True
  | change :: changes => m.Admits change ∧ (m.after change).Compatible changes

end Saved

/-- A race with one event, whose only wave is launched and whose course is a start. -/
def smallRace (race n : BitVec 128) : Configuration where
  race := ⟨⟨race⟩, "", ""⟩
  events := [⟨⟨n⟩, ⟨race⟩, "", ⟨0⟩, ⟨2024, 5, 1, by decide, by decide, by decide⟩⟩]
  categories := []
  readers := [⟨⟨n⟩, ⟨race⟩, ""⟩]
  splits := [⟨⟨n⟩, ⟨n⟩, "", .start, ⟨0⟩, ⟨n⟩, .zero, .zero, .zero, none⟩]
  waves := [⟨⟨n⟩, ⟨n⟩, "", early 0, true⟩]

/-! ### One table -/

variable {α κ : Type} {key : α → κ} {part : Configuration → List α}
  {m : Saved} {table : List α} {race : RaceId} {config : Configuration}

/-- A table has what the saved configurations have, each under a key of its own. -/
structure Tabulates (key : α → κ) (part : Configuration → List α) (m : Saved)
    (table : List α) : Prop where
  keys : (table.map key).Nodup
  mem_iff : ∀ x, x ∈ table ↔ m.Has part x

namespace Tabulates

theorem nil : Tabulates key part .nothing [] := by
  refine ⟨List.nodup_nil, fun x => ?_⟩
  simp [Saved.Has, Saved.nothing]

theorem withKey?_eq_some_iff [DecidableEq κ] (h : Tabulates key part m table) {k : κ} {x : α} :
    withKey? key k table = some x ↔ m.Has part x ∧ key x = k := by
  rw [ChipTiming.withKey?_eq_some_iff h.keys, h.mem_iff]

/-- Removing a race, where it is known of each element whether it belongs to that
race. -/
theorem filter (h : Tabulates key part m table) {keep : α → Bool}
    (hkeep : ∀ race' config, m race' = some config → ∀ x ∈ part config,
      (keep x = true ↔ race' ≠ race)) :
    Tabulates key part (Function.update m race none) (table.filter keep) := by
  refine ⟨h.keys.sublist (List.filter_sublist.map key), fun x => ?_⟩
  rw [List.mem_filter, h.mem_iff]
  refine ⟨?_, ?_⟩
  · intro hkept
    obtain ⟨⟨race', config, hsaved, hx⟩, hx'⟩ := hkept
    refine ⟨race', config, ?_, hx⟩
    rw [Function.update_of_ne ((hkeep race' config hsaved x hx).mp hx'), hsaved]
  · intro hheld
    obtain ⟨race', config, hsaved, hx⟩ := hheld
    by_cases hrace : race' = race
    · rw [hrace, Function.update_self] at hsaved
      exact absurd hsaved (by simp)
    · rw [Function.update_of_ne hrace] at hsaved
      exact ⟨⟨race', config, hsaved, hx⟩, (hkeep race' config hsaved x hx).mpr hrace⟩

/-- Adding a race of which nothing is there, where all its keys are new. -/
theorem putAll [DecidableEq κ] (h : Tabulates key part m table) (hrace : m race = none)
    (hkeys : ((part config).map key).Nodup)
    (hnew : ∀ race' other, m race' = some other →
      ((part config).map key).Disjoint ((part other).map key)) :
    Tabulates key part (Function.update m race (some config))
      (ChipTiming.putAll key (part config) table) := by
  refine ⟨nodup_putAll h.keys, fun x => ?_⟩
  have happend : ChipTiming.putAll key (part config) table = table ++ part config := by
    refine putAll_eq_append hkeys fun y hy hmem => ?_
    obtain ⟨z, hz, hkey⟩ := List.mem_map.mp hmem
    obtain ⟨race', other, hsaved, hzother⟩ := (h.mem_iff z).mp hz
    exact hnew race' other hsaved (List.mem_map_of_mem hy)
      (hkey ▸ List.mem_map_of_mem hzother)
  rw [happend, List.mem_append, h.mem_iff]
  refine ⟨?_, ?_⟩
  · intro hmem
    rcases hmem with ⟨race', other, hsaved, hx⟩ | hx
    · refine ⟨race', other, ?_, hx⟩
      rw [Function.update_of_ne (by rintro rfl; simp [hrace] at hsaved), hsaved]
    · exact ⟨race, config, Function.update_self .., hx⟩
  · intro hheld
    obtain ⟨race', other, hsaved, hx⟩ := hheld
    by_cases hrace' : race' = race
    · rw [hrace', Function.update_self, Option.some.injEq] at hsaved
      exact Or.inr (hsaved ▸ hx)
    · rw [Function.update_of_ne hrace'] at hsaved
      exact Or.inl ⟨race', other, hsaved, hx⟩

end Tabulates

/-! ### The table of courses -/

theorem coursesOf_eq (config : Configuration) :
    coursesOf config = (ChipTiming.putAll id (config.splits.map Split.event) []).map
      fun event => (event, config.course event) := by
  rw [ChipTiming.putAll, List.foldl_map]
  rfl

theorem mem_coursesOf {entry : EventId × List Split} :
    entry ∈ coursesOf config ↔
      (∃ s ∈ config.splits, s.event = entry.1) ∧ entry.2 = config.course entry.1 := by
  have hevents : ∀ event, event ∈ ChipTiming.putAll id (config.splits.map Split.event) [] ↔
      ∃ s ∈ config.splits, s.event = event := by
    intro event
    have hkeys : event ∈ (ChipTiming.putAll id (config.splits.map Split.event) []).map id ↔
        event ∈ (config.splits.map Split.event).map id ∨ event ∈ ([] : List EventId).map id :=
      mem_keys_putAll
    simpa using hkeys
  obtain ⟨event, course⟩ := entry
  rw [coursesOf_eq, List.mem_map]
  refine ⟨?_, ?_⟩
  · intro hentry
    obtain ⟨event', hmem, heq⟩ := hentry
    obtain ⟨rfl, rfl⟩ := Prod.mk.inj heq
    exact ⟨(hevents event').mp hmem, rfl⟩
  · intro hentry
    obtain ⟨hsplit, hcourse⟩ := hentry
    exact ⟨event, (hevents event).mpr hsplit, Prod.ext rfl hcourse.symm⟩

theorem nodup_coursesOf (config : Configuration) :
    ((coursesOf config).map Prod.fst).Nodup := by
  have hnodup : ((ChipTiming.putAll id (config.splits.map Split.event) []).map id).Nodup :=
    nodup_putAll List.nodup_nil
  rw [coursesOf_eq, List.map_map]
  exact hnodup

theorem hasEvent_of_mem_coursesOf (h : config.validate = .ok ())
    {entry : EventId × List Split} (hentry : entry ∈ coursesOf config) :
    config.HasEvent entry.1 := by
  obtain ⟨⟨s, hs, hevent⟩, -⟩ := mem_coursesOf.mp hentry
  rw [← hevent]
  exact ((Configuration.wellFormed h).splits s hs).event

/-- Configurations apart have no course in common, because courses are of their
events. -/
theorem disjoint_coursesOf {other : Configuration} (h : config.validate = .ok ())
    (hother : other.validate = .ok ()) (hapart : config.Apart other) :
    ((coursesOf config).map Prod.fst).Disjoint ((coursesOf other).map Prod.fst) := by
  intro event hevent hevent'
  obtain ⟨entry, hentry, rfl⟩ := List.mem_map.mp hevent
  obtain ⟨entry', hentry', heq⟩ := List.mem_map.mp hevent'
  refine hapart.not_hasEvent (hasEvent_of_mem_coursesOf h hentry) ?_
  rw [← heq]
  exact hasEvent_of_mem_coursesOf hother hentry'

/-- Every course is one that an accepted configuration gave to an event. -/
def CoursesConfigured (c : Catalog) : Prop :=
  ∀ entry ∈ c.courses, ∃ config, config.validate = .ok () ∧ entry ∈ coursesOf config

theorem CoursesConfigured.purge {c : Catalog} (h : c.CoursesConfigured) (race : RaceId) :
    (c.purge race).CoursesConfigured :=
  fun entry hentry => h entry (List.mem_of_mem_filter hentry)

theorem CoursesConfigured.insert {c : Catalog} (h : c.CoursesConfigured)
    (hvalid : config.validate = .ok ()) : (c.insert config).CoursesConfigured := by
  intro entry hentry
  rcases mem_of_mem_putAll hentry with hnew | hkept
  · exact ⟨config, hvalid, hnew⟩
  · exact h entry hkept

theorem CoursesConfigured.after {c : Catalog} (h : c.CoursesConfigured) (change : Change) :
    (c.after change).CoursesConfigured := by
  cases change with
  | remove race => exact h.purge race
  | save config =>
      cases hvalid : config.validate with
      | error mistake => rwa [after_save_of_refused hvalid]
      | ok =>
          rw [after_save hvalid]
          exact (h.purge config.race.id).insert hvalid

/-- No two splits of a course have one identifier. -/
theorem CoursesConfigured.nodup_course {c : Catalog} (h : c.CoursesConfigured) {event : EventId}
    {course : List Split} (hcourse : c.course? event = some course) :
    (course.map Split.id).Nodup := by
  obtain ⟨entry, hentry, rfl⟩ := Option.map_eq_some_iff.mp hcourse
  obtain ⟨config, hvalid, hmem⟩ := h entry (mem_of_withKey? hentry).1
  rw [(mem_coursesOf.mp hmem).2]
  exact (Configuration.wellFormed hvalid).nodup_course entry.1

/-! ### What is saved stays in order -/

namespace Saved

/-- What is saved was accepted as a configuration of its race, and races are kept
apart. -/
structure Consistent (m : Saved) : Prop where
  valid : ∀ race config, m race = some config → config.validate = .ok ()
  race_eq : ∀ race config, m race = some config → config.race.id = race
  apart : ∀ race config race' other, m race = some config → m race' = some other →
    race ≠ race' → config.Apart other

theorem consistent_nothing : Consistent .nothing := by
  refine ⟨?_, ?_, ?_⟩ <;> simp [nothing]

theorem Consistent.forget (h : m.Consistent) (race : RaceId) :
    Consistent (Function.update m race none) := by
  have hold : ∀ race' config, Function.update m race none race' = some config →
      m race' = some config := by
    intro race' config hsaved
    by_cases hrace : race' = race
    · rw [hrace, Function.update_self] at hsaved
      exact absurd hsaved (by simp)
    · rwa [Function.update_of_ne hrace] at hsaved
  refine ⟨?_, ?_, ?_⟩
  · exact fun race' config hsaved => h.valid race' config (hold race' config hsaved)
  · exact fun race' config hsaved => h.race_eq race' config (hold race' config hsaved)
  · intro race' config race'' other hsaved hother
    exact h.apart race' config race'' other (hold race' config hsaved)
      (hold race'' other hother)

theorem Consistent.save (h : m.Consistent) (hvalid : config.validate = .ok ())
    (hapart : ∀ race other, race ≠ config.race.id → m race = some other → config.Apart other) :
    Consistent (Function.update m config.race.id (some config)) := by
  have hold : ∀ race other, Function.update m config.race.id (some config) race = some other →
      race = config.race.id ∧ other = config ∨
        race ≠ config.race.id ∧ m race = some other := by
    intro race other hsaved
    by_cases hrace : race = config.race.id
    · rw [hrace, Function.update_self, Option.some.injEq] at hsaved
      exact Or.inl ⟨hrace, hsaved.symm⟩
    · rw [Function.update_of_ne hrace] at hsaved
      exact Or.inr ⟨hrace, hsaved⟩
  refine ⟨?_, ?_, ?_⟩
  · intro race other hsaved
    rcases hold race other hsaved with ⟨-, rfl⟩ | ⟨-, hkept⟩
    · exact hvalid
    · exact h.valid race other hkept
  · intro race other hsaved
    rcases hold race other hsaved with ⟨rfl, rfl⟩ | ⟨-, hkept⟩
    · rfl
    · exact h.race_eq race other hkept
  · intro race other race' other' hsaved hsaved' hne
    rcases hold race other hsaved with ⟨hrace, hnew⟩ | ⟨hrace, hkept⟩
    · rcases hold race' other' hsaved' with ⟨hrace', -⟩ | ⟨hrace', hkept'⟩
      · exact absurd (hrace.trans hrace'.symm) hne
      · rw [hnew]
        exact hapart race' other' hrace' hkept'
    · rcases hold race' other' hsaved' with ⟨-, hnew'⟩ | ⟨-, hkept'⟩
      · rw [hnew']
        exact (hapart race other hrace hkept).symm
      · exact h.apart race other race' other' hkept hkept' hne

end Saved

/-! ### All tables -/

/-- What is saved is consistent, and every table holds its part of it. -/
structure Represents (c : Catalog) (m : Saved) : Prop where
  consistent : m.Consistent
  races : Tabulates Race.id (fun config => [config.race]) m c.races
  events : Tabulates Event.id Configuration.events m c.events
  categories : Tabulates Category.id Configuration.categories m c.categories
  readers : Tabulates TimeReader.id Configuration.readers m c.readers
  splits : Tabulates Split.id Configuration.splits m c.splits
  waves : Tabulates Wave.id Configuration.waves m c.waves
  courses : Tabulates Prod.fst coursesOf m c.courses

theorem represents_empty : Represents .empty .nothing :=
  ⟨Saved.consistent_nothing, .nil, .nil, .nil, .nil, .nil, .nil, .nil⟩

namespace Represents

variable {c : Catalog}

theorem race_of_event (h : c.Represents m) (hsaved : m race = some config) {e : Event}
    (he : e ∈ config.events) : e.race = race := by
  rw [(Configuration.wellFormed (h.consistent.valid race config hsaved)).eventRace e he,
    h.consistent.race_eq race config hsaved]

theorem race_of_reader (h : c.Represents m) (hsaved : m race = some config) {r : TimeReader}
    (hr : r ∈ config.readers) : r.race = race := by
  rw [(Configuration.wellFormed (h.consistent.valid race config hsaved)).readerRace r hr,
    h.consistent.race_eq race config hsaved]

/-- An event is of one race only. -/
theorem race_unique (h : c.Represents m) {race' : RaceId} {other : Configuration}
    (hsaved : m race = some config) (hother : m race' = some other) {event : EventId}
    (hevent : config.HasEvent event) (hevent' : other.HasEvent event) : race = race' := by
  by_contra hne
  exact (h.consistent.apart race config race' other hsaved hother hne).not_hasEvent hevent hevent'

/-- The events that removal goes by are those of the configuration saved for the
race. -/
theorem contains_gone (h : c.Represents m) {race' : RaceId} (hsaved : m race' = some config)
    {event : EventId} (hevent : config.HasEvent event) :
    ((c.events.filter (·.race == race)).map (·.id)).contains event = true ↔ race' = race := by
  rw [List.contains_iff_mem, List.mem_map]
  refine ⟨?_, ?_⟩
  · intro hgone
    obtain ⟨e, he, rfl⟩ := hgone
    rw [List.mem_filter, h.events.mem_iff, beq_iff_eq] at he
    obtain ⟨⟨owner, other, hother, he⟩, rfl⟩ := he
    rw [h.race_of_event hother he]
    exact h.race_unique hsaved hother hevent ⟨e, he, rfl⟩
  · rintro rfl
    obtain ⟨e, he, heq⟩ := hevent
    refine ⟨e, ?_, heq⟩
    rw [List.mem_filter, h.events.mem_iff, beq_iff_eq]
    exact ⟨⟨race', config, hsaved, he⟩, h.race_of_event hsaved he⟩

/-- So removal keeps what names an event of another race. -/
theorem keeps_iff (h : c.Represents m) {race' : RaceId} (hsaved : m race' = some config)
    {event : EventId} (hevent : config.HasEvent event) :
    (!((c.events.filter (·.race == race)).map (·.id)).contains event) = true ↔
      race' ≠ race := by
  rw [Bool.not_eq_true', ← Bool.not_eq_true, h.contains_gone hsaved hevent]

theorem purge (h : c.Represents m) (race : RaceId) :
    (c.purge race).Represents (Function.update m race none) := by
  refine ⟨h.consistent.forget race, h.races.filter ?_, h.events.filter ?_,
    h.categories.filter ?_, h.readers.filter ?_, h.splits.filter ?_, h.waves.filter ?_,
    h.courses.filter ?_⟩
  · intro race' config hsaved r hr
    rw [List.mem_singleton] at hr
    rw [hr, bne_iff_ne, h.consistent.race_eq race' config hsaved]
  · intro race' config hsaved e he
    rw [bne_iff_ne, h.race_of_event hsaved he]
  · intro race' config hsaved k hk
    have hwell := Configuration.wellFormed (h.consistent.valid race' config hsaved)
    exact h.keeps_iff hsaved (hwell.categoryEvent k hk)
  · intro race' config hsaved r hr
    rw [bne_iff_ne, h.race_of_reader hsaved hr]
  · intro race' config hsaved s hs
    have hwell := Configuration.wellFormed (h.consistent.valid race' config hsaved)
    exact h.keeps_iff hsaved (hwell.splits s hs).event
  · intro race' config hsaved w hw
    have hwell := Configuration.wellFormed (h.consistent.valid race' config hsaved)
    exact h.keeps_iff hsaved (hwell.waveEvent w hw)
  · intro race' config hsaved entry hentry
    have hvalid := h.consistent.valid race' config hsaved
    exact h.keeps_iff hsaved (hasEvent_of_mem_coursesOf hvalid hentry)

theorem insert (h : c.Represents m) (hvalid : config.validate = .ok ())
    (hrace : m config.race.id = none)
    (hapart : ∀ race other, m race = some other → config.Apart other) :
    (c.insert config).Represents (Function.update m config.race.id (some config)) := by
  have hwell := Configuration.wellFormed hvalid
  refine ⟨h.consistent.save hvalid fun race other _ => hapart race other,
    h.races.putAll hrace (List.nodup_singleton _) ?_,
    h.events.putAll hrace hwell.eventIds ?_,
    h.categories.putAll hrace hwell.categoryIds ?_,
    h.readers.putAll hrace hwell.readerIds ?_,
    h.splits.putAll hrace hwell.splitIds ?_,
    h.waves.putAll hrace hwell.waveIds ?_,
    h.courses.putAll hrace (nodup_coursesOf config) ?_⟩
  · intro race other hother
    rw [List.map_singleton, List.map_singleton, List.singleton_disjoint, List.mem_singleton,
      h.consistent.race_eq race other hother]
    rintro rfl
    rw [hrace] at hother
    exact absurd hother (by simp)
  · exact fun race other hother => (hapart race other hother).events
  · exact fun race other hother => (hapart race other hother).categories
  · exact fun race other hother => (hapart race other hother).readers
  · exact fun race other hother => (hapart race other hother).splits
  · exact fun race other hother => (hapart race other hother).waves
  · intro race other hother
    exact disjoint_coursesOf hvalid (h.consistent.valid race other hother)
      (hapart race other hother)

/-- How often a catalog was changed does not matter. -/
theorem setVersion (h : c.Represents m) (version : Nat) :
    ({ c with version := version } : Catalog).Represents m :=
  ⟨h.consistent, h.races, h.events, h.categories, h.readers, h.splits, h.waves, h.courses⟩

/-- **Every change keeps catalog and map together.** -/
theorem after (h : c.Represents m) {change : Change} (hadmits : m.Admits change) :
    (c.after change).Represents (m.after change) := by
  cases change with
  | remove race => exact (h.purge race).setVersion _
  | save config =>
      rw [Catalog.after, Saved.after, Catalog.update]
      cases hvalid : config.validate with
      | error mistake => exact h
      | ok =>
          have hgone := h.purge config.race.id
          have hsaved := hgone.insert hvalid (Function.update_self ..) ?_
          · rw [Function.update_idem] at hsaved
            exact hsaved.setVersion _
          · intro race other hother
            by_cases hrace : race = config.race.id
            · rw [hrace, Function.update_self] at hother
              exact absurd hother (by simp)
            · rw [Function.update_of_ne hrace] at hother
              exact hadmits hvalid race other hrace hother

end Represents

/-- **A catalog that was built from nothing represents what was saved.** -/
theorem represents_foldl {c : Catalog} {changes : List Change} (h : c.Represents m)
    (hcompatible : m.Compatible changes) :
    (changes.foldl Catalog.after c).Represents (changes.foldl Saved.after m) := by
  induction changes generalizing c m with
  | nil => exact h
  | cons change changes ih => exact ih (h.after hcompatible.1) hcompatible.2

/-- What was saved into an empty catalog is all that it has. -/
theorem represents_save (hvalid : config.validate = .ok ()) :
    (empty.after (.save config)).Represents
      (Function.update Saved.nothing config.race.id (some config)) := by
  have hadmits : Saved.nothing.Admits (.save config) := by
    intro _ race other _ hother
    simp [Saved.nothing] at hother
  have hsaved : Saved.nothing.after (.save config) =
      Function.update Saved.nothing config.race.id (some config) := by
    rw [Saved.after, hvalid]
  rw [← hsaved]
  exact represents_empty.after hadmits

end Catalog

end ChipTiming
