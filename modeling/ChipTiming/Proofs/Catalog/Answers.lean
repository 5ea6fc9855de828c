/-
A catalog answers as the configurations saved last do.

`Answers` goes through everything that can be asked of a catalog and says what the
answer is in terms of the map alone.  Looking up an identifier finds the one
entity of the saved configurations that has it.  The course of an event is the
course that its configuration gives it.  And a list for an event or a race is what
the configuration of that race has, in the order that the list promises; since
this order is strict, the list is determined.

All of it follows from `Represents`: the look-ups read a table by its key, and the
lists filter a table down to the part of one configuration
(`Tabulates.isListing`).
-/
import ChipTiming.Proofs.Catalog.Saved
import ChipTiming.Proofs.Listing

namespace ChipTiming

open Std

namespace Configuration

variable {c : Configuration} {event : EventId}

theorem mem_course {s : Split} : s ∈ c.course event ↔ s ∈ c.splits ∧ s.event = event := by
  rw [course, courseOrder, List.mem_mergeSort, List.mem_filter, beq_iff_eq]

theorem course_ne_nil_iff : c.course event ≠ [] ↔ ∃ s ∈ c.splits, s.event = event := by
  refine ⟨?_, ?_⟩
  · intro h
    obtain ⟨s, hs⟩ := List.exists_mem_of_ne_nil _ h
    exact ⟨s, mem_course.mp hs⟩
  · intro hsplits
    obtain ⟨s, hs⟩ := hsplits
    exact List.ne_nil_of_mem (mem_course.mpr hs)

/-- Whether an event has a launched wave. -/
def isLaunched (c : Configuration) (event : EventId) : Bool :=
  c.waves.any fun w => w.event == event && w.isLaunched

end Configuration

namespace Catalog

/-! ### What is asked of a catalog -/

section

variable {α β γ : Type} [Ord β] [Ord γ]

/-- A list for each event: what the configuration with that event has for it, in
order, and nothing for an event that no configuration has. -/
structure ListsByEvent (m : Saved) (first : α → β) (second : α → γ)
    (part : Configuration → List α) (eventOf : α → EventId) (listing : EventId → List α) :
    Prop where
  listed : ∀ race config event, m race = some config → config.HasEvent event →
    IsListing first second ((part config).filter (eventOf · == event)) (listing event)
  unlisted : ∀ event, (∀ race config, m race = some config → ¬config.HasEvent event) →
    listing event = []

/-- A list for each race: what its configuration has, in order. -/
def ListsByRace (m : Saved) (first : α → β) (second : α → γ) (part : Configuration → List α)
    (listing : RaceId → List α) : Prop :=
  ∀ race, IsListing first second ((m race).elim [] part) (listing race)

end

/-- Everything that can be looked up is what the saved configurations say. -/
structure Answers (c : Catalog) (m : Saved) : Prop where
  race : ∀ id, c.race? id = (m id).map Configuration.race
  event : ∀ id e, c.event? id = some e ↔ m.Has Configuration.events e ∧ e.id = id
  category : ∀ id k, c.category? id = some k ↔ m.Has Configuration.categories k ∧ k.id = id
  reader : ∀ id r, c.reader? id = some r ↔ m.Has Configuration.readers r ∧ r.id = id
  split : ∀ id s, c.split? id = some s ↔ m.Has Configuration.splits s ∧ s.id = id
  wave : ∀ id w, c.wave? id = some w ↔ m.Has Configuration.waves w ∧ w.id = id
  /-- An event has a course just if its configuration has splits for it. -/
  course : ∀ event course, c.course? event = some course ↔
    ∃ race config, m race = some config ∧ config.HasEvent event ∧
      course = config.course event ∧ course ≠ []
  start : ∀ event s, c.start? event = some s ↔
    ∃ race config, m race = some config ∧ s ∈ config.course event ∧ s.isStart = true
  wavesOf : ListsByEvent m Wave.startTime Wave.id Configuration.waves Wave.event c.wavesOf
  categoriesOf : ListsByEvent m Category.name Category.id Configuration.categories
    Category.event c.categoriesOf
  eventsOf : ListsByRace m Event.date Event.id Configuration.events c.eventsOf
  readersOf : ListsByRace m TimeReader.name TimeReader.id Configuration.readers c.readersOf
  /-- In the order of `eventsOf`. -/
  launchedEvents : ∀ race, c.launchedEvents race =
    (m race).elim [] fun config =>
      ((c.eventsOf race).filter fun e => config.isLaunched e.id).map Event.id

/-! ### Lists out of a table -/

variable {α β γ : Type} {m : Saved} {part : Configuration → List α} {first : α → β}
  {second : α → γ} {table wanted : List α}

/-- Filtering a table down to what is wanted, each under a key of its own. -/
theorem Tabulates.perm_filter (h : Tabulates second part m table) {keep : α → Bool}
    (hkeys : (wanted.map second).Nodup)
    (hkeep : ∀ x, m.Has part x ∧ keep x = true ↔ x ∈ wanted) :
    (table.filter keep).Perm wanted := by
  have htable : (table.filter keep).Nodup := h.keys.of_map.filter keep
  rw [List.perm_ext_iff_of_nodup htable hkeys.of_map]
  intro x
  rw [List.mem_filter, h.mem_iff, hkeep]

theorem Tabulates.isListing [Ord β] [Ord γ] [TransOrd β] [LawfulEqOrd β] [TransOrd γ]
    [LawfulEqOrd γ] (h : Tabulates second part m table) {keep : α → Bool}
    (hkeys : (wanted.map second).Nodup)
    (hkeep : ∀ x, m.Has part x ∧ keep x = true ↔ x ∈ wanted) :
    IsListing first second wanted (sortedBy first second (table.filter keep)) := by
  have hnodup : ((table.filter keep).map second).Nodup :=
    h.keys.sublist (List.filter_sublist.map second)
  exact (isListing_sortedBy hnodup).of_perm (h.perm_filter hkeys hkeep)

namespace Represents

variable {c : Catalog}

theorem listsByEvent [Ord β] [Ord γ] [TransOrd β] [LawfulEqOrd β] [TransOrd γ]
    [LawfulEqOrd γ] (h : c.Represents m) {eventOf : α → EventId}
    (htable : Tabulates second part m table)
    (hkeys : ∀ race config, m race = some config → ((part config).map second).Nodup)
    (hevent : ∀ race config, m race = some config → ∀ x ∈ part config,
      config.HasEvent (eventOf x)) :
    ListsByEvent m first second part eventOf fun event =>
      sortedBy first second (table.filter (eventOf · == event)) := by
  refine ⟨?_, ?_⟩
  · intro race config event hsaved hhas
    refine htable.isListing ((hkeys race config hsaved).sublist (List.filter_sublist.map _)) ?_
    intro x
    rw [List.mem_filter]
    refine ⟨?_, ?_⟩
    · intro hheld
      obtain ⟨⟨race', other, hother, hx⟩, hx'⟩ := hheld
      have hhas' : other.HasEvent event := beq_iff_eq.mp hx' ▸ hevent race' other hother x hx
      obtain rfl := h.race_unique hsaved hother hhas hhas'
      obtain rfl : config = other := Option.some.inj (hsaved.symm.trans hother)
      exact ⟨hx, hx'⟩
    · intro hmem
      obtain ⟨hx, hx'⟩ := hmem
      exact ⟨⟨race, config, hsaved, hx⟩, hx'⟩
  · intro event hnone
    have hempty : (table.filter (eventOf · == event)).Perm [] := by
      refine htable.perm_filter List.nodup_nil fun x => ?_
      simp only [List.not_mem_nil, iff_false, not_and]
      rintro ⟨race, config, hsaved, hx⟩ hx'
      exact hnone race config hsaved (beq_iff_eq.mp hx' ▸ hevent race config hsaved x hx)
    rw [hempty.eq_nil, sortedBy, List.mergeSort_nil]

theorem listsByRace [Ord β] [Ord γ] [TransOrd β] [LawfulEqOrd β] [TransOrd γ]
    [LawfulEqOrd γ] {raceOf : α → RaceId} (htable : Tabulates second part m table)
    (hkeys : ∀ race config, m race = some config → ((part config).map second).Nodup)
    (hrace : ∀ race config, m race = some config → ∀ x ∈ part config, raceOf x = race) :
    ListsByRace m first second part fun race =>
      sortedBy first second (table.filter (raceOf · == race)) := by
  intro race
  have hwanted : ∀ x, m.Has part x ∧ (raceOf x == race) = true ↔
      x ∈ (m race).elim [] part := by
    intro x
    rw [beq_iff_eq]
    refine ⟨?_, ?_⟩
    · intro hheld
      obtain ⟨⟨race', config, hsaved, hx⟩, rfl⟩ := hheld
      rw [hrace race' config hsaved x hx, hsaved]
      exact hx
    · intro hx
      cases hsaved : m race with
      | none => simp [hsaved] at hx
      | some config =>
          rw [hsaved, Option.elim_some] at hx
          exact ⟨⟨race, config, hsaved, hx⟩, hrace race config hsaved x hx⟩
  refine htable.isListing ?_ hwanted
  cases hsaved : m race with
  | none => exact List.nodup_nil
  | some config => exact hkeys race config hsaved

/-! ### Courses and starts -/

theorem course?_eq_some_iff (h : c.Represents m) {event : EventId} {course : List Split} :
    c.course? event = some course ↔ ∃ race config, m race = some config ∧
      config.HasEvent event ∧ course = config.course event ∧ course ≠ [] := by
  rw [course?, Option.map_eq_some_iff]
  refine ⟨?_, ?_⟩
  · intro hfound
    obtain ⟨entry, hentry, rfl⟩ := hfound
    obtain ⟨⟨race, config, hsaved, hmem⟩, rfl⟩ := h.courses.withKey?_eq_some_iff.mp hentry
    have hhas := hasEvent_of_mem_coursesOf (h.consistent.valid race config hsaved) hmem
    obtain ⟨hsplits, heq⟩ := mem_coursesOf.mp hmem
    exact ⟨race, config, hsaved, hhas, heq,
      heq ▸ Configuration.course_ne_nil_iff.mpr hsplits⟩
  · intro hheld
    obtain ⟨race, config, hsaved, hhas, rfl, hne⟩ := hheld
    refine ⟨(event, config.course event), ?_, rfl⟩
    rw [h.courses.withKey?_eq_some_iff]
    exact ⟨⟨race, config, hsaved,
      mem_coursesOf.mpr ⟨Configuration.course_ne_nil_iff.mp hne, rfl⟩⟩, rfl⟩

/-- A start that is found is the one start of its event. -/
theorem start?_eq_some_iff (h : c.Represents m) {event : EventId} {s : Split} :
    c.start? event = some s ↔
      ∃ race config, m race = some config ∧ s ∈ config.course event ∧ s.isStart = true := by
  rw [start?, Option.bind_eq_some_iff]
  refine ⟨?_, ?_⟩
  · intro hfound
    obtain ⟨course, hcourse, hs⟩ := hfound
    obtain ⟨race, config, hsaved, -, rfl, -⟩ := h.course?_eq_some_iff.mp hcourse
    exact ⟨race, config, hsaved, List.mem_of_find?_eq_some hs, List.find?_some hs⟩
  · intro hheld
    obtain ⟨race, config, hsaved, hs, hstart⟩ := hheld
    have hwell := Configuration.wellFormed (h.consistent.valid race config hsaved)
    obtain ⟨hsplit, hevent⟩ := Configuration.mem_course.mp hs
    have hhas : config.HasEvent event := hevent ▸ (hwell.splits s hsplit).event
    refine ⟨config.course event, h.course?_eq_some_iff.mpr
      ⟨race, config, hsaved, hhas, rfl, List.ne_nil_of_mem hs⟩, ?_⟩
    cases hfound : (config.course event).find? (·.isStart) with
    | none => exact absurd hstart (List.find?_eq_none.mp hfound s hs)
    | some s' =>
        obtain ⟨hsplit', hevent'⟩ :=
          Configuration.mem_course.mp (List.mem_of_find?_eq_some hfound)
        rw [hwell.eq_of_isStart hsplit hsplit' (hevent.trans hevent'.symm) hstart
          (List.find?_some hfound)]

/-! ### Launched events -/

theorem any_waves_eq (h : c.Represents m) {race : RaceId} {config : Configuration}
    (hsaved : m race = some config) {event : EventId} (hhas : config.HasEvent event) :
    (c.waves.any fun w => w.event == event && w.isLaunched) = config.isLaunched event := by
  rw [Bool.eq_iff_iff, Configuration.isLaunched, List.any_eq_true, List.any_eq_true]
  refine exists_congr fun w => and_congr_left fun hw => ?_
  rw [Bool.and_eq_true, beq_iff_eq] at hw
  rw [h.waves.mem_iff]
  refine ⟨?_, ?_⟩
  · intro hheld
    obtain ⟨race', other, hother, hmem⟩ := hheld
    have hwell := Configuration.wellFormed (h.consistent.valid race' other hother)
    have hhas' : other.HasEvent event := hw.1 ▸ hwell.waveEvent w hmem
    obtain rfl := h.race_unique hsaved hother hhas hhas'
    obtain rfl : config = other := Option.some.inj (hsaved.symm.trans hother)
    exact hmem
  · exact fun hmem => ⟨race, config, hsaved, hmem⟩

/-! ### All answers -/

theorem race?_eq (h : c.Represents m) (id : RaceId) :
    c.race? id = (m id).map Configuration.race := by
  refine Option.ext fun race => ?_
  rw [race?, h.races.withKey?_eq_some_iff, Option.map_eq_some_iff]
  refine ⟨?_, ?_⟩
  · intro hheld
    obtain ⟨⟨race', config, hsaved, hmem⟩, rfl⟩ := hheld
    rw [List.mem_singleton] at hmem
    refine ⟨config, ?_, hmem.symm⟩
    rw [hmem, h.consistent.race_eq race' config hsaved, hsaved]
  · intro hheld
    obtain ⟨config, hsaved, rfl⟩ := hheld
    exact ⟨⟨id, config, hsaved, List.mem_singleton_self _⟩, h.consistent.race_eq id config hsaved⟩

theorem answers (h : c.Represents m) : c.Answers m := by
  have hwell {race : RaceId} {config : Configuration} (hsaved : m race = some config) :
      config.WellFormed := Configuration.wellFormed (h.consistent.valid race config hsaved)
  have hevents : ListsByRace m Event.date Event.id Configuration.events c.eventsOf :=
    listsByRace h.events
      (fun race config hsaved => (hwell hsaved).eventIds)
      fun race config hsaved e he => h.race_of_event hsaved he
  refine {
    race := h.race?_eq
    event := fun _ _ => h.events.withKey?_eq_some_iff
    category := fun _ _ => h.categories.withKey?_eq_some_iff
    reader := fun _ _ => h.readers.withKey?_eq_some_iff
    split := fun _ _ => h.splits.withKey?_eq_some_iff
    wave := fun _ _ => h.waves.withKey?_eq_some_iff
    course := fun _ _ => h.course?_eq_some_iff
    start := fun _ _ => h.start?_eq_some_iff
    wavesOf := h.listsByEvent h.waves
      (fun race config hsaved => (hwell hsaved).waveIds)
      fun race config hsaved w hw => (hwell hsaved).waveEvent w hw
    categoriesOf := h.listsByEvent h.categories
      (fun race config hsaved => (hwell hsaved).categoryIds)
      fun race config hsaved k hk => (hwell hsaved).categoryEvent k hk
    eventsOf := hevents
    readersOf := listsByRace h.readers
      (fun race config hsaved => (hwell hsaved).readerIds)
      fun race config hsaved r hr => h.race_of_reader hsaved hr
    launchedEvents := ?_ }
  intro race
  have hperm := (hevents race).perm
  rw [launchedEvents]
  cases hsaved : m race with
  | none =>
      rw [hsaved, Option.elim_none] at hperm
      rw [hperm.eq_nil]
      rfl
  | some config =>
      rw [hsaved, Option.elim_some] at hperm
      rw [Option.elim_some]
      refine congrArg (List.map Event.id) (List.filter_congr fun e he => ?_)
      exact h.any_waves_eq hsaved ⟨e, hperm.mem_iff.mp he, rfl⟩

end Represents

/--
**A catalog answers as what is saved.**  Whatever configurations were saved, refused
or replaced and whatever races were removed, in any order, every look-up gives what
the configurations saved last say, as long as those of different races share no
identifier.
-/
theorem answers_foldl_after (changes : List Change)
    (hcompatible : Saved.nothing.Compatible changes) :
    (changes.foldl Catalog.after .empty).Answers (changes.foldl Saved.after .nothing) :=
  (represents_foldl represents_empty hcompatible).answers

/-- Two races, an attempt to save the second with no start, the first again with
everything new, and the removal of the second. -/
def smallChanges : List Change :=
  [.save (smallRace 1 1), .save (smallRace 2 2),
    .save { smallRace 2 3 with splits := (smallRace 2 3).splits.map ({ · with kind := .finish }) },
    .save (smallRace 1 4), .remove ⟨2⟩]

theorem apart_smallRace {race n race' n' : BitVec 128} (h : n ≠ n') :
    (smallRace race n).Apart (smallRace race' n') := by
  constructor <;> simp [smallRace, h.symm]

theorem answers_foldl_smallChanges :
    Saved.nothing.Compatible smallChanges ∧
      (smallChanges.foldl Catalog.after .empty).Answers
        (smallChanges.foldl Saved.after .nothing) := by
  have hcompatible : Saved.nothing.Compatible smallChanges := by
    refine ⟨?_, ?_, ?_, ?_, trivial, trivial⟩
    · intro _ race other _ hother
      exact absurd hother (by simp [Saved.nothing])
    · intro _ race other _ hother
      have hother' : Function.update Saved.nothing ⟨1⟩ (some (smallRace 1 1)) race
          = some other := hother
      rw [Function.update_apply] at hother'
      split at hother'
      · rw [← Option.some.inj hother']
        exact apart_smallRace (by decide)
      · exact absurd hother' (by simp [Saved.nothing])
    · intro hvalid
      exact absurd hvalid (by decide)
    · intro _ race other hne hother
      have hother' : Function.update (Function.update Saved.nothing ⟨1⟩ (some (smallRace 1 1)))
          ⟨2⟩ (some (smallRace 2 2)) race = some other := hother
      have hne' : race ≠ ⟨1⟩ := hne
      rw [Function.update_apply, Function.update_of_ne hne'] at hother'
      split at hother'
      · rw [← Option.some.inj hother']
        exact apart_smallRace (by decide)
      · exact absurd hother' (by simp [Saved.nothing])
  exact ⟨hcompatible, answers_foldl_after smallChanges hcompatible⟩

end Catalog

end ChipTiming
