/-
Statuses only move on.

Configurations come and go, reads come late and entries are made by hand, so what
an athlete's reads amount to may well go back from one cycle to the next.  The
status on record does not.  Scoring proposes stages of the race only, and the
table of allowed changes has no way back among them nor a way out of what
officials set (`Status.Onward.of_canBecome`).

That is about the status that a change was checked against, which is why it
matters that it is the one on record that is overwritten: a change reported for an
athlete was found for that athlete, on the roster as it was when the cycle began
(`Athlete.onward_after`).  So every cycle keeps the roster and moves statuses on,
whether it succeeds or fails, and the induction is over the steps of a history
(`Store.athletes_onward`).
-/
import ChipTiming.Proofs.Cycle.Athletes
import ChipTiming.Proofs.Stages
import ChipTiming.Proofs.Store.Steps

namespace ChipTiming

namespace Athlete

/-- The same registration, with a status that follows the one before. -/
structure Onward (before after : Athlete) : Prop where
  registration : after = { before with status := after.status }
  status : before.status.Onward after.status

theorem Onward.refl (a : Athlete) : a.Onward a := ⟨rfl, .refl _⟩

theorem Onward.trans {a b c : Athlete} (hab : a.Onward b) (hbc : b.Onward c) : a.Onward c where
  registration := by rw [hbc.registration, hab.registration]
  status := hab.status.trans hbc.status

end Athlete

/-! ### Rosters -/

/-- The same athletes in the same order, each with a status that follows the one
before. -/
def RosterOnward (before after : List Athlete) : Prop := List.Forall₂ Athlete.Onward before after

namespace RosterOnward

variable {before between after : List Athlete}

theorem refl (athletes : List Athlete) : RosterOnward athletes athletes :=
  List.forall₂_same.mpr fun a _ => .refl a

theorem trans (h : RosterOnward before between) (h' : RosterOnward between after) :
    RosterOnward before after := by
  induction h generalizing after with
  | nil => exact h'
  | cons hab _ ih =>
      cases h' with
      | cons hbc hrest => exact List.Forall₂.cons (hab.trans hbc) (ih hrest)

theorem of_map {f : Athlete → Athlete} (h : ∀ a ∈ before, a.Onward (f a)) :
    RosterOnward before (before.map f) :=
  List.forall₂_map_right_iff.mpr (List.forall₂_same.mpr h)

end RosterOnward

/-! ### What happens to a store -/

variable {s : Store} {catalog : Catalog} {settings : Settings} {race : RaceId}
  {events : List EventId}

/-- Whether an operation leaves the roster to others; officials register athletes and
set statuses. -/
def Store.Operation.sparesRoster : Store.Operation → Bool
  | .register _ | .updateStatus _ _ => false
  | .saveConfiguration _ | .record _ | .enter _ | .setWriteFault _ | .upsertResults _ _ => true

/-- A step without the doing of officials, where cycles ask the store that they write
to. -/
def Store.Step.SparesRoster : Store.Step → Prop
  | .operate operation => operation.sparesRoster = true
  | .recompute _ source _ _ _ => source = Store.source

namespace Store

theorem athletes_perform (s : Store) {operation : Operation}
    (h : operation.sparesRoster = true) : (s.perform operation).athletes = s.athletes := by
  cases operation with
  | register athlete => cases h
  | updateStatus id status => cases h
  | saveConfiguration config => rw [perform_saveConfiguration]
  | upsertResults race batch =>
      rcases perform_upsertResults s race batch with heq | heq <;> rw [heq]
      rfl
  | record reads => rfl
  | enter entry => rfl
  | setWriteFault reason => rfl

end Store

/-- The changes that are reported move an athlete's status on. -/
theorem Athlete.onward_after (hids : (s.athletes.map Athlete.id).Nodup) {a : Athlete}
    (ha : a ∈ s.athletes) :
    a.Onward
      (a.after (Report.ofEvents race (events.map (s.score catalog settings race))).changes) := by
  rcases a.after_cases
      (Report.ofEvents race (events.map (s.score catalog settings race))).changes with
    ⟨-, heq⟩ | ⟨change, hreported, hid, heq⟩
  · rw [heq]
    exact .refl a
  · rw [heq]
    refine ⟨rfl, ?_⟩
    obtain ⟨event, -, -, b, hb, waveStart, -, hscored⟩ := Store.mem_changes_iff.mp hreported
    obtain ⟨hnamed, hallowed⟩ := change_scoreTrace_eq_some hscored
    -- The status that the change was checked against is the one on record.
    have hathlete : a.id = b.id := by rw [← hid, hnamed]; rfl
    obtain rfl : a = b :=
      List.inj_on_of_nodup_map hids ha (Store.mem_athletesOf.mp hb).1 hathlete
    refine Status.Onward.of_canBecome hallowed ?_
    rw [hnamed]
    exact isAdministrative_scoredStatus

namespace Store

/-- Whatever happens without the doing of officials, no one joins or leaves the roster
and statuses only move on. -/
theorem athletes_onward_next (hs : s.Reachable) {step : Step} (hspares : step.SparesRoster) :
    RosterOnward s.athletes (s.next step).athletes := by
  cases step with
  | operate operation =>
      rw [next, athletes_perform s hspares]
      exact .refl _
  | recompute scope source catalog settings race =>
      obtain rfl : source = Store.source := hspares
      rw [next]
      rcases scope.recompute_source hs (catalog s) settings race with
        ⟨failure, heq⟩ | ⟨events, report, -, rfl, heq⟩
      · rw [heq]
        exact .refl _
      · rw [heq, athletes_written]
        exact .of_map fun a ha => Athlete.onward_after hs.keyed.athletes ha

/--
**In the long run, too, no one joins or leaves the roster and statuses only move on.**
An athlete whose status is one that officials set keeps it; one at a stage of the race
ends up there or at a later one.
-/
theorem athletes_onward (hs : s.Reachable) {steps : List Step}
    (hspares : ∀ step ∈ steps, step.SparesRoster) :
    RosterOnward s.athletes (steps.foldl next s).athletes := by
  induction steps generalizing s with
  | nil => exact .refl _
  | cons step steps ih =>
      obtain ⟨hfirst, hrest⟩ := List.forall_mem_cons.mp hspares
      exact (athletes_onward_next hs hfirst).trans (ih (hs.next step) hrest)

end Store

/-- The race of the starter with nothing counted in the first minute. -/
def slowStart : Configuration :=
  { Catalog.smallRace 1 1 with
    splits := (Catalog.smallRace 1 1).splits.map fun split =>
      { split with minTime := .ofSeconds 60 } }

/-- A cycle, a configuration by which the starter has not been seen, and a cycle
again. -/
def startRefused : List Store.Step :=
  let cycle : Store.Step := .recompute .wholeRace Store.source (fun _ => .empty) .standard ⟨1⟩
  [cycle, .operate (.saveConfiguration slowStart), cycle]

theorem sparesRoster_startRefused : ∀ step ∈ startRefused, step.SparesRoster := by
  simp [startRefused, Store.Step.SparesRoster, Store.Operation.sparesRoster]

/-- The start does not count any more, but the starter stays on the course. -/
theorem athletes_onward_startRefused :
    (startRefused.foldl Store.next oneStarter).athletes =
        [{ starter 1 "a" with status := .running }] ∧
      ((startRefused.foldl Store.next oneStarter).result? ⟨1⟩ ⟨1⟩).map Slot.isVisited =
        some false ∧
      RosterOnward oneStarter.athletes (startRefused.foldl Store.next oneStarter).athletes :=
  ⟨by cbv, by cbv, Store.athletes_onward reachable_oneStarter sparesRoster_startRefused⟩

end ChipTiming
