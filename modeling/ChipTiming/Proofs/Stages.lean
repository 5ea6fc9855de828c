/-
The stages of a race.

Scoring sets three of the statuses, and they have an order.  One status follows
another without the doing of officials if it is the same, or if both are stages
and it is the later one (`Status.Onward`).  The table of allowed changes agrees
with that: among the stages it has just the ways onward
(`Status.Onward.of_canBecome`, `Status.Onward.canBecome`).
-/
import ChipTiming.Status

namespace ChipTiming

namespace Status

/-- The statuses that scoring sets, in their order. -/
def stages : List Status := [notYetStarted, running, finished]

theorem mem_stages_iff {status : Status} :
    status ∈ stages ↔ status.isAdministrative = false := by
  cases status <;> decide

/-- One status follows another without the doing of officials. -/
structure Onward (before after : Status) : Prop where
  /-- What officials set stays. -/
  official : before.isAdministrative = true → after = before
  /-- A stage stays or is followed by a later one. -/
  stage : before.isAdministrative = false →
    after ∈ stages ∧ stages.idxOf before ≤ stages.idxOf after

variable {a b c : Status}

instance : Decidable (a.Onward b) :=
  decidable_of_iff ((a.isAdministrative = true → b = a) ∧
      (a.isAdministrative = false → b ∈ stages ∧ stages.idxOf a ≤ stages.idxOf b))
    ⟨fun h => ⟨h.1, h.2⟩, fun h => ⟨h.official, h.stage⟩⟩

theorem Onward.refl (a : Status) : a.Onward a where
  official _ := rfl
  stage h := ⟨mem_stages_iff.mpr h, Nat.le_refl _⟩

theorem Onward.trans (hab : a.Onward b) (hbc : b.Onward c) : a.Onward c := by
  refine ⟨?_, ?_⟩
  · intro ha
    have hb : b = a := hab.official ha
    subst hb
    exact hbc.official ha
  · intro ha
    obtain ⟨hb, hle⟩ := hab.stage ha
    obtain ⟨hc, hle'⟩ := hbc.stage (mem_stages_iff.mp hb)
    exact ⟨hc, Nat.le_trans hle hle'⟩

/-- A change to a stage that is allowed leads onward. -/
theorem Onward.of_canBecome (hallowed : a.canBecome b = true)
    (hstage : b.isAdministrative = false) : a.Onward b := by
  revert hallowed hstage
  cases a <;> cases b <;> decide

/-- So does one that takes back neither the start nor the finish. -/
theorem Onward.of_stages (ha : a.isAdministrative = false) (hb : b.isAdministrative = false)
    (hstarted : b = .notYetStarted → a = .notYetStarted)
    (hfinished : a = .finished → b = .finished) : a.Onward b := by
  revert ha hb hstarted hfinished
  cases a <;> cases b <;> decide

/-- Every way onward from a stage is allowed. -/
theorem Onward.canBecome (h : a.Onward b) (ha : a.isAdministrative = false) :
    a.canBecome b = true := by
  revert h ha
  cases a <;> cases b <;> decide

/-- A stage is told by whether it is the first and whether it is the last. -/
theorem eq_of_stages (ha : a.isAdministrative = false) (hb : b.isAdministrative = false)
    (hstarted : a = .notYetStarted ↔ b = .notYetStarted)
    (hfinished : a = .finished ↔ b = .finished) : a = b := by
  revert ha hb hstarted hfinished
  cases a <;> cases b <;> decide

end Status

end ChipTiming
