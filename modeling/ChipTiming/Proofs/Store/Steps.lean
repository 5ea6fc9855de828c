/-
What happens to a store.

A store lives through operations and through cycles that write to it.  Either is a
`Step`, and a history is a list of steps, each of which may fail.  What a cycle
asks and the catalog it is given may be the store's own, so both are functions of
the store.  Results about some histories only put a condition on every step.

All that a cycle does to a store is to write to it, with operations that there are
anyway (`exists_writes_recompute`).  So whatever happens, no stores come of it but
those that can be reached by operations (`Reachable.foldl_next`).
-/
import ChipTiming.Proofs.Cycle.Commit
import ChipTiming.Proofs.Store.Reachable

namespace ChipTiming.Store

variable {s : Store}

/-- What happens to a store: an operation, or a cycle that writes to it. -/
inductive Step where
  | operate (operation : Operation)
  | recompute (scope : Scope) (source : Store → Source) (catalog : Store → Catalog)
      (settings : Settings) (race : RaceId)

/-- The store after a step, whether it succeeded or not. -/
def next (s : Store) : Step → Store
  | .operate operation => s.perform operation
  | .recompute scope source catalog settings race =>
    (scope.recompute (source s) (catalog s) settings race s).1

/-! ### Cycles as operations -/

/-- Whether an operation is one of the two that cycles make use of. -/
def Operation.isWrite : Operation → Bool
  | .upsertResults _ _ | .updateStatus _ _ => true
  | .saveConfiguration _ | .register _ | .record _ | .enter _ | .setWriteFault _ => false

theorem exists_writes_writeChanges (s : Store) (changes : List StatusChange) :
    ∃ writes : List Operation, (∀ write ∈ writes, write.isWrite = true) ∧
      (writeChanges s changes).1 = writes.foldl perform s := by
  induction changes generalizing s with
  | nil => exact ⟨[], List.forall_mem_nil _, rfl⟩
  | cons change changes ih =>
      rw [writeChanges]
      cases hwrite : s.updateStatus change.athlete change.next with
      | error failure => exact ⟨[], List.forall_mem_nil _, rfl⟩
      | ok written =>
          obtain ⟨writes, hwrites, heq⟩ := ih written
          refine ⟨.updateStatus change.athlete change.next :: writes,
            List.forall_mem_cons.mpr ⟨rfl, hwrites⟩, ?_⟩
          rw [List.foldl_cons, perform, hwrite]
          exact heq

/-- All that a cycle does to a store is to write to it. -/
theorem exists_writes_recompute (s : Store) (scope : Scope) (source : Source)
    (catalog : Catalog) (settings : Settings) (race : RaceId) :
    ∃ writes : List Operation, (∀ write ∈ writes, write.isWrite = true) ∧
      (scope.recompute source catalog settings race s).1 = writes.foldl perform s := by
  rw [scope.recompute_eq]
  cases scope.compute source catalog settings race with
  | error failure => exact ⟨[], List.forall_mem_nil _, rfl⟩
  | ok report =>
      rw [commitComputed, commit]
      cases hwrite : s.upsertResults report.race report.results with
      | error failure => exact ⟨[], List.forall_mem_nil _, rfl⟩
      | ok written =>
          obtain ⟨writes, hwrites, heq⟩ := exists_writes_writeChanges written report.changes
          refine ⟨.upsertResults report.race report.results :: writes,
            List.forall_mem_cons.mpr ⟨rfl, hwrites⟩, ?_⟩
          rw [List.foldl_cons, perform, hwrite]
          exact heq

/-! ### Where steps lead -/

theorem Reachable.foldl_perform (hs : s.Reachable) (operations : List Operation) :
    (operations.foldl Store.perform s).Reachable := by
  induction operations generalizing s with
  | nil => exact hs
  | cons operation operations ih => exact ih (hs.perform operation)

theorem Reachable.recompute (hs : s.Reachable) (scope : Scope) (source : Source)
    (catalog : Catalog) (settings : Settings) (race : RaceId) :
    (scope.recompute source catalog settings race s).1.Reachable := by
  obtain ⟨writes, -, heq⟩ := s.exists_writes_recompute scope source catalog settings race
  rw [heq]
  exact hs.foldl_perform writes

theorem Reachable.next (hs : s.Reachable) (step : Step) : (s.next step).Reachable := by
  cases step with
  | operate operation => exact hs.perform operation
  | recompute scope source catalog settings race =>
      exact hs.recompute scope (source s) (catalog s) settings race

theorem Reachable.foldl_next (hs : s.Reachable) (steps : List Step) :
    (steps.foldl Store.next s).Reachable := by
  induction steps generalizing s with
  | nil => exact hs
  | cons step steps ih => exact ih (hs.next step)

end ChipTiming.Store
