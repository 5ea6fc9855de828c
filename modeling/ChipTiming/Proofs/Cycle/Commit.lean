/-
What a commit writes.

A cycle computes a report and commits it: one bulk write of the results, then one
write for each change of status, up to the first that fails.  The changes of
status leave everything but statuses alone (`writeChanges_frame`), so where writes
are accepted they fail just if they come to an athlete who is not on the roster,
and whether they do can be told before the first of them
(`writeChanges_error_iff`).  Where they do not, the commit has a closed form
(`commit_of_knows`).
-/
import ChipTiming.Cycle
import ChipTiming.Proofs.Store.Writes

namespace ChipTiming

/-! ### What a cycle covers -/

/-- What a cycle covers: the launched events of a race, or one of them. -/
inductive Scope where
  | wholeRace
  | oneEvent (event : EventId)

namespace Scope

/-- What the cycle computes. -/
def compute (scope : Scope) (source : Source) (catalog : Catalog) (settings : Settings)
    (race : RaceId) : Except Failure Report :=
  match scope with
  | .wholeRace => computeRace source catalog settings race
  | .oneEvent event => computeLaunched source catalog settings race event

/-- The cycle. -/
def recompute (scope : Scope) (source : Source) (catalog : Catalog) (settings : Settings)
    (race : RaceId) (sink : Store) : Store × Except Failure Report :=
  match scope with
  | .wholeRace => recomputeRace source catalog settings race sink
  | .oneEvent event => recomputeEvent source catalog settings race event sink

theorem recompute_eq (scope : Scope) (source : Source) (catalog : Catalog)
    (settings : Settings) (race : RaceId) (sink : Store) :
    scope.recompute source catalog settings race sink =
      commitComputed sink (scope.compute source catalog settings race) := by
  cases scope <;> rfl

end Scope

variable {sink : Store} {report : Report} {changes : List StatusChange}

/-! ### Changes of status -/

theorem writeChanges_frame (sink : Store) (changes : List StatusChange) :
    ∃ athletes, (writeChanges sink changes).1 = { sink with athletes } ∧
      athletes.map Athlete.id = sink.athletes.map Athlete.id := by
  induction changes generalizing sink with
  | nil => exact ⟨sink.athletes, rfl, rfl⟩
  | cons change changes ih =>
      rw [writeChanges]
      cases hwrite : sink.updateStatus change.athlete change.next with
      | error failure => exact ⟨sink.athletes, rfl, rfl⟩
      | ok written =>
          obtain ⟨athletes, rfl, hids⟩ := Store.updateStatus_eq_ok hwrite
          obtain ⟨athletes', heq, hids'⟩ := ih { sink with athletes }
          exact ⟨athletes', heq, hids'.trans hids⟩

/-- While writes are accepted, they fail just if one names an athlete the sink does
not have. -/
theorem writeChanges_error_iff (h : sink.writeFault = none) :
    (∃ failure, (writeChanges sink changes).2 = .error failure) ↔
      ∃ change ∈ changes, ¬sink.Knows change.athlete := by
  induction changes generalizing sink with
  | nil => simp [writeChanges]
  | cons change changes ih =>
      rw [writeChanges]
      by_cases hknows : sink.Knows change.athlete
      · obtain ⟨athletes, hwrite, hids⟩ :=
          Store.exists_updateStatus_of_knows h hknows change.next
        rw [hwrite]
        show (∃ failure, (writeChanges { sink with athletes } changes).2 = .error failure) ↔ _
        have hknows' : ∀ id, Store.Knows { sink with athletes } id ↔ sink.Knows id := by
          intro id
          rw [Store.Knows, Store.Knows, hids]
        have hrest := @ih { sink with athletes } h
        rw [hrest]
        simp only [hknows', List.mem_cons, exists_eq_or_imp, hknows, not_true_eq_false,
          false_or]
      · rw [Store.updateStatus_of_not_knows h hknows]
        exact ⟨fun _ => ⟨change, List.mem_cons_self .., hknows⟩, fun _ => ⟨_, rfl⟩⟩

/-- A store with changes of status written to it. -/
def Store.withChanges (s : Store) (changes : List StatusChange) : Store :=
  { s with
    athletes := changes.foldl
      (fun athletes change => Store.setStatus change.athlete change.next athletes) s.athletes }

/-- An athlete with the changes of status made that name the athlete, one after
another. -/
def Athlete.after (a : Athlete) (changes : List StatusChange) : Athlete :=
  changes.foldl (fun a change =>
    if a.id = change.athlete then { a with status := change.next } else a) a

theorem Store.athletes_withChanges (s : Store) (changes : List StatusChange) :
    (s.withChanges changes).athletes = s.athletes.map (·.after changes) := by
  show changes.foldl _ s.athletes = _
  induction changes generalizing s with
  | nil => exact (List.map_id _).symm
  | cons change changes ih =>
      rw [List.foldl_cons]
      refine (ih { s with athletes := setStatus change.athlete change.next s.athletes }).trans ?_
      rw [setStatus, List.map_map]
      rfl

/-- The last change that names an athlete is what counts, if there is any. -/
theorem Athlete.after_cases (a : Athlete) (changes : List StatusChange) :
    ((∀ change ∈ changes, change.athlete ≠ a.id) ∧ a.after changes = a) ∨
      ∃ change ∈ changes, change.athlete = a.id ∧
        a.after changes = { a with status := change.next } := by
  induction changes generalizing a with
  | nil => exact Or.inl ⟨List.forall_mem_nil _, rfl⟩
  | cons change changes ih =>
      rw [after, List.foldl_cons]
      by_cases hnamed : a.id = change.athlete
      · rw [if_pos hnamed]
        refine Or.inr ?_
        rcases ih { a with status := change.next } with ⟨-, heq⟩ | ⟨later, hlater, hid, heq⟩
        · exact ⟨change, List.mem_cons_self .., hnamed.symm, heq⟩
        · exact ⟨later, List.mem_cons_of_mem _ hlater, hid, heq⟩
      · rw [if_neg hnamed]
        rcases ih a with ⟨hnone, heq⟩ | ⟨later, hlater, hid, heq⟩
        · exact Or.inl ⟨List.forall_mem_cons.mpr ⟨Ne.symm hnamed, hnone⟩, heq⟩
        · exact Or.inr ⟨later, List.mem_cons_of_mem _ hlater, hid, heq⟩

theorem Athlete.exists_after_eq (a : Athlete) (changes : List StatusChange) :
    ∃ status, a.after changes = { a with status } := by
  rcases a.after_cases changes with ⟨-, heq⟩ | ⟨change, -, -, heq⟩
  · exact ⟨a.status, heq⟩
  · exact ⟨change.next, heq⟩

theorem Athlete.id_after (a : Athlete) (changes : List StatusChange) :
    (a.after changes).id = a.id := by
  obtain ⟨status, heq⟩ := a.exists_after_eq changes
  rw [heq]

/-- If all changes that name an athlete are one and the same, that one is made. -/
theorem Athlete.after_eq {a : Athlete} {named : Option StatusChange}
    (h : ∀ change, change ∈ changes ∧ change.athlete = a.id ↔ named = some change) :
    a.after changes = { a with status := named.elim a.status (·.next) } := by
  rcases a.after_cases changes with ⟨hnone, heq⟩ | ⟨change, hchange, hid, heq⟩
  · have hnamed : named = none := by
      rw [Option.eq_none_iff_forall_ne_some]
      intro change hsome
      obtain ⟨hchange, hid⟩ := (h change).mpr hsome
      exact hnone change hchange hid
    rw [heq, hnamed]
    rfl
  · rw [heq, (h change).mp ⟨hchange, hid⟩]
    rfl

theorem writeChanges_of_knows (h : sink.writeFault = none)
    (hids : (sink.athletes.map Athlete.id).Nodup)
    (hknows : ∀ change ∈ changes, sink.Knows change.athlete) :
    writeChanges sink changes = (sink.withChanges changes, .ok ()) := by
  induction changes generalizing sink with
  | nil => rfl
  | cons change changes ih =>
      have hids' := Store.ids_setStatus change.athlete change.next sink.athletes
      rw [writeChanges, Store.updateStatus_of_knows h hids (hknows change (List.mem_cons_self ..))]
      refine ih h (by rwa [hids']) fun other hother => ?_
      rw [Store.Knows, hids']
      exact hknows other (List.mem_cons_of_mem _ hother)

/-! ### Commits -/

theorem commit_of_fault {reason : String} (h : sink.writeFault = some reason) :
    commit sink report = (sink, .error (.sink "upsert results" reason)) := by
  rw [commit, Store.upsertResults_of_fault h]

theorem commit_of_writable (h : sink.writeFault = none) :
    commit sink report =
      ((writeChanges (sink.withResults report.race report.results) report.changes).1,
        (writeChanges (sink.withResults report.race report.results) report.changes).2.map
          fun _ => report) := by
  rw [commit, Store.upsertResults_of_writable h]

/-- A store with a report written to it. -/
def Store.written (s : Store) (report : Report) : Store :=
  (s.withResults report.race report.results).withChanges report.changes

theorem Store.athletes_written (s : Store) (report : Report) :
    (s.written report).athletes = s.athletes.map (·.after report.changes) :=
  (s.withResults report.race report.results).athletes_withChanges report.changes

theorem Store.resultsOf_written (s : Store) (report : Report) :
    (s.written report).resultsOf report.race =
      putAll Slot.key report.results (s.resultsOf report.race) := by
  show (s.withResults report.race report.results).resultsOf report.race = _
  rw [resultsOf_withResults, if_pos rfl]

/-- A commit that finds everyone on the roster succeeds. -/
theorem commit_of_knows (h : sink.writeFault = none)
    (hids : (sink.athletes.map Athlete.id).Nodup)
    (hknows : ∀ change ∈ report.changes, sink.Knows change.athlete) :
    commit sink report = (sink.written report, .ok report) := by
  have hchanges : writeChanges (sink.withResults report.race report.results) report.changes =
      ((sink.withResults report.race report.results).withChanges report.changes, .ok ()) :=
    writeChanges_of_knows h hids hknows
  rw [commit_of_writable h, hchanges]
  rfl

/-- A commit that succeeds has written its report, and found everyone on the
roster. -/
theorem commit_eq_ok {left : Store} {report' : Report}
    (hids : (sink.athletes.map Athlete.id).Nodup)
    (h : commit sink report = (left, .ok report')) :
    sink.writeFault = none ∧ report' = report ∧ left = sink.written report ∧
      ∀ change ∈ report.changes, sink.Knows change.athlete := by
  obtain hfault | ⟨reason, hfault⟩ := Option.eq_none_or_eq_some sink.writeFault
  · by_cases hknows : ∀ change ∈ report.changes, sink.Knows change.athlete
    · rw [commit_of_knows hfault hids hknows] at h
      cases h
      exact ⟨hfault, rfl, rfl, hknows⟩
    · have hwritable : (sink.withResults report.race report.results).writeFault = none := hfault
      have hunknown : ∃ change ∈ report.changes,
          ¬(sink.withResults report.race report.results).Knows change.athlete := by
        push Not at hknows
        exact hknows
      obtain ⟨failure, hfailure⟩ := (writeChanges_error_iff hwritable).mpr hunknown
      rw [commit_of_writable hfault, hfailure] at h
      cases h
  · rw [commit_of_fault hfault] at h
    cases h

/-- Changes of status of other athletes leave a selection from the roster as it
was. -/
theorem Store.filter_foldl_setStatus {p : Athlete → Bool}
    (hp : ∀ (a : Athlete) status, p { a with status } = p a) {athletes : List Athlete}
    (h : ∀ change ∈ changes, ∀ a ∈ athletes.filter p, a.id ≠ change.athlete) :
    (changes.foldl
        (fun athletes change => Store.setStatus change.athlete change.next athletes)
        athletes).filter p = athletes.filter p := by
  induction changes generalizing athletes with
  | nil => rfl
  | cons change changes ih =>
      have hfirst : (Store.setStatus change.athlete change.next athletes).filter p =
          athletes.filter p := Store.filter_setStatus hp (h change (List.mem_cons_self ..))
      rw [List.foldl_cons, ih, hfirst]
      rw [hfirst]
      exact fun other hmem => h other (List.mem_cons_of_mem _ hmem)

/-- Writing a report about athletes of other events leaves those of an event as they
were. -/
theorem Store.athletesOf_written {s : Store} {race : RaceId} {event : EventId}
    (h : ∀ change ∈ report.changes, ∀ a ∈ s.athletesOf race event, a.id ≠ change.athlete) :
    (s.written report).athletesOf race event = s.athletesOf race event :=
  Store.filter_foldl_setStatus (fun _ _ => rfl) h

end ChipTiming
