/-
Following laps back.

A split may close a lap that another split opened, and that one a lap before it.
`LapsEnd` says of a split that this comes to an end: some number of links leads to
a split that closes no lap.  Validation finds it out by walking, with a note of
the splits it has met.

A split from which the laps end has a distance to that end, and each link brings
it one closer (`EndsAfter`).  All that a walk has met therefore stand farther from
the end than where it goes next, so that it never comes back to one of them
(`ends_walkLaps_of_endsAfter`).  A walk that does not come back has counted the
distance on its way (`exists_endsAfter_of_ends_walkLaps`).  For the same reason no
links lead from such a split back to it (`LapsEnd.not_transGen_self`).
-/
import ChipTiming.Configuration
import Mathlib.Data.List.Nodup
import Mathlib.Logic.Relation

namespace ChipTiming.Configuration

variable {c : Configuration} {met : List SplitId} {id previous : SplitId} {s t : Split}
  {m n : Nat}

/-- The second split closes the lap before the one that the first closes. -/
def LapBefore (c : Configuration) (s t : Split) : Prop :=
  t ∈ c.splits ∧ s.previousLap = some t.id

/-- Following laps back from a split leads to one that closes none. -/
def LapsEnd (c : Configuration) (s : Split) : Prop :=
  ∃ first, Relation.ReflTransGen c.LapBefore s first ∧ first.previousLap = none

/-! ### Looking up splits -/

theorem split?_eq_some_iff (hids : (c.splits.map Split.id).Nodup) :
    c.split? id = some s ↔ s ∈ c.splits ∧ s.id = id := by
  refine ⟨?_, ?_⟩
  · intro hfound
    exact ⟨List.mem_of_find?_eq_some hfound, by simpa using List.find?_some hfound⟩
  · intro hs
    obtain ⟨hmem, rfl⟩ := hs
    cases hfound : c.split? s.id with
    | none =>
        have hnone := List.find?_eq_none.mp hfound s hmem
        simp at hnone
    | some t =>
        have hid : t.id = s.id := by simpa using List.find?_some hfound
        rw [List.inj_on_of_nodup_map hids (List.mem_of_find?_eq_some hfound) hmem hid]

theorem previousLap?_eq (hids : (c.splits.map Split.id).Nodup) (hs : s ∈ c.splits) :
    c.previousLap? s.id = s.previousLap := by
  rw [previousLap?, (split?_eq_some_iff hids).mpr ⟨hs, rfl⟩, Option.bind_some]

/-! ### The length of a walk -/

theorem steps_walkLaps_le (c : Configuration) (met : List SplitId) (id : SplitId) :
    (c.walkLaps met id).steps ≤ c.lapsAhead met id := by
  fun_induction walkLaps c met id with
  | case1 met id hlink => exact Nat.zero_le _
  | case2 met id previous hlink hmet =>
      simp only [lapsAhead, hlink, Option.isSome_some, if_true]
      omega
  | case3 met id previous hlink hmet rest ih =>
      exact Nat.lt_of_le_of_lt ih (lapsAhead_lt hlink hmet)

/-- A walk from a split follows at most as many links as there are splits. -/
theorem steps_walkLaps_le_length (hs : s ∈ c.splits) :
    (c.walkLaps [s.id] s.id).steps ≤ c.splits.length := by
  have hsteps := steps_walkLaps_le c [s.id] s.id
  have hunmet : (c.unmet [s.id]).length < c.splits.length := by
    rw [unmet, List.length_filter_lt_length_iff_exists]
    exact ⟨s, hs, by simp⟩
  unfold lapsAhead at hsteps
  split at hsteps <;> omega

/-! ### The distance to the end -/

/-- So many links lead from a split to one that closes no lap. -/
inductive EndsAfter (c : Configuration) : SplitId → Nat → Prop
  | last {id : SplitId} (hlink : c.previousLap? id = none) : EndsAfter c id 0
  | link {id previous : SplitId} {n : Nat} (hlink : c.previousLap? id = some previous)
      (hrest : EndsAfter c previous n) : EndsAfter c id (n + 1)

theorem EndsAfter.unique (hm : c.EndsAfter id m) (hn : c.EndsAfter id n) : m = n := by
  induction hm generalizing n with
  | last hlink =>
      cases hn with
      | last => rfl
      | link hlink' => simp [hlink] at hlink'
  | link hlink hrest ih =>
      cases hn with
      | last hlink' => simp [hlink] at hlink'
      | link hlink' hrest' =>
          rw [hlink, Option.some.injEq] at hlink'
          rw [ih (hlink' ▸ hrest')]

/-- A walk does not come back if all it has met stand at least as far from the end. -/
theorem ends_walkLaps_of_endsAfter (h : c.EndsAfter id n)
    (hmet : ∀ x ∈ met, ∃ m, n ≤ m ∧ c.EndsAfter x m) : (c.walkLaps met id).ends = true := by
  induction h generalizing met with
  | last hlink =>
      unfold walkLaps
      split
      · rfl
      · next hsome => simp [hlink] at hsome
  | @link id previous n hlink hrest ih =>
      have hnew : previous ∉ met := by
        intro hmem
        obtain ⟨m, hle, hm⟩ := hmet previous hmem
        have heq := hm.unique hrest
        omega
      have hnext : (c.walkLaps (previous :: met) previous).ends = true := by
        refine ih fun x hx => ?_
        rcases List.mem_cons.mp hx with rfl | hx
        · exact ⟨n, Nat.le_refl n, hrest⟩
        · obtain ⟨m, hle, hm⟩ := hmet x hx
          exact ⟨m, by omega, hm⟩
      unfold walkLaps
      split
      · rfl
      · next previous' hsome =>
          rw [hlink, Option.some.injEq] at hsome
          subst hsome
          rw [dif_neg hnew]
          exact hnext

theorem exists_endsAfter_of_ends_walkLaps (h : (c.walkLaps met id).ends = true) :
    ∃ n, c.EndsAfter id n := by
  fun_induction walkLaps c met id with
  | case1 met id hlink => exact ⟨0, .last hlink⟩
  | case2 met id previous hlink hmet => cases h
  | case3 met id previous hlink hmet rest ih =>
      obtain ⟨n, hn⟩ := ih h
      exact ⟨n + 1, .link hlink hn⟩

/-! ### Walking finds out whether laps end -/

theorem LapsEnd.exists_endsAfter (hids : (c.splits.map Split.id).Nodup) (hs : s ∈ c.splits)
    (h : c.LapsEnd s) : ∃ n, c.EndsAfter s.id n := by
  obtain ⟨first, hpath, hfirst⟩ := h
  induction hpath using Relation.ReflTransGen.head_induction_on with
  | refl => exact ⟨0, .last ((previousLap?_eq hids hs).trans hfirst)⟩
  | head hlap _ ih =>
      obtain ⟨n, hn⟩ := ih hlap.1
      exact ⟨n + 1, .link ((previousLap?_eq hids hs).trans hlap.2) hn⟩

theorem EndsAfter.lapsEnd (hids : (c.splits.map Split.id).Nodup)
    (hlinks : ∀ s ∈ c.splits, ∀ id, s.previousLap = some id → ∃ t ∈ c.splits, t.id = id)
    (h : c.EndsAfter id n) (hs : s ∈ c.splits) (hid : s.id = id) : c.LapsEnd s := by
  induction h generalizing s with
  | last hlink =>
      rw [← hid, previousLap?_eq hids hs] at hlink
      exact ⟨s, .refl, hlink⟩
  | @link id previous n hlink hrest ih =>
      rw [← hid, previousLap?_eq hids hs] at hlink
      obtain ⟨t, ht, rfl⟩ := hlinks s hs previous hlink
      obtain ⟨first, hpath, hfirst⟩ := ih ht rfl
      exact ⟨first, .head ⟨ht, hlink⟩ hpath, hfirst⟩

/-- Where every link leads to a split, the walk from a split ends just if its laps
do. -/
theorem ends_walkLaps_iff (hids : (c.splits.map Split.id).Nodup)
    (hlinks : ∀ s ∈ c.splits, ∀ id, s.previousLap = some id → ∃ t ∈ c.splits, t.id = id)
    (hs : s ∈ c.splits) : (c.walkLaps [s.id] s.id).ends = true ↔ c.LapsEnd s := by
  refine ⟨?_, ?_⟩
  · intro hends
    obtain ⟨n, hn⟩ := exists_endsAfter_of_ends_walkLaps hends
    exact hn.lapsEnd hids hlinks hs rfl
  · intro hlaps
    obtain ⟨n, hn⟩ := hlaps.exists_endsAfter hids hs
    refine ends_walkLaps_of_endsAfter hn fun x hx => ?_
    rw [List.mem_singleton] at hx
    exact ⟨n, Nat.le_refl n, hx ▸ hn⟩

/-! ### No way back -/

/-- A link brings the end one closer. -/
theorem EndsAfter.of_lapBefore (hids : (c.splits.map Split.id).Nodup) (hs : s ∈ c.splits)
    (hlap : c.LapBefore s t) (h : c.EndsAfter s.id n) : ∃ m, m < n ∧ c.EndsAfter t.id m := by
  have hlink : c.previousLap? s.id = some t.id := (previousLap?_eq hids hs).trans hlap.2
  cases h with
  | last hnone => simp [hlink] at hnone
  | @link _ previous m hlink' hrest =>
      rw [hlink, Option.some.injEq] at hlink'
      exact ⟨m, Nat.lt_succ_self m, hlink' ▸ hrest⟩

theorem EndsAfter.of_transGen (hids : (c.splits.map Split.id).Nodup) (hs : s ∈ c.splits)
    (hpath : Relation.TransGen c.LapBefore s t) (h : c.EndsAfter s.id n) :
    t ∈ c.splits ∧ ∃ m, m < n ∧ c.EndsAfter t.id m := by
  induction hpath with
  | single hlap => exact ⟨hlap.1, h.of_lapBefore hids hs hlap⟩
  | tail _ hlap ih =>
      obtain ⟨hb, k, hk, hends⟩ := ih
      obtain ⟨m, hm, hends'⟩ := hends.of_lapBefore hids hb hlap
      exact ⟨hlap.1, m, Nat.lt_trans hm hk, hends'⟩

/-- So a split from which the laps end is not among those that its links lead to. -/
theorem LapsEnd.not_transGen_self (hids : (c.splits.map Split.id).Nodup) (hs : s ∈ c.splits)
    (h : c.LapsEnd s) : ¬Relation.TransGen c.LapBefore s s := by
  intro hpath
  obtain ⟨n, hn⟩ := h.exists_endsAfter hids hs
  obtain ⟨-, m, hlt, hm⟩ := hn.of_transGen hids hs hpath
  have heq := hm.unique hn
  omega

end ChipTiming.Configuration
