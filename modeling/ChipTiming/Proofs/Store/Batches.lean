/-
Results, however they are batched.

A cycle writes all of its rows at once, and what is stored of them should not
depend on that.  Two views of the rows of a race tell what a batch makes of them
(`Upserted`): the keys that were there keep their order and new ones follow in
that of their first appearance, and under a key stands the last row that the batch
has for it, or else what stood there before.  Rows are put one after another, so
batches that are written in turn come to the same as all of them written at once,
down to single rows (`resultsOf_foldl_withResults`).

Rows need not be searched for the key of each row of a batch.  An index that is
made of the keys once, and to which the keys of new rows are added, tells their
positions just as well (`putAllIndexed_eq`).  The invariant is that it tells the
positions of the rows there are by then (`Locates`); with keys that are distinct
it holds at first, and writing a row keeps it.
-/
import ChipTiming.Proofs.Store.Writes

namespace ChipTiming

section

variable {α κ : Type} [DecidableEq κ] {key : α → κ} {x : α} {xs batch : List α}
  {before after : List α} {index : List (κ × Nat)} {ks : List κ} {k : κ}

/-! ### What a batch makes of a list -/

/-- A list after a batch has been put into what there was before. -/
structure Upserted (key : α → κ) (before batch after : List α) : Prop where
  /-- No key stands there twice. -/
  distinct : (after.map key).Nodup
  /-- Old keys keep their order, and new ones follow in that of their first
  appearance. -/
  keys : after.map key =
    before.map key ++ ((batch.map key).filter (· ∉ before.map key)).eraseDups
  /-- Under a key stands what the batch has for it last, or else what stood there
  before. -/
  found : ∀ k, withKey? key k after = (withKey? key k batch.reverse).or (withKey? key k before)

theorem upserted_putAll (h : (before.map key).Nodup) :
    Upserted key before batch (putAll key batch before) where
  distinct := nodup_putAll h
  keys := keys_putAll key batch before
  found _ := withKey?_putAll

/-- A batch can make one list only. -/
theorem Upserted.eq_putAll (h : Upserted key before batch after) :
    after = putAll key batch before := by
  refine eq_of_withKey?_eq h.distinct (h.keys.trans (keys_putAll key batch before).symm) fun k => ?_
  rw [h.found, withKey?_putAll]

/-! ### Positions from an index -/

/-- Puts an element into the position that an index has for its key, or at the end,
and its key into the index. -/
def putIndexed (key : α → κ) (indexed : List α × List (κ × Nat)) (x : α) :
    List α × List (κ × Nat) :=
  match indexed.2.lookup (key x) with
  | some position => (indexed.1.set position x, indexed.2)
  | none => (indexed.1 ++ [x], (key x, indexed.1.length) :: indexed.2)

/-- Puts elements one after another by an index that is made once. -/
def putAllIndexed (key : α → κ) (batch xs : List α) : List α :=
  (batch.foldl (putIndexed key) (xs, (xs.map key).zipIdx)).1

/-- An index tells the positions of keys. -/
def Locates (index : List (κ × Nat)) (ks : List κ) : Prop :=
  ∀ (k : κ) (i : Nat), index.lookup k = some i ↔ ks[i]? = some k

theorem locates_zipIdx (h : ks.Nodup) : Locates ks.zipIdx ks := by
  intro k i
  have hkeys : (ks.zipIdx.map Prod.fst).Nodup := by rwa [List.zipIdx_map_fst]
  have hfound : withKey? Prod.fst k ks.zipIdx = some (k, i) ↔ ks[i]? = some k := by
    rw [withKey?_eq_some_iff hkeys, List.mem_zipIdx_iff_getElem?]
    simp
  rw [lookup_eq_map_withKey?, Option.map_eq_some_iff, ← hfound]
  refine ⟨?_, fun h => ⟨_, h, rfl⟩⟩
  rintro ⟨entry, hentry, rfl⟩
  rw [hentry, ← (mem_of_withKey? hentry).2]

theorem Locates.lookup_eq_none_iff (h : Locates index ks) : index.lookup k = none ↔ k ∉ ks := by
  rw [List.mem_iff_getElem?, not_exists, Option.eq_none_iff_forall_ne_some]
  exact forall_congr' fun i => not_congr (h k i)

/-- A key that is new goes behind all others. -/
theorem Locates.cons (h : Locates index ks) (hk : k ∉ ks) :
    Locates ((k, ks.length) :: index) (ks ++ [k]) := by
  intro k' i
  rw [List.getElem?_append]
  by_cases hkey : k' = k
  · subst hkey
    rw [List.lookup_cons_self, Option.some.injEq]
    by_cases hi : i < ks.length
    · rw [if_pos hi]
      exact iff_of_false (by omega) fun hsome => hk (List.mem_of_getElem? hsome)
    · rw [if_neg hi, List.getElem?_singleton]
      by_cases hlast : i - ks.length = 0 <;> simp [hlast] <;> omega
  · rw [List.lookup_cons, beq_false_of_ne hkey]
    dsimp only
    rw [h k' i]
    by_cases hi : i < ks.length
    · rw [if_pos hi]
    · rw [if_neg hi, List.getElem?_eq_none (by omega), List.getElem?_singleton]
      by_cases hlast : i - ks.length = 0 <;> simp [hlast, Ne.symm hkey]

/-- Writing an element by an index is putting it, and the index goes on telling
positions. -/
theorem putIndexed_eq (h : (xs.map key).Nodup) (hindex : Locates index (xs.map key)) :
    (putIndexed key (xs, index) x).1 = put key x xs ∧
      Locates (putIndexed key (xs, index) x).2 ((put key x xs).map key) := by
  unfold putIndexed
  cases hfound : index.lookup (key x) with
  | none =>
      have hnew := hindex.lookup_eq_none_iff.mp hfound
      dsimp only
      rw [put_eq_append hnew, List.map_append, List.map_singleton]
      refine ⟨rfl, ?_⟩
      simpa using hindex.cons hnew
  | some position =>
      have hposition := (hindex (key x) position).mp hfound
      dsimp only
      rw [keys_put, if_pos (List.mem_of_getElem? hposition), put_eq_set h hposition]
      exact ⟨rfl, hindex⟩

/-- **A whole batch can be put by an index**, if the keys there are at first are
distinct. -/
theorem putAllIndexed_eq (h : (xs.map key).Nodup) :
    putAllIndexed key batch xs = putAll key batch xs := by
  -- Over a batch the index changes with the list, so the run is about any index that
  -- tells the positions.
  have hrun : ∀ index : List (κ × Nat), Locates index (xs.map key) →
      (batch.foldl (putIndexed key) (xs, index)).1 = putAll key batch xs := by
    induction batch generalizing xs with
    | nil => exact fun _ _ => rfl
    | cons x batch ih =>
        intro index hindex
        obtain ⟨hput, hnext⟩ := putIndexed_eq (x := x) h hindex
        rw [List.foldl_cons, putAll_cons, ← ih (nodup_put h) _ hnext, ← hput]
  exact hrun _ (locates_zipIdx h)

end

namespace Store

variable {s : Store} {race race' : RaceId} {batch : List Slot}

/-! ### Several batches -/

/-- Writes batches of results one after another. -/
def upsertEach (s : Store) (race : RaceId) (batches : List (List Slot)) : Except Failure Store :=
  batches.foldlM (fun written batch => written.upsertResults race batch) s

theorem upsertEach_of_writable {batches : List (List Slot)} (h : s.writeFault = none) :
    s.upsertEach race batches =
      .ok (batches.foldl (fun written batch => written.withResults race batch) s) := by
  induction batches generalizing s with
  | nil => rfl
  | cons batch batches ih =>
      rw [upsertEach, List.foldlM_cons, upsertResults_of_writable h]
      -- Writing results leaves no fault behind.
      exact ih (s := s.withResults race batch) h

/-- Batches written in turn come to all of their rows written at once. -/
theorem resultsOf_foldl_withResults (s : Store) (race race' : RaceId)
    (batches : List (List Slot)) :
    (batches.foldl (fun written batch => written.withResults race batch) s).resultsOf race' =
      (s.withResults race batches.flatten).resultsOf race' := by
  induction batches generalizing s with
  | nil => exact resultsOf_withResults_nil.symm
  | cons batch batches ih =>
      rw [List.foldl_cons, ih, List.flatten_cons, resultsOf_withResults_append]

/-- The same batch written again changes no rows. -/
theorem resultsOf_withResults_twice (hkeys : ((s.resultsOf race).map Slot.key).Nodup) :
    ((s.withResults race batch).withResults race batch).resultsOf race' =
      (s.withResults race batch).resultsOf race' := by
  by_cases hrace : race = race'
  · rw [resultsOf_withResults, resultsOf_withResults, resultsOf_withResults, if_pos rfl,
      if_pos hrace, if_pos hrace, putAll_putAll hkeys]
  · rw [resultsOf_withResults, if_neg hrace]

/--
**Writing a batch is replacing rows one by one, and it does not matter how rows are
batched.**  For each batch the rows afterwards are those that `Upserted` tells, and an
index of the keys that is made once finds the same places.  Batches written in turn
leave the rows that all of them at once would, and a batch written twice those that it
leaves at first.
-/
theorem upserted_upsertResults (hwritable : s.writeFault = none)
    (hkeys : ((s.resultsOf race).map Slot.key).Nodup) :
    (∀ batch, ∃ written, s.upsertResults race batch = .ok written ∧
      Upserted Slot.key (s.resultsOf race) batch (written.resultsOf race) ∧
      putAllIndexed Slot.key batch (s.resultsOf race) = written.resultsOf race) ∧
    (∀ batches, ∃ inTurn atOnce, s.upsertEach race batches = .ok inTurn ∧
      s.upsertResults race batches.flatten = .ok atOnce ∧
      ∀ race', inTurn.resultsOf race' = atOnce.resultsOf race') ∧
    ∀ batch, ∃ once twice, s.upsertResults race batch = .ok once ∧
      once.upsertResults race batch = .ok twice ∧
      ∀ race', twice.resultsOf race' = once.resultsOf race' := by
  refine ⟨fun batch => ?_, fun batches => ?_, fun batch => ?_⟩
  · have hrows : (s.withResults race batch).resultsOf race =
        putAll Slot.key batch (s.resultsOf race) := resultsOf_withResults.trans (if_pos rfl)
    refine ⟨_, upsertResults_of_writable hwritable, ?_, ?_⟩
    · exact hrows ▸ upserted_putAll hkeys
    · exact (putAllIndexed_eq hkeys).trans hrows.symm
  · exact ⟨_, _, upsertEach_of_writable hwritable, upsertResults_of_writable hwritable,
      fun race' => resultsOf_foldl_withResults s race race' batches⟩
  · exact ⟨_, _, upsertResults_of_writable hwritable, upsertResults_of_writable hwritable,
      fun race' => resultsOf_withResults_twice hkeys⟩

/-- A row of one athlete, with as many seconds at a split. -/
def rowAt (split : BitVec 128) (seconds : Nat) : Slot :=
  ⟨⟨1⟩, ⟨split⟩, ⟨1⟩, none, .unspecified,
    .manual ⟨Instant.last, .ofSeconds seconds, .ofSeconds seconds⟩, .none, .none⟩

/-- One row is there, and the batch has another one for its split between two for a
second split. -/
def oneRow : Store := Store.empty.withResults ⟨1⟩ [rowAt 1 5]

theorem upserted_oneRow :
    oneRow.writeFault = none ∧ ((oneRow.resultsOf ⟨1⟩).map Slot.key).Nodup ∧
      ∃ written,
        oneRow.upsertResults ⟨1⟩ [rowAt 2 10, rowAt 1 20, rowAt 2 30] = .ok written ∧
        written.resultsOf ⟨1⟩ = [rowAt 1 20, rowAt 2 30] ∧
        Upserted Slot.key [rowAt 1 5] [rowAt 2 10, rowAt 1 20, rowAt 2 30]
          (written.resultsOf ⟨1⟩) := by
  have hkeys : ((oneRow.resultsOf ⟨1⟩).map Slot.key).Nodup := by decide
  obtain ⟨written, hwritten, hupserted, -⟩ :=
    (upserted_upsertResults rfl hkeys).1 [rowAt 2 10, rowAt 1 20, rowAt 2 30]
  refine ⟨rfl, hkeys, written, hwritten, ?_, hupserted⟩
  rw [hupserted.eq_putAll]
  decide

end Store

end ChipTiming
