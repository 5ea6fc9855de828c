/-
Places count who came before.

A crossed slot comes before another of its split if it took less time, or as much
time and stands earlier in the list.  Its place is one more than the number of
slots that come before it, on each of the three boards that it is on: everyone's,
that of its gender, that of its category.  Nothing else is changed
(`assignRanks_eq`).

Crossed slots are numbered in the order of their times, and every number is then
written to the position that its slot came from.  Numbering is counting what
stands in front (`getElem?_occurrences`), and what stands in front is what comes
before (`places_eq`).  That the places on a board run 1, 2, 3, … without ties or
gaps follows from the counts alone (`denselyPlaced_assignRanks`).
-/
import ChipTiming.Proofs.Keyed
import ChipTiming.Proofs.Standings.Order

namespace ChipTiming

/-! ### Numbering -/

section

variable {κ : Type} [BEq κ]

theorem getElem?_occurrencesAfter (earlier keys : List κ) (n : Nat) :
    (occurrencesAfter earlier keys)[n]? =
      keys[n]?.map fun k => earlier.count k + (keys.take n).count k + 1 := by
  induction keys generalizing earlier n with
  | nil => rfl
  | cons k keys ih =>
      rw [occurrencesAfter]
      cases n with
      | zero => simp
      | succ n =>
          rw [List.getElem?_cons_succ, List.getElem?_cons_succ, ih]
          refine congrArg (Option.map · keys[n]?) (funext fun k' => ?_)
          rw [List.take_succ_cons, List.count_cons, List.count_cons]
          omega

/-- An occurrence of a key is numbered by how often the key occurs in front of it. -/
theorem getElem?_occurrences (keys : List κ) (n : Nat) :
    (occurrences keys)[n]? = keys[n]?.map fun k => (keys.take n).count k + 1 := by
  rw [occurrences, getElem?_occurrencesAfter]
  simp

end

/-! ### Writing back -/

section

variable {α β : Type}

theorem getElem?_foldl_modify (f : α → β → α) {changes : List (Nat × β)}
    (hpositions : (changes.map Prod.fst).Nodup) (xs : List α) (i : Nat) :
    (changes.foldl (fun xs change => xs.modify change.1 (f · change.2)) xs)[i]? =
      xs[i]?.map fun x => (changes.lookup i).elim x (f x) := by
  induction changes generalizing xs with
  | nil => simp
  | cons change changes ih =>
      rw [List.map_cons, List.nodup_cons] at hpositions
      rw [List.foldl_cons, ih hpositions.2, List.getElem?_modify, List.lookup_cons]
      by_cases hi : change.1 = i
      · have hnone : changes.lookup i = none := by
          rw [List.lookup_eq_none_iff]
          intro other hother
          have hne : i ≠ other.1 := fun heq =>
            hpositions.1 (hi.trans heq ▸ List.mem_map_of_mem hother)
          simpa using hne
        subst hi
        cases xs[change.1]? <;> simp [hnone]
      · have hne : (i == change.1) = false := by simpa using fun h : i = change.1 => hi h.symm
        simp [hi, hne]

end

namespace Standings

/-! ### Places by counting -/

/-- The boards on which a slot has a place at its split. -/
inductive Board where
  | everyone
  | gender (gender : Gender)
  | category (category : CategoryId)
  deriving DecidableEq, Repr

/-- Whether a slot is on a board. -/
def Board.lists : Board → Slot → Bool
  | .everyone, _ => true
  | .gender g, slot => slot.gender == g
  | .category c, slot => slot.category == some c

/-- The place on a board. -/
def Board.place : Board → Ranks → Option Nat
  | .everyone, ranks => ranks.overall
  | .gender _, ranks => ranks.gender
  | .category _, ranks => ranks.category

/-- How many slots of the same split and on the same board come before the slot at a
position. -/
def ahead (basis : TimeBasis) (slots : List Slot) (entry : Slot × Nat) (board : Board) : Nat :=
  slots.zipIdx.countP fun other =>
    (board.lists other.1 && other.1.split == entry.1.split) && isBefore basis other entry

/-- The ranks that counting gives the slot at a position. -/
def counted (basis : TimeBasis) (slots : List Slot) (entry : Slot × Nat) : Ranks :=
  if entry.1.isVisited then
    { overall := some (1 + ahead basis slots entry .everyone)
      gender := some (1 + ahead basis slots entry (.gender entry.1.gender))
      category := entry.1.category.map fun c => 1 + ahead basis slots entry (.category c) }
  else .none

variable {basis : TimeBasis} {slots : List Slot} {entry : Slot × Nat}

/-! ### Places in order -/

theorem getElem?_placesInOrder {ordered : List Slot} {n : Nat} {slot : Slot}
    (hslot : ordered[n]? = some slot) :
    (placesInOrder ordered)[n]? = some
      { overall := some ((ordered.take n).countP (·.split == slot.split) + 1)
        gender := some ((ordered.take n).countP
          (fun s => s.gender == slot.gender && s.split == slot.split) + 1)
        category := slot.category.map fun _ => (ordered.take n).countP
          (fun s => s.category == slot.category && s.split == slot.split) + 1 } := by
  have hcount : ∀ {κ : Type} [BEq κ] (key : Slot → κ), (occurrences (ordered.map key))[n]? =
      some ((ordered.take n).countP (key · == key slot) + 1) := by
    intro κ _ key
    rw [getElem?_occurrences, List.getElem?_map, hslot, Option.map_some, Option.map_some,
      ← List.map_take, List.count_eq_countP, List.countP_map]
    rfl
  have hcategory := hcount fun s => (s.category, s.split)
  have hgender := hcount fun s => (s.gender, s.split)
  have hgroups := List.getElem?_zip_eq_some (z := (_, _)).mpr ⟨hgender, hcategory⟩
  have hnumbers := List.getElem?_zip_eq_some (z := (_, _)).mpr ⟨hcount Slot.split, hgroups⟩
  have hzip := List.getElem?_zip_eq_some (z := (_, _)).mpr ⟨hslot, hnumbers⟩
  rw [placesInOrder, List.getElem?_map, hzip]
  rfl

/-- In front of a slot of the order stands what comes before it. -/
theorem countP_take_inOrder {n : Nat} (hn : (inOrder slots basis)[n]? = some entry)
    (p : Slot → Bool) : (((inOrder slots basis).map Prod.fst).take n).countP p =
      slots.zipIdx.countP fun other => p other.1 && isBefore basis other entry := by
  rw [← List.map_take, take_eq_filter_of_pairwise isBefore_asymm (pairwise_inOrder slots basis) hn,
    List.countP_map, List.countP_filter]
  exact countP_inOrder entry fun other => p other.1

/-- The places that are written are those by counting. -/
theorem places_eq (slots : List Slot) (basis : TimeBasis) :
    places slots basis =
      (inOrder slots basis).map fun entry => (entry.2, counted basis slots entry) := by
  have hzip : places slots basis = ((inOrder slots basis).map Prod.snd).zip
      (placesInOrder ((inOrder slots basis).map Prod.fst)) := by
    rw [inOrder, List.map_map, List.map_map]
    rfl
  refine List.ext_getElem? fun n => ?_
  rw [hzip, List.getElem?_map]
  cases hn : (inOrder slots basis)[n]? with
  | none =>
      rw [List.getElem?_eq_none_iff] at hn
      rw [Option.map_none, List.getElem?_eq_none_iff, List.length_zip, List.length_map]
      exact Nat.le_trans (Nat.min_le_left _ _) hn
  | some entry =>
      have hposition : ((inOrder slots basis).map Prod.snd)[n]? = some entry.2 := by
        rw [List.getElem?_map, hn, Option.map_some]
      have hslot : ((inOrder slots basis).map Prod.fst)[n]? = some entry.1 := by
        rw [List.getElem?_map, hn, Option.map_some]
      have hvisited : entry.1.isVisited = true :=
        (List.mem_filter.mp ((inOrder_perm slots basis).subset (List.mem_of_getElem? hn))).2
      rw [List.getElem?_zip_eq_some (z := (_, _)).mpr ⟨hposition, getElem?_placesInOrder hslot⟩,
        Option.map_some, counted, if_pos hvisited]
      simp only [countP_take_inOrder hn, Nat.add_comm _ 1]
      cases hcategory : entry.1.category <;> rfl

/-! ### Ranked lists -/

section

variable {position : Nat} {slot : Slot}

/-- What is written to a position are its places by counting, or none if there is no
crossing. -/
theorem lookup_places (hslot : slots[position]? = some slot) :
    ((places slots basis).lookup position).getD .none = counted basis slots (slot, position) := by
  have hpositions : ((places slots basis).map Prod.fst).Nodup := by
    rw [places_eq, List.map_map]
    exact nodup_positions slots basis
  have hmem : (slot, position) ∈ slots.zipIdx := List.mem_zipIdx_iff_getElem?.mpr hslot
  cases hvisited : slot.isVisited with
  | true =>
      have hplaced : (position, counted basis slots (slot, position)) ∈ places slots basis := by
        rw [places_eq]
        exact List.mem_map_of_mem ((inOrder_perm slots basis).symm.subset
          (List.mem_filter.mpr ⟨hmem, hvisited⟩))
      rw [lookup_eq_map_withKey?, (withKey?_eq_some_iff hpositions).mpr ⟨hplaced, rfl⟩,
        Option.map_some, Option.getD_some]
  | false =>
      have hnone : (places slots basis).lookup position = none := by
        rw [lookup_eq_map_withKey?, Option.map_eq_none_iff, withKey?_eq_none_iff, places_eq,
          List.map_map]
        intro hposition
        obtain ⟨other, hother, rfl⟩ := List.mem_map.mp hposition
        obtain ⟨hother, hcrossed⟩ := List.mem_filter.mp ((inOrder_perm slots basis).subset hother)
        have heq : some slot = some other.1 :=
          hslot.symm.trans (List.mem_zipIdx_iff_getElem?.mp hother)
        rw [Option.some.injEq] at heq
        rw [← heq, hvisited] at hcrossed
        cases hcrossed
      rw [hnone, Option.getD_none, counted, if_neg (by simp [hvisited])]

end

/-- Slot by slot, only the ranks on one basis are new. -/
theorem rankOn_eq (basis : TimeBasis) (slots : List Slot) :
    rankOn basis slots =
      slots.zipIdx.map fun entry => entry.1.setRanks basis (counted basis slots entry) := by
  refine List.ext_getElem? fun i => ?_
  have hpositions : ((places slots basis).map Prod.fst).Nodup := by
    rw [places_eq, List.map_map]
    exact nodup_positions slots basis
  have hfold := getElem?_foldl_modify (fun slot ranks => Slot.setRanks slot basis ranks)
    hpositions (slots.map (·.setRanks basis .none)) i
  refine hfold.trans ?_
  rw [List.getElem?_map, List.getElem?_map, List.getElem?_zipIdx, Option.map_map, Option.map_map]
  cases hslot : slots[i]? with
  | none => rfl
  | some slot =>
      rw [Option.map_some, Option.map_some, Function.comp_apply, Function.comp_apply, Nat.zero_add,
        ← lookup_places hslot]
      cases (places slots basis).lookup i <;> simp

theorem zipIdx_rankOn (basis : TimeBasis) (slots : List Slot) :
    (rankOn basis slots).zipIdx = slots.zipIdx.map fun entry =>
      (entry.1.setRanks basis (counted basis slots entry), entry.2) := by
  rw [rankOn_eq]
  refine List.ext_getElem (by simp) fun i _ _ => ?_
  simp

/-! ### Both bases -/

@[simp] theorem time?_setRanks (slot : Slot) (basis basis' : TimeBasis) (ranks : Ranks) :
    (slot.setRanks basis ranks).time? basis' = slot.time? basis' := by cases basis <;> rfl

@[simp] theorem gender_setRanks (slot : Slot) (basis : TimeBasis) (ranks : Ranks) :
    (slot.setRanks basis ranks).gender = slot.gender := by cases basis <;> rfl

@[simp] theorem category_setRanks (slot : Slot) (basis : TimeBasis) (ranks : Ranks) :
    (slot.setRanks basis ranks).category = slot.category := by cases basis <;> rfl

@[simp] theorem lists_setRanks (board : Board) (slot : Slot) (basis : TimeBasis) (ranks : Ranks) :
    board.lists (slot.setRanks basis ranks) = board.lists slot := by
  cases board <;> simp [Board.lists]

/-- Ranks do not count, so that those on one basis can be given after those on the
other. -/
theorem counted_rankOn (basis basis' : TimeBasis) (slots : List Slot) (entry : Slot × Nat)
    (ranks : Ranks) :
    counted basis' (rankOn basis slots) (entry.1.setRanks basis ranks, entry.2) =
      counted basis' slots entry := by
  have hahead : ahead basis' (rankOn basis slots) (entry.1.setRanks basis ranks, entry.2) =
      ahead basis' slots entry := by
    funext board
    rw [ahead, zipIdx_rankOn, List.countP_map]
    refine List.countP_congr fun other _ => ?_
    simp [isBefore]
  rw [counted, counted, hahead]
  simp

/-- A slot with its places by counting, on both bases. -/
def ranked (slots : List Slot) (entry : Slot × Nat) : Slot :=
  { entry.1 with
    gunRanks := counted .gun slots entry
    netRanks := counted .net slots entry }

@[simp] theorem ranks_ranked (slots : List Slot) (entry : Slot × Nat) (basis : TimeBasis) :
    (ranked slots entry).ranks basis = counted basis slots entry := by cases basis <;> rfl

theorem assignRanks_eq (slots : List Slot) :
    assignRanks slots = slots.zipIdx.map (ranked slots) := by
  rw [assignRanks, rankOn_eq .net, zipIdx_rankOn, List.map_map]
  refine List.map_congr_left fun entry _ => ?_
  rw [Function.comp_apply, counted_rankOn]
  rfl

/-! ### Without ties or gaps -/

/-- The places of slots on a board are 1, 2, 3, …, each once. -/
def DenselyPlaced (board : Board) (basis : TimeBasis) (slots : List Slot) : Prop :=
  (slots.map fun slot => board.place (slot.ranks basis)).Perm
    ((List.range' 1 slots.length).map some)

theorem place_counted (hvisited : entry.1.isVisited = true) {board : Board}
    (hboard : board.lists entry.1 = true) :
    board.place (counted basis slots entry) = some (1 + ahead basis slots entry board) := by
  rw [counted, if_pos hvisited]
  cases board with
  | everyone => rfl
  | gender g =>
      obtain rfl : entry.1.gender = g := by simpa [Board.lists] using hboard
      rfl
  | category c =>
      have hcategory : entry.1.category = some c := by simpa [Board.lists] using hboard
      simp [Board.place, hcategory]

/-- The slots on a board at a split with their positions, in the order of time. -/
def listed (board : Board) (split : SplitId) (basis : TimeBasis) (slots : List Slot) :
    List (Slot × Nat) :=
  (inOrder slots basis).filter fun entry => board.lists entry.1 && entry.1.split == split

theorem pairwise_listed (board : Board) (split : SplitId) (basis : TimeBasis)
    (slots : List Slot) : (listed board split basis slots).Pairwise (isBefore basis · ·) :=
  (pairwise_inOrder slots basis).filter _

/-- On a board the places at a split are 1, 2, 3, … in the order of time. -/
theorem map_place_listed (board : Board) (split : SplitId) (basis : TimeBasis) (slots : List Slot) :
    ((listed board split basis slots).map fun entry =>
        board.place ((ranked slots entry).ranks basis)) =
      (List.range' 1 (listed board split basis slots).length).map some := by
  have hplace : ∀ entry ∈ listed board split basis slots,
      board.place ((ranked slots entry).ranks basis) =
        some (1 + (listed board split basis slots).countP (isBefore basis · entry)) := by
    intro entry hentry
    obtain ⟨hmem, hboth⟩ := List.mem_filter.mp hentry
    obtain ⟨hboard, hsplit⟩ := Bool.and_eq_true_iff.mp hboth
    have hvisited := (List.mem_filter.mp ((inOrder_perm slots basis).subset hmem)).2
    obtain rfl : entry.1.split = split := by simpa using hsplit
    rw [ranks_ranked, place_counted hvisited hboard, ahead, listed, List.countP_filter,
      ← countP_inOrder entry fun other => board.lists other.1 && other.1.split == entry.1.split]
    simp only [Bool.and_comm]
  rw [List.map_congr_left hplace, List.range'_eq_map_range,
    ← map_countP_of_pairwise isBefore_asymm (pairwise_listed board split basis slots),
    List.map_map, List.map_map]
  rfl

/-- With their ranks, they are what a sort by time makes of the slots there. -/
theorem map_ranked_listed (board : Board) (split : SplitId) (basis : TimeBasis)
    (slots : List Slot) :
    (listed board split basis slots).map (ranked slots) =
      ((assignRanks slots).filter fun slot =>
        slot.isVisited && (board.lists slot && slot.split == split)).mergeSort fun a b =>
          a.timeOn basis ≤ b.timeOn basis := by
  have hsame : ((fun slot : Slot => slot.isVisited && (board.lists slot && slot.split == split)) ∘
      ranked slots) = fun entry =>
        (board.lists entry.1 && entry.1.split == split) && entry.1.isVisited := by
    funext entry
    rw [Bool.and_comm]
    cases board <;> rfl
  rw [listed, inOrder_eq, filter_mergeSort Duration.le_trans Duration.le_total
    Duration.le_antisymm, List.filter_filter, assignRanks_eq, List.filter_map, hsame]
  exact List.map_mergeSort fun _ _ _ _ => rfl

/-- So each of these places is taken once. -/
theorem denselyPlaced_assignRanks (board : Board) (basis : TimeBasis) (slots : List Slot)
    (split : SplitId) :
    DenselyPlaced board basis ((assignRanks slots).filter fun slot =>
      slot.isVisited && (board.lists slot && slot.split == split)) := by
  have hrows : ((listed board split basis slots).map (ranked slots)).Perm
      ((assignRanks slots).filter fun slot =>
        slot.isVisited && (board.lists slot && slot.split == split)) := by
    rw [map_ranked_listed]
    exact List.mergeSort_perm _ _
  rw [DenselyPlaced, ← hrows.length_eq, List.length_map, ← map_place_listed]
  refine (hrows.symm.map _).trans ?_
  rw [List.map_map]
  exact List.Perm.refl _

end Standings

/-- The overall places of the slots are 1, 2, 3, …, each once. -/
def DenselyRanked (basis : TimeBasis) (slots : List Slot) : Prop :=
  (slots.map fun slot => (slot.ranks basis).overall).Perm ((List.range' 1 slots.length).map some)

instance (basis : TimeBasis) (slots : List Slot) : Decidable (DenselyRanked basis slots) :=
  inferInstanceAs (Decidable (List.Perm _ _))

theorem DenselyRanked.of_perm {basis : TimeBasis} {slots slots' : List Slot}
    (h : DenselyRanked basis slots) (hperm : slots.Perm slots') : DenselyRanked basis slots' := by
  unfold DenselyRanked at *
  rw [← hperm.length_eq]
  exact (hperm.map _).symm.trans h

open Standings

/-- **At every split the crossed slots have the places 1, 2, 3, …, each once.** -/
theorem denselyRanked_assignRanks (basis : TimeBasis) (slots : List Slot) (split : SplitId) :
    DenselyRanked basis
      (((assignRanks slots).filter (·.isVisited)).filter (·.split == split)) := by
  have hfilter : ((assignRanks slots).filter (·.isVisited)).filter (·.split == split) =
      (assignRanks slots).filter fun slot =>
        slot.isVisited && (Board.everyone.lists slot && slot.split == split) := by
    rw [List.filter_filter]
    exact List.filter_congr fun slot _ => Bool.and_comm ..
  rw [hfilter]
  exact denselyPlaced_assignRanks .everyone basis slots split

/-- Nothing but ranks is assigned. -/
theorem map_assignRanks {α : Type} {f : Slot → α}
    (hf : ∀ slot basis ranks, f (Slot.setRanks slot basis ranks) = f slot) (slots : List Slot) :
    (assignRanks slots).map f = slots.map f := by
  have hranked (entry : Slot × Nat) : f (ranked slots entry) = f entry.1 :=
    (hf (entry.1.setRanks .gun (counted .gun slots entry)) .net (counted .net slots entry)).trans
      (hf entry.1 .gun _)
  rw [assignRanks_eq, List.map_map]
  refine List.ext_getElem (by simp) fun i _ _ => ?_
  simp [hranked]

/-- A slot without its places. -/
def Slot.unranked (s : Slot) : Slot := { s with gunRanks := .none, netRanks := .none }

@[simp] theorem Slot.unranked_setRanks (s : Slot) (basis : TimeBasis) (r : Ranks) :
    (s.setRanks basis r).unranked = s.unranked := by cases basis <;> rfl

theorem map_unranked_assignRanks (slots : List Slot) :
    (assignRanks slots).map Slot.unranked = slots.map Slot.unranked :=
  map_assignRanks Slot.unranked_setRanks slots

/-! ### The whole list -/

namespace Standings

theorem ahead_lt_length {basis : TimeBasis} {slots : List Slot} {entry : Slot × Nat}
    (hentry : entry ∈ slots.zipIdx) (board : Board) :
    ahead basis slots entry board < slots.length := by
  have hle : ahead basis slots entry board ≤ slots.zipIdx.length := List.countP_le_length
  rw [List.length_zipIdx] at hle
  refine Nat.lt_of_le_of_ne hle fun heq => ?_
  -- The slot itself would come before itself.
  have hall := List.countP_eq_length.mp (heq.trans List.length_zipIdx.symm) entry hentry
  have hself := (Bool.and_eq_true_iff.mp hall).2
  rw [isBefore_asymm entry entry hself] at hself
  cases hself

/-- There are no more places than slots. -/
theorem place_le_length {basis : TimeBasis} {slots : List Slot} {slot : Slot}
    (hslot : slot ∈ assignRanks slots) {board : Board} {place : Nat}
    (hplace : board.place (slot.ranks basis) = some place) : place ≤ slots.length := by
  rw [assignRanks_eq] at hslot
  obtain ⟨entry, hentry, rfl⟩ := List.mem_map.mp hslot
  have hahead : ∃ other, place = 1 + ahead basis slots entry other := by
    rw [ranks_ranked, counted] at hplace
    split at hplace
    · cases board with
      | everyone => exact ⟨_, (Option.some.inj hplace).symm⟩
      | gender g => exact ⟨_, (Option.some.inj hplace).symm⟩
      | category c =>
          obtain ⟨c', -, rfl⟩ := Option.map_eq_some_iff.mp hplace
          exact ⟨_, rfl⟩
    · cases board <;> cases hplace
  obtain ⟨other, rfl⟩ := hahead
  have hlt : ahead basis slots entry other < slots.length := ahead_lt_length hentry other
  omega

end Standings

/--
**A place is one more than the number of slots that come before.**  On each basis a
crossed slot has such a place among everyone, among its gender and, if it has a
category, among its category; any other slot has none, and nothing but ranks is
changed.  So at every split the places on a board run 1, 2, 3, … without ties or gaps,
and none exceeds the number of slots.
-/
theorem assignRanks_eq_counted (slots : List Slot) :
    (assignRanks slots = slots.zipIdx.map fun entry =>
      { entry.1 with
        gunRanks := counted .gun slots entry
        netRanks := counted .net slots entry }) ∧
    (∀ board basis split, DenselyPlaced board basis ((assignRanks slots).filter fun slot =>
      slot.isVisited && (board.lists slot && slot.split == split))) ∧
    ∀ slot ∈ assignRanks slots, ∀ board basis place,
      Board.place board (slot.ranks basis) = some place → place ≤ slots.length :=
  ⟨assignRanks_eq slots, fun board basis split => denselyPlaced_assignRanks board basis slots split,
    fun _ hslot _ _ _ hplace => place_le_length hslot hplace⟩

/-- Two who are level by the gun, a third who was faster and a fourth who has not
come, all with places from before; and the fourth again, at another split. -/
def photoFinish : List Slot :=
  let slot (n split : Nat) (gender : Gender) (category : Option CategoryId) (passage : Passage) :
      Slot :=
    { athlete := ⟨BitVec.ofNat 128 n⟩, split := ⟨BitVec.ofNat 128 split⟩, event := ⟨1⟩
      category, gender, passage, gunRanks := ⟨some 7, some 7, some 7⟩, netRanks := .none }
  let crossed (gun net : Nat) : Passage := .detected ⟨Instant.last, .ofSeconds gun, .ofSeconds net⟩
  [slot 1 1 .female (some ⟨1⟩) (crossed 10 10), slot 2 1 .male (some ⟨1⟩) (crossed 10 8),
    slot 3 1 .female none (crossed 9 9), slot 4 1 .male none .notVisited,
    slot 4 2 .male none (crossed 12 12)]

theorem assignRanks_photoFinish :
    (assignRanks photoFinish).map (fun slot => (slot.gunRanks, slot.netRanks)) =
      [(⟨some 2, some 2, some 1⟩, ⟨some 3, some 2, some 2⟩),
        (⟨some 3, some 1, some 2⟩, ⟨some 1, some 1, some 1⟩),
        (⟨some 1, some 1, none⟩, ⟨some 2, some 1, none⟩),
        (.none, .none),
        (⟨some 1, some 1, none⟩, ⟨some 1, some 1, none⟩)] := by
  rw [(assignRanks_eq_counted photoFinish).1]
  decide

end ChipTiming
