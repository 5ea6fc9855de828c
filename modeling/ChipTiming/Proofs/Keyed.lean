/-
What putting elements into a keyed list does to it.

Two views of such a list are enough for everything built on it: which keys it has,
in which order, and which element stands under a key.  `put` adds a key at the end
unless it is there already (`keys_put`) and changes what stands under its own key
only (`withKey?_put`).  Where the keys are distinct, an element is found under its
key just if it is in the list (`withKey?_eq_some_iff`), and where a batch brings
new keys only, putting it is appending it (`putAll_eq_append`).

A list whose keys are distinct is known by the two views (`eq_of_withKey?_eq`).
So putting a batch a second time changes nothing (`putAll_putAll`): all keys are
there, and under each stands what the batch has last for it.
-/
import ChipTiming.Keyed
import Mathlib.Data.List.Nodup

namespace ChipTiming

variable {α κ : Type} [DecidableEq κ] {key : α → κ} {x y : α} {xs batch : List α} {k : κ}

/-! ### Keys -/

theorem keys_put (key : α → κ) (x : α) (xs : List α) :
    (put key x xs).map key =
      if key x ∈ xs.map key then xs.map key else xs.map key ++ [key x] := by
  induction xs with
  | nil => simp [put]
  | cons y ys ih =>
      rw [put]
      by_cases hkey : key y = key x
      · rw [if_pos hkey, List.map_cons, List.map_cons, hkey, if_pos (List.mem_cons_self ..)]
      · have hne : ¬key x = key y := fun h => hkey h.symm
        rw [if_neg hkey, List.map_cons, List.map_cons, ih]
        by_cases hmem : key x ∈ ys.map key
        · rw [if_pos hmem, if_pos (List.mem_cons_of_mem _ hmem)]
        · have hmem' : key x ∉ key y :: ys.map key := by
            simp only [List.mem_cons, hne, hmem, or_self, not_false_eq_true]
          rw [if_neg hmem, if_neg hmem', List.cons_append]

theorem mem_keys_put : k ∈ (put key x xs).map key ↔ k = key x ∨ k ∈ xs.map key := by
  rw [keys_put]
  by_cases hmem : key x ∈ xs.map key
  · rw [if_pos hmem]
    refine ⟨Or.inr, ?_⟩
    intro hk
    rcases hk with rfl | h
    · exact hmem
    · exact h
  · rw [if_neg hmem, List.mem_append, List.mem_singleton, or_comm]

theorem nodup_put (h : (xs.map key).Nodup) : ((put key x xs).map key).Nodup := by
  rw [keys_put]
  by_cases hmem : key x ∈ xs.map key
  · rwa [if_pos hmem]
  · rw [if_neg hmem]
    refine List.nodup_append.mpr ⟨h, List.nodup_singleton _, ?_⟩
    intro a ha b hb hab
    rw [List.mem_singleton] at hb
    exact hmem (hb ▸ hab ▸ ha)

/-- Keys that stand in the order of first appearance go on doing so. -/
theorem keys_put_of_eq_eraseDups {ks : List κ} (h : xs.map key = ks.eraseDups) :
    (put key x xs).map key = (ks ++ [key x]).eraseDups := by
  have hmem : key x ∈ xs.map key ↔ key x ∈ ks := by rw [h, List.mem_eraseDups]
  rw [keys_put, List.eraseDups_append, ← h]
  by_cases hx : key x ∈ ks
  · rw [if_pos (hmem.mpr hx)]
    simp [List.removeAll, hx]
  · rw [if_neg (mt hmem.mp hx)]
    simp [List.removeAll, hx, List.eraseDups_cons]

theorem mem_keys_putAll :
    k ∈ (putAll key batch xs).map key ↔ k ∈ batch.map key ∨ k ∈ xs.map key := by
  induction batch generalizing xs with
  | nil => simp
  | cons x batch ih =>
      rw [putAll_cons, ih, mem_keys_put, List.map_cons, List.mem_cons, or_assoc, or_left_comm]

theorem nodup_putAll (h : (xs.map key).Nodup) : ((putAll key batch xs).map key).Nodup := by
  induction batch generalizing xs with
  | nil => exact h
  | cons x batch ih => exact ih (nodup_put h)

/-- The keys there are keep their order, and new ones follow in that of their first
appearance. -/
theorem keys_putAll (key : α → κ) (batch xs : List α) :
    (putAll key batch xs).map key =
      xs.map key ++ ((batch.map key).filter (· ∉ xs.map key)).eraseDups := by
  induction batch generalizing xs with
  | nil => simp
  | cons x batch ih =>
      rw [putAll_cons, ih, keys_put, List.map_cons]
      by_cases hmem : key x ∈ xs.map key
      · rw [if_pos hmem, List.filter_cons_of_neg (by simpa using hmem)]
      · have hrest : (batch.map key).filter (· ∉ xs.map key ++ [key x]) =
            ((batch.map key).filter (· ∉ xs.map key)).filter fun k => !k == key x := by
          rw [List.filter_filter]
          refine List.filter_congr fun k _ => ?_
          by_cases hk : k = key x <;> simp [hk]
        rw [if_neg hmem, List.filter_cons_of_pos (by simpa using hmem), List.eraseDups_cons, hrest,
          List.append_assoc, List.singleton_append]

/-! ### What stands under a key -/

theorem withKey?_put :
    withKey? key k (put key x xs) = if key x = k then some x else withKey? key k xs := by
  unfold withKey?
  induction xs with
  | nil => by_cases hk : key x = k <;> simp [put, hk]
  | cons y ys ih =>
      rw [put]
      by_cases hkey : key y = key x
      · rw [if_pos hkey, List.find?_cons, List.find?_cons, hkey]
        by_cases hk : key x = k <;> simp [hk]
      · rw [if_neg hkey, List.find?_cons, ih, List.find?_cons]
        by_cases hk : key y = k
        · have hne : ¬key x = k := fun h => hkey (hk.trans h.symm)
          simp [hk, hne]
        · simp [hk]

theorem mem_of_withKey? (h : withKey? key k xs = some x) : x ∈ xs ∧ key x = k :=
  ⟨List.mem_of_find?_eq_some h, by simpa using List.find?_some h⟩

theorem withKey?_eq_none_iff : withKey? key k xs = none ↔ k ∉ xs.map key := by
  simp [withKey?, List.find?_eq_none]

theorem withKey?_eq_some_iff (h : (xs.map key).Nodup) :
    withKey? key k xs = some x ↔ x ∈ xs ∧ key x = k := by
  refine ⟨mem_of_withKey?, ?_⟩
  intro hmem
  obtain ⟨hx, rfl⟩ := hmem
  cases hfound : withKey? key (key x) xs with
  | none => exact absurd (List.mem_map_of_mem hx) (withKey?_eq_none_iff.mp hfound)
  | some y =>
      obtain ⟨hy, hkey⟩ := mem_of_withKey? hfound
      rw [List.inj_on_of_nodup_map h hy hx hkey]

/-- With distinct keys it does not matter where an element stands. -/
theorem withKey?_eq_of_perm {ys : List α} (h : (xs.map key).Nodup) (hperm : xs.Perm ys) :
    withKey? key k xs = withKey? key k ys := by
  have hys : (ys.map key).Nodup := (hperm.map key).nodup_iff.mp h
  refine Option.ext fun x => ?_
  rw [withKey?_eq_some_iff h, withKey?_eq_some_iff hys, hperm.mem_iff]

/-- With distinct keys elements may as well be left out after one has been looked
up. -/
theorem withKey?_filter_of_nodup (h : (xs.map key).Nodup) (keep : α → Bool) :
    withKey? key k (xs.filter keep) = (withKey? key k xs).filter keep := by
  refine Option.ext fun x => ?_
  rw [withKey?_eq_some_iff (h.sublist (List.filter_sublist.map key)), Option.filter_eq_some_iff,
    withKey?_eq_some_iff h, List.mem_filter, and_right_comm]

theorem withKey?_filter (keep : κ → Bool) :
    withKey? key k (xs.filter fun x => keep (key x)) =
      if keep k = true then withKey? key k xs else none := by
  unfold withKey?
  rw [List.find?_filter]
  by_cases hk : keep k = true
  · rw [if_pos hk]
    refine congrArg (xs.find? ·) (funext fun x => ?_)
    by_cases hkey : key x = k <;> simp [hkey, hk]
  · rw [if_neg hk, List.find?_eq_none]
    intro x _
    by_cases hkey : key x = k <;> simp [hkey, hk]

/-- What leaves keys alone can be done before or after looking one up. -/
theorem withKey?_map {f : α → α} (hf : ∀ x, key (f x) = key x) (k : κ) (xs : List α) :
    withKey? key k (xs.map f) = (withKey? key k xs).map f := by
  unfold withKey?
  rw [List.find?_map]
  exact congrArg (Option.map f) (congrArg (xs.find? ·) (funext fun x => by simp [hf]))

theorem lookup_eq_map_withKey? {β : Type} (k : κ) (xs : List (κ × β)) :
    xs.lookup k = (withKey? Prod.fst k xs).map Prod.snd := by
  unfold withKey?
  induction xs with
  | nil => rfl
  | cons x xs ih =>
      rw [List.lookup_cons, List.find?_cons, ih]
      by_cases hkey : x.1 = k
      · simp [hkey]
      · have hne : (k == x.1) = false := by simpa using fun heq : k = x.1 => hkey heq.symm
        simp [hkey, hne]

theorem lookup_put {β : Type} {k k' : κ} {value : β} {xs : List (κ × β)} :
    (put Prod.fst (k', value) xs).lookup k = if k' = k then some value else xs.lookup k := by
  rw [lookup_eq_map_withKey?, withKey?_put, lookup_eq_map_withKey?]
  by_cases hkey : k' = k
  · rw [if_pos hkey, if_pos hkey, Option.map_some]
  · rw [if_neg hkey, if_neg hkey]

/-- The element with a key that comes last. -/
theorem withKey?_reverse_append_singleton :
    withKey? key k (xs ++ [x]).reverse =
      if key x = k then some x else withKey? key k xs.reverse := by
  unfold withKey?
  rw [List.reverse_append, List.reverse_singleton, List.singleton_append]
  by_cases hkey : key x = k <;> simp [hkey]

/-- The last element that a batch has for a key stands under it. -/
theorem withKey?_putAll :
    withKey? key k (putAll key batch xs) =
      (withKey? key k batch.reverse).or (withKey? key k xs) := by
  induction batch generalizing xs with
  | nil => simp [withKey?]
  | cons x batch ih =>
      rw [putAll_cons, ih, withKey?_put, List.reverse_cons]
      unfold withKey?
      rw [List.find?_append, Option.or_assoc]
      by_cases hkey : key x = k <;> simp [hkey]

theorem mem_of_mem_put (h : y ∈ put key x xs) : y = x ∨ y ∈ xs := by
  induction xs with
  | nil => exact Or.inl (List.mem_singleton.mp h)
  | cons z zs ih =>
      rw [put] at h
      by_cases hkey : key z = key x
      · rw [if_pos hkey] at h
        rcases List.mem_cons.mp h with rfl | h
        · exact Or.inl rfl
        · exact Or.inr (List.mem_cons_of_mem _ h)
      · rw [if_neg hkey] at h
        rcases List.mem_cons.mp h with rfl | h
        · exact Or.inr (List.mem_cons_self ..)
        · exact (ih h).imp_right (List.mem_cons_of_mem _)

theorem mem_of_mem_putAll (h : y ∈ putAll key batch xs) : y ∈ batch ∨ y ∈ xs := by
  induction batch generalizing xs with
  | nil => exact Or.inr h
  | cons x batch ih =>
      rcases ih h with hbatch | hput
      · exact Or.inl (List.mem_cons_of_mem _ hbatch)
      · rcases mem_of_mem_put hput with rfl | hxs
        · exact Or.inl (List.mem_cons_self ..)
        · exact Or.inr hxs

theorem eq_of_withKey?_eq {ys : List α} (hxs : (xs.map key).Nodup)
    (hkeys : xs.map key = ys.map key)
    (h : ∀ k, withKey? key k xs = withKey? key k ys) : xs = ys := by
  have hys : (ys.map key).Nodup := hkeys ▸ hxs
  refine List.ext_getElem (by simpa using congrArg List.length hkeys) fun i hi hi' => ?_
  have hkey : (xs.map key)[i]? = (ys.map key)[i]? := by rw [hkeys]
  rw [List.getElem?_map, List.getElem?_map, List.getElem?_eq_getElem hi,
    List.getElem?_eq_getElem hi', Option.map_some, Option.map_some, Option.some.injEq] at hkey
  have hx := (withKey?_eq_some_iff hxs).mpr ⟨List.getElem_mem hi, rfl⟩
  have hy := (withKey?_eq_some_iff hys).mpr ⟨List.getElem_mem hi', rfl⟩
  rw [h, hkey, hy, Option.some.injEq] at hx
  exact hx.symm

theorem put_eq_map (h : (xs.map key).Nodup) (hmem : key x ∈ xs.map key) :
    put key x xs = xs.map fun y => if key y = key x then x else y := by
  induction xs with
  | nil => exact absurd hmem List.not_mem_nil
  | cons y ys ih =>
      rw [List.map_cons, List.nodup_cons] at h
      rw [put, List.map_cons]
      by_cases hkey : key y = key x
      · -- The keys after it are others, so that nothing else is replaced.
        have hrest : (ys.map fun z => if key z = key x then x else z) = ys := by
          refine (List.map_congr_left fun z hz => if_neg fun hz' => ?_).trans (List.map_id ys)
          exact h.1 (hkey.trans hz'.symm ▸ List.mem_map_of_mem hz)
        rw [if_pos hkey, if_pos hkey, hrest]
      · have hmem' : key x ∈ ys.map key := by
          rcases List.mem_cons.mp hmem with heq | hmem
          · exact absurd heq.symm hkey
          · exact hmem
        rw [if_neg hkey, if_neg hkey, ih h.2 hmem']

/-- With distinct keys there is one place only to put an element whose key is
there. -/
theorem put_eq_set {i : Nat} (h : (xs.map key).Nodup) (hi : (xs.map key)[i]? = some (key x)) :
    put key x xs = xs.set i x := by
  induction xs generalizing i with
  | nil => simp at hi
  | cons y ys ih =>
      rw [List.map_cons, List.nodup_cons] at h
      cases i with
      | zero =>
          have hkey : key y = key x := by simpa using hi
          rw [put, if_pos hkey, List.set_cons_zero]
      | succ i =>
          rw [List.map_cons, List.getElem?_cons_succ] at hi
          have hkey : key y ≠ key x := by
            intro heq
            exact h.1 (heq ▸ List.mem_of_getElem? hi)
          rw [put, if_neg hkey, ih h.2 hi, List.set_cons_succ]

/-! ### Putting what is there -/

theorem put_eq_self (h : withKey? key (key x) xs = some x) : put key x xs = xs := by
  induction xs with
  | nil => cases h
  | cons y ys ih =>
      rw [put]
      by_cases hkey : key y = key x
      · rw [withKey?, List.find?_cons_of_pos (by simpa using hkey), Option.some.injEq] at h
        rw [if_pos hkey, h]
      · rw [withKey?, List.find?_cons_of_neg (by simpa using hkey)] at h
        rw [if_neg hkey, ih h]

theorem keys_putAll_of_mem (h : ∀ x ∈ batch, key x ∈ xs.map key) :
    (putAll key batch xs).map key = xs.map key := by
  have hnew : (batch.map key).filter (· ∉ xs.map key) = [] := by
    rw [List.filter_eq_nil_iff]
    intro k hk
    obtain ⟨x, hx, rfl⟩ := List.mem_map.mp hk
    simpa using h x hx
  rw [keys_putAll, hnew, List.eraseDups_nil, List.append_nil]

/-- Putting a batch once more changes nothing. -/
theorem putAll_putAll (h : (xs.map key).Nodup) :
    putAll key batch (putAll key batch xs) = putAll key batch xs := by
  refine eq_of_withKey?_eq (nodup_putAll (nodup_putAll h)) (keys_putAll_of_mem ?_) fun k => ?_
  · exact fun x hx => mem_keys_putAll.mpr (Or.inl (List.mem_map_of_mem hx))
  · rw [withKey?_putAll, withKey?_putAll, ← Option.or_assoc, Option.or_self]

/-! ### New keys -/

theorem put_eq_append (h : key x ∉ xs.map key) : put key x xs = xs ++ [x] := by
  induction xs with
  | nil => rfl
  | cons y ys ih =>
      rw [List.map_cons, List.mem_cons, not_or] at h
      rw [put, if_neg (fun hkey => h.1 hkey.symm), ih h.2, List.cons_append]

theorem putAll_eq_append (hbatch : (batch.map key).Nodup)
    (hnew : ∀ x ∈ batch, key x ∉ xs.map key) : putAll key batch xs = xs ++ batch := by
  induction batch generalizing xs with
  | nil => simp
  | cons x batch ih =>
      rw [List.map_cons, List.nodup_cons] at hbatch
      rw [putAll_cons, put_eq_append (hnew x (List.mem_cons_self ..)), ih hbatch.2 ?_,
        List.append_assoc, List.singleton_append]
      intro y hy hmem
      rw [List.map_append, List.mem_append, List.map_singleton, List.mem_singleton] at hmem
      rcases hmem with hmem | hmem
      · exact hnew y (List.mem_cons_of_mem _ hy) hmem
      · exact hbatch.1 (hmem ▸ List.mem_map_of_mem hy)

/-- With distinct keys throughout, elements are replaced where they stand, and those
with new keys follow in the order of the batch. -/
theorem putAll_eq_map_append (hbatch : (batch.map key).Nodup) (hxs : (xs.map key).Nodup) :
    putAll key batch xs =
      xs.map (fun y => (withKey? key (key y) batch).getD y) ++
        batch.filter fun x => key x ∉ xs.map key := by
  induction batch generalizing xs with
  | nil => simp [withKey?]
  | cons x batch ih =>
      rw [List.map_cons, List.nodup_cons] at hbatch
      have hx : withKey? key (key x) batch = none := withKey?_eq_none_iff.mpr hbatch.1
      have hcons : ∀ k, withKey? key k (x :: batch) =
          if key x = k then some x else withKey? key k batch := by
        intro k
        unfold withKey?
        by_cases hk : key x = k <;> simp [hk]
      rw [putAll_cons, ih hbatch.2 (nodup_put hxs)]
      by_cases hmem : key x ∈ xs.map key
      · have hkeys : (put key x xs).map key = xs.map key := by rw [keys_put, if_pos hmem]
        rw [hkeys, List.filter_cons_of_neg (by simpa using hmem), put_eq_map hxs hmem, List.map_map]
        refine congrArg (· ++ _) (List.map_congr_left fun y _ => ?_)
        rw [Function.comp_apply, hcons]
        by_cases hy : key y = key x
        · rw [if_pos hy, if_pos hy.symm, hx]
          rfl
        · rw [if_neg hy, if_neg fun h => hy h.symm]
      · have hnew : ∀ y ∈ xs, key x ≠ key y := fun y hy heq => hmem (heq ▸ List.mem_map_of_mem hy)
        have hrest : (batch.filter fun y => key y ∉ (xs ++ [x]).map key) =
            batch.filter fun y => key y ∉ xs.map key := by
          refine List.filter_congr fun y hy => ?_
          have hne : key y ≠ key x := fun heq => hbatch.1 (heq ▸ List.mem_map_of_mem hy)
          simp [hne]
        rw [put_eq_append hmem, hrest, List.filter_cons_of_pos (by simpa using hmem),
          List.map_append, List.map_singleton, hx, List.append_assoc, List.singleton_append]
        refine congrArg (· ++ _) (List.map_congr_left fun y hy => ?_)
        rw [hcons, if_neg (hnew y hy)]

/-- With distinct keys throughout, the elements of a batch replace those under their
keys. -/
theorem mem_putAll_iff (hbatch : (batch.map key).Nodup) (hxs : (xs.map key).Nodup) :
    x ∈ putAll key batch xs ↔ x ∈ batch ∨ x ∈ xs ∧ key x ∉ batch.map key := by
  have hreverse : (batch.reverse.map key).Nodup := by rwa [List.map_reverse, List.nodup_reverse]
  have hiff : x ∈ putAll key batch xs ↔ withKey? key (key x) (putAll key batch xs) = some x := by
    rw [withKey?_eq_some_iff (nodup_putAll hxs)]
    simp
  rw [hiff, withKey?_putAll, Option.or_eq_some_iff, withKey?_eq_some_iff hreverse,
    withKey?_eq_some_iff hxs, withKey?_eq_none_iff]
  simp only [List.mem_reverse, List.map_reverse, and_true]
  rw [and_comm (a := key x ∉ batch.map key)]

/-- So of the elements that some property of keys selects, those of the batch are
left, if it has all of these keys. -/
theorem perm_filter_putAll (hbatch : (batch.map key).Nodup) (hxs : (xs.map key).Nodup)
    (keep : κ → Bool) (hkeep : ∀ x ∈ xs, keep (key x) = true → key x ∈ batch.map key) :
    ((putAll key batch xs).filter fun x => keep (key x)).Perm
      (batch.filter fun x => keep (key x)) := by
  rw [List.perm_ext_iff_of_nodup ((nodup_putAll hxs).of_map.filter _) (hbatch.of_map.filter _)]
  intro x
  rw [List.mem_filter, List.mem_filter, mem_putAll_iff hbatch hxs]
  refine ⟨?_, ?_⟩
  · intro h
    obtain ⟨hx | ⟨hx, hnew⟩, hkept⟩ := h
    · exact ⟨hx, hkept⟩
    · exact absurd (hkeep x hx hkept) hnew
  · exact fun h => ⟨Or.inl h.1, h.2⟩

end ChipTiming
