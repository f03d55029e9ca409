import TileTraffic.Channel.Assignment
import TileTraffic.Proofs.Lists

/-!
The reuse index knows exactly the bundles that have a channel at the end opposite to the one that
looks for an interface channel. So what `findReuse` finds leads to the far end that was asked for,
and it finds something whenever there is something to find.
-/

namespace TileTraffic

namespace Ends

/--
The channels at the far end, as seen from where a channel of direction `need` would be.
-/
def anchors (e : Ends) : Direction → List ChannelKey
  | .outbound => e.consumerKeys
  | .inbound => e.producer.toList

end Ends

namespace ReuseIndex

variable {index : ReuseIndex} {ends : List Ends} {need : Direction} {n : Nat}
  {key anchor : ChannelKey}

/--
The users of a channel after a note: those that it had, and behind them the new one.
-/
theorem getD_lookup_note (k : ChannelKey) (m : Nat) (entries : List (ChannelKey × List Nat)) :
    ((note k m entries).lookup key).getD [] =
      if k = key ∧ m ∉ (entries.lookup key).getD [] then (entries.lookup key).getD [] ++ [m]
      else (entries.lookup key).getD [] := by
  induction entries with
  | nil =>
    unfold note
    rw [getD_lookup_cons]
    simp
  | cons entry entries ih =>
    obtain ⟨k', users⟩ := entry
    unfold note
    by_cases hk : k' = k
    . subst hk
      rw [if_pos rfl, getD_lookup_cons, getD_lookup_cons]
      by_cases h : k' = key
      . by_cases hm : m ∈ users <;> simp [h, hm]
      . simp [h]
    . rw [if_neg hk, getD_lookup_cons, getD_lookup_cons]
      by_cases h : k' = key
      . subst h
        simp [Ne.symm hk]
      . rw [if_neg h, if_neg h]
        exact ih

theorem getD_lookup_foldl_note (keys : List ChannelKey) (m : Nat)
    (entries : List (ChannelKey × List Nat)) :
    ((keys.foldl (fun entries k => note k m entries) entries).lookup key).getD [] =
      if key ∈ keys ∧ m ∉ (entries.lookup key).getD [] then (entries.lookup key).getD [] ++ [m]
      else (entries.lookup key).getD [] := by
  induction keys generalizing entries with
  | nil => simp
  | cons k keys ih =>
    rw [List.foldl_cons, ih, getD_lookup_note]
    by_cases hk : k = key
    . by_cases hm : m ∈ (entries.lookup key).getD []
      . simp [hm]
      . simp [hk, hm]
    . simp [hk, Ne.symm hk]

/--
Recording a bundle puts it behind the users of every channel at its far end that does not list it.
-/
theorem users_record (m : Nat) (e : Ends) : (index.record m e).users need key =
    if key ∈ e.anchors need ∧ m ∉ index.users need key then index.users need key ++ [m]
    else index.users need key := by
  cases need with
  | inbound => apply getD_lookup_foldl_note
  | outbound => apply getD_lookup_foldl_note

theorem mem_users_record (m : Nat) (e : Ends) :
    n ∈ (index.record m e).users need key ↔
      n ∈ index.users need key ∨ n = m ∧ key ∈ e.anchors need := by
  rw [users_record]
  by_cases hkey : key ∈ e.anchors need
  . by_cases hm : m ∈ index.users need key
    . rw [if_neg (fun h => h.2 hm)]
      constructor
      . exact .inl
      . rintro (hn | ⟨rfl, _⟩)
        . exact hn
        . exact hm
    . simp [hkey, hm]
  . simp [hkey]

/--
The index lists, for every channel, the bundles that have it at their far end.
-/
def Indexes (index : ReuseIndex) (ends : List Ends) : Prop :=
  ∀ need key n, n ∈ index.users need key ↔ ∃ e, ends[n]? = some e ∧ key ∈ e.anchors need

theorem mem_users_foldl (bs : List Bundle) (start : Nat) :
    n ∈ ((bs.zipIdx start).foldl (fun index (b, n) => index.record n b.ends) index).users need key ↔
      n ∈ index.users need key ∨
        ∃ i b, n = start + i ∧ bs[i]? = some b ∧ key ∈ b.ends.anchors need := by
  induction bs generalizing start index with
  | nil => simp
  | cons b bs ih =>
    rw [List.zipIdx_cons, List.foldl_cons, ih, mem_users_record, or_assoc]
    apply or_congr_right
    constructor
    . rintro (⟨rfl, hkey⟩ | ⟨i, c, rfl, hget, hkey⟩)
      . exact ⟨0, b, rfl, rfl, hkey⟩
      . exact ⟨i + 1, c, by omega, hget, hkey⟩
    . rintro ⟨i, c, rfl, hget, hkey⟩
      cases i with
      | zero =>
        obtain rfl := Option.some.inj hget
        exact .inl ⟨rfl, hkey⟩
      | succ i => exact .inr ⟨i, c, by omega, hget, hkey⟩

theorem indexes_indexOf (bs : List Bundle) :
    (Assignment.indexOf bs).Indexes (bs.map Bundle.ends) := by
  intro need key n
  unfold Assignment.indexOf
  rw [mem_users_foldl]
  have hempty : n ∉ empty.users need key := by
    cases need <;> simp [empty, users]
  simp only [hempty, false_or, List.getElem?_map, Option.map_eq_some_iff]
  constructor
  . rintro ⟨i, b, rfl, hget, hkey⟩
    rw [Nat.zero_add]
    exact ⟨b.ends, ⟨b, hget, rfl⟩, hkey⟩
  . rintro ⟨_, ⟨b, hget, rfl⟩, hkey⟩
    exact ⟨n, b, (Nat.zero_add n).symm, hget, hkey⟩

/--
Recording a bundle whose channels have been added to keeps the index exact.
-/
theorem Indexes.record {before after : List Ends} {e e' : Ends}
    (h : index.Indexes (before ++ e :: after))
    (hsub : ∀ need key, key ∈ e.anchors need → key ∈ e'.anchors need) :
    (index.record before.length e').Indexes (before ++ e' :: after) := by
  intro need key n
  rw [mem_users_record, h need key n]
  rcases Nat.lt_trichotomy n before.length with hn | rfl | hn
  . rw [List.getElem?_append_left hn, List.getElem?_append_left hn]
    simp [Nat.ne_of_lt hn]
  . -- the bundle itself: what it had at its far end before, it still has
    simp
    exact hsub need key
  . obtain ⟨i, rfl⟩ : ∃ i, n = before.length + (i + 1) := ⟨n - before.length - 1, by omega⟩
    rw [List.getElem?_append_right (by omega), List.getElem?_append_right (by omega)]
    simp

theorem findReuse_eq_some {anchors : List ChannelKey} {eligible : ChannelKey → Bool}
    (h : index.findReuse ends anchors need eligible = some key) :
    ∃ anchor ∈ anchors, ∃ n ∈ index.users need anchor, ∃ e, ends[n]? = some e ∧
      key ∈ e.keysToward need ∧ key.direction = need ∧ eligible key = true := by
  obtain ⟨anchor, hanchor, h⟩ := List.exists_of_findSome?_eq_some h
  obtain ⟨n, hn, h⟩ := List.exists_of_findSome?_eq_some h
  obtain ⟨e, he, h⟩ := Option.bind_eq_some_iff.mp h
  have hmem := List.mem_of_find?_eq_some h
  have hkey := List.find?_some h
  rw [Bool.and_eq_true, decide_eq_true_eq] at hkey
  exact ⟨anchor, hanchor, n, hn, e, he, hmem, hkey⟩

theorem findReuse_eq_none {anchors : List ChannelKey} {eligible : ChannelKey → Bool}
    (h : index.findReuse ends anchors need eligible = none) (hanchor : anchor ∈ anchors)
    (hn : n ∈ index.users need anchor) {e : Ends} (he : ends[n]? = some e)
    (hkey : key ∈ e.keysToward need) (hd : key.direction = need) : eligible key = false := by
  unfold findReuse at h
  rw [List.findSome?_eq_none_iff] at h
  have h := h anchor hanchor
  rw [List.findSome?_eq_none_iff] at h
  have h := h n hn
  rw [he, Option.bind_some, List.find?_eq_none] at h
  have h := h key hkey
  simpa [hd] using h

theorem Indexes.findReuse_eq_some {anchors : List ChannelKey} {eligible : ChannelKey → Bool}
    (hindex : index.Indexes ends) (h : index.findReuse ends anchors need eligible = some key) :
    ∃ anchor ∈ anchors, ∃ e ∈ ends, anchor ∈ e.anchors need ∧ key ∈ e.keysToward need ∧
      key.direction = need ∧ eligible key = true := by
  obtain ⟨anchor, hanchor, n, hn, e, he, hkey⟩ := ReuseIndex.findReuse_eq_some h
  obtain ⟨e', he', hmem⟩ := (hindex need anchor n).mp hn
  obtain rfl : e = e' := by simpa [he] using he'
  exact ⟨anchor, hanchor, e, List.mem_of_getElem? he, hmem, hkey⟩

theorem Indexes.findReuse_eq_none {anchors : List ChannelKey} {eligible : ChannelKey → Bool}
    (hindex : index.Indexes ends) (h : index.findReuse ends anchors need eligible = none)
    (hanchor : anchor ∈ anchors) {e : Ends} (he : e ∈ ends) (hmem : anchor ∈ e.anchors need)
    (hkey : key ∈ e.keysToward need) (hd : key.direction = need) : eligible key = false := by
  obtain ⟨n, hn⟩ := List.getElem?_of_mem he
  have huser := (hindex need anchor n).mpr ⟨e, hn, hmem⟩
  exact ReuseIndex.findReuse_eq_none h hanchor huser hn hkey hd

/-! ### A bundle that has nothing to offer -/

/--
The second index lists one bundle more, and is otherwise like the first one.
-/
def Adds (n : Nat) (index index' : ReuseIndex) : Prop :=
  ∀ need key, (index'.users need key).filter (· ≠ n) = index.users need key

theorem Adds.record {index' : ReuseIndex} (h : Adds n index index') {m : Nat} (hm : m ≠ n)
    (e : Ends) : Adds n (index.record m e) (index'.record m e) := by
  intro need key
  have hmem : m ∈ index.users need key ↔ m ∈ index'.users need key := by
    rw [← h need key, List.mem_filter]
    simp [hm]
  rw [users_record, users_record]
  simp only [hmem]
  split
  . rw [List.filter_append, h need key]
    simp [hm]
  . exact h need key

/--
Recording a bundle whose number is new adds this bundle and no other.
-/
theorem adds_record (hnew : ∀ need key, n ∉ index.users need key) (e : Ends) :
    Adds n index (index.record n e) := by
  intro need key
  have hold : (index.users need key).filter (· ≠ n) = index.users need key := by
    rw [List.filter_eq_self]
    intro m hm
    simpa using ne_of_mem_of_not_mem hm (hnew need key)
  rw [users_record]
  split
  . rw [List.filter_append, hold]
    simp
  . exact hold

/--
Where the new bundle has no channel that would do, it is passed over: the same channel is found.
-/
theorem Adds.findReuse_eq {index' : ReuseIndex} {e : Ends} {eligible : ChannelKey → Bool}
    (h : Adds ends.length index index') (he : ∀ key ∈ e.keysToward need, eligible key = false)
    (anchors : List ChannelKey) : index'.findReuse (ends ++ [e]) anchors need eligible =
      index.findReuse ends anchors need eligible := by
  unfold findReuse
  congr 1
  funext anchor
  rw [← h need anchor, findSome?_filter]
  congr 1
  funext m
  by_cases hm : m = ends.length
  . subst hm
    rw [List.getElem?_concat_length, Option.bind_some, List.find?_eq_none.mpr]
    . simp
    . intro key hkey
      simp [he key hkey]
  . rw [if_pos (by simpa using hm)]
    rcases Nat.lt_or_gt_of_ne hm with hlt | hgt
    . rw [List.getElem?_append_left hlt]
    . rw [List.getElem?_eq_none (by simp; omega), List.getElem?_eq_none (by omega)]

end ReuseIndex

end TileTraffic
