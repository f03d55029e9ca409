import TileTraffic.Grid
import TileTraffic.Ordered
import TileTraffic.Proofs.Lists

/-!
Lists ordered by a key: they are strictly increasing, they have all keys that they were made from,
and where the keys are different nothing is lost.
-/

namespace TileTraffic

/--
A strict order in which any two elements can be compared.
-/
class StrictTotal (κ : Type) [LT κ] : Prop where
  irrefl : ∀ x : κ, ¬ x < x
  trans : ∀ x y z : κ, x < y → y < z → x < z
  eq_of_not_lt : ∀ x y : κ, ¬ x < y → ¬ y < x → x = y

instance : StrictTotal Coord where
  irrefl := by
    intro x h
    rw [Coord.lt_iff] at h
    omega
  trans := by
    intro x y z hxy hyz
    rw [Coord.lt_iff] at *
    omega
  eq_of_not_lt := by
    intro ⟨a, b⟩ ⟨c, d⟩ hxy hyx
    rw [Coord.lt_iff] at hxy hyx
    dsimp only at hxy hyx
    obtain rfl : a = c := by omega
    obtain rfl : b = d := by omega
    rfl

instance : StrictTotal ChannelKey where
  irrefl := by
    intro x h
    rcases h with h | ⟨_, h | ⟨_, h⟩⟩
    . exact StrictTotal.irrefl _ h
    . omega
    . omega
  trans := by
    intro x y z hxy hyz
    rcases hxy with hxy | ⟨heq, hxy⟩
    . rcases hyz with hyz | ⟨heq', _⟩
      . exact .inl (StrictTotal.trans _ _ _ hxy hyz)
      . exact .inl (heq' ▸ hxy)
    . rcases hyz with hyz | ⟨heq', hyz⟩
      . exact .inl (heq ▸ hyz)
      . refine .inr ⟨heq.trans heq', ?_⟩
        rcases hxy with hxy | ⟨hd, hxy⟩
        . rcases hyz with hyz | ⟨hd', _⟩
          . exact .inl (Nat.lt_trans hxy hyz)
          . exact .inl (hd' ▸ hxy)
        . rcases hyz with hyz | ⟨hd', hyz⟩
          . exact .inl (hd ▸ hyz)
          . exact .inr ⟨hd.trans hd', Nat.lt_trans hxy hyz⟩
  eq_of_not_lt := by
    intro ⟨tile, direction, id⟩ ⟨tile', direction', id'⟩ hxy hyx
    rw [ChannelKey.lt_iff] at hxy hyx
    unfold ChannelKey.Before at hxy hyx
    dsimp only at hxy hyx
    obtain rfl : tile = tile' := by
      apply StrictTotal.eq_of_not_lt
      . intro h
        exact hxy (.inl h)
      . intro h
        exact hyx (.inl h)
    obtain rfl : direction = direction' := by
      rw [← Direction.rank_inj]
      have h₁ : ¬ direction.rank < direction'.rank := fun h => hxy (.inr ⟨rfl, .inl h⟩)
      have h₂ : ¬ direction'.rank < direction.rank := fun h => hyx (.inr ⟨rfl, .inl h⟩)
      omega
    have h₁ : ¬ id < id' := fun h => hxy (.inr ⟨rfl, .inr ⟨rfl, h⟩⟩)
    have h₂ : ¬ id' < id := fun h => hyx (.inr ⟨rfl, .inr ⟨rfl, h⟩⟩)
    obtain rfl : id = id' := by omega
    rfl

namespace Ordered

variable {α κ : Type} [LT κ] [StrictTotal κ] {key : α → κ} {a : α} {l : List α}

/--
Every element comes before all that follow it.
-/
def Sorted (key : α → κ) (l : List α) : Prop :=
  l.Pairwise fun a b => key a < key b

theorem Sorted.nodup (h : Sorted key l) : (l.map key).Nodup := by
  unfold List.Nodup
  rw [List.pairwise_map]
  apply h.imp
  intro a b hab heq
  rw [heq] at hab
  exact StrictTotal.irrefl _ hab

/--
There is one way only to put elements in order.
-/
theorem Sorted.eq_of_perm {l' : List α} (h : Sorted key l) (h' : Sorted key l') (hperm : l.Perm l') :
    l = l' := by
  refine hperm.eq_of_pairwise ?_ h h'
  intro a b _ _ hab hba
  exact absurd (StrictTotal.trans _ _ _ hab hba) (StrictTotal.irrefl (key a))

theorem Sorted.eq_of_mem_iff {ks ks' : List κ} (h : Sorted id ks) (h' : Sorted id ks')
    (hmem : ∀ k, k ∈ ks ↔ k ∈ ks') : ks = ks' := by
  have hnodup : ks.Nodup := by simpa using h.nodup
  have hnodup' : ks'.Nodup := by simpa using h'.nodup
  exact h.eq_of_perm h' ((List.perm_ext_iff_of_nodup hnodup hnodup').mpr hmem)

variable [DecidableLT κ]

theorem sorted_insert (h : Sorted key l) : Sorted key (insert key a l) := by
  induction l with
  | nil => simp [insert, Sorted]
  | cons b l ih =>
    obtain ⟨hb, hl⟩ := List.pairwise_cons.mp h
    unfold insert
    split
    . next hab =>
      apply List.pairwise_cons.mpr
      refine ⟨?_, h⟩
      intro c hc
      rcases List.mem_cons.mp hc with rfl | hc
      . exact hab
      . exact StrictTotal.trans _ _ _ hab (hb c hc)
    . split
      . next hba =>
        apply List.pairwise_cons.mpr
        refine ⟨?_, ih hl⟩
        intro c hc
        rcases mem_insert hc with rfl | hc
        . exact hba
        . exact hb c hc
      . next hab hba =>
        apply List.pairwise_cons.mpr
        rw [StrictTotal.eq_of_not_lt _ _ hab hba]
        exact ⟨hb, hl⟩

theorem mem_map_insert {k : κ} :
    k ∈ (insert key a l).map key ↔ k = key a ∨ k ∈ l.map key := by
  induction l with
  | nil => simp [insert]
  | cons b l ih =>
    unfold insert
    split
    . simp
    . split
      . rw [List.map_cons, List.mem_cons, ih, List.map_cons, List.mem_cons]
        constructor
        . rintro (h | h | h) <;> simp [h]
        . rintro (h | h | h) <;> simp [h]
      . next hab hba =>
        rw [List.map_cons, List.mem_cons, List.map_cons, List.mem_cons,
          StrictTotal.eq_of_not_lt _ _ hab hba]
        simp

theorem insert_perm (h : key a ∉ l.map key) : (insert key a l).Perm (a :: l) := by
  induction l with
  | nil => exact .refl _
  | cons b l ih =>
    rw [List.map_cons, List.mem_cons] at h
    unfold insert
    split
    . exact .refl _
    . split
      . apply List.Perm.trans (.cons b (ih fun hmem => h (.inr hmem)))
        exact .swap a b l
      . next hab hba =>
        exact absurd (.inl (StrictTotal.eq_of_not_lt _ _ hab hba)) h

theorem sorted_ofList (key : α → κ) (as : List α) : Sorted key (ofList key as) := by
  unfold ofList
  suffices h : ∀ l, Sorted key l → Sorted key (as.foldl (fun l a => insert key a l) l) by
    apply h []
    exact .nil
  induction as with
  | nil => exact fun _ h => h
  | cons a as ih =>
    intro l hl
    exact ih _ (sorted_insert hl)

theorem mem_map_ofList {as : List α} {k : κ} : k ∈ (ofList key as).map key ↔ k ∈ as.map key := by
  unfold ofList
  suffices h : ∀ l, k ∈ (as.foldl (fun l a => insert key a l) l).map key ↔
      k ∈ l.map key ∨ k ∈ as.map key by
    simpa using h []
  induction as with
  | nil => simp
  | cons a as ih =>
    intro l
    rw [List.foldl_cons, ih, mem_map_insert, List.map_cons, List.mem_cons, or_comm (a := k = key a),
      or_assoc]

theorem mem_ofList_id {ks : List κ} {k : κ} : k ∈ ofList id ks ↔ k ∈ ks := by
  have hmap : k ∈ (ofList id ks).map id ↔ k ∈ ks.map id := mem_map_ofList
  rwa [List.map_id, List.map_id] at hmap

theorem ofList_perm {as : List α} (h : (as.map key).Nodup) : (ofList key as).Perm as := by
  unfold ofList
  suffices hall : ∀ l, ((l ++ as).map key).Nodup →
      (as.foldl (fun l a => insert key a l) l).Perm (l ++ as) by
    exact hall [] h
  clear h
  induction as with
  | nil =>
    intro l _
    rw [List.append_nil]
    exact .refl _
  | cons a as ih =>
    intro l h
    have hmiddle : (l ++ a :: as).Perm (a :: l ++ as) := List.perm_middle
    have hnodup := ((hmiddle.map key).nodup_iff).mp h
    have hnew : key a ∉ l.map key := by
      rw [List.cons_append, List.map_cons, List.nodup_cons] at hnodup
      intro hmem
      apply hnodup.1
      rw [List.map_append]
      exact List.mem_append_left _ hmem
    have hinsert : (insert key a l ++ as).Perm (a :: l ++ as) := (insert_perm hnew).append_right as
    apply (ih (insert key a l) _).trans
    . exact hinsert.trans hmiddle.symm
    . exact ((hinsert.map key).nodup_iff).mpr hnodup

section lookup

variable {β : Type} [BEq κ] [LawfulBEq κ]

/--
Entries of an ordered association list: the new one takes the place of the one with its key, and no
other one is touched.
-/
theorem lookup_insert (k k' : κ) (b : β) (entries : List (κ × β)) :
    (insert Prod.fst (k, b) entries).lookup k' =
      if k' == k then some b else entries.lookup k' := by
  induction entries with
  | nil =>
    rw [insert, List.lookup_cons]
    cases k' == k <;> rfl
  | cons entry entries ih =>
    unfold insert
    split
    . rw [List.lookup_cons]
      cases k' == k <;> rfl
    . split
      . next hlt =>
        rw [List.lookup_cons, List.lookup_cons, ih]
        -- an entry that comes before the new one has another key
        have hne : entry.1 ≠ k := by
          rintro rfl
          exact StrictTotal.irrefl _ hlt
        by_cases hentry : k' = entry.1
        . rw [hentry, beq_eq_false_iff_ne.mpr hne]
          rfl
        . rw [beq_eq_false_iff_ne.mpr hentry]
      . next hnot hnot' =>
        obtain rfl : k = entry.1 := StrictTotal.eq_of_not_lt _ _ hnot hnot'
        rw [List.lookup_cons, List.lookup_cons]
        cases k' == entry.1 <;> rfl

omit [DecidableLT κ] in
/--
Entries in order are told by what is found under their keys.
-/
theorem Sorted.eq_of_lookup_eq {entries entries' : List (κ × β)} (h : Sorted Prod.fst entries)
    (h' : Sorted Prod.fst entries') (hlookup : ∀ k, entries.lookup k = entries'.lookup k) :
    entries = entries' := by
  apply h.eq_of_perm h'
  rw [List.perm_ext_iff_of_nodup (nodup_of_nodup_map h.nodup) (nodup_of_nodup_map h'.nodup)]
  intro (k, b)
  rw [← lookup_eq_some_iff_mem h.nodup, ← lookup_eq_some_iff_mem h'.nodup, hlookup]

end lookup

end Ordered

end TileTraffic
