/-!
Association lists with a value for keys that are missing, and lists whose elements are told apart by
a function.
-/

namespace TileTraffic

section lookup

variable {α β : Type} [DecidableEq α]

theorem getD_lookup_cons (a a' : α) (b default : β) (entries : List (α × β)) :
    (((a', b) :: entries).lookup a).getD default =
      if a' = a then b else (entries.lookup a).getD default := by
  by_cases h : a = a'
  . subst h
    simp
  . have hne : (a == a') = false := by simp [h]
    rw [List.lookup_cons, hne, if_neg (Ne.symm h)]

end lookup

theorem lookup_of_mem {κ β : Type} [BEq κ] [LawfulBEq κ] {entries : List (κ × β)}
    (h : (entries.map Prod.fst).Nodup) {k : κ} {b : β} (hmem : (k, b) ∈ entries) :
    entries.lookup k = some b := by
  induction entries with
  | nil => cases hmem
  | cons entry entries ih =>
    rw [List.map_cons, List.nodup_cons] at h
    obtain rfl | hmem := List.mem_cons.mp hmem
    . rw [List.lookup_cons_self]
    . have hne : (k == entry.1) = false := by
        rw [beq_eq_false_iff_ne]
        rintro rfl
        exact h.1 (List.mem_map.mpr ⟨_, hmem, rfl⟩)
      rw [List.lookup_cons, hne]
      exact ih h.2 hmem

theorem lookup_eq_some_iff_mem {κ β : Type} [BEq κ] [LawfulBEq κ] {entries : List (κ × β)}
    (h : (entries.map Prod.fst).Nodup) {k : κ} {b : β} :
    entries.lookup k = some b ↔ (k, b) ∈ entries := by
  refine ⟨fun hlookup => ?_, lookup_of_mem h⟩
  obtain ⟨before, after, heq, _⟩ := List.lookup_eq_some_iff.mp hlookup
  rw [heq]
  simp

theorem eq_of_nodup_map {α β : Type} {f : α → β} {as : List α} (h : (as.map f).Nodup) {a b : α}
    (ha : a ∈ as) (hb : b ∈ as) (hf : f a = f b) : a = b := by
  induction as with
  | nil => simp at ha
  | cons c as ih =>
    rw [List.map_cons, List.nodup_cons] at h
    rcases List.mem_cons.mp ha with rfl | ha'
    . rcases List.mem_cons.mp hb with rfl | hb'
      . rfl
      . apply absurd _ h.1
        rw [hf]
        exact List.mem_map_of_mem hb'
    . rcases List.mem_cons.mp hb with rfl | hb'
      . apply absurd _ h.1
        rw [← hf]
        exact List.mem_map_of_mem ha'
      . exact ih h.2 ha' hb'

theorem nodup_of_nodup_map {α β : Type} {f : α → β} {as : List α} (h : (as.map f).Nodup) :
    as.Nodup :=
  List.Pairwise.of_map f (fun _ _ hne heq => hne (congrArg f heq)) h

theorem nodup_map_of_imp {α β γ : Type} {f : α → β} {g : α → γ} {as : List α}
    (h : (as.map f).Nodup) (himp : ∀ a ∈ as, ∀ b ∈ as, g a = g b → f a = f b) :
    (as.map g).Nodup := by
  unfold List.Nodup at *
  rw [List.pairwise_map] at *
  apply h.imp_of_mem
  intro a b ha hb hne heq
  exact hne (himp a ha b hb heq)

theorem nodup_push {α : Type} {as : List α} {a : α} (h : as.Nodup) (ha : a ∉ as) :
    (as ++ [a]).Nodup := by
  rw [List.nodup_append]
  refine ⟨h, by simp, ?_⟩
  intro b hb c hc heq
  rw [heq, List.mem_singleton.mp hc] at hb
  exact ha hb

theorem getElem?_push_eq_some_iff {α : Type} {as : List α} {a b : α} {n : Nat} :
    (as ++ [a])[n]? = some b ↔ as[n]? = some b ∨ n = as.length ∧ b = a := by
  rcases Nat.lt_trichotomy n as.length with hlt | rfl | hlt
  . rw [List.getElem?_append_left hlt]
    simp [Nat.ne_of_lt hlt]
  . simp [eq_comm]
  . rw [List.getElem?_append_right (by omega), List.getElem?_singleton, if_neg (by omega)]
    simp [Nat.ne_of_gt hlt, Nat.le_of_lt hlt]

theorem eq_of_nodup_flatMap {α β : Type} {f : α → List β} {as : List α}
    (h : (as.flatMap f).Nodup) {a b : α} (ha : a ∈ as) (hb : b ∈ as) {x : β} (hxa : x ∈ f a)
    (hxb : x ∈ f b) : a = b := by
  induction as with
  | nil => simp at ha
  | cons c as ih =>
    rw [List.flatMap_cons, List.nodup_append] at h
    obtain ⟨_, hrest, hapart⟩ := h
    rcases List.mem_cons.mp ha with rfl | ha'
    . rcases List.mem_cons.mp hb with rfl | hb'
      . rfl
      . exact absurd rfl (hapart x hxa x (List.mem_flatMap.mpr ⟨b, hb', hxb⟩))
    . rcases List.mem_cons.mp hb with rfl | hb'
      . exact absurd rfl (hapart x hxb x (List.mem_flatMap.mpr ⟨a, ha', hxa⟩))
      . exact ih hrest ha' hb'

theorem getElem?_inj_of_count {α : Type} [DecidableEq α] {as : List α} {a : α}
    (h : as.count a = 1) {i j : Nat} (hi : as[i]? = some a) (hj : as[j]? = some a) : i = j := by
  induction as generalizing i j with
  | nil => simp at hi
  | cons b as ih =>
    by_cases hb : b = a
    . subst hb
      rw [List.count_cons_self] at h
      have hnot : b ∉ as := List.count_eq_zero.mp (by omega)
      have hzero : ∀ {n : Nat}, (b :: as)[n]? = some b → n = 0 := by
        intro n hn
        cases n with
        | zero => rfl
        | succ n =>
          rw [List.getElem?_cons_succ] at hn
          exact absurd (List.mem_of_getElem? hn) hnot
      rw [hzero hi, hzero hj]
    . rw [List.count_cons_of_ne hb] at h
      cases i with
      | zero => exact absurd (Option.some.inj hi) hb
      | succ i =>
        cases j with
        | zero => exact absurd (Option.some.inj hj) hb
        | succ j => rw [ih h hi hj]

theorem rel_of_pairwise {α : Type} {R : α → α → Prop} {as : List α} (h : as.Pairwise R)
    (hsymm : ∀ {a b}, R a b → R b a) {a b : α} (ha : a ∈ as) (hb : b ∈ as) (hne : a ≠ b) :
    R a b := by
  induction h with
  | nil => cases ha
  | cons hhead _ ih =>
    rcases List.mem_cons.mp ha with rfl | ha'
    . rcases List.mem_cons.mp hb with rfl | hb'
      . exact absurd rfl hne
      . exact hhead b hb'
    . rcases List.mem_cons.mp hb with rfl | hb'
      . exact hsymm (hhead a ha')
      . exact ih ha' hb'

theorem flatMap_sublist {α β : Type} (f : α → List β) {as as' : List α} (h : as.Sublist as') :
    (as.flatMap f).Sublist (as'.flatMap f) := by
  induction h with
  | slnil => exact .refl _
  | cons a _ ih =>
    rw [List.flatMap_cons]
    exact ih.trans (List.sublist_append_right ..)
  | cons_cons a _ ih =>
    rw [List.flatMap_cons, List.flatMap_cons]
    exact ih.append_left _

/--
Places of a grid that are told apart by their two coordinates.
-/
theorem nodup_grid {α : Type} {f : Nat → Nat → α} {cols rows : Nat}
    (h : ∀ x y x' y', f x y = f x' y' → x = x' ∧ y = y') :
    ((List.range rows).flatMap fun y => (List.range cols).map fun x => f x y).Nodup := by
  unfold List.Nodup
  rw [List.pairwise_flatMap]
  constructor
  . intro y _
    rw [List.pairwise_map]
    apply List.nodup_range.imp
    intro x x' hne heq
    exact hne (h _ _ _ _ heq).1
  . apply List.nodup_range.imp
    intro y y' hne a ha a' ha' heq
    obtain ⟨x, _, rfl⟩ := List.mem_map.mp ha
    obtain ⟨x', _, rfl⟩ := List.mem_map.mp ha'
    exact hne (h _ _ _ _ heq).2

/--
Elements that are told apart within each group are told apart together with their groups.
-/
theorem nodup_map_of_filter {α β κ : Type} [DecidableEq κ] {f : α → β} {key : α → κ} {as : List α}
    (h : ∀ k, ((as.filter fun a => key a = k).map f).Nodup) :
    (as.map fun a => (key a, f a)).Nodup := by
  induction as with
  | nil => simp
  | cons a as ih =>
    rw [List.map_cons, List.nodup_cons]
    constructor
    . intro hmem
      obtain ⟨b, hb, heq⟩ := List.mem_map.mp hmem
      obtain ⟨hkey, hf⟩ := Prod.mk.inj heq
      have hgroup := h (key a)
      rw [List.filter_cons_of_pos (by simp), List.map_cons, List.nodup_cons, ← hf] at hgroup
      apply hgroup.1
      apply List.mem_map_of_mem
      rw [List.mem_filter]
      exact ⟨hb, by simpa using hkey⟩
    . apply ih
      intro k
      have hgroup := h k
      rw [List.filter_cons] at hgroup
      split at hgroup
      . exact (List.nodup_cons.mp hgroup).2
      . exact hgroup

/--
The second components of a zip are those of its second list, as far as the first one goes.
-/
theorem prefix_map_snd_zip {α β : Type} (as : List α) (bs : List β) :
    (as.zip bs).map Prod.snd <+: bs := by
  induction as generalizing bs with
  | nil => exact List.nil_prefix
  | cons a as ih =>
    cases bs with
    | nil => exact List.nil_prefix
    | cons b bs => exact (List.prefix_cons_inj b).mpr (ih bs)

theorem nodup_eraseDups {α : Type} [DecidableEq α] (as : List α) : as.eraseDups.Nodup := by
  cases as with
  | nil => simp
  | cons a as =>
    rw [List.eraseDups_cons, List.nodup_cons]
    constructor
    . rw [List.mem_eraseDups, List.mem_filter]
      simp
    . exact nodup_eraseDups _
termination_by as.length
decreasing_by
  have := List.length_filter_le (fun b => !b == a) as
  simp only [List.length_cons]
  omega

theorem eraseDups_push {α : Type} [DecidableEq α] (as : List α) (a : α) :
    (as ++ [a]).eraseDups = if a ∈ as then as.eraseDups else as.eraseDups ++ [a] := by
  rw [List.eraseDups_append, List.removeAll]
  by_cases h : a ∈ as
  . simp [h]
  . simp [h, List.eraseDups_cons]

/--
What is in one of two lists of the same length is in one of their pairs.
-/
theorem mem_zip_or {α : Type} {as bs : List α} {x : α} (hlength : as.length = bs.length)
    (hx : x ∈ as ++ bs) : ∃ y ∈ as.zip bs, y.1 = x ∨ y.2 = x := by
  rcases List.mem_append.mp hx with hx | hx
  . have hfst : (as.zip bs).map Prod.fst = as := List.map_fst_zip (Nat.le_of_eq hlength)
    rw [← hfst] at hx
    obtain ⟨y, hy, rfl⟩ := List.mem_map.mp hx
    exact ⟨y, hy, .inl rfl⟩
  . have hsnd : (as.zip bs).map Prod.snd = bs := List.map_snd_zip (Nat.le_of_eq hlength.symm)
    rw [← hsnd] at hx
    obtain ⟨y, hy, rfl⟩ := List.mem_map.mp hx
    exact ⟨y, hy, .inr rfl⟩

theorem filterMap_eq_map_of_some {α β : Type} {f : α → Option β} {g : α → β} {as : List α}
    (h : ∀ a ∈ as, f a = some (g a)) : as.filterMap f = as.map g := by
  induction as with
  | nil => rfl
  | cons a as ih =>
    rw [List.filterMap_cons_some (h a List.mem_cons_self), List.map_cons,
      ih fun b hb => h b (List.mem_cons_of_mem a hb)]

theorem findSome?_filter {α β : Type} (p : α → Bool) (f : α → Option β) (as : List α) :
    (as.filter p).findSome? f = as.findSome? fun a => if p a then f a else none := by
  rw [← List.head?_filterMap, List.filterMap_filter, List.head?_filterMap]

theorem find?_eq_self {α : Type} [DecidableEq α] {as : List α} {a : α} (h : a ∈ as) :
    as.find? (fun b => b = a) = some a := by
  cases hfind : as.find? fun b => b = a with
  | none =>
    have hnone := List.find?_eq_none.mp hfind a h
    simp at hnone
  | some b =>
    have hb := List.find?_some hfind
    rw [decide_eq_true_eq] at hb
    rw [hb]

/--
The last occurrence of an element splits a list in one way.
-/
theorem eq_of_append_cons_eq {α : Type} {c : α} {s s' t t' : List α} (ht : c ∉ t) (ht' : c ∉ t')
    (h : s ++ c :: t = s' ++ c :: t') : s = s' ∧ t = t' := by
  rcases List.append_eq_append_iff.mp h with ⟨as, hs, ht₁⟩ | ⟨as, hs, ht₁⟩
  . cases as with
    | nil => exact ⟨by simpa using hs.symm, by simpa using ht₁⟩
    | cons a as =>
      obtain ⟨_, rfl⟩ := List.cons.inj ht₁
      simp at ht
  . cases as with
    | nil => exact ⟨by simpa using hs, by simpa using ht₁.symm⟩
    | cons a as =>
      obtain ⟨_, rfl⟩ := List.cons.inj ht₁
      simp at ht'

end TileTraffic
