import TileTraffic.Proofs.Channel.Slots
import TileTraffic.Proofs.Graph

/-!
Sound pools: the channels that are open are distinct, sit where the level says, are numbered below
the number of channels of their tile, and take exactly the descriptors that are counted. Every way
to run an op on a channel is a `Step`, and a step keeps a pool sound.
-/

namespace TileTraffic

/--
The tile may have channels that serve the level.
-/
def Target.Hosts (t : Target) (level : Level) (tile : Coord) : Prop :=
  match level with
  | .tileLocal => t.roleOfRow tile.row = .compute
  | .shared => t.roleOfRow tile.row = .shared
  | .external => tile.row = 0 ∧ tile.col ∈ t.interfaceColumns

namespace Graph

variable {g : Graph}

theorem eq_of_ref_eq {o occ : Occurrence} (ho : o ∈ g.occurrences) (hocc : occ ∈ g.occurrences)
    (h : o.ref = occ.ref) : o = occ := by
  obtain ⟨⟨op, ref⟩, hmem, rfl⟩ := List.mem_map.mp ho
  obtain ⟨⟨op', ref'⟩, hmem', rfl⟩ := List.mem_map.mp hocc
  rw [List.mk_mem_zipIdx_iff_getElem?] at hmem hmem'
  dsimp only at h
  subst h
  rw [hmem] at hmem'
  obtain rfl := Option.some.inj hmem'
  rfl

end Graph

/--
An op may run on a channel of a level.
-/
structure Fits (g : Graph) (t : Target) (level : Level) (occ : Occurrence) (key : ChannelKey) :
    Prop where
  mem : occ ∈ g.occurrences
  side : occ.op.directionAt level = .ok key.direction
  id_lt : key.id < t.channelsOfRow key.tile.row
  hosts : t.Hosts level key.tile

namespace Allocation

/--
The channel has ops, lists them and their ids alike, and each of them may run on it.
-/
structure Sound (g : Graph) (t : Target) (level : Level) (a : Allocation) : Prop where
  level_eq : a.level = level
  ops_ne : a.ops ≠ []
  opIds_eq : a.opIds = a.ops.map fun o => o.op.id
  fits : ∀ o ∈ a.ops, Fits g t level o a.key

theorem Sound.key_fits {g : Graph} {t : Target} {level : Level} {a : Allocation}
    (h : a.Sound g t level) :
    a.key.id < t.channelsOfRow a.key.tile.row ∧ t.Hosts level a.key.tile := by
  obtain ⟨o, os, hos⟩ := List.exists_cons_of_ne_nil h.ops_ne
  have hfits := h.fits o (by simp [hos])
  exact ⟨hfits.id_lt, hfits.hosts⟩

/--
Number of ops on the channels whose keys satisfy `q`.
-/
def load (q : ChannelKey → Bool) (as : List Allocation) : Nat :=
  ((as.filter fun a => q a.key).flatMap Allocation.ops).length

variable {q : ChannelKey → Bool}

theorem load_cons (a : Allocation) (as : List Allocation) :
    load q (a :: as) = (if q a.key then a.ops.length else 0) + load q as := by
  unfold load
  rw [List.filter_cons]
  split <;> simp

theorem load_append (as bs : List Allocation) : load q (as ++ bs) = load q as + load q bs := by
  unfold load
  simp

theorem load_le (as : List Allocation) : load q as ≤ load (fun _ => true) as := by
  induction as with
  | nil => simp [load]
  | cons a as ih =>
    rw [load_cons, load_cons]
    split <;> simp <;> omega

/--
Running one more op on the channel with a key, where it is in the list.
-/
def addAt (key : ChannelKey) (occ : Occurrence) (a : Allocation) : Allocation :=
  if a.key = key then a.add occ else a

@[simp]
theorem key_addAt (key : ChannelKey) (occ : Occurrence) (a : Allocation) :
    (a.addAt key occ).key = a.key := by
  unfold addAt
  split <;> rfl

theorem map_key_addAt (key : ChannelKey) (occ : Occurrence) (as : List Allocation) :
    (as.map (addAt key occ)).map Allocation.key = as.map Allocation.key := by
  simp

theorem map_addAt_of_not_mem {key : ChannelKey} {occ : Occurrence} {as : List Allocation}
    (h : key ∉ as.map Allocation.key) : as.map (addAt key occ) = as := by
  have hid : as.map (addAt key occ) = as.map id := by
    apply List.map_congr_left
    intro a ha
    unfold addAt
    rw [if_neg]
    . rfl
    . intro hkey
      apply h
      rw [← hkey]
      exact List.mem_map_of_mem ha
  rw [hid, List.map_id]

theorem load_map_addAt {key : ChannelKey} {occ : Occurrence} {as : List Allocation}
    (hnodup : (as.map Allocation.key).Nodup) (hmem : key ∈ as.map Allocation.key) :
    load q (as.map (addAt key occ)) = load q as + if q key then 1 else 0 := by
  induction as with
  | nil => simp at hmem
  | cons a as ih =>
    rw [List.map_cons, List.nodup_cons] at hnodup
    rw [List.map_cons, load_cons, load_cons, key_addAt]
    by_cases hkey : a.key = key
    . subst hkey
      rw [map_addAt_of_not_mem hnodup.1]
      unfold addAt
      rw [if_pos rfl]
      split <;> simp [Allocation.add] <;> omega
    . have hmem : key ∈ as.map Allocation.key := by
        rcases List.mem_cons.mp hmem with heq | hmem
        . exact absurd heq.symm hkey
        . exact hmem
      have hsame : a.addAt key occ = a := by
        unfold addAt
        rw [if_neg hkey]
      rw [ih hnodup.2 hmem, hsame]
      omega

end Allocation

namespace InterfaceSlots

variable {t : Target} {s : InterfaceSlots}

theorem peek_yields (h : s.Sound t) (d : Direction) :
    Yields (s.peek t d) fun slot =>
      slot.2 < t.channelsOfRow slot.1.row ∧ t.Hosts .external slot.1 := by
  cases hpeek : s.peek t d with
  | ok slot =>
    have hnext := next_of_peek hpeek
    have htile := hnext.tile_mem (h d)
    refine ⟨?_, htile⟩
    unfold Target.channelsOfRow
    rw [htile.1]
    exact hnext.id_lt (h d)
  | error e =>
    obtain rfl := error_of_peek hpeek
    rfl

end InterfaceSlots

namespace ChannelPool

variable {g : Graph} {t : Target} {p p' p'' : ChannelPool}

/--
The keys of the open channels.
-/
def keys (p : ChannelPool) : List ChannelKey :=
  p.opened.map Allocation.key

/--
The channel is open and lists the op id.
-/
def Serves (p : ChannelPool) (key : ChannelKey) (id : Nat) : Prop :=
  ∃ a ∈ p.opened, a.key = key ∧ id ∈ a.opIds

/--
Number of ops on all channels.
-/
def total (p : ChannelPool) : Nat :=
  Allocation.load (fun _ => true) p.opened

structure Sound (g : Graph) (t : Target) (p : ChannelPool) : Prop where
  slots_sound : p.slots.Sound t
  keys_nodup : p.keys.Nodup
  allocation : ∀ a ∈ p.opened, a.Sound g t p.level
  used_eq : ∀ c, p.used c = Allocation.load (fun key => key.tile = c) p.opened
  used_le : ∀ c, p.used c ≤ (t.budgetAt c).descriptors

theorem sound_empty (level : Level) : (empty level).Sound g t where
  slots_sound := InterfaceSlots.sound_fresh
  keys_nodup := by simp [empty, keys]
  allocation := by simp [empty]
  used_eq := by simp [empty, used, Allocation.load]
  used_le := by simp [empty, used]

theorem Sound.hosts (h : p.Sound g t) {key : ChannelKey} (hkey : key ∈ p.keys) :
    t.Hosts p.level key.tile := by
  obtain ⟨a, ha, rfl⟩ := List.mem_map.mp hkey
  exact ((h.allocation a ha).key_fits).2

theorem Sound.used_le_total (h : p.Sound g t) (c : Coord) : p.used c ≤ p.total := by
  rw [h.used_eq]
  apply Allocation.load_le

/--
The channels of `p` are still open in `p'`, facing the same way and with the ops that they had.
Those that were not open before satisfy `new`.
-/
structure Grows (p p' : ChannelPool) (new : ChannelKey → Prop) : Prop where
  level : p'.level = p.level
  kept : ∀ a ∈ p.opened,
    ∃ a' ∈ p'.opened, a'.key = a.key ∧ a'.partner = a.partner ∧ a.opIds ⊆ a'.opIds
  introduced : ∀ key ∈ p'.keys, key ∈ p.keys ∨ new key

namespace Grows

variable {new new' : ChannelKey → Prop}

theorem refl : p.Grows p new where
  level := rfl
  kept := fun a ha => ⟨a, ha, rfl, rfl, fun _ h => h⟩
  introduced := fun _ h => .inl h

theorem trans (h : p.Grows p' new) (h' : p'.Grows p'' new) : p.Grows p'' new where
  level := h'.level.trans h.level
  kept := by
    intro a ha
    obtain ⟨b, hb, hkey, hpartner, hids⟩ := h.kept a ha
    obtain ⟨c, hc, hkey', hpartner', hids'⟩ := h'.kept b hb
    exact ⟨c, hc, hkey'.trans hkey, hpartner'.trans hpartner, fun _ hid => hids' (hids hid)⟩
  introduced := by
    intro key hkey
    rcases h'.introduced key hkey with hkey | hnew
    . exact h.introduced key hkey
    . exact .inr hnew

theorem mono (h : p.Grows p' new) (hnew : ∀ key, new key → new' key) : p.Grows p' new' where
  level := h.level
  kept := h.kept
  introduced := by
    intro key hkey
    rcases h.introduced key hkey with hkey | hkey
    . exact .inl hkey
    . exact .inr (hnew key hkey)

theorem serves (h : p.Grows p' new) {key : ChannelKey} {id : Nat} (hs : p.Serves key id) :
    p'.Serves key id := by
  obtain ⟨a, ha, hkey, hid⟩ := hs
  obtain ⟨a', ha', hkey', _, hids⟩ := h.kept a ha
  exact ⟨a', ha', hkey'.trans hkey, hids hid⟩

theorem keys_subset (h : p.Grows p' new) : p.keys ⊆ p'.keys := by
  intro key hkey
  obtain ⟨a, ha, rfl⟩ := List.mem_map.mp hkey
  obtain ⟨a', ha', hkey', _⟩ := h.kept a ha
  rw [← hkey']
  exact List.mem_map_of_mem ha'

end Grows

theorem Serves.mem_keys {key : ChannelKey} {id : Nat} (h : p.Serves key id) : key ∈ p.keys := by
  obtain ⟨a, ha, rfl, _⟩ := h
  exact List.mem_map_of_mem ha

/-! ### Looking up channels -/

theorem mem_of_get?_eq_some {key : ChannelKey} {a : Allocation} (h : p.get? key = some a) :
    a ∈ p.opened ∧ a.key = key := by
  unfold get? at h
  constructor
  . exact List.mem_of_find?_eq_some h
  . simpa using List.find?_some h

theorem get?_isSome_iff {key : ChannelKey} : (p.get? key).isSome ↔ key ∈ p.keys := by
  unfold get? keys
  rw [List.find?_isSome]
  simp

theorem serving?_eq_some {tile : Coord} {d : Direction} {id : Nat} {a : Allocation}
    (h : p.serving? tile d id = some a) :
    a ∈ p.opened ∧ a.key.tile = tile ∧ a.key.direction = d ∧ id ∈ a.opIds := by
  unfold serving? onTile at h
  have hmem := List.mem_of_find?_eq_some h
  have hid := List.find?_some h
  rw [List.mem_filter] at hmem
  obtain ⟨hopened, hplace⟩ := hmem
  obtain ⟨htile, hd⟩ : a.key.tile = tile ∧ a.key.direction = d := by simpa using hplace
  exact ⟨hopened, htile, hd, by simpa using hid⟩

/-! ### Entering a channel -/

section enter

variable {occ : Occurrence} {key : ChannelKey} {partner : Option Coord}

theorem opened_enter_of_mem (h : key ∈ p.keys) :
    (p.enter occ key partner).opened = p.opened.map (Allocation.addAt key occ) := by
  rw [← get?_isSome_iff] at h
  unfold enter
  simp only [h, ↓reduceIte]
  rfl

theorem opened_enter_of_not_mem (h : key ∉ p.keys) :
    (p.enter occ key partner).opened =
      p.opened ++ [⟨key, p.level, partner, [occ.op.id], [occ]⟩] := by
  rw [← get?_isSome_iff] at h
  unfold enter
  simp only [h, Bool.false_eq_true, ↓reduceIte]

theorem getD_lookup_takeDescriptor (tile c : Coord) (taken : List (Coord × Nat)) :
    ((takeDescriptor tile taken).lookup c).getD 0 =
      (taken.lookup c).getD 0 + if tile = c then 1 else 0 := by
  induction taken with
  | nil =>
    unfold takeDescriptor
    rw [getD_lookup_cons]
    simp
  | cons entry taken ih =>
    obtain ⟨c', n⟩ := entry
    unfold takeDescriptor
    by_cases htile : c' = tile
    . subst htile
      rw [if_pos rfl, getD_lookup_cons, getD_lookup_cons]
      split <;> rfl
    . rw [if_neg htile, getD_lookup_cons, getD_lookup_cons, ih]
      split
      . next h =>
        subst h
        rw [if_neg (Ne.symm htile)]
        rfl
      . rfl

theorem used_enter (c : Coord) :
    (p.enter occ key partner).used c = p.used c + if key.tile = c then 1 else 0 := by
  apply getD_lookup_takeDescriptor

theorem load_enter {q : ChannelKey → Bool} (h : p.keys.Nodup) :
    Allocation.load q (p.enter occ key partner).opened =
      Allocation.load q p.opened + if q key then 1 else 0 := by
  by_cases hmem : key ∈ p.keys
  . rw [opened_enter_of_mem hmem]
    exact Allocation.load_map_addAt h hmem
  . rw [opened_enter_of_not_mem hmem, Allocation.load_append, Allocation.load_cons]
    simp [Allocation.load]

theorem keys_enter :
    (p.enter occ key partner).keys = if key ∈ p.keys then p.keys else p.keys ++ [key] := by
  split
  . next h =>
    unfold keys
    rw [opened_enter_of_mem h, Allocation.map_key_addAt]
  . next h =>
    unfold keys
    rw [opened_enter_of_not_mem h, List.map_append]
    rfl

theorem grows_enter : p.Grows (p.enter occ key partner) (· = key) where
  level := rfl
  kept := by
    intro a ha
    by_cases hmem : key ∈ p.keys
    . rw [opened_enter_of_mem hmem]
      refine ⟨a.addAt key occ, List.mem_map_of_mem ha, Allocation.key_addAt .., ?_⟩
      unfold Allocation.addAt
      split
      . exact ⟨rfl, by simp [Allocation.add]⟩
      . exact ⟨rfl, fun _ h => h⟩
    . rw [opened_enter_of_not_mem hmem]
      exact ⟨a, by simp [ha], rfl, rfl, fun _ h => h⟩
  introduced := by
    intro k hk
    rw [keys_enter] at hk
    split at hk
    . exact .inl hk
    . simpa using hk

theorem serves_enter : (p.enter occ key partner).Serves key occ.op.id := by
  by_cases hmem : key ∈ p.keys
  . obtain ⟨a, ha, hkey⟩ := List.mem_map.mp hmem
    refine ⟨a.addAt key occ, ?_, by simp [hkey], ?_⟩
    . rw [opened_enter_of_mem hmem]
      exact List.mem_map_of_mem ha
    . unfold Allocation.addAt
      rw [if_pos hkey]
      simp [Allocation.add]
  . refine ⟨⟨key, p.level, partner, [occ.op.id], [occ]⟩, ?_, rfl, by simp⟩
    rw [opened_enter_of_not_mem hmem]
    simp

theorem allocation_enter (h : p.Sound g t) (hfits : Fits g t p.level occ key) {a : Allocation}
    (ha : a ∈ (p.enter occ key partner).opened) : a.Sound g t p.level := by
  by_cases hmem : key ∈ p.keys
  . rw [opened_enter_of_mem hmem] at ha
    obtain ⟨b, hb, rfl⟩ := List.mem_map.mp ha
    have hsound := h.allocation b hb
    unfold Allocation.addAt
    split
    . next hkey =>
      constructor
      . exact hsound.level_eq
      . simp [Allocation.add]
      . simp [Allocation.add, hsound.opIds_eq]
      . intro o ho
        rcases List.mem_append.mp ho with ho | ho
        . exact hsound.fits o ho
        . obtain rfl : o = occ := by simpa using ho
          show Fits g t p.level o b.key
          rw [hkey]
          exact hfits
    . exact hsound
  . rw [opened_enter_of_not_mem hmem] at ha
    rcases List.mem_append.mp ha with ha | ha
    . exact h.allocation a ha
    . obtain rfl := List.mem_singleton.mp ha
      constructor
      . rfl
      . simp
      . simp
      . intro o ho
        obtain rfl := List.mem_singleton.mp ho
        exact hfits

theorem sound_enter (h : p.Sound g t) (hfits : Fits g t p.level occ key)
    (hroom : p.hasRoom t key.tile = true) : (p.enter occ key partner).Sound g t where
  slots_sound := h.slots_sound
  keys_nodup := by
    rw [keys_enter]
    split
    . exact h.keys_nodup
    . next hmem =>
      rw [List.nodup_append]
      refine ⟨h.keys_nodup, by simp, ?_⟩
      intro a ha b hb heq
      obtain rfl := List.mem_singleton.mp hb
      exact hmem (heq ▸ ha)
  allocation := fun _ ha => allocation_enter h hfits ha
  used_eq := by
    intro c
    rw [used_enter, load_enter h.keys_nodup, h.used_eq c]
    simp
  used_le := by
    intro c
    have hle := h.used_le c
    rw [used_enter]
    split
    . next htile =>
      subst htile
      simp only [hasRoom, decide_eq_true_eq] at hroom
      omega
    . omega

end enter

end ChannelPool

end TileTraffic
