import TileTraffic.Channel.Slots
import TileTraffic.Proofs.Lists

/-!
Channels of the interface tiles: what comes next, and what has been handed out. The tiles that a
direction has opened are those of the first interface columns, each of them once, so that no channel
is handed out twice where the columns are different.
-/

namespace TileTraffic

namespace InterfaceSlots

variable {t : Target} {s : InterfaceSlots} {d : Direction} {key : ChannelKey} {tile : Coord}
  {id channels : Nat} {slots before after : List InterfaceSlot} {slot : InterfaceSlot}

/--
The channel that is next: one that the first open tile with any has left, or, if none has, the first
one of the next column.
-/
inductive Next (t : Target) (slots : List InterfaceSlot) : Coord → Nat → Prop where
  | left (before : List InterfaceSlot) (slot : InterfaceSlot) (after : List InterfaceSlot)
    (hslots : slots = before ++ slot :: after) (hspent : ∀ x ∈ before, x.available = 0)
    (hleft : 0 < slot.available) :
    Next t slots slot.tile (t.interface.channels - slot.available)
  | opens (col : Nat) (hspent : ∀ x ∈ slots, x.available = 0)
    (hcol : t.interfaceColumns[slots.length]? = some col) (hpos : 0 < t.interface.channels) :
    Next t slots ⟨col, 0⟩ 0

theorem next_of_peek (h : s.peek t d = .ok (tile, id)) : Next t (s.toward d) tile id := by
  unfold peek at h
  dsimp only at h
  split at h
  . next slot hfind =>
    obtain ⟨rfl, rfl⟩ := Prod.mk.inj (Except.ok.inj h)
    obtain ⟨hleft, before, after, hslots, hspent⟩ := List.find?_eq_some_iff_append.mp hfind
    refine .left before slot after hslots ?_ (of_decide_eq_true hleft)
    intro x hx
    simpa using hspent x hx
  . next hfind =>
    split at h
    . next col hcol =>
      split at h
      . next hpos =>
        obtain ⟨rfl, rfl⟩ := Prod.mk.inj (Except.ok.inj h)
        refine .opens col ?_ hcol hpos
        intro x hx
        simpa using List.find?_eq_none.mp hfind x hx
      . cases h
    . cases h

theorem peek_of_next (h : Next t (s.toward d) tile id) : s.peek t d = .ok (tile, id) := by
  unfold peek
  dsimp only
  cases h with
  | left before slot after hslots hspent hleft =>
    have hfind : (s.toward d).find? (fun slot => 0 < slot.available) = some slot := by
      rw [List.find?_eq_some_iff_append]
      refine ⟨by simpa using hleft, before, after, hslots, ?_⟩
      intro x hx
      simpa using hspent x hx
    rw [hfind]
  | opens col hspent hcol hpos =>
    have hfind : (s.toward d).find? (fun slot => 0 < slot.available) = none := by
      rw [List.find?_eq_none]
      intro x hx
      simpa using hspent x hx
    rw [hfind, hcol]
    exact if_pos hpos

theorem error_of_peek {e : CompileError} (h : s.peek t d = .error e) : e = peek.exhausted t d := by
  unfold peek at h
  dsimp only at h
  split at h
  . cases h
  . split at h
    . split at h
      . cases h
      . exact (Except.error.inj h).symm
    . exact (Except.error.inj h).symm

/-! ### Taking a channel -/

theorem toward_fresh (d : Direction) : fresh.toward d = [] := by
  cases d <;> rfl

theorem advance_of_error {e : CompileError} (h : s.peek t d = .error e) : s.advance t d = s := by
  unfold advance
  rw [h]

theorem toward_advance (h : s.peek t d = .ok (tile, id)) (d' : Direction) :
    (s.advance t d).toward d' =
      if d = d' then take t.interface.channels tile (s.toward d) else s.toward d' := by
  unfold advance
  rw [h]
  cases d <;> cases d' <;> rfl

theorem take_append_of_not_mem (h : tile ∉ before.map InterfaceSlot.tile) :
    take channels tile (before ++ after) = before ++ take channels tile after := by
  induction before with
  | nil => rfl
  | cons slot before ih =>
    rw [List.map_cons, List.mem_cons, not_or] at h
    rw [List.cons_append, take, if_neg (Ne.symm h.1), ih h.2]
    rfl

theorem map_tile_take :
    (take channels tile slots).map InterfaceSlot.tile =
      if tile ∈ slots.map InterfaceSlot.tile then slots.map InterfaceSlot.tile
      else slots.map InterfaceSlot.tile ++ [tile] := by
  induction slots with
  | nil => rfl
  | cons slot slots ih =>
    unfold take
    by_cases h : slot.tile = tile
    . simp [h]
    . rw [if_neg h, List.map_cons, ih, List.map_cons]
      by_cases hmem : tile ∈ slots.map InterfaceSlot.tile
      . rw [if_pos hmem, if_pos (List.mem_cons_of_mem _ hmem)]
      . rw [if_neg hmem, if_neg]
        . rfl
        . simp only [List.mem_cons, not_or]
          exact ⟨Ne.symm h, hmem⟩

/--
After a channel has been taken, the tiles have as many channels left as before or fewer. A tile that
has been opened has one less than there are.
-/
theorem le_of_mem_take (h : slot ∈ take channels tile slots) :
    (∃ old ∈ slots, old.tile = slot.tile ∧ slot.available ≤ old.available) ∨
      slot = ⟨tile, channels - 1⟩ := by
  induction slots with
  | nil => exact .inr (List.mem_singleton.mp h)
  | cons old slots ih =>
    unfold take at h
    split at h
    . rcases List.mem_cons.mp h with rfl | h
      . exact .inl ⟨old, by simp, rfl, Nat.sub_le ..⟩
      . exact .inl ⟨slot, by simp [h], rfl, Nat.le_refl _⟩
    . rcases List.mem_cons.mp h with rfl | h
      . exact .inl ⟨slot, by simp, rfl, Nat.le_refl _⟩
      . rcases ih h with ⟨old', hold, hle⟩ | hnew
        . exact .inl ⟨old', by simp [hold], hle⟩
        . exact .inr hnew

theorem exists_mem_take (h : slot ∈ slots) :
    ∃ new ∈ take channels tile slots, new.tile = slot.tile ∧ new.available ≤ slot.available := by
  induction slots with
  | nil => cases h
  | cons old slots ih =>
    unfold take
    split
    . rcases List.mem_cons.mp h with rfl | h
      . exact ⟨_, List.mem_cons_self, rfl, Nat.sub_le ..⟩
      . exact ⟨slot, List.mem_cons_of_mem _ h, rfl, Nat.le_refl _⟩
    . rcases List.mem_cons.mp h with rfl | h
      . exact ⟨slot, List.mem_cons_self, rfl, Nat.le_refl _⟩
      . obtain ⟨new, hnew, hle⟩ := ih h
        exact ⟨new, List.mem_cons_of_mem _ hnew, hle⟩

/-! ### The tiles that are open -/

/--
The tiles that are open are those of the first interface columns, each of them once, and every one of
them has handed out a channel.
-/
structure Opened (t : Target) (slots : List InterfaceSlot) : Prop where
  tiles_eq : slots.map InterfaceSlot.tile =
    (t.interfaceColumns.take slots.length).map fun col => ⟨col, 0⟩
  tiles_nodup : (slots.map InterfaceSlot.tile).Nodup
  available_lt : ∀ slot ∈ slots, slot.available < t.interface.channels

/--
Both directions have opened their tiles in order.
-/
def Sound (t : Target) (s : InterfaceSlots) : Prop :=
  ∀ d, Opened t (s.toward d)

theorem sound_fresh : fresh.Sound t := by
  intro d
  rw [toward_fresh]
  exact ⟨by simp, by simp, by simp⟩

theorem Opened.getElem?_tile (h : Opened t slots) {i : Nat} (hi : slots[i]? = some slot) :
    slot.tile.row = 0 ∧ t.interfaceColumns[i]? = some slot.tile.col := by
  have hlt := (List.getElem?_eq_some_iff.mp hi).1
  have htile : (slots.map InterfaceSlot.tile)[i]? = some slot.tile := by
    rw [List.getElem?_map, hi]
    rfl
  rw [h.tiles_eq, List.getElem?_map, List.getElem?_take_of_lt hlt, Option.map_eq_some_iff] at htile
  obtain ⟨col, hcol, heq⟩ := htile
  rw [← heq]
  exact ⟨rfl, hcol⟩

theorem Opened.tile_of_mem (h : Opened t slots) (hslot : slot ∈ slots) :
    slot.tile.row = 0 ∧ slot.tile.col ∈ t.interfaceColumns := by
  obtain ⟨i, hi⟩ := List.getElem?_of_mem hslot
  obtain ⟨hrow, hcol⟩ := h.getElem?_tile hi
  exact ⟨hrow, List.mem_of_getElem? hcol⟩

theorem Next.pos (h : Next t slots tile id) (hopened : Opened t slots) :
    0 < t.interface.channels := by
  cases h with
  | left before slot after hslots _ _ =>
    have hlt := hopened.available_lt slot (by simp [hslots])
    omega
  | opens _ _ _ hpos => exact hpos

theorem Next.id_lt (h : Next t slots tile id) (hopened : Opened t slots) :
    id < t.interface.channels := by
  have hpos := h.pos hopened
  cases h with
  | left => omega
  | opens => exact hpos

theorem Next.tile_mem (h : Next t slots tile id) (hopened : Opened t slots) :
    tile.row = 0 ∧ tile.col ∈ t.interfaceColumns := by
  cases h with
  | left before slot after hslots _ _ => exact hopened.tile_of_mem (by simp [hslots])
  | opens col _ hcol _ => exact ⟨rfl, List.mem_of_getElem? hcol⟩

theorem Opened.take (h : Opened t slots) (hnext : Next t slots tile id) :
    Opened t (take t.interface.channels tile slots) := by
  have hpos := hnext.pos h
  have hlength : (InterfaceSlots.take t.interface.channels tile slots).length =
      if tile ∈ slots.map InterfaceSlot.tile then slots.length else slots.length + 1 := by
    rw [← List.length_map (f := InterfaceSlot.tile), map_tile_take]
    split <;> simp
  refine ⟨?_, ?_, ?_⟩
  . rw [map_tile_take, hlength]
    split
    . exact h.tiles_eq
    . next hmem =>
      cases hnext with
      | left before slot after hslots _ _ => exact absurd (by simp [hslots]) hmem
      | opens col _ hcol _ => rw [List.take_add_one, hcol, h.tiles_eq, List.map_append]; rfl
  . rw [map_tile_take]
    split
    . exact h.tiles_nodup
    . next hmem => exact nodup_push h.tiles_nodup hmem
  . intro slot hslot
    rcases le_of_mem_take hslot with ⟨old, hold, _, hle⟩ | rfl
    . exact Nat.lt_of_le_of_lt hle (h.available_lt old hold)
    . exact Nat.sub_lt hpos Nat.one_pos

theorem Sound.advance (h : s.Sound t) (d : Direction) : (s.advance t d).Sound t := by
  cases hpeek : s.peek t d with
  | error e =>
    rw [advance_of_error hpeek]
    exact h
  | ok slot =>
    intro d'
    rw [toward_advance hpeek]
    split
    . exact (h d).take (next_of_peek hpeek)
    . exact h d'

/-! ### The channels that have been handed out -/

/--
The channel is one of those that its tile has handed out.
-/
def Taken (t : Target) (s : InterfaceSlots) (key : ChannelKey) : Prop :=
  ∃ slot ∈ s.toward key.direction, slot.tile = key.tile ∧
    key.id < t.interface.channels - slot.available

theorem Taken.advance (h : s.Taken t key) (d : Direction) : (s.advance t d).Taken t key := by
  obtain ⟨slot, hslot, htile, hid⟩ := h
  cases hpeek : s.peek t d with
  | error e =>
    rw [advance_of_error hpeek]
    exact ⟨slot, hslot, htile, hid⟩
  | ok next =>
    unfold Taken
    rw [toward_advance hpeek]
    split
    . next heq =>
      subst heq
      obtain ⟨new, hnew, hsame, hle⟩ := exists_mem_take hslot
      exact ⟨new, hnew, hsame.trans htile, by omega⟩
    . exact ⟨slot, hslot, htile, hid⟩

/--
The tile of the next channel is open afterwards, and has handed out that channel.
-/
theorem Next.exists_mem_take (h : Next t slots tile id) (hopened : Opened t slots) :
    ∃ new ∈ take t.interface.channels tile slots, new.tile = tile ∧
      id < t.interface.channels - new.available := by
  have hid := h.id_lt hopened
  cases h with
  | left before slot after hslots _ hleft =>
    have hnodup := hopened.tiles_nodup
    rw [hslots, List.map_append, List.map_cons, List.nodup_append] at hnodup
    have hnot : slot.tile ∉ before.map InterfaceSlot.tile := fun hmem =>
      hnodup.2.2 _ hmem _ List.mem_cons_self rfl
    rw [hslots, take_append_of_not_mem hnot, InterfaceSlots.take, if_pos rfl]
    refine ⟨_, List.mem_append_right _ List.mem_cons_self, rfl, ?_⟩
    have hlt := hopened.available_lt slot (by simp [hslots])
    dsimp only
    omega
  | opens col hspent hcol hpos =>
    by_cases hmem : (⟨col, 0⟩ : Coord) ∈ slots.map InterfaceSlot.tile
    . -- a column that is listed twice: its tile has no channels left
      obtain ⟨slot, hslot, htile⟩ := List.mem_map.mp hmem
      obtain ⟨new, hnew, hsame, hle⟩ := InterfaceSlots.exists_mem_take hslot
      rw [hspent slot hslot] at hle
      exact ⟨new, hnew, hsame.trans htile, by omega⟩
    . rw [← List.append_nil slots, take_append_of_not_mem hmem]
      exact ⟨_, List.mem_append_right _ List.mem_cons_self, rfl, by dsimp only; omega⟩

theorem taken_peek (hs : s.Sound t) (h : s.peek t key.direction = .ok (key.tile, key.id)) :
    (s.advance t key.direction).Taken t key := by
  unfold Taken
  rw [toward_advance h, if_pos rfl]
  exact (next_of_peek h).exists_mem_take (hs key.direction)

/--
In a column that is listed once, the next channel is not one of those that have been handed out.
-/
theorem not_taken_of_listed_once (hs : s.Sound t)
    (hcolumn : t.interfaceColumns.count key.tile.col = 1)
    (h : s.peek t key.direction = .ok (key.tile, key.id)) : ¬ s.Taken t key := by
  intro ⟨slot, hslot, htile, hid⟩
  have hopened := hs key.direction
  have hnext := next_of_peek h
  generalize htile' : key.tile = tile at hnext htile hcolumn
  generalize key.id = id at hnext hid
  cases hnext with
  | left before new after hslots _ hleft =>
    obtain rfl : slot = new :=
      eq_of_nodup_map hopened.tiles_nodup hslot (by simp [hslots]) htile
    omega
  | opens col _ hcol _ =>
    obtain ⟨i, hi⟩ := List.getElem?_of_mem hslot
    have hlt := (List.getElem?_eq_some_iff.mp hi).1
    have heq := (hopened.getElem?_tile hi).2
    rw [htile] at heq
    have := getElem?_inj_of_count hcolumn heq hcol
    omega

/--
Where the columns are different, the next channel is not one of those that have been handed out.
-/
theorem not_taken_of_peek (hs : s.Sound t) (hcolumns : t.interfaceColumns.Nodup)
    (h : s.peek t key.direction = .ok (key.tile, key.id)) : ¬ s.Taken t key := by
  have hmem := ((next_of_peek h).tile_mem (hs key.direction)).2
  exact not_taken_of_listed_once hs (hcolumns.count.trans (if_pos hmem)) h

end InterfaceSlots

end TileTraffic
