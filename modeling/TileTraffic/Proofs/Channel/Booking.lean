import TileTraffic.Proofs.Channel.Slots
import TileTraffic.Proofs.History

/-!
The order in which interface channels are handed out. Each direction goes through the interface
columns one by one and through the channels of each of them, whatever the other direction does in
between. Which channel is next depends on the number of calls alone, and once there is none left, it
stays that way.
-/

namespace TileTraffic

namespace InterfaceSlots

variable {t : Target} {s : InterfaceSlots} {d : Direction} {key : ChannelKey} {tile : Coord}
  {id n : Nat} {slots : List InterfaceSlot}

/--
The number of channels that a direction can get.
-/
def total (t : Target) : Nat :=
  t.interfaceColumns.length * t.interface.channels

/--
The tiles of the first `i` interface columns, without any channels left.
-/
def spent (t : Target) (i : Nat) : List InterfaceSlot :=
  (t.interfaceColumns.take i).map fun col => ⟨⟨col, 0⟩, 0⟩

/--
What a direction has opened when it has been handed out `n` channels: all tiles but the last one are
spent.
-/
inductive Filled (t : Target) : Nat → List InterfaceSlot → Prop where
  | whole (i : Nat) (hi : i ≤ t.interfaceColumns.length) :
    Filled t (i * t.interface.channels) (spent t i)
  | part (i j col : Nat) (hcol : t.interfaceColumns[i]? = some col) (hpos : 0 < j)
    (hlt : j < t.interface.channels) :
    Filled t (i * t.interface.channels + j)
      (spent t i ++ [⟨⟨col, 0⟩, t.interface.channels - j⟩])

theorem length_spent {i : Nat} (hi : i ≤ t.interfaceColumns.length) : (spent t i).length = i := by
  unfold spent
  rw [List.length_map, List.length_take, Nat.min_eq_left hi]

theorem available_of_mem_spent {i : Nat} {slot : InterfaceSlot} (h : slot ∈ spent t i) :
    slot.available = 0 := by
  obtain ⟨col, _, rfl⟩ := List.mem_map.mp h
  rfl

theorem spent_succ {i col : Nat} (hcol : t.interfaceColumns[i]? = some col) :
    spent t (i + 1) = spent t i ++ [⟨⟨col, 0⟩, 0⟩] := by
  unfold spent
  rw [List.take_add_one, hcol, List.map_append]
  rfl

/--
Where the columns are different, the next one has not been opened yet.
-/
theorem not_mem_spent (hcolumns : t.interfaceColumns.Nodup) {i col : Nat}
    (hcol : t.interfaceColumns[i]? = some col) :
    (⟨col, 0⟩ : Coord) ∉ (spent t i).map InterfaceSlot.tile := by
  intro hmem
  obtain ⟨slot, hslot, htile⟩ := List.mem_map.mp hmem
  obtain ⟨col', hcol', rfl⟩ := List.mem_map.mp hslot
  obtain ⟨rfl, _⟩ := Coord.mk.inj htile
  obtain ⟨k, hk⟩ := List.getElem?_of_mem hcol'
  have hlt := (List.getElem?_eq_some_iff.mp hk).1
  rw [List.length_take] at hlt
  rw [List.getElem?_take_of_lt (by omega)] at hk
  have heq := (List.getElem?_inj (by omega) hcolumns).mp (hk.trans hcol.symm)
  omega

theorem Filled.of_last {i j col : Nat} (hcol : t.interfaceColumns[i]? = some col) (hpos : 0 < j)
    (hle : j ≤ t.interface.channels) :
    Filled t (i * t.interface.channels + j)
      (spent t i ++ [⟨⟨col, 0⟩, t.interface.channels - j⟩]) := by
  rcases Nat.lt_or_eq_of_le hle with hlt | rfl
  . exact .part i j col hcol hpos hlt
  . rw [Nat.sub_self, ← spent_succ hcol, ← Nat.succ_mul]
    exact .whole (i + 1) (List.getElem?_eq_some_iff.mp hcol).1

theorem Filled.next (h : Filled t n slots) (hcolumns : t.interfaceColumns.Nodup)
    (hn : n < total t) :
    ∃ col, t.interfaceColumns[n / t.interface.channels]? = some col ∧
      Next t slots ⟨col, 0⟩ (n % t.interface.channels) ∧
      Filled t (n + 1) (take t.interface.channels ⟨col, 0⟩ slots) := by
  unfold total at hn
  cases h with
  | whole i hi =>
    -- the next column is opened
    have hlt : i < t.interfaceColumns.length := Nat.lt_of_mul_lt_mul_right hn
    have hchannels : 0 < t.interface.channels := by
      apply Nat.pos_of_ne_zero
      intro hzero
      simp [hzero] at hn
    have hcol := List.getElem?_eq_getElem hlt
    generalize t.interfaceColumns[i] = col at hcol
    rw [Nat.mul_div_cancel i hchannels, Nat.mul_mod_left]
    refine ⟨col, hcol, ?_, ?_⟩
    . apply Next.opens col _ _ hchannels
      . intro x hx
        exact available_of_mem_spent hx
      . rw [length_spent hi]
        exact hcol
    . rw [← List.append_nil (spent t i), take_append_of_not_mem (not_mem_spent hcolumns hcol)]
      exact .of_last hcol Nat.one_pos hchannels
  | part i j col hcol hpos hlt =>
    -- the last tile has a channel left
    have hchannels : 0 < t.interface.channels := by omega
    have hdiv : (i * t.interface.channels + j) / t.interface.channels = i := by
      rw [Nat.mul_comm, Nat.mul_add_div hchannels, Nat.div_eq_of_lt hlt, Nat.add_zero]
    have hmod : (i * t.interface.channels + j) % t.interface.channels = j := by
      rw [Nat.mul_comm, Nat.mul_add_mod, Nat.mod_eq_of_lt hlt]
    rw [hdiv, hmod]
    refine ⟨col, hcol, ?_, ?_⟩
    . have hnext := Next.left (t := t) (spent t i) ⟨⟨col, 0⟩, t.interface.channels - j⟩ [] rfl
        (fun x hx => available_of_mem_spent hx) (by dsimp only; omega)
      dsimp only at hnext
      rwa [Nat.sub_sub_self (Nat.le_of_lt hlt)] at hnext
    . rw [take_append_of_not_mem (not_mem_spent hcolumns hcol), take, if_pos rfl, Nat.sub_sub]
      exact .of_last hcol (Nat.succ_pos j) hlt

theorem Filled.not_next (h : Filled t n slots) (hn : total t ≤ n) : ¬ Next t slots tile id := by
  intro hnext
  unfold total at hn
  cases h with
  | whole i hi =>
    cases hnext with
    | left before slot after hslots _ hleft =>
      have hmem : slot ∈ spent t i := by simp [hslots]
      have hspent := available_of_mem_spent hmem
      omega
    | opens col _ hcol hpos =>
      rw [length_spent hi] at hcol
      have hlt := (List.getElem?_eq_some_iff.mp hcol).1
      exact absurd (Nat.mul_lt_mul_of_pos_right hlt hpos) (Nat.not_lt.mpr hn)
  | part i j col hcol hpos hlt =>
    have hi := (List.getElem?_eq_some_iff.mp hcol).1
    have hle : (i + 1) * t.interface.channels ≤ i * t.interface.channels + j :=
      Nat.le_trans (Nat.mul_le_mul_right _ hi) hn
    -- a tile that has channels left falls short of the total
    rw [Nat.succ_mul] at hle
    omega

open History

/--
Each direction has been handed out one channel for each of its calls, as far as they go.
-/
def Booked (t : Target) (calls : Direction → Nat) (s : InterfaceSlots) : Prop :=
  ∀ d, Filled t (min (calls d) (total t)) (s.toward d)

variable {calls : Direction → Nat}

theorem Booked.peek_of_le (h : Booked t calls s) (hle : total t ≤ calls d) :
    s.peek t d = .error (peek.exhausted t d) := by
  have hfilled := h d
  rw [Nat.min_eq_right hle] at hfilled
  cases hpeek : s.peek t d with
  | ok slot => exact absurd (next_of_peek hpeek) (hfilled.not_next (Nat.le_refl _))
  | error e => rw [error_of_peek hpeek]

theorem assign_of_ok (h : s.peek t d = .ok (tile, id)) :
    assign t d s = .ok (tile, id) (s.advance t d) := by
  unfold assign
  rw [h]

theorem assign_of_error {e : CompileError} (h : s.peek t d = .error e) :
    assign t d s = .error e s := by
  unfold assign
  rw [h]

theorem after_assign (t : Target) (s : InterfaceSlots) (d : Direction) :
    after (assign t) s d = s.advance t d := by
  cases hpeek : s.peek t d with
  | ok slot => exact after_of_ok (assign_of_ok hpeek)
  | error e => rw [after_of_error (assign_of_error hpeek), advance_of_error hpeek]

theorem toward_advance_of_ne {d' : Direction} (hne : d ≠ d') :
    (s.advance t d).toward d' = s.toward d' := by
  cases hpeek : s.peek t d with
  | ok slot => rw [toward_advance hpeek, if_neg hne]
  | error e => rw [advance_of_error hpeek]

theorem Booked.after (h : Booked t calls s) (hcolumns : t.interfaceColumns.Nodup)
    (d : Direction) :
    Booked t (fun d' => calls d' + if d = d' then 1 else 0) (after (assign t) s d) := by
  intro d'
  dsimp only
  rw [after_assign]
  by_cases heq : d = d'
  . subst heq
    rw [if_pos rfl]
    have hfilled := h d
    rcases Nat.lt_or_ge (calls d) (total t) with hlt | hge
    . rw [Nat.min_eq_left (Nat.le_of_lt hlt)] at hfilled
      obtain ⟨col, _, hnext, htaken⟩ := hfilled.next hcolumns hlt
      rw [toward_advance (peek_of_next hnext), if_pos rfl, Nat.min_eq_left hlt]
      exact htaken
    . rw [advance_of_error (h.peek_of_le hge), Nat.min_eq_right (Nat.le_succ_of_le hge)]
      rw [Nat.min_eq_right hge] at hfilled
      exact hfilled
  . rw [if_neg heq, toward_advance_of_ne heq]
    exact h d'

theorem Booked.afterAll (h : Booked t calls s) (hcolumns : t.interfaceColumns.Nodup)
    (ds : List Direction) :
    Booked t (fun d => calls d + ds.count d) (afterAll (assign t) s ds) := by
  induction ds generalizing s calls with
  | nil => exact h
  | cons d ds ih =>
    have hrest := ih (h.after hcolumns d)
    have hcalls : (fun d' => calls d' + (d :: ds).count d') =
        fun d' => calls d' + (if d = d' then 1 else 0) + ds.count d' := by
      funext d'
      rw [List.count_cons]
      simp only [beq_iff_eq]
      omega
    rw [hcalls]
    exact hrest

/--
The channel that a call has been answered with.
-/
def key? : Direction × Except CompileError (Coord × Nat) → Option ChannelKey
  | (d, .ok (tile, id)) => some ⟨tile, d, id⟩
  | (_, .error _) => none

/--
The channels that are handed out to calls in these directions.
-/
def granted (t : Target) (s : InterfaceSlots) (ds : List Direction) : List ChannelKey :=
  (ds.zip (answers (assign t) s ds)).filterMap key?

end InterfaceSlots

end TileTraffic
