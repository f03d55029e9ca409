import TileTraffic.Proofs.Channel.Separation

/-!
The rotation of the channels of a tile. Which channel comes next is told by the number of open
channels, not by the number of ops. So the rotation goes round once: when all channels are open,
that number stands still, and all further ops are put on channel 0.
-/

namespace TileTraffic

/-! ### Turns -/

/--
The channel of the op that comes to a tile as number `k`, counted from 0.
-/
def turn (channels k : Nat) : Nat :=
  if k < channels then k else 0

/--
The number of ops on channel `i` when `n` ops have come.
-/
def share (channels n i : Nat) : Nat :=
  (if i < min n channels then 1 else 0) + if i = 0 then n - channels else 0

variable {channels n : Nat}

theorem min_mod_eq_turn (channels k : Nat) : min k channels % channels = turn channels k := by
  unfold turn
  split
  . next hk => rw [Nat.min_eq_left (Nat.le_of_lt hk), Nat.mod_eq_of_lt hk]
  . next hk => rw [Nat.min_eq_right (Nat.le_of_not_lt hk), Nat.mod_self]

theorem share_zero (channels i : Nat) : share channels 0 i = 0 := by
  simp [share]

theorem share_succ (h : 0 < channels) (n i : Nat) :
    share channels (n + 1) i = share channels n i + if turn channels n = i then 1 else 0 := by
  unfold share turn
  grind

/--
The turns are those of a rotation as long as it goes round once and starts anew. A single channel is
always in turn.
-/
theorem turn_eq_mod_iff (h : 0 < channels) :
    (∀ k < n, turn channels k = k % channels) ↔ n ≤ channels + 1 ∨ channels = 1 := by
  constructor
  . intro hturns
    by_cases hn : n ≤ channels + 1
    . exact .inl hn
    . right
      have hnext := hturns (channels + 1) (by omega)
      have hturn : turn channels (channels + 1) = 0 := if_neg (by omega)
      rw [hturn, Nat.add_mod_left] at hnext
      rcases Nat.lt_or_eq_of_le (Nat.succ_le_of_lt h) with hlt | heq
      . rw [Nat.mod_eq_of_lt hlt] at hnext
        cases hnext
      . exact heq.symm
  . rintro hn k hk
    rw [← min_mod_eq_turn]
    rcases hn with hn | rfl
    . rcases Nat.lt_or_ge k channels with hlt | hge
      . rw [Nat.min_eq_left (Nat.le_of_lt hlt)]
      . obtain rfl : k = channels := by omega
        rw [Nat.min_self]
    . rw [Nat.mod_one, Nat.mod_one]

/--
The ops are spread evenly as long as the turns are those of a rotation.
-/
theorem share_le_succ_iff (h : 0 < channels) (hle : channels ≤ n) :
    (∀ i < channels, ∀ j < channels, share channels n i ≤ share channels n j + 1) ↔
      n ≤ channels + 1 ∨ channels = 1 := by
  constructor
  . intro heven
    by_cases hone : channels = 1
    . exact .inr hone
    . left
      have hle := heven 0 (by omega) 1 (by omega)
      unfold share at hle
      grind
  . intro hn i hi j hj
    unfold share
    grind

namespace ChannelPool

variable {g : Graph} {t : Target} {level : Level} {p : ChannelPool} {occ : Occurrence}
  {key : ChannelKey} {tile : Coord} {d : Direction}

/-! ### Ops in turn -/

/--
As many ops as `n` have been put on the channels of a tile in one direction, each in its turn.
-/
structure Turned (t : Target) (p : ChannelPool) (tile : Coord) (d : Direction) (n : Nat) :
    Prop where
  ids_eq : p.ids tile d = List.range (min n (t.channelsOfRow tile.row))
  load_eq : ∀ i, Allocation.load (fun key => key = ⟨tile, d, i⟩) p.opened =
    share (t.channelsOfRow tile.row) n i

theorem turned_empty (t : Target) (level : Level) (tile : Coord) (d : Direction) :
    (empty level).Turned t tile d 0 where
  ids_eq := by
    rw [Nat.zero_min]
    rfl
  load_eq := by
    intro i
    rw [share_zero]
    rfl

namespace Turned

theorem length_onTile (h : p.Turned t tile d n) :
    (p.onTile tile d).length = min n (t.channelsOfRow tile.row) := by
  have hlength := congrArg List.length h.ids_eq
  simpa [ids] using hlength

/--
The channel in turn is open already when all channels are.
-/
theorem mem_keys_iff (h : p.Turned t tile d n) (hpos : 0 < t.channelsOfRow tile.row) :
    ⟨tile, d, turn (t.channelsOfRow tile.row) n⟩ ∈ p.keys ↔ t.channelsOfRow tile.row ≤ n := by
  rw [mem_keys_iff_mem_ids, h.ids_eq, List.mem_range]
  show turn (t.channelsOfRow tile.row) n < _ ↔ _
  unfold turn
  split <;> omega

/--
An op with an id that is not listed yet is put on the channel in turn.
-/
theorem serve_eq (h : p.Turned t tile d n) (hlevel : p.level ≠ .external)
    (hpos : 0 < t.channelsOfRow tile.row) (hd : occ.op.directionAt p.level = .ok d)
    (hnew : p.serving? tile d occ.op.id = none) :
    serve t occ tile none p =
      commit t occ ⟨tile, d, turn (t.channelsOfRow tile.row) n⟩ none p := by
  have hturn : remainder (p.onTile tile d).length (t.channelsOfRow tile.row) =
      .ok (turn (t.channelsOfRow tile.row) n) := by
    rw [remainder_of_pos hpos, h.length_onTile, min_mod_eq_turn]
  unfold serve
  rw [if_neg hlevel, hd]
  dsimp only
  rw [hnew]
  dsimp only [Option.bind_none]
  rw [if_neg (Nat.ne_of_gt hpos), hturn]

theorem enter (h : p.Turned t tile d n) (hkeys : p.keys.Nodup)
    (hpos : 0 < t.channelsOfRow tile.row) :
    (p.enter occ ⟨tile, d, turn (t.channelsOfRow tile.row) n⟩ none).Turned t tile d (n + 1) where
  ids_eq := by
    rw [ids_enter, h.ids_eq]
    by_cases hn : n < t.channelsOfRow tile.row
    . have hclosed := mt (h.mem_keys_iff hpos).mp (Nat.not_le_of_lt hn)
      have hturn : turn (t.channelsOfRow tile.row) n = n := if_pos hn
      rw [if_pos ⟨hclosed, rfl, rfl⟩, Nat.min_eq_left (Nat.le_of_lt hn), Nat.min_eq_left hn, hturn,
        List.range_succ]
    . have hopen := (h.mem_keys_iff hpos).mpr (Nat.le_of_not_lt hn)
      rw [if_neg fun hopens => hopens.1 hopen, Nat.min_eq_right (by omega),
        Nat.min_eq_right (by omega)]
  load_eq := by
    intro i
    rw [load_enter hkeys, h.load_eq, share_succ hpos]
    simp

theorem enter_of_ne (h : p.Turned t tile d n) (hkeys : p.keys.Nodup)
    (hne : ¬ (key.tile = tile ∧ key.direction = d)) : (p.enter occ key none).Turned t tile d n where
  ids_eq := by
    unfold ids
    rw [onTile_enter_of_ne hne]
    exact h.ids_eq
  load_eq := by
    intro i
    have hother : key ≠ ⟨tile, d, i⟩ := by
      rintro rfl
      exact hne ⟨rfl, rfl⟩
    rw [load_enter hkeys, h.load_eq]
    simp [hother]

end Turned

theorem unlisted_empty {id : Nat} : (empty level).Unlisted id key := by
  simp [Unlisted, empty]

theorem Unlisted.serving?_eq_none {id : Nat} (h : p.Unlisted id key) :
    p.serving? key.tile key.direction id = none := by
  unfold serving? onTile
  rw [List.find?_eq_none]
  intro a ha
  obtain ⟨hopened, hplace⟩ := List.mem_filter.mp ha
  obtain ⟨htile, hd⟩ := of_decide_eq_true hplace
  simpa using h a hopened htile hd

/--
An id stays unlisted when another id is listed, or one on another tile or in the other direction.
-/
theorem Unlisted.enter {id : Nat} {k : ChannelKey} {partner : Option Coord} (h : p.Unlisted id k)
    (hother : key.tile = k.tile → key.direction = k.direction → id ≠ occ.op.id) :
    (p.enter occ key partner).Unlisted id k := by
  intro a ha htile hd hid
  rcases mem_opened_enter ha with ⟨hold, _⟩ | ⟨rfl, hids | ⟨b, hb, hkey, hids⟩⟩
  . exact h a hold htile hd hid
  . rw [hids, List.mem_singleton] at hid
    exact hother htile hd hid
  . rw [hids, List.mem_append, List.mem_singleton] at hid
    rcases hid with hid | hid
    . rw [← hkey] at htile hd
      exact h b hb htile hd hid
    . exact hother htile hd hid

/-! ### Any number of ops in turn -/

namespace ServeCall

def direction? (g : Graph) (level : Level) (c : ServeCall) : Option Direction :=
  g.occurrences[c.op]?.bind fun occ => (occ.op.directionAt level).toOption

def id? (g : Graph) (c : ServeCall) : Option Nat :=
  g.occurrences[c.op]?.map fun occ => occ.op.id

/--
The op asks for a channel of this direction on the tile.
-/
def asks (g : Graph) (level : Level) (tile : Coord) (d : Direction) (c : ServeCall) : Bool :=
  c.tile = tile ∧ c.direction? g level = some d

variable {c : ServeCall}

theorem exists_of_asks (h : c.asks g level tile d = true) :
    c.tile = tile ∧ ∃ occ, elementAt g.occurrences c.op = .ok occ ∧
      occ.op.directionAt level = .ok d ∧ c.id? g = some occ.op.id := by
  obtain ⟨htile, hd⟩ := of_decide_eq_true h
  unfold direction? at hd
  cases hocc : g.occurrences[c.op]? with
  | none => simp [hocc] at hd
  | some occ =>
    refine ⟨htile, occ, by simp [elementAt, hocc], ?_, by simp [id?, hocc]⟩
    rw [hocc, Option.bind_some] at hd
    cases hdirection : occ.op.directionAt level with
    | error e => simp [hdirection, Except.toOption] at hd
    | ok d' => simpa [hdirection, Except.toOption] using hd

theorem asks_of_directionAt (htile : c.tile = tile) (hocc : elementAt g.occurrences c.op = .ok occ)
    (hd : occ.op.directionAt level = .ok d) : c.asks g level tile d = true := by
  have hget := elementAt_eq_ok hocc
  simp [asks, direction?, htile, hget, hd, Except.toOption]

end ServeCall

/--
The ops that ask for a channel of one direction on a tile prefer none and have ids of their own,
none of which is listed yet. There are descriptors for all that is to be served on the tile.
-/
structure Awaits (g : Graph) (t : Target) (level : Level) (p : ChannelPool) (tile : Coord)
    (d : Direction) (calls : List ServeCall) : Prop where
  unpreferred : ∀ c ∈ calls, c.asks g level tile d = true → c.preferred = none
  ids_nodup : ((calls.filter (ServeCall.asks g level tile d)).map (ServeCall.id? g)).Nodup
  unlisted : ∀ c ∈ calls, c.asks g level tile d = true → ∀ id, c.id? g = some id →
    p.Unlisted id ⟨tile, d, 0⟩
  room : p.used tile + (calls.filter fun c => c.tile = tile).length ≤
    (t.budgetAt tile).descriptors

namespace Awaits

variable {c : ServeCall} {calls : List ServeCall}

theorem tail (h : p.Awaits g t level tile d (c :: calls)) : p.Awaits g t level tile d calls where
  unpreferred := fun c' hc' => h.unpreferred c' (List.mem_cons_of_mem c hc')
  ids_nodup := h.ids_nodup.sublist (((List.sublist_cons_self c calls).filter _).map _)
  unlisted := fun c' hc' => h.unlisted c' (List.mem_cons_of_mem c hc')
  room := by
    have hsub : (calls.filter fun c => c.tile = tile).Sublist
        ((c :: calls).filter fun c => c.tile = tile) := (List.sublist_cons_self c calls).filter _
    have hlength := hsub.length_le
    have hroom := h.room
    omega

/--
What is left to be served, when the first op has been put on some channel of its tile.
-/
theorem enter (h : p.Awaits g t level tile d (c :: calls)) (hkey : key.tile = c.tile)
    (hother : key.tile = tile → key.direction = d → c.asks g level tile d = true ∧
      c.id? g = some occ.op.id) : (p.enter occ key none).Awaits g t level tile d calls where
  unpreferred := h.tail.unpreferred
  ids_nodup := h.tail.ids_nodup
  unlisted := by
    intro c' hc' hasks id hid
    apply (h.tail.unlisted c' hc' hasks id hid).enter
    intro htile hd hsame
    obtain ⟨hasks', hid'⟩ := hother htile hd
    have hnodup := h.ids_nodup
    rw [List.filter_cons_of_pos hasks', List.map_cons, List.nodup_cons] at hnodup
    apply hnodup.1
    rw [hid', ← hsame, ← hid]
    exact List.mem_map_of_mem (List.mem_filter.mpr ⟨hc', hasks⟩)
  room := by
    have hroom := h.room
    rw [used_enter, hkey]
    by_cases htile : c.tile = tile
    . rw [List.filter_cons_of_pos (by simpa using htile), List.length_cons] at hroom
      rw [if_pos htile]
      omega
    . rw [List.filter_cons_of_neg (by simpa using htile)] at hroom
      rw [if_neg htile]
      omega

end Awaits

/--
The op that comes next is put on the channel in turn.
-/
theorem Turned.serving_eq (h : p.Turned t tile d n) (hp : p.Regular g t level)
    (hlevel : level ≠ .external) (hpos : 0 < t.channelsOfRow tile.row) {c : ServeCall}
    {calls : List ServeCall} (hawaits : p.Awaits g t level tile d (c :: calls))
    (hc : c.asks g level tile d = true) :
    ∃ occ ∈ g.occurrences, c.tile = tile ∧ c.id? g = some occ.op.id ∧
      serving g t c p = .ok ⟨tile, d, turn (t.channelsOfRow tile.row) n⟩
        (p.enter occ ⟨tile, d, turn (t.channelsOfRow tile.row) n⟩ none) := by
  obtain ⟨htile, occ, hocc, hd, hid⟩ := ServeCall.exists_of_asks hc
  have hmem : occ ∈ g.occurrences := List.mem_of_getElem? (elementAt_eq_ok hocc)
  have hunlisted : p.Unlisted occ.op.id ⟨tile, d, turn (t.channelsOfRow tile.row) n⟩ :=
    hawaits.unlisted c (by simp) hc occ.op.id hid
  have hroom : p.hasRoom t tile = true := by
    have hroom := hawaits.room
    rw [List.filter_cons_of_pos (by simpa using htile), List.length_cons] at hroom
    unfold hasRoom
    apply decide_eq_true
    omega
  refine ⟨occ, hmem, htile, hid, ?_⟩
  rw [ChannelPool.serving_eq, hocc, htile, hawaits.unpreferred c (by simp) hc]
  dsimp only
  rw [← hp.level_eq] at hlevel hd
  rw [h.serve_eq hlevel hpos hd hunlisted.serving?_eq_none]
  obtain ⟨p', hok⟩ : ∃ p', commit t occ ⟨tile, d, turn (t.channelsOfRow tile.row) n⟩ none p =
      .ok ⟨tile, d, turn (t.channelsOfRow tile.row) n⟩ p' := commit_of_hasRoom hroom occ none
  obtain ⟨_, rfl⟩ := hp.commit_enters hmem hunlisted hok
  exact hok

theorem Regular.after_serving (hp : p.Regular g t level) (c : ServeCall) :
    (History.after (serving g t) p c).Regular g t level := by
  have hafter : p.after g t c.toRequest = History.after (serving g t) p c :=
    after_eq g t p c.toRequest
  rw [← hafter]
  exact hp.after c.toRequest

/--
What is asked for elsewhere is served elsewhere, if at all.
-/
theorem Regular.after_serving_elsewhere (hp : p.Regular g t level) {c : ServeCall}
    (hc : c.asks g level tile d = false) :
    History.after (serving g t) p c = p ∨ ∃ occ key, key.tile = c.tile ∧
      ¬ (key.tile = tile ∧ key.direction = d) ∧
      History.after (serving g t) p c = p.enter occ key none := by
  have hstep := serving_eq g t c p
  cases hocc : elementAt g.occurrences c.op with
  | error e =>
    rw [hocc] at hstep
    exact .inl (History.after_of_error hstep)
  | ok occ =>
    rw [hocc] at hstep
    dsimp only at hstep
    have hmem : occ ∈ g.occurrences := List.mem_of_getElem? (elementAt_eq_ok hocc)
    cases hserve : serve t occ c.tile c.preferred p with
    | error e p' =>
      left
      rw [hserve] at hstep
      rw [History.after_of_error hstep, serve_eq_error hserve]
    | ok key p' =>
      rw [hserve] at hstep
      rw [History.after_of_ok hstep]
      obtain ⟨_, hd, htile, ⟨_, _, _, _, rfl⟩ | ⟨_, rfl⟩⟩ := hp.serve_eq_ok hmem hserve
      . exact .inl rfl
      . refine .inr ⟨occ, key, htile, ?_, rfl⟩
        rintro ⟨hkey, rfl⟩
        rw [hp.level_eq] at hd
        rw [ServeCall.asks_of_directionAt (htile.symm.trans hkey) hocc hd] at hc
        cases hc

/--
Channels of a tile with these numbers, granted one after the other.
-/
def granted (tile : Coord) (d : Direction) (ids : List Nat) :
    List (Except CompileError ChannelKey) :=
  ids.map fun i => .ok ⟨tile, d, i⟩

theorem granted_cons (tile : Coord) (d : Direction) (i : Nat) (ids : List Nat) :
    granted tile d (i :: ids) = .ok ⟨tile, d, i⟩ :: granted tile d ids :=
  rfl

theorem granted_inj {ids ids' : List Nat} :
    granted tile d ids = granted tile d ids' ↔ ids = ids' := by
  unfold granted
  apply List.map_inj_right
  intro i j hij
  exact congrArg ChannelKey.id (Except.ok.inj hij)

/--
However many ops ask for channels of a direction on a tile, each gets the channel in turn, whatever
else is asked for in between.
-/
theorem Turned.run (h : p.Turned t tile d n) (hp : p.Regular g t level)
    (hlevel : level ≠ .external) (hpos : 0 < t.channelsOfRow tile.row) {calls : List ServeCall}
    (hawaits : p.Awaits g t level tile d calls) :
    History.answersOf (serving g t) (ServeCall.asks g level tile d) p calls =
        granted tile d
          ((List.range' n (calls.filter (ServeCall.asks g level tile d)).length).map
            (turn (t.channelsOfRow tile.row))) ∧
      (History.afterAll (serving g t) p calls).Turned t tile d
        (n + (calls.filter (ServeCall.asks g level tile d)).length) := by
  induction calls generalizing p n with
  | nil => exact ⟨rfl, h⟩
  | cons c calls ih =>
    have hp' := hp.after_serving c
    rw [History.afterAll_cons]
    by_cases hc : c.asks g level tile d = true
    . obtain ⟨occ, hmem, htile, hid, hok⟩ := h.serving_eq hp hlevel hpos hawaits hc
      rw [History.answersOf_cons_of_pos hc, List.filter_cons_of_pos hc, List.length_cons,
        List.range'_succ, List.map_cons, granted_cons, History.answer_of_ok hok]
      rw [History.after_of_ok hok] at hp' ⊢
      obtain ⟨hanswers, hturned⟩ := ih (h.enter hp.keys_nodup hpos) hp'
        (hawaits.enter htile.symm fun _ _ => ⟨hc, hid⟩)
      rw [hanswers]
      refine ⟨rfl, ?_⟩
      rw [← Nat.add_assoc, Nat.add_right_comm]
      exact hturned
    . have hc' : c.asks g level tile d = false := by simpa using hc
      rw [History.answersOf_cons_of_neg hc', List.filter_cons_of_neg hc]
      rcases hp.after_serving_elsewhere hc' with hafter | ⟨occ, key, hkey, hne, hafter⟩
      . rw [hafter] at hp' ⊢
        exact ih h hp' hawaits.tail
      . rw [hafter] at hp' ⊢
        exact ih (h.enter_of_ne hp.keys_nodup hne) hp'
          (hawaits.enter hkey fun htile hd => absurd ⟨htile, hd⟩ hne)

/--
The channels of a tile are given in turn to the ops that ask for them, but the rotation stops when
it has gone round: of `n` ops, all from number `channels` on get channel 0. So the ops are given the
channels of a rotation, and are spread evenly, as long as there is at most one op more than there
are channels, or a single channel, and no longer.
-/
theorem served_by_turns (g : Graph) (t : Target) (hlevel : level ≠ .external) (tile : Coord)
    (d : Direction) (hpos : 0 < t.channelsOfRow tile.row) {calls : List ServeCall}
    (hawaits : (empty level).Awaits g t level tile d calls) :
    let channels := t.channelsOfRow tile.row
    let n := (calls.filter (ServeCall.asks g level tile d)).length
    let answers :=
      History.answersOf (serving g t) (ServeCall.asks g level tile d) (empty level) calls
    let ops := fun i => Allocation.load (fun key => key = ⟨tile, d, i⟩)
      ((empty level).afterServing g t calls).opened
    answers = granted tile d ((List.range n).map (turn channels)) ∧
      (∀ i, ops i = share channels n i) ∧
      (answers = granted tile d ((List.range n).map (· % channels)) ↔
        n ≤ channels + 1 ∨ channels = 1) ∧
      (channels ≤ n → ((∀ i < channels, ∀ j < channels, ops i ≤ ops j + 1) ↔
        n ≤ channels + 1 ∨ channels = 1)) := by
  intro channels n answers ops
  obtain ⟨hanswers, hturned⟩ := (turned_empty t level tile d).run (regular_empty level) hlevel hpos
    hawaits
  rw [← List.range_eq_range'] at hanswers
  rw [Nat.zero_add, ← afterServing_eq] at hturned
  have hops : ∀ i, ops i = share channels n i := hturned.load_eq
  refine ⟨hanswers, hops, ?_, ?_⟩
  . rw [show answers = _ from hanswers, granted_inj, ← turn_eq_mod_iff hpos, List.map_inj_left]
    simp only [List.mem_range]
    rfl
  . intro hle
    rw [← share_le_succ_iff hpos hle]
    simp only [hops]
    exact Iff.rfl

/--
Four loads from external memory.
-/
def convoy : Graph :=
  { haul with scope := "convoy", ops := [1, 2, 3, 4].map haul.load }

/--
On a tile with two channels, the first three loads go round. A load on another tile does not count.
-/
theorem convoy_served_by_turns :
    let calls : List ServeCall :=
      [⟨0, ⟨0, 2⟩, none⟩, ⟨0, ⟨1, 2⟩, none⟩, ⟨1, ⟨0, 2⟩, none⟩, ⟨2, ⟨0, 2⟩, none⟩]
    let answers := History.answersOf (serving convoy (.gen1 4 4))
      (ServeCall.asks convoy .tileLocal ⟨0, 2⟩ .inbound) (empty .tileLocal) calls
    (empty .tileLocal).Awaits convoy (.gen1 4 4) .tileLocal ⟨0, 2⟩ .inbound calls ∧
      answers = granted ⟨0, 2⟩ .inbound [0, 1, 0] := by
  intro calls answers
  have hawaits : (empty .tileLocal).Awaits convoy (.gen1 4 4) .tileLocal ⟨0, 2⟩ .inbound calls :=
    ⟨by decide, by decide, fun _ _ _ _ _ => unlisted_empty, by decide⟩
  have hturns := served_by_turns convoy (.gen1 4 4) (by decide) ⟨0, 2⟩ .inbound (by decide) hawaits
  exact ⟨hawaits, hturns.1⟩

/--
The fourth load does not get channel 1 again. It is put on channel 0, which has three loads then,
and channel 1 has one.
-/
theorem convoy_rotation_stops :
    let calls : List ServeCall :=
      [⟨0, ⟨0, 2⟩, none⟩, ⟨1, ⟨0, 2⟩, none⟩, ⟨2, ⟨0, 2⟩, none⟩, ⟨3, ⟨0, 2⟩, none⟩]
    let channels := (Target.gen1 4 4).channelsOfRow 2
    let answers := History.answers (serving convoy (.gen1 4 4)) (empty .tileLocal) calls
    let p := (empty .tileLocal).afterServing convoy (.gen1 4 4) calls
    (calls.map (ServeCall.id? convoy)).Nodup ∧
      calls.length ≤ ((Target.gen1 4 4).budgetAt ⟨0, 2⟩).descriptors ∧
      answers = granted ⟨0, 2⟩ .inbound [0, 1, 0, 0] ∧
      answers ≠ granted ⟨0, 2⟩ .inbound ((List.range 4).map (· % channels)) ∧
      p.opened.map (fun a => (a.key.id, a.ops.length)) = [(0, 3), (1, 1)] := by
  intro calls channels answers p
  have hanswers : answers = granted ⟨0, 2⟩ .inbound [0, 1, 0, 0] := by
    rfl
  refine ⟨by decide, by decide, hanswers, ?_, rfl⟩
  rw [hanswers, Ne, granted_inj]
  decide

end ChannelPool

end TileTraffic
