import TileTraffic.Proofs.Channel.Step
import TileTraffic.Proofs.Success

/-!
Pools under any use. Whatever is asked of a pool, with whatever arguments, and whether it is granted
or refused, its books stay in order: every channel is open once and lists its ops once, the
descriptors that are taken are the ops that are listed, and the channels of a tile are numbered from
0 on without a gap. None of this asks that the graph or the target make sense.
-/

namespace TileTraffic

/--
What can be asked of a pool for an op.
-/
inductive PoolRequest where
  | serve (tile : Coord) (preferred : Option Nat)
  | openInterface (partner : Coord)
  | join (key : ChannelKey)
  deriving DecidableEq, Repr

/--
The channel lists ops of the graph, at least one and none of them twice, and beside them their ids.
-/
structure Allocation.Regular (g : Graph) (a : Allocation) : Prop where
  ops_ne : a.ops ≠ []
  ops_mem : ∀ o ∈ a.ops, o ∈ g.occurrences
  ops_nodup : (a.ops.map Occurrence.ref).Nodup
  opIds_eq : a.opIds = a.ops.map fun o => o.op.id

namespace Allocation

variable {g : Graph} {a : Allocation} {occ : Occurrence} {key : ChannelKey}

theorem Regular.add (h : a.Regular g) (hocc : occ ∈ g.occurrences)
    (hnew : ∀ o ∈ a.ops, o.ref ≠ occ.ref) : (a.add occ).Regular g where
  ops_ne := by simp [Allocation.add]
  ops_mem := by
    intro o ho
    rcases List.mem_append.mp ho with ho | ho
    . exact h.ops_mem o ho
    . rw [List.mem_singleton.mp ho]
      exact hocc
  ops_nodup := by
    unfold Allocation.add
    rw [List.map_append]
    apply nodup_push h.ops_nodup
    intro hmem
    obtain ⟨o, ho, href⟩ := List.mem_map.mp hmem
    exact hnew o ho href
  opIds_eq := by simp [Allocation.add, h.opIds_eq]

theorem regular_opened (hocc : occ ∈ g.occurrences) (level : Level) (partner : Option Coord) :
    (⟨key, level, partner, [occ.op.id], [occ]⟩ : Allocation).Regular g where
  ops_ne := by simp
  ops_mem := by simp [hocc]
  ops_nodup := by simp
  opIds_eq := rfl

end Allocation

namespace ChannelPool

/--
Do what is asked for the op at a position. Nothing can be asked for an op that the graph does not
have.
-/
def request (g : Graph) (t : Target) (op : Nat) (r : PoolRequest) :
    EStateM CompileError ChannelPool ChannelKey := fun p =>
  match elementAt g.occurrences op with
  | .error e => .error e p
  | .ok occ =>
    match r with
    | .serve tile preferred => serve t occ tile preferred p
    | .openInterface partner => openInterface t occ partner p
    | .join key => join t occ key p

/--
The pool that a request leaves behind, be it granted or refused.
-/
def after (g : Graph) (t : Target) (p : ChannelPool) (r : Nat × PoolRequest) : ChannelPool :=
  match request g t r.1 r.2 p with
  | .ok _ p' => p'
  | .error _ p' => p'

def afterAll (g : Graph) (t : Target) (p : ChannelPool) (rs : List (Nat × PoolRequest)) :
    ChannelPool :=
  rs.foldl (after g t) p

/--
The numbers of the open channels of a tile in one direction, in the order of opening.
-/
def ids (p : ChannelPool) (tile : Coord) (d : Direction) : List Nat :=
  (p.onTile tile d).map fun a => a.key.id

/--
A pool of a level whose books are in order.
-/
structure Regular (g : Graph) (t : Target) (level : Level) (p : ChannelPool) : Prop where
  level_eq : p.level = level
  keys_nodup : p.keys.Nodup
  allocation : ∀ a ∈ p.opened, a.Regular g
  /-- Channels of both directions take their descriptors from the same supply. -/
  used_eq : ∀ tile, p.used tile = Allocation.load (fun key => key.tile = tile) p.opened
  used_le : ∀ tile, p.used tile ≤ (t.budgetAt tile).descriptors
  ids_eq : level ≠ .external → ∀ tile d,
    ∃ n ≤ t.channelsOfRow tile.row, p.ids tile d = List.range n

variable {g : Graph} {t : Target} {level : Level} {p p' : ChannelPool} {occ : Occurrence}
  {key k : ChannelKey} {partner : Option Coord}

theorem regular_empty (level : Level) : (empty level).Regular g t level where
  level_eq := rfl
  keys_nodup := by simp [empty, keys]
  allocation := by simp [empty]
  used_eq := by simp [empty, used, Allocation.load]
  used_le := by simp [empty, used]
  ids_eq := fun _ _ _ => ⟨0, Nat.zero_le _, rfl⟩

theorem Regular.of_slots (h : p.Regular g t level) (s : InterfaceSlots) :
    { p with slots := s }.Regular g t level :=
  ⟨h.level_eq, h.keys_nodup, h.allocation, h.used_eq, h.used_le, h.ids_eq⟩

/-! ### The numbers of the channels of a tile -/

theorem ids_eq_filter_keys (tile : Coord) (d : Direction) :
    p.ids tile d =
      (p.keys.filter fun k => k.tile = tile ∧ k.direction = d).map ChannelKey.id := by
  unfold ids onTile keys
  rw [List.filter_map, List.map_map]
  rfl

theorem mem_keys_iff_mem_ids : key ∈ p.keys ↔ key.id ∈ p.ids key.tile key.direction := by
  rw [ids_eq_filter_keys, List.mem_map]
  constructor
  . intro hkey
    exact ⟨key, by simp [hkey], rfl⟩
  . intro ⟨k, hk, hid⟩
    rw [List.mem_filter] at hk
    obtain ⟨htile, hd⟩ : k.tile = key.tile ∧ k.direction = key.direction := by simpa using hk.2
    have heq : k = key := by
      cases k
      cases key
      simp_all
    rw [← heq]
    exact hk.1

theorem ids_enter (tile : Coord) (d : Direction) :
    (p.enter occ key partner).ids tile d =
      if key ∉ p.keys ∧ key.tile = tile ∧ key.direction = d then p.ids tile d ++ [key.id]
      else p.ids tile d := by
  rw [ids_eq_filter_keys, ids_eq_filter_keys, keys_enter]
  by_cases hmem : key ∈ p.keys
  . simp [hmem]
  . by_cases hplace : key.tile = tile ∧ key.direction = d
    . simp [hmem, hplace]
    . simp [hmem, hplace]

/--
The channel is open, or it comes in turn.
-/
def Offers (t : Target) (p : ChannelPool) (key : ChannelKey) : Prop :=
  key ∈ p.keys ∨
    0 < t.channelsOfRow key.tile.row ∧
      key.id = (p.onTile key.tile key.direction).length % t.channelsOfRow key.tile.row

/--
A channel that comes in turn carries on the numbers of the open ones, until all channels of the tile
are open.
-/
theorem Offers.ids_enter (h : p.Offers t key)
    (hids : ∀ tile d, ∃ n ≤ t.channelsOfRow tile.row, p.ids tile d = List.range n) (tile : Coord)
    (d : Direction) :
    ∃ n ≤ t.channelsOfRow tile.row, (p.enter occ key partner).ids tile d = List.range n := by
  rw [ChannelPool.ids_enter]
  split
  . next hopens =>
    obtain ⟨hmem, rfl, rfl⟩ := hopens
    obtain ⟨n, hn, heq⟩ := hids key.tile key.direction
    obtain ⟨hpos, hid⟩ := h.resolve_left hmem
    have hlength : (p.onTile key.tile key.direction).length = n := by
      have := congrArg List.length heq
      simpa [ids] using this
    rw [hlength] at hid
    rcases Nat.lt_or_eq_of_le hn with hlt | heq'
    . rw [Nat.mod_eq_of_lt hlt] at hid
      refine ⟨n + 1, hlt, ?_⟩
      rw [heq, hid, List.range_succ]
    . -- all channels of the tile are open, the one in turn among them
      rw [← heq', Nat.mod_self] at hid
      apply absurd _ hmem
      rw [mem_keys_iff_mem_ids, heq, List.mem_range]
      omega
  . exact hids tile d

/-! ### What a request does -/

/--
An op of the graph can be put on a channel: the tile has room for it, and the channel does not list
it yet.
-/
structure Admits (g : Graph) (t : Target) (p : ChannelPool) (occ : Occurrence) (key : ChannelKey) :
    Prop where
  mem : occ ∈ g.occurrences
  room : p.hasRoom t key.tile = true
  fresh : ∀ a ∈ p.opened, a.key = key → ∀ o ∈ a.ops, o.ref ≠ occ.ref

theorem Regular.enter (h : p.Regular g t level) (hadmits : p.Admits g t occ key)
    (hoffers : level ≠ .external → p.Offers t key) :
    (p.enter occ key partner).Regular g t level where
  level_eq := h.level_eq
  keys_nodup := by
    rw [keys_enter]
    split
    . exact h.keys_nodup
    . next hmem => exact nodup_push h.keys_nodup hmem
  allocation := by
    intro a ha
    by_cases hmem : key ∈ p.keys
    . rw [opened_enter_of_mem hmem] at ha
      obtain ⟨b, hb, rfl⟩ := List.mem_map.mp ha
      unfold Allocation.addAt
      split
      . next hkey => exact (h.allocation b hb).add hadmits.mem (hadmits.fresh b hb hkey)
      . exact h.allocation b hb
    . rw [opened_enter_of_not_mem hmem] at ha
      rcases List.mem_append.mp ha with ha | ha
      . exact h.allocation a ha
      . rw [List.mem_singleton.mp ha]
        exact Allocation.regular_opened hadmits.mem ..
  used_eq := by
    intro tile
    rw [used_enter, load_enter h.keys_nodup, h.used_eq tile]
    simp
  used_le := by
    intro tile
    have hle := h.used_le tile
    have hroom := hadmits.room
    rw [used_enter]
    split
    . next htile =>
      subst htile
      simp only [hasRoom, decide_eq_true_eq] at hroom
      omega
    . omega
  ids_eq := fun hlevel => (hoffers hlevel).ids_enter (h.ids_eq hlevel)

/--
What a request makes of a pool: it puts no op on any channel, or it puts one on a channel that is
there for it.
-/
inductive Outcome (g : Graph) (t : Target) (p : ChannelPool) : ChannelPool → Prop where
  | idle (s : InterfaceSlots) : Outcome g t p { p with slots := s }
  | entered (s : InterfaceSlots) {occ : Occurrence} {key : ChannelKey} (partner : Option Coord)
    (hadmits : p.Admits g t occ key) (hoffers : p.level ≠ .external → p.Offers t key) :
    Outcome g t p ({ p with slots := s }.enter occ key partner)

theorem Outcome.of_slots {s : InterfaceSlots} (h : Outcome g t { p with slots := s } p') :
    Outcome g t p p' := by
  cases h with
  | idle s' => exact .idle s'
  | entered s' partner hadmits hoffers =>
    exact .entered s' partner ⟨hadmits.mem, hadmits.room, hadmits.fresh⟩ hoffers

theorem Outcome.regular (h : Outcome g t p p') (hp : p.Regular g t level) :
    p'.Regular g t level := by
  cases h with
  | idle s => exact hp.of_slots s
  | entered s partner hadmits hoffers =>
    rw [hp.level_eq] at hoffers
    exact (hp.of_slots s).enter ⟨hadmits.mem, hadmits.room, hadmits.fresh⟩ hoffers

/--
A request comes to an outcome if it is granted, and changes nothing if it is refused.
-/
def Settles (g : Graph) (t : Target) (p : ChannelPool) :
    EStateM.Result CompileError ChannelPool ChannelKey → Prop
  | .ok _ p' => Outcome g t p p'
  | .error _ p' => p' = p

theorem commit_settles (h : p.keys.Nodup) (hocc : occ ∈ g.occurrences)
    (partner : Option Coord) (key : ChannelKey)
    (hoffers : p.level ≠ .external → p.Offers t key) :
    Settles g t p (commit t occ key partner p) := by
  unfold commit
  split
  . exact .idle p.slots
  . next hlisted =>
    split
    . next hroom =>
      refine .entered p.slots partner ⟨hocc, hroom, ?_⟩ hoffers
      intro a ha hkey o ho href
      subst hkey
      apply hlisted
      rw [get?_of_mem h ha, Option.any_some, List.any_eq_true]
      exact ⟨o, ho, by simpa using href⟩
    . rfl

theorem join_settles (h : p.keys.Nodup) (hocc : occ ∈ g.occurrences) (key : ChannelKey) :
    Settles g t p (join t occ key p) := by
  unfold join
  split
  . next hopen => exact commit_settles h hocc _ _ fun _ => .inl (get?_isSome_iff.mp hopen)
  . rfl

theorem serve_settles (h : p.keys.Nodup) (hocc : occ ∈ g.occurrences) (tile : Coord)
    (preferred : Option Nat) : Settles g t p (serve t occ tile preferred p) := by
  unfold serve
  split
  . rfl
  . split
    . rfl
    . next d _ =>
      split
      . exact .idle p.slots
      . split
        . next a hpreferred =>
          obtain ⟨id, _, hget⟩ := Option.bind_eq_some_iff.mp hpreferred
          obtain ⟨hopen, _⟩ := mem_of_get?_eq_some hget
          exact commit_settles h hocc _ _ fun _ => .inl (List.mem_map_of_mem hopen)
        . dsimp only
          split
          . rfl
          . next hzero =>
            split
            . rfl
            . next id hid =>
              have hturn := remainder_eq_ok hid
              exact commit_settles h hocc _ _ fun _ => .inr ⟨Nat.pos_of_ne_zero hzero, hturn⟩

theorem commit_of_hasRoom (h : p.hasRoom t key.tile = true) (occ : Occurrence)
    (partner : Option Coord) : ∃ p', commit t occ key partner p = .ok key p' := by
  unfold commit
  rw [if_pos h]
  split
  . exact ⟨p, rfl⟩
  . exact ⟨p.enter occ key partner, rfl⟩

/--
That there is room is checked before the slot is taken, so that no slot is taken in vain.
-/
theorem openInterface_settles (h : p.keys.Nodup) (hocc : occ ∈ g.occurrences) (facing : Coord) :
    Settles g t p (openInterface t occ facing p) := by
  unfold openInterface
  split
  . rfl
  . next d _ =>
    split
    . rfl
    . next hlevel =>
      split
      . rfl
      . next tile id _ =>
        split
        . next hroom =>
          have hkeys : { p with slots := p.slots.advance t d }.keys.Nodup := h
          have hadvanced : { p with slots := p.slots.advance t d }.hasRoom t
              (⟨tile, d, id⟩ : ChannelKey).tile = true := hroom
          obtain ⟨p', hcommit⟩ := commit_of_hasRoom hadvanced occ (some facing)
          have hsettles := commit_settles (t := t) hkeys hocc (some facing) ⟨tile, d, id⟩
            fun hne => absurd hne hlevel
          rw [hcommit] at hsettles ⊢
          exact Outcome.of_slots hsettles
        . rfl

theorem request_settles (h : p.keys.Nodup) (op : Nat) (r : PoolRequest) :
    Settles g t p (request g t op r p) := by
  unfold request
  cases hop : elementAt g.occurrences op with
  | error e => rfl
  | ok occ =>
    have hocc : occ ∈ g.occurrences := List.mem_of_getElem? (elementAt_eq_ok hop)
    cases r with
    | serve tile preferred => exact serve_settles h hocc tile preferred
    | openInterface partner => exact openInterface_settles h hocc partner
    | join key => exact join_settles h hocc key

/-! ### Any number of requests -/

/--
A request that is refused changes nothing.
-/
theorem eq_of_request_eq_error (h : p.keys.Nodup) {op : Nat} {r : PoolRequest} {e : CompileError}
    (herror : request g t op r p = .error e p') : p' = p := by
  have hsettles := request_settles (g := g) (t := t) h op r
  rw [herror] at hsettles
  exact hsettles

theorem Regular.after (h : p.Regular g t level) (r : Nat × PoolRequest) :
    (p.after g t r).Regular g t level := by
  have hsettles := request_settles (g := g) (t := t) h.keys_nodup r.1 r.2
  unfold ChannelPool.after
  split
  . next hok =>
    rw [hok] at hsettles
    exact hsettles.regular h
  . next herror =>
    rw [eq_of_request_eq_error h.keys_nodup herror]
    exact h

theorem Regular.afterAll (h : p.Regular g t level) (rs : List (Nat × PoolRequest)) :
    (p.afterAll g t rs).Regular g t level := by
  induction rs generalizing p with
  | nil => exact h
  | cons r rs ih => exact ih (h.after r)

/--
Pools keep their books in order, whatever is asked of them.
-/
theorem regular_afterAll_empty (g : Graph) (t : Target) (level : Level)
    (rs : List (Nat × PoolRequest)) : ((empty level).afterAll g t rs).Regular g t level :=
  (regular_empty level).afterAll rs

end ChannelPool

end TileTraffic
