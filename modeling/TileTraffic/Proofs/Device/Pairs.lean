import TileTraffic.Proofs.Device.Buffers
import TileTraffic.Proofs.Success

/-!
Lock pairs of a device whose locks are all taken for pairs: there are no other locks, every pair has
locks of its own, and every pair is there for some op that uses its buffer on its channel.
-/

namespace TileTraffic

/--
A buffer, known by its symbol, on a channel: what a pair of locks guards.
-/
structure Slot where
  channel : ChannelKey
  buffer : String
  deriving DecidableEq, Repr, Inhabited

namespace Lock

/--
The lock as actions refer to it.
-/
def ref (l : Lock) : LockRef :=
  ⟨l.tile, l.id⟩

end Lock

namespace LockPolicy

/--
The locks of a pair, with their initial values.
-/
def locksOf (p : LockPolicy) (pair : LockPair) : List Lock :=
  let read : Lock := ⟨pair.read.tile, pair.read.id, p.readInit⟩
  let write : Lock := ⟨pair.write.tile, pair.write.id, p.writeInit⟩
  match p with
  | .binary => [read]
  | .counting => [read, write]

end LockPolicy

namespace Device

variable {d d' : Device} {c : Coord}

theorem tile_eq_ok {n : Nat} (h : tile c d = .ok n d') :
    ∃ tiles index, d' = { d with tiles := tiles, index := index } := by
  unfold tile at h
  split at h
  . obtain ⟨_, rfl⟩ := EStateM.Result.ok.inj h
    exact ⟨d.tiles, d.index, rfl⟩
  . split at h
    . obtain ⟨_, rfl⟩ := EStateM.Result.ok.inj h
      exact ⟨_, _, rfl⟩
    . cases h

theorem newLock_eq_ok {n : Nat} {role : Role} {used : List Nat} {init : Int} {id : Option Nat}
    {found : Nat × Lock} (h : newLock c n role used init id d = .ok found d') :
    ∃ tiles, d' = { d with tiles := tiles, locks := d.locks ++ [⟨c, found.2.id, init⟩] } := by
  unfold newLock at h
  dsimp only at h
  split at h
  . obtain ⟨rfl, rfl⟩ := EStateM.Result.ok.inj h
    exact ⟨_, rfl⟩
  . cases h

/--
Where no id is asked for, a lock is always a new one.
-/
theorem allocateLock_eq_ok {init : Int} {found : Nat × Lock}
    (h : allocateLock c init none d = .ok found d') :
    ∃ tiles index, d' = { d with
      tiles := tiles
      index := index
      locks := d.locks ++ [⟨c, found.2.id, init⟩] } := by
  unfold allocateLock at h
  obtain ⟨n, d₁, htile, h⟩ := run_bind_eq_ok h
  obtain ⟨s, d₂, hget, h⟩ := run_bind_eq_ok h
  obtain ⟨rfl, rfl⟩ := EStateM.Result.ok.inj hget
  obtain ⟨tile, d₃, hrun, h⟩ := run_bind_eq_ok h
  obtain ⟨_, rfl⟩ := run_ofExcept_eq_ok hrun
  obtain ⟨held, d₄, hrun, h⟩ := run_bind_eq_ok h
  obtain ⟨_, rfl⟩ := run_ofExcept_eq_ok hrun
  obtain ⟨tiles, index, rfl⟩ := tile_eq_ok htile
  obtain ⟨tiles', rfl⟩ := newLock_eq_ok h
  exact ⟨tiles', index, rfl⟩

theorem writeLock_eq_ok {read write : Lock} (h : writeLock c read none d = .ok write d') :
    (d.policy = .binary ∧ write = read ∧ d' = d) ∨
      (d.policy = .counting ∧ ∃ tiles index, d' = { d with
        tiles := tiles
        index := index
        locks := d.locks ++ [⟨c, write.id, LockPolicy.counting.writeInit⟩] }) := by
  unfold writeLock at h
  obtain ⟨s, d₁, hget, h⟩ := run_bind_eq_ok h
  obtain ⟨rfl, rfl⟩ := EStateM.Result.ok.inj hget
  dsimp only at h
  have hpolicies : d.policy = .binary ∨ d.policy = .counting := by
    cases d.policy <;> simp
  rcases hpolicies with hpolicy | hpolicy
  . rw [hpolicy] at h
    obtain ⟨rfl, rfl⟩ := EStateM.Result.ok.inj h
    exact .inl ⟨hpolicy, rfl, rfl⟩
  . rw [hpolicy] at h
    obtain ⟨found, d₂, hfound, h⟩ := run_bind_eq_ok h
    obtain ⟨rfl, rfl⟩ := EStateM.Result.ok.inj h
    exact .inr ⟨hpolicy, allocateLock_eq_ok hfound⟩

/--
A pair that is known stays as it is. A new one comes with its locks, on the tile of its channel.
-/
theorem lockPair_eq_ok {buffer : Nat} {channel : ChannelKey} {pair : LockPair}
    (h : lockPair buffer channel none d = .ok pair d') :
    (d.pair? buffer channel = some pair ∧ d' = d) ∨
      (d.pair? buffer channel = none ∧
        (pair.read.tile = channel.tile ∧ pair.write.tile = channel.tile) ∧
        (d.policy = .binary → pair.read = pair.write) ∧
        ∃ tiles index, d' = { d with
          tiles := tiles
          index := index
          locks := d.locks ++ d.policy.locksOf pair
          pairs := d.pairs ++ [((buffer, channel), pair)] }) := by
  unfold lockPair at h
  obtain ⟨s, d₁, hget, h⟩ := run_bind_eq_ok h
  obtain ⟨rfl, rfl⟩ := EStateM.Result.ok.inj hget
  cases hpair : d.pair? buffer channel with
  | some known =>
    rw [hpair] at h
    obtain ⟨rfl, rfl⟩ := EStateM.Result.ok.inj h
    exact .inl ⟨rfl, rfl⟩
  | none =>
    rw [hpair] at h
    obtain ⟨s, d₂, hget, h⟩ := run_bind_eq_ok h
    obtain ⟨rfl, rfl⟩ := EStateM.Result.ok.inj hget
    obtain ⟨read, d₃, hread, h⟩ := run_bind_eq_ok h
    obtain ⟨write, d₄, hwrite, h⟩ := run_bind_eq_ok h
    obtain ⟨_, d₅, hmodify, h⟩ := run_bind_eq_ok h
    obtain ⟨rfl, rfl⟩ := EStateM.Result.ok.inj h
    obtain ⟨_, rfl⟩ := EStateM.Result.ok.inj hmodify
    obtain ⟨tiles, index, rfl⟩ := allocateLock_eq_ok hread
    refine .inr ⟨rfl, ⟨rfl, rfl⟩, ?_, ?_⟩
    . intro hpolicy
      rcases writeLock_eq_ok hwrite with ⟨_, rfl, _⟩ | ⟨hcounting, _⟩
      . rfl
      . cases hpolicy.symm.trans hcounting
    . rcases writeLock_eq_ok hwrite with ⟨hpolicy, rfl, rfl⟩ | ⟨hpolicy, tiles', index', rfl⟩
      . refine ⟨tiles, index, ?_⟩
        simp only [LockPolicy.locksOf, show d.policy = .binary from hpolicy]
      . refine ⟨tiles', index', ?_⟩
        simp only [LockPolicy.locksOf, show d.policy = .counting from hpolicy, List.append_assoc]
        rfl

/--
All locks belong to pairs, on the tiles of their channels, and no channel has two pairs for one
buffer.
-/
structure Stocked (d : Device) : Prop where
  locks_eq : d.locks = d.pairs.flatMap fun x => d.policy.locksOf x.2
  keys_nodup : (d.pairs.map Prod.fst).Nodup
  sits : ∀ x ∈ d.pairs, x.2.read.tile = x.1.2.tile ∧ x.2.write.tile = x.1.2.tile
  merged : d.policy = .binary → ∀ x ∈ d.pairs, x.2.read = x.2.write

theorem mem_pairs_of_pair? {n : Nat} {key : ChannelKey} {pair : LockPair}
    (h : d.pair? n key = some pair) : ((n, key), pair) ∈ d.pairs := by
  obtain ⟨before, after, heq, _⟩ := List.lookup_eq_some_iff.mp h
  rw [heq]
  simp

theorem not_mem_keys_of_pair? {n : Nat} {key : ChannelKey} (h : d.pair? n key = none) :
    (n, key) ∉ d.pairs.map Prod.fst := by
  intro hmem
  obtain ⟨x, hx, hkey⟩ := List.mem_map.mp hmem
  have hne := List.lookup_eq_none_iff.mp h x hx
  simp [hkey] at hne

theorem lockPair_stocked (hd : d.Stocked) {buffer : Nat} {channel : ChannelKey} {pair : LockPair}
    (h : lockPair buffer channel none d = .ok pair d') :
    d'.Stocked ∧ d'.buffers = d.buffers ∧ d'.policy = d.policy ∧
      ∀ x ∈ d'.pairs, x ∈ d.pairs ∨ x.1 = (buffer, channel) := by
  rcases lockPair_eq_ok h with ⟨_, rfl⟩ | ⟨hnone, hsits, hmerged, tiles, index, rfl⟩
  . exact ⟨hd, rfl, rfl, fun _ hx => .inl hx⟩
  . refine ⟨⟨?_, ?_, ?_, ?_⟩, rfl, rfl, ?_⟩
    . rw [List.flatMap_append, ← hd.locks_eq, List.flatMap_singleton]
    . rw [List.map_append]
      exact nodup_push hd.keys_nodup (not_mem_keys_of_pair? hnone)
    . intro x hx
      rcases List.mem_append.mp hx with hx | hx
      . exact hd.sits x hx
      . rw [List.mem_singleton.mp hx]
        exact hsits
    . intro hpolicy x hx
      rcases List.mem_append.mp hx with hx | hx
      . exact hd.merged hpolicy x hx
      . rw [List.mem_singleton.mp hx]
        exact hmerged hpolicy
    . intro x hx
      rcases List.mem_append.mp hx with hx | hx
      . exact .inl hx
      . rw [List.mem_singleton.mp hx]
        exact .inr rfl

theorem intern_eq (key : BufferKey) (decl : BufferDecl) (tile : Option Coord) :
    ∃ buffers, (d.intern key decl tile).2 = { d with buffers := buffers } := by
  unfold intern
  split
  . exact ⟨d.buffers, rfl⟩
  . exact ⟨_, rfl⟩

/--
The buffer at a position is the one that an op accesses on a channel.
-/
def Holds (d : Device) (a : Allocation) (occ : Occurrence) (n : Nat) : Prop :=
  ∃ access b, occ.op.accessAt? a.level = some access ∧
    d.buffers[n]? = some ((bufferKey access.buffer a.level occ.ref a.key.tile).1, b)

variable {g : Graph} {a : Allocation} {occ : Occurrence} {n : Nat}

theorem bindBuffer_eq_ok (hd : d.Interned) (h : d.bindBuffer g a occ = .ok (n, d')) :
    d'.Interned ∧ (∀ (m : Nat) x, d.buffers[m]? = some x → d'.buffers[m]? = some x) ∧
      d'.Holds a occ n ∧ ∃ buffers, d' = { d with buffers := buffers } := by
  unfold bindBuffer at h
  split at h
  . cases h
  . next access haccess =>
    split at h
    . cases h
    . next decl hdecl =>
      have hname : decl.name = access.buffer := by
        simpa using List.find?_some hdecl
      dsimp only at h
      rw [hname] at h
      obtain hok := Except.ok.inj h
      generalize hkey : bufferKey access.buffer a.level occ.ref a.key.tile = kh at hok
      obtain ⟨key, home⟩ := kh
      dsimp only at hok
      obtain ⟨hinterned, hkept, b, hb⟩ := intern_interned hd key decl home
      have heq := intern_eq (d := d) key decl home
      rw [hok] at hinterned hkept hb heq
      refine ⟨hinterned, hkept, ⟨access, b, haccess, ?_⟩, heq⟩
      rw [hkey]
      exact hb

/--
The work that has been done has left no lock without a pair and no pair without an op, and every
binding is that of an op to the buffer it accesses.
-/
structure Wired (d : Device) (bindings : Bindings) (work : List (Allocation × Occurrence)) :
    Prop where
  interned : d.Interned
  stocked : d.Stocked
  bound : ∀ key ref n, ((key, ref), n) ∈ bindings →
    ∃ w ∈ work, w.1.key = key ∧ w.2.ref = ref ∧ d.Holds w.1 w.2 n
  used : ∀ x ∈ d.pairs, ∃ ref, ((x.1.2, ref), x.1.1) ∈ bindings

theorem Holds.grow (h : d.Holds a occ n)
    (hkept : ∀ (m : Nat) x, d.buffers[m]? = some x → d'.buffers[m]? = some x) :
    d'.Holds a occ n := by
  obtain ⟨access, b, haccess, hb⟩ := h
  exact ⟨access, b, haccess, hkept n _ hb⟩

theorem guardOp_wired {bindings : Bindings} {work : List (Allocation × Occurrence)}
    (hd : d.Wired bindings work) {s : Device × Bindings}
    (h : guardOp g (d, bindings) (a, occ) = .ok s) :
    s.1.Wired s.2 (work ++ [(a, occ)]) ∧ s.1.policy = d.policy := by
  unfold guardOp at h
  dsimp only at h
  obtain ⟨⟨_, d₁⟩, htile, h⟩ := bind_eq_ok h
  obtain ⟨⟨n, d₂⟩, hbind, h⟩ := bind_eq_ok h
  obtain ⟨⟨pair, d₃⟩, hpair, h⟩ := bind_eq_ok h
  obtain rfl := Except.ok.inj h
  obtain ⟨tiles, index, rfl⟩ := tile_eq_ok (attempt_eq_ok htile)
  have h₁ : { d with tiles := tiles, index := index }.Interned :=
    ⟨hd.interned.keys_nodup, hd.interned.symbol_eq⟩
  obtain ⟨h₂, hkept, hholds, buffers, heq⟩ := bindBuffer_eq_ok h₁ hbind
  have hsame : d₂.pairs = d.pairs ∧ d₂.policy = d.policy := by
    rw [heq]
    exact ⟨rfl, rfl⟩
  have hstocked₂ : d₂.Stocked := by
    rw [heq]
    exact ⟨hd.stocked.locks_eq, hd.stocked.keys_nodup, hd.stocked.sits, hd.stocked.merged⟩
  obtain ⟨hstocked, hbuffers, hpolicy, hpairs⟩ := lockPair_stocked hstocked₂ (attempt_eq_ok hpair)
  -- the lock pair leaves the buffers as they are
  have hkept' : ∀ (m : Nat) x, d₂.buffers[m]? = some x → d₃.buffers[m]? = some x := by
    rw [hbuffers]
    exact fun _ _ hx => hx
  refine ⟨⟨?_, hstocked, ?_, ?_⟩, hpolicy.trans hsame.2⟩
  . constructor
    . rw [hbuffers]
      exact h₂.keys_nodup
    . rw [hbuffers]
      exact h₂.symbol_eq
  . intro key ref m hm
    rcases List.mem_cons.mp hm with heq | hm
    . obtain ⟨hkr, rfl⟩ := Prod.mk.inj heq
      obtain ⟨rfl, rfl⟩ := Prod.mk.inj hkr
      exact ⟨(a, occ), by simp, rfl, rfl, hholds.grow hkept'⟩
    . obtain ⟨w, hw, hkey, href, hold⟩ := hd.bound key ref m hm
      exact ⟨w, by simp [hw], hkey, href, (hold.grow hkept).grow hkept'⟩
  . intro x hx
    rcases hpairs x hx with hx | hkey
    . rw [hsame.1] at hx
      obtain ⟨ref, href⟩ := hd.used x hx
      exact ⟨ref, List.mem_cons_of_mem _ href⟩
    . refine ⟨occ.ref, ?_⟩
      rw [hkey]
      exact List.mem_cons_self

theorem guardAll_wired {as : List Allocation} (hd : d.Interned) (hlocks : d.locks = [])
    (hpairs : d.pairs = []) {s : Device × Bindings} (h : d.guardAll g as = .ok s) :
    s.1.Wired s.2 (workOf as) ∧ s.1.policy = d.policy := by
  apply foldlM_eq_ok (fun done (s : Device × Bindings) =>
    s.1.Wired s.2 done ∧ s.1.policy = d.policy) h
  . refine ⟨⟨hd, ⟨?_, ?_, ?_, ?_⟩, ?_, ?_⟩, rfl⟩
    all_goals simp [hlocks, hpairs]
  . intro done w rest s s' _ ⟨hs, hpolicy⟩ hstep
    obtain ⟨hs', hsame⟩ := guardOp_wired hs hstep
    exact ⟨hs', hsame.trans hpolicy⟩

/-! ### The slots of a device -/

def symbolAt (d : Device) (n : Nat) : String :=
  ((d.buffer? n).map Buffer.symbol).getD ""

def slotAt (d : Device) (n : Nat) (key : ChannelKey) : Slot :=
  ⟨key, d.symbolAt n⟩

/--
The slots that have locks, with their pairs.
-/
def slots (d : Device) : List (Slot × LockPair) :=
  d.pairs.map fun x => (d.slotAt x.1.1 x.1.2, x.2)

theorem symbolAt_eq {buffer : Buffer} (h : d.buffer? n = some buffer) :
    d.symbolAt n = buffer.symbol := by
  unfold symbolAt
  rw [h]
  rfl

theorem Holds.symbolAt_eq (h : d.Holds a occ n) (hd : d.Interned) :
    ∃ access, occ.op.accessAt? a.level = some access ∧
      d.symbolAt n = (bufferKey access.buffer a.level occ.ref a.key.tile).1.symbol := by
  obtain ⟨access, b, haccess, hb⟩ := h
  refine ⟨access, haccess, ?_⟩
  have hbuffer : d.buffer? n = some b := by
    unfold buffer?
    rw [hb]
    rfl
  rw [Device.symbolAt_eq hbuffer, hd.symbol_eq _ (List.mem_of_getElem? hb)]

/--
On one channel, a symbol stands for one buffer.
-/
theorem Holds.index_inj {occ' : Occurrence} {n' : Nat} (h : d.Holds a occ n)
    (h' : d.Holds a occ' n') (hd : d.Interned) (heq : d.symbolAt n = d.symbolAt n') : n = n' := by
  obtain ⟨access, haccess, hsymbol⟩ := h.symbolAt_eq hd
  obtain ⟨access', haccess', hsymbol'⟩ := h'.symbolAt_eq hd
  rw [hsymbol, hsymbol'] at heq
  have hkey := bufferKey_eq_of_symbol_eq heq
  obtain ⟨found, b, hfound, hb⟩ := h
  obtain ⟨found', b', hfound', hb'⟩ := h'
  obtain rfl : found = access := by simpa [hfound] using haccess
  obtain rfl : found' = access' := by simpa [hfound'] using haccess'
  exact hd.index_inj hb hb' hkey

/--
On one channel, an op uses one buffer.
-/
theorem Holds.unique {n' : Nat} (h : d.Holds a occ n) (h' : d.Holds a occ n') (hd : d.Interned) :
    n = n' := by
  obtain ⟨access, haccess, hsymbol⟩ := h.symbolAt_eq hd
  obtain ⟨access', haccess', hsymbol'⟩ := h'.symbolAt_eq hd
  obtain rfl : access = access' := by simpa [haccess] using haccess'
  exact h.index_inj h' hd (hsymbol.trans hsymbol'.symm)

namespace Wired

variable {bindings : Bindings} {as : List Allocation}

theorem holds (h : d.Wired bindings (workOf as)) (hkeys : (as.map Allocation.key).Nodup)
    (ha : a ∈ as) {ref : Nat} (hn : ((a.key, ref), n) ∈ bindings) :
    ∃ occ ∈ a.ops, occ.ref = ref ∧ d.Holds a occ n := by
  obtain ⟨⟨b, occ⟩, hw, hkey, href, hholds⟩ := h.bound _ _ _ hn
  obtain ⟨hb, hocc⟩ := mem_workOf.mp hw
  obtain rfl := eq_of_nodup_map hkeys hb ha hkey
  exact ⟨occ, hocc, href, hholds⟩

theorem exists_op (h : d.Wired bindings (workOf as)) {x : (Nat × ChannelKey) × LockPair}
    (hx : x ∈ d.pairs) : ∃ a ∈ as, a.key = x.1.2 ∧ ∃ occ ∈ a.ops,
      ((a.key, occ.ref), x.1.1) ∈ bindings ∧ d.Holds a occ x.1.1 := by
  obtain ⟨ref, href⟩ := h.used x hx
  obtain ⟨⟨a, occ⟩, hw, hkey, rfl, hholds⟩ := h.bound _ _ _ href
  obtain ⟨ha, hocc⟩ := mem_workOf.mp hw
  dsimp only at hkey
  rw [← hkey] at href
  exact ⟨a, ha, hkey, occ, hocc, href, hholds⟩

theorem slots_nodup (h : d.Wired bindings (workOf as)) (hkeys : (as.map Allocation.key).Nodup) :
    (d.slots.map Prod.fst).Nodup := by
  unfold slots
  rw [List.map_map]
  apply nodup_map_of_imp h.stocked.keys_nodup
  intro x hx y hy heq
  obtain ⟨hkey, hsymbol⟩ := Slot.mk.inj heq
  obtain ⟨a, ha, hax, occ, _, _, hholds⟩ := h.exists_op hx
  obtain ⟨b, hb, hby, occ', _, _, hholds'⟩ := h.exists_op hy
  obtain rfl : a = b := eq_of_nodup_map hkeys ha hb (hax.trans (hkey.trans hby.symm))
  have hindex := hholds.index_inj hholds' h.interned hsymbol
  exact Prod.ext hindex hkey

end Wired

end Device

end TileTraffic
