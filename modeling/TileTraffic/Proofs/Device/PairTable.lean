import TileTraffic.Proofs.Device.Requests

/-!
The table of lock pairs. A pair is recorded when both of its locks are there, and is given out from
then on, whatever ids are asked for. Locks that have been asked for by their ids may be shared; other
locks are new ones, whatever has been shared before.
-/

namespace TileTraffic

namespace Device

open History

variable {α β : Type} {d d' d'' : Device} {c : Coord} {channel : ChannelKey} {id : Option Nat}
  {lock : Lock} {pair : LockPair}

/-! ### What leaves the table alone -/

/--
However the computation ends, the lock pairs are what they were.
-/
def Spares (x : EStateM CompileError Device α) : Prop :=
  ∀ d, match x d with
    | .ok _ d' => d'.pairs = d.pairs
    | .error _ d' => d'.pairs = d.pairs

namespace Spares

variable {x : EStateM CompileError Device α}

theorem of_ok (h : Spares x) {a : α} (hx : x d = .ok a d') : d'.pairs = d.pairs := by
  have hd := h d
  rw [hx] at hd
  exact hd

theorem of_error (h : Spares x) {e : CompileError} (hx : x d = .error e d') :
    d'.pairs = d.pairs := by
  have hd := h d
  rw [hx] at hd
  exact hd

theorem pure (a : α) : Spares (Pure.pure a) :=
  fun _ => rfl

theorem get : Spares MonadState.get :=
  fun _ => rfl

theorem throw (e : CompileError) : Spares (MonadExcept.throw e : EStateM CompileError Device α) :=
  fun _ => rfl

theorem ofExcept (y : Except CompileError α) :
    Spares (MonadExcept.ofExcept y : EStateM CompileError Device α) := by
  cases y with
  | ok a => exact pure a
  | error e => exact throw e

theorem bind {f : α → EStateM CompileError Device β} (hx : Spares x) (hf : ∀ a, Spares (f a)) :
    Spares (x >>= f) := by
  intro d
  cases hrun : x d with
  | error e d' =>
    rw [run_bind_of_eq_error hrun]
    exact hx.of_error hrun
  | ok a d' =>
    rw [run_bind_of_eq_ok hrun, ← hx.of_ok hrun]
    exact hf a d'

end Spares

theorem tile_spares (c : Coord) : Spares (tile c) := by
  intro d
  unfold tile
  cases d.tileIndex? c with
  | some n => rfl
  | none =>
    dsimp only
    by_cases hcontains : d.target.contains c = true
    . rw [if_pos hcontains]
      rfl
    . rw [if_neg hcontains]

theorem newLock_spares (c : Coord) (n : Nat) (role : Role) (used : List Nat) (init : Int)
    (id : Option Nat) : Spares (newLock c n role used init id) := by
  intro d
  unfold newLock
  dsimp only
  generalize id.getD _ = m
  by_cases hlt : m < (d.target.budget role).locks
  . rw [if_pos hlt]
    rfl
  . rw [if_neg hlt]

theorem allocateLock_spares (c : Coord) (init : Int) (id : Option Nat) :
    Spares (allocateLock c init id) := by
  unfold allocateLock
  apply (tile_spares c).bind
  intro n
  apply Spares.get.bind
  intro d
  apply (Spares.ofExcept _).bind
  intro tile
  apply (Spares.ofExcept _).bind
  intro held
  split
  . exact Spares.pure _
  . exact newLock_spares c n _ _ init id

theorem writeLock_spares (c : Coord) (read : Lock) (id : Option Nat) :
    Spares (writeLock c read id) := by
  unfold writeLock
  apply Spares.get.bind
  intro d
  dsimp only
  split
  . exact Spares.pure _
  . split
    . exact (allocateLock_spares c _ _).bind fun _ => Spares.pure _
    . split
      . exact (allocateLock_spares c _ _).bind fun _ => Spares.pure _
      . exact Spares.throw _

/-! ### Taking locks -/

/--
The locks of the device, as actions refer to them.
-/
def refs (d : Device) : List LockRef :=
  d.locks.map Lock.ref

theorem Extends.refs (h : d.Extends d') : d.refs ⊆ d'.refs :=
  List.map_subset Lock.ref h.locks.subset

theorem mem_refs_iff {n : Nat} : ⟨c, n⟩ ∈ d.refs ↔ n ∈ d.lockIds c := by
  unfold refs lockIds
  rw [List.mem_map, List.mem_map]
  constructor
  . rintro ⟨lock, hlock, href⟩
    obtain ⟨rfl, rfl⟩ := LockRef.mk.inj href
    exact ⟨lock, List.mem_filter.mpr ⟨hlock, decide_eq_true rfl⟩, rfl⟩
  . rintro ⟨lock, hlock, rfl⟩
    obtain ⟨hmem, htile⟩ := List.mem_filter.mp hlock
    obtain rfl := of_decide_eq_true htile
    exact ⟨lock, hmem, rfl⟩

/--
A lock that has been allocated at `c`: the one with the id that was asked for, or a new one.
-/
structure Allotted (c : Coord) (id : Option Nat) (d d' : Device) (lock : Lock) : Prop where
  tile_eq : lock.tile = c
  mem : lock.ref ∈ d'.refs
  id_eq : ∀ n, id = some n → lock.id = n
  fresh : id = none → lock.ref ∉ d.refs

theorem ref_mem_refs_addLock {n : Nat} : lock.ref ∈ (d.addLock n lock).refs := by
  unfold refs addLock
  simp

theorem newLock_allotted {n : Nat} {role : Role} {init : Int} {found : Nat × Lock}
    (h : newLock c n role (d.lockIds c) init id d = .ok found d') :
    Allotted c id d d' found.2 := by
  cases id with
  | none =>
    rw [newLock_none] at h
    cases hfirst : firstBelow (d.target.budget role).locks fun n => n ∉ d.lockIds c with
    | none =>
      rw [hfirst] at h
      cases h
    | some m =>
      rw [hfirst] at h
      obtain ⟨rfl, rfl⟩ := EStateM.Result.ok.inj h
      refine ⟨rfl, ref_mem_refs_addLock, fun _ h => (nomatch h), fun _ => ?_⟩
      rw [Lock.ref, mem_refs_iff]
      exact of_decide_eq_true (firstBelow_eq_some hfirst).2
  | some m =>
    unfold newLock at h
    dsimp only [Option.getD_some] at h
    split at h
    . obtain ⟨rfl, rfl⟩ := EStateM.Result.ok.inj h
      exact ⟨rfl, ref_mem_refs_addLock, fun _ hk => Option.some.inj hk, fun h => nomatch h⟩
    . cases h

theorem lockAt_allotted {n : Nat} {init : Int} {found : Nat × Lock}
    (h : lockAt c n init id d = .ok found d') : Allotted c id d d' found.2 := by
  unfold lockAt at h
  cases hfind : id.bind fun id => (d.locksAt c).find? fun x => x.2.id = id with
  | some known =>
    rw [hfind] at h
    obtain ⟨rfl, rfl⟩ := EStateM.Result.ok.inj h
    obtain ⟨m, rfl, hknown⟩ := Option.bind_eq_some_iff.mp hfind
    obtain ⟨hlock, htile⟩ := mem_locksAt.mp (List.mem_of_find?_eq_some hknown)
    have hid := List.find?_some hknown
    refine ⟨htile, List.mem_map_of_mem (List.mem_of_getElem? hlock), ?_, fun h => nomatch h⟩
    intro k hk
    rw [← Option.some.inj hk]
    exact of_decide_eq_true hid
  | none =>
    rw [hfind] at h
    exact newLock_allotted h

theorem allocateLock_allotted (h : d.Sound) {init : Int} {found : Nat × Lock}
    (hok : allocateLock c init id d = .ok found d') : Allotted c id d d' found.2 := by
  rw [allocateLock_eq h] at hok
  obtain ⟨n, d₁, htile, hok⟩ := run_bind_eq_ok hok
  obtain ⟨tiles, index, rfl⟩ := tile_eq_ok htile
  obtain ⟨htile, hmem, hid, hfresh⟩ := lockAt_allotted hok
  exact ⟨htile, hmem, hid, hfresh⟩

theorem writeLock_allotted (h : d.Sound) {read write : Lock}
    (hok : writeLock c read id d = .ok write d') :
    (d.policy = .binary ∧ write = read ∧ d' = d) ∨
      d.policy = .counting ∧ Allotted c (id.map (· + 1)) d d' write := by
  unfold writeLock at hok
  obtain ⟨s, d₁, hget, hok⟩ := run_bind_eq_ok hok
  obtain ⟨rfl, rfl⟩ := EStateM.Result.ok.inj hget
  dsimp only at hok
  cases hpolicy : d.policy with
  | binary =>
    rw [hpolicy] at hok
    obtain ⟨rfl, rfl⟩ := EStateM.Result.ok.inj hok
    exact .inl ⟨rfl, rfl, rfl⟩
  | counting =>
    rw [hpolicy] at hok
    refine .inr ⟨rfl, ?_⟩
    cases id with
    | none =>
      obtain ⟨found, d₂, hfound, hok⟩ := run_bind_eq_ok hok
      obtain ⟨rfl, rfl⟩ := EStateM.Result.ok.inj hok
      exact allocateLock_allotted h hfound
    | some m =>
      dsimp only at hok
      split at hok
      . obtain ⟨found, d₂, hfound, hok⟩ := run_bind_eq_ok hok
        obtain ⟨rfl, rfl⟩ := EStateM.Result.ok.inj hok
        exact allocateLock_allotted h hfound
      . cases hok

/--
The locks of a new pair, on the tile of the channel.
-/
def takeLocks (channel : ChannelKey) (id : Option Nat) : EStateM CompileError Device LockPair := do
  let read ← allocateLock channel.tile (← get).policy.readInit id
  let write ← writeLock channel.tile read.2 id
  return ⟨⟨channel.tile, read.2.id⟩, ⟨channel.tile, write.id⟩⟩

def record (d : Device) (buffer : Nat) (channel : ChannelKey) (pair : LockPair) : Device :=
  { d with pairs := d.pairs ++ [((buffer, channel), pair)] }

/--
A pair is looked up. Where there is none, it is recorded as soon as it has its locks.
-/
theorem lockPair_eq (buffer : Nat) (channel : ChannelKey) (id : Option Nat) (d : Device) :
    lockPair buffer channel id d =
      match d.pair? buffer channel with
      | some pair => .ok pair d
      | none =>
        match takeLocks channel id d with
        | .ok pair d' => .ok pair (d'.record buffer channel pair)
        | .error e d' => .error e d' := by
  have hget : (MonadState.get : EStateM CompileError Device Device) d = .ok d d := rfl
  unfold lockPair takeLocks
  rw [run_bind_of_eq_ok hget, run_bind_of_eq_ok hget]
  cases d.pair? buffer channel with
  | some pair => rfl
  | none =>
    dsimp only
    rw [run_bind_of_eq_ok hget]
    cases hread : allocateLock channel.tile d.policy.readInit id d with
    | error e d₁ => rw [run_bind_of_eq_error hread, run_bind_of_eq_error hread]
    | ok read d₁ =>
      rw [run_bind_of_eq_ok hread, run_bind_of_eq_ok hread]
      cases hwrite : writeLock channel.tile read.2 id d₁ with
      | error e d₂ => rw [run_bind_of_eq_error hwrite, run_bind_of_eq_error hwrite]
      | ok write d₂ =>
        rw [run_bind_of_eq_ok hwrite, run_bind_of_eq_ok hwrite]
        rfl

theorem takeLocks_spares (channel : ChannelKey) (id : Option Nat) :
    Spares (takeLocks channel id) := by
  unfold takeLocks
  apply Spares.get.bind
  intro d
  apply (allocateLock_spares channel.tile _ id).bind
  intro read
  exact (writeLock_spares channel.tile read.2 id).bind fun _ => Spares.pure _

/--
The pair is made of locks on the tile of the channel, two of them under the counting policy and one
under the binary one.
-/
structure Backed (d : Device) (channel : ChannelKey) (pair : LockPair) : Prop where
  read_tile : pair.read.tile = channel.tile
  write_tile : pair.write.tile = channel.tile
  read_mem : pair.read ∈ d.refs
  write_mem : pair.write ∈ d.refs
  merged_iff : pair.read = pair.write ↔ d.policy = .binary

theorem Backed.mono (h : d.Backed channel pair) (hext : d.Extends d') : d'.Backed channel pair where
  read_tile := h.read_tile
  write_tile := h.write_tile
  read_mem := hext.refs h.read_mem
  write_mem := hext.refs h.write_mem
  merged_iff := by
    rw [hext.policy]
    exact h.merged_iff

theorem Backed.record {buffer : Nat} (h : d.Backed channel pair) :
    (d.record buffer channel pair).Backed channel pair where
  read_tile := h.read_tile
  write_tile := h.write_tile
  read_mem := h.read_mem
  write_mem := h.write_mem
  merged_iff := h.merged_iff

theorem Allotted.ref_eq (h : Allotted c id d d' lock) : lock.ref = ⟨c, lock.id⟩ := by
  rw [Lock.ref, h.tile_eq]

/--
The two locks of a counting pair differ: the ids that were asked for do, or the write lock is new
after the read lock is there.
-/
theorem Allotted.ref_ne {read write : Lock} (hread : Allotted c id d d' read)
    (hwrite : Allotted c (id.map (· + 1)) d' d'' write) : read.ref ≠ write.ref := by
  intro heq
  cases id with
  | none =>
    apply hwrite.fresh rfl
    rw [← heq]
    exact hread.mem
  | some n =>
    have hid : read.id = write.id := congrArg LockRef.id heq
    rw [hread.id_eq n rfl, hwrite.id_eq (n + 1) rfl] at hid
    omega

theorem takeLocks_eq_ok (h : d.Sound) (hok : takeLocks channel id d = .ok pair d') :
    d'.Backed channel pair ∧ (id = none → pair.read ∉ d.refs ∧ pair.write ∉ d.refs) := by
  unfold takeLocks at hok
  obtain ⟨_, _, hget, hok⟩ := run_bind_eq_ok hok
  obtain ⟨rfl, rfl⟩ := EStateM.Result.ok.inj hget
  obtain ⟨read, d₁, hrun, hok⟩ := run_bind_eq_ok hok
  obtain ⟨write, d₂, hrun', hok⟩ := run_bind_eq_ok hok
  obtain ⟨rfl, rfl⟩ := EStateM.Result.ok.inj hok
  have hread := allocateLock_allotted h hrun
  obtain ⟨hkept, hc⟩ := (allocateLock_keeps h _ _ _).of_ok hrun
  obtain ⟨hkept', _⟩ := (writeLock_keeps hkept.sound hc read.2 id).of_ok hrun'
  have hmem := hread.mem
  have hfresh := hread.fresh
  rw [hread.ref_eq] at hmem hfresh
  rcases writeLock_allotted hkept.sound hrun' with ⟨hpolicy, rfl, rfl⟩ | ⟨hpolicy, hwrite⟩
  . refine ⟨⟨rfl, rfl, hmem, hmem, iff_of_true rfl hpolicy⟩, fun hnone => ?_⟩
    exact ⟨hfresh hnone, hfresh hnone⟩
  . have hmem' := hwrite.mem
    have hfresh' := hwrite.fresh
    have hne := hread.ref_ne hwrite
    rw [hwrite.ref_eq] at hmem' hfresh' hne
    rw [hread.ref_eq] at hne
    refine ⟨⟨rfl, rfl, hkept'.ext.refs hmem, hmem', iff_of_false hne ?_⟩, fun hnone => ?_⟩
    . rw [hkept'.ext.policy, hpolicy]
      exact fun h => nomatch h
    . refine ⟨hfresh hnone, fun hold => hfresh' ?_ (hkept.ext.refs hold)⟩
      rw [hnone]
      rfl

/-! ### Any number of requests -/

theorem lockPair_of_pair? {buffer : Nat} (h : d.pair? buffer channel = some pair)
    (id : Option Nat) : lockPair buffer channel id d = .ok pair d := by
  rw [lockPair_eq, h]

theorem pair?_of_pairs_eq {buffer : Nat} (hnone : d.pair? buffer channel = none)
    (h : d'.pairs = d.pairs ++ [((buffer, channel), pair)]) :
    d'.pair? buffer channel = some pair := by
  unfold pair? at *
  rw [h, List.lookup_append, hnone]
  simp

/--
A pair is recorded only when it is granted.
-/
theorem lockPair_eq_error {buffer : Nat} {e : CompileError}
    (h : lockPair buffer channel id d = .error e d') : d'.pairs = d.pairs := by
  rw [lockPair_eq] at h
  cases hpair : d.pair? buffer channel with
  | some pair =>
    rw [hpair] at h
    cases h
  | none =>
    rw [hpair] at h
    cases hrun : takeLocks channel id d with
    | ok pair d₁ =>
      rw [hrun] at h
      cases h
    | error e' d₁ =>
      rw [hrun] at h
      obtain ⟨_, rfl⟩ := EStateM.Result.error.inj h
      exact (takeLocks_spares channel id).of_error hrun

theorem lockPair_granted (h : d.Sound) {buffer : Nat}
    (hok : lockPair buffer channel id d = .ok pair d') :
    (d.pair? buffer channel = some pair ∧ d' = d) ∨
      d.pair? buffer channel = none ∧ d'.pairs = d.pairs ++ [((buffer, channel), pair)] ∧
        d'.Backed channel pair ∧ (id = none → pair.read ∉ d.refs ∧ pair.write ∉ d.refs) := by
  rw [lockPair_eq] at hok
  cases hpair : d.pair? buffer channel with
  | some known =>
    rw [hpair] at hok
    obtain ⟨rfl, rfl⟩ := EStateM.Result.ok.inj hok
    exact .inl ⟨rfl, rfl⟩
  | none =>
    rw [hpair] at hok
    cases hrun : takeLocks channel id d with
    | error e d₁ =>
      rw [hrun] at hok
      cases hok
    | ok taken d₁ =>
      rw [hrun] at hok
      obtain ⟨rfl, rfl⟩ := EStateM.Result.ok.inj hok
      obtain ⟨hbacked, hfresh⟩ := takeLocks_eq_ok h hrun
      refine .inr ⟨rfl, ?_, hbacked.record, hfresh⟩
      unfold record
      rw [(takeLocks_spares channel id).of_ok hrun]

theorem Spares.after {r : DeviceRequest} (h : Spares (request r)) :
    (after request d r).pairs = d.pairs := by
  unfold History.after
  cases hrun : request r d with
  | ok a d' => exact h.of_ok hrun
  | error e d' => exact h.of_error hrun

/--
A request records the pair that it is for, or it leaves the table alone.
-/
theorem pairs_after (h : d.Sound) (r : DeviceRequest) : (after request d r).pairs = d.pairs ∨
    ∃ buffer channel pair, (after request d r).pairs = d.pairs ++ [((buffer, channel), pair)] ∧
      (after request d r).Backed channel pair := by
  cases r with
  | tile c =>
    have hspares : Spares (request (.tile c)) := (tile_spares c).bind fun _ => Spares.pure _
    exact .inl hspares.after
  | lock c init id =>
    have hspares : Spares (request (.lock c init id)) :=
      (allocateLock_spares c init id).bind fun _ => Spares.pure _
    exact .inl hspares.after
  | buffer key decl tile =>
    left
    obtain ⟨buffers, heq⟩ := intern_eq (d := d) key decl tile
    show (d.intern key decl tile).2.pairs = d.pairs
    rw [heq]
  | home buffer tile => exact .inl rfl
  | pair buffer channel id =>
    cases hrun : lockPair buffer channel id d with
    | error e d' =>
      left
      have hrequest : request (.pair buffer channel id) d = .error e d' := run_bind_of_eq_error hrun
      rw [after_of_error hrequest]
      exact lockPair_eq_error hrun
    | ok pair d' =>
      have hrequest : request (.pair buffer channel id) d = .ok () d' := run_bind_of_eq_ok hrun
      rw [after_of_ok hrequest]
      rcases lockPair_granted h hrun with ⟨_, rfl⟩ | ⟨_, hpairs, hbacked, _⟩
      . exact .inl rfl
      . exact .inr ⟨buffer, channel, pair, hpairs, hbacked⟩

theorem backed_after (h : d.InUse) (hd : ∀ x ∈ d.pairs, d.Backed x.1.2 x.2) (r : DeviceRequest) :
    ∀ x ∈ (after request d r).pairs, (after request d r).Backed x.1.2 x.2 := by
  obtain ⟨_, hext, _⟩ := h.after r
  intro x hx
  rcases pairs_after h.sound r with hpairs | ⟨buffer, channel, pair, hpairs, hbacked⟩
  . rw [hpairs] at hx
    exact (hd x hx).mono hext
  . rw [hpairs] at hx
    rcases List.mem_append.mp hx with hx | hx
    . exact (hd x hx).mono hext
    . rw [List.mem_singleton.mp hx]
      exact hbacked

/--
What the table of lock pairs does for those who ask it. A pair that has been granted is granted
again for good, and nothing else comes of that. A new pair that is asked for without an id has locks
that were not there before. A pair that is refused is not recorded, and takes nothing away.
-/
structure Memoized (d : Device) : Prop where
  backed : ∀ x ∈ d.pairs, d.Backed x.1.2 x.2
  granted : ∀ buffer channel id pair d', lockPair buffer channel id d = .ok pair d' →
    d'.pair? buffer channel = some pair
  again : ∀ buffer channel pair, d.pair? buffer channel = some pair → ∀ later id,
    lockPair buffer channel id (afterAll request d later) = .ok pair (afterAll request d later)
  fresh : ∀ buffer channel pair d', d.pair? buffer channel = none →
    lockPair buffer channel none d = .ok pair d' → pair.read ∉ d.refs ∧ pair.write ∉ d.refs
  refused : ∀ buffer channel id e d', lockPair buffer channel id d = .error e d' →
    d'.pairs = d.pairs ∧ d.Extends d'

theorem InUse.memoized (h : d.InUse) (hd : ∀ x ∈ d.pairs, d.Backed x.1.2 x.2) : d.Memoized where
  backed := hd
  granted := by
    intro buffer channel id pair d' hok
    rcases lockPair_granted h.sound hok with ⟨hknown, rfl⟩ | ⟨hnone, hpairs, _⟩
    . exact hknown
    . exact pair?_of_pairs_eq hnone hpairs
  again := by
    intro buffer channel pair hpair later id
    obtain ⟨_, hext⟩ := h.afterAll later
    exact lockPair_of_pair? (hext.pair? hpair) id
  fresh := by
    intro buffer channel pair d' hnone hok
    rcases lockPair_granted h.sound hok with ⟨hknown, _⟩ | ⟨_, _, _, hfresh⟩
    . rw [hnone] at hknown
      cases hknown
    . exact hfresh rfl
  refused := by
    intro buffer channel id e d' herror
    have hkeeps := lockPair_keeps h.sound buffer channel id
    unfold Keeps at hkeeps
    rw [herror] at hkeeps
    exact ⟨lockPair_eq_error herror, hkeeps.1.ext⟩

/--
Lock pairs are granted once and for all, whatever is asked of a device, with whatever ids, and
whether it is granted or refused.
-/
theorem memoized_afterAll (t : Target) (policy : LockPolicy) (rs : List DeviceRequest) :
    (afterAll request (empty t policy) rs).policy = policy ∧
      (afterAll request (empty t policy) rs).Memoized := by
  obtain ⟨_, hext⟩ := (inUse_empty t policy).afterAll rs
  have hinvariant := afterAll_invariant (f := request)
    (I := fun d => d.InUse ∧ ∀ x ∈ d.pairs, d.Backed x.1.2 x.2) (s := empty t policy)
    ⟨inUse_empty t policy, by simp [empty]⟩
    (fun d r h => ⟨(h.1.after r).1, backed_after h.1 h.2 r⟩) rs
  exact ⟨hext.policy, hinvariant.1.memoized hinvariant.2⟩

end Device

end TileTraffic
