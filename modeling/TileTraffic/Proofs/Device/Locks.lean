import TileTraffic.Proofs.Device.Arena
import TileTraffic.Proofs.Outcome

/-!
Setting up tiles, locks and lock pairs. Whether such a request is granted or refused, the device stays
sound and what it has stays, and no tile is created but the one that the request is for.
-/

namespace TileTraffic

namespace Device

variable {d d' d'' : Device} {c : Coord}

/--
What a request for the tile at `c` may make of a device.
-/
structure Kept (c : Coord) (d d' : Device) : Prop where
  sound : d'.Sound
  ext : d.Extends d'
  buffers_eq : d'.buffers = d.buffers
  coords : ∀ c' ∈ d'.coords, c' = c ∨ c' ∈ d.coords

theorem Kept.refl (h : d.Sound) : Kept c d d :=
  ⟨h, .refl, rfl, fun _ hc => .inr hc⟩

theorem Kept.trans (h : Kept c d d') (h' : Kept c d' d'') : Kept c d d'' where
  sound := h'.sound
  ext := h.ext.trans h'.ext
  buffers_eq := h'.buffers_eq.trans h.buffers_eq
  coords := fun c' hc' => (h'.coords c' hc').elim .inl (h.coords c')

/--
However the request for the tile at `c` ends, the device is kept. Where an answer is given, `P` holds
of it and of the device. Where it fails, then not through a fault of the compiler, and the tile is
there nevertheless if it is on the grid.
-/
def Keeps {α : Type} (c : Coord) (x : EStateM CompileError Device α) (d : Device)
    (P : α → Device → Prop) : Prop :=
  match x d with
  | .ok a d' => Kept c d d' ∧ P a d'
  | .error e d' =>
    Kept c d d' ∧ e.isInternal = false ∧ (d.target.contains c = true → c ∈ d'.coords)

namespace Keeps

variable {α β : Type} {x : EStateM CompileError Device α} {P Q : α → Device → Prop}

theorem pure {a : α} (h : d.Sound) (ha : P a d) : Keeps c (Pure.pure a) d P :=
  ⟨.refl h, ha⟩

theorem get {P : Device → Device → Prop} (h : d.Sound) (hd : P d d) :
    Keeps c MonadState.get d P :=
  ⟨.refl h, hd⟩

theorem throw {e : CompileError} (h : d.Sound) (hc : c ∈ d.coords) (he : e.isInternal = false) :
    Keeps c (MonadExcept.throw e) d P :=
  ⟨.refl h, he, fun _ => hc⟩

theorem mono (h : Keeps c x d P) (hPQ : ∀ a d', d.Extends d' → P a d' → Q a d') :
    Keeps c x d Q := by
  unfold Keeps at *
  cases hx : x d with
  | ok a d' =>
    rw [hx] at h
    exact ⟨h.1, hPQ a d' h.1.ext h.2⟩
  | error e d' =>
    rw [hx] at h
    exact h

theorem bind {f : α → EStateM CompileError Device β} {R : β → Device → Prop} (h : Keeps c x d P)
    (hf : ∀ a d', d'.Sound → d.Extends d' → P a d' → Keeps c (f a) d' R) :
    Keeps c (x >>= f) d R := by
  unfold Keeps at *
  cases hx : x d with
  | error e d' =>
    rw [hx] at h
    rw [run_bind_of_eq_error hx]
    exact h
  | ok a d' =>
    rw [hx] at h
    obtain ⟨hkept, ha⟩ := h
    have hrest := hf a d' hkept.sound hkept.ext ha
    rw [run_bind_of_eq_ok hx]
    cases hfa : f a d' with
    | ok b d'' =>
      rw [hfa] at hrest
      exact ⟨hkept.trans hrest.1, hrest.2⟩
    | error e d'' =>
      rw [hfa] at hrest
      refine ⟨hkept.trans hrest.1, hrest.2.1, fun hc => hrest.2.2 ?_⟩
      rw [hkept.ext.target]
      exact hc

theorem of_ok {a : α} (h : Keeps c x d P) (hx : x d = .ok a d') : Kept c d d' ∧ P a d' := by
  unfold Keeps at h
  rw [hx] at h
  exact h

theorem runs (h : Keeps c x d P) : Runs x d fun a d' => d'.Sound ∧ d.Extends d' ∧ P a d' := by
  unfold Keeps at h
  unfold Runs
  cases hx : x d with
  | ok a d' =>
    rw [hx] at h
    exact ⟨h.1.sound, h.1.ext, h.2⟩
  | error e d' =>
    rw [hx] at h
    exact h.2.1

end Keeps

/-! ### Tiles and locks -/

theorem tile_keeps (h : d.Sound) (c : Coord) :
    Keeps c (tile c) d fun n d' => d'.tileIndex? c = some n := by
  unfold Keeps tile
  cases hindex : d.tileIndex? c with
  | some n => exact ⟨.refl h, hindex⟩
  | none =>
    dsimp only
    by_cases hcontains : d.target.contains c = true
    . rw [if_pos hcontains]
      refine ⟨⟨sound_addTile h hindex hcontains, extends_addTile, rfl, ?_⟩, ?_⟩
      . intro c' hc'
        rw [coords_addTile, List.mem_append, List.mem_singleton] at hc'
        exact hc'.symm
      . rw [tileIndex?_addTile, if_pos rfl, coords, List.length_map]
    . rw [if_neg hcontains]
      exact ⟨.refl h, rfl, fun hc => absurd hc hcontains⟩

/--
A lock of the tile at `c`, which is at position `n`, chosen from all locks of the device.
-/
def lockAt (c : Coord) (n : Nat) (init : Int) (id : Option Nat) :
    EStateM CompileError Device (Nat × Lock) := fun d =>
  match id.bind fun id => (d.locksAt c).find? fun x => x.2.id = id with
  | some found => .ok found d
  | none => newLock c n (d.target.roleOfRow c.row) (d.lockIds c) init id d

/--
The locks that a tile of a sound device lists are all that there are for it to choose from.
-/
theorem allocateLock_eq (h : d.Sound) (c : Coord) (init : Int) (id : Option Nat) :
    allocateLock c init id d = (tile c >>= fun n => lockAt c n init id) d := by
  unfold allocateLock
  cases hrun : tile c d with
  | error e d' => rw [run_bind_of_eq_error hrun, run_bind_of_eq_error hrun]
  | ok n d' =>
    obtain ⟨hkept, hn⟩ := (tile_keeps h c).of_ok hrun
    obtain ⟨found, hfound, rfl, hlists⟩ := hkept.sound.exists_tile hn
    have hget : (MonadState.get : EStateM CompileError Device Device) d' = .ok d' d' := rfl
    rw [run_bind_of_eq_ok hrun, run_bind_of_eq_ok hrun, run_bind_of_eq_ok hget,
      run_bind_of_eq_ok (run_ofExcept (elementAt_of_getElem? hfound)),
      run_bind_of_eq_ok (run_ofExcept (Sound.held_eq hlists)), map_id_locksAt, hlists.role_eq]
    unfold lockAt
    cases id.bind fun id => (d'.locksAt found.coord).find? fun x => x.2.id = id <;> rfl

theorem not_mem_lockIds_of_find? {id : Nat}
    (h : ((d.locksAt c).find? fun x => x.2.id = id) = none) : id ∉ d.lockIds c := by
  rw [List.find?_eq_none] at h
  rw [← map_id_locksAt, List.mem_map]
  rintro ⟨x, hx, hid⟩
  exact h x hx (decide_eq_true hid)

/--
A new lock gets an id that no other lock of the tile has, provided that this is so where the id is
given.
-/
theorem newLock_keeps {n : Nat} (h : d.Sound) (hn : d.tileIndex? c = some n) (init : Int)
    {id : Option Nat} (hid : ∀ m, id = some m → m ∉ d.lockIds c) :
    Keeps c (newLock c n (d.target.roleOfRow c.row) (d.lockIds c) init id) d fun _ _ => True := by
  have hbudget : d.target.budget (d.target.roleOfRow c.row) = d.target.budgetAt c := rfl
  unfold Keeps newLock
  dsimp only
  rw [hbudget]
  generalize hm : id.getD
    ((firstBelow (d.target.budgetAt c).locks fun n => n ∉ d.lockIds c).getD
      (d.target.budgetAt c).locks) = m
  by_cases hlt : m < (d.target.budgetAt c).locks
  . rw [if_pos hlt]
    have hfresh : m ∉ d.lockIds c := by
      cases id with
      | some k =>
        obtain rfl : k = m := by simpa using hm
        exact hid k rfl
      | none =>
        dsimp only [Option.getD_none] at hm
        -- without a free id below the number of locks, the id would be that number
        cases hfirst : firstBelow (d.target.budgetAt c).locks fun n => n ∉ d.lockIds c with
        | some k =>
          rw [hfirst, Option.getD_some] at hm
          subst hm
          exact of_decide_eq_true (firstBelow_eq_some hfirst).2
        | none =>
          rw [hfirst, Option.getD_none] at hm
          omega
    refine ⟨⟨sound_addLock h (h.index_iff.mp hn) hfresh hlt, extends_addLock, rfl, ?_⟩, trivial⟩
    intro c' hc'
    rw [coords_addLock] at hc'
    exact .inr hc'
  . rw [if_neg hlt]
    exact ⟨.refl h, rfl, fun _ => h.mem_coords hn⟩

theorem lockAt_keeps {n : Nat} (h : d.Sound) (hn : d.tileIndex? c = some n) (init : Int)
    (id : Option Nat) : Keeps c (lockAt c n init id) d fun _ _ => True := by
  unfold Keeps lockAt
  cases hfind : id.bind fun id => (d.locksAt c).find? fun x => x.2.id = id with
  | some found => exact ⟨.refl h, trivial⟩
  | none =>
    apply newLock_keeps h hn init
    intro m hm
    apply not_mem_lockIds_of_find?
    rw [hm, Option.bind_some] at hfind
    exact hfind

theorem allocateLock_keeps (h : d.Sound) (c : Coord) (init : Int) (id : Option Nat) :
    Keeps c (allocateLock c init id) d fun _ d' => c ∈ d'.coords := by
  unfold Keeps
  rw [allocateLock_eq h]
  apply (tile_keeps h c).bind
  intro n d₁ h₁ _ hn
  apply (lockAt_keeps h₁ hn init id).mono
  intro _ d₂ hext _
  exact hext.coords.subset (h₁.mem_coords hn)

theorem writeLock_keeps (h : d.Sound) (hc : c ∈ d.coords) (read : Lock) (id : Option Nat) :
    Keeps c (writeLock c read id) d fun _ _ => True := by
  unfold writeLock
  apply Keeps.bind (P := fun s d₂ => d = s ∧ d = d₂)
  . exact Keeps.get h ⟨rfl, rfl⟩
  rintro _ _ _ _ ⟨rfl, rfl⟩
  dsimp only
  split
  . exact Keeps.pure h trivial
  . split
    . apply (allocateLock_keeps h c _ none).bind
      intro _ d₁ h₁ _ _
      exact Keeps.pure h₁ trivial
    . split
      . apply (allocateLock_keeps h c _ _).bind
        intro _ d₁ h₁ _ _
        exact Keeps.pure h₁ trivial
      . exact Keeps.throw h hc rfl

theorem addPair_keeps (h : d.Sound) {buffer : Nat} {channel : ChannelKey} (pair : LockPair)
    (hc : channel.tile ∈ d.coords) :
    Keeps channel.tile
      (modify fun d => { d with pairs := d.pairs ++ [((buffer, channel), pair)] }) d
      fun _ d' => (d'.pair? buffer channel).isSome := by
  refine ⟨⟨h.of_pairs ?_, ⟨rfl, rfl, List.prefix_refl _, List.prefix_refl _, List.prefix_refl _,
      List.prefix_append _ _⟩, rfl, fun _ hc' => .inr hc'⟩, ?_⟩
  . intro x hx
    rcases List.mem_append.mp hx with hx | hx
    . exact h.paired x hx
    . rw [List.mem_singleton.mp hx]
      exact hc
  . unfold pair?
    dsimp only
    rw [List.lookup_append]
    simp

theorem lockPair_keeps (h : d.Sound) (buffer : Nat) (channel : ChannelKey) (id : Option Nat) :
    Keeps channel.tile (lockPair buffer channel id) d
      fun _ d' => (d'.pair? buffer channel).isSome := by
  unfold lockPair
  apply Keeps.bind (P := fun s d₂ => d = s ∧ d = d₂)
  . exact Keeps.get h ⟨rfl, rfl⟩
  rintro _ _ _ _ ⟨rfl, rfl⟩
  split
  . next pair hpair =>
    apply Keeps.pure h
    rw [hpair]
    rfl
  . apply Keeps.bind (P := fun s d₂ => d = s ∧ d = d₂)
    . exact Keeps.get h ⟨rfl, rfl⟩
    rintro _ _ _ _ ⟨rfl, rfl⟩
    apply (allocateLock_keeps h channel.tile _ id).bind
    intro read d₁ h₁ _ hc
    apply (writeLock_keeps h₁ hc read.2 id).bind
    intro write d₂ h₂ hext _
    apply (addPair_keeps h₂ _ (hext.coords.subset hc)).bind
    intro _ d₃ h₃ _ hpair
    exact Keeps.pure h₃ hpair

end Device

end TileTraffic
