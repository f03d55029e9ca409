import TileTraffic.Proofs.Execution.Exclusion

/-!
Buffers on shared tiles. Locks are paired for each channel by itself, and a shared tile has no core:
what one channel fills there, no lock hands over to the channel that drains it. The first has one
turn on the buffer, and the second none.
-/

namespace TileTraffic

namespace Program

/--
Some channel of the tile transfers the buffer in this direction.
-/
def Moves (p : Program) (tile : Coord) (d : Direction) (buffer : String) : Prop :=
  ∃ x ∈ p.blocks, x.1.channel.tile = tile ∧ x.1.channel.direction = d ∧ x.1.buffer = buffer

/--
The buffer is filled and drained by channels of the tile.
-/
def Stages (p : Program) (tile : Coord) (buffer : String) : Prop :=
  p.Moves tile .inbound buffer ∧ p.Moves tile .outbound buffer

/--
If a buffer is staged on a shared tile, the lock that a block acquires there is released by a block
of another channel of the tile.
-/
def HandsOver (p : Program) : Prop :=
  ∀ x ∈ p.blocks, p.target.roleOfRow x.1.channel.tile.row = .shared →
    p.Stages x.1.channel.tile x.1.buffer →
      ∃ y ∈ p.blocks, y.1.channel.tile = x.1.channel.tile ∧ y.1.channel ≠ x.1.channel ∧
        y.2.guard.release.lock = x.2.guard.acquire.lock

instance (p : Program) (tile : Coord) (d : Direction) (buffer : String) :
    Decidable (p.Moves tile d buffer) :=
  inferInstanceAs (Decidable (∃ x ∈ p.blocks, _))

instance (p : Program) (tile : Coord) (buffer : String) : Decidable (p.Stages tile buffer) :=
  inferInstanceAs (Decidable (_ ∧ _))

instance (p : Program) : Decidable p.HandsOver :=
  inferInstanceAs (Decidable (∀ x ∈ p.blocks, _))

/--
Who releases the lock that a block acquires: every block for the same buffer on the same channel
under the binary policy, no block at all under the counting one, and no core if the tile is a shared
one. So nothing is handed over where there is something to hand over.
-/
structure ReleasedAlone (p : Program) (policy : LockPolicy) : Prop where
  block_iff : ∀ x ∈ p.blocks, ∀ y ∈ p.blocks,
    y.2.guard.release.lock = x.2.guard.acquire.lock ↔ y.1 = x.1 ∧ policy = .binary
  core : ∀ x ∈ p.blocks, p.target.roleOfRow x.1.channel.tile.row = .shared →
    ∀ c ∈ p.cores, ∀ u ∈ c.uses, u.guard.release.lock ≠ x.2.guard.acquire.lock
  handsOver_iff : p.HandsOver ↔ ∀ (tile : Coord) (buffer : String),
    p.target.roleOfRow tile.row = .shared → ¬ p.Stages tile buffer

/--
Cores are on compute tiles only.
-/
def CoresCompute (p : Program) : Prop :=
  ∀ c ∈ p.cores, ∀ u ∈ c.uses, p.target.roleOfRow u.channel.tile.row = .compute

namespace Guarding

variable {p : Program} {policy : LockPolicy} {slots : List (Slot × LockPair)} {x y : Slot × Block}

/--
Blocks for the same buffer on the same channel have the same guard.
-/
theorem guard_eq (h : p.Guarding policy slots) (hx : x ∈ p.blocks) (hy : y ∈ p.blocks)
    (hslot : y.1 = x.1) : y.2.guard = x.2.guard := by
  obtain ⟨pair, hpair, hguard⟩ := h.block x hx
  obtain ⟨pair', hpair', hguard'⟩ := h.block y hy
  have hsame : (y.1, pair') = (x.1, pair) := eq_of_nodup_map h.slots_nodup hpair' hpair hslot
  rw [hguard, hguard', hslot, (Prod.mk.inj hsame).2]

theorem release_eq_acquire_iff (h : p.Guarding policy slots) (hx : x ∈ p.blocks)
    (hy : y ∈ p.blocks) :
    y.2.guard.release.lock = x.2.guard.acquire.lock ↔ y.1 = x.1 ∧ policy = .binary := by
  have hmerged := h.locksApart.merged_iff x hx
  constructor
  . intro heq
    have hslot : y.1 = x.1 := by
      apply Decidable.byContradiction
      intro hne
      apply h.locksApart.apart y hy x hx hne y.2.guard.release.lock
      . simp [Guard.locks]
      . simp [Guard.locks, heq]
    rw [h.guard_eq hx hy hslot] at heq
    exact ⟨hslot, hmerged.mp heq.symm⟩
  . intro ⟨hslot, hpolicy⟩
    rw [h.guard_eq hx hy hslot]
    exact (hmerged.mpr hpolicy).symm

theorem core_release_ne (h : p.Guarding policy slots) (hcores : p.CoresCompute)
    (hx : x ∈ p.blocks) (hshared : p.target.roleOfRow x.1.channel.tile.row = .shared)
    {c : CoreProgram} (hc : c ∈ p.cores) {u : CoreUse} (hu : u ∈ c.uses) :
    u.guard.release.lock ≠ x.2.guard.acquire.lock := by
  intro heq
  obtain ⟨pair, hpair, hguard⟩ := h.block x hx
  obtain ⟨_, pair', hpair', hguard'⟩ := h.use c hc u hu
  have hrelease : u.guard.release.lock ∈ pair'.locks := by
    rw [hguard', policy.coreGuard_eq pair' ⟨u.channel, u.buffer⟩]
    exact (policy.guardOf_locks pair' _).2
  have hacquire : x.2.guard.acquire.lock ∈ pair.locks := by
    rw [hguard, policy.dmaGuard_eq]
    exact (policy.guardOf_locks pair _).1
  rw [← heq] at hacquire
  -- the core would use the slot of the block, on its tile
  have hslot := (Prod.mk.inj (h.slot_unique hpair' hpair hrelease hacquire)).1
  rw [← hslot] at hshared
  have hcompute := hshared.symm.trans (hcores c hc u hu)
  cases hcompute

theorem handsOver_iff (h : p.Guarding policy slots) :
    p.HandsOver ↔ ∀ (tile : Coord) (buffer : String),
      p.target.roleOfRow tile.row = .shared → ¬ p.Stages tile buffer := by
  constructor
  . intro hhands tile buffer hshared hstages
    obtain ⟨x, hx, rfl, _, rfl⟩ := hstages.1
    obtain ⟨y, hy, _, hne, heq⟩ := hhands x hx hshared hstages
    exact hne (congrArg Slot.channel ((h.release_eq_acquire_iff hx hy).mp heq).1)
  . intro hnone x _ hshared hstages
    exact absurd hstages (hnone _ _ hshared)

theorem releasedAlone (h : p.Guarding policy slots) (hcores : p.CoresCompute) :
    p.ReleasedAlone policy where
  block_iff := fun _ hx _ hy => h.release_eq_acquire_iff hx hy
  core := fun _ hx hshared _ hc _ hu => h.core_release_ne hcores hx hshared hc hu
  handsOver_iff := h.handsOver_iff

end Guarding

end Program

theorem Built.coresCompute {g : Graph} {t : Target} {p : Program} {bs : List Bundle}
    {d d' : Device} {a : Assignment} {bindings : Bindings} (h : Built g t p bs d a)
    (he : Emitted t p d' bindings) : p.CoresCompute := by
  intro c hc u hu
  obtain ⟨_, x, hx, hlevel, occ, _, huse⟩ := Device.corePrograms_eq_ok he.cores_eq c hc u hu
  obtain ⟨_, hchannel, _⟩ := Device.coreUse?_eq_ok huse
  have hhosts := h.hosts hx
  rw [hlevel] at hhosts
  rw [he.target_eq, hchannel]
  exact hhosts

/-! ### What follows for runs -/

namespace Side

/--
One side alone has a turn if it is the first, and no more than this one.
-/
theorem Alternate.length_le {first side : Side} {sides : List Side} (h : first.Alternate sides)
    (hall : ∀ s ∈ sides, s = side) : sides.length ≤ if side = first then 1 else 0 := by
  match sides with
  | [] => exact Nat.zero_le _
  | [s] =>
    have hfirst : s = first := h 0 s rfl
    rw [← hall s (by simp), if_pos hfirst]
    exact Nat.le_refl 1
  | s :: s' :: _ =>
    have hfirst : s = first := h 0 s rfl
    have hsecond : s' = first.other := h 1 s' rfl
    rw [hall s (by simp)] at hfirst
    rw [hall s' (by simp), hfirst] at hsecond
    cases first <;> cases hsecond

end Side

namespace Program

variable (p : Program)

/--
All chains before their first block, those of shared and interface tiles too.
-/
def startAll : Machine :=
  ⟨p.initialValue, fun
    | .channel key => p.transferTurn key 0
    | .core _ => .idle⟩

/--
The machine can be reached with the chains of all tiles running, completing the jobs `done` on the
way, in this order.
-/
inductive RunAll : Machine → List Job → Prop where
  | start : RunAll p.startAll []
  | step {m m' : Machine} {done js : List Job} (h : RunAll m done) (hstep : p.Step m js m') :
    RunAll m' (done ++ js)

variable {p} {m m' : Machine} {done js : List Job} {slots : List (Slot × LockPair)}

/--
The slots that cores use, or have used, are on compute tiles.
-/
structure Manned (p : Program) (m : Machine) (done : List Job) : Prop where
  turn : ∀ agent u, m.turn agent = .waiting (.use u) ∨ m.turn agent = .inside (.use u) →
    p.target.roleOfRow u.channel.tile.row = .compute
  done : ∀ u, Job.use u ∈ done → p.target.roleOfRow u.channel.tile.row = .compute

theorem transferTurn_ne_use (key : ChannelKey) (n : Nat) (u : CoreUse) :
    p.transferTurn key n ≠ .waiting (.use u) ∧ p.transferTurn key n ≠ .inside (.use u) := by
  unfold transferTurn
  split <;> simp

theorem nextTurn_ne_use (j : Job) (u : CoreUse) :
    p.nextTurn j ≠ .waiting (.use u) ∧ p.nextTurn j ≠ .inside (.use u) := by
  cases j with
  | transfer key b => exact transferTurn_ne_use key b.next u
  | use u' => simp [nextTurn]

theorem manned_startAll : p.Manned p.startAll [] where
  turn := by
    intro agent u hu
    cases agent with
    | channel key =>
      obtain ⟨hwaiting, hinside⟩ := transferTurn_ne_use (p := p) key 0 u
      exact (hu.elim hwaiting hinside).elim
    | core tile =>
      rcases hu with hu | hu
      . cases hu
      . cases hu
  done := by simp

theorem Manned.setTurn (h : p.Manned m done) {agent : Agent} {turn : Turn}
    (hturn : ∀ u, turn = .waiting (.use u) ∨ turn = .inside (.use u) →
      p.target.roleOfRow u.channel.tile.row = .compute) : p.Manned (m.setTurn agent turn) done where
  turn := by
    intro other u hu
    unfold Machine.setTurn at hu
    dsimp only at hu
    split at hu
    . exact hturn u hu
    . exact h.turn other u hu
  done := h.done

theorem Manned.act (h : p.Manned m done) (policy : LockPolicy) (a : LockAction) :
    p.Manned (m.act policy a) done :=
  ⟨h.turn, h.done⟩

theorem Manned.append (h : p.Manned m done)
    (hjs : ∀ u, Job.use u ∈ js → p.target.roleOfRow u.channel.tile.row = .compute) :
    p.Manned m (done ++ js) where
  turn := h.turn
  done := by
    intro u hu
    rcases List.mem_append.mp hu with hu | hu
    . exact h.done u hu
    . exact hjs u hu

theorem Manned.step (hcores : p.CoresCompute) (h : p.Manned m done) (hstep : p.Step m js m') :
    p.Manned m' (done ++ js) := by
  cases hstep with
  | pick _ _ hu =>
    rw [List.append_nil]
    apply h.setTurn
    rintro u (heq | heq)
    . obtain rfl := Job.use.inj (Turn.waiting.inj heq)
      obtain ⟨c, hc, hu⟩ := List.mem_flatMap.mp hu
      exact hcores c (List.mem_filter.mp hc).1 _ hu
    . cases heq
  | acquire hturn _ =>
    rw [List.append_nil]
    apply (h.act _ _).setTurn
    rintro u (heq | heq)
    . cases heq
    . rw [Turn.inside.inj heq] at hturn
      exact h.turn _ u (.inl hturn)
  | @release _ j hturn =>
    apply Manned.append
    . apply (h.act _ _).setTurn
      intro u hu
      obtain ⟨hwaiting, hinside⟩ := nextTurn_ne_use (p := p) j u
      exact (hu.elim hwaiting hinside).elim
    . intro u hu
      rw [← List.mem_singleton.mp hu] at hturn
      exact h.turn _ u (.inr hturn)

theorem runAll_manned (hcores : p.CoresCompute) (hrun : p.RunAll m done) : p.Manned m done := by
  induction hrun with
  | start => exact manned_startAll
  | step _ hstep ih => exact ih.step hcores hstep

theorem Guarding.runAll_orderly (h : p.Guarding p.target.lockPolicy slots)
    (hrun : p.RunAll m done) : m.Orderly p.target.lockPolicy slots done := by
  induction hrun with
  | start =>
    apply h.orderly_of_ready rfl
    intro agent
    cases agent with
    | channel key => exact h.ready_transferTurn key 0
    | core tile => exact .inl rfl
  | step _ hstep ih => exact h.step_orderly ih hstep

/--
Where there is no core, only the DMA engine completes jobs.
-/
theorem Manned.sidesOn_dma (h : p.Manned m done) {x : Slot}
    (hx : p.target.roleOfRow x.channel.tile.row ≠ .compute) :
    ∀ side ∈ Job.sidesOn x done, side = .dma := by
  intro side hside
  obtain ⟨j, hj, rfl⟩ := List.mem_map.mp hside
  obtain ⟨hj, hslot⟩ := List.mem_filter.mp hj
  cases j with
  | transfer key b => rfl
  | use u =>
    have hslot : (Job.use u).slot = x := of_decide_eq_true hslot
    rw [← hslot] at hx
    exact absurd (h.done u hj) hx

end Program

namespace Graph

variable {g : Graph} {t : Target} {p : Program} {m : Machine} {done : List Job} {x : Slot}

/--
In a compiled program the lock that a block acquires is not released by any other channel, and on a
shared tile by no core either.
-/
theorem compile_releasedAlone (h : g.compile t = .ok p) : p.ReleasedAlone t.lockPolicy := by
  obtain ⟨bs, d, a, hbuilt, d', bindings, hemitted⟩ := compile_eq_ok h
  exact (hbuilt.guarding hemitted).releasedAlone (hbuilt.coresCompute hemitted)

/--
External memory is loaded into shared memory, and sent on to a cell from there.
-/
def staged : Graph where
  scope := "staged"
  buffers := [⟨"far", .external, [16], 4⟩, ⟨"mid", .shared, [16], 4⟩, ⟨"near", .tileLocal, [16], 4⟩]
  channels := [⟨"stage", none⟩]
  regions := [⟨"cell", 0, 2, 1, 1⟩]
  ops := [
    ⟨1, .copy (.whole "far" .external) (.whole "mid" .shared), none, none, [], [], none⟩,
    ⟨2, .put "stage" (.whole "mid" .shared), none, none, [], [], none⟩,
    ⟨3, .get "stage" (.whole "near" .tileLocal), some "cell", some [0, 0], [], [], none⟩]
  host := none

theorem compile_staged_releasedAlone : ∃ p, staged.compile (.gen2 4 6) = .ok p ∧
    p.Stages ⟨0, 1⟩ "mid" ∧ p.ReleasedAlone .counting := by
  obtain ⟨p, h, hstages⟩ := exists_ok_of_decide (x := staged.compile (.gen2 4 6))
    (P := fun p => p.Stages ⟨0, 1⟩ "mid") (by decide +kernel)
  exact ⟨p, h, hstages, compile_releasedAlone h⟩

/--
The channel that sends the buffer on waits for a lock of its own.
-/
theorem compile_staged_not_handsOver : ∃ p, staged.compile (.gen2 4 6) = .ok p ∧ ¬ p.HandsOver := by
  exact exists_ok_of_decide (by decide +kernel)

/--
However long all chains of a compiled program have run, a channel of a shared tile has filled each
buffer once at most, and has not drained any.
-/
theorem compile_stalls (h : g.compile t = .ok p) (hrun : p.RunAll m done)
    (hx : t.roleOfRow x.channel.tile.row = .shared) :
    (Job.sidesOn x done).length ≤ if x.channel.direction = .inbound then 1 else 0 := by
  obtain ⟨bs, d, a, hbuilt, d', bindings, hemitted⟩ := compile_eq_ok h
  have hguarding := hbuilt.guarding hemitted
  rw [← hemitted.target_eq] at hguarding hx
  have halternate := (hguarding.exclusive (hguarding.runAll_orderly hrun)).alternate x
  have hmanned := Program.runAll_manned (hbuilt.coresCompute hemitted) hrun
  have hdma := hmanned.sidesOn_dma (x := x) (by simp [hx])
  have hlength := halternate.length_le hdma
  unfold Slot.filler at hlength
  cases hdirection : x.channel.direction with
  | inbound => simpa [hdirection] using hlength
  | outbound => simpa [hdirection] using hlength

end Graph

end TileTraffic
