import TileTraffic.Proofs.Execution.Phases

/-!
Exclusion on slots. However the channels and the core of a tile are interleaved, a slot is in some
phase, and only the side of that phase is inside.
-/

namespace TileTraffic

namespace Machine

variable {m : Machine} {policy : LockPolicy} {pair : LockPair}

/-! ### One slot -/

variable {x : Slot} {agent : Agent} {turn : Turn} {side : Side}

theorem inside_setTurn :
    (m.setTurn agent turn).Inside x side ↔
      (∃ j, turn = .inside j ∧ j.slot = x ∧ j.side = side) ∨
        ∃ other j, other ≠ agent ∧ m.turn other = .inside j ∧ j.slot = x ∧ j.side = side := by
  unfold Inside setTurn
  constructor
  . intro ⟨other, j, hturn, hslot, hside⟩
    dsimp only at hturn
    split at hturn
    . exact .inl ⟨j, hturn, hslot, hside⟩
    . next hne => exact .inr ⟨other, j, hne, hturn, hslot, hside⟩
  . rintro (⟨j, hturn, hslot, hside⟩ | ⟨other, j, hne, hturn, hslot, hside⟩)
    . exact ⟨agent, j, by simp [hturn], hslot, hside⟩
    . exact ⟨other, j, by simp [hne, hturn], hslot, hside⟩

/--
An agent that neither comes from the slot nor goes there changes nothing about who is inside.
-/
theorem inside_setTurn_of_ne (hbefore : ∀ j, m.turn agent = .inside j → j.slot ≠ x)
    (hafter : ∀ j, turn = .inside j → j.slot ≠ x) :
    (m.setTurn agent turn).Inside x side ↔ m.Inside x side := by
  rw [inside_setTurn]
  constructor
  . rintro (⟨j, hturn, hslot, _⟩ | ⟨other, j, _, hturn, hslot, hside⟩)
    . exact absurd hslot (hafter j hturn)
    . exact ⟨other, j, hturn, hslot, hside⟩
  . intro ⟨other, j, hturn, hslot, hside⟩
    refine .inr ⟨other, j, ?_, hturn, hslot, hside⟩
    rintro rfl
    exact hbefore j hturn hslot

/--
A slot in a phase: the locks show it, the side that has to be inside is inside and no other, and the
completed jobs have taken turns.
-/
structure InPhase (m : Machine) (policy : LockPolicy) (done : List Job) (x : Slot)
    (pair : LockPair) (phase : Phase) : Prop where
  shows : m.Shows policy pair phase
  inside_iff : ∀ side, m.Inside x side ↔ phase.occupant x = some side
  parity : (Job.sidesOn x done).length % 2 = phase.parity
  alternate : x.filler.Alternate (Job.sidesOn x done)

end Machine

namespace Job

/--
The job goes by the locks of its slot.
-/
def Guarded (j : Job) (policy : LockPolicy) (slots : List (Slot × LockPair)) : Prop :=
  ∃ pair, (j.slot, pair) ∈ slots ∧ j.guard = policy.guardOf pair j.fills

end Job

namespace Machine

/--
Agents have jobs of their own, under the locks of the slots of these jobs.
-/
def Posted (m : Machine) (policy : LockPolicy) (slots : List (Slot × LockPair)) : Prop :=
  ∀ agent j, m.turn agent = .waiting j ∨ m.turn agent = .inside j →
    agent = j.agent ∧ j.Guarded policy slots

/--
What holds of a machine all along: agents have jobs of their own, and every slot is in some phase.
-/
structure Orderly (m : Machine) (policy : LockPolicy) (slots : List (Slot × LockPair))
    (done : List Job) : Prop where
  posted : m.Posted policy slots
  known : ∀ j ∈ done, ∃ pair, (j.slot, pair) ∈ slots
  phase : ∀ x ∈ slots, ∃ phase, m.InPhase policy done x.1 x.2 phase

variable {m : Machine} {policy : LockPolicy} {slots : List (Slot × LockPair)} {done js : List Job}
  {x : Slot} {pair : LockPair} {phase : Phase} {agent : Agent} {turn : Turn} {j : Job}

theorem Posted.setTurn (h : m.Posted policy slots)
    (hturn : ∀ j, turn = .waiting j ∨ turn = .inside j → agent = j.agent ∧ j.Guarded policy slots) :
    (m.setTurn agent turn).Posted policy slots := by
  intro other j hj
  unfold Machine.setTurn at hj
  dsimp only at hj
  split at hj
  . next heq =>
    rw [heq]
    exact hturn j hj
  . exact h other j hj

namespace InPhase

theorem act_of_ne (h : m.InPhase policy done x pair phase) {a : LockAction}
    (ha : a.lock ∉ pair.locks) : (m.act policy a).InPhase policy done x pair phase where
  shows := by
    obtain ⟨hread, hwrite⟩ := h.shows
    have hne : pair.read ≠ a.lock ∧ pair.write ≠ a.lock := by
      simpa [LockPair.locks, eq_comm] using ha
    unfold Shows
    rw [value_act, value_act, if_neg hne.1, if_neg hne.2]
    exact ⟨hread, hwrite⟩
  inside_iff := h.inside_iff
  parity := h.parity
  alternate := h.alternate

theorem setTurn_of_ne (h : m.InPhase policy done x pair phase)
    (hbefore : ∀ j, m.turn agent = .inside j → j.slot ≠ x)
    (hafter : ∀ j, turn = .inside j → j.slot ≠ x) :
    (m.setTurn agent turn).InPhase policy done x pair phase where
  shows := h.shows
  inside_iff := by
    intro side
    rw [inside_setTurn_of_ne hbefore hafter]
    exact h.inside_iff side
  parity := h.parity
  alternate := h.alternate

theorem append_of_ne (h : m.InPhase policy done x pair phase) (hj : j.slot ≠ x) :
    m.InPhase policy (done ++ [j]) x pair phase := by
  have hsame : Job.sidesOn x (done ++ [j]) = Job.sidesOn x done := by
    rw [Job.sidesOn_append, if_neg hj, List.append_nil]
  refine ⟨h.shows, h.inside_iff, ?_, ?_⟩
  . rw [hsame]
    exact h.parity
  . rw [hsame]
    exact h.alternate

variable (h : m.InPhase policy done x pair phase) (hslot : j.slot = x)
  (hguard : j.guard = policy.guardOf pair j.fills)
  (hmerged : pair.read = pair.write ↔ policy = .binary)

include h hslot hguard hmerged

/--
A job that is let in finds the slot in the phase that it waits for, and nobody inside.
-/
theorem acquire (hposted : ∀ other j', m.turn other = .inside j' → other = j'.agent)
    (hagent : agent = j.agent) (hturn : m.turn agent = .waiting j)
    (henabled : j.guard.acquire.Enabled (m.value j.guard.acquire.lock)) :
    ((m.act policy j.guard.acquire).setTurn agent (.inside j)).InPhase policy done x pair
      (.during j.fills) := by
  rw [hguard] at henabled
  have hphase : phase = .before j.fills := by
    rcases h.shows.of_enabled henabled with hbefore | hduring
    . exact hbefore
    . -- the side would be inside already, by an agent that waits
      rw [hduring] at h
      obtain ⟨other, j', hother, hslot', hside⟩ :=
        (h.inside_iff j.side).mpr (Phase.occupant_during hslot)
      have hsame : other = agent := by
        rw [hposted other j' hother, hagent]
        exact Job.agent_eq (hslot'.trans hslot.symm) hside
      rw [hsame, hturn] at hother
      cases hother
  subst hphase
  have hnobody : ∀ side, ¬ m.Inside x side := by
    intro side hinside
    have hoccupant := (h.inside_iff side).mp hinside
    rw [Phase.occupant_before] at hoccupant
    cases hoccupant
  refine ⟨?_, ?_, ?_, h.alternate⟩
  . have hshows := h.shows.acquire hmerged
    rw [← hguard] at hshows
    exact hshows
  . intro side
    rw [inside_setTurn, Phase.occupant_during hslot]
    constructor
    . rintro (⟨_, hj, _, hside⟩ | ⟨other, j', _, hother, hslot', hside⟩)
      . rw [← hside, Turn.inside.inj hj]
      . exact absurd ⟨other, j', hother, hslot', hside⟩ (hnobody side)
    . intro hside
      exact .inl ⟨j, rfl, hslot, Option.some.inj hside⟩
  . rw [h.parity, Phase.parity_during]

/--
A job that ends leaves the slot to the other side.
-/
theorem release (hposted : ∀ other j', m.turn other = .inside j' → other = j'.agent)
    (hturn : m.turn agent = .inside j) (hnext : ∀ j', turn ≠ .inside j') :
    ((m.act policy j.guard.release).setTurn agent turn).InPhase policy (done ++ [j]) x pair
      (.after j.fills) := by
  have hoccupant := (h.inside_iff j.side).mp ⟨agent, j, hturn, hslot, rfl⟩
  obtain rfl := Phase.occupant_eq_during hslot hoccupant
  have hsides : Job.sidesOn x (done ++ [j]) = Job.sidesOn x done ++ [j.side] := by
    rw [Job.sidesOn_append, if_pos hslot]
  refine ⟨?_, ?_, ?_, ?_⟩
  . have hshows := h.shows.release hmerged
    rw [← hguard] at hshows
    exact hshows
  . intro side
    rw [inside_setTurn, Phase.occupant_after]
    constructor
    . rintro (⟨j', hj', _⟩ | ⟨other, j', hne, hother, hslot', hside⟩)
      . exact absurd hj' (hnext j')
      . -- the side that is inside is that of the job, and so is the agent
        have hinside := (h.inside_iff side).mp ⟨other, j', hother, hslot', hside⟩
        have heq : j'.side = j.side := by
          rw [hside]
          exact Option.some.inj (hinside.symm.trans hoccupant)
        apply absurd _ hne
        rw [hposted other j' hother, hposted agent j hturn]
        exact Job.agent_eq (hslot'.trans hslot.symm) heq
    . intro hnone
      cases hnone
  . rw [hsides, List.length_append, List.length_singleton, Phase.parity_after, ← h.parity]
    omega
  . rw [hsides, ← Phase.nth_of_parity hslot h.parity]
    exact h.alternate.push

end InPhase

end Machine

namespace Program

variable {p : Program} {slots : List (Slot × LockPair)} {m m' : Machine} {done js : List Job}

/--
A turn that an agent may be given: nothing to do, or waiting for a job of its own.
-/
def Ready (policy : LockPolicy) (slots : List (Slot × LockPair)) (agent : Agent) (turn : Turn) :
    Prop :=
  turn = .idle ∨ ∃ j, turn = .waiting j ∧ agent = j.agent ∧ j.Guarded policy slots

theorem Ready.posted {policy : LockPolicy} {agent : Agent} {turn : Turn} {j : Job}
    (h : Ready policy slots agent turn) (hj : turn = .waiting j ∨ turn = .inside j) :
    agent = j.agent ∧ j.Guarded policy slots := by
  rcases h with rfl | ⟨j', rfl, hagent, hguarded⟩
  . rcases hj with hj | hj
    . cases hj
    . cases hj
  . rcases hj with hj | hj
    . obtain rfl := Turn.waiting.inj hj
      exact ⟨hagent, hguarded⟩
    . cases hj

theorem Ready.ne_inside {policy : LockPolicy} {agent : Agent} {turn : Turn}
    (h : Ready policy slots agent turn) (j : Job) : turn ≠ .inside j := by
  rintro rfl
  rcases h with hidle | ⟨_, hwaiting, _⟩
  . cases hidle
  . cases hwaiting

namespace Guarding

variable (h : p.Guarding p.target.lockPolicy slots)

include h

theorem ready_transferTurn (key : ChannelKey) (n : Nat) :
    Ready p.target.lockPolicy slots (.channel key) (p.transferTurn key n) := by
  unfold transferTurn
  split
  . next b hb =>
    obtain ⟨c, hc, hb⟩ := Option.bind_eq_some_iff.mp hb
    obtain ⟨q, hq, hc⟩ := Option.bind_eq_some_iff.mp hc
    have htile : q.tile = key.tile := by simpa using List.find?_some hq
    obtain ⟨hdirection, hchannel⟩ : c.direction = key.direction ∧ c.channel = key.id := by
      simpa using List.find?_some hc
    have hmem : (⟨key, b.descriptor.buffer⟩, b) ∈ p.blocks := by
      apply mem_blocks.mpr
      refine ⟨q, List.mem_of_find?_eq_some hq, c, List.mem_of_find?_eq_some hc,
        List.mem_of_getElem? hb, ?_⟩
      rw [htile, hdirection, hchannel]
    obtain ⟨pair, hpair, hguard⟩ := h.block _ hmem
    exact .inr ⟨_, rfl, rfl, pair, hpair, hguard.trans (LockPolicy.dmaGuard_eq ..)⟩
  . exact .inl rfl

theorem ready_firstTurn (agent : Agent) :
    Ready p.target.lockPolicy slots agent (p.firstTurn agent) := by
  cases agent with
  | channel key =>
    simp only [firstTurn]
    split
    . exact h.ready_transferTurn key 0
    . exact .inl rfl
  | core tile => exact .inl rfl

theorem ready_nextTurn (j : Job) :
    Ready p.target.lockPolicy slots j.agent (p.nextTurn j) := by
  cases j with
  | transfer key b => exact h.ready_transferTurn key b.next
  | use u => exact .inl rfl

theorem ready_use {tile : Coord} {u : CoreUse} (hu : u ∈ p.usesOn tile) :
    Ready p.target.lockPolicy slots (.core tile) (.waiting (.use u)) := by
  obtain ⟨c, hc, hu⟩ := List.mem_flatMap.mp hu
  obtain ⟨hc, htile⟩ := List.mem_filter.mp hc
  obtain ⟨hutile, pair, hpair, hguard⟩ := h.use c hc u hu
  have htile : u.channel.tile = tile := hutile.trans (by simpa using htile)
  refine .inr ⟨_, rfl, ?_, pair, hpair, ?_⟩
  . rw [← htile]
    rfl
  . exact hguard.trans (LockPolicy.coreGuard_eq _ pair ⟨u.channel, u.buffer⟩)

/-! ### The start -/

theorem initialValue_eq {lock : Lock} (hlock : lock ∈ p.locks) :
    p.initialValue lock.ref = lock.init := by
  have hsome : (p.locks.find? fun l => l.ref = lock.ref).isSome := by
    rw [List.find?_isSome]
    exact ⟨lock, hlock, by simp⟩
  obtain ⟨found, hfound⟩ := Option.isSome_iff_exists.mp hsome
  have href : found.ref = lock.ref := by simpa using List.find?_some hfound
  obtain rfl := eq_of_nodup_map h.locks_nodup (List.mem_of_find?_eq_some hfound) hlock href
  unfold initialValue
  rw [hfound]
  rfl

theorem initialValue_of_mem {x : Slot × LockPair} (hx : x ∈ slots) {lock : Lock}
    (hlock : lock ∈ p.target.lockPolicy.locksOf x.2) : p.initialValue lock.ref = lock.init := by
  apply h.initialValue_eq
  rw [h.locks_eq]
  exact List.mem_flatMap.mpr ⟨x, hx, hlock⟩

theorem shows_free {x : Slot × LockPair} (hx : x ∈ slots) (hvalue : m.value = p.initialValue) :
    m.Shows p.target.lockPolicy x.2 .free := by
  have hmerged := h.merged
  have hinit : ∀ lock ∈ p.target.lockPolicy.locksOf x.2, p.initialValue lock.ref = lock.init :=
    fun _ hlock => h.initialValue_of_mem hx hlock
  unfold Machine.Shows
  rw [hvalue]
  generalize p.target.lockPolicy = policy at hmerged hinit
  cases policy with
  | binary =>
    rw [← hmerged rfl x hx]
    have hread := hinit ⟨x.2.read.tile, x.2.read.id, 0⟩ (by simp [LockPolicy.locksOf,
      LockPolicy.readInit])
    exact ⟨hread, hread⟩
  | counting =>
    have hread := hinit ⟨x.2.read.tile, x.2.read.id, 0⟩ (by simp [LockPolicy.locksOf,
      LockPolicy.readInit])
    have hwrite := hinit ⟨x.2.write.tile, x.2.write.id, 1⟩ (by simp [LockPolicy.locksOf,
      LockPolicy.writeInit])
    exact ⟨hread, hwrite⟩

/--
Before the first job all slots are free.
-/
theorem orderly_of_ready (hvalue : m.value = p.initialValue)
    (hready : ∀ agent, Ready p.target.lockPolicy slots agent (m.turn agent)) :
    m.Orderly p.target.lockPolicy slots [] where
  posted := fun agent _ hturn => (hready agent).posted hturn
  known := by simp
  phase := by
    intro x hx
    refine ⟨.free, h.shows_free hx hvalue, ?_, rfl, ?_⟩
    . intro side
      constructor
      . intro ⟨agent, j, hturn, _⟩
        exact absurd hturn ((hready agent).ne_inside j)
      . intro hside
        cases hside
    . intro n side hn
      simp [Job.sidesOn] at hn

theorem start_orderly : p.start.Orderly p.target.lockPolicy slots [] :=
  h.orderly_of_ready rfl h.ready_firstTurn

/-! ### A step -/

variable (hm : m.Orderly p.target.lockPolicy slots done)

include hm

theorem pick_orderly {tile : Coord} {u : CoreUse} (hidle : m.turn (.core tile) = .idle)
    (hu : u ∈ p.usesOn tile) :
    (m.setTurn (.core tile) (.waiting (.use u))).Orderly p.target.lockPolicy slots done where
  posted := hm.posted.setTurn fun _ hj => (h.ready_use hu).posted hj
  known := hm.known
  phase := by
    intro x hx
    obtain ⟨phase, hphase⟩ := hm.phase x hx
    refine ⟨phase, hphase.setTurn_of_ne ?_ ?_⟩
    . intro j hj
      rw [hidle] at hj
      cases hj
    . intro j hj
      cases hj

theorem acquire_orderly {agent : Agent} {j : Job} (hturn : m.turn agent = .waiting j)
    (henabled : j.guard.acquire.Enabled (m.value j.guard.acquire.lock)) :
    ((m.act p.target.lockPolicy j.guard.acquire).setTurn agent (.inside j)).Orderly
      p.target.lockPolicy slots done := by
  obtain ⟨hagent, hguarded⟩ := hm.posted agent j (.inl hturn)
  have hposted : ((m.act p.target.lockPolicy j.guard.acquire).setTurn agent (.inside j)).Posted
      p.target.lockPolicy slots := by
    apply Machine.Posted.setTurn (m := m.act p.target.lockPolicy j.guard.acquire) hm.posted
    rintro j' (hj' | hj')
    . cases hj'
    . obtain rfl := Turn.inside.inj hj'
      exact ⟨hagent, hguarded⟩
  refine ⟨hposted, hm.known, ?_⟩
  intro x hx
  obtain ⟨phase, hphase⟩ := hm.phase x hx
  obtain ⟨pair, hpair, hguard⟩ := hguarded
  by_cases hslot : j.slot = x.1
  . obtain rfl : (j.slot, pair) = x := eq_of_nodup_map h.slots_nodup hpair hx hslot
    refine ⟨.during j.fills, hphase.acquire rfl hguard (h.read_eq_write_iff hpair) ?_ hagent hturn
      henabled⟩
    intro other j' hj'
    exact (hm.posted other j' (.inr hj')).1
  . refine ⟨phase, (hphase.act_of_ne ?_).setTurn_of_ne ?_ ?_⟩
    . intro hlock
      have hmem : j.guard.acquire.lock ∈ pair.locks := by
        rw [hguard]
        exact (LockPolicy.guardOf_locks ..).1
      exact hslot (Prod.mk.inj (h.slot_unique hpair hx hmem hlock)).1
    . intro j' hj'
      replace hj' : m.turn agent = .inside j' := hj'
      rw [hturn] at hj'
      cases hj'
    . intro j' hj'
      rw [← Turn.inside.inj hj']
      exact hslot

theorem release_orderly {agent : Agent} {j : Job} (hturn : m.turn agent = .inside j) :
    ((m.act p.target.lockPolicy j.guard.release).setTurn agent (p.nextTurn j)).Orderly
      p.target.lockPolicy slots (done ++ [j]) := by
  obtain ⟨hagent, hguarded⟩ := hm.posted agent j (.inr hturn)
  have hready := h.ready_nextTurn j
  rw [← hagent] at hready
  refine ⟨?_, ?_, ?_⟩
  . apply Machine.Posted.setTurn (m := m.act p.target.lockPolicy j.guard.release) hm.posted
    exact fun _ hj' => hready.posted hj'
  . intro j' hj'
    rcases List.mem_append.mp hj' with hj' | hj'
    . exact hm.known j' hj'
    . rw [List.mem_singleton.mp hj']
      obtain ⟨pair, hpair, _⟩ := hguarded
      exact ⟨pair, hpair⟩
  . intro x hx
    obtain ⟨phase, hphase⟩ := hm.phase x hx
    obtain ⟨pair, hpair, hguard⟩ := hguarded
    by_cases hslot : j.slot = x.1
    . obtain rfl : (j.slot, pair) = x := eq_of_nodup_map h.slots_nodup hpair hx hslot
      refine ⟨.after j.fills, hphase.release rfl hguard (h.read_eq_write_iff hpair) ?_ hturn
        hready.ne_inside⟩
      intro other j' hj'
      exact (hm.posted other j' (.inr hj')).1
    . refine ⟨phase, ((hphase.act_of_ne ?_).setTurn_of_ne ?_ ?_).append_of_ne hslot⟩
      . intro hlock
        have hmem : j.guard.release.lock ∈ pair.locks := by
          rw [hguard]
          exact (LockPolicy.guardOf_locks ..).2
        exact hslot (Prod.mk.inj (h.slot_unique hpair hx hmem hlock)).1
      . intro j' hj'
        replace hj' : m.turn agent = .inside j' := hj'
        rw [hturn] at hj'
        rw [← Turn.inside.inj hj']
        exact hslot
      . intro j' hj'
        exact absurd hj' (hready.ne_inside j')

theorem step_orderly (hstep : p.Step m js m') :
    m'.Orderly p.target.lockPolicy slots (done ++ js) := by
  cases hstep with
  | pick _ hidle hu =>
    rw [List.append_nil]
    exact h.pick_orderly hm hidle hu
  | acquire hturn henabled =>
    rw [List.append_nil]
    exact h.acquire_orderly hm hturn henabled
  | release hturn => exact h.release_orderly hm hturn

omit hm

theorem run_orderly (hrun : p.Run m done) : m.Orderly p.target.lockPolicy slots done := by
  induction hrun with
  | start => exact h.start_orderly
  | step _ hstep ih => exact h.step_orderly ih hstep

end Guarding

/--
On every slot one side at most is inside, and the sides have been inside by turns, first the one
that fills the slot. No lock counts further than 1.
-/
structure Exclusive (p : Program) (m : Machine) (done : List Job) : Prop where
  exclusive : ∀ x, ¬ (m.Inside x .dma ∧ m.Inside x .core)
  alternate : ∀ x : Slot, x.filler.Alternate (Job.sidesOn x done)
  values : ∀ lock ∈ p.locks, m.value lock.ref = 0 ∨ m.value lock.ref = 1

theorem Guarding.exclusive (h : p.Guarding p.target.lockPolicy slots)
    (hm : m.Orderly p.target.lockPolicy slots done) : p.Exclusive m done where
  exclusive := by
    intro x ⟨hdma, hcore⟩
    obtain ⟨agent, j, hturn, rfl, hside⟩ := hdma
    obtain ⟨_, pair, hpair, _⟩ := hm.posted agent j (.inr hturn)
    obtain ⟨phase, hphase⟩ := hm.phase _ hpair
    have hdma := (hphase.inside_iff .dma).mp ⟨agent, j, hturn, rfl, hside⟩
    have hcore := (hphase.inside_iff .core).mp hcore
    rw [hdma] at hcore
    cases hcore
  alternate := by
    intro x
    by_cases hx : ∃ pair, (x, pair) ∈ slots
    . obtain ⟨pair, hpair⟩ := hx
      obtain ⟨phase, hphase⟩ := hm.phase _ hpair
      exact hphase.alternate
    . -- nothing has been done on a slot without locks
      have hnone : Job.sidesOn x done = [] := by
        unfold Job.sidesOn
        rw [List.map_eq_nil_iff, List.filter_eq_nil_iff]
        intro j hj heq
        obtain ⟨pair, hpair⟩ := hm.known j hj
        rw [of_decide_eq_true heq] at hpair
        exact hx ⟨pair, hpair⟩
      intro n side hn
      rw [hnone] at hn
      cases hn
  values := by
    intro lock hlock
    obtain ⟨x, hx, hmem⟩ := h.mem_locks.mp (List.mem_map_of_mem hlock)
    obtain ⟨phase, hphase⟩ := hm.phase x hx
    obtain ⟨hread, hwrite⟩ := hphase.shows
    simp only [LockPair.locks, List.mem_cons, List.not_mem_nil, or_false] at hmem
    rcases hmem with heq | heq
    . rw [heq, hread]
      exact phase.read_eq _
    . rw [heq, hwrite]
      exact phase.write_eq _

end Program

namespace Graph

variable {g : Graph} {t : Target} {p : Program} {m : Machine} {done : List Job}

/--
However long the compute tiles of a compiled program have run, and in whatever order, no slot has
both sides inside, and the sides have taken turns on it.
-/
theorem compile_exclusive (h : g.compile t = .ok p) (hrun : p.Run m done) :
    p.Exclusive m done := by
  obtain ⟨bs, d, a, hbuilt, d', bindings, hemitted⟩ := compile_eq_ok h
  have hguarding := hbuilt.guarding hemitted
  rw [← hemitted.target_eq] at hguarding
  exact hguarding.exclusive (hguarding.run_orderly hrun)

/--
The first channel of a cell has a turn, then its core, and then the channel gets in again.
-/
def relayScript : List (Agent × Nat) :=
  let channel : Agent := .channel ⟨⟨0, 2⟩, .inbound, 0⟩
  let core : Agent := .core ⟨0, 2⟩
  [(channel, 0), (channel, 0), (core, 0), (core, 0), (core, 0), (channel, 0)]

theorem compile_relay_exclusive : ∃ p m done, relay.compile (.gen2 4 6) = .ok p ∧ p.Run m done ∧
    done.map Job.side = [.dma, .core] ∧ p.Exclusive m done := by
  obtain ⟨p, h⟩ := exists_compile_relay
  have hplay : ((relay.compile (.gen2 4 6)).toOption.bind fun p =>
      (p.play p.start [] relayScript).map fun r => r.1.map Job.side) = some [.dma, .core] := by
    decide +kernel
  rw [h] at hplay
  obtain ⟨⟨done, m⟩, hplay, hsides⟩ := Option.map_eq_some_iff.mp hplay
  have hrun : p.Run m done := Program.Run.start.play hplay
  exact ⟨p, m, done, h, hrun, hsides, compile_exclusive h hrun⟩

end Graph

end TileTraffic
