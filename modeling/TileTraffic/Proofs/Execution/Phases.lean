import TileTraffic.Proofs.Execution.Machine
import TileTraffic.Proofs.Program.Locks

/-!
The turns of a slot. A slot is filled and drained by turns; how far a turn has got is its phase, and
the phase is what its locks show. Under either policy, the acquire of a job waits for the phase in
which the job may start, and its release ends the phase in which it is inside.
-/

namespace TileTraffic

namespace Side

/--
The side that is next after `n` turns, where `first` has had the first one.
-/
def nth (first : Side) (n : Nat) : Side :=
  if n % 2 = 0 then first else first.other

theorem other_eq_of_ne {side side' : Side} (h : side ≠ side') : side'.other = side := by
  cases side <;> cases side' <;> first | rfl | exact absurd rfl h

/--
The sides take turns, and `first` has the first one.
-/
def Alternate (first : Side) (sides : List Side) : Prop :=
  ∀ n side, sides[n]? = some side → side = first.nth n

theorem Alternate.push {first : Side} {sides : List Side} (h : first.Alternate sides) :
    first.Alternate (sides ++ [first.nth sides.length]) := by
  intro n side hn
  rcases Nat.lt_trichotomy n sides.length with hlt | rfl | hlt
  . rw [List.getElem?_append_left hlt] at hn
    exact h n side hn
  . rw [List.getElem?_concat_length] at hn
    exact (Option.some.inj hn).symm
  . rw [List.getElem?_eq_none (by rw [List.length_append, List.length_singleton]; omega)] at hn
    cases hn

end Side

namespace Job

/--
The agent that does the job.
-/
def agent : Job → Agent
  | .transfer key _ => .channel key
  | .use u => .core u.channel.tile

/--
The job fills its slot, rather than draining it.
-/
def fills (j : Job) : Bool :=
  j.side = j.slot.filler

/--
The sides whose jobs on a slot have been completed.
-/
def sidesOn (x : Slot) (done : List Job) : List Side :=
  (done.filter fun j => j.slot = x).map Job.side

/--
Each side of a slot is served by one agent.
-/
theorem agent_eq {j j' : Job} (hslot : j.slot = j'.slot) (hside : j.side = j'.side) :
    j.agent = j'.agent := by
  cases j with
  | transfer key b =>
    cases j' with
    | transfer key' b' => exact congrArg Agent.channel (Slot.mk.inj hslot).1
    | use u => cases hside
  | use u =>
    cases j' with
    | transfer key b => cases hside
    | use u' => exact congrArg (fun key => Agent.core key.tile) (Slot.mk.inj hslot).1

theorem sidesOn_append {x : Slot} {done : List Job} {j : Job} :
    sidesOn x (done ++ [j]) = sidesOn x done ++ if j.slot = x then [j.side] else [] := by
  unfold sidesOn
  rw [List.filter_append, List.map_append]
  congr 1
  split <;> simp [*]

end Job

/--
How far the turn on a slot has got.
-/
inductive Phase where
  | free
  | filling
  | full
  | draining
  deriving DecidableEq, Repr, Inhabited

namespace Phase

/--
What the read lock of the slot holds.
-/
def read (policy : LockPolicy) : Phase → Int
  | .free | .filling => 0
  | .full => 1
  | .draining =>
    match policy with
    | .binary => 1
    | .counting => 0

/--
What the write lock of the slot holds. Under the binary policy it is the read lock.
-/
def write (policy : LockPolicy) (phase : Phase) : Int :=
  match policy with
  | .binary => phase.read .binary
  | .counting => if phase = .free then 1 else 0

/--
The side that is inside.
-/
def occupant (x : Slot) : Phase → Option Side
  | .filling => some x.filler
  | .draining => some x.filler.other
  | .free | .full => none

/--
Number of completed jobs, modulo 2.
-/
def parity : Phase → Nat
  | .free | .filling => 0
  | .full | .draining => 1

/--
The phase in which a job that fills, or one that drains, gets in.
-/
def before (fills : Bool) : Phase :=
  if fills then .free else .full

/--
The phase of a slot with such a job inside.
-/
def during (fills : Bool) : Phase :=
  if fills then .filling else .draining

/--
The phase after such a job.
-/
def after (fills : Bool) : Phase :=
  if fills then .full else .free

theorem read_eq (policy : LockPolicy) (phase : Phase) :
    phase.read policy = 0 ∨ phase.read policy = 1 := by
  cases phase <;> cases policy <;> decide

theorem write_eq (policy : LockPolicy) (phase : Phase) :
    phase.write policy = 0 ∨ phase.write policy = 1 := by
  cases phase <;> cases policy <;> decide

theorem occupant_eq_during {x : Slot} {j : Job} (hslot : j.slot = x) {phase : Phase}
    (h : phase.occupant x = some j.side) : phase = during j.fills := by
  subst hslot
  unfold during Job.fills
  cases phase with
  | free => cases h
  | full => cases h
  | filling => simp [← Option.some.inj h]
  | draining =>
    rw [← Option.some.inj h]
    cases j.slot.filler <;> rfl

theorem occupant_during {x : Slot} {j : Job} (hslot : j.slot = x) :
    (during j.fills).occupant x = some j.side := by
  subst hslot
  unfold during Job.fills
  by_cases hfills : j.side = j.slot.filler
  . simp [hfills, occupant]
  . simp [hfills, occupant, Side.other_eq_of_ne hfills]

theorem occupant_before (x : Slot) (fills : Bool) : (before fills).occupant x = none := by
  cases fills <;> rfl

theorem occupant_after (x : Slot) (fills : Bool) : (after fills).occupant x = none := by
  cases fills <;> rfl

theorem parity_during (fills : Bool) : (during fills).parity = (before fills).parity := by
  cases fills <;> rfl

theorem parity_after (fills : Bool) : (after fills).parity = ((during fills).parity + 1) % 2 := by
  cases fills <;> rfl

/--
A job that fills comes when an even number of jobs has been done.
-/
theorem nth_of_parity {x : Slot} {j : Job} (hslot : j.slot = x) {n : Nat}
    (h : n % 2 = (during j.fills).parity) : x.filler.nth n = j.side := by
  subst hslot
  unfold Side.nth
  rw [h]
  unfold during Job.fills
  cases j.side <;> cases j.slot.filler <;> rfl

end Phase

namespace LockPolicy

variable (policy : LockPolicy) (pair : LockPair)

/--
What a job that fills, or one that drains, does to the locks of its slot.
-/
def guardOf (fills : Bool) : Guard :=
  if fills then policy.fill pair else policy.drain pair

theorem dmaGuard_eq (x : Slot) :
    policy.dmaGuard pair x.channel.direction = policy.guardOf pair (Side.dma = x.filler) := by
  unfold Slot.filler
  cases x.channel.direction <;> rfl

theorem coreGuard_eq (x : Slot) :
    policy.coreGuard pair x.channel.direction = policy.guardOf pair (Side.core = x.filler) := by
  unfold Slot.filler
  cases x.channel.direction <;> rfl

theorem guardOf_locks (fills : Bool) :
    (policy.guardOf pair fills).acquire.lock ∈ pair.locks ∧
      (policy.guardOf pair fills).release.lock ∈ pair.locks := by
  unfold LockPair.locks
  cases fills
  all_goals
    simp [guardOf, fill, drain]

end LockPolicy

namespace Machine

variable {m : Machine} {policy : LockPolicy} {pair : LockPair} {fills : Bool}

/--
The locks of a pair hold what they hold in a phase.
-/
def Shows (m : Machine) (policy : LockPolicy) (pair : LockPair) (phase : Phase) : Prop :=
  m.value pair.read = phase.read policy ∧ m.value pair.write = phase.write policy

theorem value_act (a : LockAction) (l : LockRef) :
    (m.act policy a).value l = if l = a.lock then a.result policy (m.value l) else m.value l :=
  rfl

/--
A lock lets a job in when it is the turn of the job, or when one of its kind is inside already.
-/
theorem Shows.of_enabled {phase : Phase} (h : m.Shows policy pair phase)
    (henabled : (policy.guardOf pair fills).acquire.Enabled
      (m.value (policy.guardOf pair fills).acquire.lock)) :
    phase = .before fills ∨ phase = .during fills := by
  obtain ⟨hread, hwrite⟩ := h
  cases fills with
  | true =>
    simp only [LockPolicy.guardOf, LockPolicy.fill, ↓reduceIte, hwrite] at henabled
    cases policy
    all_goals cases phase
    all_goals simp [LockAction.Enabled, LockPolicy.acquireOp, LockPolicy.emptyValue, Phase.write,
      Phase.read] at henabled
    all_goals simp [Phase.before, Phase.during]
  | false =>
    simp only [LockPolicy.guardOf, LockPolicy.drain, Bool.false_eq_true, ↓reduceIte, hread]
      at henabled
    cases policy
    all_goals cases phase
    all_goals simp [LockAction.Enabled, LockPolicy.acquireOp, Phase.read] at henabled
    all_goals simp [Phase.before, Phase.during]

section act

variable (hmerged : pair.read = pair.write ↔ policy = .binary)

include hmerged

theorem Shows.acquire (h : m.Shows policy pair (.before fills)) :
    (m.act policy (policy.guardOf pair fills).acquire).Shows policy pair (.during fills) := by
  obtain ⟨hread, hwrite⟩ := h
  unfold Shows
  rw [value_act, value_act, hread, hwrite]
  cases policy with
  | binary =>
    have heq := hmerged.mpr rfl
    cases fills
    all_goals simp [LockPolicy.guardOf, LockPolicy.fill, LockPolicy.drain, LockAction.result,
      LockPolicy.acquireOp, Phase.before, Phase.during, Phase.read, Phase.write, heq]
  | counting =>
    have hne : pair.read ≠ pair.write := by
      intro heq
      cases hmerged.mp heq
    cases fills
    all_goals simp [LockPolicy.guardOf, LockPolicy.fill, LockPolicy.drain, LockAction.result,
      LockPolicy.acquireOp, LockPolicy.emptyValue, Phase.before, Phase.during, Phase.read,
      Phase.write, hne, hne.symm]

theorem Shows.release (h : m.Shows policy pair (.during fills)) :
    (m.act policy (policy.guardOf pair fills).release).Shows policy pair (.after fills) := by
  obtain ⟨hread, hwrite⟩ := h
  unfold Shows
  rw [value_act, value_act, hread, hwrite]
  cases policy with
  | binary =>
    have heq := hmerged.mpr rfl
    cases fills
    all_goals simp [LockPolicy.guardOf, LockPolicy.fill, LockPolicy.drain, LockAction.result,
      LockPolicy.emptyValue, Phase.after, Phase.read, Phase.write, heq]
  | counting =>
    have hne : pair.read ≠ pair.write := by
      intro heq
      cases hmerged.mp heq
    cases fills
    all_goals simp [LockPolicy.guardOf, LockPolicy.fill, LockPolicy.drain, LockAction.result,
      LockPolicy.emptyValue, Phase.after, Phase.during, Phase.read, Phase.write, hne, hne.symm]

end act

end Machine

end TileTraffic
