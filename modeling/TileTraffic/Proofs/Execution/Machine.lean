import TileTraffic.Proofs.Device.Pairs
import TileTraffic.Program.Basic

/-!
Execution of the compute tiles of a program.

On a compute tile every channel runs its chain, block after block, and the core uses buffers in
whatever order it likes. What is done under one guard is a job: it starts by acquiring a lock, which
may have to be waited for, and ends by releasing one. Nothing else is shared between the channels
and the core of a tile.
-/

namespace TileTraffic

namespace LockAction

/--
The action can be done while its lock has the value `v`.
-/
def Enabled (a : LockAction) (v : Int) : Prop :=
  match a.op with
  | .acquireEqual => v = a.value
  | .acquireGreaterEqual => a.value ≤ v
  | .release => True

instance (a : LockAction) (v : Int) : Decidable (a.Enabled v) := by
  unfold Enabled
  split <;> infer_instance

/--
The value of the lock after the action, where it was `v` before.
-/
def result (a : LockAction) (policy : LockPolicy) (v : Int) : Int :=
  match a.op, policy with
  | .acquireEqual, _ => v
  | .acquireGreaterEqual, _ => v - a.value
  | .release, .binary => a.value
  | .release, .counting => v + a.value

end LockAction

/--
The two sides of a slot.
-/
inductive Side where
  | dma
  | core
  deriving DecidableEq, Repr, Inhabited

namespace Side

def other : Side → Side
  | .dma => .core
  | .core => .dma

end Side

namespace Slot

/--
The side that fills the buffer; the other one drains it.
-/
def filler (x : Slot) : Side :=
  match x.channel.direction with
  | .inbound => .dma
  | .outbound => .core

end Slot

/--
What is done under one guard: the transfer of a block or a use by a core.
-/
inductive Job where
  | transfer (channel : ChannelKey) (block : Block)
  | use (u : CoreUse)
  deriving DecidableEq, Repr, Inhabited

/--
Who does jobs: the DMA engine, for every channel, and the core of a tile.
-/
inductive Agent where
  | channel (key : ChannelKey)
  | core (tile : Coord)
  deriving DecidableEq, Repr, Inhabited

namespace Job

def side : Job → Side
  | .transfer _ _ => .dma
  | .use _ => .core

def slot : Job → Slot
  | .transfer channel b => ⟨channel, b.descriptor.buffer⟩
  | .use u => ⟨u.channel, u.buffer⟩

def guard : Job → Guard
  | .transfer _ b => b.guard
  | .use u => u.guard

end Job

/--
How far an agent has got: it may have no job, wait for the lock of one, or be inside one.
-/
inductive Turn where
  | idle
  | waiting (j : Job)
  | inside (j : Job)
  deriving DecidableEq, Repr, Inhabited

/--
The values of all locks, and how far all agents have got.
-/
structure Machine where
  value : LockRef → Int
  turn : Agent → Turn

namespace Machine

def setTurn (m : Machine) (agent : Agent) (turn : Turn) : Machine :=
  { m with turn := fun other => if other = agent then turn else m.turn other }

/--
Do a lock action.
-/
def act (m : Machine) (policy : LockPolicy) (a : LockAction) : Machine :=
  { m with value := fun l => if l = a.lock then a.result policy (m.value l) else m.value l }

/--
One of the sides is between its acquire and its release on the slot.
-/
def Inside (m : Machine) (x : Slot) (side : Side) : Prop :=
  ∃ agent j, m.turn agent = .inside j ∧ j.slot = x ∧ j.side = side

end Machine

namespace Program

variable (p : Program)

def chain? (key : ChannelKey) : Option Chain :=
  (p.tiles.find? fun q => q.tile = key.tile).bind fun q => q.chain? key.direction key.id

/--
What the core of a tile may do.
-/
def usesOn (tile : Coord) : List CoreUse :=
  (p.cores.filter fun c => c.tile = tile).flatMap CoreProgram.uses

/--
Block number `n` of the chain of a channel comes next.
-/
def transferTurn (key : ChannelKey) (n : Nat) : Turn :=
  match (p.chain? key).bind fun c => c.blocks[n]? with
  | some b => .waiting (.transfer key b)
  | none => .idle

/--
Chains start with their first block, cores without a job.
-/
def firstTurn : Agent → Turn
  | .channel key =>
    if p.target.roleOfRow key.tile.row = .compute then p.transferTurn key 0 else .idle
  | .core _ => .idle

/--
After a job a chain goes on with the block that the last one names.
-/
def nextTurn : Job → Turn
  | .transfer key b => p.transferTurn key b.next
  | .use _ => .idle

def initialValue (l : LockRef) : Int :=
  ((p.locks.find? fun lock => lock.ref = l).map Lock.init).getD 0

def start : Machine :=
  ⟨p.initialValue, p.firstTurn⟩

/--
One step of the compute tiles, with the job that it completes, if any.
-/
inductive Step : Machine → List Job → Machine → Prop where
  /-- A core that has no job picks one. -/
  | pick {m : Machine} {tile : Coord} {u : CoreUse}
    (hcompute : p.target.roleOfRow tile.row = .compute) (hidle : m.turn (.core tile) = .idle)
    (hu : u ∈ p.usesOn tile) : Step m [] (m.setTurn (.core tile) (.waiting (.use u)))
  | acquire {m : Machine} {agent : Agent} {j : Job} (hturn : m.turn agent = .waiting j)
    (henabled : j.guard.acquire.Enabled (m.value j.guard.acquire.lock)) :
    Step m [] ((m.act p.target.lockPolicy j.guard.acquire).setTurn agent (.inside j))
  | release {m : Machine} {agent : Agent} {j : Job} (hturn : m.turn agent = .inside j) :
    Step m [j] ((m.act p.target.lockPolicy j.guard.release).setTurn agent (p.nextTurn j))

/--
The machine can be reached, completing the jobs `done` on the way, in this order.
-/
inductive Run : Machine → List Job → Prop where
  | start : Run p.start []
  | step {m m' : Machine} {done js : List Job} (h : Run m done) (hstep : p.Step m js m') :
    Run m' (done ++ js)

/--
The step of an agent, if it can make one. A core without a job picks its use number `choice`.
-/
def step? (m : Machine) (agent : Agent) (choice : Nat) : Option (List Job × Machine) :=
  match m.turn agent with
  | .idle =>
    match agent with
    | .channel _ => none
    | .core tile =>
      if p.target.roleOfRow tile.row = .compute then
        (p.usesOn tile)[choice]?.map fun u => ([], m.setTurn (.core tile) (.waiting (.use u)))
      else
        none
  | .waiting j =>
    if j.guard.acquire.Enabled (m.value j.guard.acquire.lock) then
      some ([], (m.act p.target.lockPolicy j.guard.acquire).setTurn agent (.inside j))
    else
      none
  | .inside j =>
    some ([j], (m.act p.target.lockPolicy j.guard.release).setTurn agent (p.nextTurn j))

/--
Let agents make steps in the order of a script, after the jobs `done` have been completed.
-/
def play (m : Machine) (done : List Job) : List (Agent × Nat) → Option (List Job × Machine)
  | [] => some (done, m)
  | (agent, choice) :: script =>
    match p.step? m agent choice with
    | some (js, m') => play m' (done ++ js) script
    | none => none

variable {p} {m m' : Machine} {done done' js : List Job}

theorem step_of_step? {agent : Agent} {choice : Nat}
    (h : p.step? m agent choice = some (js, m')) : p.Step m js m' := by
  unfold step? at h
  split at h
  . next hidle =>
    cases agent with
    | channel key => cases h
    | core tile =>
      dsimp only at h
      split at h
      . next hcompute =>
        obtain ⟨u, hu, heq⟩ := Option.map_eq_some_iff.mp h
        obtain ⟨rfl, rfl⟩ := Prod.mk.inj heq
        exact .pick hcompute hidle (List.mem_of_getElem? hu)
      . cases h
  . next j hturn =>
    split at h
    . next henabled =>
      obtain ⟨rfl, rfl⟩ := Prod.mk.inj (Option.some.inj h)
      exact .acquire hturn henabled
    . cases h
  . next j hturn =>
    obtain ⟨rfl, rfl⟩ := Prod.mk.inj (Option.some.inj h)
    exact .release hturn

theorem Run.play {script : List (Agent × Nat)} (hrun : p.Run m done)
    (h : p.play m done script = some (done', m')) : p.Run m' done' := by
  induction script generalizing m done with
  | nil =>
    obtain ⟨rfl, rfl⟩ := Prod.mk.inj (Option.some.inj h)
    exact hrun
  | cons move script ih =>
    unfold Program.play at h
    split at h
    . next js m₁ hstep => exact ih (hrun.step (step_of_step? hstep)) h
    . cases h

end Program

end TileTraffic
