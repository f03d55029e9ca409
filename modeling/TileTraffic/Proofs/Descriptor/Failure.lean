import TileTraffic.Proofs.Descriptor.Blocks
import TileTraffic.Proofs.Failure

/-!
Failures of the device: taking locks for the ops on the channels, and making descriptors for them.
-/

namespace TileTraffic

open CompileError

variable {g : Graph} {t : Target}

namespace Device

variable {d : Device} {op : Op}

theorem tile_raises (c : Coord) : Raises (tile c) d (Concerns op) := by
  show Refused (tile c d) _
  unfold tile
  split
  . trivial
  . split
    . trivial
    . apply concerns_graph

theorem newLock_raises (c : Coord) (n : Nat) (role : Role) (used : List Nat) (init : Int)
    (id : Option Nat) : Raises (newLock c n role used init id) d (Concerns op) := by
  show Refused (newLock c n role used init id d) _
  unfold newLock
  dsimp only
  split
  . trivial
  . apply concerns_capacity

theorem held_fails (d : Device) (tile : Tile) : Fails (d.held tile) (Concerns op) := by
  unfold held
  apply Fails.mapM
  intro n _
  apply Fails.bind (elementAt_fails _ _ concerns_codeGen)
  intro _ _
  trivial

theorem allocateLock_raises (c : Coord) (init : Int) (id : Option Nat) :
    Raises (allocateLock c init id) d (Concerns op) := by
  unfold allocateLock
  apply (tile_raises c).bind
  intro _ d'
  apply Raises.bind (x := get)
  . trivial
  . intro s d''
    apply Raises.bind
    . exact Raises.ofExcept (elementAt_fails _ _ concerns_codeGen)
    . intro tile d₁
      apply Raises.bind
      . exact Raises.ofExcept (held_fails s tile)
      . intro held d₂
        split
        . trivial
        . apply newLock_raises

theorem writeLock_raises (c : Coord) (read : Lock) (id : Option Nat) :
    Raises (writeLock c read id) d (Concerns op) := by
  unfold writeLock
  apply Raises.bind (x := get)
  . trivial
  . intro s d'
    dsimp only
    split
    . trivial
    . split
      . exact (allocateLock_raises c _ _).bind fun _ _ => trivial
      . split
        . exact (allocateLock_raises c _ _).bind fun _ _ => trivial
        . apply concerns_capacity

theorem lockPair_raises (buffer : Nat) (channel : ChannelKey) (id : Option Nat) :
    Raises (lockPair buffer channel id) d (Concerns op) := by
  unfold lockPair
  apply Raises.bind (x := get)
  . trivial
  . intro s d'
    split
    . trivial
    . dsimp only
      apply Raises.bind (x := get)
      . trivial
      . intro s d'
        apply (allocateLock_raises _ _ id).bind
        intro read d''
        apply (writeLock_raises _ _ id).bind
        intro write d'''
        apply Raises.bind (x := modify _)
        . trivial
        . intro _ _
          trivial

/--
A valid graph declares the buffers of its ops, so that no buffer is missing.
-/
theorem bindBuffer_fails (hg : g.Resolves) {occ : Occurrence} (hop : occ.op ∈ g.ops)
    (a : Allocation) : Fails (d.bindBuffer g a occ) (Sited g) := by
  unfold bindBuffer
  split
  . apply sited_codeGen
  . next access haccess =>
    split
    . next hnone =>
      obtain ⟨b, hb, _⟩ := hg occ.op hop access (List.mem_of_find?_eq_some haccess)
      rw [hb] at hnone
      cases hnone
    . trivial

theorem guardAll_fails (hg : g.Resolves) {as : List Allocation}
    (has : ∀ a ∈ as, ∀ occ ∈ a.ops, occ.op ∈ g.ops) :
    Fails (d.guardAll g as) (Sited g) := by
  show Fails ((workOf as).foldlM (guardOp g) (d, [])) _
  apply Fails.foldlM
  intro ⟨d, bindings⟩ ⟨a, occ⟩ hw
  obtain ⟨ha, hocc⟩ := mem_workOf.mp hw
  have hop := has a ha occ hocc
  unfold guardOp
  apply ((tile_raises a.key.tile).attempt hop).bind
  intro ⟨_, d₁⟩ _
  apply (bindBuffer_fails hg hop a).bind
  intro ⟨buffer, d₂⟩ _
  apply ((lockPair_raises buffer a.key none).attempt hop).bind
  intro _ _
  trivial

end Device

/-! ### Windows -/

namespace Access

variable {op : Op} (a : Access) (buffer : Buffer)

theorem sited_overflow (hop : op ∈ g.ops) (quantity : Quantity) :
    (overflow op quantity).Sited g :=
  (concerns_graph _).sited_blame hop

theorem sited_nonStatic (hop : op ∈ g.ops) (what : ShapeFault) :
    (nonStaticShape what op.id op.location).Sited g :=
  .inr ⟨op, hop, rfl⟩

theorem transferLength_fails (hop : op ∈ g.ops) : Fails (a.transferLength op buffer) (Sited g) := by
  unfold transferLength
  split
  . split
    . trivial
    . exact sited_overflow hop _
  . apply Fails.foldlM
    intro n size _
    unfold transferLength.times
    split
    . split
      . trivial
      . exact sited_overflow hop _
    . exact sited_nonStatic hop _

theorem effectiveStrides_fails (hop : op ∈ g.ops) :
    Fails (a.effectiveStrides op buffer) (Sited g) := by
  unfold effectiveStrides
  dsimp only
  split
  . split
    . exact sited_overflow hop _
    . split
      . trivial
      . exact (concerns_graph _).sited_blame hop
  . split
    . trivial
    . exact (concerns_graph _).sited_blame hop

theorem sumOffsets_fails (hop : op ∈ g.ops) (sum : Nat) (dims : List (Dim × Dim)) :
    Fails (a.sumOffsets op sum dims) (Sited g) := by
  induction dims generalizing sum with
  | nil => trivial
  | cons dim dims ih =>
    unfold sumOffsets
    split
    . trivial
    . next heq =>
      obtain ⟨rfl, rfl⟩ := List.cons.inj heq
      split
      . apply ih
      . exact sited_overflow hop _
    . split
      . trivial
      . exact sited_nonStatic hop _

theorem baseOffset_fails (hop : op ∈ g.ops) : Fails (a.baseOffset op buffer) (Sited g) := by
  unfold baseOffset
  split
  . trivial
  . apply (effectiveStrides_fails a buffer hop).bind
    intro strides _
    apply sumOffsets_fails a hop

end Access

/-! ### Descriptors -/

namespace Device

variable {d : Device} {bindings : Bindings} {as : List Allocation} {a : Allocation}
  {occ : Occurrence}

theorem bound_fails : Fails (bound bindings a occ) (Sited g) := by
  unfold bound
  split
  . trivial
  . apply sited_codeGen

theorem bufferAt_fails (n : Nat) : Fails (d.bufferAt n) (Sited g) := by
  unfold bufferAt
  split
  . trivial
  . apply sited_codeGen

theorem block_fails (hop : occ.op ∈ g.ops) (next : Nat) :
    Fails (d.block bindings a occ next) (Sited g) := by
  unfold block
  split
  . apply sited_codeGen
  . next access _ =>
    apply bound_fails.bind
    intro n _
    apply (bufferAt_fails n).bind
    intro buffer _
    split
    . apply sited_codeGen
    . apply (access.baseOffset_fails buffer hop).bind
      intro offset _
      apply (access.transferLength_fails buffer hop).bind
      intro length _
      trivial

theorem chain_fails (hops : ∀ occ ∈ a.ops, occ.op ∈ g.ops) :
    Fails (d.chain bindings a) (Sited g) := by
  unfold chain
  apply Fails.bind
  . apply Fails.mapM
    intro ⟨occ, i⟩ hmem
    apply (remainder_fails _ _ sited_codeGen).bind
    intro next _
    exact block_fails (hops occ (List.fst_mem_of_mem_zipIdx hmem)) next
  . intro _ _
    trivial

theorem synthesize_fails (hnodup : (as.map Allocation.key).Nodup)
    (has : ∀ a ∈ as, ∀ occ ∈ a.ops, occ.op ∈ g.ops) :
    Fails (d.synthesize bindings as) (Sited g) := by
  rw [synthesize_eq]
  apply Fails.mapM
  intro tile _
  unfold tileProgram
  apply Fails.bind
  . apply Fails.mapM
    intro a ha
    have hhere := (Allocation.mem_channelsOn hnodup).mp (List.mem_filter.mp ha).1
    exact chain_fails (has a hhere.1)
  . intro _ _
    trivial

theorem corePrograms_fails : Fails (d.corePrograms bindings as) (Sited g) := by
  unfold corePrograms coreUses
  apply Fails.bind
  . apply Fails.bind
    . apply Fails.mapM
      intro a _
      apply Fails.mapM
      intro occ _
      unfold coreUse?
      apply bound_fails.bind
      intro n _
      split
      . trivial
      . exact (bufferAt_fails n).bind fun _ _ => trivial
    . intro _ _
      trivial
  . intro _ _
    trivial

end Device

end TileTraffic
