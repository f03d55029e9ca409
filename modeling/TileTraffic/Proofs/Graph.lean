import TileTraffic.Proofs.Outcome

/-!
The sides of ops: what the direction of an op at a level says about the op, and what a valid graph
guarantees about the buffers on both sides.
-/

namespace TileTraffic

namespace Op

variable {op : Op} {level : Level}

theorem any_level_iff {side : Option Access} :
    (side.any fun a => a.level = level) = true ↔ ∃ a, side = some a ∧ a.level = level := by
  rw [Option.any_eq_true]
  simp

theorem directionAt_eq_outbound_iff :
    op.directionAt level = .ok .outbound ↔ ∃ a, op.movement.src? = some a ∧ a.level = level := by
  rw [← any_level_iff]
  unfold directionAt
  split
  . next h => simp [h]
  . next h => split <;> simp [h]

theorem directionAt_of_src {a : Access} (h : op.movement.src? = some a) :
    op.directionAt a.level = .ok .outbound := by
  rw [directionAt_eq_outbound_iff]
  exact ⟨a, h, rfl⟩

theorem directionAt_eq_inbound_iff :
    op.directionAt level = .ok .inbound ↔
      (∀ a, op.movement.src? = some a → a.level ≠ level) ∧
        ∃ a, op.movement.dst? = some a ∧ a.level = level := by
  have hsrc : (∀ a, op.movement.src? = some a → a.level ≠ level) ↔
      ¬ (op.movement.src?.any fun a => a.level = level) = true := by
    rw [any_level_iff]
    simp
  rw [hsrc, ← any_level_iff]
  unfold directionAt
  split
  . next h => simp [h]
  . next h =>
    split
    . next hd => simp [h, hd]
    . next hd => simp [hd]

theorem accessAt?_of_directionAt {d : Direction} (h : op.directionAt level = .ok d) :
    ∃ a ∈ op.movement.accesses, op.accessAt? level = some a ∧ a.level = level := by
  have hside : ∃ a ∈ op.movement.accesses, a.level = level := by
    unfold Movement.accesses
    cases d with
    | outbound =>
      obtain ⟨a, ha, hl⟩ := directionAt_eq_outbound_iff.mp h
      exact ⟨a, by simp [ha], hl⟩
    | inbound =>
      obtain ⟨_, a, ha, hl⟩ := directionAt_eq_inbound_iff.mp h
      exact ⟨a, by simp [ha], hl⟩
  obtain ⟨a, ha, hl⟩ := hside
  have hfound : (op.accessAt? level).isSome := by
    unfold accessAt?
    rw [List.find?_isSome]
    exact ⟨a, ha, by simp [hl]⟩
  obtain ⟨b, hb⟩ := Option.isSome_iff_exists.mp hfound
  refine ⟨b, ?_, hb, ?_⟩
  . exact List.mem_of_find?_eq_some hb
  . simpa using List.find?_some hb

end Op

namespace Graph

variable {g : Graph}

theorem mem_occurrences {occ : Occurrence} (h : occ ∈ g.occurrences) : occ.op ∈ g.ops := by
  obtain ⟨⟨op, ref⟩, hmem, rfl⟩ := List.mem_map.mp h
  exact List.fst_mem_of_mem_zipIdx hmem

theorem exists_occurrence {op : Op} (h : op ∈ g.ops) : ∃ occ ∈ g.occurrences, occ.op = op := by
  obtain ⟨n, hn⟩ := List.getElem?_of_mem h
  exact ⟨⟨n, op⟩,
    List.mem_map.mpr ⟨(op, n), List.mk_mem_zipIdx_iff_getElem?.mpr hn, rfl⟩, rfl⟩

/--
Every access names a declared buffer, at the level at which it is declared.
-/
def Resolves (g : Graph) : Prop :=
  ∀ op ∈ g.ops, ∀ a ∈ op.movement.accesses,
    ∃ b, g.buffer? a.buffer = some b ∧ b.level = a.level

theorem checkAccess_yields (op : Op) (a : Access) :
    Yields (g.checkAccess op a) fun _ => ∃ b, g.buffer? a.buffer = some b ∧ b.level = a.level := by
  unfold checkAccess
  split
  . apply Yields.error
    rfl
  . next b hb =>
    split
    . next hl => exact ⟨b, hb, hl⟩
    . apply Yields.error
      rfl

theorem checkOp_yields (op : Op) :
    Yields (g.checkOp op) fun _ =>
      ∀ a ∈ op.movement.accesses, ∃ b, g.buffer? a.buffer = some b ∧ b.level = a.level := by
  unfold checkOp
  apply Yields.bind
  . apply Yields.forM
    intro a _
    apply checkAccess_yields
  intro _ haccess
  apply Yields.bind (P := fun _ => True)
  . unfold checkOpChannel
    split
    . trivial
    . split
      . trivial
      . apply Yields.error
        rfl
  intro _ _
  unfold checkOpRegion
  split
  . exact haccess
  . split
    . exact haccess
    . apply Yields.error
      rfl

theorem validate_yields (g : Graph) : Yields g.validate fun _ => g.Resolves := by
  unfold validate
  apply Yields.bind (P := fun _ => True)
  . apply Yields.mono (P := fun _ => ∀ b ∈ g.buffers, True)
    . apply Yields.forM
      intro b _
      unfold checkBuffer
      split
      . trivial
      . rfl
    . intros
      trivial
  intro _ _
  apply Yields.bind (P := fun _ => True)
  . apply Yields.mono (P := fun _ => ∀ c ∈ g.channels, True)
    . apply Yields.forM
      intro c _
      unfold checkChannel
      split
      . trivial
      . rfl
    . intros
      trivial
  intro _ _
  apply Yields.forM
  intro op _
  apply checkOp_yields

end Graph

end TileTraffic
