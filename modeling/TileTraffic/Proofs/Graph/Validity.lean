import TileTraffic.Proofs.Bundle.Destination
import TileTraffic.Proofs.Graph
import TileTraffic.Proofs.Success

/-!
What the validation of a graph asks for, said without the checks that it is made of: sizes can be
multiplied out in the width they are counted in, and every name that an op uses is declared. The
checks report the first thing that is amiss; together they are passed just if nothing is.
-/

namespace TileTraffic

theorem BufferDecl.isSome_bytes?_iff {b : BufferDecl} :
    b.bytes?.isSome = true ↔
      (∀ k, (b.shape.take k).prod < word64) ∧ b.shape.prod * b.elementBytes < word64 := by
  rw [Option.isSome_iff_exists]
  constructor
  . intro ⟨_, hbytes⟩
    obtain ⟨m, hm, hfit⟩ := Option.bind_eq_some_iff.mp hbytes
    obtain ⟨hprefixes, rfl⟩ := (product?_eq_some_iff one_lt_word64).mp hm
    exact ⟨hprefixes, (fit?_eq_some_iff.mp hfit).1⟩
  . intro ⟨hprefixes, hlt⟩
    refine ⟨_, Option.bind_eq_some_iff.mpr ⟨_, ?_, fit?_eq_some_iff.mpr ⟨hlt, rfl⟩⟩⟩
    exact (product?_eq_some_iff one_lt_word64).mpr ⟨hprefixes, rfl⟩

theorem ChannelDecl.isSome_consumerCount?_iff {c : ChannelDecl} :
    c.consumerCount?.isSome = true ↔ c.Countable := by
  rw [Option.isSome_iff_exists]
  constructor
  . intro ⟨_, hcount⟩
    exact (consumerCount?_eq_some_iff.mp hcount).1
  . intro hcountable
    exact ⟨_, consumerCount?_eq_some_iff.mpr ⟨hcountable, rfl⟩⟩

namespace Graph

/--
Sizes can be counted and references resolve. Of several declarations with one name the first counts.
-/
structure Valid (g : Graph) : Prop where
  /-- The product of every initial stretch of a shape fits 64 bits, and so do the bytes. -/
  bytes : ∀ b ∈ g.buffers,
    (∀ k, (b.shape.take k).prod < word64) ∧ b.shape.prod * b.elementBytes < word64
  countable : ∀ c ∈ g.channels, c.Countable
  resolves : g.Resolves
  channel : ∀ op ∈ g.ops, ∀ name, op.movement.channel? = some name → ∃ c, g.channel? name = some c
  region : ∀ op ∈ g.ops, ∀ name, op.region = some name → ∃ r, g.region? name = some r

variable {g : Graph} {op : Op}

theorem checkAccess_eq_ok_iff {a : Access} :
    g.checkAccess op a = .ok () ↔ ∃ b, g.buffer? a.buffer = some b ∧ b.level = a.level := by
  unfold checkAccess
  cases g.buffer? a.buffer with
  | none => simp
  | some b =>
    dsimp only
    rw [ensure_eq_ok_iff]
    simp

theorem checkOpChannel_eq_ok_iff :
    g.checkOpChannel op = .ok () ↔
      ∀ name, op.movement.channel? = some name → ∃ c, g.channel? name = some c := by
  unfold checkOpChannel
  cases op.movement.channel? with
  | none => simp
  | some name =>
    dsimp only
    rw [ensure_eq_ok_iff, Option.isSome_iff_exists]
    simp

theorem checkOpRegion_eq_ok_iff :
    g.checkOpRegion op = .ok () ↔
      ∀ name, op.region = some name → ∃ r, g.region? name = some r := by
  unfold checkOpRegion
  cases op.region with
  | none => simp
  | some name =>
    dsimp only
    rw [ensure_eq_ok_iff, Option.isSome_iff_exists]
    simp

theorem checkOp_eq_ok_iff :
    g.checkOp op = .ok () ↔
      (∀ a ∈ op.movement.accesses, ∃ b, g.buffer? a.buffer = some b ∧ b.level = a.level) ∧
      (∀ name, op.movement.channel? = some name → ∃ c, g.channel? name = some c) ∧
      ∀ name, op.region = some name → ∃ r, g.region? name = some r := by
  unfold checkOp
  rw [seq_eq_ok_iff, seq_eq_ok_iff, forM_eq_ok_iff, checkOpChannel_eq_ok_iff,
    checkOpRegion_eq_ok_iff]
  simp only [checkAccess_eq_ok_iff]

theorem validate_eq_ok_iff : g.validate = .ok () ↔ g.Valid := by
  unfold validate checkBuffer checkChannel
  rw [seq_eq_ok_iff, seq_eq_ok_iff, forM_eq_ok_iff, forM_eq_ok_iff, forM_eq_ok_iff]
  simp only [ensure_eq_ok_iff, BufferDecl.isSome_bytes?_iff,
    ChannelDecl.isSome_consumerCount?_iff, checkOp_eq_ok_iff]
  constructor
  . intro ⟨hbytes, hcountable, hops⟩
    exact ⟨hbytes, hcountable, fun op hop => (hops op hop).1, fun op hop => (hops op hop).2.1,
      fun op hop => (hops op hop).2.2⟩
  . intro h
    exact ⟨h.bytes, h.countable, fun op hop => ⟨h.resolves op hop, h.channel op hop,
      h.region op hop⟩⟩

end Graph

end TileTraffic
