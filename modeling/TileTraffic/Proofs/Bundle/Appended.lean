import TileTraffic.Compile
import TileTraffic.Graph.Replicate
import TileTraffic.Proofs.Bundle.Acceptance

/-!
A copy at the end of a graph. It has a bundle of its own, behind all others, and where its shared
buffer is in use already it does not change where shared buffers are placed.
-/

namespace TileTraffic

namespace Graph

variable {g : Graph} {t : Target} {op : Op} {src dst : Access} {bs bs' : List Bundle}

theorem occurrences_push (g : Graph) (op : Op) :
    (g.push op).2.occurrences = g.occurrences ++ [⟨g.ops.length, op⟩] := by
  unfold occurrences push
  rw [List.zipIdx_append, List.map_append, Nat.zero_add]
  rfl

theorem partition_push (hcopy : op.movement = .copy src dst) (h : g.partition t = .ok bs)
    (h' : (g.push op).2.partition t = .ok bs') : ∃ b, bs' = bs ++ [b] := by
  unfold partition at h h'
  obtain ⟨_, _, h⟩ := bind_eq_ok h
  obtain ⟨ds, hds, h⟩ := bind_eq_ok h
  obtain ⟨_, _, h'⟩ := bind_eq_ok h'
  obtain ⟨ds', hds', h'⟩ := bind_eq_ok h'
  -- only declarations of the graph are looked at when an op is added, and these are the same
  have hsame : Draft.add (g.push op).2 t = Draft.add g t := rfl
  rw [occurrences_push, hsame] at hds'
  have hadd := foldlM_push_eq_ok hds hds'
  simp only [Draft.add, hcopy] at hadd
  obtain ⟨_, _, hadd⟩ := bind_eq_ok hadd
  obtain rfl := Except.ok.inj hadd
  obtain ⟨b, _, hbs'⟩ := mapM_push_eq_ok h h'
  exact ⟨b, hbs'⟩

/--
Some op accesses the buffer in shared memory.
-/
def Shares (g : Graph) (buffer : String) : Prop :=
  ∃ op ∈ g.ops, ∃ a ∈ op.movement.accesses, a.level = .shared ∧ a.buffer = buffer

instance (g : Graph) (buffer : String) : Decidable (g.Shares buffer) :=
  inferInstanceAs (Decidable (∃ op ∈ g.ops, ∃ a ∈ op.movement.accesses,
    a.level = .shared ∧ a.buffer = buffer))

theorem levels_ne_of_partition (h : g.partition t = .ok bs) (hop : op ∈ g.ops)
    (hcopy : op.movement = .copy src dst) : src.level ≠ dst.level := by
  exact Target.ne_of_hasPath ((wellFormed_of_partition h).copy op hop src dst hcopy)

/--
In a graph that has a partition, an op has no two sides at one level.
-/
theorem accessAt?_of_partition (h : g.partition t = .ok bs) (hop : op ∈ g.ops) {a : Access}
    (ha : a ∈ op.movement.accesses) : op.accessAt? a.level = some a := by
  unfold Op.accessAt?
  cases hmove : op.movement with
  | copy src dst =>
    have hne := levels_ne_of_partition h hop hmove
    have hside : a = src ∨ a = dst := by
      rw [hmove] at ha
      simpa [Movement.accesses, Movement.src?, Movement.dst?] using ha
    rcases hside with rfl | rfl
    . simp [Movement.accesses, Movement.src?]
    . simp [Movement.accesses, Movement.src?, Movement.dst?, hne]
  | put channel src =>
    rw [hmove] at ha
    rw [List.mem_singleton.mp ha]
    simp [Movement.accesses, Movement.src?]
  | get channel dst =>
    rw [hmove] at ha
    rw [List.mem_singleton.mp ha]
    simp [Movement.accesses, Movement.src?, Movement.dst?]

end Graph

namespace Device

variable {g : Graph} {t : Target} {op : Op} {bs : List Bundle}

theorem placeShared_push (h : g.partition t = .ok bs)
    (hshared : ∀ a ∈ op.movement.accesses, a.level = .shared → g.Shares a.buffer) (d : Device) :
    d.placeShared (g.push op).2 = d.placeShared g := by
  have hused : ∀ name, name ∈ (g.ops ++ [op]).filterMap (fun op =>
      (op.accessAt? .shared).map Access.buffer) ↔
        name ∈ g.ops.filterMap fun op => (op.accessAt? .shared).map Access.buffer := by
    intro name
    rw [List.filterMap_append, List.mem_append, or_iff_left_of_imp]
    intro hname
    obtain ⟨_, hop, hname⟩ := List.mem_filterMap.mp hname
    rw [List.mem_singleton.mp hop] at hname
    obtain ⟨a, ha, rfl⟩ := Option.map_eq_some_iff.mp hname
    obtain ⟨op', hop', a', ha', hlevel, hbuffer⟩ := hshared a (List.mem_of_find?_eq_some ha)
      (by simpa using List.find?_some ha)
    have hside := Graph.accessAt?_of_partition h hop' ha'
    rw [hlevel] at hside
    exact List.mem_filterMap.mpr ⟨op', hop', by rw [hside, Option.map_some, hbuffer]⟩
  unfold placeShared
  simp only [Graph.push, hused]

end Device

end TileTraffic
