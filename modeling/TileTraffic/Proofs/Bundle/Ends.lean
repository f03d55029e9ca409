import TileTraffic.Proofs.Graph

/-!
Sound bundles: what every bundle that comes out of the partition satisfies, and how bundles look
before and after channels are assigned to their ends.
-/

namespace TileTraffic

namespace Endpoint

/--
The end without its channel.
-/
def unassigned (e : Endpoint) : Endpoint :=
  { e with key := none }

end Endpoint

namespace Bundle

/--
The bundle without its channels.
-/
def unassigned (b : Bundle) : Bundle :=
  { b with
    producer := b.producer.unassigned
    consumers := b.consumers.map Endpoint.unassigned }

/--
The ends that live at a level, with the direction of their channels there.
-/
def endsAt (b : Bundle) (level : Level) : List (Direction × Endpoint) :=
  (if b.producerLevel = level then [(.outbound, b.producer)] else []) ++
    (if b.consumerLevel = level then b.consumers.map fun e => (.inbound, e) else [])

/--
The level of the side on which channels of a direction are.
-/
def sideLevel (b : Bundle) : Direction → Level
  | .outbound => b.producerLevel
  | .inbound => b.consumerLevel

/--
The ops that access a level.
-/
def opsAt (b : Bundle) (level : Level) : List Occurrence :=
  (b.endsAt level).flatMap fun x => x.2.ops

/--
Both sides have ops, and so has every destination. They are ops of the graph, and they move their
data the right way.
-/
structure Sound (g : Graph) (t : Target) (b : Bundle) : Prop where
  producer_ne : b.producer.ops ≠ []
  consumers_ne : b.consumers.map Endpoint.ops ≠ []
  consumer_ne : ∀ ops ∈ b.consumers.map Endpoint.ops, ops ≠ []
  path : t.hasPath b.producerLevel b.consumerLevel = true
  reads : ∀ occ ∈ b.producer.ops,
    occ ∈ g.occurrences ∧ occ.op.directionAt b.producerLevel = .ok .outbound
  writes : ∀ ops ∈ b.consumers.map Endpoint.ops, ∀ occ ∈ ops,
    occ ∈ g.occurrences ∧ occ.op.directionAt b.consumerLevel = .ok .inbound

variable {g : Graph} {t : Target} {b : Bundle} {level : Level}

theorem mem_endsAt_iff {x : Direction × Endpoint} :
    x ∈ b.endsAt level ↔
      (b.producerLevel = level ∧ x = (.outbound, b.producer)) ∨
        (b.consumerLevel = level ∧ ∃ e ∈ b.consumers, x = (.inbound, e)) := by
  unfold endsAt
  rw [List.mem_append]
  apply or_congr
  . split <;> simp [*]
  . split <;> simp [*, @eq_comm _ x]

theorem producer_mem_endsAt : (.outbound, b.producer) ∈ b.endsAt b.producerLevel := by
  rw [mem_endsAt_iff]
  exact .inl ⟨rfl, rfl⟩

theorem consumer_mem_endsAt {e : Endpoint} (h : e ∈ b.consumers) :
    (.inbound, e) ∈ b.endsAt b.consumerLevel := by
  rw [mem_endsAt_iff]
  exact .inr ⟨rfl, e, h, rfl⟩

theorem mem_keysToward_iff {need : Direction} {key : ChannelKey} :
    key ∈ b.ends.keysToward need ↔
      ∃ x ∈ b.endsAt (b.sideLevel need), x.1 = need ∧ x.2.key = some key := by
  cases need with
  | outbound =>
    constructor
    . intro h
      exact ⟨_, producer_mem_endsAt, rfl, by simpa [Ends.keysToward, ends] using h⟩
    . intro ⟨x, hx, hd, hkey⟩
      rcases mem_endsAt_iff.mp hx with ⟨_, rfl⟩ | ⟨_, e, _, rfl⟩
      . simpa [Ends.keysToward, ends] using hkey
      . cases hd
  | inbound =>
    constructor
    . intro h
      obtain ⟨e, he, hkey⟩ : ∃ e ∈ b.consumers, e.key = some key := by
        simpa [Ends.keysToward, Ends.consumerKeys, ends] using h
      exact ⟨_, consumer_mem_endsAt he, rfl, hkey⟩
    . intro ⟨x, hx, hd, hkey⟩
      rcases mem_endsAt_iff.mp hx with ⟨_, rfl⟩ | ⟨_, e, he, rfl⟩
      . cases hd
      . simp [Ends.keysToward, Ends.consumerKeys, ends]
        exact ⟨e, he, hkey⟩

theorem map_ops_unassigned (es : List Endpoint) :
    (es.map Endpoint.unassigned).map Endpoint.ops = es.map Endpoint.ops := by
  rw [List.map_map]
  rfl

theorem sound_unassigned_iff : b.unassigned.Sound g t ↔ b.Sound g t := by
  have hc := map_ops_unassigned b.consumers
  constructor
  all_goals
    intro h
    constructor
    . exact h.producer_ne
    . have := h.consumers_ne
      simpa only [unassigned, hc] using this
    . have := h.consumer_ne
      simpa only [unassigned, hc] using this
    . exact h.path
    . exact h.reads
    . have := h.writes
      simpa only [unassigned, hc] using this

theorem opsAt_unassigned : b.unassigned.opsAt level = b.opsAt level := by
  unfold opsAt endsAt unassigned
  simp only [List.flatMap_append]
  congr 1
  . split <;> simp [Endpoint.unassigned]
  . split <;> simp [Endpoint.unassigned, List.flatMap_map]

namespace Sound

theorem ends_ne (h : b.Sound g t) {x : Direction × Endpoint} (hx : x ∈ b.endsAt level) :
    x.2.ops ≠ [] := by
  rcases mem_endsAt_iff.mp hx with ⟨_, rfl⟩ | ⟨_, e, he, rfl⟩
  . exact h.producer_ne
  . apply h.consumer_ne
    exact List.mem_map_of_mem he

theorem mem_occurrences (h : b.Sound g t) {x : Direction × Endpoint} (hx : x ∈ b.endsAt level)
    {occ : Occurrence} (hocc : occ ∈ x.2.ops) : occ ∈ g.occurrences := by
  rcases mem_endsAt_iff.mp hx with ⟨_, rfl⟩ | ⟨_, e, he, rfl⟩
  . exact (h.reads occ hocc).1
  . exact (h.writes _ (List.mem_map_of_mem he) occ hocc).1

theorem directionAt (h : b.Sound g t) {x : Direction × Endpoint} (hx : x ∈ b.endsAt level)
    {occ : Occurrence} (hocc : occ ∈ x.2.ops) : occ.op.directionAt level = .ok x.1 := by
  rcases mem_endsAt_iff.mp hx with ⟨rfl, rfl⟩ | ⟨rfl, e, he, rfl⟩
  . exact (h.reads occ hocc).2
  . exact (h.writes _ (List.mem_map_of_mem he) occ hocc).2

theorem level_ne (h : b.Sound g t) : b.producerLevel ≠ b.consumerLevel := by
  intro heq
  have hpath := h.path
  rw [heq] at hpath
  cases hl : b.consumerLevel <;> simp [hl, Target.hasPath] at hpath

theorem exists_consumer (h : b.Sound g t) : ∃ e es, b.consumers = e :: es := by
  apply List.exists_cons_of_ne_nil
  intro hnil
  apply h.consumers_ne
  rw [hnil]
  rfl

end Sound

end Bundle

end TileTraffic
