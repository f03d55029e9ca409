import TileTraffic.Proofs.Bundle.Ends
import TileTraffic.Proofs.Channel.Growth
import TileTraffic.Proofs.Failure

/-!
Failures of the assignment of channels. Pools refuse requests without naming other ops, and the
passes over the bundles report every refusal against the op that it was for.
-/

namespace TileTraffic

open CompileError

variable {g : Graph} {t : Target}

theorem Op.directionAt_fails (op : Op) (level : Level) :
    Fails (op.directionAt level) (Concerns op) := by
  unfold directionAt
  split
  . trivial
  . split
    . trivial
    . exact (concerns_path _ _).concerns_blame

theorem InterfaceSlots.peek_fails (t : Target) (s : InterfaceSlots) (d : Direction) (op : Op) :
    Fails (s.peek t d) (Concerns op) := by
  cases hpeek : s.peek t d with
  | ok slot => trivial
  | error e =>
    obtain rfl := error_of_peek hpeek
    apply concerns_capacity

namespace ChannelPool

variable {p : ChannelPool} {occ : Occurrence} {key : ChannelKey}

theorem commit_raises (partner : Option Coord) :
    Raises (commit t occ key partner) p (Concerns occ.op) := by
  show Refused (commit t occ key partner p) _
  unfold commit
  split
  . trivial
  . split
    . trivial
    . apply concerns_capacity

theorem join_raises : Raises (join t occ key) p (Concerns occ.op) := by
  show Refused (join t occ key p) _
  unfold join
  split
  . exact commit_raises none
  . apply concerns_codeGen

theorem serve_raises (tile : Coord) (preferred : Option Nat) :
    Raises (serve t occ tile preferred) p (Concerns occ.op) := by
  show Refused (serve t occ tile preferred p) _
  unfold serve
  split
  . apply concerns_codeGen
  . split
    . next e he => exact (occ.op.directionAt_fails p.level).of_eq_error he
    . next d _ =>
      split
      . trivial
      . split
        . exact commit_raises none
        . dsimp only
          split
          . apply concerns_capacity
          . split
            . next e he => exact (remainder_fails _ _ concerns_codeGen).of_eq_error he
            . exact commit_raises none

theorem openInterface_raises (facing : Coord) :
    Raises (openInterface t occ facing) p (Concerns occ.op) := by
  show Refused (openInterface t occ facing p) _
  unfold openInterface
  split
  . next e he => exact (occ.op.directionAt_fails p.level).of_eq_error he
  . next d _ =>
    split
    . apply concerns_codeGen
    . split
      . next e he => exact (p.slots.peek_fails t d occ.op).of_eq_error he
      . split
        . exact commit_raises (some facing)
        . apply concerns_capacity

end ChannelPool

/-! ### Ends -/

theorem Graph.computeTile_fails (t : Target) {op : Op} (hop : op ∈ g.ops) :
    Fails (g.computeTile t op) (Sited g) := by
  unfold computeTile
  split
  . exact (concerns_graph _).sited_blame hop
  . dsimp only
    split
    . exact (concerns_graph _).sited_blame hop
    . split
      . trivial
      . exact (concerns_graph _).sited_blame hop

theorem Device.sharedTile_fails (d : Device) (op : Op) : Fails (d.sharedTile op) (Sited g) := by
  unfold sharedTile
  split
  . trivial
  . apply sited_codeGen

namespace Endpoint

variable {flow : String} {tileOf : Op → Except CompileError Coord} {p : ChannelPool} {e : Endpoint}

/--
The end lists ops of the graph only.
-/
def OpsIn (g : Graph) (e : Endpoint) : Prop :=
  ∀ occ ∈ e.ops, occ ∈ g.occurrences

theorem meetKey_fails {op : Op} (hop : op ∈ g.ops) (known : Option ChannelKey) (key : ChannelKey) :
    Fails (meetKey flow op known key) (Sited g) := by
  unfold meetKey
  split
  . split
    . trivial
    . exact (concerns_graph _).sited_blame hop
  . trivial

theorem assign_fails (htile : ∀ op ∈ g.ops, Fails (tileOf op) (Sited g)) (he : e.OpsIn g) :
    Fails (assign t flow tileOf p e) (Sited g) := by
  unfold assign
  apply Fails.bind
  . apply Fails.foldlM
    intro state occ hocc
    have hop := Graph.mem_occurrences (he occ hocc)
    unfold serveOp
    apply (htile occ.op hop).bind
    intro tile _
    apply ((ChannelPool.serve_raises tile _).attempt hop).bind
    intro ⟨key, pool⟩ _
    apply (meetKey_fails hop _ key).bind
    intro _ _
    trivial
  . intro _ _
    trivial

theorem OpsIn.assign (he : e.OpsIn g) {e' : Endpoint} {p' : ChannelPool}
    (h : Endpoint.assign t flow tileOf p e = .ok (e', p')) : e'.OpsIn g := by
  unfold Endpoint.assign at h
  obtain ⟨_, _, h⟩ := bind_eq_ok h
  obtain ⟨rfl, _⟩ := Prod.mk.inj (Except.ok.inj h)
  exact he

end Endpoint

namespace ChannelPool

variable {p : ChannelPool} {ops : List Occurrence}

theorem joinAll_fails (hops : ∀ occ ∈ ops, occ ∈ g.occurrences) (key : ChannelKey) :
    Fails (joinAll t key p ops) (Sited g) := by
  unfold joinAll
  apply Fails.foldlM
  intro p occ hocc
  exact (join_raises.attempt (Graph.mem_occurrences (hops occ hocc))).map

theorem serveExternal_fails (hops : ∀ occ ∈ ops, occ ∈ g.occurrences) {index : ReuseIndex}
    {ends : List Ends} {anchors : List ChannelKey} {need : Direction} :
    Fails (serveExternal t index ends ops anchors need p) (Sited g) := by
  unfold serveExternal
  split
  . apply sited_codeGen
  . next first rest =>
    dsimp only
    split
    . exact (joinAll_fails hops _).bind fun _ _ => trivial
    . split
      . apply sited_codeGen
      . next anchor _ _ =>
        have hfirst := Graph.mem_occurrences (hops first (by simp))
        apply ((openInterface_raises anchor.tile).attempt hfirst).bind
        intro ⟨key, p'⟩ _
        exact (joinAll_fails hops key).bind fun _ _ => trivial

end ChannelPool

/-! ### Bundles -/

namespace Bundle

variable {p : ChannelPool} {b b' : Bundle} {bs : List Bundle} {index : ReuseIndex}
  {before after : List Ends}

/--
All ends of the bundle list ops of the graph only.
-/
structure OpsIn (g : Graph) (b : Bundle) : Prop where
  producer : b.producer.OpsIn g
  consumer : ∀ e ∈ b.consumers, e.OpsIn g

theorem Sound.opsIn (h : b.Sound g t) : b.OpsIn g where
  producer := fun occ hocc => (h.reads occ hocc).1
  consumer := fun e he occ hocc => (h.writes e.ops (List.mem_map_of_mem he) occ hocc).1

theorem assignLevel_fails {tileOf : Op → Except CompileError Coord}
    (htile : ∀ op ∈ g.ops, Fails (tileOf op) (Sited g)) (hb : b.OpsIn g) :
    Fails (b.assignLevel t tileOf p) (Sited g) := by
  rw [assignLevel_eq]
  apply Fails.bind
  . split
    . exact Endpoint.assign_fails htile hb.producer
    . trivial
  . intro r _
    apply Fails.bind
    . split
      . exact Fails.threadM fun p e he => Endpoint.assign_fails htile (hb.consumer e he)
      . trivial
    . intro _ _
      trivial

theorem OpsIn.assignLevel (hb : b.OpsIn g) {tileOf : Op → Except CompileError Coord}
    {p' : ChannelPool} (h : b.assignLevel t tileOf p = .ok (b', p')) : b'.OpsIn g := by
  rw [assignLevel_eq] at h
  obtain ⟨⟨producer, p₁⟩, hproducer, h⟩ := bind_eq_ok h
  obtain ⟨⟨consumers, p₂⟩, hconsumers, h⟩ := bind_eq_ok h
  obtain ⟨rfl, _⟩ := Prod.mk.inj (Except.ok.inj h)
  constructor
  . split at hproducer
    . exact hb.producer.assign hproducer
    . obtain ⟨rfl, _⟩ := Prod.mk.inj (Except.ok.inj hproducer)
      exact hb.producer
  . dsimp only at hconsumers
    split at hconsumers
    . intro e' he'
      obtain ⟨e, he, _, _, hassign⟩ := mem_of_threadM_eq_ok hconsumers he'
      exact (hb.consumer e he).assign hassign
    . obtain ⟨rfl, _⟩ := Prod.mk.inj (Except.ok.inj hconsumers)
      exact hb.consumer

theorem opsIn_of_assignLevel_all (hbs : ∀ b ∈ bs, b.OpsIn g)
    {tileOf : Op → Except CompileError Coord} {bs' : List Bundle} {p' : ChannelPool}
    (h : threadM (Bundle.assignLevel t tileOf) p bs = .ok (bs', p')) : ∀ b ∈ bs', b.OpsIn g := by
  intro b' hb'
  obtain ⟨b, hb, _, _, hassign⟩ := mem_of_threadM_eq_ok h hb'
  exact (hbs b hb).assignLevel hassign

theorem assignExternalProducer_fails (hb : b.OpsIn g) :
    Fails (b.assignExternalProducer t index before after p) (Sited g) := by
  unfold assignExternalProducer
  split
  . exact (ChannelPool.serveExternal_fails hb.producer).bind fun _ _ => trivial
  . trivial

theorem OpsIn.assignExternalProducer (hb : b.OpsIn g) {p' : ChannelPool}
    (h : b.assignExternalProducer t index before after p = .ok (b', p')) : b'.OpsIn g := by
  unfold Bundle.assignExternalProducer at h
  split at h
  . obtain ⟨⟨key, p₁⟩, _, h⟩ := bind_eq_ok h
    obtain ⟨rfl, _⟩ := Prod.mk.inj (Except.ok.inj h)
    exact ⟨hb.producer, hb.consumer⟩
  . obtain ⟨rfl, _⟩ := Prod.mk.inj (Except.ok.inj h)
    exact hb

theorem assignExternalConsumer_fails (hb : b.OpsIn g) :
    Fails (b.assignExternalConsumer t index before after p) (Sited g) := by
  unfold assignExternalConsumer
  split
  . split
    . apply (elementAt_fails _ _ sited_codeGen).bind
      intro first hfirst
      have hmem := List.mem_of_getElem? (elementAt_eq_ok hfirst)
      exact (concerns_path _ _).sited_blame (Graph.mem_occurrences (hb.producer first hmem))
    . apply (elementAt_fails _ _ sited_codeGen).bind
      intro e he
      have hmem := List.mem_of_getElem? (elementAt_eq_ok he)
      exact (ChannelPool.serveExternal_fails (hb.consumer e hmem)).bind fun _ _ => trivial
  . trivial

theorem assignExternal_fails {done : List Bundle} (hbs : ∀ b ∈ bs, b.OpsIn g) :
    Fails (assignExternal t done index p bs) (Sited g) := by
  induction bs generalizing done index p with
  | nil => trivial
  | cons b rest ih =>
    have hb := hbs b (by simp)
    unfold assignExternal
    apply (assignExternalProducer_fails hb).bind
    intro ⟨b', p'⟩ hproducer
    apply (assignExternalConsumer_fails (hb.assignExternalProducer hproducer)).bind
    intro ⟨b'', p''⟩ _
    exact ih fun c hc => hbs c (by simp [hc])

end Bundle

/--
If some op cannot be served, the failure says which one it is.
-/
theorem Assignment.ofBundles_fails {d : Device} {bs : List Bundle} (hbs : ∀ b ∈ bs, b.OpsIn g) :
    Fails (ofBundles g t d bs) (Sited g) := by
  unfold ofBundles
  apply Fails.bind
  . exact Fails.threadM fun p b hb =>
      Bundle.assignLevel_fails (fun op hop => Graph.computeTile_fails t hop) (hbs b hb)
  intro ⟨bs₁, tileLocal⟩ hlocal
  have h₁ := Bundle.opsIn_of_assignLevel_all hbs hlocal
  apply Fails.bind
  . exact Fails.threadM fun p b hb =>
      Bundle.assignLevel_fails (fun op _ => d.sharedTile_fails op) (h₁ b hb)
  intro ⟨bs₂, shared⟩ hshared
  have h₂ := Bundle.opsIn_of_assignLevel_all h₁ hshared
  exact (Bundle.assignExternal_fails h₂).bind fun _ _ => trivial

end TileTraffic
