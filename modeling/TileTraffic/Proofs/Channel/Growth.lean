import TileTraffic.Proofs.Channel.Pool
import TileTraffic.Proofs.Success

/-!
Channels only go on. Whatever a pass does to its pool, a channel that is open stays open, faces the
same way, and lists first the ops that it listed before.
-/

namespace TileTraffic

namespace Allocation

/--
The second channel is the first one, with the same ops and perhaps more behind them.
-/
structure Continues (a a' : Allocation) : Prop where
  key : a'.key = a.key
  level : a'.level = a.level
  partner : a'.partner = a.partner
  opIds : a.opIds <+: a'.opIds
  ops : a.ops <+: a'.ops

variable {a a' a'' : Allocation}

theorem Continues.refl (a : Allocation) : a.Continues a :=
  ⟨rfl, rfl, rfl, List.prefix_rfl, List.prefix_rfl⟩

theorem Continues.trans (h : a.Continues a') (h' : a'.Continues a'') : a.Continues a'' where
  key := h'.key.trans h.key
  level := h'.level.trans h.level
  partner := h'.partner.trans h.partner
  opIds := h.opIds.trans h'.opIds
  ops := h.ops.trans h'.ops

theorem continues_addAt (key : ChannelKey) (occ : Occurrence) (a : Allocation) :
    a.Continues (a.addAt key occ) := by
  unfold addAt
  split
  . exact ⟨rfl, rfl, rfl, List.prefix_append .., List.prefix_append ..⟩
  . exact .refl a

end Allocation

namespace ChannelPool

variable {t : Target} {p p' p'' : ChannelPool} {occ : Occurrence} {key k : ChannelKey}
  {partner : Option Coord}

/--
All channels of `p` go on in `p'`.
-/
def Continues (p p' : ChannelPool) : Prop :=
  ∀ a ∈ p.opened, ∃ a' ∈ p'.opened, a.Continues a'

theorem Continues.refl (p : ChannelPool) : p.Continues p :=
  fun a ha => ⟨a, ha, .refl a⟩

theorem Continues.trans (h : p.Continues p') (h' : p'.Continues p'') : p.Continues p'' := by
  intro a ha
  obtain ⟨a', ha', hcont⟩ := h a ha
  obtain ⟨a'', ha'', hcont'⟩ := h' a' ha'
  exact ⟨a'', ha'', hcont.trans hcont'⟩

theorem continues_enter : p.Continues (p.enter occ key partner) := by
  intro a ha
  by_cases hmem : key ∈ p.keys
  . rw [opened_enter_of_mem hmem]
    exact ⟨a.addAt key occ, List.mem_map_of_mem ha, Allocation.continues_addAt ..⟩
  . rw [opened_enter_of_not_mem hmem]
    exact ⟨a, List.mem_append_left _ ha, .refl a⟩

/-! ### What the operations of a pool come to -/

theorem commit_cases (h : commit t occ key partner p = .ok k p') :
    k = key ∧ (p' = p ∨ p' = p.enter occ key partner) := by
  unfold commit at h
  split at h
  . obtain ⟨rfl, rfl⟩ := EStateM.Result.ok.inj h
    exact ⟨rfl, .inl rfl⟩
  . split at h
    . obtain ⟨rfl, rfl⟩ := EStateM.Result.ok.inj h
      exact ⟨rfl, .inr rfl⟩
    . cases h

theorem serve_cases {tile : Coord} {preferred : Option Nat}
    (h : serve t occ tile preferred p = .ok k p') :
    k.tile = tile ∧ (p' = p ∨ p' = p.enter occ k none) := by
  unfold serve at h
  split at h
  . cases h
  . split at h
    . cases h
    . next d _ =>
      split at h
      . next a hserving =>
        obtain ⟨rfl, rfl⟩ := EStateM.Result.ok.inj h
        exact ⟨(serving?_eq_some hserving).2.1, .inl rfl⟩
      . split at h
        . next a hpreferred =>
          obtain ⟨id, _, hget⟩ := Option.bind_eq_some_iff.mp hpreferred
          obtain ⟨rfl, hp'⟩ := commit_cases h
          exact ⟨by rw [(mem_of_get?_eq_some hget).2], hp'⟩
        . dsimp only at h
          split at h
          . cases h
          . split at h
            . cases h
            . obtain ⟨rfl, hp'⟩ := commit_cases h
              exact ⟨rfl, hp'⟩

theorem join_eq_ok (h : join t occ key p = .ok k p') : commit t occ key none p = .ok k p' := by
  unfold join at h
  split at h
  . exact h
  . cases h

theorem Continues.of_cases (h : p' = p ∨ p' = p.enter occ key partner) : p.Continues p' := by
  rcases h with h | h
  . rw [h]
    exact .refl p
  . rw [h]
    exact continues_enter

theorem commit_continues (h : commit t occ key partner p = .ok k p') : p.Continues p' :=
  .of_cases (commit_cases h).2

theorem serve_continues {tile : Coord} {preferred : Option Nat}
    (h : serve t occ tile preferred p = .ok k p') : p.Continues p' :=
  .of_cases (serve_cases h).2

theorem openInterface_continues {facing : Coord} (h : openInterface t occ facing p = .ok k p') :
    p.Continues p' := by
  unfold openInterface at h
  split at h
  . cases h
  . split at h
    . cases h
    . split at h
      . cases h
      . split at h
        . -- that an interface slot is taken changes none of the channels that are open
          have hcont := commit_continues h
          exact hcont
        . cases h

theorem joinAll_continues {ops : List Occurrence} (h : joinAll t key p ops = .ok p') :
    p.Continues p' := by
  refine foldlM_eq_ok (fun _ (p' : ChannelPool) => p.Continues p') h (.refl p) ?_
  intro _ occ _ p₁ p₂ _ hcont hstep
  obtain ⟨⟨k, p₂⟩, hjoin, rfl⟩ := map_eq_ok hstep
  exact hcont.trans (commit_continues (join_eq_ok (attempt_eq_ok hjoin)))

theorem serveExternal_continues {index : ReuseIndex} {ends : List Ends} {ops : List Occurrence}
    {anchors : List ChannelKey} {need : Direction}
    (h : serveExternal t index ends ops anchors need p = .ok (key, p')) : p.Continues p' := by
  unfold serveExternal at h
  split at h
  . cases h
  . dsimp only at h
    split at h
    . obtain ⟨_, hpure, h⟩ := bind_eq_ok h
      obtain rfl := Except.ok.inj hpure
      obtain ⟨p₁, hjoin, h⟩ := bind_eq_ok h
      obtain ⟨_, rfl⟩ := Prod.mk.inj (Except.ok.inj h)
      exact joinAll_continues hjoin
    . split at h
      . cases h
      . obtain ⟨⟨k, p₁⟩, hopen, h⟩ := bind_eq_ok h
        obtain ⟨p₂, hjoin, h⟩ := bind_eq_ok h
        obtain ⟨_, rfl⟩ := Prod.mk.inj (Except.ok.inj h)
        exact (openInterface_continues (attempt_eq_ok hopen)).trans (joinAll_continues hjoin)

end ChannelPool

/-! ### The passes -/

namespace Endpoint

variable {t : Target} {flow : String} {tileOf : Op → Except CompileError Coord}
  {p p' : ChannelPool} {e e' : Endpoint}

theorem assign_continues (h : assign t flow tileOf p e = .ok (e', p')) : p.Continues p' := by
  unfold assign at h
  obtain ⟨⟨known, p₁⟩, hfold, h⟩ := bind_eq_ok h
  obtain ⟨_, rfl⟩ := Prod.mk.inj (Except.ok.inj h)
  refine foldlM_eq_ok (fun _ (state : Option ChannelKey × ChannelPool) =>
    p.Continues state.2) hfold (.refl p) ?_
  rintro _ occ _ ⟨known, p₁⟩ state _ hcont hstep
  unfold serveOp at hstep
  obtain ⟨tile, _, hstep⟩ := bind_eq_ok hstep
  obtain ⟨⟨key, p₂⟩, hserve, hstep⟩ := bind_eq_ok hstep
  obtain ⟨_, _, hstep⟩ := bind_eq_ok hstep
  obtain rfl := Except.ok.inj hstep
  exact hcont.trans (ChannelPool.serve_continues (attempt_eq_ok hserve))

theorem assignAll_continues {es es' : List Endpoint}
    (h : threadM (assign t flow tileOf) p es = .ok (es', p')) : p.Continues p' := by
  refine threadM_eq_ok (fun _ _ (p' : ChannelPool) => p.Continues p') h (.refl p) ?_
  intro _ _ e _ p₁ e' p₂ _ hcont hassign
  exact hcont.trans (assign_continues hassign)

end Endpoint

namespace Bundle

variable {t : Target} {tileOf : Op → Except CompileError Coord} {p p' : ChannelPool} {b b' : Bundle}
  {index : ReuseIndex} {before after : List Ends}

/--
The producing end comes first, then the consuming ones.
-/
theorem assignLevel_eq : b.assignLevel t tileOf p =
    (if b.producerLevel = p.level then b.producer.assign t b.name tileOf p
      else pure (b.producer, p)) >>= fun r =>
    (if b.consumerLevel = r.2.level then threadM (Endpoint.assign t b.name tileOf) r.2 b.consumers
      else pure (b.consumers, r.2)) >>= fun s =>
    pure ({ b with producer := r.1, consumers := s.1 }, s.2) := by
  unfold assignLevel
  by_cases hproducer : b.producerLevel = p.level
  . rw [if_pos hproducer, if_pos hproducer]
    apply bind_congr
    intro ⟨producer, p₁⟩
    by_cases hconsumer : b.consumerLevel = p₁.level
    . simp only [if_pos hconsumer]
    . simp only [if_neg hconsumer]
  . rw [if_neg hproducer, if_neg hproducer]
    by_cases hconsumer : b.consumerLevel = p.level
    . simp only [pure_bind, if_pos hconsumer]
    . simp only [pure_bind, if_neg hconsumer]

theorem assignLevel_continues (h : b.assignLevel t tileOf p = .ok (b', p')) : p.Continues p' := by
  rw [assignLevel_eq] at h
  obtain ⟨⟨producer, p₁⟩, hproducer, h⟩ := bind_eq_ok h
  obtain ⟨⟨consumers, p₂⟩, hconsumers, h⟩ := bind_eq_ok h
  obtain ⟨_, rfl⟩ := Prod.mk.inj (Except.ok.inj h)
  have h₁ : p.Continues p₁ := by
    split at hproducer
    . exact Endpoint.assign_continues hproducer
    . obtain ⟨_, rfl⟩ := Prod.mk.inj (Except.ok.inj hproducer)
      exact .refl p
  have h₂ : p₁.Continues p₂ := by
    dsimp only at hconsumers
    split at hconsumers
    . exact Endpoint.assignAll_continues hconsumers
    . obtain ⟨_, rfl⟩ := Prod.mk.inj (Except.ok.inj hconsumers)
      exact .refl p₁
  exact h₁.trans h₂

theorem assignExternalProducer_continues
    (h : b.assignExternalProducer t index before after p = .ok (b', p')) : p.Continues p' := by
  unfold assignExternalProducer at h
  split at h
  . obtain ⟨⟨key, p₁⟩, hserve, h⟩ := bind_eq_ok h
    obtain ⟨_, rfl⟩ := Prod.mk.inj (Except.ok.inj h)
    exact ChannelPool.serveExternal_continues hserve
  . obtain ⟨_, rfl⟩ := Prod.mk.inj (Except.ok.inj h)
    exact .refl p

theorem assignExternalConsumer_continues
    (h : b.assignExternalConsumer t index before after p = .ok (b', p')) : p.Continues p' := by
  unfold assignExternalConsumer at h
  split at h
  . split at h
    . obtain ⟨_, _, h⟩ := bind_eq_ok h
      cases h
    . obtain ⟨e, _, h⟩ := bind_eq_ok h
      obtain ⟨⟨key, p₁⟩, hserve, h⟩ := bind_eq_ok h
      obtain ⟨_, rfl⟩ := Prod.mk.inj (Except.ok.inj h)
      exact ChannelPool.serveExternal_continues hserve
  . obtain ⟨_, rfl⟩ := Prod.mk.inj (Except.ok.inj h)
    exact .refl p

end Bundle

end TileTraffic
