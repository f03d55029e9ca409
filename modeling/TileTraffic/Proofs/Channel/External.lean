import TileTraffic.Proofs.Channel.Level
import TileTraffic.Proofs.Flow.Reuse

/-!
Assignment of the external ends. Each of them is put on an interface channel that is open already or
on the next free one, and the pass over all bundles is a run of such steps.
-/

namespace TileTraffic

namespace ChannelPool

variable {g : Graph} {t : Target} {p p' : ChannelPool} {occ : Occurrence} {key : ChannelKey}
  {ops : List Occurrence}

/--
What running ops on an open channel does to a pool.
-/
structure Joined (g : Graph) (t : Target) (key : ChannelKey) (ops : List Occurrence)
    (p p' : ChannelPool) : Prop where
  sound : p'.Sound g t
  grows : p.Grows p' (· = key)
  serves : ∀ occ ∈ ops, p'.Serves key occ.op.id
  slots_eq : p'.slots = p.slots
  total_le : p'.total ≤ p.total + ops.length

theorem Joined.push (h : Joined g t key ops p p') {p'' : ChannelPool} {partner : Option Coord}
    (hfits : Fits g t p'.level occ key) (hstep : Step t occ key partner p' p'') :
    Joined g t key (ops ++ [occ]) p p'' where
  sound := hstep.sound h.sound hfits
  grows := h.grows.trans hstep.grows
  serves := by
    intro o ho
    rcases List.mem_append.mp ho with ho | ho
    . exact hstep.grows.serves (h.serves o ho)
    . obtain rfl := List.mem_singleton.mp ho
      exact hstep.serves
  slots_eq := hstep.slots_eq.trans h.slots_eq
  total_le := by
    have hbefore := h.total_le
    have hone := hstep.total_le h.sound.keys_nodup
    rw [List.length_append, List.length_singleton]
    omega

theorem joinAll_yields (hp : p.Sound g t) (hopen : key ∈ p.keys)
    (hops : ∀ occ ∈ ops, Fits g t p.level occ key) :
    Yields (joinAll t key p ops) (Joined g t key ops p) := by
  apply Yields.foldlM fun done p' => Joined g t key done p p'
  . exact ⟨hp, .refl, by simp, rfl, Nat.le_refl _⟩
  . intro done occ hocc p' hjoined
    apply Yields.map
    apply Runs.attempt (P := fun _ p'' => Joined g t key (done ++ [occ]) p p'')
    apply (join_runs hjoined.sound (hops occ hocc).mem (hjoined.grows.keys_subset hopen)).mono
    intro k p'' ⟨_, hstep⟩
    apply hjoined.push _ hstep
    rw [hjoined.grows.level]
    exact hops occ hocc

theorem joinAll_cons_of_runsOn {rest : List Occurrence} (hp : p.Sound g t)
    (hocc : occ ∈ g.occurrences) (hr : p.RunsOn key occ) :
    joinAll t key p (occ :: rest) = joinAll t key p rest := by
  have hjoin : (attempt occ.op (join t occ key) p).map Prod.snd = .ok p := by
    unfold attempt
    rw [join_of_runsOn hp hocc hr]
    rfl
  unfold joinAll
  rw [List.foldlM_cons, hjoin]
  rfl

theorem Step.partner_eq {partner : Option Coord} (hstep : Step t occ key partner p p')
    (hnew : key ∉ p.keys) : ∃ a ∈ p'.opened, a.key = key ∧ a.partner = partner := by
  cases hstep with
  | served h => exact absurd h.mem_keys hnew
  | entered =>
    refine ⟨⟨key, p.level, partner, [occ.op.id], [occ]⟩, ?_, rfl, rfl⟩
    rw [opened_enter_of_not_mem hnew]
    simp

/--
How the channel of an external end comes about: it is the one that was found, or else the next free
one, which faces the first of the anchors.
-/
inductive Choice (t : Target) (need : Direction) (found : Option ChannelKey)
    (anchors : List ChannelKey) (key : ChannelKey) (p p' : ChannelPool) : Prop where
  | reused (hfound : found = some key) (hslots : p'.slots = p.slots)
  | opened (anchor : ChannelKey) (hanchor : anchors.head? = some anchor) (hfound : found = none)
    (hslot : p.slots.peek t need = .ok (key.tile, key.id))
    (hslots : p'.slots = p.slots.advance t need)
    (hpartner : key ∉ p.keys → ∃ a ∈ p'.opened, a.key = key ∧ a.partner = some anchor.tile)
    (hsound : p.slots.Sound t)

/--
The ops of an external end have been put on an interface channel.
-/
structure Picked (g : Graph) (t : Target) (need : Direction) (found : Option ChannelKey)
    (anchors : List ChannelKey) (ops : List Occurrence) (p : ChannelPool) (key : ChannelKey)
    (p' : ChannelPool) : Prop where
  sound : p'.Sound g t
  grows : p.Grows p' (· = key)
  mem_keys : key ∈ p'.keys
  served : ServedBy (fun _ tile => tile.row = 0) need p' ops key
  total_le : p'.total ≤ p.total + ops.length
  choice : Choice t need found anchors key p p'

theorem sits_row {level : Level} (hlevel : level = .external) (hfits : Fits g t level occ key) :
    key.tile.row = 0 := by
  subst hlevel
  exact hfits.hosts.1

variable {index : ReuseIndex} {ends : List Ends} {anchors : List ChannelKey} {need : Direction}

theorem reuse_yields (hp : p.Sound g t) (hlevel : p.level = .external)
    (hops : ∀ occ ∈ ops, occ ∈ g.occurrences ∧ occ.op.directionAt p.level = .ok need)
    (hopen : key ∈ p.keys) (hd : key.direction = need) :
    Yields (joinAll t key p ops) fun p' =>
      Picked g t need (some key) anchors ops p key p' := by
  have hfits : ∀ occ ∈ ops, Fits g t p.level occ key := by
    intro occ hocc
    obtain ⟨a, ha, rfl⟩ := List.mem_map.mp hopen
    have hkey := (hp.allocation a ha).key_fits
    obtain ⟨hmem, hdir⟩ := hops occ hocc
    exact ⟨hmem, by rw [hd]; exact hdir, hkey.1, hkey.2⟩
  apply (joinAll_yields hp hopen hfits).mono
  intro p' hjoined
  refine ⟨hjoined.sound, hjoined.grows, hjoined.grows.keys_subset hopen,
    ⟨hd, hjoined.serves, ?_⟩, hjoined.total_le, ?_⟩
  . intro occ hocc
    exact sits_row hlevel (hfits occ hocc)
  . exact .reused rfl hjoined.slots_eq

theorem open_yields {anchor : ChannelKey} {rest : List ChannelKey} {others : List Occurrence}
    (hp : p.Sound g t) (hlevel : p.level = .external)
    (hops : ∀ o ∈ occ :: others, o ∈ g.occurrences ∧ o.op.directionAt p.level = .ok need) :
    Yields (attempt occ.op (openInterface t occ anchor.tile) p >>= fun r =>
        joinAll t r.1 r.2 (occ :: others) >>= fun p' => pure (r.1, p')) fun r =>
      Picked g t need none (anchor :: rest) (occ :: others) p r.1 r.2 := by
  obtain ⟨hocc, hdir⟩ := hops occ (by simp)
  apply Yields.bind
  . apply Runs.attempt
    exact openInterface_runs hp hlevel hocc hdir anchor.tile
  intro ⟨key, p'⟩ ⟨hd, hslot, hfits, hstep, hr⟩
  have hp' : p'.Sound g t := by
    apply hstep.sound _ hfits
    exact sound_slots hp (hp.slots_sound.advance need)
  -- the pool with the slot taken has the channels of `p`
  have hgrows : p.Grows p' (· = key) :=
    ⟨hstep.grows.level, hstep.grows.kept, hstep.grows.introduced⟩
  have hall : ∀ o ∈ others, Fits g t p'.level o key := by
    intro o ho
    obtain ⟨hmem, hodir⟩ := hops o (by simp [ho])
    rw [hgrows.level]
    exact ⟨hmem, by rw [hd]; exact hodir, hfits.id_lt, hfits.hosts⟩
  dsimp only
  -- opening the channel has put the first op on it: to join it again changes nothing
  rw [joinAll_cons_of_runsOn hp' hocc hr]
  apply (joinAll_yields hp' hstep.serves.mem_keys hall).bind
  intro p'' hjoined
  apply Yields.pure
  refine ⟨hjoined.sound, hgrows.trans hjoined.grows,
    hjoined.grows.keys_subset hstep.serves.mem_keys, ⟨hd, ?_, ?_⟩, ?_, ?_⟩
  . intro o ho
    rcases List.mem_cons.mp ho with rfl | ho
    . exact hjoined.grows.serves hstep.serves
    . exact hjoined.serves o ho
  . intro o _
    exact sits_row hlevel hfits
  . have hone : p'.total ≤ p.total + 1 := hstep.total_le hp.keys_nodup
    have hrest := hjoined.total_le
    dsimp only
    rw [List.length_cons]
    omega
  . refine .opened anchor rfl rfl hslot (hjoined.slots_eq.trans hstep.slots_eq) ?_
      hp.slots_sound
    intro hnew
    obtain ⟨a, ha, hkey, hpartner⟩ := hstep.partner_eq hnew
    obtain ⟨a', ha', hkey', hpartner', _⟩ := hjoined.grows.kept a ha
    exact ⟨a', ha', hkey'.trans hkey, hpartner'.trans hpartner⟩

/--
An external end with ops and a far end gets a channel, provided that whatever may be found is open.
-/
theorem serveExternal_yields (hp : p.Sound g t) (hlevel : p.level = .external) (hne : ops ≠ [])
    (hanchors : anchors ≠ [])
    (hops : ∀ occ ∈ ops, occ ∈ g.occurrences ∧ occ.op.directionAt p.level = .ok need)
    (hfound : ∀ key, index.findReuse ends anchors need (p.reusable t) = some key → key ∈ p.keys) :
    Yields (serveExternal t index ends ops anchors need p) fun r =>
      Picked g t need (index.findReuse ends anchors need (p.reusable t)) anchors ops p r.1 r.2 := by
  obtain ⟨occ, others, rfl⟩ := List.exists_cons_of_ne_nil hne
  obtain ⟨anchor, rest, rfl⟩ := List.exists_cons_of_ne_nil hanchors
  unfold serveExternal
  dsimp only
  cases hreuse : index.findReuse ends (anchor :: rest) need (p.reusable t) with
  | some key =>
    obtain ⟨_, _, _, _, _, _, _, hd, _⟩ := ReuseIndex.findReuse_eq_some hreuse
    apply Yields.pure_bind
    apply (reuse_yields hp hlevel hops (hfound key hreuse) hd).bind
    intro p' hpicked
    exact hpicked
  | none => exact open_yields hp hlevel hops

end ChannelPool

namespace Bundle

variable {g : Graph} {t : Target} {p p' : ChannelPool} {b b' : Bundle} {index : ReuseIndex}
  {ends : List Ends}

/--
What the external pass does to a bundle. `ends` are the ends of all bundles at that point.
-/
inductive ExternalStep (g : Graph) (t : Target) (index : ReuseIndex) (ends : List Ends)
    (p : ChannelPool) (b : Bundle) : Bundle → ChannelPool → Prop where
  | passed (hproducer : b.producerLevel ≠ .external) (hconsumer : b.consumerLevel ≠ .external) :
    ExternalStep g t index ends p b b p
  | producer (key : ChannelKey) (p' : ChannelPool) (hlevel : b.producerLevel = .external)
    (hpicked : ChannelPool.Picked g t .outbound
      (index.findReuse ends (b.ends.anchors .outbound) .outbound (p.reusable t))
      (b.ends.anchors .outbound) b.producer.ops p key p') :
    ExternalStep g t index ends p b (b.withProducer key) p'
  | consumer (e : Endpoint) (key : ChannelKey) (p' : ChannelPool)
    (hlevel : b.consumerLevel = .external) (hconsumers : b.consumers = [e])
    (hpicked : ChannelPool.Picked g t .inbound
      (index.findReuse ends (b.ends.anchors .inbound) .inbound (p.reusable t))
      (b.ends.anchors .inbound) e.ops p key p') :
    ExternalStep g t index ends p b (b.withConsumer key) p'

/--
The interface channels that the bundles have are open.
-/
def InterfacesOpen (t : Target) (p : ChannelPool) (ends : List Ends) : Prop :=
  ∀ e ∈ ends, ∀ need, ∀ key ∈ e.keysToward need,
    t.roleOfRow key.tile.row = .interface → key ∈ p.keys

theorem InterfacesOpen.mem_keys_of_findReuse {anchors : List ChannelKey} {need : Direction}
    (h : InterfacesOpen t p ends) {key : ChannelKey}
    (hfound : index.findReuse ends anchors need (p.reusable t) = some key) : key ∈ p.keys := by
  obtain ⟨_, _, n, _, e, he, hkey, _, hreusable⟩ := ReuseIndex.findReuse_eq_some hfound
  unfold ChannelPool.reusable at hreusable
  rw [Bool.and_eq_true] at hreusable
  apply h e (List.mem_of_getElem? he) need key hkey
  simpa using hreusable.1

/--
The bundle is ready for the external pass: its external ends have no channels yet, and its other
ends have channels on tiles of their own.
-/
structure Prepared (g : Graph) (t : Target) (b : Bundle) : Prop where
  sound : b.Sound g t
  unkeyed : ∀ x ∈ b.endsAt .external, x.2.key = none
  keyed : ∀ level, level ≠ .external → ∀ x ∈ b.endsAt level,
    ∃ key, x.2.key = some key ∧ t.roleOfRow key.tile.row ≠ .interface

namespace Prepared

theorem not_interface (h : b.Prepared g t) {need : Direction} {key : ChannelKey}
    (hkey : key ∈ b.ends.keysToward need) : t.roleOfRow key.tile.row ≠ .interface := by
  obtain ⟨x, hx, _, hxkey⟩ := mem_keysToward_iff.mp hkey
  by_cases hlevel : b.sideLevel need = .external
  . rw [hlevel] at hx
    rw [h.unkeyed x hx] at hxkey
    cases hxkey
  . obtain ⟨key', hkey', hrole⟩ := h.keyed _ hlevel x hx
    obtain rfl : key' = key := by simpa [hkey'] using hxkey
    exact hrole

theorem anchors_outbound_ne (h : b.Prepared g t) (hlevel : b.producerLevel = .external) :
    b.ends.anchors .outbound ≠ [] := by
  obtain ⟨e, es, hcons⟩ := h.sound.exists_consumer
  have hconsumer : b.consumerLevel ≠ .external := by
    intro hc
    exact h.sound.level_ne (hlevel.trans hc.symm)
  have hmem : (.inbound, e) ∈ b.endsAt b.consumerLevel := consumer_mem_endsAt (by simp [hcons])
  obtain ⟨key, hkey, _⟩ := h.keyed _ hconsumer _ hmem
  dsimp only at hkey
  simp [Ends.anchors, Ends.consumerKeys, ends, hcons, hkey]

theorem anchors_inbound_ne (h : b.Prepared g t) (hlevel : b.consumerLevel = .external) :
    b.ends.anchors .inbound ≠ [] := by
  have hproducer : b.producerLevel ≠ .external := by
    intro hc
    exact h.sound.level_ne (hc.trans hlevel.symm)
  obtain ⟨key, hkey, _⟩ := h.keyed _ hproducer _ producer_mem_endsAt
  dsimp only at hkey
  simp [Ends.anchors, ends, hkey]

end Prepared

theorem ops_at_external (hb : b.Sound g t) (hlevel : p.level = .external)
    {x : Direction × Endpoint} (hx : x ∈ b.endsAt .external) :
    ∀ occ ∈ x.2.ops, occ ∈ g.occurrences ∧ occ.op.directionAt p.level = .ok x.1 := by
  intro occ hocc
  rw [hlevel]
  exact ⟨hb.mem_occurrences hx hocc, hb.directionAt hx hocc⟩

theorem Sound.exists_single (hb : b.Sound g t) (hbroadcast : ¬ b.isBroadcast = true) :
    ∃ e, b.consumers = [e] := by
  obtain ⟨e, es, hcons⟩ := hb.exists_consumer
  have hlength : ¬ 1 < b.consumers.length := by
    simpa [isBroadcast, Ends.isBroadcast, ends] using hbroadcast
  rw [hcons] at hlength ⊢
  cases es with
  | nil => exact ⟨e, rfl⟩
  | cons => simp at hlength

section step

variable (index : ReuseIndex) (h : b.Prepared g t) (hp : p.Sound g t) (hlevel : p.level = .external)
  {before after : List Ends} (hopen : InterfacesOpen t p (before ++ b.ends :: after))

include h hp hlevel hopen

theorem assignExternalProducer_yields (hproducer : b.producerLevel = .external) :
    Yields (b.assignExternalProducer t index before after p) fun r =>
      ExternalStep g t index (before ++ b.ends :: after) p b r.1 r.2 ∧
        r.1.consumerLevel = b.consumerLevel := by
  have hb := h.sound
  have hmem : (.outbound, b.producer) ∈ b.endsAt .external := by
    rw [← hproducer]
    exact producer_mem_endsAt
  unfold assignExternalProducer
  rw [if_pos hproducer]
  apply (ChannelPool.serveExternal_yields hp hlevel hb.producer_ne
    (h.anchors_outbound_ne hproducer) (ops_at_external hb hlevel hmem)
    fun key hkey => hopen.mem_keys_of_findReuse hkey).bind
  intro ⟨key, p'⟩ hpicked
  apply Yields.pure
  exact ⟨.producer key p' hproducer hpicked, rfl⟩

theorem assignExternalConsumer_yields (hconsumer : b.consumerLevel = .external) :
    Yields (b.assignExternalConsumer t index before after p) fun r =>
      ExternalStep g t index (before ++ b.ends :: after) p b r.1 r.2 := by
  have hb := h.sound
  unfold assignExternalConsumer
  rw [if_pos hconsumer]
  by_cases hbroadcast : b.isBroadcast = true
  . rw [if_pos hbroadcast]
    obtain ⟨first, rest, hcons⟩ := List.exists_cons_of_ne_nil hb.producer_ne
    have hfirst : b.producer.ops[0]? = some first := by simp [hcons]
    apply (elementAt_yields hfirst).bind
    intro _ _
    apply Yields.throw
    rw [Op.isInternal_blame]
    rfl
  . rw [if_neg hbroadcast]
    obtain ⟨e, hsingle⟩ := hb.exists_single hbroadcast
    have hmem : (.inbound, e) ∈ b.endsAt .external := by
      rw [← hconsumer]
      exact consumer_mem_endsAt (by simp [hsingle])
    have hfirst : b.consumers[0]? = some e := by simp [hsingle]
    apply (elementAt_yields hfirst).bind
    intro _ he
    subst he
    apply (ChannelPool.serveExternal_yields hp hlevel (hb.ends_ne hmem)
      (h.anchors_inbound_ne hconsumer) (ops_at_external hb hlevel hmem)
      fun key hkey => hopen.mem_keys_of_findReuse hkey).bind
    intro ⟨key, p'⟩ hpicked
    apply Yields.pure
    exact .consumer _ key p' hconsumer hsingle hpicked

theorem assignExternal_step_yields :
    Yields (b.assignExternalProducer t index before after p >>= fun r =>
        r.1.assignExternalConsumer t index before after r.2) fun r =>
      ExternalStep g t index (before ++ b.ends :: after) p b r.1 r.2 := by
  by_cases hproducer : b.producerLevel = .external
  . -- then the consuming ends are not external, and the second attempt does nothing
    apply (assignExternalProducer_yields index h hp hlevel hopen hproducer).bind
    intro ⟨b', p'⟩ ⟨hstep, hsame⟩
    have hconsumer : b'.consumerLevel ≠ .external := by
      intro hc
      exact h.sound.level_ne (hproducer.trans (hsame.symm.trans hc).symm)
    unfold assignExternalConsumer
    rw [if_neg hconsumer]
    exact hstep
  . unfold assignExternalProducer
    rw [if_neg hproducer]
    apply Yields.pure_bind
    by_cases hconsumer : b.consumerLevel = .external
    . exact assignExternalConsumer_yields index h hp hlevel hopen hconsumer
    . unfold assignExternalConsumer
      rw [if_neg hconsumer]
      exact .passed hproducer hconsumer

end step

namespace ExternalStep

theorem sound (h : ExternalStep g t index ends p b b' p') (hp : p.Sound g t) : p'.Sound g t := by
  cases h with
  | passed => exact hp
  | producer _ _ _ hpicked => exact hpicked.sound
  | consumer _ _ _ _ _ hpicked => exact hpicked.sound

theorem assigned (h : ExternalStep g t index ends p b b' p') (hb : b.Sound g t)
    (hlevel : p.level = .external) : Assigned (fun _ tile => tile.row = 0) p p' b b' := by
  cases h with
  | passed hproducer hconsumer =>
    rw [← hlevel] at hproducer hconsumer
    exact .refl hproducer hconsumer
  | producer key p' hproducer hpicked =>
    rw [← hlevel] at hproducer
    have hconsumer : b.consumerLevel ≠ p.level := by
      intro h
      exact hb.level_ne (hproducer.trans h.symm)
    unfold withProducer
    apply Assigned.ofProducer hproducer hconsumer
    . rfl
    . apply hpicked.grows.mono
      intro k hk
      rw [hk]
    . exact ⟨key, rfl, hpicked.served⟩
  | consumer e key p' hconsumer hsingle hpicked =>
    rw [← hlevel] at hconsumer
    have hproducer : b.producerLevel ≠ p.level := by
      intro h
      exact hb.level_ne (h.trans hconsumer.symm)
    unfold withConsumer
    rw [hsingle]
    apply Assigned.ofConsumers hproducer hconsumer
    . rw [hsingle]
      rfl
    . apply hpicked.grows.mono
      intro k hk
      exact ⟨_, List.mem_singleton.mpr rfl, by rw [hk]⟩
    . intro e' he'
      obtain rfl := List.mem_singleton.mp he'
      exact ⟨key, rfl, hpicked.served⟩

theorem keysToward_subset (h : ExternalStep g t index ends p b b' p') {need : Direction}
    {key : ChannelKey} (hkey : key ∈ b'.ends.keysToward need) :
    key ∈ b.ends.keysToward need ∨ key ∈ p'.keys := by
  cases h with
  | passed => exact .inl hkey
  | producer key' p' hproducer hpicked =>
    cases need with
    | inbound => exact .inl hkey
    | outbound =>
      obtain rfl : key = key' := by
        simpa [Ends.keysToward, Bundle.ends, withProducer, eq_comm] using hkey
      exact .inr hpicked.mem_keys
  | consumer e key' p' hconsumer hsingle hpicked =>
    cases need with
    | outbound => exact .inl hkey
    | inbound =>
      obtain rfl : key = key' := by
        simpa [Ends.keysToward, Ends.consumerKeys, Bundle.ends, withConsumer, hsingle, eq_comm]
          using hkey
      exact .inr hpicked.mem_keys

theorem interfacesOpen {before after : List Ends}
    (h : ExternalStep g t index (before ++ b.ends :: after) p b b' p') (hb : b.Sound g t)
    (hlevel : p.level = .external) (hopen : InterfacesOpen t p (before ++ b.ends :: after)) :
    InterfacesOpen t p' (before ++ b'.ends :: after) := by
  have hkeys : p.keys ⊆ p'.keys := (h.assigned hb hlevel).grows.keys_subset
  intro e he need key hkey hrole
  have hcases : e = b'.ends ∨ e ∈ before ++ b.ends :: after := by
    simp only [List.mem_append, List.mem_cons] at he ⊢
    rcases he with he | he | he <;> simp [he]
  rcases hcases with rfl | he
  . rcases h.keysToward_subset hkey with hkey | hkey
    . apply hkeys
      apply hopen b.ends _ need key hkey hrole
      simp
    . exact hkey
  . apply hkeys
    exact hopen e he need key hkey hrole

end ExternalStep

/--
The external pass between two bundles: those in `done` have become those in `bs`.
-/
structure ExternalPass (g : Graph) (t : Target) (p : ChannelPool) (done bs rest : List Bundle) :
    Prop where
  sound : p.Sound g t
  passOver : PassOver (fun _ tile => tile.row = 0) .external p done bs
  interfacesOpen : InterfacesOpen t p (bs.map Bundle.ends ++ rest.map Bundle.ends)

theorem ExternalPass.push {done bs rest : List Bundle} (h : ExternalPass g t p done bs (b :: rest))
    (hb : b.Sound g t)
    (hstep : ExternalStep g t index (bs.map Bundle.ends ++ b.ends :: rest.map Bundle.ends) p b b'
      p') :
    ExternalPass g t p' (done ++ [b]) (bs ++ [b']) rest where
  sound := hstep.sound h.sound
  passOver := h.passOver.push (hstep.assigned hb h.passOver.level_eq)
  interfacesOpen := by
    rw [List.map_append, List.append_assoc]
    exact hstep.interfacesOpen hb h.passOver.level_eq h.interfacesOpen

theorem externalPass_nil {rest : List Bundle} (hrest : ∀ b ∈ rest, b.Prepared g t) :
    ExternalPass g t (.empty .external) [] [] rest where
  sound := ChannelPool.sound_empty .external
  passOver := by
    refine ⟨rfl, rfl, fun _ _ => rfl, ?_, ?_⟩
    . simp [endsOf]
    . simp [ChannelPool.empty, ChannelPool.keys]
  interfacesOpen := by
    intro e he need key hkey hrole
    obtain ⟨b, hb, rfl⟩ := List.mem_map.mp (by simpa using he)
    exact absurd hrole ((hrest b hb).not_interface hkey)

/--
The external pass is a run of external steps: whatever these keep, the pass keeps.
-/
theorem assignExternal_yields (J : List Bundle → ReuseIndex → ChannelPool → List Bundle → Prop)
    (hJ : ∀ {done bs rest : List Bundle} {index : ReuseIndex} {p p' : ChannelPool} {b b' : Bundle},
      (∀ c ∈ b :: rest, c.Prepared g t) → ExternalPass g t p done bs (b :: rest) →
      J bs index p (b :: rest) →
      ExternalStep g t index (bs.map Bundle.ends ++ b.ends :: rest.map Bundle.ends) p b b' p' →
      J (bs ++ [b']) (index.record bs.length b'.ends) p' rest)
    {rest : List Bundle} (hrest : ∀ b ∈ rest, b.Prepared g t) {done bs : List Bundle}
    (h : ExternalPass g t p done bs rest) (hj : J bs index p rest) :
    Yields (assignExternal t bs index p rest) fun r =>
      ExternalPass g t r.2 (done ++ rest) r.1 [] ∧ ∃ index, J r.1 index r.2 [] := by
  induction rest generalizing done bs index p with
  | nil =>
    rw [List.append_nil]
    exact ⟨h, index, hj⟩
  | cons b rest ih =>
    have hb := hrest b (by simp)
    have hstep := assignExternal_step_yields index hb h.sound h.passOver.level_eq h.interfacesOpen
    have hbind : assignExternal t bs index p (b :: rest) =
        (b.assignExternalProducer t index (bs.map ends) (rest.map ends) p >>= fun r =>
          r.1.assignExternalConsumer t index (bs.map ends) (rest.map ends) r.2) >>= fun r =>
        assignExternal t (bs ++ [r.1]) (index.record bs.length r.1.ends) r.2 rest := by
      rw [bind_assoc]
      rfl
    rw [hbind, List.append_cons]
    apply hstep.bind
    intro ⟨b', p'⟩ hstep
    apply ih
    . intro c hc
      apply hrest
      simp [hc]
    . exact h.push hb.sound hstep
    . exact hJ hrest h hj hstep

end Bundle

end TileTraffic
