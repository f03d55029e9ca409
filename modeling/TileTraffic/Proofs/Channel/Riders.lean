import TileTraffic.Proofs.Channel.Links

/-!
Which bundles ride on one interface channel. The search for a channel goes by any one destination of
the bundle that looks for one. So riders with a single destination all have the same one, while a
broadcast brings destinations along that other riders of its channel do not have.
-/

namespace TileTraffic

namespace ChannelPool

variable {g : Graph} {t : Target} {p p' : ChannelPool} {key : ChannelKey} {need : Direction}
  {found : Option ChannelKey} {anchors : List ChannelKey} {ops : List Occurrence}

theorem Picked.taken (h : Picked g t need found anchors ops p key p')
    (hfound : ∀ k, found = some k → k ∈ p.keys) (htaken : ∀ k ∈ p.keys, p.slots.Taken t k) :
    ∀ k ∈ p'.keys, p'.slots.Taken t k := by
  intro k hk
  have hd : key.direction = need := h.served.direction
  cases h.choice with
  | reused hsome hslots =>
    rw [hslots]
    rcases h.grows.introduced k hk with hk | rfl
    . exact htaken k hk
    . exact htaken k (hfound k hsome)
  | opened _ _ _ hslot hslots _ hsound =>
    rw [← hd] at hslot hslots
    rw [hslots]
    rcases h.grows.introduced k hk with hk | rfl
    . exact (htaken k hk).advance key.direction
    . exact InterfaceSlots.taken_peek hsound hslot

end ChannelPool

namespace Bundle

variable {g : Graph} {t : Target} {p p' : ChannelPool} {b b' : Bundle} {index : ReuseIndex}
  {ends : List Ends} {key : ChannelKey}

/--
The bundle sends on the interface channel.
-/
def Rides (b : Bundle) (key : ChannelKey) : Prop :=
  b.producerLevel = .external ∧ b.producer.key = some key

theorem rides_of_mem_keysToward (hlevel : b.sideLevel .outbound = .external)
    (h : key ∈ b.ends.keysToward .outbound) : b.Rides key :=
  ⟨hlevel, by simpa [Ends.keysToward, Bundle.ends] using h⟩

theorem consumerKeys_of_single (hsingle : b.consumers.length = 1) {anchor : ChannelKey}
    (h : anchor ∈ b.ends.consumerKeys) : b.ends.consumerKeys = [anchor] := by
  obtain ⟨e, he⟩ := List.length_eq_one_iff.mp hsingle
  unfold Ends.consumerKeys Bundle.ends at h ⊢
  rw [he] at h ⊢
  cases hkey : e.key with
  | none => simp [hkey] at h
  | some key =>
    obtain rfl : anchor = key := by simpa [hkey] using h
    simp [hkey]

namespace ExternalStep

theorem anchors_subset (h : ExternalStep g t index ends p b b' p') (hb : b.Prepared g t)
    {need : Direction} (hkey : key ∈ b.ends.anchors need) : key ∈ b'.ends.anchors need := by
  cases h with
  | passed => exact hkey
  | producer key' p' hlevel =>
    cases need with
    | outbound => exact hkey
    | inbound =>
      -- there was no channel on the side that has got one
      have hnil : b.ends.keysToward .outbound = [] := hb.keysToward_eq_nil hlevel
      have hmem : key ∈ b.ends.keysToward .outbound := hkey
      rw [hnil] at hmem
      cases hmem
  | consumer e key' p' hlevel =>
    cases need with
    | inbound => exact hkey
    | outbound =>
      have hnil : b.ends.keysToward .inbound = [] := hb.keysToward_eq_nil hlevel
      have hmem : key ∈ b.ends.keysToward .inbound := hkey
      rw [hnil] at hmem
      cases hmem

/--
A bundle that rides after the step has been put on the channel by it.
-/
theorem picked_of_rides (h : ExternalStep g t index ends p b b' p') (hb : b.Prepared g t)
    (hrides : b'.Rides key) : b.producerLevel = .external ∧ b' = b.withProducer key ∧
      ChannelPool.Picked g t .outbound
        (index.findReuse ends (b.ends.anchors .outbound) .outbound (p.reusable t))
        (b.ends.anchors .outbound) b.producer.ops p key p' := by
  cases h with
  | passed hproducer => exact absurd hrides.1 hproducer
  | producer key' p' hlevel hpicked =>
    obtain rfl : key' = key := Option.some.inj hrides.2
    exact ⟨hlevel, rfl, hpicked⟩
  | consumer e key' p' hlevel =>
    have hproducer : b.producerLevel = .external := hrides.1
    exact absurd (hproducer.trans hlevel.symm) hb.sound.level_ne

theorem taken (h : ExternalStep g t index ends p b b' p') (hopen : InterfacesOpen t p ends)
    (htaken : ∀ k ∈ p.keys, p.slots.Taken t k) : ∀ k ∈ p'.keys, p'.slots.Taken t k := by
  cases h with
  | passed => exact htaken
  | producer _ _ _ hpicked =>
    exact hpicked.taken (fun _ hk => hopen.mem_keys_of_findReuse hk) htaken
  | consumer _ _ _ _ _ hpicked =>
    exact hpicked.taken (fun _ hk => hopen.mem_keys_of_findReuse hk) htaken

end ExternalStep

/--
The external pass between two bundles, as far as riders are concerned: all that ride on one channel
have the same destination, if each of them has one only.
-/
structure RiddenPass (t : Target) (bs : List Bundle) (index : ReuseIndex) (p : ChannelPool)
    (rest : List Bundle) : Prop where
  indexes : index.Indexes (bs.map Bundle.ends ++ rest.map Bundle.ends)
  taken : ∀ key ∈ p.keys, p.slots.Taken t key
  sides : ∀ b ∈ bs, ∀ key ∈ b.ends.keysToward .outbound,
    t.roleOfRow key.tile.row = .interface → b.Rides key
  rides_open : ∀ b ∈ bs, ∀ key, b.Rides key → key ∈ p.keys
  alike : ∀ key, t.interfaceColumns.count key.tile.col = 1 →
    (∀ b ∈ bs, b.Rides key → b.consumers.length = 1) →
      ∀ b ∈ bs, ∀ b' ∈ bs, b.Rides key → b'.Rides key → b.ends.consumerKeys = b'.ends.consumerKeys

namespace RiddenPass

variable {done bs rest : List Bundle}

theorem start : RiddenPass t [] (Assignment.indexOf rest) (.empty .external) rest where
  indexes := ReuseIndex.indexes_indexOf rest
  taken := by simp [ChannelPool.empty, ChannelPool.keys]
  sides := by simp
  rides_open := by simp
  alike := by simp

/--
A channel that is found is ridden by a bundle that shares a destination with the one that looks.
-/
theorem exists_rider_of_findReuse (h : RiddenPass t bs index p rest)
    (hprepared : ∀ c ∈ rest, c.Prepared g t) {anchors : List ChannelKey}
    (hfound : index.findReuse (bs.map Bundle.ends ++ rest.map Bundle.ends) anchors .outbound
      (p.reusable t) = some key) :
    ∃ c ∈ bs, c.Rides key ∧ ∃ anchor ∈ anchors, anchor ∈ c.ends.consumerKeys := by
  obtain ⟨anchor, hanchor, e, he, hmem, hkey, _, hreusable⟩ := h.indexes.findReuse_eq_some hfound
  have hrole : t.roleOfRow key.tile.row = .interface := by
    unfold ChannelPool.reusable at hreusable
    rw [Bool.and_eq_true] at hreusable
    simpa using hreusable.1
  rcases List.mem_append.mp he with he | he
  . obtain ⟨c, hc, rfl⟩ := List.mem_map.mp he
    exact ⟨c, hc, h.sides c hc key hkey hrole, anchor, hanchor, hmem⟩
  . obtain ⟨c, hc, rfl⟩ := List.mem_map.mp he
    exact absurd hrole ((hprepared c hc).not_interface hkey)

/--
A new rider with one destination has that of the riders before it, if these have one each.
-/
theorem alike_new (h : RiddenPass t bs index p (b :: rest))
    (hprepared : ∀ c ∈ b :: rest, c.Prepared g t)
    (hstep : ExternalStep g t index (bs.map Bundle.ends ++ b.ends :: rest.map Bundle.ends) p b b'
      p') (hcolumn : t.interfaceColumns.count key.tile.col = 1)
    (hsingle : ∀ c ∈ bs ++ [b'], c.Rides key → c.consumers.length = 1) {c : Bundle} (hc : c ∈ bs)
    (hrides : c.Rides key) (hrides' : b'.Rides key) :
    c.ends.consumerKeys = b'.ends.consumerKeys := by
  obtain ⟨_, rfl, hpicked⟩ := hstep.picked_of_rides (hprepared b (by simp)) hrides'
  cases hpicked.choice with
  | reused hfound =>
    obtain ⟨c', hc', hc'rides, anchor, hanchor, hshared⟩ :=
      h.exists_rider_of_findReuse hprepared hfound
    have hbefore : ∀ c ∈ bs, c.Rides key → c.consumers.length = 1 := fun c hc =>
      hsingle c (by simp [hc])
    rw [h.alike key hcolumn hbefore c hc c' hc' hrides hc'rides,
      consumerKeys_of_single (hbefore c' hc' hc'rides) hshared]
    exact (consumerKeys_of_single (hsingle _ (by simp) hrides') hanchor).symm
  | opened _ _ _ hslot _ _ hsound =>
    -- a channel that is opened has not been ridden before
    rw [← show key.direction = .outbound from hpicked.served.direction] at hslot
    exact absurd (h.taken key (h.rides_open c hc key hrides))
      (InterfaceSlots.not_taken_of_listed_once hsound hcolumn hslot)

theorem push (h : RiddenPass t bs index p (b :: rest))
    (hprepared : ∀ c ∈ b :: rest, c.Prepared g t) (hpass : ExternalPass g t p done bs (b :: rest))
    (hstep : ExternalStep g t index (bs.map Bundle.ends ++ b.ends :: rest.map Bundle.ends) p b b'
      p') : RiddenPass t (bs ++ [b']) (index.record bs.length b'.ends) p' rest where
  indexes := by
    rw [LinkedPass.map_ends_append, ← List.length_map (f := Bundle.ends)]
    exact h.indexes.record fun _ _ hkey => hstep.anchors_subset (hprepared b (by simp)) hkey
  taken := hstep.taken hpass.interfacesOpen h.taken
  sides := by
    intro c hc key hkey hrole
    rcases List.mem_append.mp hc with hc | hc
    . exact h.sides c hc key hkey hrole
    . obtain rfl := List.mem_singleton.mp hc
      cases hstep with
      | passed => exact absurd hrole ((hprepared b (by simp)).not_interface hkey)
      | producer _ _ hlevel => exact rides_of_mem_keysToward hlevel hkey
      | consumer e key' =>
        have hold : key ∈ b.ends.keysToward .outbound := hkey
        exact absurd hrole ((hprepared b (by simp)).not_interface hold)
  rides_open := by
    intro c hc key hrides
    rcases List.mem_append.mp hc with hc | hc
    . have hb := (hprepared b (by simp)).sound
      apply (hstep.assigned hb hpass.passOver.level_eq).grows.keys_subset
      exact h.rides_open c hc key hrides
    . obtain rfl := List.mem_singleton.mp hc
      exact (hstep.picked_of_rides (hprepared b (by simp)) hrides).2.2.mem_keys
  alike := by
    intro key hcolumn hsingle c hc c' hc' hrides hrides'
    have hnew := fun c hc => h.alike_new hprepared hstep hcolumn hsingle (c := c) hc
    have hbefore : ∀ c ∈ bs, c.Rides key → c.consumers.length = 1 := fun c hc =>
      hsingle c (by simp [hc])
    rcases List.mem_append.mp hc with hold | heq
    . rcases List.mem_append.mp hc' with hold' | heq'
      . exact h.alike key hcolumn hbefore c hold c' hold' hrides hrides'
      . rw [List.mem_singleton.mp heq'] at hrides' ⊢
        exact hnew c hold hrides hrides'
    . rw [List.mem_singleton.mp heq] at hrides ⊢
      rcases List.mem_append.mp hc' with hold' | heq'
      . exact (hnew c' hold' hrides' hrides).symm
      . rw [List.mem_singleton.mp heq']

end RiddenPass

end Bundle

end TileTraffic
