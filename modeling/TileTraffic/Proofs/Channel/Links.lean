import TileTraffic.Proofs.Channel.External

/-!
Where interface channels lead. Without broadcasts an interface channel has one channel at its far
end, whichever bundle uses it; it is opened once, facing the tile of that channel; and as long as
there are descriptors, no second one is opened toward the same far end.
-/

namespace TileTraffic

/--
Which interface channels, by direction, have which channels at their far ends.
-/
abbrev Links := Direction → ChannelKey → ChannelKey → Prop

namespace Links

/--
One more link.
-/
def add (links : Links) (need : Direction) (near far : ChannelKey) : Links :=
  fun d n f => links d n f ∨ (d = need ∧ n = near ∧ f = far)

end Links

/--
The links go out from open channels, each of which leads to one far end and faces its tile; all open
channels have been handed out.
-/
structure Paired (t : Target) (links : Links) (p : ChannelPool) : Prop where
  near_open : ∀ {d near far}, links d near far → near ∈ p.keys
  direction : ∀ {d near far}, links d near far → near.direction = d
  far_unique : ∀ {d near far far'}, links d near far → links d near far' → far = far'
  partner : ∀ {d far} {a : Allocation}, a ∈ p.opened → links d a.key far →
    a.partner = some far.tile
  taken : ∀ key ∈ p.keys, p.slots.Taken t key

/--
No two channels of one direction lead to the same far end.
-/
def Unshared (links : Links) : Prop :=
  ∀ d near near' far, links d near far → links d near' far → near = near'

namespace Paired

variable {g : Graph} {t : Target} {links : Links} {p p' : ChannelPool} {need : Direction}
  {found : Option ChannelKey} {far key : ChannelKey} {ops : List Occurrence}

theorem congr {links' : Links} (h : Paired t links p)
    (heq : ∀ d near far, links' d near far ↔ links d near far) : Paired t links' p := by
  have : links' = links := by
    funext d near far
    exact propext (heq d near far)
  rw [this]
  exact h

theorem exists_old (hp' : p'.Sound g t) {new : ChannelKey → Prop} (hgrows : p.Grows p' new)
    {a' : Allocation} (ha' : a' ∈ p'.opened) (hkey : a'.key ∈ p.keys) :
    ∃ a ∈ p.opened, a.key = a'.key ∧ a.partner = a'.partner := by
  obtain ⟨a, ha, hak⟩ := List.mem_map.mp hkey
  obtain ⟨a'', ha'', hk, hpartner, _⟩ := hgrows.kept a ha
  obtain rfl : a'' = a' := eq_of_nodup_map hp'.keys_nodup ha'' ha' (hk.trans hak)
  exact ⟨a, ha, hak, hpartner.symm⟩

theorem reuse (h : Paired t links p) (hp' : p'.Sound g t) (hgrows : p.Grows p' (· = key))
    (hkey : key ∈ p.keys) (hslots : p'.slots = p.slots) : Paired t links p' where
  near_open := fun hl => hgrows.keys_subset (h.near_open hl)
  direction := h.direction
  far_unique := h.far_unique
  partner := by
    intro d far a' ha' hl
    obtain ⟨a, ha, hak, hpartner⟩ := exists_old hp' hgrows ha' (h.near_open hl)
    rw [← hak] at hl
    rw [← hpartner]
    exact h.partner ha hl
  taken := by
    intro k hk
    rw [hslots]
    rcases hgrows.introduced k hk with hk | rfl
    . exact h.taken k hk
    . exact h.taken k hkey

theorem fresh (h : Paired t links p) (hp' : p'.Sound g t) (hgrows : p.Grows p' (· = key))
    (hopen : key ∈ p'.keys) (hd : key.direction = need) (hnew : key ∉ p.keys)
    (hpartner : ∃ a ∈ p'.opened, a.key = key ∧ a.partner = some far.tile)
    (htaken : ∀ k ∈ p'.keys, p'.slots.Taken t k) : Paired t (links.add need key far) p' where
  near_open := by
    rintro d near f (hl | ⟨_, rfl, _⟩)
    . exact hgrows.keys_subset (h.near_open hl)
    . exact hopen
  direction := by
    rintro d near f (hl | ⟨rfl, rfl, _⟩)
    . exact h.direction hl
    . exact hd
  far_unique := by
    rintro d near f f' (hl | ⟨_, rfl, rfl⟩) (hl' | ⟨_, hnear, rfl⟩)
    . exact h.far_unique hl hl'
    . -- the new channel had no link before
      subst hnear
      exact absurd (h.near_open hl) hnew
    . exact absurd (h.near_open hl') hnew
    . rfl
  partner := by
    rintro d f a' ha' (hl | ⟨_, hnear, rfl⟩)
    . obtain ⟨a, ha, hak, hsame⟩ := exists_old hp' hgrows ha' (h.near_open hl)
      rw [← hak] at hl
      rw [← hsame]
      exact h.partner ha hl
    . obtain ⟨a, ha, hak, hfacing⟩ := hpartner
      obtain rfl : a = a' := eq_of_nodup_map hp'.keys_nodup ha ha' (hak.trans hnear.symm)
      exact hfacing
  taken := htaken

theorem pick (h : Paired t links p) (hcolumns : t.interfaceColumns.Nodup)
    (hpicked : ChannelPool.Picked g t need found [far] ops p key p') (hd : key.direction = need)
    (hfound : ∀ k, found = some k → links need k far) : Paired t (links.add need key far) p' := by
  cases hpicked.choice with
  | reused hsome hslots =>
    have hold : links need key far := hfound key hsome
    have hsame := h.reuse hpicked.sound hpicked.grows (h.near_open hold) hslots
    -- the link is not a new one
    apply hsame.congr
    intro d near f
    constructor
    . rintro (hl | ⟨rfl, rfl, rfl⟩)
      . exact hl
      . exact hold
    . exact .inl
  | opened anchor hanchor _ hslot hslots hpartner hsound =>
    obtain rfl : far = anchor := Option.some.inj hanchor
    rw [← hd] at hslot hslots
    -- the channel has not been handed out yet, as have all that are open
    have hnew : key ∉ p.keys := by
      intro hmem
      exact InterfaceSlots.not_taken_of_peek hsound hcolumns hslot (h.taken key hmem)
    apply h.fresh hpicked.sound hpicked.grows hpicked.mem_keys hd hnew (hpartner hnew)
    intro k hk
    rw [hslots]
    rcases hpicked.grows.introduced k hk with hk | rfl
    . exact (h.taken k hk).advance key.direction
    . exact InterfaceSlots.taken_peek hsound hslot

/--
As long as nothing but a missing link makes the search fail, no second channel leads to a far end.
-/
theorem unshared_pick (h : Unshared links)
    (hpicked : ChannelPool.Picked g t need found [far] ops p key p')
    (hfound : ∀ k, found = some k → links need k far)
    (hnone : found = none → ∀ k, ¬ links need k far) : Unshared (links.add need key far) := by
  cases hpicked.choice with
  | reused hsome =>
    have hold : links need key far := hfound key hsome
    rintro d near near' f (hl | ⟨rfl, rfl, rfl⟩) (hl' | ⟨hd, rfl, hf⟩)
    . exact h _ _ _ _ hl hl'
    . subst hd hf
      exact h _ _ _ _ hl hold
    . exact h _ _ _ _ hold hl'
    . rfl
  | opened _ _ hnothing =>
    have hno := hnone hnothing
    rintro d near near' f (hl | ⟨rfl, rfl, rfl⟩) (hl' | ⟨hd, rfl, hf⟩)
    . exact h _ _ _ _ hl hl'
    . subst hd hf
      exact absurd hl (hno near)
    . exact absurd hl' (hno near')
    . rfl

end Paired

namespace Bundle

variable {g : Graph} {t : Target} {p p' : ChannelPool} {b b' : Bundle} {index : ReuseIndex}
  {need : Direction}

/--
The interface channel `near` of the bundle has `far` at its far end.
-/
def LinksTo (b : Bundle) : Links := fun need near far =>
  b.sideLevel need = .external ∧ near ∈ b.ends.keysToward need ∧ far ∈ b.ends.anchors need

/--
The links of a list of bundles.
-/
def linksOf (bs : List Bundle) : Links := fun need near far =>
  ∃ b ∈ bs, b.LinksTo need near far

theorem Prepared.anchors_eq (need : Direction) (h : b.Prepared g t)
    (hunicast : b.consumers.length = 1) (hlevel : b.sideLevel need = .external) :
    ∃ far, b.ends.anchors need = [far] := by
  rw [← List.length_eq_one_iff]
  cases need with
  | outbound =>
    have hpos := List.length_pos_iff.mpr (h.anchors_outbound_ne hlevel)
    have hle : (b.ends.anchors .outbound).length ≤ b.consumers.length := by
      unfold Ends.anchors Ends.consumerKeys
      apply Nat.le_trans (List.length_filterMap_le ..)
      simp [ends]
    omega
  | inbound =>
    have hpos := List.length_pos_iff.mpr (h.anchors_inbound_ne hlevel)
    have hle : (b.ends.anchors .inbound).length ≤ 1 := by
      unfold Ends.anchors
      cases b.ends.producer <;> simp
    omega

theorem Prepared.keysToward_eq_nil (h : b.Prepared g t) (hlevel : b.sideLevel need = .external) :
    b.ends.keysToward need = [] := by
  rw [List.eq_nil_iff_forall_not_mem]
  intro key hkey
  obtain ⟨x, hx, _, hxkey⟩ := mem_keysToward_iff.mp hkey
  rw [hlevel] at hx
  rw [h.unkeyed x hx] at hxkey
  cases hxkey

/--
One step of the external pass, seen from the links: the bundle has no external end, or one link of
it comes into being.
-/
inductive LinkStep (g : Graph) (t : Target) (index : ReuseIndex) (ends : List Ends)
    (p : ChannelPool) (b : Bundle) : Bundle → ChannelPool → Prop where
  | passed (hno : ∀ d, b.sideLevel d ≠ .external) : LinkStep g t index ends p b b p
  | linked (need : Direction) (key far : ChannelKey) (ops : List Occurrence) (b' : Bundle)
    (p' : ChannelPool) (hside : b.sideLevel need = .external)
    (hfar : b.ends.anchors need = [far])
    (hpicked : ChannelPool.Picked g t need (index.findReuse ends [far] need (p.reusable t)) [far]
      ops p key p')
    (hops : ops ≠ [] ∧ ops.length ≤ (b.opsAt .external).length)
    (hside' : ∀ d, b'.sideLevel d = b.sideLevel d)
    (hkeys : ∀ d, b'.ends.keysToward d = if d = need then [key] else b.ends.keysToward d)
    (hanchors : b'.ends.anchors need = [far]) :
    LinkStep g t index ends p b b' p'

theorem ExternalStep.linkStep {ends : List Ends} (h : ExternalStep g t index ends p b b' p')
    (hb : b.Prepared g t) (hunicast : b.consumers.length = 1) :
    LinkStep g t index ends p b b' p' := by
  cases h with
  | passed hproducer hconsumer =>
    apply LinkStep.passed
    intro d
    cases d with
    | outbound => exact hproducer
    | inbound => exact hconsumer
  | producer key p' hlevel hpicked =>
    obtain ⟨far, hfar⟩ := hb.anchors_eq .outbound hunicast hlevel
    rw [hfar] at hpicked
    refine .linked .outbound key far _ _ _ hlevel hfar hpicked ⟨hb.sound.producer_ne, ?_⟩ ?_ ?_ ?_
    . unfold opsAt endsAt
      rw [if_pos hlevel]
      simp
    . intro d
      cases d <;> rfl
    . intro d
      cases d <;> rfl
    . exact hfar
  | consumer e key p' hlevel hsingle hpicked =>
    obtain ⟨far, hfar⟩ := hb.anchors_eq .inbound hunicast hlevel
    have hmem : (.inbound, e) ∈ b.endsAt .external := by
      rw [← hlevel]
      exact consumer_mem_endsAt (by simp [hsingle])
    rw [hfar] at hpicked
    refine .linked .inbound key far _ _ _ hlevel hfar hpicked ⟨hb.sound.ends_ne hmem, ?_⟩ ?_ ?_ ?_
    . unfold opsAt endsAt
      rw [if_pos hlevel, hsingle]
      simp
    . intro d
      cases d <;> rfl
    . intro d
      cases d with
      | outbound => rfl
      | inbound => simp [Ends.keysToward, Ends.consumerKeys, Bundle.ends, withConsumer, hsingle]
    . exact hfar

theorem Sound.sideLevel_inj (h : b.Sound g t) {d d' : Direction}
    (heq : b.sideLevel d = b.sideLevel d') : d = d' := by
  cases d <;> cases d'
  . rfl
  . exact absurd heq.symm h.level_ne
  . exact absurd heq h.level_ne
  . rfl

theorem anchors_eq_keysToward {e : Ends} {d : Direction} (h : d ≠ need) :
    e.anchors d = e.keysToward need := by
  cases d <;> cases need <;> first | rfl | exact absurd rfl h

/--
The external pass between two bundles, as far as links are concerned. Where every op of the graph
could have a descriptor on one interface tile, no two channels lead to the same far end.
-/
structure LinkedPass (g : Graph) (t : Target) (bs : List Bundle) (index : ReuseIndex)
    (p : ChannelPool) (rest : List Bundle) : Prop where
  indexes : index.Indexes (bs.map Bundle.ends ++ rest.map Bundle.ends)
  unicast : ∀ b ∈ rest, b.consumers.length = 1
  sides : ∀ b ∈ bs, ∀ need, ∀ key ∈ b.ends.keysToward need,
    t.roleOfRow key.tile.row = .interface → b.sideLevel need = .external
  paired : Paired t (linksOf bs) p
  total_le : p.total + (rest.flatMap fun b => b.opsAt .external).length ≤ g.ops.length
  unshared : g.ops.length ≤ t.interface.descriptors → Unshared (linksOf bs)

namespace LinkedPass

variable {bs rest : List Bundle} {far key : ChannelKey}

theorem linksOf_of_findReuse (h : LinkedPass g t bs index p rest)
    (hprepared : ∀ c ∈ rest, c.Prepared g t)
    (hfound : index.findReuse (bs.map Bundle.ends ++ rest.map Bundle.ends) [far] need
      (p.reusable t) = some key) : linksOf bs need key far := by
  obtain ⟨anchor, hanchor, e, he, hmem, hkey, hd, hreusable⟩ := h.indexes.findReuse_eq_some hfound
  obtain rfl := List.mem_singleton.mp hanchor
  have hrole : t.roleOfRow key.tile.row = .interface := by
    unfold ChannelPool.reusable at hreusable
    rw [Bool.and_eq_true] at hreusable
    simpa using hreusable.1
  rcases List.mem_append.mp he with he | he
  . obtain ⟨c, hc, rfl⟩ := List.mem_map.mp he
    exact ⟨c, hc, h.sides c hc need key hkey hrole, hkey, hmem⟩
  . -- bundles that are still to come have no interface channels
    obtain ⟨c, hc, rfl⟩ := List.mem_map.mp he
    exact absurd hrole ((hprepared c hc).not_interface hkey)

/--
With a free descriptor on every interface tile, nothing is found only where nothing leads to the far
end.
-/
theorem not_linksOf_of_findReuse (h : LinkedPass g t bs index p rest) (hp : p.Sound g t)
    (hlevel : p.level = .external) (hroom : p.total < t.interface.descriptors)
    (hnone : index.findReuse (bs.map Bundle.ends ++ rest.map Bundle.ends) [far] need
      (p.reusable t) = none) (near : ChannelKey) : ¬ linksOf bs need near far := by
  intro hlink
  have hopen := h.paired.near_open hlink
  have hd := h.paired.direction hlink
  obtain ⟨c, hc, _, hkey, hfar⟩ := hlink
  have he : c.ends ∈ bs.map Bundle.ends ++ rest.map Bundle.ends := by
    apply List.mem_append_left
    exact List.mem_map_of_mem hc
  have hnot := h.indexes.findReuse_eq_none hnone (List.mem_singleton.mpr rfl) he hfar hkey hd
  have hrow : near.tile.row = 0 := by
    have hhosts := hp.hosts hopen
    rw [hlevel] at hhosts
    exact hhosts.1
  have hrole : t.roleOfRow near.tile.row = .interface := by
    unfold Target.roleOfRow
    rw [if_pos hrow]
  -- no tile has used more descriptors than all tiles together
  have hused := hp.used_le_total near.tile
  have hlt : p.used near.tile < (t.budgetAt near.tile).descriptors := by
    unfold Target.budgetAt
    rw [hrole]
    exact Nat.lt_of_le_of_lt hused hroom
  simp [ChannelPool.reusable, ChannelPool.hasRoom, hrole, hlt] at hnot

theorem linksOf_append {d : Direction} {near far : ChannelKey} :
    linksOf (bs ++ [b]) d near far ↔ linksOf bs d near far ∨ b.LinksTo d near far := by
  constructor
  . intro ⟨c, hc, hlink⟩
    rcases List.mem_append.mp hc with hc | hc
    . exact .inl ⟨c, hc, hlink⟩
    . rw [List.mem_singleton.mp hc] at hlink
      exact .inr hlink
  . rintro (⟨c, hc, hlink⟩ | hlink)
    . exact ⟨c, by simp [hc], hlink⟩
    . exact ⟨b, by simp, hlink⟩

theorem linksOf_add (hsides : ∀ d d', b.sideLevel d = b.sideLevel d' → d = d')
    (hside : b.sideLevel need = .external) (hkeys : b.ends.keysToward need = [key])
    (hanchors : b.ends.anchors need = [far]) :
    linksOf (bs ++ [b]) = (linksOf bs).add need key far := by
  funext d near f
  apply propext
  rw [linksOf_append]
  apply or_congr_right
  constructor
  . intro ⟨hl, hnear, hf⟩
    -- only one side of the bundle is external
    obtain rfl : d = need := hsides d need (hl.trans hside.symm)
    rw [hkeys] at hnear
    rw [hanchors] at hf
    exact ⟨rfl, List.mem_singleton.mp hnear, List.mem_singleton.mp hf⟩
  . rintro ⟨rfl, rfl, rfl⟩
    refine ⟨hside, ?_, ?_⟩
    . simp [hkeys]
    . simp [hanchors]

theorem map_ends_append : (bs ++ [b]).map Bundle.ends ++ rest.map Bundle.ends =
    bs.map Bundle.ends ++ b.ends :: rest.map Bundle.ends := by
  simp

theorem pass (h : LinkedPass g t bs index p (b :: rest)) (hb : b.Prepared g t)
    (hno : ∀ d, b.sideLevel d ≠ .external) :
    LinkedPass g t (bs ++ [b]) (index.record bs.length b.ends) p rest := by
  have hlinks : linksOf (bs ++ [b]) = linksOf bs := by
    funext d near far
    apply propext
    rw [linksOf_append]
    constructor
    . rintro (hlink | hlink)
      . exact hlink
      . exact absurd hlink.1 (hno d)
    . exact .inl
  constructor
  . rw [map_ends_append, ← List.length_map (f := Bundle.ends)]
    exact h.indexes.record fun _ _ hkey => hkey
  . intro c hc
    exact h.unicast c (by simp [hc])
  . intro c hc d key hkey hrole
    rcases List.mem_append.mp hc with hc | hc
    . exact h.sides c hc d key hkey hrole
    . rw [List.mem_singleton.mp hc] at hkey
      exact absurd hrole (hb.not_interface hkey)
  . rw [hlinks]
    exact h.paired
  . have htotal := h.total_le
    rw [List.flatMap_cons, List.length_append] at htotal
    omega
  . intro hroom
    rw [hlinks]
    exact h.unshared hroom

theorem link (h : LinkedPass g t bs index p (b :: rest)) (hcolumns : t.interfaceColumns.Nodup)
    (hprepared : ∀ c ∈ b :: rest, c.Prepared g t) (hp : p.Sound g t) (hlevel : p.level = .external)
    {ops : List Occurrence} (hside : b.sideLevel need = .external)
    (hfar : b.ends.anchors need = [far])
    (hpicked : ChannelPool.Picked g t need
      (index.findReuse (bs.map Bundle.ends ++ b.ends :: rest.map Bundle.ends) [far] need
        (p.reusable t)) [far] ops p key p')
    (hops : ops ≠ [] ∧ ops.length ≤ (b.opsAt .external).length)
    (hside' : ∀ d, b'.sideLevel d = b.sideLevel d)
    (hkeys : ∀ d, b'.ends.keysToward d = if d = need then [key] else b.ends.keysToward d)
    (hanchors : b'.ends.anchors need = [far]) :
    LinkedPass g t (bs ++ [b']) (index.record bs.length b'.ends) p' rest := by
  have hb := hprepared b (by simp)
  have htotal := h.total_le
  rw [List.flatMap_cons, List.length_append] at htotal
  have hd : key.direction = need := hpicked.served.direction
  have hneed : b'.ends.keysToward need = [key] := by
    rw [hkeys, if_pos rfl]
  have hlinks : linksOf (bs ++ [b']) = (linksOf bs).add need key far := by
    apply linksOf_add _ ((hside' need).trans hside) hneed hanchors
    intro d d' heq
    rw [hside', hside'] at heq
    exact hb.sound.sideLevel_inj heq
  have hfound : ∀ k, index.findReuse (bs.map Bundle.ends ++ b.ends :: rest.map Bundle.ends) [far]
      need (p.reusable t) = some k → linksOf bs need k far := fun k hk =>
    h.linksOf_of_findReuse hprepared hk
  constructor
  . rw [map_ends_append, ← List.length_map (f := Bundle.ends)]
    apply h.indexes.record
    intro d k hk
    by_cases hdn : d = need
    . subst hdn
      rw [hanchors, ← hfar]
      exact hk
    . rw [anchors_eq_keysToward hdn, hb.keysToward_eq_nil hside] at hk
      simp at hk
  . intro c hc
    exact h.unicast c (by simp [hc])
  . intro c hc d k hk hrole
    rcases List.mem_append.mp hc with hc | hc
    . exact h.sides c hc d k hk hrole
    . obtain rfl := List.mem_singleton.mp hc
      by_cases hdn : d = need
      . rw [hdn, hside', hside]
      . rw [hkeys, if_neg hdn] at hk
        exact absurd hrole (hb.not_interface hk)
  . rw [hlinks]
    exact h.paired.pick hcolumns hpicked hd hfound
  . have hle := hpicked.total_le
    omega
  . intro hroom
    rw [hlinks]
    apply Paired.unshared_pick (h.unshared hroom) hpicked hfound
    intro hnone
    have hpos := List.length_pos_iff.mpr hops.1
    exact h.not_linksOf_of_findReuse hp hlevel (by omega) hnone

theorem push (h : LinkedPass g t bs index p (b :: rest)) (hcolumns : t.interfaceColumns.Nodup)
    (hprepared : ∀ c ∈ b :: rest, c.Prepared g t) (hp : p.Sound g t) (hlevel : p.level = .external)
    (hstep : LinkStep g t index (bs.map Bundle.ends ++ b.ends :: rest.map Bundle.ends) p b b' p') :
    LinkedPass g t (bs ++ [b']) (index.record bs.length b'.ends) p' rest := by
  cases hstep with
  | passed hno => exact h.pass (hprepared b (by simp)) hno
  | linked need key far ops b' p' hside hfar hpicked hops hside' hkeys hanchors =>
    exact h.link hcolumns hprepared hp hlevel hside hfar hpicked hops hside' hkeys hanchors

theorem start (hrest : ∀ b ∈ rest, b.consumers.length = 1)
    (hops : (rest.flatMap fun b => b.opsAt .external).length ≤ g.ops.length) :
    LinkedPass g t [] (Assignment.indexOf rest) (.empty .external) rest where
  indexes := ReuseIndex.indexes_indexOf rest
  unicast := hrest
  sides := by simp
  paired := by
    constructor
    all_goals simp [linksOf, ChannelPool.empty, ChannelPool.keys]
  total_le := by
    simpa [ChannelPool.total, ChannelPool.empty, Allocation.load] using hops
  unshared := by
    rintro _ _ _ _ _ ⟨b, hb, _⟩ _
    simp at hb

end LinkedPass

end Bundle

end TileTraffic
