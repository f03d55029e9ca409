import TileTraffic.Proofs.Bundle.Addresses
import TileTraffic.Proofs.Graph.Validity

/-!
Which graphs have a partition. Some conditions are looked at op by op and others only when all ops
have been seen, but together they come to what `Graph.WellFormed` says of the graph as a whole.
-/

namespace TileTraffic

namespace Graph

/--
The flow that `op` is one half of can be carried: there are puts and gets, each kind on one level
with a path from the one to the other, and every destination has a get.
-/
structure Carried (g : Graph) (t : Target) (op : Op) : Prop where
  put : ∃ put ∈ g.ops, g.Meet op put ∧ ∃ src, put.movement.src? = some src
  get : ∃ get ∈ g.ops, g.Meet op get ∧ ∃ dst, get.movement.dst? = some dst
  levels : ∃ src dst, t.hasPath src dst = true ∧ ∀ half ∈ g.ops, g.Meet op half →
    (∀ a, half.movement.src? = some a → a.level = src) ∧
      ∀ a, half.movement.dst? = some a → a.level = dst
  destinations : ∀ name c shape, op.movement.channel? = some name → g.channel? name = some c →
    c.broadcastShape = some shape → ∀ p, IsPosition shape p →
      ∃ get ∈ g.ops, g.Meet op get ∧ (∃ dst, get.movement.dst? = some dst) ∧
        ChannelDecl.destinationPosition shape get.indices = p

/--
What a graph has to be like to be divided up into bundles on a target.
-/
structure WellFormed (g : Graph) (t : Target) : Prop extends g.Valid where
  copy : ∀ op ∈ g.ops, ∀ src dst, op.movement = .copy src dst →
    t.hasPath src.level dst.level = true
  /-- Every destination can have a tile of its own. -/
  tiles : ∀ op ∈ g.ops, ∀ name c, op.movement.channel? = some name → g.channel? name = some c →
    c.destinations ≤ t.columns * t.rows
  /-- A get on a broadcast channel names one of the destinations. -/
  names : ∀ op ∈ g.ops, ∀ name dst, op.movement = .get name dst →
    ∀ c shape, g.channel? name = some c → c.broadcastShape = some shape → Names shape op.indices
  carried : ∀ op ∈ g.ops, op.movement.channel? ≠ none → g.Carried t op

end Graph

theorem Movement.eq_get {m : Movement} {channel : String} {dst : Access}
    (hchannel : m.channel? = some channel) (hdst : m.dst? = some dst) : m = .get channel dst := by
  cases m <;> simp_all [Movement.channel?, Movement.dst?]

theorem Target.checkPath_eq_ok_iff {t : Target} {src dst : Level} :
    t.checkPath src dst = .ok () ↔ t.hasPath src dst = true := by
  unfold checkPath
  exact ensure_eq_ok_iff

namespace Draft

variable {g : Graph} {t : Target} {d d' : Draft} {ds ds' : List Draft} {occ : Occurrence}
  {done : List Occurrence} {channel : String} {decl : ChannelDecl} {level : Level}

/-! ### A well-formed graph is accepted -/

theorem meetLevel_eq_ok {known : Option Level} {op : Op} (h : known = none ∨ known = some level) :
    meetLevel known level op channel = .ok () := by
  unfold meetLevel
  rcases h with rfl | rfl
  . rfl
  . exact if_pos rfl

theorem exists_update_eq_ok {slot : String × List Nat} {fresh : Draft}
    {f : Draft → Except CompileError Draft}
    (hf : ∀ d ∈ ds, d.slot = some slot → ∃ d', f d = .ok d') (hfresh : ∃ d', f fresh = .ok d') :
    ∃ ds', update slot fresh f ds = .ok ds' := by
  induction ds with
  | nil =>
    obtain ⟨d', hd'⟩ := hfresh
    refine ⟨[d'], ?_⟩
    rw [update, hd']
    rfl
  | cons d ds ih =>
    unfold update
    split
    . next hslot =>
      obtain ⟨d', hd'⟩ := hf d (by simp) hslot
      refine ⟨d' :: ds, ?_⟩
      rw [hd']
      rfl
    . obtain ⟨ds', hds'⟩ := ih fun c hc => hf c (by simp [hc])
      refine ⟨d :: ds', ?_⟩
      rw [hds']
      rfl

theorem exists_addHalf_eq_ok (hg : g.WellFormed t) (hop : occ.op ∈ g.ops)
    (hchannel : occ.op.movement.channel? = some channel)
    {f : ChannelDecl → Draft → Except CompileError Draft}
    (hf : ∀ decl d, g.channel? channel = some decl → d.slot = some (channel, indexOf decl occ.op) →
      (d ∈ ds ∨ d = ofChannel channel (indexOf decl occ.op) decl.destinations) →
        ∃ d', f decl d = .ok d') : ∃ ds', addHalf g t channel occ ds f = .ok ds' := by
  obtain ⟨decl, hdecl⟩ := hg.channel _ hop channel hchannel
  have hcount : decl.destinationCount t = .ok decl.destinations :=
    ChannelDecl.destinationCount_eq_ok_iff.mpr
      ⟨hg.countable decl (List.mem_of_find?_eq_some hdecl), rfl,
        hg.tiles _ hop channel decl hchannel hdecl⟩
  unfold addHalf
  rw [hdecl]
  dsimp only
  rw [hcount]
  apply exists_update_eq_ok
  . intro d hd hslot
    exact hf decl d hdecl hslot (.inl hd)
  . exact hf decl _ hdecl rfl (.inr rfl)

theorem exists_addPut_eq_ok (hg : g.WellFormed t) (h : Filed g done ds) (hop : occ.op ∈ g.ops)
    {src : Access} (hm : occ.op.movement = .put channel src) (hdecl : g.channel? channel = some decl)
    (hslot : d.slot = some (channel, indexOf decl occ.op))
    (hd : d ∈ ds ∨ d = ofChannel channel (indexOf decl occ.op) decl.destinations) :
    ∃ d', d.addPut channel occ src = .ok d' := by
  have hchannel : occ.op.movement.channel? = some channel := by rw [hm]; rfl
  have hhalf := Graph.slot?_of_half hchannel hdecl
  obtain ⟨level, _, _, hlevels⟩ := (hg.carried _ hop (by simp [hchannel])).levels
  have hsrc := (hlevels _ hop ((Graph.meet_iff hhalf).mpr hhalf)).1 src (by rw [hm]; rfl)
  have hmet : d.producerLevel = none ∨ d.producerLevel = some src.level := by
    rcases hd with hd | rfl
    . cases hknown : d.producerLevel with
      | none => exact .inl rfl
      | some known =>
        obtain ⟨o, _, ho, hoslot, a, ha, rfl⟩ := h.exists_put hd hknown
        have hmeet := (Graph.meet_iff hhalf).mpr (hoslot.trans hslot)
        rw [(hlevels _ ho hmeet).1 a ha, hsrc]
        exact .inr rfl
    . exact .inl rfl
  unfold addPut
  rw [meetLevel_eq_ok hmet]
  exact ⟨_, rfl⟩

theorem exists_addGet_eq_ok (hg : g.WellFormed t) (h : Filed g done ds) (hop : occ.op ∈ g.ops)
    {dst : Access} (hm : occ.op.movement = .get channel dst) (hdecl : g.channel? channel = some decl)
    (hslot : d.slot = some (channel, indexOf decl occ.op))
    (hd : d ∈ ds ∨ d = ofChannel channel (indexOf decl occ.op) decl.destinations) :
    ∃ d', d.addGet decl channel occ dst = .ok d' := by
  have hchannel : occ.op.movement.channel? = some channel := by rw [hm]; rfl
  have hhalf := Graph.slot?_of_half hchannel hdecl
  obtain ⟨_, level, _, hlevels⟩ := (hg.carried _ hop (by simp [hchannel])).levels
  have hdst := (hlevels _ hop ((Graph.meet_iff hhalf).mpr hhalf)).2 dst (by rw [hm]; rfl)
  have hmet : d.consumerLevel = none ∨ d.consumerLevel = some dst.level := by
    rcases hd with hd | rfl
    . cases hknown : d.consumerLevel with
      | none => exact .inl rfl
      | some known =>
        obtain ⟨o, _, ho, hoslot, a, ha, rfl⟩ := h.exists_get hd hknown
        have hmeet := (Graph.meet_iff hhalf).mpr (hoslot.trans hslot)
        rw [(hlevels _ ho hmeet).2 a ha, hdst]
        exact .inr rfl
    . exact .inl rfl
  have hlength : d.consumers.length = decl.destinations := by
    rcases hd with hd | rfl
    . exact (h.sound d hd).length_consumers hslot hdecl
    . exact List.length_replicate
  obtain ⟨n, hlt, hn⟩ : ∃ n, n < decl.destinations ∧ decl.destination occ.op = .ok n :=
    ChannelDecl.exists_destination (hg.countable decl (List.mem_of_find?_eq_some hdecl))
      fun shape hshape => hg.names _ hop channel dst hm decl shape hdecl hshape
  unfold addGet
  rw [meetLevel_eq_ok hmet, hn]
  show ∃ d', (elementAt d.consumers n >>= _) = .ok d'
  rw [elementAt_of_getElem? (List.getElem?_eq_getElem (hlength ▸ hlt))]
  exact ⟨_, rfl⟩

theorem exists_add_eq_ok (hg : g.WellFormed t) (h : Filed g done ds) (hop : occ.op ∈ g.ops) :
    ∃ ds', add g t ds occ = .ok ds' := by
  unfold add
  split
  . next src dst hm =>
    rw [Target.checkPath_eq_ok_iff.mpr (hg.copy _ hop src dst hm)]
    exact ⟨_, rfl⟩
  . next channel src hm =>
    apply exists_addHalf_eq_ok hg hop (by rw [hm]; rfl)
    intro decl d hdecl hslot hd
    exact exists_addPut_eq_ok hg h hop hm hdecl hslot hd
  . next channel dst hm =>
    apply exists_addHalf_eq_ok hg hop (by rw [hm]; rfl)
    intro decl d hdecl hslot hd
    exact exists_addGet_eq_ok hg h hop hm hdecl hslot hd

theorem exists_drafts (hg : g.WellFormed t) :
    ∃ ds, g.occurrences.foldlM (Draft.add g t) [] = .ok ds ∧ Filed g g.occurrences ds := by
  apply exists_foldlM_eq_ok (Filed g) .nil
  intro done occ rest ds hsplit h
  have hocc : occ ∈ g.occurrences := by simp [hsplit]
  obtain ⟨ds', hds'⟩ := exists_add_eq_ok hg h (Graph.mem_occurrences hocc)
  exact ⟨ds', hds', h.add hsplit hds'⟩

theorem exists_finish_eq_ok_iff :
    (∃ b, d.finish t = .ok b) ↔
      d.producers ≠ [] ∧ (∀ ops ∈ d.consumers, ops ≠ []) ∧
        ∃ src dst, d.producerLevel = some src ∧ d.consumerLevel = some dst ∧
          t.hasPath src dst = true := by
  unfold finish
  cases d.producerLevel with
  | none => simp
  | some src =>
    cases d.consumerLevel with
    | none => simp
    | some dst =>
      dsimp only
      cases hfull : d.consumers.findIdx? List.isEmpty with
      | some n =>
        obtain ⟨hlt, hempty, _⟩ := List.findIdx?_eq_some_iff_getElem.mp hfull
        refine iff_of_false (fun ⟨_, h⟩ => nomatch h) fun ⟨_, hne, _⟩ => ?_
        exact hne _ (List.getElem_mem hlt) (List.isEmpty_iff.mp hempty)
      | none =>
        have hne : ∀ ops ∈ d.consumers, ops ≠ [] := by
          rw [List.findIdx?_eq_none_iff] at hfull
          intro ops hops
          simpa using hfull ops hops
        dsimp only
        constructor
        . intro ⟨b, hb⟩
          obtain ⟨first, hfirst, hb⟩ := bind_eq_ok hb
          obtain ⟨_, hpath, _⟩ := bind_eq_ok hb
          refine ⟨?_, hne, src, dst, rfl, rfl,
            Target.checkPath_eq_ok_iff.mp (mapError_eq_ok_iff.mp hpath)⟩
          exact List.ne_nil_of_mem (List.mem_of_getElem? (elementAt_eq_ok hfirst))
        . intro ⟨hproducers, _, _, _, hsrc, hdst, hpath⟩
          obtain rfl := Option.some.inj hsrc
          obtain rfl := Option.some.inj hdst
          obtain ⟨first, rest, hcons⟩ := List.exists_cons_of_ne_nil hproducers
          rw [elementAt_of_getElem? (a := first) (by simp [hcons])]
          show ∃ b, ((t.checkPath src dst).mapError first.op.blame >>= _) = .ok b
          rw [mapError_eq_ok_iff.mpr (Target.checkPath_eq_ok_iff.mpr hpath)]
          exact ⟨_, rfl⟩

theorem exists_finish_of_copy (hg : g.WellFormed t) (h : Filed g g.occurrences ds) (hd : d ∈ ds)
    (hnone : d.slot = none) : ∃ b, d.finish t = .ok b := by
  obtain ⟨occ, hlists⟩ := h.covers.copy d hd hnone
  obtain ⟨hproducers, hconsumers⟩ := List.cons.inj hlists
  have hput : occ ∈ d.producers := by simp [hproducers]
  have hget : occ ∈ d.consumers.flatten := by simp [hconsumers]
  obtain ⟨hreads, hwrites⟩ :=
    h.covers.sides_of_slot_eq_none hd hnone (mem_ops_iff.mpr (.inl hput))
  have hop := Graph.mem_occurrences ((h.sound d hd).reads occ hput).1
  rw [exists_finish_eq_ok_iff]
  refine ⟨List.ne_nil_of_mem hput, by simp [hconsumers], ?_⟩
  cases hm : occ.op.movement with
  | put channel src => simp [Occurrence.writes, hm, Movement.dst?] at hwrites
  | get channel dst => simp [Occurrence.reads, hm, Movement.src?] at hreads
  | copy src dst =>
    exact ⟨src.level, dst.level, (h.sound d hd).producerLevel_eq hput (by rw [hm]; rfl),
      (h.sound d hd).consumerLevel_eq hget (by rw [hm]; rfl), hg.copy _ hop src dst hm⟩

/--
Every destination of a flow is the one that some get of the flow is sent to.
-/
theorem exists_get_of_lt (hg : g.WellFormed t) {op : Op} (hop : op ∈ g.ops)
    (hchannel : op.movement.channel? = some channel) (hdecl : g.channel? channel = some decl)
    {n : Nat} (hn : n < decl.destinations) :
    ∃ get ∈ g.ops, g.Meet op get ∧ (∃ dst, get.movement.dst? = some dst) ∧
      decl.destination get = .ok n := by
  have hcarried := hg.carried op hop (by simp [hchannel])
  unfold ChannelDecl.destinations at hn
  cases hshape : decl.broadcastShape with
  | none =>
    rw [hshape] at hn
    obtain rfl := Nat.lt_one_iff.mp hn
    obtain ⟨get, hget, hmeet, hdst⟩ := hcarried.get
    exact ⟨get, hget, hmeet, hdst, ChannelDecl.destination_of_unicast hshape⟩
  | some shape =>
    rw [hshape] at hn
    obtain ⟨get, hget, hmeet, ⟨dst, hdst⟩, hposition⟩ :=
      hcarried.destinations channel decl shape hchannel hdecl hshape _ (isPosition_position hn)
    have ⟨channel', hop', hget', _⟩ := hmeet
    obtain rfl := Option.some.inj (hchannel.symm.trans hop')
    have hnames := hg.names get hget channel dst (Movement.eq_get hget' hdst) decl shape hdecl hshape
    refine ⟨get, hget, hmeet, ⟨dst, hdst⟩, (ChannelDecl.destination_eq_ok_iff hshape).mpr
      ⟨hg.countable decl (List.mem_of_find?_eq_some hdecl), hnames, ?_⟩⟩
    rw [hposition, numberOf_position hn]

theorem exists_finish_of_flow (hg : g.WellFormed t) (h : Filed g g.occurrences ds) (hd : d ∈ ds)
    (hne : d.slot ≠ none) : ∃ b, d.finish t = .ok b := by
  obtain ⟨occ, hocc⟩ := List.exists_mem_of_ne_nil _ (h.covers.ops_ne d hd)
  obtain ⟨⟨channel, index⟩, hsome⟩ := Option.ne_none_iff_exists'.mp hne
  have hhalf := (h.covers.slot_eq d hd occ hocc).trans hsome
  have hslot : ∀ {op}, g.Meet occ.op op → g.slot? op = d.slot :=
    fun hmeet => ((Graph.meet_iff hhalf).mp hmeet).trans hsome.symm
  obtain ⟨decl, hchannel, hdecl, _⟩ := Graph.slot?_eq_some hhalf
  have hop := Graph.mem_occurrences ((h.sound d hd).mem_occurrences hocc)
  have hcarried := hg.carried _ hop (by simp [hchannel])
  obtain ⟨src, dst, hpath, hlevels⟩ := hcarried.levels
  obtain ⟨put, hput, hputmeet, a, ha⟩ := hcarried.put
  obtain ⟨get, hget, hgetmeet, a', ha'⟩ := hcarried.get
  obtain ⟨hproducers, hsrc⟩ := h.producerLevel_of_slot hd hne hput (hslot hputmeet) ha
  have hdst := h.consumerLevel_of_slot hd hne hget (hslot hgetmeet) ha'
  rw [(hlevels put hput hputmeet).1 a ha] at hsrc
  rw [(hlevels get hget hgetmeet).2 a' ha'] at hdst
  rw [exists_finish_eq_ok_iff]
  refine ⟨hproducers, fun ops hops => ?_, src, dst, hsrc, hdst, hpath⟩
  obtain ⟨n, hn⟩ := List.getElem?_of_mem hops
  have hlt : n < decl.destinations := by
    rw [← (h.sound d hd).length_consumers hsome hdecl]
    exact (List.getElem?_eq_some_iff.mp hn).1
  obtain ⟨op, hop, hmeet, ⟨a, ha⟩, hdestination⟩ := exists_get_of_lt hg hop hchannel hdecl hlt
  exact h.ne_nil_of_destination hd hsome hdecl hop (hslot hmeet) ha hdestination hn

end Draft

namespace Graph

variable {g : Graph} {t : Target} {bs : List Bundle} {ds : List Draft} {op : Op}

theorem WellFormed.exists_partition (hg : g.WellFormed t) : ∃ bs, g.partition t = .ok bs := by
  obtain ⟨ds, hds, h⟩ := Draft.exists_drafts hg
  have hfinish : ∀ d ∈ ds, ∃ b, d.finish t = .ok b := by
    intro d hd
    by_cases hslot : d.slot = none
    . exact Draft.exists_finish_of_copy hg h hd hslot
    . exact Draft.exists_finish_of_flow hg h hd hslot
  obtain ⟨bs, hbs⟩ := exists_mapM_eq_ok hfinish
  refine ⟨bs, ?_⟩
  unfold partition
  rw [validate_eq_ok_iff.mpr hg.toValid, hds]
  exact hbs

/-! ### What is accepted is well-formed -/

theorem hasPath_of_drafts (h : g.occurrences.foldlM (Draft.add g t) [] = .ok ds) (hop : op ∈ g.ops)
    {src dst : Access} (hm : op.movement = .copy src dst) :
    t.hasPath src.level dst.level = true := by
  obtain ⟨occ, hocc, rfl⟩ := g.exists_occurrence hop
  obtain ⟨_, _, hadd⟩ := exists_of_foldlM_eq_ok h hocc
  unfold Draft.add at hadd
  rw [hm] at hadd
  obtain ⟨_, hpath, _⟩ := bind_eq_ok hadd
  exact Target.checkPath_eq_ok_iff.mp (mapError_eq_ok_iff.mp hpath)

theorem destinations_le_of_drafts (h : g.occurrences.foldlM (Draft.add g t) [] = .ok ds)
    (hop : op ∈ g.ops) {channel : String} (hchannel : op.movement.channel? = some channel)
    {decl : ChannelDecl} (hdecl : g.channel? channel = some decl) :
    decl.destinations ≤ t.columns * t.rows := by
  obtain ⟨occ, hocc, rfl⟩ := g.exists_occurrence hop
  obtain ⟨ds₁, ds₂, hadd⟩ := exists_of_foldlM_eq_ok h hocc
  obtain ⟨f, hhalf⟩ : ∃ f, Draft.addHalf g t channel occ ds₁ f = .ok ds₂ := by
    unfold Draft.add at hadd
    cases hm : occ.op.movement with
    | copy src dst => simp [hm, Movement.channel?] at hchannel
    | put name src =>
      obtain rfl : name = channel := by simpa [hm, Movement.channel?] using hchannel
      rw [hm] at hadd
      exact ⟨_, hadd⟩
    | get name dst =>
      obtain rfl : name = channel := by simpa [hm, Movement.channel?] using hchannel
      rw [hm] at hadd
      exact ⟨_, hadd⟩
  obtain ⟨decl', n, _, _, _, _, hdecl', hcount, _⟩ := Draft.addHalf_cases hhalf
  obtain rfl := Option.some.inj (hdecl.symm.trans hdecl')
  exact (ChannelDecl.destinationCount_eq_ok_iff.mp hcount).2.2

theorem exists_destination_of_drafts (h : g.occurrences.foldlM (Draft.add g t) [] = .ok ds)
    (hop : op ∈ g.ops) {channel : String} {dst : Access} (hm : op.movement = .get channel dst)
    {decl : ChannelDecl} (hdecl : g.channel? channel = some decl) :
    ∃ n, decl.destination op = .ok n := by
  obtain ⟨occ, hocc, rfl⟩ := g.exists_occurrence hop
  obtain ⟨_, _, hadd⟩ := exists_of_foldlM_eq_ok h hocc
  unfold Draft.add at hadd
  rw [hm] at hadd
  obtain ⟨decl', _, _, _, _, _, hdecl', _, _, hd, _⟩ := Draft.addHalf_cases hadd
  obtain rfl := Option.some.inj (hdecl.symm.trans hdecl')
  obtain ⟨n, _, hn, _⟩ := Draft.addGet_cases hd
  exact ⟨n, hn⟩

/--
A draft that can be finished has all that its flow needs.
-/
theorem carried_of_finish (hvalid : g.Valid) (h : Draft.Filed g g.occurrences ds)
    (hfinish : ∀ d ∈ ds, ∃ b, d.finish t = .ok b) (hop : op ∈ g.ops)
    (hchannel : op.movement.channel? ≠ none) : g.Carried t op := by
  obtain ⟨channel, hchannel⟩ := Option.ne_none_iff_exists'.mp hchannel
  obtain ⟨decl, hdecl⟩ := hvalid.channel op hop channel hchannel
  have hhalf := slot?_of_half hchannel hdecl
  obtain ⟨d, hd, hslot⟩ := h.exists_draft hop
  have hsome := hslot.symm.trans hhalf
  have hne : d.slot ≠ none := by simp [hsome]
  have hmeet : ∀ {op'}, g.Meet op op' ↔ g.slot? op' = d.slot := by
    intro op'
    rw [hsome]
    exact meet_iff hhalf
  obtain ⟨_, hconsumers, src, dst, hsrc, hdst, hpath⟩ :=
    Draft.exists_finish_eq_ok_iff.mp (hfinish d hd)
  constructor
  . obtain ⟨put, _, hput, hputslot, a, ha, _⟩ := h.exists_put hd hsrc
    exact ⟨put.op, hput, hmeet.mpr hputslot, a, ha⟩
  . obtain ⟨get, _, hget, hgetslot, a, ha, _⟩ := h.exists_get hd hdst
    exact ⟨get.op, hget, hmeet.mpr hgetslot, a, ha⟩
  . refine ⟨src, dst, hpath, fun half hhalf hmeets => ⟨fun a ha => ?_, fun a ha => ?_⟩⟩
    . have hlevel := (h.producerLevel_of_slot hd hne hhalf (hmeet.mp hmeets) ha).2
      exact Option.some.inj (hlevel.symm.trans hsrc)
    . have hlevel := h.consumerLevel_of_slot hd hne hhalf (hmeet.mp hmeets) ha
      exact Option.some.inj (hlevel.symm.trans hdst)
  . intro name c shape hname hc hshape p hp
    obtain rfl := Option.some.inj (hchannel.symm.trans hname)
    obtain rfl := Option.some.inj (hdecl.symm.trans hc)
    obtain ⟨get, hget, hgetslot, hdst, hposition⟩ :=
      h.exists_get_of_position hd hsome hdecl hshape hp hconsumers
    exact ⟨get, hget, hmeet.mpr hgetslot, hdst, hposition⟩

theorem wellFormed_of_partition (h : g.partition t = .ok bs) : g.WellFormed t := by
  unfold partition at h
  obtain ⟨_, hvalid, h⟩ := bind_eq_ok h
  obtain ⟨ds, hds, h⟩ := bind_eq_ok h
  have hvalid := validate_eq_ok_iff.mp hvalid
  have hfinish : ∀ d ∈ ds, ∃ b, d.finish t = .ok b := by
    intro d hd
    obtain ⟨b, _, hb⟩ := exists_of_mapM_eq_ok h hd
    exact ⟨b, hb⟩
  constructor
  . exact hvalid
  . intro op hop src dst hm
    exact hasPath_of_drafts hds hop hm
  . intro op hop name c hname hc
    exact destinations_le_of_drafts hds hop hname hc
  . intro op hop name dst hm c shape hc hshape
    obtain ⟨_, hn⟩ := exists_destination_of_drafts hds hop hm hc
    exact ((ChannelDecl.destination_eq_ok_iff hshape).mp hn).2.1
  . intro op hop hname
    exact carried_of_finish hvalid (Draft.drafts_filed hds) hfinish hop hname

/--
The graphs that have a partition are the well-formed ones.
-/
theorem partition_succeeds_iff : (∃ bs, g.partition t = .ok bs) ↔ g.WellFormed t := by
  constructor
  . intro ⟨_, h⟩
    exact wellFormed_of_partition h
  . exact WellFormed.exists_partition

example : crossed.WellFormed (.gen2 4 6) := by
  obtain ⟨_, h⟩ : ∃ bs, crossed.partition (.gen2 4 6) = .ok bs := exists_of_isOk (by decide +kernel)
  exact wellFormed_of_partition h

/--
Without its last get, the broadcast has a destination that nothing is sent to.
-/
example : ¬ { crossed with ops := crossed.ops.dropLast }.WellFormed (.gen2 4 6) := by
  intro h
  have hok : (partition _ _).isOk = true :=
    h.exists_partition.elim fun _ hbs => congrArg Except.isOk hbs
  exact absurd hok (by decide +kernel)

end Graph

end TileTraffic
