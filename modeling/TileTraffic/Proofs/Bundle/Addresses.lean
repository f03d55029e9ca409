import TileTraffic.Proofs.Bundle.Cover
import TileTraffic.Proofs.Bundle.Destination

/-!
What drafts know when they have been filled: they divide up the ops, their levels are those of their
ops, and every get is listed at the destination that it is sent to.
-/

namespace TileTraffic

namespace Draft

variable {g : Graph} {t : Target} {d d' : Draft} {ds ds' : List Draft} {occ : Occurrence}
  {done rest : List Occurrence} {channel : String} {decl : ChannelDecl} {level : Level}

/--
Gets are listed where they are sent to, and the side that writes has no level without a get.
-/
structure Addressed (g : Graph) (d : Draft) : Prop where
  destination : ∀ channel index, d.slot = some (channel, index) →
    ∀ decl, g.channel? channel = some decl → ∀ n ops, d.consumers[n]? = some ops →
      ∀ occ ∈ ops, decl.destination occ.op = .ok n
  ops_ne : d.consumerLevel ≠ none → d.consumers.flatten ≠ []

theorem ofChannel_addressed {index : List Nat} {n : Nat} :
    (ofChannel channel index n).Addressed g where
  destination := by
    intro _ _ _ _ _ m ops hops occ hocc
    obtain rfl := List.eq_of_mem_replicate (List.mem_of_getElem? hops)
    cases hocc
  ops_ne := by simp [ofChannel]

theorem ofCopy_addressed {src dst : Access} : (ofCopy occ src dst).Addressed g where
  destination := by simp [ofCopy]
  ops_ne := by simp [ofCopy]

theorem Addressed.addPut (h : d.Addressed g) {src : Access}
    (hd' : d.addPut channel occ src = .ok d') : d'.Addressed g := by
  obtain rfl := eq_of_addPut hd'
  exact ⟨h.destination, h.ops_ne⟩

theorem Addressed.addGet (h : d.Addressed g) (hdecl : g.channel? channel = some decl)
    (hslot : d.slot = some (channel, indexOf decl occ.op)) {dst : Access}
    (hd' : d.addGet decl channel occ dst = .ok d') : d'.Addressed g := by
  obtain ⟨n, ops, hn, hops, rfl⟩ := addGet_cases hd'
  constructor
  . intro channel' index hslot' decl' hdecl' m ops' hops' o ho
    have hold := h.destination channel' index hslot' decl' hdecl'
    obtain ⟨rfl, _⟩ := Prod.mk.inj (Option.some.inj (hslot.symm.trans hslot'))
    obtain rfl := Option.some.inj (hdecl.symm.trans hdecl')
    have hlt := (List.getElem?_eq_some_iff.mp hops).1
    dsimp only at hops'
    by_cases hm : n = m
    . subst hm
      rw [List.getElem?_set_self hlt] at hops'
      obtain rfl := Option.some.inj hops'
      rcases List.mem_append.mp ho with ho | ho
      . exact hold n ops hops o ho
      . rw [List.mem_singleton.mp ho]
        exact hn
    . rw [List.getElem?_set_ne hm] at hops'
      exact hold m ops' hops' o ho
  . intro _ hnil
    have hperm := flatten_set_perm occ hops
    rw [hnil] at hperm
    exact absurd hperm.symm.eq_nil (List.cons_ne_nil _ _)

theorem addHalf_addressed {f : ChannelDecl → Draft → Except CompileError Draft}
    (hf : ∀ decl d d', g.channel? channel = some decl →
      d.slot = some (channel, indexOf decl occ.op) → d.Addressed g → f decl d = .ok d' →
        d'.Addressed g)
    (hds : ∀ d ∈ ds, d.Addressed g) (h : addHalf g t channel occ ds f = .ok ds') :
    ∀ d ∈ ds', d.Addressed g := by
  obtain ⟨decl, n, before, d, d', after, hdecl, _, hslot, hd', rfl, _, hcases⟩ := addHalf_cases h
  have hd : d.Addressed g := by
    rcases hcases with rfl | ⟨rfl, _⟩
    . exact hds d (by simp)
    . exact ofChannel_addressed
  intro c hc
  rcases List.mem_append.mp hc with hc | hc
  . apply hds
    rcases hcases with rfl | ⟨_, rfl, _⟩ <;> simp [hc]
  . rcases List.mem_cons.mp hc with rfl | hc
    . exact hf decl d c hdecl hslot hd hd'
    . rcases hcases with rfl | ⟨_, _, rfl⟩
      . exact hds c (by simp [hc])
      . cases hc

theorem add_addressed (hds : ∀ d ∈ ds, d.Addressed g) (h : add g t ds occ = .ok ds') :
    ∀ d ∈ ds', d.Addressed g := by
  unfold add at h
  split at h
  . obtain ⟨_, _, h⟩ := bind_eq_ok h
    obtain rfl := Except.ok.inj h
    intro d hd
    rcases List.mem_append.mp hd with hd | hd
    . exact hds d hd
    . rw [List.mem_singleton.mp hd]
      exact ofCopy_addressed
  . exact addHalf_addressed (fun _ _ _ _ _ hd hd' => hd.addPut hd') hds h
  . exact addHalf_addressed (fun _ _ _ hdecl hslot hd hd' => hd.addGet hdecl hslot hd') hds h

namespace Sound

theorem producerLevel_eq (h : d.Sound g) (hocc : occ ∈ d.producers) {src : Access}
    (hsrc : occ.op.movement.src? = some src) : d.producerLevel = some src.level := by
  obtain ⟨_, level, hlevel, hd⟩ := h.reads occ hocc
  obtain ⟨a, ha, rfl⟩ := Op.directionAt_eq_outbound_iff.mp hd
  obtain rfl := Option.some.inj (hsrc.symm.trans ha)
  exact hlevel

theorem consumerLevel_eq (h : d.Sound g) (hocc : occ ∈ d.consumers.flatten) {dst : Access}
    (hdst : occ.op.movement.dst? = some dst) : d.consumerLevel = some dst.level := by
  obtain ⟨ops, hops, hocc⟩ := List.mem_flatten.mp hocc
  obtain ⟨_, level, hlevel, hd⟩ := h.writes ops hops occ hocc
  obtain ⟨_, a, ha, rfl⟩ := Op.directionAt_eq_inbound_iff.mp hd
  obtain rfl := Option.some.inj (hdst.symm.trans ha)
  exact hlevel

theorem mem_occurrences (h : d.Sound g) (hocc : occ ∈ d.ops) : occ ∈ g.occurrences := by
  rcases mem_ops_iff.mp hocc with hocc | hocc
  . exact (h.reads occ hocc).1
  . obtain ⟨ops, hops, hocc⟩ := List.mem_flatten.mp hocc
    exact (h.writes ops hops occ hocc).1

theorem length_consumers (h : d.Sound g) {index : List Nat} (hslot : d.slot = some (channel, index))
    (hdecl : g.channel? channel = some decl) : d.consumers.length = decl.destinations := by
  obtain ⟨decl', hdecl', hcount⟩ := h.slot channel index hslot
  obtain rfl := Option.some.inj (hdecl.symm.trans hdecl')
  exact (ChannelDecl.consumerCount?_eq_some_iff.mp hcount).2

end Sound

/--
The drafts after the ops `done`.
-/
structure Filed (g : Graph) (done : List Occurrence) (ds : List Draft) : Prop where
  covers : Covers g done ds
  sound : ∀ d ∈ ds, d.Sound g
  addressed : ∀ d ∈ ds, d.Addressed g

namespace Filed

theorem nil : Filed g [] [] :=
  ⟨.nil, by simp, by simp⟩

theorem add (h : Filed g done ds) (hsplit : g.occurrences = done ++ occ :: rest)
    (hadd : Draft.add g t ds occ = .ok ds') : Filed g (done ++ [occ]) ds' where
  covers := by
    apply h.covers.add _ (add_files hadd)
    apply Graph.getElem?_occurrences (g := g)
    rw [hsplit]
    simp
  sound := by
    have hocc : occ ∈ g.occurrences := by simp [hsplit]
    have hsound : AllSound g .external _ ds := ⟨h.sound, Nat.le_refl _⟩
    exact ((add_yields hsound hocc).of_eq_ok hadd).1
  addressed := add_addressed h.addressed hadd

end Filed

theorem drafts_filed (h : g.occurrences.foldlM (Draft.add g t) [] = .ok ds) :
    Filed g g.occurrences ds := by
  apply foldlM_eq_ok (Filed g) h .nil
  intro done occ rest ds ds' hsplit hds hadd
  exact hds.add hsplit hadd

namespace Filed

/--
A side that has a level has an op that accesses it.
-/
theorem exists_put (h : Filed g done ds) (hd : d ∈ ds) (hlevel : d.producerLevel = some level) :
    ∃ occ ∈ d.producers, occ.op ∈ g.ops ∧ g.slot? occ.op = d.slot ∧
      ∃ src, occ.op.movement.src? = some src ∧ src.level = level := by
  have hsound := h.sound d hd
  obtain ⟨occ, hocc⟩ := List.exists_mem_of_ne_nil _ (hsound.producers_ne (by simp [hlevel]))
  obtain ⟨hmem, level', hlevel', hdir⟩ := hsound.reads occ hocc
  obtain rfl := Option.some.inj (hlevel.symm.trans hlevel')
  exact ⟨occ, hocc, Graph.mem_occurrences hmem,
    h.covers.slot_eq d hd occ (mem_ops_iff.mpr (.inl hocc)),
    Op.directionAt_eq_outbound_iff.mp hdir⟩

theorem exists_get (h : Filed g done ds) (hd : d ∈ ds) (hlevel : d.consumerLevel = some level) :
    ∃ occ ∈ d.consumers.flatten, occ.op ∈ g.ops ∧ g.slot? occ.op = d.slot ∧
      ∃ dst, occ.op.movement.dst? = some dst ∧ dst.level = level := by
  obtain ⟨occ, hocc⟩ :=
    List.exists_mem_of_ne_nil _ ((h.addressed d hd).ops_ne (by simp [hlevel]))
  obtain ⟨ops, hops, hmem⟩ := List.mem_flatten.mp hocc
  obtain ⟨hmem, level', hlevel', hdir⟩ := (h.sound d hd).writes ops hops occ hmem
  obtain rfl := Option.some.inj (hlevel.symm.trans hlevel')
  exact ⟨occ, hocc, Graph.mem_occurrences hmem,
    h.covers.slot_eq d hd occ (mem_ops_iff.mpr (.inr hocc)),
    (Op.directionAt_eq_inbound_iff.mp hdir).2⟩

/-! ### All ops of a flow are in one draft -/

theorem exists_draft (h : Filed g g.occurrences ds) {op : Op} (hop : op ∈ g.ops) :
    ∃ d ∈ ds, g.slot? op = d.slot := by
  obtain ⟨occ, hocc, rfl⟩ := g.exists_occurrence hop
  rcases occ.reads_or_writes with hreads | hwrites
  . obtain ⟨d, hd, hmem⟩ := h.covers.exists_producer hocc hreads
    exact ⟨d, hd, h.covers.slot_eq d hd occ (mem_ops_iff.mpr (.inl hmem))⟩
  . obtain ⟨d, hd, hmem⟩ := h.covers.exists_consumer hocc hwrites
    exact ⟨d, hd, h.covers.slot_eq d hd occ (mem_ops_iff.mpr (.inr hmem))⟩

theorem producerLevel_of_slot (h : Filed g g.occurrences ds) (hd : d ∈ ds) (hne : d.slot ≠ none)
    {op : Op} (hop : op ∈ g.ops) (hslot : g.slot? op = d.slot) {src : Access}
    (hsrc : op.movement.src? = some src) : d.producers ≠ [] ∧ d.producerLevel = some src.level := by
  obtain ⟨occ, hocc, rfl⟩ := g.exists_occurrence hop
  have hmem := h.covers.mem_producers hd hne hocc (by simp [Occurrence.reads, hsrc]) hslot
  exact ⟨List.ne_nil_of_mem hmem, (h.sound d hd).producerLevel_eq hmem hsrc⟩

theorem consumerLevel_of_slot (h : Filed g g.occurrences ds) (hd : d ∈ ds) (hne : d.slot ≠ none)
    {op : Op} (hop : op ∈ g.ops) (hslot : g.slot? op = d.slot) {dst : Access}
    (hdst : op.movement.dst? = some dst) : d.consumerLevel = some dst.level := by
  obtain ⟨occ, hocc, rfl⟩ := g.exists_occurrence hop
  have hmem := h.covers.mem_consumers hd hne hocc (by simp [Occurrence.writes, hdst]) hslot
  exact (h.sound d hd).consumerLevel_eq hmem hdst

/--
The destination that a get of the flow is sent to is not empty.
-/
theorem ne_nil_of_destination (h : Filed g g.occurrences ds) (hd : d ∈ ds) {index : List Nat}
    (hsome : d.slot = some (channel, index)) (hdecl : g.channel? channel = some decl)
    {op : Op} (hop : op ∈ g.ops) (hslot : g.slot? op = d.slot) {dst : Access}
    (hdst : op.movement.dst? = some dst) {n : Nat} (hn : decl.destination op = .ok n)
    {ops : List Occurrence} (hops : d.consumers[n]? = some ops) : ops ≠ [] := by
  obtain ⟨occ, hocc, rfl⟩ := g.exists_occurrence hop
  have hmem := h.covers.mem_consumers hd (by simp [hsome]) hocc
    (by simp [Occurrence.writes, hdst]) hslot
  obtain ⟨ops', hops', hmem⟩ := List.mem_flatten.mp hmem
  obtain ⟨m, hm⟩ := List.getElem?_of_mem hops'
  -- it is listed where it is sent to, and that is here
  have hsent := (h.addressed d hd).destination channel index hsome decl hdecl m ops' hm occ hmem
  obtain rfl := Except.ok.inj (hn.symm.trans hsent)
  obtain rfl := Option.some.inj (hops.symm.trans hm)
  exact List.ne_nil_of_mem hmem

/--
If no destination is empty, there is a get for every position of the broadcast shape.
-/
theorem exists_get_of_position (h : Filed g g.occurrences ds) (hd : d ∈ ds) {index : List Nat}
    (hsome : d.slot = some (channel, index)) (hdecl : g.channel? channel = some decl)
    {shape p : List Nat} (hshape : decl.broadcastShape = some shape) (hp : IsPosition shape p)
    (hne : ∀ ops ∈ d.consumers, ops ≠ []) :
    ∃ op ∈ g.ops, g.slot? op = d.slot ∧ (∃ dst, op.movement.dst? = some dst) ∧
      ChannelDecl.destinationPosition shape op.indices = p := by
  have hlt : numberOf shape p < d.consumers.length := by
    rw [(h.sound d hd).length_consumers hsome hdecl, ChannelDecl.destinations, hshape]
    exact hp.numberOf_lt
  have hhere := List.getElem_mem hlt
  obtain ⟨occ, hocc⟩ := List.exists_mem_of_ne_nil _ (hne _ hhere)
  have hsent := (h.addressed d hd).destination channel index hsome decl hdecl _ _
    (List.getElem?_eq_getElem hlt) occ hocc
  obtain ⟨_, hnames, hnumber⟩ := (ChannelDecl.destination_eq_ok_iff hshape).mp hsent
  obtain ⟨hog, level, _, hdir⟩ := (h.sound d hd).writes _ hhere occ hocc
  obtain ⟨_, dst, hdst, _⟩ := Op.directionAt_eq_inbound_iff.mp hdir
  have hflat := List.mem_flatten.mpr ⟨_, hhere, hocc⟩
  refine ⟨occ.op, Graph.mem_occurrences hog,
    h.covers.slot_eq d hd occ (mem_ops_iff.mpr (.inr hflat)), ⟨dst, hdst⟩, ?_⟩
  rw [← (ChannelDecl.names_iff.mp hnames).2.position_numberOf, ← hnumber, hp.position_numberOf]

end Filed

end Draft

end TileTraffic
