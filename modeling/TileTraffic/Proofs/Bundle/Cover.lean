import TileTraffic.Proofs.Bundle.Order

/-!
The bundles of a graph divide up its ops. A copy has a bundle of its own; every put is one of the
producers of one bundle, and every get is at one destination of one bundle, together with the puts
and gets that move their data over the same flow of the same logical channel. Bundles come in the
order of their first ops.
-/

namespace TileTraffic

namespace Occurrence

/--
The op is a copy or a put.
-/
def reads (occ : Occurrence) : Bool :=
  occ.op.movement.src?.isSome

/--
The op is a copy or a get.
-/
def writes (occ : Occurrence) : Bool :=
  occ.op.movement.dst?.isSome

theorem reads_or_writes (occ : Occurrence) : occ.reads = true ∨ occ.writes = true := by
  unfold reads writes
  cases occ.op.movement <;> simp [Movement.src?, Movement.dst?]

end Occurrence

namespace Graph

/--
The flow that an op is one half of: its logical channel and, for unicast channels, its index. A copy
is no half of a movement.
-/
def slot? (g : Graph) (op : Op) : Option (String × List Nat) :=
  op.movement.channel?.bind fun channel =>
    (g.channel? channel).map fun decl => (channel, Draft.indexOf decl op)

/--
The two ops name one logical channel, the same index of it where it is unicast.
-/
def Meet (g : Graph) (op op' : Op) : Prop :=
  ∃ channel, op.movement.channel? = some channel ∧ op'.movement.channel? = some channel ∧
    ∀ decl, g.channel? channel = some decl → decl.broadcastShape = none → op.indices = op'.indices

variable {g : Graph} {op op' : Op}

theorem slot?_of_half {channel : String} {decl : ChannelDecl}
    (hchannel : op.movement.channel? = some channel) (hdecl : g.channel? channel = some decl) :
    g.slot? op = some (channel, Draft.indexOf decl op) := by
  unfold slot?
  rw [hchannel, Option.bind_some, hdecl, Option.map_some]

theorem slot?_eq_some {slot : String × List Nat} (h : g.slot? op = some slot) :
    ∃ decl, op.movement.channel? = some slot.1 ∧ g.channel? slot.1 = some decl ∧
      Draft.indexOf decl op = slot.2 := by
  obtain ⟨channel, hchannel, h⟩ := Option.bind_eq_some_iff.mp h
  obtain ⟨decl, hdecl, rfl⟩ := Option.map_eq_some_iff.mp h
  exact ⟨decl, hchannel, hdecl, rfl⟩

theorem indexOf_eq_iff {decl : ChannelDecl} : Draft.indexOf decl op = Draft.indexOf decl op' ↔
    (decl.broadcastShape = none → op.indices = op'.indices) := by
  unfold Draft.indexOf
  cases decl.broadcastShape <;> simp

theorem meet_iff {slot : String × List Nat} (h : g.slot? op = some slot) :
    g.Meet op op' ↔ g.slot? op' = some slot := by
  obtain ⟨decl, hop, hdecl, hindex⟩ := slot?_eq_some h
  constructor
  . intro ⟨channel, hchannel, hop', hindices⟩
    obtain rfl := Option.some.inj (hop.symm.trans hchannel)
    rw [slot?_of_half hop' hdecl, ← indexOf_eq_iff.mpr (hindices decl hdecl), hindex]
  . intro hslot'
    obtain ⟨decl', hop', hdecl', hindex'⟩ := slot?_eq_some hslot'
    refine ⟨slot.1, hop, hop', ?_⟩
    intro decl₁ hdecl₁
    obtain rfl := Option.some.inj (hdecl.symm.trans hdecl₁)
    obtain rfl := Option.some.inj (hdecl.symm.trans hdecl')
    exact indexOf_eq_iff.mp (hindex.trans hindex'.symm)

end Graph

theorem pairwise_replace {α : Type} {R : α → α → Prop} {before after : List α} {a a' : α}
    (h : (before ++ a :: after).Pairwise R) (hbefore : ∀ b ∈ before, R b a → R b a')
    (hafter : ∀ b ∈ after, R a b → R a' b) : (before ++ a' :: after).Pairwise R := by
  rw [List.pairwise_append, List.pairwise_cons] at h ⊢
  obtain ⟨hleft, ⟨hhead, hright⟩, hcross⟩ := h
  refine ⟨hleft, ⟨fun b hb => hafter b hb (hhead b hb), hright⟩, ?_⟩
  intro b hb c hc
  rcases List.mem_cons.mp hc with rfl | hc
  . exact hbefore b hb (hcross b hb a (by simp))
  . exact hcross b hb c (by simp [hc])

namespace Draft

variable {g : Graph} {t : Target} {d d' : Draft} {ds ds' done : List Draft} {occ : Occurrence}

/--
All ops of the draft. A copy is listed on both sides.
-/
def ops (d : Draft) : List Occurrence :=
  d.lists.flatten

theorem mem_ops_iff {o : Occurrence} :
    o ∈ d.ops ↔ o ∈ d.producers ∨ o ∈ d.consumers.flatten := by
  unfold ops lists
  rw [List.flatten_cons, List.mem_append]

theorem Blank.producers_eq (h : d.Blank) : d.producers = [] :=
  h _ (by simp [lists])

theorem Blank.consumers_eq (h : d.Blank) : d.consumers.flatten = [] := by
  rw [List.flatten_eq_nil_iff]
  intro ops hops
  exact h ops (by simp [lists, hops])

theorem Blank.not_mem_ops (h : d.Blank) {o : Occurrence} : o ∉ d.ops := by
  rw [mem_ops_iff, h.producers_eq, h.consumers_eq]
  simp

theorem ofChannel_blank (channel : String) (index : List Nat) (destinations : Nat) :
    (ofChannel channel index destinations).Blank := by
  intro ops hops
  rcases List.mem_cons.mp hops with rfl | hops
  . rfl
  . exact List.eq_of_mem_replicate hops

/--
The draft gets an op that belongs to it, on the sides that the op has.
-/
structure Receives (g : Graph) (occ : Occurrence) (d d' : Draft) : Prop where
  slot_eq : d'.slot = g.slot? occ.op
  producers : d'.producers = d.producers ++ [occ].filter Occurrence.reads
  consumers : d'.consumers.flatten.Perm
    (d.consumers.flatten ++ [occ].filter Occurrence.writes)
  copy : d'.slot = none → d'.lists = [[occ], [occ]]

theorem Receives.mem_ops_iff (h : d.Receives g occ d') {o : Occurrence} :
    o ∈ d'.ops ↔ o ∈ d.ops ∨ o = occ := by
  rw [Draft.mem_ops_iff, Draft.mem_ops_iff, h.producers, h.consumers.mem_iff, List.mem_append,
    List.mem_append, List.mem_filter, List.mem_filter, List.mem_singleton]
  constructor
  . rintro ((h | h) | (h | h))
    . exact .inl (.inl h)
    . exact .inr h.1
    . exact .inl (.inr h)
    . exact .inr h.1
  . rintro ((h | h) | rfl)
    . exact .inl (.inl h)
    . exact .inr (.inl h)
    . rcases o.reads_or_writes with hside | hside
      . exact .inl (.inr ⟨rfl, hside⟩)
      . exact .inr (.inr ⟨rfl, hside⟩)

/--
One op more among drafts: the draft of its flow gets it, a new one at the end if there is none yet.
-/
inductive Files (g : Graph) (occ : Occurrence) : List Draft → List Draft → Prop where
  | old {before after : List Draft} {d d' : Draft} (hslot : d'.slot = d.slot)
    (h : d.Receives g occ d') : Files g occ (before ++ d :: after) (before ++ d' :: after)
  | new {ds : List Draft} {d d' : Draft} (hblank : d.Blank)
    (hslot : ∀ c ∈ ds, c.slot = d'.slot → c.slot = none) (h : d.Receives g occ d') :
    Files g occ ds (ds ++ [d'])

theorem addPut_receives {channel : String} {decl : ChannelDecl} {src : Access}
    (hm : occ.op.movement = .put channel src) (hdecl : g.channel? channel = some decl)
    (hslot : d.slot = some (channel, indexOf decl occ.op))
    (h : d.addPut channel occ src = .ok d') : d'.slot = d.slot ∧ d.Receives g occ d' := by
  obtain rfl := eq_of_addPut h
  refine ⟨rfl, ?_, ?_, ?_, ?_⟩
  . rw [Graph.slot?_of_half (by rw [hm]; rfl) hdecl]
    exact hslot
  . simp [Occurrence.reads, hm, Movement.src?]
  . simp [Occurrence.writes, hm, Movement.dst?]
  . intro hnone
    simp [hslot] at hnone

theorem addGet_receives {channel : String} {decl : ChannelDecl} {dst : Access}
    (hm : occ.op.movement = .get channel dst) (hdecl : g.channel? channel = some decl)
    (hslot : d.slot = some (channel, indexOf decl occ.op))
    (h : d.addGet decl channel occ dst = .ok d') : d'.slot = d.slot ∧ d.Receives g occ d' := by
  obtain ⟨n, ops, _, hops, rfl⟩ := addGet_cases h
  refine ⟨rfl, ?_, ?_, ?_, ?_⟩
  . rw [Graph.slot?_of_half (by rw [hm]; rfl) hdecl]
    exact hslot
  . simp [Occurrence.reads, hm, Movement.src?]
  . have hwrites : [occ].filter Occurrence.writes = [occ] := by
      simp [Occurrence.writes, hm, Movement.dst?]
    rw [hwrites]
    exact (flatten_set_perm occ hops).trans (List.perm_append_singleton ..).symm
  . intro hnone
    simp [hslot] at hnone

/--
What the addition of half a movement has done: it has changed the draft of the flow, or else one
without ops at the end.
-/
theorem addHalf_cases {channel : String} {f : ChannelDecl → Draft → Except CompileError Draft}
    (h : addHalf g t channel occ ds f = .ok ds') :
    ∃ decl n before d d' after, g.channel? channel = some decl ∧
      decl.destinationCount t = .ok n ∧ d.slot = some (channel, indexOf decl occ.op) ∧
      f decl d = .ok d' ∧ ds' = before ++ d' :: after ∧ (∀ c ∈ before, c.slot ≠ d.slot) ∧
      (ds = before ++ d :: after ∨
        d = ofChannel channel (indexOf decl occ.op) n ∧ ds = before ∧ after = []) := by
  unfold addHalf at h
  split at h
  . cases h
  . next decl hdecl =>
    obtain ⟨n, hn, h⟩ := bind_eq_ok h
    obtain ⟨before, d, d', after, hd', rfl, hbefore, ⟨hslot, rfl⟩ | ⟨rfl, rfl, rfl⟩⟩ :=
      update_cases h
    . exact ⟨decl, n, before, d, d', after, hdecl, mapError_eq_ok_iff.mp hn, hslot, hd', rfl,
        hslot ▸ hbefore, .inl rfl⟩
    . exact ⟨decl, n, ds, _, d', [], hdecl, mapError_eq_ok_iff.mp hn, rfl, hd', rfl, hbefore,
        .inr ⟨rfl, rfl, rfl⟩⟩

theorem addHalf_files {channel : String} {f : ChannelDecl → Draft → Except CompileError Draft}
    (hf : ∀ decl d d', g.channel? channel = some decl →
      d.slot = some (channel, indexOf decl occ.op) → f decl d = .ok d' →
        d'.slot = d.slot ∧ d.Receives g occ d')
    (h : addHalf g t channel occ ds f = .ok ds') : Files g occ ds ds' := by
  obtain ⟨decl, n, before, d, d', after, hdecl, _, hslot, hd', rfl, hbefore,
    rfl | ⟨rfl, rfl, rfl⟩⟩ := addHalf_cases h
  . obtain ⟨hsame, hreceives⟩ := hf decl d d' hdecl hslot hd'
    exact .old hsame hreceives
  . obtain ⟨hsame, hreceives⟩ := hf decl _ d' hdecl hslot hd'
    refine .new (ofChannel_blank _ _ _) ?_ hreceives
    intro c hc heq
    exact absurd (heq.trans hsame) (hbefore c hc)

theorem add_files (h : add g t ds occ = .ok ds') : Files g occ ds ds' := by
  unfold add at h
  split at h
  . next src dst hm =>
    obtain ⟨_, _, h⟩ := bind_eq_ok h
    obtain rfl := Except.ok.inj h
    have hblank : (⟨none, "", none, none, [], []⟩ : Draft).Blank := by simp [Blank, lists]
    refine .new hblank (fun c _ hslot => hslot) ⟨?_, ?_, ?_, fun _ => rfl⟩
    . simp [ofCopy, Graph.slot?, hm, Movement.channel?]
    . simp [ofCopy, Occurrence.reads, hm, Movement.src?]
    . simp [ofCopy, Occurrence.writes, hm, Movement.dst?]
  . next channel src hm =>
    exact addHalf_files (fun decl d d' hdecl hslot hok => addPut_receives hm hdecl hslot hok) h
  . next channel dst hm =>
    exact addHalf_files (fun decl d d' hdecl hslot hok => addGet_receives hm hdecl hslot hok) h

theorem Files.flatMap_perm {f : Draft → List Occurrence} {extra : List Occurrence}
    (hblank : ∀ d : Draft, d.Blank → f d = [])
    (hf : ∀ d d' : Draft, d.Receives g occ d' → (f d').Perm (f d ++ extra))
    (h : Files g occ ds ds') : (ds'.flatMap f).Perm (ds.flatMap f ++ extra) := by
  cases h with
  | @old before after d d' _ h =>
    rw [List.flatMap_append, List.flatMap_append, List.flatMap_cons, List.flatMap_cons,
      List.append_assoc]
    have hgrown : (f d' ++ after.flatMap f).Perm (f d ++ extra ++ after.flatMap f) :=
      (hf d d' h).append_right _
    have hmoved : (f d ++ extra ++ after.flatMap f).Perm (f d ++ after.flatMap f ++ extra) := by
      rw [List.append_assoc, List.append_assoc]
      exact List.perm_append_comm.append_left _
    exact (hgrown.trans hmoved).append_left _
  | @new _ d d' hd _ h =>
    have hnew := hf d d' h
    rw [hblank d hd, List.nil_append] at hnew
    rw [List.flatMap_append, List.flatMap_singleton]
    exact hnew.append_left _

/--
No flow gets a second draft.
-/
theorem Files.slots (h : Files g occ ds ds')
    (hds : ds.Pairwise fun c d => c.slot = d.slot → c.slot = none) :
    ds'.Pairwise fun c d => c.slot = d.slot → c.slot = none := by
  cases h with
  | old hslot _ =>
    apply pairwise_replace hds
    . intro c _ hc
      rw [hslot]
      exact hc
    . intro c _ hc
      rw [hslot]
      exact hc
  | new _ hslot _ =>
    rw [List.pairwise_append]
    refine ⟨hds, by simp, ?_⟩
    intro c hc d hd
    rw [List.mem_singleton.mp hd]
    exact hslot c hc

/--
An op that comes after all others leaves the drafts in the order of their first ops.
-/
theorem Files.first (h : Files g occ ds ds')
    (hds : ds.Pairwise fun c d => ∃ o ∈ c.ops, ∀ o' ∈ d.ops, o.ref < o'.ref)
    (hne : ∀ d ∈ ds, ∃ o, o ∈ d.ops) (hlt : ∀ d ∈ ds, ∀ o ∈ d.ops, o.ref < occ.ref) :
    ds'.Pairwise fun c d => ∃ o ∈ c.ops, ∀ o' ∈ d.ops, o.ref < o'.ref := by
  cases h with
  | @old before after d d' _ hd =>
    apply pairwise_replace hds
    . intro c hc ⟨o, ho, hfirst⟩
      refine ⟨o, ho, ?_⟩
      intro o' ho'
      rcases hd.mem_ops_iff.mp ho' with ho' | rfl
      . exact hfirst o' ho'
      . exact hlt c (by simp [hc]) o ho
    . intro c _ ⟨o, ho, hfirst⟩
      exact ⟨o, hd.mem_ops_iff.mpr (.inl ho), hfirst⟩
  | @new _ d d' hblank _ hd =>
    rw [List.pairwise_append]
    refine ⟨hds, by simp, ?_⟩
    intro c hc c' hc'
    obtain ⟨o, ho⟩ := hne c hc
    refine ⟨o, ho, ?_⟩
    intro o' ho'
    rw [List.mem_singleton.mp hc'] at ho'
    rcases hd.mem_ops_iff.mp ho' with ho' | rfl
    . exact absurd ho' hblank.not_mem_ops
    . exact hlt c hc o ho

/--
The drafts divide up the ops that have been added so far.
-/
structure Covers (g : Graph) (done : List Occurrence) (ds : List Draft) : Prop where
  producers : (ds.flatMap Draft.producers).Perm (done.filter Occurrence.reads)
  consumers : (ds.flatMap fun d => d.consumers.flatten).Perm (done.filter Occurrence.writes)
  slot_eq : ∀ d ∈ ds, ∀ o ∈ d.ops, g.slot? o.op = d.slot
  copy : ∀ d ∈ ds, d.slot = none → ∃ o, d.lists = [[o], [o]]
  slots : ds.Pairwise fun c d => c.slot = d.slot → c.slot = none
  lt : ∀ d ∈ ds, ∀ o ∈ d.ops, o.ref < done.length
  ops_ne : ∀ d ∈ ds, d.ops ≠ []
  first : ds.Pairwise fun c d => ∃ o ∈ c.ops, ∀ o' ∈ d.ops, o.ref < o'.ref

namespace Covers

variable {done : List Occurrence}

theorem nil : Covers g [] [] := by
  constructor
  all_goals simp

/--
Of the drafts after one op more, only the one that has got it need be looked at.
-/
theorem forall_files {P : Draft → Prop} (h : Files g occ ds ds') (hds : ∀ d ∈ ds, P d)
    (hnew : ∀ d d', d.Receives g occ d' → (d ∈ ds ∧ d'.slot = d.slot ∨ d.Blank) → P d') :
    ∀ d ∈ ds', P d := by
  intro c hc
  cases h with
  | @old before after d d' hslot h =>
    rcases List.mem_append.mp hc with hc | hc
    . exact hds c (by simp [hc])
    . rcases List.mem_cons.mp hc with rfl | hc
      . exact hnew d c h (.inl ⟨by simp, hslot⟩)
      . exact hds c (by simp [hc])
  | @new _ d d' hblank _ h =>
    rcases List.mem_append.mp hc with hc | hc
    . exact hds c hc
    . rw [List.mem_singleton.mp hc]
      exact hnew d d' h (.inr hblank)

theorem add (h : Covers g done ds) (href : occ.ref = done.length) (hfiles : Files g occ ds ds') :
    Covers g (done ++ [occ]) ds' where
  producers := by
    rw [List.filter_append]
    refine (hfiles.flatMap_perm (fun d hd => hd.producers_eq) ?_).trans (h.producers.append_right _)
    intro d d' hd
    rw [hd.producers]
  consumers := by
    rw [List.filter_append]
    refine (hfiles.flatMap_perm (f := fun d => d.consumers.flatten) (fun d hd => hd.consumers_eq)
      ?_).trans (h.consumers.append_right _)
    exact fun d d' hd => hd.consumers
  slot_eq := by
    apply forall_files hfiles h.slot_eq
    intro d d' hd hcases o ho
    rcases hd.mem_ops_iff.mp ho with ho | rfl
    . rcases hcases with ⟨hmem, hslot⟩ | hblank
      . rw [hslot]
        exact h.slot_eq d hmem o ho
      . exact absurd ho hblank.not_mem_ops
    . exact hd.slot_eq.symm
  copy := by
    apply forall_files hfiles h.copy
    intro d d' hd _ hnone
    exact ⟨occ, hd.copy hnone⟩
  slots := hfiles.slots h.slots
  lt := by
    rw [List.length_append, List.length_singleton]
    apply forall_files (P := fun d => ∀ o ∈ d.ops, o.ref < done.length + 1) hfiles
    . intro d hd o ho
      exact Nat.lt_succ_of_lt (h.lt d hd o ho)
    . intro d d' hd hcases o ho
      rcases hd.mem_ops_iff.mp ho with ho | rfl
      . rcases hcases with ⟨hmem, _⟩ | hblank
        . exact Nat.lt_succ_of_lt (h.lt d hmem o ho)
        . exact absurd ho hblank.not_mem_ops
      . rw [href]
        exact Nat.lt_succ_self _
  ops_ne := by
    apply forall_files hfiles h.ops_ne
    intro d d' hd _
    exact List.ne_nil_of_mem (hd.mem_ops_iff.mpr (.inr rfl))
  first := by
    apply hfiles.first h.first
    . intro c hc
      exact List.exists_mem_of_ne_nil _ (h.ops_ne c hc)
    . intro c hc o ho
      rw [href]
      exact h.lt c hc o ho

end Covers

theorem drafts_cover (h : g.occurrences.foldlM (Draft.add g t) [] = .ok ds) :
    Covers g g.occurrences ds := by
  apply foldlM_eq_ok (Covers g) h .nil
  intro done occ rest ds ds' hsplit hds hadd
  apply hds.add _ (add_files hadd)
  apply Graph.getElem?_occurrences (g := g)
  rw [hsplit]
  simp

namespace Covers

variable {done : List Occurrence}

/--
The draft of a flow is the only one.
-/
theorem eq_of_slot (h : Covers g done ds) {c : Draft} (hc : c ∈ ds) (hd : d ∈ ds)
    (hslot : c.slot = d.slot) (hne : d.slot ≠ none) : c = d := by
  by_cases heq : c = d
  . exact heq
  . have hnone : c.slot = none := by
      refine rel_of_pairwise h.slots ?_ hc hd heq hslot
      intro a b himp hsame
      exact hsame.trans (himp hsame.symm)
    exact absurd (hslot.symm.trans hnone) hne

theorem exists_producer (h : Covers g done ds) {occ : Occurrence} (hocc : occ ∈ done)
    (hreads : occ.reads = true) : ∃ d ∈ ds, occ ∈ d.producers := by
  apply List.mem_flatMap.mp
  rw [h.producers.mem_iff, List.mem_filter]
  exact ⟨hocc, hreads⟩

theorem exists_consumer (h : Covers g done ds) {occ : Occurrence} (hocc : occ ∈ done)
    (hwrites : occ.writes = true) : ∃ d ∈ ds, occ ∈ d.consumers.flatten := by
  apply List.mem_flatMap.mp
  rw [h.consumers.mem_iff, List.mem_filter]
  exact ⟨hocc, hwrites⟩

theorem mem_producers (h : Covers g done ds) (hd : d ∈ ds) (hne : d.slot ≠ none)
    {occ : Occurrence} (hocc : occ ∈ done) (hreads : occ.reads = true)
    (hslot : g.slot? occ.op = d.slot) : occ ∈ d.producers := by
  obtain ⟨c, hc, hmem⟩ := h.exists_producer hocc hreads
  have hsame := (h.slot_eq c hc occ (mem_ops_iff.mpr (.inl hmem))).symm.trans hslot
  rw [← h.eq_of_slot hc hd hsame hne]
  exact hmem

theorem mem_consumers (h : Covers g done ds) (hd : d ∈ ds) (hne : d.slot ≠ none)
    {occ : Occurrence} (hocc : occ ∈ done) (hwrites : occ.writes = true)
    (hslot : g.slot? occ.op = d.slot) : occ ∈ d.consumers.flatten := by
  obtain ⟨c, hc, hmem⟩ := h.exists_consumer hocc hwrites
  have hsame := (h.slot_eq c hc occ (mem_ops_iff.mpr (.inr hmem))).symm.trans hslot
  rw [← h.eq_of_slot hc hd hsame hne]
  exact hmem

/--
The draft of a copy has nothing but the copy, which is on both of its sides.
-/
theorem sides_of_slot_eq_none (h : Covers g done ds) (hd : d ∈ ds) (hnone : d.slot = none)
    {occ : Occurrence} (hocc : occ ∈ d.ops) : occ.reads = true ∧ occ.writes = true := by
  obtain ⟨o, hlists⟩ := h.copy d hd hnone
  obtain ⟨hproducers, hconsumers⟩ := List.cons.inj hlists
  obtain rfl : occ = o := by
    unfold Draft.ops at hocc
    rw [hlists] at hocc
    simpa using hocc
  constructor
  . have hmem : occ ∈ ds.flatMap Draft.producers :=
      List.mem_flatMap.mpr ⟨d, hd, by simp [hproducers]⟩
    rw [h.producers.mem_iff] at hmem
    exact (List.mem_filter.mp hmem).2
  . have hmem : occ ∈ ds.flatMap fun d => d.consumers.flatten :=
      List.mem_flatMap.mpr ⟨d, hd, by simp [hconsumers]⟩
    rw [h.consumers.mem_iff] at hmem
    exact (List.mem_filter.mp hmem).2

/--
A put and a get are in one draft just if they meet.
-/
theorem meet_iff (h : Covers g done ds) {put get : Occurrence} (hput : put ∈ done)
    (hget : get ∈ done) (hput' : put.writes = false) (hget' : get.reads = false) :
    (∃ d ∈ ds, put ∈ d.ops ∧ get ∈ d.ops) ↔ g.Meet put.op get.op := by
  have hslot : ∀ d ∈ ds, put ∈ d.ops → d.slot ≠ none := by
    intro d hd hmem hnone
    have hwrites := (h.sides_of_slot_eq_none hd hnone hmem).2
    rw [hput'] at hwrites
    cases hwrites
  obtain ⟨d, hd, hmem⟩ := h.exists_producer hput (by simpa [hput'] using put.reads_or_writes)
  have hmem := mem_ops_iff.mpr (.inl hmem)
  obtain ⟨slot, hsome⟩ := Option.ne_none_iff_exists'.mp (hslot d hd hmem)
  rw [Graph.meet_iff ((h.slot_eq d hd put hmem).trans hsome)]
  constructor
  . intro ⟨c, hc, hputc, hgetc⟩
    have hsame : c.slot = d.slot :=
      (h.slot_eq c hc put hputc).symm.trans (h.slot_eq d hd put hmem)
    rw [h.slot_eq c hc get hgetc, hsame, hsome]
  . intro hgetslot
    obtain ⟨c, hc, hgetc⟩ := h.exists_consumer hget (by simpa [hget'] using get.reads_or_writes)
    have hgetc := mem_ops_iff.mpr (.inr hgetc)
    have hsame : c.slot = d.slot := by
      rw [← h.slot_eq c hc get hgetc, hgetslot, hsome]
    obtain rfl := h.eq_of_slot hc hd hsame (hslot d hd hmem)
    exact ⟨c, hc, hmem, hgetc⟩

end Covers

end Draft

namespace Bundle

/--
The lists of ops that the bundle has: one for the producing end and one for every destination.
-/
def lists (b : Bundle) : List (List Occurrence) :=
  b.producer.ops :: b.consumers.map Endpoint.ops

/--
All ops of the bundle. A copy is listed at both ends.
-/
def ops (b : Bundle) : List Occurrence :=
  b.lists.flatten

variable {bs : List Bundle} {ds : List Draft}

theorem exists_draft (h : bs.map lists = ds.map Draft.lists) {b : Bundle} (hb : b ∈ bs) :
    ∃ d ∈ ds, d.lists = b.lists := by
  apply List.mem_map.mp
  rw [← h]
  exact List.mem_map_of_mem hb

theorem exists_bundle (h : bs.map lists = ds.map Draft.lists) {d : Draft} (hd : d ∈ ds) :
    ∃ b ∈ bs, b.lists = d.lists := by
  apply List.mem_map.mp
  rw [h]
  exact List.mem_map_of_mem hd

theorem flatMap_producers_eq (h : bs.map lists = ds.map Draft.lists) :
    (bs.flatMap fun b => b.producer.ops) = ds.flatMap Draft.producers := by
  have hproducers := congrArg (fun lists => lists.map fun ops => ops.headD []) h
  simp only [List.map_map] at hproducers
  rw [List.flatMap_def, List.flatMap_def]
  exact congrArg List.flatten hproducers

theorem flatMap_consumers_eq (h : bs.map lists = ds.map Draft.lists) :
    (bs.flatMap fun b => b.consumers.flatMap Endpoint.ops) =
      ds.flatMap fun d => d.consumers.flatten := by
  have hconsumers := congrArg (fun lists => lists.map fun ops => ops.tail.flatten) h
  simp only [List.map_map] at hconsumers
  rw [List.flatMap_def, List.flatMap_def]
  refine congrArg List.flatten (Eq.trans ?_ hconsumers)
  apply List.map_congr_left
  intro b _
  rw [List.flatMap_def]
  rfl

end Bundle

namespace Graph

/--
The ops of the graph are divided up among the bundles.
-/
structure Divided (g : Graph) (t : Target) (bs : List Bundle) : Prop where
  /-- All producers together are the copies and puts of the graph. -/
  producers : (bs.flatMap fun b => b.producer.ops).Perm (g.occurrences.filter Occurrence.reads)
  /-- The ops of all destinations together are the copies and gets of the graph. -/
  consumers : (bs.flatMap fun b => b.consumers.flatMap Endpoint.ops).Perm
    (g.occurrences.filter Occurrence.writes)
  /-- A bundle with a copy has no other ops. -/
  copy : ∀ b ∈ bs, ∀ occ ∈ b.ops, occ.op.movement.channel? = none → b.lists = [[occ], [occ]]
  /-- A put and a get are in one bundle just if they meet. -/
  meet : ∀ put ∈ g.occurrences, ∀ get ∈ g.occurrences, put.writes = false → get.reads = false →
    ((∃ b ∈ bs, put ∈ b.ops ∧ get ∈ b.ops) ↔ g.Meet put.op get.op)
  reads : ∀ b ∈ bs, ∀ occ ∈ b.producer.ops,
    ∃ src, occ.op.movement.src? = some src ∧ src.level = b.producerLevel
  writes : ∀ b ∈ bs, ∀ e ∈ b.consumers, ∀ occ ∈ e.ops,
    ∃ dst, occ.op.movement.dst? = some dst ∧ dst.level = b.consumerLevel
  path : ∀ b ∈ bs, t.hasPath b.producerLevel b.consumerLevel = true
  ne : ∀ b ∈ bs, b.consumers ≠ [] ∧ ∀ ops ∈ b.lists, ops ≠ []
  increasing : ∀ b ∈ bs, ∀ ops ∈ b.lists, Occurrence.Increasing ops
  /-- Every bundle has an op that comes before all ops of the bundles behind it. -/
  first : bs.Pairwise fun b c => ∃ o ∈ b.ops, ∀ o' ∈ c.ops, o.ref < o'.ref

variable {g : Graph} {t : Target} {bs : List Bundle}

theorem partition_covers (h : g.partition t = .ok bs) :
    ∃ ds, Draft.Covers g g.occurrences ds ∧ bs.map Bundle.lists = ds.map Draft.lists := by
  unfold partition at h
  obtain ⟨_, _, h⟩ := bind_eq_ok h
  obtain ⟨ds, hds, h⟩ := bind_eq_ok h
  exact ⟨ds, Draft.drafts_cover hds, map_eq_of_mapM_eq_ok h fun _ _ hd => Draft.finish_eq_ok hd⟩

theorem partition_first (h : g.partition t = .ok bs) :
    bs.Pairwise fun b c => ∃ o ∈ b.ops, ∀ o' ∈ c.ops, o.ref < o'.ref := by
  obtain ⟨ds, hcovers, hlists⟩ := partition_covers h
  have hfirst : (ds.map Draft.lists).Pairwise fun ls ls' =>
      ∃ o ∈ ls.flatten, ∀ o' ∈ ls'.flatten, o.ref < o'.ref := List.pairwise_map.mpr hcovers.first
  rw [← hlists] at hfirst
  exact List.pairwise_map.mp hfirst

theorem partition_copy (h : g.partition t = .ok bs) {b : Bundle} (hb : b ∈ bs) {occ : Occurrence}
    (hocc : occ ∈ b.ops) (hcopy : occ.op.movement.channel? = none) : b.lists = [[occ], [occ]] := by
  obtain ⟨ds, hcovers, hlists⟩ := partition_covers h
  obtain ⟨d, hd, heq⟩ := Bundle.exists_draft hlists hb
  rw [Bundle.ops, ← heq] at hocc
  have hnone : d.slot = none := by
    rw [← hcovers.slot_eq d hd occ hocc]
    unfold slot?
    rw [hcopy, Option.bind_none]
  obtain ⟨o, ho⟩ := hcovers.copy d hd hnone
  obtain rfl : occ = o := by
    rw [ho] at hocc
    simpa using hocc
  rw [← heq, ho]

theorem partition_meet_iff (h : g.partition t = .ok bs) {put get : Occurrence}
    (hput : put ∈ g.occurrences) (hget : get ∈ g.occurrences) (hput' : put.writes = false)
    (hget' : get.reads = false) :
    (∃ b ∈ bs, put ∈ b.ops ∧ get ∈ b.ops) ↔ g.Meet put.op get.op := by
  obtain ⟨ds, hcovers, hlists⟩ := partition_covers h
  rw [← hcovers.meet_iff hput hget hput' hget']
  constructor
  . intro ⟨b, hb, hmem⟩
    obtain ⟨d, hd, heq⟩ := Bundle.exists_draft hlists hb
    rw [Bundle.ops, ← heq] at hmem
    exact ⟨d, hd, hmem⟩
  . intro ⟨d, hd, hmem⟩
    obtain ⟨b, hb, heq⟩ := Bundle.exists_bundle hlists hd
    rw [Draft.ops, ← heq] at hmem
    exact ⟨b, hb, hmem⟩

theorem partition_ne (h : g.partition t = .ok bs) {b : Bundle} (hb : b ∈ bs) :
    b.consumers ≠ [] ∧ ∀ ops ∈ b.lists, ops ≠ [] := by
  have hsound := ((partition_yields g t).of_eq_ok h).sound b hb
  refine ⟨fun hnil => hsound.consumers_ne (by simp [hnil]), fun ops hops => ?_⟩
  rcases List.mem_cons.mp hops with rfl | hops
  . exact hsound.producer_ne
  . exact hsound.consumer_ne ops hops

theorem partition_increasing (h : g.partition t = .ok bs) {b : Bundle} (hb : b ∈ bs)
    {ops : List Occurrence} (hops : ops ∈ b.lists) : Occurrence.Increasing ops := by
  have hincreasing := (partition_arranged h).increasing b hb
  rcases List.mem_cons.mp hops with rfl | hops
  . exact hincreasing b.producer (by simp)
  . obtain ⟨e, he, rfl⟩ := List.mem_map.mp hops
    exact hincreasing e (by simp [he])

theorem partition_divided (h : g.partition t = .ok bs) : g.Divided t bs := by
  have hsound := ((partition_yields g t).of_eq_ok h).sound
  obtain ⟨ds, hcovers, hlists⟩ := partition_covers h
  constructor
  . rw [Bundle.flatMap_producers_eq hlists]
    exact hcovers.producers
  . rw [Bundle.flatMap_consumers_eq hlists]
    exact hcovers.consumers
  . intro b hb occ
    exact partition_copy h hb
  . intro put hput get hget
    exact partition_meet_iff h hput hget
  . intro b hb occ hocc
    exact Op.directionAt_eq_outbound_iff.mp ((hsound b hb).reads occ hocc).2
  . intro b hb e he occ hocc
    exact (Op.directionAt_eq_inbound_iff.mp
      ((hsound b hb).writes _ (List.mem_map_of_mem he) occ hocc).2).2
  . intro b hb
    exact (hsound b hb).path
  . intro b hb
    exact partition_ne h hb
  . intro b hb ops
    exact partition_increasing h hb
  . exact partition_first h

/--
Two flows over one channel whose ops come in between each other, a copy, and a broadcast.
-/
def crossed : Graph where
  scope := "crossed"
  buffers := [⟨"far", .external, [16], 4⟩, ⟨"near", .tileLocal, [16], 4⟩]
  channels := [⟨"lane", none⟩, ⟨"all", some [2]⟩]
  regions := [⟨"pair", 0, 2, 2, 1⟩]
  ops := [
    ⟨1, .put "lane" near, some "pair", some [0, 0], [0], [], none⟩,
    ⟨2, .put "lane" near, some "pair", some [1, 0], [1], [], none⟩,
    ⟨3, .copy far near, some "pair", some [0, 0], [], [], none⟩,
    ⟨4, .put "all" far, none, none, [], [], none⟩,
    ⟨5, .get "lane" far, none, none, [1], [], none⟩,
    ⟨6, .get "all" near, some "pair", some [0, 0], [0], [], none⟩,
    ⟨7, .get "lane" far, none, none, [0], [], none⟩,
    ⟨8, .get "all" near, some "pair", some [1, 0], [1], [], none⟩]
  host := none
where
  far : Access := .whole "far" .external
  near : Access := .whole "near" .tileLocal

theorem partition_crossed_divided :
    ∃ bs, crossed.partition (.gen2 4 6) = .ok bs ∧ crossed.Divided (.gen2 4 6) bs := by
  obtain ⟨bs, hbs⟩ : ∃ bs, crossed.partition (.gen2 4 6) = .ok bs :=
    exists_of_isOk (by decide +kernel)
  exact ⟨bs, hbs, partition_divided hbs⟩

/--
The put of every lane is in the bundle of the get with its index.
-/
example : (crossed.partition (.gen2 4 6)).toOption.map (fun bs => bs.map fun b =>
    b.ops.map fun occ => occ.op.id) = some [[1, 7], [2, 5], [3, 3], [4, 6, 8]] := by
  decide +kernel

end Graph

end TileTraffic
