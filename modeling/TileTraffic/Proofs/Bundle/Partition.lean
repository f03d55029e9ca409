import TileTraffic.Bundle.Partition
import TileTraffic.Proofs.Bundle.Ends

/-!
The partition yields sound bundles, and no op gets into it more than once: at every level, the
bundles together have no more ops than the graph.
-/

namespace TileTraffic

namespace ChannelDecl

variable (c : ChannelDecl)

/--
A get that has a destination has one of those that are counted.
-/
theorem destination_yields (op : Op) :
    Yields (c.destination op) fun n => ∃ count, c.consumerCount? = some count ∧ n < count := by
  unfold destination
  split
  . next hshape =>
    refine ⟨1, ?_, by omega⟩
    unfold consumerCount?
    rw [hshape]
  . split
    . rfl
    . split
      . rfl
      . next count hcount =>
        dsimp only
        split
        . next n hn => exact ⟨count, hcount, (firstBelow_eq_some hn).1⟩
        . rfl

theorem destinationCount_yields (t : Target) :
    Yields (c.destinationCount t) fun n => c.consumerCount? = some n := by
  unfold destinationCount
  split
  . next count hcount =>
    dsimp only
    split
    . exact hcount
    . rfl
  . rfl

end ChannelDecl

namespace Target

theorem checkPath_yields (t : Target) (src dst : Level) :
    Yields (t.checkPath src dst) fun _ => t.hasPath src dst = true := by
  unfold checkPath
  split
  . assumption
  . rfl

theorem ne_of_hasPath {t : Target} {src dst : Level} (h : t.hasPath src dst = true) :
    src ≠ dst := by
  intro heq
  subst heq
  cases src <;> simp [hasPath] at h

end Target

namespace Draft

/--
The part of `Bundle.Sound` that holds while a bundle is built: its ops are ops of the graph and go
the right way, a side with a level has ops, and there are as many destinations as the channel has.
-/
structure Sound (g : Graph) (d : Draft) : Prop where
  reads : ∀ occ ∈ d.producers, occ ∈ g.occurrences ∧
    ∃ level, d.producerLevel = some level ∧ occ.op.directionAt level = .ok .outbound
  writes : ∀ ops ∈ d.consumers, ∀ occ ∈ ops, occ ∈ g.occurrences ∧
    ∃ level, d.consumerLevel = some level ∧ occ.op.directionAt level = .ok .inbound
  producers_ne : d.producerLevel ≠ none → d.producers ≠ []
  consumers_ne : d.consumerLevel ≠ none → d.consumers ≠ []
  slot : ∀ channel index, d.slot = some (channel, index) →
    ∃ decl, g.channel? channel = some decl ∧ decl.consumerCount? = some d.consumers.length

/--
The ops that access a level.
-/
def opsAt (level : Level) (d : Draft) : List Occurrence :=
  (if d.producerLevel = some level then d.producers else []) ++
    (if d.consumerLevel = some level then d.consumers.flatten else [])

variable {g : Graph} {t : Target} {d : Draft} {level : Level}

theorem Sound.producers_eq_nil (h : d.Sound g) (hl : d.producerLevel = none) :
    d.producers = [] := by
  rw [List.eq_nil_iff_forall_not_mem]
  intro occ hocc
  obtain ⟨_, l, hl', _⟩ := h.reads occ hocc
  simp [hl] at hl'

theorem Sound.flatten_consumers_eq_nil (h : d.Sound g) (hl : d.consumerLevel = none) :
    d.consumers.flatten = [] := by
  rw [List.eq_nil_iff_forall_not_mem]
  intro occ hocc
  obtain ⟨ops, hops, hocc⟩ := List.mem_flatten.mp hocc
  obtain ⟨_, l, hl', _⟩ := h.writes ops hops occ hocc
  simp [hl] at hl'

theorem ofChannel_sound {channel : String} {index : List Nat} {decl : ChannelDecl} {n : Nat}
    (hdecl : g.channel? channel = some decl) (hn : decl.consumerCount? = some n) :
    (ofChannel channel index n).Sound g where
  reads := by simp [ofChannel]
  writes := by
    intro ops hops occ hocc
    obtain rfl : ops = [] := by simpa using List.eq_of_mem_replicate hops
    simp at hocc
  producers_ne := by simp [ofChannel]
  consumers_ne := by simp [ofChannel]
  slot := by
    intro c i hslot
    obtain ⟨rfl, rfl⟩ : channel = c ∧ index = i := by simpa [ofChannel] using hslot
    refine ⟨decl, hdecl, ?_⟩
    rw [hn]
    simp [ofChannel]

theorem ofCopy_sound {occ : Occurrence} {src dst : Access} (hocc : occ ∈ g.occurrences)
    (hm : occ.op.movement = .copy src dst) (hpath : t.hasPath src.level dst.level = true) :
    (ofCopy occ src dst).Sound g where
  reads := by
    intro o ho
    obtain rfl : o = occ := by simpa [ofCopy] using ho
    exact ⟨hocc, src.level, rfl, Op.directionAt_of_src (by simp [hm, Movement.src?])⟩
  writes := by
    intro ops hops o ho
    obtain rfl : ops = [occ] := by simpa [ofCopy] using hops
    obtain rfl : o = occ := by simpa using ho
    refine ⟨hocc, dst.level, rfl, ?_⟩
    rw [Op.directionAt_eq_inbound_iff]
    constructor
    . intro a ha
      obtain rfl : src = a := by simpa [hm, Movement.src?] using ha
      exact Target.ne_of_hasPath hpath
    . exact ⟨dst, by simp [hm, Movement.dst?], rfl⟩
  producers_ne := by simp [ofCopy]
  consumers_ne := by simp [ofCopy]
  slot := by simp [ofCopy]

theorem length_opsAt_ofCopy (level : Level) (occ : Occurrence) {src dst : Access}
    (hpath : t.hasPath src.level dst.level = true) :
    ((ofCopy occ src dst).opsAt level).length ≤ 1 := by
  have hne := Target.ne_of_hasPath hpath
  unfold opsAt ofCopy
  by_cases hs : src.level = level
  . have hd : dst.level ≠ level := by
      intro hd
      exact hne (hs.trans hd.symm)
    simp [hs, hd]
  . simp only [Option.some.injEq, hs, ↓reduceIte, List.nil_append]
    split <;> simp

theorem meetLevel_yields (known : Option Level) (level : Level) (op : Op) (channel : String) :
    Yields (meetLevel known level op channel) fun _ => known = none ∨ known = some level := by
  unfold meetLevel
  split
  . next other =>
    split
    . next heq => simp [heq, Yields]
    . rfl
  . exact .inl rfl

theorem exists_side_of_met {known : Option Level} {met : Level} {op : Op} {side : Direction}
    (hknown : known = none ∨ known = some met)
    (h : ∃ level, known = some level ∧ op.directionAt level = .ok side) :
    ∃ level, some met = some level ∧ op.directionAt level = .ok side := by
  obtain ⟨l, hl, hdl⟩ := h
  rcases hknown with hk | hk
  . simp [hl] at hk
  . exact ⟨l, by rw [← hl, hk], hdl⟩

/--
What adding an op to a draft keeps and by how much the draft grows.
-/
def Extends (g : Graph) (level : Level) (d d' : Draft) : Prop :=
  d'.Sound g ∧ d'.slot = d.slot ∧ (d'.opsAt level).length ≤ (d.opsAt level).length + 1

theorem addPut_yields (h : d.Sound g) {channel : String} {occ : Occurrence} {src : Access}
    (hocc : occ ∈ g.occurrences) (hm : occ.op.movement = .put channel src) :
    Yields (d.addPut channel occ src) (d.Extends g level) := by
  have hdir : occ.op.directionAt src.level = .ok .outbound :=
    Op.directionAt_of_src (by simp [hm, Movement.src?])
  unfold addPut
  apply (meetLevel_yields ..).bind
  intro _ hknown
  refine Yields.pure ⟨⟨?_, h.writes, by simp, h.consumers_ne, h.slot⟩, rfl, ?_⟩
  . intro o ho
    rcases List.mem_append.mp ho with ho | ho
    . obtain ⟨hog, hside⟩ := h.reads o ho
      exact ⟨hog, exists_side_of_met hknown hside⟩
    . obtain rfl : o = occ := by simpa using ho
      exact ⟨hocc, src.level, rfl, hdir⟩
  . unfold opsAt
    simp only [List.length_append]
    rcases hknown with hk | hk
    . rw [h.producers_eq_nil hk, hk]
      by_cases hl : src.level = level <;> simp [hl] <;> omega
    . rw [hk]
      by_cases hl : src.level = level <;> simp [hl] <;> omega

theorem length_flatten_set {α : Type} {as : List (List α)} {n : Nat} {a : List α} (x : α)
    (h : as[n]? = some a) : (as.set n (a ++ [x])).flatten.length = as.flatten.length + 1 := by
  induction as generalizing n with
  | nil => simp at h
  | cons b as ih =>
    cases n with
    | zero =>
      obtain rfl : b = a := by simpa using h
      simp only [List.set_cons_zero, List.flatten_cons, List.length_append, List.length_singleton]
      omega
    | succ n =>
      have := ih (by simpa using h)
      simp only [List.set_cons_succ, List.flatten_cons, List.length_append]
      omega

theorem addGet_yields (h : d.Sound g) {channel : String} {index : List Nat} {decl : ChannelDecl}
    (hslot : d.slot = some (channel, index)) (hdecl : g.channel? channel = some decl)
    {occ : Occurrence} {dst : Access} (hocc : occ ∈ g.occurrences)
    (hm : occ.op.movement = .get channel dst) :
    Yields (d.addGet decl channel occ dst) (d.Extends g level) := by
  have hdir : occ.op.directionAt dst.level = .ok .inbound := by
    rw [Op.directionAt_eq_inbound_iff]
    constructor
    . simp [hm, Movement.src?]
    . exact ⟨dst, by simp [hm, Movement.dst?], rfl⟩
  unfold addGet
  apply (meetLevel_yields ..).bind
  intro _ hknown
  apply (decl.destination_yields occ.op).bind
  intro n ⟨count, hcount, hn⟩
  -- the draft has as many destinations as the channel, so the one of the get is there
  have hlt : n < d.consumers.length := by
    obtain ⟨decl', hdecl', hlength⟩ := h.slot _ _ hslot
    obtain rfl : decl = decl' := by simpa [hdecl] using hdecl'
    obtain rfl : count = d.consumers.length := by simpa [hcount] using hlength
    exact hn
  have hget : d.consumers[n]? = some d.consumers[n] := List.getElem?_eq_getElem hlt
  apply (elementAt_yields hget).bind
  intro _ hfound
  subst hfound
  refine Yields.pure ⟨⟨h.reads, ?_, h.producers_ne, ?_, ?_⟩, rfl, ?_⟩
  . intro ops hops o ho
    have hold : ∀ ops ∈ d.consumers, o ∈ ops → o ∈ g.occurrences ∧
        ∃ level, some dst.level = some level ∧ o.op.directionAt level = .ok .inbound := by
      intro ops hops ho
      obtain ⟨hog, hside⟩ := h.writes ops hops o ho
      exact ⟨hog, exists_side_of_met hknown hside⟩
    rcases List.mem_or_eq_of_mem_set hops with hops | rfl
    . exact hold ops hops ho
    . rcases List.mem_append.mp ho with ho | ho
      . exact hold _ (List.getElem_mem hlt) ho
      . obtain rfl : o = occ := by simpa using ho
        exact ⟨hocc, dst.level, rfl, hdir⟩
  . intro _ hnil
    rw [List.set_eq_nil_iff] at hnil
    simp [hnil] at hlt
  . intro c i hs
    rw [List.length_set]
    exact h.slot c i hs
  . unfold opsAt
    simp only [List.length_append]
    rcases hknown with hk | hk
    . have hzero := h.flatten_consumers_eq_nil hk
      have hone := length_flatten_set occ hget
      rw [hk]
      by_cases hl : dst.level = level <;> simp [hl, hone, hzero]
    . have hone := length_flatten_set occ hget
      rw [hk]
      by_cases hl : dst.level = level <;> simp [hl, hone] <;> omega

/--
All drafts are sound, and together they have at most `n` ops at a level.
-/
def AllSound (g : Graph) (level : Level) (n : Nat) (ds : List Draft) : Prop :=
  (∀ d ∈ ds, d.Sound g) ∧ (ds.flatMap (opsAt level)).length ≤ n

theorem update_yields {slot : String × List Nat} {fresh : Draft}
    {f : Draft → Except CompileError Draft}
    (hf : ∀ d, d.Sound g → d.slot = some slot → Yields (f d) (d.Extends g level))
    (hfresh : fresh.Sound g) (hslot : fresh.slot = some slot) (hempty : fresh.opsAt level = [])
    {ds : List Draft} {n : Nat} (h : AllSound g level n ds) :
    Yields (update slot fresh f ds) (AllSound g level (n + 1)) := by
  induction ds generalizing n with
  | nil =>
    apply (hf fresh hfresh hslot).bind
    intro d ⟨hd, _, hlength⟩
    apply Yields.pure
    constructor
    . simpa using hd
    . simp only [hempty, List.length_nil] at hlength
      simp only [List.flatMap_cons, List.flatMap_nil, List.append_nil]
      omega
  | cons d ds ih =>
    obtain ⟨hsound, hlength⟩ := h
    have hd : d.Sound g := hsound d (by simp)
    have hds : ∀ c ∈ ds, c.Sound g := by
      intro c hc
      apply hsound
      simp [hc]
    simp only [List.flatMap_cons, List.length_append] at hlength
    unfold update
    split
    . next hs =>
      apply (hf d hd hs).bind
      intro d' ⟨hd', _, hlength'⟩
      apply Yields.pure
      constructor
      . intro c hc
        rcases List.mem_cons.mp hc with rfl | hc
        . exact hd'
        . exact hds c hc
      . simp only [List.flatMap_cons, List.length_append]
        omega
    . -- the bound for the rest is what the rest has, not what `d` leaves of `n`
      apply (ih (n := (ds.flatMap (opsAt level)).length) ⟨hds, by omega⟩).bind
      intro ds' ⟨hds', hlength'⟩
      apply Yields.pure
      constructor
      . intro c hc
        rcases List.mem_cons.mp hc with rfl | hc
        . exact hd
        . exact hds' c hc
      . simp only [List.flatMap_cons, List.length_append]
        omega

theorem addHalf_yields {channel : String} {occ : Occurrence} {ds : List Draft} {n : Nat}
    {f : ChannelDecl → Draft → Except CompileError Draft}
    (hf : ∀ decl index d, g.channel? channel = some decl → d.Sound g →
      d.slot = some (channel, index) → Yields (f decl d) (d.Extends g level))
    (h : AllSound g level n ds) :
    Yields (addHalf g t channel occ ds f) (AllSound g level (n + 1)) := by
  unfold addHalf
  split
  . apply Yields.throw
    rfl
  . next decl hdecl =>
    apply Yields.bind
    . apply (decl.destinationCount_yields t).mapError
      intro e
      rw [Op.isInternal_blame]
    intro count hcount
    apply update_yields
    . intro d hd hslot
      exact hf decl _ d hdecl hd hslot
    . exact ofChannel_sound hdecl hcount
    . rfl
    . simp [opsAt, ofChannel]
    . exact h

theorem add_yields {ds : List Draft} {n : Nat} (h : AllSound g level n ds) {occ : Occurrence}
    (hocc : occ ∈ g.occurrences) : Yields (add g t ds occ) (AllSound g level (n + 1)) := by
  unfold add
  split
  . next src dst hm =>
    apply Yields.bind
    . apply (t.checkPath_yields src.level dst.level).mapError
      intro e
      rw [Op.isInternal_blame]
    intro _ hpath
    apply Yields.pure
    constructor
    . intro d hd
      rcases List.mem_append.mp hd with hd | hd
      . exact h.1 d hd
      . obtain rfl : d = ofCopy occ src dst := by simpa using hd
        exact ofCopy_sound hocc hm hpath
    . have hone := length_opsAt_ofCopy level occ hpath
      have hlength := h.2
      simp only [List.flatMap_append, List.length_append, List.flatMap_cons, List.flatMap_nil,
        List.append_nil]
      omega
  . next channel src hm =>
    apply addHalf_yields _ h
    intro decl index d _ hd _
    exact addPut_yields hd hocc hm
  . next channel dst hm =>
    apply addHalf_yields _ h
    intro decl index d hdecl hd hslot
    exact addGet_yields hd hslot hdecl hocc hm

theorem finish_yields (h : d.Sound g) :
    Yields (d.finish t) fun b =>
      b.Sound g t ∧ b.unassigned = b ∧ ∀ level, b.opsAt level = d.opsAt level := by
  unfold finish
  split
  . rfl
  . rfl
  . next src dst hsrc hdst =>
    split
    . rfl
    . next hfull =>
      have hne : d.producers ≠ [] := h.producers_ne (by simp [hsrc])
      obtain ⟨first, rest, hcons⟩ := List.exists_cons_of_ne_nil hne
      have hget : d.producers[0]? = some first := by simp [hcons]
      have hops : (d.consumers.map fun ops => (⟨ops, none⟩ : Endpoint)).map Endpoint.ops =
          d.consumers := by
        rw [List.map_map]
        exact List.map_id _
      apply (elementAt_yields hget).bind
      intro _ hfound
      subst hfound
      apply Yields.bind (P := fun _ => t.hasPath src dst = true)
      . apply (t.checkPath_yields src dst).mapError
        intro e
        rw [Op.isInternal_blame]
      intro _ hpath
      apply Yields.pure
      refine ⟨⟨hne, ?_, ?_, hpath, ?_, ?_⟩, ?_, ?_⟩
      . rw [hops]
        exact h.consumers_ne (by simp [hdst])
      . rw [hops]
        intro ops hmem
        rw [List.findIdx?_eq_none_iff] at hfull
        simpa using hfull ops hmem
      . intro occ hocc
        obtain ⟨hog, l, hl, hdl⟩ := h.reads occ hocc
        obtain rfl : src = l := by simpa [hsrc] using hl
        exact ⟨hog, hdl⟩
      . rw [hops]
        intro ops hmem occ hocc
        obtain ⟨hog, l, hl, hdl⟩ := h.writes ops hmem occ hocc
        obtain rfl : dst = l := by simpa [hdst] using hl
        exact ⟨hog, hdl⟩
      . simp [Bundle.unassigned, Endpoint.unassigned]
      . intro level
        unfold Bundle.opsAt Bundle.endsAt opsAt
        rw [List.flatMap_append, hsrc, hdst]
        congr 1
        . by_cases hl : src = level <;> simp [hl]
        . by_cases hl : dst = level <;> simp [hl, List.flatMap_map, List.flatMap_id']

end Draft

namespace Graph

/--
What the partition of a graph is made of.
-/
structure Partitioned (g : Graph) (t : Target) (bs : List Bundle) : Prop where
  resolves : g.Resolves
  sound : ∀ b ∈ bs, b.Sound g t
  unassigned : bs.map Bundle.unassigned = bs
  opsAt_le : ∀ level, (bs.flatMap fun b => b.opsAt level).length ≤ g.ops.length

theorem drafts_yields (g : Graph) (t : Target) (level : Level) :
    Yields (g.occurrences.foldlM (Draft.add g t) []) (Draft.AllSound g level g.ops.length) := by
  have hlength : g.occurrences.length = g.ops.length := by simp [occurrences]
  rw [← hlength]
  apply Yields.foldlM fun done ds => Draft.AllSound g level done.length ds
  . simp [Draft.AllSound]
  . intro done occ hocc ds hds
    rw [List.length_append, List.length_singleton]
    exact Draft.add_yields hds hocc

theorem partition_yields (g : Graph) (t : Target) :
    Yields (g.partition t) (g.Partitioned t) := by
  unfold partition
  apply (validate_yields g).bind
  intro _ hres
  apply (drafts_yields g t .external).with_eq.bind
  intro ds ⟨hds, hsound, _⟩
  apply Yields.mono
  . apply Yields.mapM fun ds bs => (∀ b ∈ bs, b.Sound g t) ∧ bs.map Bundle.unassigned = bs ∧
      ∀ level, (bs.flatMap fun b => b.opsAt level) = ds.flatMap (Draft.opsAt level)
    . simp
    . intro done bs d hd ⟨hbs, hun, hops⟩
      apply (Draft.finish_yields (hsound d hd)).mono
      intro b ⟨hb, hbun, hbops⟩
      refine ⟨?_, ?_, ?_⟩
      . intro c hc
        rcases List.mem_append.mp hc with hc | hc
        . exact hbs c hc
        . obtain rfl : c = b := by simpa using hc
          exact hb
      . simp [hun, hbun]
      . intro level
        simp [List.flatMap_append, hops level, hbops level]
  . intro bs ⟨hbs, hun, hops⟩
    refine ⟨hres, hbs, hun, ?_⟩
    intro level
    rw [hops level]
    exact ((drafts_yields g t level).of_eq_ok hds).2

end Graph

end TileTraffic
