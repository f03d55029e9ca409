import TileTraffic.Channel.Assignment
import TileTraffic.Proofs.Bundle.Ends
import TileTraffic.Proofs.Channel.Step

/-!
Assignment of one level on fixed tiles: every end at the level gets a channel that serves all of its
ops, and there is no channel that no end needs.
-/

namespace TileTraffic

/--
A channel serves ops: it is open, faces the right way, lists the ids of all the ops, and sits where
they want it.
-/
structure ServedBy (sits : Op → Coord → Prop) (d : Direction) (p : ChannelPool)
    (ops : List Occurrence) (key : ChannelKey) : Prop where
  direction : key.direction = d
  serves : ∀ occ ∈ ops, p.Serves key occ.op.id
  sits : ∀ occ ∈ ops, sits occ.op key.tile

namespace ServedBy

variable {sits : Op → Coord → Prop} {d : Direction} {p p' : ChannelPool} {ops : List Occurrence}
  {key : ChannelKey} {new : ChannelKey → Prop}

theorem grow (h : ServedBy sits d p ops key) (hgrows : p.Grows p' new) :
    ServedBy sits d p' ops key where
  direction := h.direction
  serves := fun occ hocc => hgrows.serves (h.serves occ hocc)
  sits := h.sits

theorem push (h : ServedBy sits d p ops key) (hgrows : p.Grows p' new) {occ : Occurrence}
    (hserves : p'.Serves key occ.op.id) (hsits : sits occ.op key.tile) :
    ServedBy sits d p' (ops ++ [occ]) key where
  direction := h.direction
  serves := by
    intro o ho
    rcases List.mem_append.mp ho with ho | ho
    . exact hgrows.serves (h.serves o ho)
    . obtain rfl := List.mem_singleton.mp ho
      exact hserves
  sits := by
    intro o ho
    rcases List.mem_append.mp ho with ho | ho
    . exact h.sits o ho
    . obtain rfl := List.mem_singleton.mp ho
      exact hsits

theorem singleton {occ : Occurrence} (hd : key.direction = d) (hserves : p.Serves key occ.op.id)
    (hsits : sits occ.op key.tile) : ServedBy sits d p [occ] key where
  direction := hd
  serves := by simpa using hserves
  sits := by simpa using hsits

end ServedBy

namespace Endpoint

/--
The end has a channel, and this serves all of its ops.
-/
def Served (sits : Op → Coord → Prop) (d : Direction) (p : ChannelPool) (e : Endpoint) : Prop :=
  ∃ key, e.key = some key ∧ ServedBy sits d p e.ops key

theorem Served.grow {sits : Op → Coord → Prop} {d : Direction} {p p' : ChannelPool} {e : Endpoint}
    {new : ChannelKey → Prop} (h : e.Served sits d p) (hgrows : p.Grows p' new) :
    e.Served sits d p' := by
  obtain ⟨key, hkey, hserved⟩ := h
  exact ⟨key, hkey, hserved.grow hgrows⟩

theorem meetKey_yields (flow : String) (op : Op) (known : Option ChannelKey) (key : ChannelKey) :
    Yields (meetKey flow op known key) fun _ => known = none ∨ known = some key := by
  unfold meetKey
  split
  . split
    . next heq => exact .inr (by rw [heq])
    . rfl
  . exact .inl rfl

/--
How far an end has got that started from the pool `p`: `known` is the channel of its ops so far.
-/
structure Progress (sits : Op → Coord → Prop) (d : Direction) (p p' : ChannelPool)
    (done : List Occurrence) (known : Option ChannelKey) : Prop where
  grows : p.Grows p' fun key => known = some key
  served : ∀ key, known = some key → ServedBy sits d p' done key
  started : known = none → done = []

variable {g : Graph} {t : Target} {p : ChannelPool} {sits : Op → Coord → Prop}
  {tileOf : Op → Except CompileError Coord} {flow : String} {d : Direction}

/--
The tile of every op that accesses the level may have channels of the level, and is where the op has
to be.
-/
def Locates (g : Graph) (t : Target) (level : Level) (sits : Op → Coord → Prop)
    (tileOf : Op → Except CompileError Coord) : Prop :=
  ∀ occ ∈ g.occurrences, ∀ d, occ.op.directionAt level = .ok d →
    Yields (tileOf occ.op) fun tile => sits occ.op tile ∧ t.Hosts level tile

theorem serveOp_yields {p' : ChannelPool} {done : List Occurrence} {known : Option ChannelKey}
    {occ : Occurrence} (hlevel : p.level ≠ .external) (htile : Locates g t p.level sits tileOf)
    (hocc : occ ∈ g.occurrences) (hd : occ.op.directionAt p.level = .ok d) (hp : p'.Sound g t)
    (h : Progress sits d p p' done known) :
    Yields (serveOp t flow tileOf (known, p') occ) fun s =>
      s.2.Sound g t ∧
        Progress sits d p s.2 (done ++ [occ]) s.1 := by
  have hsame := h.grows.level
  unfold serveOp
  apply (htile occ hocc d hd).bind
  intro tile ⟨htileSits, hhosts⟩
  apply Yields.bind
  . apply Runs.attempt
    apply ChannelPool.serve_runs hp (by rw [hsame]; exact hlevel) hocc (by rw [hsame]; exact hhosts)
      (by rw [hsame]; exact hd)
  intro ⟨key, p''⟩ ⟨hkeyTile, hkeyDir, hfits, hstep⟩
  apply (meetKey_yields flow occ.op known key).bind
  intro _ hknown
  apply Yields.pure
  have hsits : sits occ.op key.tile := by
    rw [hkeyTile]
    exact htileSits
  refine ⟨hstep.sound hp hfits, ?_, ?_, by simp⟩
  . -- if there was a channel before, it is the one that was met again
    have hbefore : p.Grows p' fun k => some key = some k := by
      apply h.grows.mono
      intro k hk
      rcases hknown with hn | hn
      . rw [hn] at hk
        cases hk
      . rw [← hn, hk]
    apply hbefore.trans
    apply hstep.grows.mono
    intro k hk
    rw [hk]
  . intro k hk
    obtain rfl := Option.some.inj hk
    rcases hknown with hn | hn
    . rw [h.started hn]
      exact .singleton hkeyDir hstep.serves hsits
    . exact (h.served key hn).push hstep.grows hstep.serves hsits

theorem assign_yields {e : Endpoint} (hlevel : p.level ≠ .external)
    (htile : Locates g t p.level sits tileOf) (hp : p.Sound g t) (hkey : e.key = none)
    (hne : e.ops ≠ [])
    (hops : ∀ occ ∈ e.ops, occ ∈ g.occurrences ∧ occ.op.directionAt p.level = .ok d) :
    Yields (assign t flow tileOf p e) fun r =>
      r.1.ops = e.ops ∧ r.2.Sound g t ∧ p.Grows r.2 (fun key => r.1.key = some key) ∧
        r.1.Served sits d r.2 := by
  unfold assign
  apply Yields.bind
  . apply Yields.foldlM fun done s => s.2.Sound g t ∧
      Progress sits d p s.2 done s.1
    . rw [hkey]
      exact ⟨hp, .refl, by simp, by simp⟩
    . intro done occ hocc s ⟨hs, hprogress⟩
      obtain ⟨hmem, hd⟩ := hops occ hocc
      exact serveOp_yields hlevel htile hmem hd hs hprogress
  intro ⟨known, p'⟩ ⟨hp', hprogress⟩
  apply Yields.pure
  refine ⟨rfl, hp', hprogress.grows, ?_⟩
  cases hknown : known with
  | none => exact absurd (hprogress.started hknown) hne
  | some key => exact ⟨key, rfl, hprogress.served key hknown⟩

theorem assignAll_yields {es : List Endpoint} (hlevel : p.level ≠ .external)
    (htile : Locates g t p.level sits tileOf) (hp : p.Sound g t)
    (hes : ∀ e ∈ es, e.key = none ∧ e.ops ≠ [] ∧
      ∀ occ ∈ e.ops, occ ∈ g.occurrences ∧ occ.op.directionAt p.level = .ok d) :
    Yields (threadM (assign t flow tileOf) p es) fun r =>
      r.1.map Endpoint.ops = es.map Endpoint.ops ∧ r.2.Sound g t ∧
        p.Grows r.2 (fun key => ∃ e ∈ r.1, e.key = some key) ∧
        ∀ e ∈ r.1, e.Served sits d r.2 := by
  apply Yields.threadM fun done es p' =>
    es.map Endpoint.ops = done.map Endpoint.ops ∧ p'.Sound g t ∧
      p.Grows p' (fun key => ∃ e ∈ es, e.key = some key) ∧
      ∀ e ∈ es, e.Served sits d p'
  . exact ⟨rfl, hp, .refl, by simp⟩
  . intro done es e he p' ⟨hmap, hp', hgrows, hserved⟩
    have hsame := hgrows.level
    obtain ⟨hkey, hne, hops⟩ := hes e he
    apply Yields.mono
    . apply assign_yields (d := d) (by rw [hsame]; exact hlevel) (by rw [hsame]; exact htile) hp'
        hkey hne (by rw [hsame]; exact hops)
    intro ⟨e', p''⟩ ⟨hops', hp'', hgrows', hserved'⟩
    dsimp only at hops'
    refine ⟨by simp [hmap, hops'], hp'', ?_, ?_⟩
    . have hbefore : p.Grows p' fun key => ∃ c ∈ es ++ [e'], c.key = some key := by
        apply hgrows.mono
        intro key ⟨c, hc, hckey⟩
        exact ⟨c, by simp [hc], hckey⟩
      apply hbefore.trans
      apply hgrows'.mono
      intro key hk
      exact ⟨e', by simp, hk⟩
    . intro c hc
      rcases List.mem_append.mp hc with hc | hc
      . exact (hserved c hc).grow hgrows'
      . obtain rfl := List.mem_singleton.mp hc
        exact hserved'

end Endpoint

namespace Bundle

/--
The ends of a list of bundles that live at a level.
-/
def endsOf (level : Level) (bs : List Bundle) : List (Direction × Endpoint) :=
  bs.flatMap fun b => b.endsAt level

/--
The ends at the level of a pool have channels there, and every channel is there for one of them.
-/
structure Covered (sits : Op → Coord → Prop) (p : ChannelPool)
    (ends : List (Direction × Endpoint)) : Prop where
  served : ∀ x ∈ ends, x.2.Served sits x.1 p
  needed : ∀ key ∈ p.keys, ∃ x ∈ ends, x.2.key = some key

variable {g : Graph} {t : Target} {p : ChannelPool} {sits : Op → Coord → Prop}
  {tileOf : Op → Except CompileError Coord} {b : Bundle} {level : Level}

theorem endsAt_congr {b' : Bundle} (hproducer : b'.producerLevel = b.producerLevel)
    (hconsumer : b'.consumerLevel = b.consumerLevel)
    (hproducers : b.producerLevel = level → b'.producer = b.producer)
    (hconsumers : b.consumerLevel = level → b'.consumers = b.consumers) :
    b'.endsAt level = b.endsAt level := by
  unfold endsAt
  rw [hproducer, hconsumer]
  congr 1
  . split
    . next h => rw [hproducers h]
    . rfl
  . split
    . next h => rw [hconsumers h]
    . rfl

/--
What assigning a level does to a bundle: only the channels at that level change, the pool grows by
nothing else, and all ends at the level are served.
-/
structure Assigned (sits : Op → Coord → Prop) (p p' : ChannelPool) (b b' : Bundle) : Prop where
  unassigned : b'.unassigned = b.unassigned
  others : ∀ level, level ≠ p.level → b'.endsAt level = b.endsAt level
  grows : p.Grows p' fun key => ∃ x ∈ b'.endsAt p.level, x.2.key = some key
  served : ∀ x ∈ b'.endsAt p.level, x.2.Served sits x.1 p'

theorem unassigned_eq_of_ops {e e' : Endpoint} (h : e'.ops = e.ops) :
    e'.unassigned = e.unassigned := by
  unfold Endpoint.unassigned
  rw [h]

theorem map_unassigned_eq_of_ops {es es' : List Endpoint}
    (h : es'.map Endpoint.ops = es.map Endpoint.ops) :
    es'.map Endpoint.unassigned = es.map Endpoint.unassigned := by
  have hmap : ∀ es : List Endpoint, es.map Endpoint.unassigned =
      (es.map Endpoint.ops).map fun ops => (⟨ops, none⟩ : Endpoint) := by
    intro es
    rw [List.map_map]
    rfl
  rw [hmap, hmap, h]

namespace Assigned

variable {p' : ChannelPool}

theorem refl (hproducer : b.producerLevel ≠ p.level) (hconsumer : b.consumerLevel ≠ p.level) :
    Assigned sits p p b b where
  unassigned := rfl
  others := fun _ _ => rfl
  grows := .refl
  served := by
    intro x hx
    rcases mem_endsAt_iff.mp hx with ⟨h, _⟩ | ⟨h, _⟩
    . exact absurd h hproducer
    . exact absurd h hconsumer

theorem ofProducer {e : Endpoint} (hproducer : b.producerLevel = p.level)
    (hconsumer : b.consumerLevel ≠ p.level) (hops : e.ops = b.producer.ops)
    (hgrows : p.Grows p' fun key => e.key = some key) (hserved : e.Served sits .outbound p') :
    Assigned sits p p' b { b with producer := e } where
  unassigned := by simp [Bundle.unassigned, unassigned_eq_of_ops hops]
  others := by
    intro level hne
    apply endsAt_congr
    . rfl
    . rfl
    . intro h
      exact absurd (h.symm.trans hproducer) hne
    . intro _
      rfl
  grows := by
    apply hgrows.mono
    intro key hkey
    refine ⟨(.outbound, e), ?_, hkey⟩
    rw [mem_endsAt_iff]
    exact .inl ⟨hproducer, rfl⟩
  served := by
    intro x hx
    rcases mem_endsAt_iff.mp hx with ⟨_, rfl⟩ | ⟨h, _⟩
    . exact hserved
    . exact absurd h hconsumer

theorem ofConsumers {es : List Endpoint} (hproducer : b.producerLevel ≠ p.level)
    (hconsumer : b.consumerLevel = p.level)
    (hops : es.map Endpoint.ops = b.consumers.map Endpoint.ops)
    (hgrows : p.Grows p' fun key => ∃ e ∈ es, e.key = some key)
    (hserved : ∀ e ∈ es, e.Served sits .inbound p') :
    Assigned sits p p' b { b with consumers := es } where
  unassigned := by simp [Bundle.unassigned, map_unassigned_eq_of_ops hops]
  others := by
    intro level hne
    apply endsAt_congr
    . rfl
    . rfl
    . intro _
      rfl
    . intro h
      exact absurd (h.symm.trans hconsumer) hne
  grows := by
    apply hgrows.mono
    rintro key ⟨e, he, hkey⟩
    refine ⟨(.inbound, e), ?_, hkey⟩
    rw [mem_endsAt_iff]
    exact .inr ⟨hconsumer, e, he, rfl⟩
  served := by
    intro x hx
    rcases mem_endsAt_iff.mp hx with ⟨h, _⟩ | ⟨_, e, he, rfl⟩
    . exact absurd h hproducer
    . exact hserved e he

end Assigned

theorem assignLevel_yields (hb : b.Sound g t) (hkeys : ∀ x ∈ b.endsAt p.level, x.2.key = none)
    (hp : p.Sound g t) (hlevel : p.level ≠ .external)
    (htile : Endpoint.Locates g t p.level sits tileOf) :
    Yields (b.assignLevel t tileOf p) fun r =>
      r.2.Sound g t ∧ Assigned sits p r.2 b r.1 := by
  have hops : ∀ x ∈ b.endsAt p.level, ∀ occ ∈ x.2.ops,
      occ ∈ g.occurrences ∧ occ.op.directionAt p.level = .ok x.1 := by
    intro x hx occ hocc
    exact ⟨hb.mem_occurrences hx hocc, hb.directionAt hx hocc⟩
  unfold assignLevel
  by_cases hproducer : b.producerLevel = p.level
  . -- the two sides are never at the same level
    have hconsumer : b.consumerLevel ≠ p.level := by
      intro h
      exact hb.level_ne (hproducer.trans h.symm)
    have hmem : (.outbound, b.producer) ∈ b.endsAt p.level := by
      rw [← hproducer]
      exact producer_mem_endsAt
    rw [if_pos hproducer]
    apply (Endpoint.assign_yields hlevel htile hp (hkeys _ hmem) (hb.ends_ne hmem)
      (hops _ hmem)).bind
    rintro ⟨e, p'⟩ ⟨heops, hp', hgrows, hserved⟩
    dsimp only
    rw [if_neg (by rw [hgrows.level]; exact hconsumer)]
    apply Yields.pure_bind
    apply Yields.pure
    exact ⟨hp', .ofProducer hproducer hconsumer heops hgrows hserved⟩
  . rw [if_neg hproducer]
    apply Yields.pure_bind
    dsimp only
    by_cases hconsumer : b.consumerLevel = p.level
    . have hmem : ∀ e ∈ b.consumers, (.inbound, e) ∈ b.endsAt p.level := by
        intro e he
        rw [← hconsumer]
        exact consumer_mem_endsAt he
      rw [if_pos hconsumer]
      apply Yields.bind
      . apply Endpoint.assignAll_yields (d := .inbound) hlevel htile hp
        intro e he
        exact ⟨hkeys _ (hmem e he), hb.ends_ne (hmem e he), hops _ (hmem e he)⟩
      rintro ⟨es, p'⟩ ⟨hesops, hp', hgrows, hserved⟩
      apply Yields.pure
      exact ⟨hp', .ofConsumers hproducer hconsumer hesops hgrows hserved⟩
    . rw [if_neg hconsumer]
      apply Yields.pure_bind
      apply Yields.pure
      exact ⟨hp, .refl hproducer hconsumer⟩

/--
What a pass over all bundles does that assigns one level from an empty pool.
-/
structure PassOver (sits : Op → Coord → Prop) (level : Level) (p : ChannelPool)
    (bs bs' : List Bundle) : Prop where
  level_eq : p.level = level
  unassigned : bs'.map Bundle.unassigned = bs.map Bundle.unassigned
  others : ∀ other, other ≠ level → endsOf other bs' = endsOf other bs
  covered : Covered sits p (endsOf level bs')

theorem endsOf_append {bs bs' : List Bundle} :
    endsOf level (bs ++ bs') = endsOf level bs ++ endsOf level bs' := by
  unfold endsOf
  rw [List.flatMap_append]

theorem endsOf_singleton : endsOf level [b] = b.endsAt level := by
  unfold endsOf
  simp

theorem PassOver.push {sits : Op → Coord → Prop} {p' : ChannelPool} {bs bs' : List Bundle}
    {b' : Bundle} (h : PassOver sits level p bs bs') (hb : Assigned sits p p' b b') :
    PassOver sits level p' (bs ++ [b]) (bs' ++ [b']) where
  level_eq := hb.grows.level.trans h.level_eq
  unassigned := by simp [h.unassigned, hb.unassigned]
  others := by
    intro other hne
    rw [endsOf_append, endsOf_append, h.others other hne, endsOf_singleton, endsOf_singleton,
      hb.others other (by rw [h.level_eq]; exact hne)]
  covered := by
    have hlevel := h.level_eq
    subst hlevel
    constructor
    . intro x hx
      rw [endsOf_append, endsOf_singleton] at hx
      rcases List.mem_append.mp hx with hx | hx
      . exact (h.covered.served x hx).grow hb.grows
      . exact hb.served x hx
    . intro key hkey
      rw [endsOf_append, endsOf_singleton]
      -- a channel that is new was opened for an end of the new bundle
      rcases hb.grows.introduced key hkey with hkey | ⟨x, hx, hxkey⟩
      . obtain ⟨x, hx, hxkey⟩ := h.covered.needed key hkey
        exact ⟨x, by simp [hx], hxkey⟩
      . exact ⟨x, by simp [hx], hxkey⟩

theorem assignLevel_all_yields {bs : List Bundle} (hbs : ∀ b ∈ bs, b.Sound g t)
    (hkeys : ∀ x ∈ endsOf level bs, x.2.key = none) (hlevel : level ≠ .external)
    (htile : Endpoint.Locates g t level sits tileOf) :
    Yields (threadM (Bundle.assignLevel t tileOf) (.empty level) bs) fun r =>
      r.2.Sound g t ∧ PassOver sits level r.2 bs r.1 := by
  apply Yields.threadM fun done bs p =>
    p.Sound g t ∧ PassOver sits level p done bs
  . refine ⟨ChannelPool.sound_empty level, rfl, rfl, fun _ _ => rfl, ?_, ?_⟩
    . simp [endsOf]
    . simp [ChannelPool.empty, ChannelPool.keys]
  . rintro done bs' b hb p ⟨hp, hpass⟩
    have hlevel' := hpass.level_eq
    subst hlevel'
    apply Yields.mono
    . apply assignLevel_yields (hbs b hb) _ hp hlevel htile
      intro x hx
      apply hkeys
      exact List.mem_flatMap.mpr ⟨b, hb, hx⟩
    . rintro ⟨b', p'⟩ ⟨hp', hassigned⟩
      exact ⟨hp', hpass.push hassigned⟩

end Bundle

end TileTraffic
