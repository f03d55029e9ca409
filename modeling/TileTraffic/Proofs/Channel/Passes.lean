import TileTraffic.Proofs.Channel.Ledger

/-!
What channels list after the passes over all bundles: each pass keeps the ledger of its pool, and
the ends are assigned bundle by bundle. On tile-local and shared memory, where an op is recognised
by its id, this takes ids that are different.
-/

namespace TileTraffic

namespace Bundle

variable {g : Graph} {t : Target} {p p' : ChannelPool} {b b' : Bundle} {bs : List Bundle}
  {level : Level} {es : List Endpoint}

/--
The ends of a bundle at a level.
-/
def endpointsAt (level : Level) (b : Bundle) : List Endpoint :=
  (b.endsAt level).map Prod.snd

theorem endpointsAt_of_producer (hproducer : b.producerLevel = level)
    (hconsumer : b.consumerLevel ≠ level) : b.endpointsAt level = [b.producer] := by
  unfold endpointsAt endsAt
  rw [if_pos hproducer, if_neg hconsumer]
  rfl

theorem endpointsAt_of_consumer (hproducer : b.producerLevel ≠ level)
    (hconsumer : b.consumerLevel = level) : b.endpointsAt level = b.consumers := by
  unfold endpointsAt endsAt
  rw [if_neg hproducer, if_pos hconsumer, List.nil_append, List.map_map]
  exact List.map_id _

theorem endpointsAt_of_neither (hproducer : b.producerLevel ≠ level)
    (hconsumer : b.consumerLevel ≠ level) : b.endpointsAt level = [] := by
  unfold endpointsAt endsAt
  rw [if_neg hproducer, if_neg hconsumer]
  rfl

theorem flatMap_ops_endpointsAt : (b.endpointsAt level).flatMap Endpoint.ops = b.opsAt level := by
  unfold endpointsAt opsAt
  rw [List.flatMap_map]

theorem assignLevel_ledger {tileOf : Op → Except CompileError Coord} (hb : b.Sound g t)
    (h : p.Ledger es)
    (hops : Occurrence.Identified (es.flatMap Endpoint.ops ++ b.opsAt p.level))
    (hok : b.assignLevel t tileOf p = .ok (b', p')) :
    p'.level = p.level ∧ b'.unassigned = b.unassigned ∧
      p'.Ledger (es ++ b'.endpointsAt p.level) := by
  rw [← flatMap_ops_endpointsAt] at hops
  unfold assignLevel at hok
  by_cases hproducer : b.producerLevel = p.level
  . have hconsumer : b.consumerLevel ≠ p.level := by
      rw [← hproducer]
      exact Ne.symm hb.level_ne
    rw [if_pos hproducer] at hok
    rw [endpointsAt_of_producer hproducer hconsumer] at hops
    obtain ⟨⟨e, p₁⟩, hassign, hok⟩ := bind_eq_ok hok
    obtain ⟨hlevel, heops, hledger⟩ := Endpoint.assign_ledger h (by simpa using hops) hassign
    dsimp only at hok
    rw [if_neg (by rw [hlevel]; exact hconsumer)] at hok
    obtain ⟨rfl, rfl⟩ := Prod.mk.inj (Except.ok.inj hok)
    refine ⟨hlevel, by simp [Bundle.unassigned, unassigned_eq_of_ops heops], ?_⟩
    rw [endpointsAt_of_producer (b := { b with producer := e }) hproducer hconsumer]
    exact hledger
  . rw [if_neg hproducer] at hok
    obtain ⟨_, hpure, hok⟩ := bind_eq_ok hok
    obtain rfl := Except.ok.inj hpure
    dsimp only at hok
    by_cases hconsumer : b.consumerLevel = p.level
    . rw [endpointsAt_of_consumer hproducer hconsumer] at hops
      rw [if_pos hconsumer] at hok
      obtain ⟨⟨es', p₁⟩, hassign, hok⟩ := bind_eq_ok hok
      obtain ⟨rfl, rfl⟩ := Prod.mk.inj (Except.ok.inj hok)
      obtain ⟨hlevel, hmap, hledger⟩ := Endpoint.assignAll_ledger h hops hassign
      refine ⟨hlevel, by simp [Bundle.unassigned, map_unassigned_eq_of_ops hmap], ?_⟩
      rw [endpointsAt_of_consumer (b := { b with consumers := es' }) hproducer hconsumer]
      exact hledger
    . rw [if_neg hconsumer] at hok
      obtain ⟨_, hpure, hok⟩ := bind_eq_ok hok
      obtain rfl := Except.ok.inj hpure
      obtain ⟨rfl, rfl⟩ := Prod.mk.inj (Except.ok.inj hok)
      refine ⟨rfl, rfl, ?_⟩
      rw [endpointsAt_of_neither hproducer hconsumer, List.append_nil]
      exact h

theorem flatMap_ops_endpointsOf :
    (bs.flatMap (endpointsAt level)).flatMap Endpoint.ops = bs.flatMap fun b => b.opsAt level := by
  rw [List.flatMap_assoc]
  simp only [flatMap_ops_endpointsAt]

theorem flatMap_opsAt_congr {bs' : List Bundle}
    (h : bs'.map Bundle.unassigned = bs.map Bundle.unassigned) :
    (bs'.flatMap fun b => b.opsAt level) = bs.flatMap fun b => b.opsAt level := by
  have hmap : ∀ bs : List Bundle, (bs.flatMap fun b => b.opsAt level) =
      (bs.map Bundle.unassigned).flatMap fun b => b.opsAt level := by
    intro bs
    rw [List.flatMap_map]
    simp only [opsAt_unassigned]
  rw [hmap bs', h, ← hmap bs]

/--
The pass over a level from an empty pool, where no two ops at the level have the same id.
-/
theorem assignLevel_all_ledger {tileOf : Op → Except CompileError Coord} {bs' : List Bundle}
    (hbs : ∀ b ∈ bs, b.Sound g t)
    (hops : Occurrence.Identified (bs.flatMap fun b => b.opsAt level))
    (hok : threadM (Bundle.assignLevel t tileOf) (.empty level) bs = .ok (bs', p)) :
    p.Ledger (bs'.flatMap (endpointsAt level)) := by
  have hall := threadM_eq_ok (fun done bs' (p : ChannelPool) => p.level = level ∧
    bs'.map Bundle.unassigned = done.map Bundle.unassigned ∧
      p.Ledger (bs'.flatMap (endpointsAt level))) hok
  refine (hall ⟨rfl, rfl, ChannelPool.ledger_empty level⟩ ?_).2.2
  rintro done bs' b rest p₁ b' p₂ rfl ⟨hlevel, hmap, hledger⟩ hassign
  subst hlevel
  have hsame : (bs'.flatMap (endpointsAt p₁.level)).flatMap Endpoint.ops ++ b.opsAt p₁.level ++
      (rest.flatMap fun b => b.opsAt p₁.level) =
        (done ++ b :: rest).flatMap fun b => b.opsAt p₁.level := by
    rw [flatMap_ops_endpointsOf, flatMap_opsAt_congr hmap]
    simp
  rw [← hsame] at hops
  obtain ⟨hlevel', hunassigned, hledger'⟩ :=
    assignLevel_ledger (hbs b (by simp)) hledger hops.left hassign
  refine ⟨hlevel', by simp [hmap, hunassigned], ?_⟩
  rw [List.flatMap_append, List.flatMap_singleton]
  exact hledger'

/-! ### The external pass -/

section external

variable {index : ReuseIndex}

theorem assignExternalProducer_ledger {before after : List Ends}
    (hproducer : b.producerLevel = .external) (hconsumer : b.consumerLevel ≠ .external)
    (h : p.Ledger es) (hops : Occurrence.Distinct (es.flatMap Endpoint.ops ++ b.producer.ops))
    (hok : b.assignExternalProducer t index before after p = .ok (b', p')) :
    b'.unassigned = b.unassigned ∧ b'.consumerLevel = b.consumerLevel ∧
      p'.Ledger (es ++ b'.endpointsAt .external) := by
  unfold assignExternalProducer at hok
  rw [if_pos hproducer] at hok
  obtain ⟨⟨key, p₁⟩, hserve, hok⟩ := bind_eq_ok hok
  obtain ⟨rfl, rfl⟩ := Prod.mk.inj (Except.ok.inj hok)
  refine ⟨rfl, rfl, ?_⟩
  rw [endpointsAt_of_producer (b := b.withProducer key) hproducer hconsumer]
  exact ChannelPool.serveExternal_ledger h hops hserve

theorem assignExternalConsumer_ledger {before after : List Ends} (hb : b.Sound g t)
    (hproducer : b.producerLevel ≠ .external) (hconsumer : b.consumerLevel = .external)
    (h : p.Ledger es)
    (hops : Occurrence.Distinct (es.flatMap Endpoint.ops ++ b.consumers.flatMap Endpoint.ops))
    (hok : b.assignExternalConsumer t index before after p = .ok (b', p')) :
    b'.unassigned = b.unassigned ∧ p'.Ledger (es ++ b'.endpointsAt .external) := by
  unfold assignExternalConsumer at hok
  rw [if_pos hconsumer] at hok
  split at hok
  . obtain ⟨_, _, hok⟩ := bind_eq_ok hok
    cases hok
  . next hbroadcast =>
    obtain ⟨e, hsingle⟩ := hb.exists_single hbroadcast
    rw [hsingle] at hops
    obtain ⟨e', he', hok⟩ := bind_eq_ok hok
    obtain rfl : e = e' := by simpa [hsingle] using elementAt_eq_ok he'
    obtain ⟨⟨key, p₁⟩, hserve, hok⟩ := bind_eq_ok hok
    obtain ⟨rfl, rfl⟩ := Prod.mk.inj (Except.ok.inj hok)
    refine ⟨by simp [unassigned, withConsumer, hsingle, Endpoint.unassigned], ?_⟩
    have hends : (b.withConsumer key).endpointsAt .external = [⟨e.ops, some key⟩] := by
      rw [endpointsAt_of_consumer (b := b.withConsumer key) hproducer hconsumer]
      simp [withConsumer, hsingle]
    rw [hends]
    exact ChannelPool.serveExternal_ledger h (by simpa using hops) hserve

theorem assignExternal_step_ledger {before after : List Ends} (hb : b.Sound g t)
    (h : p.Ledger es)
    (hops : Occurrence.Distinct (es.flatMap Endpoint.ops ++ b.opsAt .external))
    (hok : (b.assignExternalProducer t index before after p >>= fun r =>
      r.1.assignExternalConsumer t index before after r.2) = .ok (b', p')) :
    b'.unassigned = b.unassigned ∧ p'.Ledger (es ++ b'.endpointsAt .external) := by
  rw [← flatMap_ops_endpointsAt] at hops
  obtain ⟨⟨b₁, p₁⟩, hproducing, hconsuming⟩ := bind_eq_ok hok
  dsimp only at hconsuming
  by_cases hproducer : b.producerLevel = .external
  . have hconsumer : b.consumerLevel ≠ .external := by
      rw [← hproducer]
      exact Ne.symm hb.level_ne
    rw [endpointsAt_of_producer hproducer hconsumer, List.flatMap_singleton] at hops
    obtain ⟨hunassigned, hsame, hledger⟩ :=
      assignExternalProducer_ledger hproducer hconsumer h hops hproducing
    -- the consuming ends are not external, and the second attempt does nothing
    unfold assignExternalConsumer at hconsuming
    rw [if_neg (by rw [hsame]; exact hconsumer)] at hconsuming
    obtain ⟨rfl, rfl⟩ := Prod.mk.inj (Except.ok.inj hconsuming)
    exact ⟨hunassigned, hledger⟩
  . unfold assignExternalProducer at hproducing
    rw [if_neg hproducer] at hproducing
    obtain ⟨rfl, rfl⟩ := Prod.mk.inj (Except.ok.inj hproducing)
    by_cases hconsumer : b.consumerLevel = .external
    . rw [endpointsAt_of_consumer hproducer hconsumer] at hops
      exact assignExternalConsumer_ledger hb hproducer hconsumer h hops hconsuming
    . unfold assignExternalConsumer at hconsuming
      rw [if_neg hconsumer] at hconsuming
      obtain ⟨rfl, rfl⟩ := Prod.mk.inj (Except.ok.inj hconsuming)
      refine ⟨rfl, ?_⟩
      rw [endpointsAt_of_neither hproducer hconsumer, List.append_nil]
      exact h

theorem assignExternal_cons {bs rest : List Bundle} :
    assignExternal t bs index p (b :: rest) =
      (b.assignExternalProducer t index (bs.map ends) (rest.map ends) p >>= fun r =>
        r.1.assignExternalConsumer t index (bs.map ends) (rest.map ends) r.2) >>= fun r =>
      assignExternal t (bs ++ [r.1]) (index.record bs.length r.1.ends) r.2 rest := by
  rw [bind_assoc]
  rfl

/--
The external pass. Ids are of no concern here.
-/
theorem assignExternal_ledger {bs bs' rest : List Bundle} (hrest : ∀ b ∈ rest, b.Sound g t)
    (h : p.Ledger (bs.flatMap (endpointsAt .external)))
    (hops : Occurrence.Distinct ((bs ++ rest).flatMap fun b => b.opsAt .external))
    (hok : assignExternal t bs index p rest = .ok (bs', p')) :
    p'.Ledger (bs'.flatMap (endpointsAt .external)) := by
  induction rest generalizing bs index p with
  | nil =>
    obtain ⟨rfl, rfl⟩ := Prod.mk.inj (Except.ok.inj hok)
    exact h
  | cons b rest ih =>
    rw [assignExternal_cons] at hok
    obtain ⟨⟨b', p₁⟩, hstep, hok⟩ := bind_eq_ok hok
    have hsame : ((bs ++ b :: rest).flatMap fun b => b.opsAt .external) =
        (bs.flatMap (endpointsAt .external)).flatMap Endpoint.ops ++ b.opsAt .external ++
          rest.flatMap fun b => b.opsAt .external := by
      rw [flatMap_ops_endpointsOf]
      simp
    rw [hsame] at hops
    obtain ⟨hunassigned, hledger⟩ :=
      assignExternal_step_ledger (hrest b (by simp)) h hops.left hstep
    refine ih ?_ ?_ ?_ hok
    . intro c hc
      exact hrest c (by simp [hc])
    . rw [List.flatMap_append, List.flatMap_singleton]
      exact hledger
    . rw [← hsame] at hops
      have hmap : (bs ++ [b'] ++ rest).map Bundle.unassigned =
          (bs ++ b :: rest).map Bundle.unassigned := by
        simp [hunassigned]
      rw [flatMap_opsAt_congr hmap]
      exact hops

end external

end Bundle

namespace Graph

variable {g : Graph}

theorem getElem?_ref {occ : Occurrence} (h : occ ∈ g.occurrences) :
    g.ops[occ.ref]? = some occ.op := by
  obtain ⟨⟨op, ref⟩, hmem, rfl⟩ := List.mem_map.mp h
  rw [List.mk_mem_zipIdx_iff_getElem?] at hmem
  exact hmem

/--
In a graph whose ops have different ids, ids tell ops apart.
-/
theorem identified_of_distinct (hids : (g.ops.map Op.id).Nodup) {ops : List Occurrence}
    (hmem : ∀ o ∈ ops, o ∈ g.occurrences) (h : Occurrence.Distinct ops) :
    Occurrence.Identified ops := by
  apply List.Pairwise.imp_of_mem _ h
  intro o o' ho ho' href
  refine ⟨href, ?_⟩
  intro hid
  have hget := getElem?_ref (hmem o ho)
  have hget' := getElem?_ref (hmem o' ho')
  have hlt := (List.getElem?_eq_some_iff.mp hget).1
  have heq : (g.ops.map Op.id)[o.ref]? = (g.ops.map Op.id)[o'.ref]? := by
    rw [List.getElem?_map, List.getElem?_map, hget, hget', Option.map_some, Option.map_some, hid]
  exact href ((List.getElem?_inj (by simpa using hlt) hids).mp heq)

end Graph

namespace Assignment

variable {g : Graph} {t : Target} {d : Device} {bs : List Bundle} {a : Assignment}

/--
The three passes that the channels of bundles were assigned in, with the bundles between them.
-/
structure Passes (g : Graph) (t : Target) (d : Device) (bs bs₁ bs₂ : List Bundle)
    (a : Assignment) : Prop where
  tileLocal : threadM (Bundle.assignLevel t (g.computeTile t)) (.empty .tileLocal) bs =
    .ok (bs₁, a.tileLocal)
  shared : threadM (Bundle.assignLevel t d.sharedTile) (.empty .shared) bs₁ = .ok (bs₂, a.shared)
  external : Bundle.assignExternal t [] (indexOf bs₂) (.empty .external) bs₂ =
    .ok (a.bundles, a.external)
  first : Bundle.PassOver g.CellOf .tileLocal a.tileLocal bs bs₁
  second : Bundle.PassOver d.HomeOf .shared a.shared bs₁ bs₂
  third : Bundle.PassOver (fun _ tile => tile.row = 0) .external a.external bs₂ a.bundles

theorem ofBundles_eq_ok (htarget : d.target = t) (hhomes : d.Homes g) (hbs : g.Partitioned t bs)
    (h : ofBundles g t d bs = .ok a) : ∃ bs₁ bs₂, Passes g t d bs bs₁ bs₂ a := by
  subst htarget
  unfold ofBundles at h
  obtain ⟨⟨bs₁, tileLocal⟩, hfirst, h⟩ := bind_eq_ok h
  obtain ⟨⟨bs₂, shared⟩, hsecond, h⟩ := bind_eq_ok h
  obtain ⟨⟨bs₃, external⟩, hthird, h⟩ := bind_eq_ok h
  obtain rfl := Except.ok.inj h
  obtain ⟨hlocal, h₁⟩ := (Bundle.assignLevel_all_yields hbs.sound
    (fun x hx => Bundle.key_eq_none_of_unassigned hbs.unassigned hx) (by simp)
    (g.computeTile_locates d.target)).of_eq_ok hfirst
  have hsound₁ : ∀ b ∈ bs₁, b.Sound g d.target := fun b hb =>
    Bundle.sound_of_map_unassigned h₁.unassigned hbs.sound hb
  have hkeys₁ : ∀ x ∈ Bundle.endsOf .shared bs₁, x.2.key = none := by
    intro x hx
    rw [h₁.others .shared (by simp)] at hx
    exact Bundle.key_eq_none_of_unassigned hbs.unassigned hx
  obtain ⟨hshared, h₂⟩ := (Bundle.assignLevel_all_yields hsound₁ hkeys₁ (by simp)
    (d.sharedTile_locates hhomes)).of_eq_ok hsecond
  have hprepared := prepared hbs hlocal hshared h₁ h₂
  have hpass := (Bundle.assignExternal_yields (fun _ _ _ _ => True) (fun _ _ _ _ => trivial)
    hprepared (Bundle.externalPass_nil hprepared) trivial).of_eq_ok hthird
  exact ⟨bs₁, bs₂, hfirst, hsecond, hthird, h₁, h₂, hpass.1.passOver⟩

namespace Passes

variable {bs₁ bs₂ : List Bundle}

/--
What a pass has done at its level, the later ones leave as it is.
-/
theorem endpointsAt_eq (h : Passes g t d bs bs₁ bs₂ a) :
    a.bundles.flatMap (Bundle.endpointsAt .tileLocal) =
        bs₁.flatMap (Bundle.endpointsAt .tileLocal) ∧
      a.bundles.flatMap (Bundle.endpointsAt .shared) =
        bs₂.flatMap (Bundle.endpointsAt .shared) := by
  have hmap : ∀ (level : Level) (bs : List Bundle), bs.flatMap (Bundle.endpointsAt level) =
      (Bundle.endsOf level bs).map Prod.snd := by
    intro level bs
    unfold Bundle.endsOf
    rw [List.map_flatMap]
    rfl
  constructor
  . rw [hmap, h.third.others .tileLocal (by simp), h.second.others .tileLocal (by simp), ← hmap]
  . rw [hmap, h.third.others .shared (by simp), ← hmap]

/--
The external channels list their ops end by end.
-/
theorem ledger_external (h : Passes g t d bs bs₁ bs₂ a) (hbs : g.Partitioned t bs)
    (hbundles : Bundle.Arranged bs) :
    a.external.Ledger (a.bundles.flatMap (Bundle.endpointsAt .external)) := by
  have hmap := h.second.unassigned.trans h.first.unassigned
  apply Bundle.assignExternal_ledger (g := g) _ _ _ h.external
  . intro b hb
    exact Bundle.sound_of_map_unassigned hmap hbs.sound hb
  . exact ChannelPool.ledger_empty .external
  . rw [List.nil_append, Bundle.flatMap_opsAt_congr hmap]
    exact hbundles.distinct_opsAt hbs.sound .external

/--
Where the ids of ops are different, all channels do.
-/
theorem ledger (h : Passes g t d bs bs₁ bs₂ a) (hbs : g.Partitioned t bs)
    (hbundles : Bundle.Arranged bs) (hids : (g.ops.map Op.id).Nodup) (level : Level) :
    (a.pool level).Ledger (a.bundles.flatMap (Bundle.endpointsAt level)) := by
  have hops : ∀ level, Occurrence.Identified (bs.flatMap fun b => b.opsAt level) := by
    intro level
    apply Graph.identified_of_distinct hids _ (hbundles.distinct_opsAt hbs.sound level)
    intro o ho
    obtain ⟨b, hb, ho⟩ := List.mem_flatMap.mp ho
    obtain ⟨x, hx, ho⟩ := Bundle.mem_opsAt_iff.mp ho
    exact (hbs.sound b hb).mem_occurrences hx ho
  cases level with
  | tileLocal =>
    rw [h.endpointsAt_eq.1]
    exact Bundle.assignLevel_all_ledger hbs.sound (hops .tileLocal) h.tileLocal
  | shared =>
    rw [h.endpointsAt_eq.2]
    apply Bundle.assignLevel_all_ledger (g := g) _ _ h.shared
    . intro b hb
      exact Bundle.sound_of_map_unassigned h.first.unassigned hbs.sound hb
    . rw [Bundle.flatMap_opsAt_congr h.first.unassigned]
      exact hops .shared
  | external => exact h.ledger_external hbs hbundles

end Passes

end Assignment

end TileTraffic
