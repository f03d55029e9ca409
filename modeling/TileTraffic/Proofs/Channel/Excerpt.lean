import TileTraffic.Proofs.Channel.Passes

/-!
Channels list nothing that is not on them. Where ids repeat, a channel leaves out ops whose id it
has served before; what it does list are ops of the ends that are on it, in the order in which these
ends were assigned.
-/

namespace TileTraffic

namespace ChannelPool

variable {t : Target} {p p' : ChannelPool} {occ : Occurrence} {key : ChannelKey}
  {partner : Option Coord} {es : List Endpoint}

/--
Every channel lists some of the ops of the ends that are on it, in their order.
-/
def Excerpt (p : ChannelPool) (es : List Endpoint) : Prop :=
  ∀ key, (p.opsOn key).Sublist (Endpoint.opsOn es key)

theorem excerpt_empty (level : Level) : Excerpt (empty level) [] :=
  fun _ => .slnil

theorem Ledger.excerpt (h : p.Ledger es) : p.Excerpt es := by
  intro key
  simp [h.opsOn_eq]

namespace Excerpt

theorem start (h : p.Excerpt es) (known : Option ChannelKey) : p.Excerpt (es ++ [⟨[], known⟩]) := by
  intro key
  rw [Endpoint.opsOn_append, Endpoint.opsOn_singleton, ite_self, List.append_nil]
  exact h key

/--
One more op of the last end, whether its channel lists it or has left it out.
-/
theorem push {done : List Occurrence} {known : Option ChannelKey}
    (h : p.Excerpt (es ++ [⟨done, known⟩])) (hknown : known ≠ some key → done = [])
    (hp' : p' = p ∨ p' = p.enter occ key partner) :
    p'.Excerpt (es ++ [⟨done ++ [occ], some key⟩]) := by
  intro k
  have hbefore := h k
  rw [Endpoint.opsOn_append, Endpoint.opsOn_singleton] at hbefore ⊢
  have hdone : (if known = some k then done else []) = if some key = some k then done else [] := by
    by_cases hk : known = some key
    . rw [hk]
    . rw [hknown hk, ite_self, ite_self]
  dsimp only at hbefore ⊢
  rw [hdone] at hbefore
  have hafter : (p'.opsOn k).Sublist (p.opsOn k ++ if key = k then [occ] else []) := by
    rcases hp' with rfl | rfl
    . exact List.sublist_append_left ..
    . simp [opsOn_enter]
  by_cases hkey : key = k
  . rw [if_pos (by rw [hkey])] at hbefore ⊢
    rw [if_pos hkey] at hafter
    rw [← List.append_assoc]
    exact hafter.trans (hbefore.append_right [occ])
  . have hne : ¬ some key = some k := fun heq => hkey (Option.some.inj heq)
    rw [if_neg hne] at hbefore ⊢
    rw [if_neg hkey, List.append_nil] at hafter
    exact hafter.trans hbefore

end Excerpt

end ChannelPool

namespace Endpoint

variable {t : Target} {flow : String} {tileOf : Op → Except CompileError Coord}
  {p p' : ChannelPool} {es : List Endpoint} {e e' : Endpoint}

theorem serveOp_excerpt {done : List Occurrence} {known : Option ChannelKey} {occ : Occurrence}
    {state : Option ChannelKey × ChannelPool} (h : p.Excerpt (es ++ [⟨done, known⟩]))
    (hknown : known = none → done = []) (hok : serveOp t flow tileOf (known, p) occ = .ok state) :
    state.2.level = p.level ∧ state.1 ≠ none ∧
      state.2.Excerpt (es ++ [⟨done ++ [occ], state.1⟩]) := by
  unfold serveOp at hok
  obtain ⟨tile, _, hok⟩ := bind_eq_ok hok
  obtain ⟨⟨key, p'⟩, hserve, hok⟩ := bind_eq_ok hok
  obtain ⟨_, hmeet, hok⟩ := bind_eq_ok hok
  obtain rfl := Except.ok.inj hok
  have hsame := (meetKey_yields flow occ.op known key).of_eq_ok hmeet
  have hcases := (ChannelPool.serve_cases (attempt_eq_ok hserve)).2
  refine ⟨?_, by simp, h.push ?_ hcases⟩
  . rcases hcases with rfl | rfl
    . rfl
    . rfl
  . intro hne
    rcases hsame with hsame | hsame
    . exact hknown hsame
    . exact absurd hsame hne

theorem assign_excerpt (h : p.Excerpt es) (hok : assign t flow tileOf p e = .ok (e', p')) :
    p'.level = p.level ∧ p'.Excerpt (es ++ [e']) := by
  unfold assign at hok
  obtain ⟨⟨known, p''⟩, hfold, hok⟩ := bind_eq_ok hok
  obtain ⟨rfl, rfl⟩ := Prod.mk.inj (Except.ok.inj hok)
  have hall := foldlM_eq_ok (fun done (state : Option ChannelKey × ChannelPool) =>
    state.2.level = p.level ∧ (state.1 = none → done = []) ∧
      state.2.Excerpt (es ++ [⟨done, state.1⟩])) hfold
  obtain ⟨hlevel, _, hexcerpt⟩ := hall ⟨rfl, fun _ => rfl, h.start _⟩ <| by
    rintro done occ rest ⟨known, p₁⟩ state _ ⟨hlevel, hknown, hexcerpt⟩ hstep
    obtain ⟨hlevel', hsome, hexcerpt'⟩ := serveOp_excerpt hexcerpt hknown hstep
    exact ⟨hlevel'.trans hlevel, fun hnone => absurd hnone hsome, hexcerpt'⟩
  exact ⟨hlevel, hexcerpt⟩

theorem assignAll_excerpt {es₀ es' : List Endpoint} (h : p.Excerpt es)
    (hok : threadM (assign t flow tileOf) p es₀ = .ok (es', p')) :
    p'.level = p.level ∧ p'.Excerpt (es ++ es') := by
  apply threadM_eq_ok (fun _ es' (p' : ChannelPool) => p'.level = p.level ∧
    p'.Excerpt (es ++ es')) hok
  . exact ⟨rfl, by simpa using h⟩
  . rintro done es' e rest p₁ e' p₂ rfl ⟨hlevel, hexcerpt⟩ hassign
    obtain ⟨hlevel', hexcerpt'⟩ := assign_excerpt hexcerpt hassign
    refine ⟨hlevel'.trans hlevel, ?_⟩
    rw [← List.append_assoc]
    exact hexcerpt'

end Endpoint

namespace Bundle

variable {t : Target} {tileOf : Op → Except CompileError Coord} {p p' : ChannelPool}
  {b b' : Bundle} {bs bs' : List Bundle} {level : Level} {es : List Endpoint}

theorem endpointsAt_eq : b.endpointsAt level =
    (if b.producerLevel = level then [b.producer] else []) ++
      if b.consumerLevel = level then b.consumers else [] := by
  unfold endpointsAt endsAt
  rw [List.map_append]
  congr 1
  . split <;> rfl
  . split
    . rw [List.map_map]
      exact List.map_id _
    . rfl

theorem assignLevel_excerpt (h : p.Excerpt es) (hok : b.assignLevel t tileOf p = .ok (b', p')) :
    p'.level = p.level ∧ p'.Excerpt (es ++ b'.endpointsAt p.level) := by
  rw [assignLevel_eq] at hok
  obtain ⟨⟨producer, p₁⟩, hproducer, hok⟩ := bind_eq_ok hok
  obtain ⟨⟨consumers, p₂⟩, hconsumers, hok⟩ := bind_eq_ok hok
  obtain ⟨rfl, rfl⟩ := Prod.mk.inj (Except.ok.inj hok)
  have h₁ : p₁.level = p.level ∧
      p₁.Excerpt (es ++ if b.producerLevel = p.level then [producer] else []) := by
    split at hproducer
    . next hlevel =>
      rw [if_pos hlevel]
      exact Endpoint.assign_excerpt h hproducer
    . next hlevel =>
      obtain ⟨_, rfl⟩ := Prod.mk.inj (Except.ok.inj hproducer)
      rw [if_neg hlevel, List.append_nil]
      exact ⟨rfl, h⟩
  dsimp only at hconsumers
  rw [h₁.1] at hconsumers
  rw [endpointsAt_eq, ← List.append_assoc]
  dsimp only
  split at hconsumers
  . next hlevel =>
    rw [if_pos hlevel]
    obtain ⟨hlevel', hexcerpt⟩ := Endpoint.assignAll_excerpt h₁.2 hconsumers
    exact ⟨hlevel'.trans h₁.1, hexcerpt⟩
  . next hlevel =>
    obtain ⟨_, rfl⟩ := Prod.mk.inj (Except.ok.inj hconsumers)
    rw [if_neg hlevel, List.append_nil]
    exact h₁

/--
The pass over a level from an empty pool.
-/
theorem assignLevel_all_excerpt
    (hok : threadM (Bundle.assignLevel t tileOf) (.empty level) bs = .ok (bs', p)) :
    p.Excerpt (bs'.flatMap (endpointsAt level)) := by
  have hall := threadM_eq_ok (fun _ bs' (p : ChannelPool) => p.level = level ∧
    p.Excerpt (bs'.flatMap (endpointsAt level))) hok
  refine (hall ⟨rfl, ChannelPool.excerpt_empty level⟩ ?_).2
  rintro done bs' b rest p₁ b' p₂ _ ⟨hlevel, hexcerpt⟩ hassign
  subst hlevel
  obtain ⟨hlevel', hexcerpt'⟩ := assignLevel_excerpt hexcerpt hassign
  refine ⟨hlevel', ?_⟩
  rw [List.flatMap_append, List.flatMap_singleton]
  exact hexcerpt'

end Bundle

/--
Whatever the ids of the ops, this holds of all pools after the passes.
-/
theorem Assignment.Passes.excerpt {g : Graph} {t : Target} {d : Device}
    {bs bs₁ bs₂ : List Bundle} {a : Assignment} (h : Passes g t d bs bs₁ bs₂ a)
    (hbs : g.Partitioned t bs) (hbundles : Bundle.Arranged bs) (level : Level) :
    (a.pool level).Excerpt (a.bundles.flatMap (Bundle.endpointsAt level)) := by
  cases level with
  | tileLocal =>
    rw [h.endpointsAt_eq.1]
    exact Bundle.assignLevel_all_excerpt h.tileLocal
  | shared =>
    rw [h.endpointsAt_eq.2]
    exact Bundle.assignLevel_all_excerpt h.shared
  | external => exact (h.ledger_external hbs hbundles).excerpt

end TileTraffic
