import TileTraffic.Proofs.Bundle.Order
import TileTraffic.Proofs.Channel.Assignment
import TileTraffic.Proofs.Channel.Growth

/-!
What channels list. Ends are assigned one after the other, and an end puts its ops on its channel
one after the other, so that every channel lists the ops of the ends that are on it end by end, in
the order of the assignment. This needs every op to come once only: the channel that an op is on
already is not asked to list it again.
-/

namespace TileTraffic

namespace Endpoint

/--
The ops of those of the ends that are on a channel, end by end.
-/
def opsOn (es : List Endpoint) (key : ChannelKey) : List Occurrence :=
  (es.filter fun e => e.key = some key).flatMap Endpoint.ops

theorem opsOn_append (es es' : List Endpoint) (key : ChannelKey) :
    opsOn (es ++ es') key = opsOn es key ++ opsOn es' key := by
  unfold opsOn
  rw [List.filter_append, List.flatMap_append]

theorem opsOn_singleton (e : Endpoint) (key : ChannelKey) :
    opsOn [e] key = if e.key = some key then e.ops else [] := by
  unfold opsOn
  by_cases h : e.key = some key <;> simp [h]

theorem mem_of_mem_opsOn {es : List Endpoint} {key : ChannelKey} {occ : Occurrence}
    (h : occ ∈ opsOn es key) : occ ∈ es.flatMap Endpoint.ops := by
  obtain ⟨e, he, hocc⟩ := List.mem_flatMap.mp h
  exact List.mem_flatMap.mpr ⟨e, (List.mem_filter.mp he).1, hocc⟩

end Endpoint

namespace Occurrence

/--
No op is listed twice, and no two of them have the same id.
-/
def Identified (ops : List Occurrence) : Prop :=
  ops.Pairwise fun o o' => o.ref ≠ o'.ref ∧ o.op.id ≠ o'.op.id

theorem Distinct.left {ops ops' : List Occurrence} (h : Distinct (ops ++ ops')) : Distinct ops :=
  (List.pairwise_append.mp h).1

theorem Identified.left {ops ops' : List Occurrence} (h : Identified (ops ++ ops')) :
    Identified ops :=
  (List.pairwise_append.mp h).1

end Occurrence

namespace ChannelPool

variable {g : Graph} {t : Target} {p p' : ChannelPool} {occ : Occurrence} {key k : ChannelKey}
  {partner : Option Coord} {es : List Endpoint} {ops : List Occurrence}

/--
The ops that the pool lists on a channel.
-/
def opsOn (p : ChannelPool) (key : ChannelKey) : List Occurrence :=
  ((p.get? key).map Allocation.ops).getD []

theorem opsOn_of_mem (h : p.keys.Nodup) {a : Allocation} (ha : a ∈ p.opened) :
    p.opsOn a.key = a.ops := by
  unfold opsOn
  rw [get?_of_mem h ha]
  rfl

theorem opsOn_enter (occ : Occurrence) (key : ChannelKey) (partner : Option Coord)
    (k : ChannelKey) : (p.enter occ key partner).opsOn k =
      p.opsOn k ++ if key = k then [occ] else [] := by
  unfold opsOn get?
  by_cases hmem : key ∈ p.keys
  . have hsame : ((fun a : Allocation => decide (a.key = k)) ∘ Allocation.addAt key occ) =
        fun a => decide (a.key = k) := by
      funext a
      simp
    rw [opened_enter_of_mem hmem, List.find?_map, hsame]
    by_cases hk : key = k
    . subst hk
      obtain ⟨a, ha⟩ := Option.isSome_iff_exists.mp (get?_isSome_iff.mpr hmem)
      unfold get? at ha
      have hkey : a.key = key := by simpa using List.find?_some ha
      rw [ha, if_pos rfl]
      simp [Allocation.addAt, hkey, Allocation.add]
    . rw [if_neg hk, List.append_nil]
      cases hfind : p.opened.find? fun a => decide (a.key = k) with
      | none => rfl
      | some a =>
        have hkey : a.key = k := by simpa using List.find?_some hfind
        have hne : a.key ≠ key := by
          rw [hkey]
          exact Ne.symm hk
        simp [Allocation.addAt, hne]
  . rw [opened_enter_of_not_mem hmem, List.find?_append]
    by_cases hk : key = k
    . subst hk
      have hnone : (p.opened.find? fun a => decide (a.key = key)) = none := by
        have := mt get?_isSome_iff.mp hmem
        unfold get? at this
        simpa using this
      simp [hnone]
    . simp [hk]

theorem mem_opsOn_of_any
    (h : ((p.get? key).any fun a => a.ops.any fun o => o.ref = occ.ref) = true) :
    ∃ o ∈ p.opsOn key, o.ref = occ.ref := by
  rw [Option.any_eq_true] at h
  obtain ⟨a, ha, hany⟩ := h
  obtain ⟨o, ho, href⟩ := List.any_eq_true.mp hany
  refine ⟨o, ?_, by simpa using href⟩
  unfold opsOn
  rw [ha]
  exact ho

/--
The channels list the ops of ends, and the ids of these ops.
-/
structure Ledger (p : ChannelPool) (es : List Endpoint) : Prop where
  keys_nodup : p.keys.Nodup
  opIds_eq : ∀ a ∈ p.opened, a.opIds = a.ops.map fun o => o.op.id
  opsOn_eq : ∀ key, p.opsOn key = Endpoint.opsOn es key

theorem ledger_empty (level : Level) : Ledger (empty level) [] where
  keys_nodup := by simp [empty, keys]
  opIds_eq := by simp [empty]
  opsOn_eq := fun _ => rfl

theorem keys_enter_nodup (h : p.keys.Nodup) : (p.enter occ key partner).keys.Nodup := by
  rw [keys_enter]
  split
  . exact h
  . next hmem => exact nodup_push h hmem

theorem opIds_enter (h : ∀ a ∈ p.opened, a.opIds = a.ops.map fun o => o.op.id) :
    ∀ a ∈ (p.enter occ key partner).opened, a.opIds = a.ops.map fun o => o.op.id := by
  intro a ha
  by_cases hmem : key ∈ p.keys
  . rw [opened_enter_of_mem hmem] at ha
    obtain ⟨b, hb, rfl⟩ := List.mem_map.mp ha
    unfold Allocation.addAt
    split
    . simp [Allocation.add, h b hb]
    . exact h b hb
  . rw [opened_enter_of_not_mem hmem] at ha
    rcases List.mem_append.mp ha with ha | ha
    . exact h a ha
    . rw [List.mem_singleton.mp ha]
      rfl

namespace Ledger

/--
An end that is about to be assigned has nothing listed yet, whatever its channel will be.
-/
theorem start (h : Ledger p es) (known : Option ChannelKey) : Ledger p (es ++ [⟨[], known⟩]) where
  keys_nodup := h.keys_nodup
  opIds_eq := h.opIds_eq
  opsOn_eq := by
    intro key
    rw [Endpoint.opsOn_append, Endpoint.opsOn_singleton, ite_self, List.append_nil]
    exact h.opsOn_eq key

/--
One more op of the last end: its channel is the one of the ops before, if there are any.
-/
theorem enter {done : List Occurrence} {known : Option ChannelKey}
    (h : Ledger p (es ++ [⟨done, known⟩])) (hknown : known ≠ some key → done = []) :
    Ledger (p.enter occ key partner) (es ++ [⟨done ++ [occ], some key⟩]) where
  keys_nodup := keys_enter_nodup h.keys_nodup
  opIds_eq := opIds_enter h.opIds_eq
  opsOn_eq := by
    intro k
    have hbefore := h.opsOn_eq k
    rw [Endpoint.opsOn_append, Endpoint.opsOn_singleton] at hbefore ⊢
    rw [opsOn_enter, hbefore, List.append_assoc]
    congr 1
    dsimp only
    by_cases hk : known = some key
    . rw [hk]
      by_cases hkey : key = k <;> simp [hkey]
    . rw [hknown hk, ite_self]
      by_cases hkey : key = k <;> simp [hkey]

theorem congr (h : Ledger p es) (hopened : p'.opened = p.opened) : Ledger p' es where
  keys_nodup := by
    unfold keys
    rw [hopened]
    exact h.keys_nodup
  opIds_eq := by
    rw [hopened]
    exact h.opIds_eq
  opsOn_eq := by
    intro key
    rw [← h.opsOn_eq key]
    unfold opsOn get?
    rw [hopened]

theorem commit_eq_ok (h : Ledger p es)
    (hrefs : ∀ o ∈ es.flatMap Endpoint.ops, o.ref ≠ occ.ref)
    (hok : commit t occ key partner p = .ok k p') : k = key ∧ p' = p.enter occ key partner := by
  unfold commit at hok
  split at hok
  . next hany =>
    obtain ⟨o, ho, href⟩ := mem_opsOn_of_any hany
    rw [h.opsOn_eq] at ho
    exact absurd href (hrefs o (Endpoint.mem_of_mem_opsOn ho))
  . split at hok
    . obtain ⟨rfl, rfl⟩ := EStateM.Result.ok.inj hok
      exact ⟨rfl, rfl⟩
    . cases hok

theorem serving?_eq_none (h : Ledger p es) {tile : Coord} {d : Direction} {id : Nat}
    (hids : ∀ o ∈ es.flatMap Endpoint.ops, o.op.id ≠ id) : p.serving? tile d id = none := by
  cases hserving : p.serving? tile d id with
  | none => rfl
  | some a =>
    obtain ⟨ha, _, _, hid⟩ := serving?_eq_some hserving
    rw [h.opIds_eq a ha] at hid
    obtain ⟨o, ho, hid⟩ := List.mem_map.mp hid
    rw [← opsOn_of_mem h.keys_nodup ha, h.opsOn_eq] at ho
    exact absurd hid (hids o (Endpoint.mem_of_mem_opsOn ho))

/--
An op with an id of its own enters the channel that serves it.
-/
theorem serve_eq_ok (h : Ledger p es) {tile : Coord} {preferred : Option Nat}
    (hnew : ∀ o ∈ es.flatMap Endpoint.ops, o.ref ≠ occ.ref ∧ o.op.id ≠ occ.op.id)
    (hok : serve t occ tile preferred p = .ok key p') : p' = p.enter occ key none := by
  have hcommit : ∀ k, commit t occ k none p = .ok key p' → p' = p.enter occ key none := by
    intro k hok
    obtain ⟨rfl, hp'⟩ := h.commit_eq_ok (fun o ho => (hnew o ho).1) hok
    exact hp'
  unfold serve at hok
  split at hok
  . cases hok
  . split at hok
    . cases hok
    . rw [h.serving?_eq_none fun o ho => (hnew o ho).2] at hok
      dsimp only at hok
      split at hok
      . exact hcommit _ hok
      . split at hok
        . cases hok
        . split at hok
          . cases hok
          . exact hcommit _ hok

end Ledger

end ChannelPool

namespace Endpoint

variable {t : Target} {flow : String} {tileOf : Op → Except CompileError Coord}
  {p p' : ChannelPool} {es : List Endpoint} {e e' : Endpoint}

theorem serveOp_ledger {done : List Occurrence} {known : Option ChannelKey} {occ : Occurrence}
    {state : Option ChannelKey × ChannelPool} (h : p.Ledger (es ++ [⟨done, known⟩]))
    (hknown : known = none → done = [])
    (hnew : ∀ o ∈ es.flatMap Endpoint.ops ++ done, o.ref ≠ occ.ref ∧ o.op.id ≠ occ.op.id)
    (hok : serveOp t flow tileOf (known, p) occ = .ok state) :
    state.2.level = p.level ∧ state.1 ≠ none ∧
      state.2.Ledger (es ++ [⟨done ++ [occ], state.1⟩]) := by
  unfold serveOp at hok
  obtain ⟨tile, _, hok⟩ := bind_eq_ok hok
  obtain ⟨⟨key, p'⟩, hserve, hok⟩ := bind_eq_ok hok
  obtain ⟨_, hmeet, hok⟩ := bind_eq_ok hok
  obtain rfl := Except.ok.inj hok
  have hsame := (meetKey_yields flow occ.op known key).of_eq_ok hmeet
  obtain rfl := h.serve_eq_ok (by simpa using hnew) (attempt_eq_ok hserve)
  refine ⟨rfl, by simp, h.enter ?_⟩
  intro hne
  rcases hsame with hsame | hsame
  . exact hknown hsame
  . exact absurd hsame hne

theorem assign_ledger (h : p.Ledger es)
    (hops : Occurrence.Identified (es.flatMap Endpoint.ops ++ e.ops))
    (hok : assign t flow tileOf p e = .ok (e', p')) :
    p'.level = p.level ∧ e'.ops = e.ops ∧ p'.Ledger (es ++ [e']) := by
  unfold assign at hok
  obtain ⟨⟨known, p''⟩, hfold, hok⟩ := bind_eq_ok hok
  obtain ⟨rfl, rfl⟩ := Prod.mk.inj (Except.ok.inj hok)
  have hall := foldlM_eq_ok (fun done (state : Option ChannelKey × ChannelPool) =>
    state.2.level = p.level ∧ (state.1 = none → done = []) ∧
      state.2.Ledger (es ++ [⟨done, state.1⟩])) hfold
  obtain ⟨hlevel, _, hledger⟩ := hall ⟨rfl, fun _ => rfl, h.start _⟩ <| by
    rintro done occ rest ⟨known, p₁⟩ state hsplit ⟨hlevel, hknown, hledger⟩ hstep
    rw [hsplit, List.append_cons, ← List.append_assoc, ← List.append_assoc] at hops
    have hnew := (List.pairwise_append.mp hops.left).2.2
    obtain ⟨hlevel', hsome, hledger'⟩ :=
      serveOp_ledger hledger hknown (fun o ho => hnew o ho occ (by simp)) hstep
    exact ⟨hlevel'.trans hlevel, fun hnone => absurd hnone hsome, hledger'⟩
  exact ⟨hlevel, rfl, hledger⟩

theorem assignAll_ledger {es₀ es' : List Endpoint} (h : p.Ledger es)
    (hops : Occurrence.Identified (es.flatMap Endpoint.ops ++ es₀.flatMap Endpoint.ops))
    (hok : threadM (assign t flow tileOf) p es₀ = .ok (es', p')) :
    p'.level = p.level ∧ es'.map Endpoint.ops = es₀.map Endpoint.ops ∧ p'.Ledger (es ++ es') := by
  apply threadM_eq_ok (fun done es' (p' : ChannelPool) => p'.level = p.level ∧
    es'.map Endpoint.ops = done.map Endpoint.ops ∧ p'.Ledger (es ++ es')) hok
  . exact ⟨rfl, rfl, by simpa using h⟩
  . rintro done es' e rest p₁ e' p₂ rfl ⟨hlevel, hmap, hledger⟩ hassign
    have hsame : (es ++ es').flatMap Endpoint.ops ++ e.ops ++ rest.flatMap Endpoint.ops =
        es.flatMap Endpoint.ops ++ (done ++ e :: rest).flatMap Endpoint.ops := by
      have hdone : es'.flatMap Endpoint.ops = done.flatMap Endpoint.ops := by
        rw [List.flatMap_def, hmap, ← List.flatMap_def]
      simp [hdone]
    rw [← hsame] at hops
    obtain ⟨hlevel', heops, hledger'⟩ :=
      assign_ledger hledger hops.left hassign
    refine ⟨hlevel'.trans hlevel, by simp [hmap, heops], ?_⟩
    rw [← List.append_assoc]
    exact hledger'

end Endpoint

namespace ChannelPool

variable {t : Target} {p p' : ChannelPool} {occ : Occurrence} {key : ChannelKey}
  {es : List Endpoint} {ops : List Occurrence}

theorem commit_of_listed {k : ChannelKey} {partner : Option Coord} (hocc : occ ∈ p.opsOn key)
    (hok : commit t occ key partner p = .ok k p') : p' = p := by
  unfold opsOn at hocc
  cases hget : p.get? key with
  | none => simp [hget] at hocc
  | some a =>
    have hany : ((p.get? key).any fun a => a.ops.any fun o => o.ref = occ.ref) = true := by
      rw [hget, Option.any_some, List.any_eq_true]
      exact ⟨occ, by simpa [hget] using hocc, by simp⟩
    unfold commit at hok
    rw [if_pos hany] at hok
    exact (EStateM.Result.ok.inj hok).2.symm

/--
The rest of the ops of an end joins those that are on its channel.
-/
theorem joinAll_ledger {listed : List Occurrence} (h : p.Ledger (es ++ [⟨listed, some key⟩]))
    (hops : Occurrence.Distinct (es.flatMap Endpoint.ops ++ (listed ++ ops)))
    (hok : joinAll t key p ops = .ok p') : p'.Ledger (es ++ [⟨listed ++ ops, some key⟩]) := by
  unfold joinAll at hok
  refine foldlM_eq_ok (fun done (p' : ChannelPool) =>
    p'.Ledger (es ++ [⟨listed ++ done, some key⟩])) hok (by simpa using h) ?_
  rintro done occ rest p₁ p₂ rfl hledger hstep
  obtain ⟨⟨k, p₃⟩, hjoin, rfl⟩ := map_eq_ok hstep
  have hsame : es.flatMap Endpoint.ops ++ (listed ++ (done ++ occ :: rest)) =
      es.flatMap Endpoint.ops ++ (listed ++ done) ++ (occ :: rest) := by
    simp
  rw [hsame] at hops
  have hnew := (List.pairwise_append.mp hops).2.2
  obtain ⟨rfl, rfl⟩ := hledger.commit_eq_ok
    (fun o ho => hnew o (by simpa using ho) occ (by simp)) (join_eq_ok (attempt_eq_ok hjoin))
  rw [← List.append_assoc]
  exact hledger.enter fun hne => absurd rfl hne

theorem openInterface_ledger {partner : Coord} (h : p.Ledger es)
    (hrefs : ∀ o ∈ es.flatMap Endpoint.ops, o.ref ≠ occ.ref)
    (hok : openInterface t occ partner p = .ok key p') :
    p'.Ledger (es ++ [⟨[occ], some key⟩]) := by
  unfold openInterface at hok
  split at hok
  . cases hok
  . next d _ =>
    split at hok
    . cases hok
    . split at hok
      . cases hok
      . split at hok
        . have hslots : ({ p with slots := p.slots.advance t d } : ChannelPool).Ledger es :=
            h.congr rfl
          obtain ⟨rfl, rfl⟩ := hslots.commit_eq_ok hrefs hok
          exact (hslots.start (some _)).enter fun hne => absurd rfl hne
        . cases hok

theorem serveExternal_ledger {index : ReuseIndex} {ends : List Ends} {anchors : List ChannelKey}
    {need : Direction} (h : p.Ledger es)
    (hops : Occurrence.Distinct (es.flatMap Endpoint.ops ++ ops))
    (hok : serveExternal t index ends ops anchors need p = .ok (key, p')) :
    p'.Ledger (es ++ [⟨ops, some key⟩]) := by
  unfold serveExternal at hok
  split at hok
  . cases hok
  . next first rest =>
    dsimp only at hok
    split at hok
    . obtain ⟨_, hpure, hok⟩ := bind_eq_ok hok
      obtain rfl := Except.ok.inj hpure
      obtain ⟨p₁, hjoin, hok⟩ := bind_eq_ok hok
      obtain ⟨rfl, rfl⟩ := Prod.mk.inj (Except.ok.inj hok)
      exact joinAll_ledger (h.start _) hops hjoin
    . split at hok
      . cases hok
      . -- opening the channel has listed the first op there, and it is not listed again
        obtain ⟨⟨k, p₁⟩, hopen, hok⟩ := bind_eq_ok hok
        obtain ⟨p₂, hjoin, hok⟩ := bind_eq_ok hok
        obtain ⟨rfl, rfl⟩ := Prod.mk.inj (Except.ok.inj hok)
        have hnew := (List.pairwise_append.mp hops).2.2
        have hledger := openInterface_ledger h (fun o ho => hnew o ho first (by simp))
          (attempt_eq_ok hopen)
        unfold joinAll at hjoin
        rw [List.foldlM_cons] at hjoin
        obtain ⟨p₃, hfirst, hjoin⟩ := bind_eq_ok hjoin
        obtain ⟨⟨_, p₄⟩, hagain, heq⟩ := map_eq_ok hfirst
        obtain rfl : p₄ = p₃ := heq
        have hlisted : first ∈ p₁.opsOn k := by
          rw [hledger.opsOn_eq, Endpoint.opsOn_append, Endpoint.opsOn_singleton, if_pos rfl]
          simp
        obtain rfl : p₄ = p₁ := commit_of_listed hlisted (join_eq_ok (attempt_eq_ok hagain))
        exact joinAll_ledger hledger hops hjoin

end ChannelPool

end TileTraffic
