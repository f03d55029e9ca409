import TileTraffic.Proofs.Bundle.Partition
import TileTraffic.Proofs.Channel.Pool
import TileTraffic.Proofs.Success

/-!
The order of ops in bundles. Every end of a bundle lists its ops in the order of the graph, and at
every level an op is in one bundle at most.
-/

namespace TileTraffic

namespace Occurrence

/--
The ops are in the order in which they are in the graph.
-/
def Increasing (ops : List Occurrence) : Prop :=
  ops.Pairwise fun o o' => o.ref < o'.ref

/--
No op is listed twice.
-/
def Distinct (ops : List Occurrence) : Prop :=
  ops.Pairwise fun o o' => o.ref ≠ o'.ref

theorem Distinct.perm {ops ops' : List Occurrence} (h : Distinct ops) (hperm : ops'.Perm ops) :
    Distinct ops' := by
  unfold Distinct
  rw [hperm.pairwise_iff Ne.symm]
  exact h

theorem Distinct.cons {occ : Occurrence} {ops : List Occurrence} (h : Distinct ops)
    (hlt : ∀ o ∈ ops, o.ref < occ.ref) : Distinct (occ :: ops) := by
  unfold Distinct
  rw [List.pairwise_cons]
  refine ⟨?_, h⟩
  intro o ho
  have := hlt o ho
  omega

theorem Increasing.push {occ : Occurrence} {ops : List Occurrence} (h : Increasing ops)
    (hlt : ∀ o ∈ ops, o.ref < occ.ref) : Increasing (ops ++ [occ]) := by
  unfold Increasing
  rw [List.pairwise_append]
  refine ⟨h, by simp, ?_⟩
  intro o ho o' ho'
  rw [List.mem_singleton.mp ho']
  exact hlt o ho

end Occurrence

namespace Graph

theorem getElem?_occurrences {g : Graph} {n : Nat} {occ : Occurrence}
    (h : g.occurrences[n]? = some occ) : occ.ref = n := by
  unfold occurrences at h
  rw [List.getElem?_map, Option.map_eq_some_iff] at h
  obtain ⟨⟨op, ref⟩, hget, rfl⟩ := h
  have hmem := List.mem_of_getElem? hget
  rw [List.getElem?_zipIdx, Option.map_eq_some_iff] at hget
  obtain ⟨_, _, heq⟩ := hget
  simpa using (Prod.mk.inj heq).2.symm

end Graph

namespace Draft

variable {g : Graph} {t : Target} {d d' : Draft} {ds ds' : List Draft} {occ : Occurrence}

/--
The lists of ops that the draft has: one for the producing side and one for every destination.
-/
def lists (d : Draft) : List (List Occurrence) :=
  d.producers :: d.consumers

/--
The draft gets one more op: on the producing side, at one of the destinations, or on both sides
where it was empty.
-/
inductive Takes (occ : Occurrence) (d d' : Draft) : Prop where
  | put (hproducers : d'.producers = d.producers ++ [occ]) (hconsumers : d'.consumers = d.consumers)
  | get (n : Nat) (ops : List Occurrence) (hops : d.consumers[n]? = some ops)
    (hproducers : d'.producers = d.producers)
    (hconsumers : d'.consumers = d.consumers.set n (ops ++ [occ]))
  | copy (hproducers : d.producers = []) (hconsumers : d.consumers = [])
    (hproducers' : d'.producers = [occ]) (hconsumers' : d'.consumers = [[occ]])

/--
The draft has no ops.
-/
def Blank (d : Draft) : Prop :=
  ∀ ops ∈ d.lists, ops = []

/--
One draft of a list gets one more op. It may be a new one, at the end of the list.
-/
def Adds (occ : Occurrence) (ds ds' : List Draft) : Prop :=
  ∃ before d d' after, d.Takes occ d' ∧ ds' = before ++ d' :: after ∧
    (ds = before ++ d :: after ∨ (ds = before ∧ after = [] ∧ d.Blank))

theorem eq_of_addPut {channel : String} {src : Access}
    (h : d.addPut channel occ src = .ok d') :
    d' = { d with producerLevel := some src.level, producers := d.producers ++ [occ] } := by
  unfold addPut at h
  obtain ⟨_, _, h⟩ := bind_eq_ok h
  exact (Except.ok.inj h).symm

/--
A get is added to the destination that it is sent to.
-/
theorem addGet_cases {decl : ChannelDecl} {channel : String} {dst : Access}
    (h : d.addGet decl channel occ dst = .ok d') :
    ∃ n ops, decl.destination occ.op = .ok n ∧ d.consumers[n]? = some ops ∧
      d' = { d with
        consumerLevel := some dst.level, consumers := d.consumers.set n (ops ++ [occ]) } := by
  unfold addGet at h
  obtain ⟨_, _, h⟩ := bind_eq_ok h
  obtain ⟨n, hn, h⟩ := bind_eq_ok h
  obtain ⟨ops, hops, h⟩ := bind_eq_ok h
  exact ⟨n, ops, hn, elementAt_eq_ok hops, (Except.ok.inj h).symm⟩

theorem addPut_eq_ok {channel : String} {src : Access}
    (h : d.addPut channel occ src = .ok d') : d.Takes occ d' := by
  obtain rfl := eq_of_addPut h
  exact .put rfl rfl

theorem addGet_eq_ok {decl : ChannelDecl} {channel : String} {dst : Access}
    (h : d.addGet decl channel occ dst = .ok d') : d.Takes occ d' := by
  obtain ⟨n, ops, _, hops, rfl⟩ := addGet_cases h
  exact .get n ops hops rfl rfl

/--
What an update has done: it has changed the draft for the slot, or else a new one at the end.
-/
theorem update_cases {slot : String × List Nat} {fresh : Draft}
    {f : Draft → Except CompileError Draft} (h : update slot fresh f ds = .ok ds') :
    ∃ before d d' after, f d = .ok d' ∧ ds' = before ++ d' :: after ∧
      (∀ c ∈ before, c.slot ≠ some slot) ∧
      (d.slot = some slot ∧ ds = before ++ d :: after ∨ d = fresh ∧ ds = before ∧ after = []) := by
  induction ds generalizing ds' with
  | nil =>
    obtain ⟨d', hd', h⟩ := bind_eq_ok h
    obtain rfl := Except.ok.inj h
    exact ⟨[], fresh, d', [], hd', rfl, by simp, .inr ⟨rfl, rfl, rfl⟩⟩
  | cons d ds ih =>
    unfold update at h
    split at h
    . next hslot =>
      obtain ⟨d', hd', h⟩ := bind_eq_ok h
      obtain rfl := Except.ok.inj h
      exact ⟨[], d, d', ds, hd', rfl, by simp, .inl ⟨hslot, rfl⟩⟩
    . next hslot =>
      obtain ⟨ds₁, hds₁, h⟩ := bind_eq_ok h
      obtain rfl := Except.ok.inj h
      obtain ⟨before, c, c', after, hc', rfl, hbefore, hcases⟩ := ih hds₁
      refine ⟨d :: before, c, c', after, hc', rfl, ?_, ?_⟩
      . intro e he
        rcases List.mem_cons.mp he with rfl | he
        . exact hslot
        . exact hbefore e he
      . rcases hcases with ⟨hold, rfl⟩ | ⟨rfl, rfl, rfl⟩
        . exact .inl ⟨hold, rfl⟩
        . exact .inr ⟨rfl, rfl, rfl⟩

theorem update_eq_ok {slot : String × List Nat} {fresh : Draft}
    {f : Draft → Except CompileError Draft} (hfresh : fresh.Blank)
    (hf : ∀ d d', f d = .ok d' → d.Takes occ d') (h : update slot fresh f ds = .ok ds') :
    Adds occ ds ds' := by
  obtain ⟨before, d, d', after, hd', rfl, _, hcases⟩ := update_cases h
  refine ⟨before, d, d', after, hf d d' hd', rfl, ?_⟩
  rcases hcases with ⟨_, rfl⟩ | ⟨rfl, rfl, rfl⟩
  . exact .inl rfl
  . exact .inr ⟨rfl, rfl, hfresh⟩

theorem addHalf_eq_ok {channel : String} {f : ChannelDecl → Draft → Except CompileError Draft}
    (hf : ∀ decl d d', f decl d = .ok d' → d.Takes occ d')
    (h : addHalf g t channel occ ds f = .ok ds') : Adds occ ds ds' := by
  unfold addHalf at h
  split at h
  . cases h
  . next decl _ =>
    obtain ⟨n, _, h⟩ := bind_eq_ok h
    apply update_eq_ok _ (hf decl) h
    intro ops hops
    rcases List.mem_cons.mp hops with rfl | hops
    . rfl
    . exact List.eq_of_mem_replicate hops

theorem add_eq_ok (h : add g t ds occ = .ok ds') : Adds occ ds ds' := by
  unfold add at h
  split at h
  . next src dst _ =>
    obtain ⟨_, _, h⟩ := bind_eq_ok h
    obtain rfl := Except.ok.inj h
    exact ⟨ds, ⟨none, "", none, none, [], []⟩, ofCopy occ src dst, [], .copy rfl rfl rfl rfl, rfl,
      .inr ⟨rfl, rfl, by simp [Blank, lists]⟩⟩
  . exact addHalf_eq_ok (fun _ _ _ hok => addPut_eq_ok hok) h
  . exact addHalf_eq_ok (fun _ _ _ hok => addGet_eq_ok hok) h

/-! ### What adding ops keeps -/

theorem flatten_set_perm {α : Type} {as : List (List α)} {n : Nat} {a : List α} (x : α)
    (h : as[n]? = some a) : (as.set n (a ++ [x])).flatten.Perm (x :: as.flatten) := by
  induction as generalizing n with
  | nil => simp at h
  | cons b as ih =>
    cases n with
    | zero =>
      obtain rfl : b = a := by simpa using h
      rw [List.set_cons_zero, List.flatten_cons, List.flatten_cons, List.append_assoc]
      exact List.perm_middle
    | succ n =>
      rw [List.set_cons_succ, List.flatten_cons, List.flatten_cons]
      exact ((ih (by simpa using h)).append_left b).trans List.perm_middle

namespace Takes

theorem producers_perm (h : d.Takes occ d') :
    d'.producers.Perm d.producers ∨ d'.producers.Perm (occ :: d.producers) := by
  cases h with
  | put hproducers _ =>
    rw [hproducers]
    exact .inr (List.perm_append_singleton ..)
  | get _ _ _ hproducers _ =>
    rw [hproducers]
    exact .inl (.refl _)
  | copy hproducers _ hproducers' _ =>
    rw [hproducers, hproducers']
    exact .inr (.refl _)

theorem consumers_perm (h : d.Takes occ d') : d'.consumers.flatten.Perm d.consumers.flatten ∨
    d'.consumers.flatten.Perm (occ :: d.consumers.flatten) := by
  cases h with
  | put _ hconsumers =>
    rw [hconsumers]
    exact .inl (.refl _)
  | get _ _ hops _ hconsumers =>
    rw [hconsumers]
    exact .inr (flatten_set_perm occ hops)
  | copy _ hconsumers _ hconsumers' =>
    rw [hconsumers, hconsumers']
    exact .inr (.refl _)

/--
A list of the new draft is one of the old draft, perhaps with the op at its end.
-/
theorem mem_lists (h : d.Takes occ d') {ops : List Occurrence} (hops : ops ∈ d'.lists) :
    ops ∈ d.lists ∨ ops = [occ] ∨ ∃ before ∈ d.lists, ops = before ++ [occ] := by
  unfold lists at hops ⊢
  cases h with
  | put hproducers hconsumers =>
    rw [hproducers, hconsumers] at hops
    rcases List.mem_cons.mp hops with rfl | hops
    . exact .inr (.inr ⟨_, by simp, rfl⟩)
    . exact .inl (by simp [hops])
  | get n before hbefore hproducers hconsumers =>
    rw [hproducers, hconsumers] at hops
    rcases List.mem_cons.mp hops with rfl | hops
    . exact .inl (by simp)
    . rcases List.mem_or_eq_of_mem_set hops with hops | rfl
      . exact .inl (by simp [hops])
      . exact .inr (.inr ⟨before, by simp [List.mem_of_getElem? hbefore], rfl⟩)
  | copy _ _ hproducers' hconsumers' =>
    rw [hproducers', hconsumers'] at hops
    exact .inr (.inl (by simpa using hops))

end Takes

/--
How drafts list the first `n` ops: every list is in their order, and none of them is listed twice on
one side.
-/
structure Arranged (n : Nat) (ds : List Draft) : Prop where
  lt : ∀ d ∈ ds, ∀ ops ∈ d.lists, ∀ o ∈ ops, o.ref < n
  increasing : ∀ d ∈ ds, ∀ ops ∈ d.lists, Occurrence.Increasing ops
  producers : Occurrence.Distinct (ds.flatMap Draft.producers)
  consumers : Occurrence.Distinct (ds.flatMap fun d => d.consumers.flatten)

namespace Arranged

variable {n : Nat} {before after : List Draft}

theorem blank (h : Arranged n ds) (hd : d.Blank) : Arranged n (ds ++ [d]) where
  lt := by
    intro c hc ops hops o ho
    rcases List.mem_append.mp hc with hc | hc
    . exact h.lt c hc ops hops o ho
    . rw [List.mem_singleton.mp hc] at hops
      rw [hd ops hops] at ho
      cases ho
  increasing := by
    intro c hc ops hops
    rcases List.mem_append.mp hc with hc | hc
    . exact h.increasing c hc ops hops
    . rw [List.mem_singleton.mp hc] at hops
      rw [hd ops hops]
      exact .nil
  producers := by
    have hnil : d.producers = [] := hd _ (by simp [lists])
    simpa [hnil] using h.producers
  consumers := by
    have hnil : d.consumers.flatten = [] := by
      rw [List.flatten_eq_nil_iff]
      intro ops hops
      exact hd ops (by simp [lists, hops])
    simpa [hnil] using h.consumers

theorem distinct_of_perm {ops ops' : List Occurrence} (h : Occurrence.Distinct ops)
    (hlt : ∀ o ∈ ops, o.ref < occ.ref) (hperm : ops'.Perm ops ∨ ops'.Perm (occ :: ops)) :
    Occurrence.Distinct ops' := by
  rcases hperm with hperm | hperm
  . exact h.perm hperm
  . exact (h.cons hlt).perm hperm

/--
One list in the middle of others has at most one more op.
-/
theorem flatMap_perm {f : Draft → List Occurrence}
    (h : (f d').Perm (f d) ∨ (f d').Perm (occ :: f d)) :
    ((before ++ d' :: after).flatMap f).Perm ((before ++ d :: after).flatMap f) ∨
      ((before ++ d' :: after).flatMap f).Perm (occ :: (before ++ d :: after).flatMap f) := by
  rw [List.flatMap_append, List.flatMap_append, List.flatMap_cons, List.flatMap_cons]
  rcases h with h | h
  . exact .inl ((h.append_right _).append_left _)
  . exact .inr (((h.append_right _).append_left _).trans List.perm_middle)

theorem take (h : Arranged n (before ++ d :: after)) (href : occ.ref = n)
    (htakes : d.Takes occ d') : Arranged (n + 1) (before ++ d' :: after) := by
  have hcases : ∀ c ∈ before ++ d' :: after, c = d' ∨ c ∈ before ++ d :: after := by
    intro c hc
    simp only [List.mem_append, List.mem_cons] at hc ⊢
    rcases hc with hc | hc | hc <;> simp [hc]
  have hlists := h.lt d (by simp)
  constructor
  . intro c hc ops hops o ho
    rcases hcases c hc with rfl | hc
    . rcases htakes.mem_lists hops with hops | rfl | ⟨ops', hops', rfl⟩
      . exact Nat.lt_succ_of_lt (hlists ops hops o ho)
      . rw [List.mem_singleton.mp ho, href]
        exact Nat.lt_succ_self n
      . rcases List.mem_append.mp ho with ho | ho
        . exact Nat.lt_succ_of_lt (hlists ops' hops' o ho)
        . rw [List.mem_singleton.mp ho, href]
          exact Nat.lt_succ_self n
    . exact Nat.lt_succ_of_lt (h.lt c hc ops hops o ho)
  . intro c hc ops hops
    rcases hcases c hc with rfl | hc
    . have hincreasing := h.increasing d (by simp)
      rcases htakes.mem_lists hops with hops | rfl | ⟨ops', hops', rfl⟩
      . exact hincreasing ops hops
      . exact List.pairwise_singleton ..
      . apply (hincreasing ops' hops').push
        rw [href]
        exact hlists ops' hops'
    . exact h.increasing c hc ops hops
  . apply distinct_of_perm h.producers _ (flatMap_perm htakes.producers_perm)
    intro o ho
    obtain ⟨c, hc, ho⟩ := List.mem_flatMap.mp ho
    rw [href]
    exact h.lt c hc _ (by simp [lists]) o ho
  . apply distinct_of_perm h.consumers _
      (flatMap_perm (f := fun d => d.consumers.flatten) htakes.consumers_perm)
    intro o ho
    obtain ⟨c, hc, ho⟩ := List.mem_flatMap.mp ho
    obtain ⟨ops, hops, ho⟩ := List.mem_flatten.mp ho
    rw [href]
    exact h.lt c hc ops (by simp [lists, hops]) o ho

theorem add (h : Arranged n ds) (href : occ.ref = n) (hadds : Adds occ ds ds') :
    Arranged (n + 1) ds' := by
  obtain ⟨before, d, d', after, htakes, rfl, rfl | ⟨rfl, rfl, hblank⟩⟩ := hadds
  . exact h.take href htakes
  . exact (h.blank hblank).take href htakes

end Arranged

theorem drafts_arranged (h : g.occurrences.foldlM (Draft.add g t) [] = .ok ds) :
    Arranged g.occurrences.length ds := by
  apply foldlM_eq_ok (fun done ds => Arranged done.length ds) h
  . constructor
    all_goals simp [Occurrence.Distinct]
  . intro done occ rest ds ds' hsplit hds hadd
    rw [List.length_append]
    apply hds.add _ (add_eq_ok hadd)
    apply Graph.getElem?_occurrences
    rw [hsplit]
    simp

theorem finish_eq_ok {b : Bundle} (h : d.finish t = .ok b) :
    b.producer.ops :: b.consumers.map Endpoint.ops = d.lists := by
  unfold finish at h
  split at h
  . cases h
  . cases h
  . split at h
    . cases h
    . obtain ⟨_, _, h⟩ := bind_eq_ok h
      obtain ⟨_, _, h⟩ := bind_eq_ok h
      obtain rfl := Except.ok.inj h
      unfold lists
      rw [List.map_map]
      congr 1
      exact List.map_id _

end Draft

namespace Bundle

/--
How bundles list their ops: every end lists them in the order of the graph, and none of them is
listed twice on one side.
-/
structure Arranged (bs : List Bundle) : Prop where
  increasing : ∀ b ∈ bs, ∀ e ∈ b.producer :: b.consumers, Occurrence.Increasing e.ops
  producers : Occurrence.Distinct (bs.flatMap fun b => b.producer.ops)
  consumers : Occurrence.Distinct (bs.flatMap fun b => (b.consumers.map Endpoint.ops).flatten)

variable {g : Graph} {t : Target} {bs : List Bundle} {b : Bundle} {level : Level}

theorem opsAt_cases (hb : b.Sound g t) (level : Level) :
    b.opsAt level = [] ∨ b.opsAt level = b.producer.ops ∨
      b.opsAt level = (b.consumers.map Endpoint.ops).flatten := by
  unfold opsAt endsAt
  by_cases hproducer : b.producerLevel = level
  . have hconsumer : b.consumerLevel ≠ level := by
      rw [← hproducer]
      exact Ne.symm hb.level_ne
    exact .inr (.inl (by simp [hproducer, hconsumer]))
  . by_cases hconsumer : b.consumerLevel = level
    . refine .inr (.inr ?_)
      rw [if_neg hproducer, if_pos hconsumer, List.nil_append, List.flatMap_map, List.flatMap_def]
    . exact .inl (by simp [hproducer, hconsumer])

theorem mem_opsAt_iff {occ : Occurrence} :
    occ ∈ b.opsAt level ↔ ∃ x ∈ b.endsAt level, occ ∈ x.2.ops :=
  List.mem_flatMap

theorem Arranged.distinct_opsAt (h : Arranged bs) (hbs : ∀ b ∈ bs, b.Sound g t) (level : Level) :
    Occurrence.Distinct (bs.flatMap fun b => b.opsAt level) := by
  have hproducers := h.producers
  have hconsumers := h.consumers
  unfold Occurrence.Distinct at hproducers hconsumers ⊢
  rw [List.pairwise_flatMap] at hproducers hconsumers ⊢
  constructor
  . intro b hb
    rcases opsAt_cases (hbs b hb) level with heq | heq | heq
    . rw [heq]
      exact .nil
    . rw [heq]
      exact hproducers.1 b hb
    . rw [heq]
      exact hconsumers.1 b hb
  . apply (hproducers.2.and hconsumers.2).imp_of_mem
    intro b c hb hc ⟨hapart, hapart'⟩ o ho o' ho' href
    obtain ⟨x, hx, ho⟩ := mem_opsAt_iff.mp ho
    obtain ⟨y, hy, ho'⟩ := mem_opsAt_iff.mp ho'
    -- the op has one direction at the level, so it is on the same side of both bundles
    obtain rfl := Graph.eq_of_ref_eq ((hbs b hb).mem_occurrences hx ho)
      ((hbs c hc).mem_occurrences hy ho') href
    have hside := ((hbs b hb).directionAt hx ho).symm.trans ((hbs c hc).directionAt hy ho')
    rcases mem_endsAt_iff.mp hx with ⟨_, rfl⟩ | ⟨_, e, he, rfl⟩
    . rcases mem_endsAt_iff.mp hy with ⟨_, rfl⟩ | ⟨_, e', _, rfl⟩
      . exact hapart o ho o ho' rfl
      . cases hside
    . rcases mem_endsAt_iff.mp hy with ⟨_, rfl⟩ | ⟨_, e', he', rfl⟩
      . cases hside
      . apply hapart' o _ o _ rfl
        . exact List.mem_flatten.mpr ⟨_, List.mem_map_of_mem he, ho⟩
        . exact List.mem_flatten.mpr ⟨_, List.mem_map_of_mem he', ho'⟩

end Bundle

namespace Graph

variable {g : Graph} {t : Target} {bs : List Bundle}

theorem partition_arranged (h : g.partition t = .ok bs) : Bundle.Arranged bs := by
  unfold partition at h
  obtain ⟨_, _, h⟩ := bind_eq_ok h
  obtain ⟨ds, hds, h⟩ := bind_eq_ok h
  have harranged := Draft.drafts_arranged hds
  have hlists : bs.map (fun b => b.producer.ops :: b.consumers.map Endpoint.ops) =
      ds.map Draft.lists :=
    map_eq_of_mapM_eq_ok h fun _ _ hd => Draft.finish_eq_ok hd
  have hproducers := congrArg (fun lists => lists.map fun ops => ops.headD []) hlists
  have hconsumers := congrArg (fun lists => lists.map fun ops => ops.tail.flatten) hlists
  simp only [List.map_map] at hproducers hconsumers
  constructor
  . intro b hb e he
    have hmem : b.producer.ops :: b.consumers.map Endpoint.ops ∈ ds.map Draft.lists := by
      rw [← hlists]
      exact List.mem_map.mpr ⟨b, hb, rfl⟩
    obtain ⟨d, hd, heq⟩ := List.mem_map.mp hmem
    apply harranged.increasing d hd
    rw [heq]
    exact List.mem_map_of_mem (f := Endpoint.ops) he
  . have := harranged.producers
    rw [List.flatMap_def] at this ⊢
    have heq : bs.map (fun b => b.producer.ops) = ds.map Draft.producers := hproducers
    rw [heq]
    exact this
  . have := harranged.consumers
    rw [List.flatMap_def] at this ⊢
    have heq : bs.map (fun b => (b.consumers.map Endpoint.ops).flatten) =
        ds.map fun d => d.consumers.flatten := hconsumers
    rw [heq]
    exact this

end Graph

end TileTraffic
