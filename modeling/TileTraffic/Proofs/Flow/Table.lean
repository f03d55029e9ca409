import TileTraffic.Compile
import TileTraffic.Proofs.Lists
import TileTraffic.Proofs.Outcome
import TileTraffic.Proofs.Success

/-!
The flow table. Its index and its list agree at all times, so it has each flow once. After
compilation it has exactly the flows of the bundles; flows that are connected come behind those that
are there.
-/

namespace TileTraffic

/--
The flow leaves an outbound channel, enters an inbound one, and does not stay on its tile.
-/
structure Flow.Crosses (f : Flow) : Prop where
  leaves : f.source.direction = .outbound
  enters : f.dest.direction = .inbound
  apart : f.source.tile ≠ f.dest.tile

namespace FlowTable

variable {table table' : FlowTable} {f : Flow} {n : Nat}

/--
The index leads to every flow, at its position, and to nothing else.
-/
def Indexed (table : FlowTable) : Prop :=
  ∀ f n, table.position? f = some n ↔ table.flows[n]? = some f

theorem indexed_empty : empty.Indexed := by
  simp [Indexed, empty, position?]

theorem flows_add : (table.add f).flows = table.flows ++ [f] :=
  rfl

theorem position?_add (f' : Flow) :
    (table.add f).position? f' =
      if f' = f then some table.flows.length else table.position? f' := by
  unfold position? add
  rw [List.lookup_cons]
  by_cases heq : f' = f
  . simp [heq]
  . have hne : (f' == f) = false := by simp [heq]
    rw [hne, if_neg heq]

namespace Indexed

theorem mem_iff (h : table.Indexed) : f ∈ table.flows ↔ ∃ n, table.position? f = some n := by
  rw [List.mem_iff_getElem?]
  exact exists_congr fun n => (h f n).symm

theorem not_mem (h : table.Indexed) (hnone : table.position? f = none) : f ∉ table.flows := by
  rw [h.mem_iff, hnone]
  simp

theorem nodup (h : table.Indexed) : table.flows.Nodup := by
  unfold List.Nodup
  rw [List.pairwise_iff_getElem]
  intro i j hi hj hlt heq
  have hfirst := (h _ i).mpr (List.getElem?_eq_getElem hi)
  have hsecond := (h _ j).mpr (List.getElem?_eq_getElem hj)
  rw [heq, hsecond] at hfirst
  have := Option.some.inj hfirst
  omega

/--
A new flow goes behind all others, and the index leads there.
-/
theorem add (h : table.Indexed) (hnone : table.position? f = none) : (table.add f).Indexed := by
  intro f' n
  rw [position?_add, flows_add, getElem?_push_eq_some_iff, ← h f' n]
  by_cases heq : f' = f
  . subst heq
    simp [hnone, eq_comm]
  . simp [heq]

end Indexed

/--
A flow that does not cross is refused. Of the others, one that is there keeps its position, and a new
one is added.
-/
theorem connect_cases (f : Flow) (table : FlowTable) :
    (¬ f.Crosses ∧ ∃ e, connect f.source f.dest table = .error e table) ∨
    (f.Crosses ∧ ∃ n, table.position? f = some n ∧
      connect f.source f.dest table = .ok n table) ∨
    (f.Crosses ∧ table.position? f = none ∧
      connect f.source f.dest table = .ok table.flows.length (table.add f)) := by
  unfold connect
  split
  . next hdirection =>
    left
    refine ⟨fun h => ?_, _, rfl⟩
    exact hdirection.elim (absurd h.leaves) (absurd h.enters)
  . next hdirection =>
    split
    . next htile => exact .inl ⟨fun h => h.apart htile, _, rfl⟩
    . next htile =>
      rw [not_or, Decidable.not_not, Decidable.not_not] at hdirection
      have hcrosses : f.Crosses := ⟨hdirection.1, hdirection.2, htile⟩
      right
      cases hposition : table.position? f with
      | some n => exact .inl ⟨hcrosses, n, rfl, rfl⟩
      | none => exact .inr ⟨hcrosses, rfl, rfl⟩

theorem connect_runs (hcrosses : f.Crosses) (h : table.Indexed) :
    Runs (connect f.source f.dest) table fun _ table' =>
      table'.Indexed ∧ ∀ f', f' ∈ table'.flows ↔ f' ∈ table.flows ∨ f' = f := by
  unfold Runs
  rcases connect_cases f table with ⟨hnot, _⟩ | ⟨_, n, hn, hok⟩ | ⟨_, hnone, hok⟩
  . exact absurd hcrosses hnot
  . -- the flow is there: the table stays as it is
    rw [hok]
    refine ⟨h, fun f' => (or_iff_left_of_imp ?_).symm⟩
    rintro rfl
    exact h.mem_iff.mpr ⟨n, hn⟩
  . rw [hok]
    exact ⟨h.add hnone, by simp [flows_add]⟩

theorem connect_extends {source dest : ChannelKey}
    (h : connect source dest table = .ok n table') : table.flows <+: table'.flows := by
  rcases connect_cases ⟨source, dest⟩ table with ⟨_, e, herror⟩ | ⟨_, n, _, hok⟩ | ⟨_, _, hok⟩
  . cases herror.symm.trans h
  . obtain ⟨_, rfl⟩ := EStateM.Result.ok.inj (hok.symm.trans h)
    exact List.prefix_rfl
  . obtain ⟨_, rfl⟩ := EStateM.Result.ok.inj (hok.symm.trans h)
    exact List.prefix_append ..

end FlowTable

namespace Bundle

variable {b : Bundle} {bs : List Bundle} {table : FlowTable}

/--
The flow leads from the channel of the producing end to that of a consuming one.
-/
def HasFlow (b : Bundle) (f : Flow) : Prop :=
  b.producer.key = some f.source ∧ ∃ e ∈ b.consumers, e.key = some f.dest

/--
All ends have channels that face the right way, and no flow stays on its tile.
-/
structure Connectable (b : Bundle) : Prop where
  ops_ne : b.producer.ops ≠ []
  source : ∃ key, b.producer.key = some key ∧ key.direction = .outbound
  dest : ∀ e ∈ b.consumers, ∃ key, e.key = some key ∧ key.direction = .inbound
  apart : ∀ f, b.HasFlow f → f.source.tile ≠ f.dest.tile

theorem leads_append {source dest : ChannelKey} {e : Endpoint} (hdest : e.key = some dest)
    {done : List Endpoint} {f : Flow} :
    (f.source = source ∧ ∃ e' ∈ done ++ [e], e'.key = some f.dest) ↔
      (f.source = source ∧ ∃ e' ∈ done, e'.key = some f.dest) ∨ f = ⟨source, dest⟩ := by
  obtain ⟨s, d⟩ := f
  constructor
  . rintro ⟨hs, e', he', hkey⟩
    rcases List.mem_append.mp he' with he' | he'
    . exact .inl ⟨hs, e', he', hkey⟩
    . rw [List.mem_singleton.mp he', hdest] at hkey
      obtain rfl := Option.some.inj hkey
      dsimp only at hs
      rw [hs]
      exact .inr rfl
  . rintro (⟨hs, e', he', hkey⟩ | heq)
    . exact ⟨hs, e', by simp [he'], hkey⟩
    . obtain ⟨rfl, rfl⟩ := Flow.mk.inj heq
      exact ⟨rfl, e, by simp, hdest⟩

theorem connect_yields (hb : b.Connectable) (h : table.Indexed) :
    Yields (b.connect table) fun table' =>
      table'.Indexed ∧ ∀ f, f ∈ table'.flows ↔ f ∈ table.flows ∨ b.HasFlow f := by
  obtain ⟨source, hsource, hout⟩ := hb.source
  obtain ⟨first, rest, hcons⟩ := List.exists_cons_of_ne_nil hb.ops_ne
  have hfirst : b.producer.ops[0]? = some first := by simp [hcons]
  unfold connect
  apply Yields.bind (P := fun key => source = key)
  . unfold connect.assigned
    rw [hsource]
    exact rfl
  intro _ heq
  subst heq
  apply Yields.mono
  . apply Yields.foldlM fun (done : List Endpoint) table' => table'.Indexed ∧
      ∀ f : Flow, f ∈ table'.flows ↔
        f ∈ table.flows ∨ f.source = source ∧ ∃ e ∈ done, e.key = some f.dest
    . simp [h]
    . intro done e he table' ⟨hindexed, hmem⟩
      obtain ⟨dest, hdest, hin⟩ := hb.dest e he
      have hcrosses : Flow.Crosses ⟨source, dest⟩ :=
        ⟨hout, hin, hb.apart ⟨source, dest⟩ ⟨hsource, e, he, hdest⟩⟩
      apply Yields.bind (P := fun key => dest = key)
      . unfold connect.assigned
        rw [hdest]
        exact rfl
      intro _ heq
      subst heq
      apply (elementAt_yields hfirst).bind
      intro _ _
      apply ((FlowTable.connect_runs hcrosses hindexed).attempt _).bind
      intro ⟨_, table''⟩ ⟨hindexed', hmem'⟩
      apply Yields.pure
      refine ⟨hindexed', ?_⟩
      intro f
      rw [hmem', hmem, or_assoc, leads_append hdest]
  . intro table' ⟨hindexed, hmem⟩
    refine ⟨hindexed, ?_⟩
    intro f
    rw [hmem]
    unfold HasFlow
    rw [hsource, Option.some.injEq, @eq_comm _ source]

theorem connect_extends {table' : FlowTable} (h : b.connect table = .ok table') :
    table.flows <+: table'.flows := by
  unfold connect at h
  obtain ⟨source, _, h⟩ := bind_eq_ok h
  refine foldlM_eq_ok (fun _ (table' : FlowTable) => table.flows <+: table'.flows) h
    List.prefix_rfl ?_
  intro _ e _ table₁ table₂ _ hbefore hstep
  obtain ⟨dest, _, hstep⟩ := bind_eq_ok hstep
  obtain ⟨first, _, hstep⟩ := bind_eq_ok hstep
  obtain ⟨⟨n, table₃⟩, hconnect, hstep⟩ := bind_eq_ok hstep
  obtain rfl := Except.ok.inj hstep
  exact hbefore.trans (FlowTable.connect_extends (attempt_eq_ok hconnect))

theorem connectAll_yields (hbs : ∀ b ∈ bs, b.Connectable) :
    Yields (bs.foldlM connect .empty) fun table =>
      table.Indexed ∧ ∀ f, f ∈ table.flows ↔ ∃ b ∈ bs, b.HasFlow f := by
  apply Yields.foldlM fun (done : List Bundle) (table : FlowTable) =>
    table.Indexed ∧ ∀ f, f ∈ table.flows ↔ ∃ b ∈ done, b.HasFlow f
  . exact ⟨FlowTable.indexed_empty, by simp [FlowTable.empty]⟩
  . intro done b hb table ⟨hindexed, hmem⟩
    apply (connect_yields (hbs b hb) hindexed).mono
    intro table' ⟨hindexed', hmem'⟩
    refine ⟨hindexed', ?_⟩
    intro f
    rw [hmem', hmem]
    simp only [List.mem_append, List.mem_singleton, or_and_right, exists_or, exists_eq_left]

end Bundle

end TileTraffic
