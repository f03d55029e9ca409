import TileTraffic.Proofs.Flow.Table
import TileTraffic.Proofs.History

/-!
Any number of connections, granted or refused. The table only grows, and a flow stays at the position
at which it was connected: whoever asks for it again is led there.
-/

namespace TileTraffic

namespace FlowTable

open History

/--
The request to connect two channels. What is asked for need not be a flow that can be connected.
-/
def request (f : Flow) : EStateM CompileError FlowTable Nat :=
  connect f.source f.dest

variable {table table' : FlowTable} {f : Flow} {n : Nat} {e : CompileError}

theorem request_of_position? (hcrosses : f.Crosses) (hn : table.position? f = some n) :
    request f table = .ok n table := by
  rcases connect_cases f table with ⟨hnot, _⟩ | ⟨_, n', hn', hok⟩ | ⟨_, hnone, _⟩
  . exact absurd hcrosses hnot
  . obtain rfl := Option.some.inj (hn.symm.trans hn')
    exact hok
  . cases hn.symm.trans hnone

theorem request_eq_error (h : request f table = .error e table') :
    ¬ f.Crosses ∧ table' = table := by
  rcases connect_cases f table with ⟨hnot, e', herror⟩ | ⟨_, n, _, hok⟩ | ⟨_, _, hok⟩
  . obtain ⟨_, rfl⟩ := EStateM.Result.error.inj (herror.symm.trans h)
    exact ⟨hnot, rfl⟩
  . cases hok.symm.trans h
  . cases hok.symm.trans h

/--
A flow that is granted is at the position that is answered, be it new or not.
-/
theorem request_eq_ok (h : request f table = .ok n table') :
    f.Crosses ∧ table'.position? f = some n ∧
      (table' = table ∨ table.position? f = none ∧ table' = table.add f) := by
  rcases connect_cases f table with ⟨_, e', herror⟩ | ⟨hcrosses, n', hn', hok⟩ |
    ⟨hcrosses, hnone, hok⟩
  . cases herror.symm.trans h
  . obtain ⟨rfl, rfl⟩ := EStateM.Result.ok.inj (hok.symm.trans h)
    exact ⟨hcrosses, hn', .inl rfl⟩
  . obtain ⟨rfl, rfl⟩ := EStateM.Result.ok.inj (hok.symm.trans h)
    refine ⟨hcrosses, ?_, .inr ⟨hnone, rfl⟩⟩
    rw [position?_add, if_pos rfl]

/--
A request adds the flow that it asks for, or it leaves the table alone.
-/
theorem after_request (f : Flow) (table : FlowTable) :
    (after request table f = table ∧ (f.Crosses → ∃ n, table.position? f = some n)) ∨
      f.Crosses ∧ table.position? f = none ∧ after request table f = table.add f := by
  rcases connect_cases f table with ⟨hnot, e, herror⟩ | ⟨_, n, hn, hok⟩ | ⟨hcrosses, hnone, hok⟩
  . exact .inl ⟨after_of_error herror, fun hcrosses => absurd hcrosses hnot⟩
  . exact .inl ⟨after_of_ok hok, fun _ => ⟨n, hn⟩⟩
  . exact .inr ⟨hcrosses, hnone, after_of_ok hok⟩

/-! ### Any number of requests -/

/--
The index agrees with the list, and only flows that can be connected are there.
-/
structure Sound (table : FlowTable) : Prop where
  indexed : table.Indexed
  crosses : ∀ f ∈ table.flows, f.Crosses

theorem sound_empty : empty.Sound where
  indexed := indexed_empty
  crosses := by simp [empty]

namespace Sound

theorem after (h : table.Sound) (f : Flow) : (after request table f).Sound := by
  rcases after_request f table with ⟨hsame, _⟩ | ⟨hcrosses, hnone, hadd⟩
  . rwa [hsame]
  . rw [hadd]
    refine ⟨h.indexed.add hnone, ?_⟩
    rw [flows_add, List.forall_mem_append, List.forall_mem_singleton]
    exact ⟨h.crosses, hcrosses⟩

theorem position?_after (hn : table.position? f = some n) (f' : Flow) :
    (History.after request table f').position? f = some n := by
  rcases after_request f' table with ⟨hsame, _⟩ | ⟨_, hnone, hadd⟩
  . rwa [hsame]
  . have hne : f ≠ f' := by
      rintro rfl
      cases hn.symm.trans hnone
    rw [hadd, position?_add, if_neg hne, hn]

theorem afterAll (h : table.Sound) (fs : List Flow) : (afterAll request table fs).Sound :=
  afterAll_invariant h (fun _ f' h' => h'.after f') fs

/--
A position that has been given out is right at all times, and given out again.
-/
theorem position_stays (h : table.Sound) (hcrosses : f.Crosses) (hn : table.position? f = some n)
    (later : List Flow) :
    (History.afterAll request table later).flows[n]? = some f ∧
      request f (History.afterAll request table later) =
        .ok n (History.afterAll request table later) := by
  have hstays : (History.afterAll request table later).position? f = some n :=
    afterAll_invariant (I := fun t : FlowTable => t.position? f = some n) hn
      (fun _ f' hn' => position?_after hn' f') later
  exact ⟨((h.afterAll later).indexed f n).mp hstays, request_of_position? hcrosses hstays⟩

theorem mem_after (h : table.Sound) (f f' : Flow) :
    f ∈ (History.after request table f').flows ↔ f ∈ table.flows ∨ f = f' ∧ f.Crosses := by
  rcases after_request f' table with ⟨hsame, hthere⟩ | ⟨hcrosses, _, hadd⟩
  . rw [hsame]
    refine (or_iff_left_of_imp ?_).symm
    rintro ⟨rfl, hcrosses⟩
    exact h.indexed.mem_iff.mpr (hthere hcrosses)
  . rw [hadd, flows_add, List.mem_append, List.mem_singleton]
    refine or_congr_right (and_iff_left_of_imp ?_).symm
    rintro rfl
    exact hcrosses

/--
The flows that are asked for and that can be connected are all there.
-/
theorem mem_afterAll (h : table.Sound) (f : Flow) (fs : List Flow) :
    f ∈ (History.afterAll request table fs).flows ↔ f ∈ table.flows ∨ f ∈ fs ∧ f.Crosses := by
  induction fs generalizing table with
  | nil => simp
  | cons f' fs ih =>
    rw [afterAll_cons, ih (h.after f'), h.mem_after f f', List.mem_cons, or_and_right, or_assoc]

end Sound

/--
What can be relied on at all times. The table has every flow once, from an outbound channel to an
inbound one on another tile. A request that is refused changes nothing. One that is granted adds its
flow behind all others if it is not there, and nothing else; the answer is the position of the flow,
then and whatever is asked for later, and whoever asks for the flow again gets the same answer.
-/
structure Consistent (table : FlowTable) : Prop where
  nodup : table.flows.Nodup
  crosses : ∀ f ∈ table.flows, f.Crosses
  refused : ∀ f e table', request f table = .error e table' → ¬ f.Crosses ∧ table' = table
  granted : ∀ f n table', request f table = .ok n table' →
    (table' = table ∨ f ∉ table.flows ∧ table'.flows = table.flows ++ [f]) ∧
      ∀ later, (afterAll request table' later).flows[n]? = some f ∧
        request f (afterAll request table' later) = .ok n (afterAll request table' later)

theorem Sound.consistent (h : table.Sound) : table.Consistent where
  nodup := h.indexed.nodup
  crosses := h.crosses
  refused := fun _ _ _ herror => request_eq_error herror
  granted := by
    intro f n table' hok
    obtain ⟨hcrosses, hn, hcases⟩ := request_eq_ok hok
    have hafter := h.after f
    rw [after_of_ok hok] at hafter
    refine ⟨?_, hafter.position_stays hcrosses hn⟩
    rcases hcases with rfl | ⟨hnone, rfl⟩
    . exact .inl rfl
    . exact .inr ⟨h.indexed.not_mem hnone, rfl⟩

/--
The flow table stays consistent, whatever is asked of it and whether it is granted or refused. It has
exactly the flows that were asked for and can be connected.
-/
theorem consistent_afterAll (fs : List Flow) :
    (afterAll request empty fs).Consistent ∧
      ∀ f, f ∈ (afterAll request empty fs).flows ↔ f ∈ fs ∧ f.Crosses := by
  refine ⟨(sound_empty.afterAll fs).consistent, ?_⟩
  intro f
  rw [sound_empty.mem_afterAll f fs]
  simp [empty]

end FlowTable

end TileTraffic
