import Mathlib.Data.List.Rotate
import TileTraffic.Descriptor.Chain

/-!
How descriptor programs are run through: the blocks of a chain one after the other, round and round,
and the entries of a dispatcher from the first one to the end.
-/

namespace TileTraffic

namespace Chain

variable {c : Chain} {i : Nat}

/--
The positions of the blocks that run, up to a number of them, beginning with the one at `i`.
-/
def visits (c : Chain) : Nat → Nat → List Nat
  | 0, _ => []
  | n + 1, i =>
    match c.blocks[i]? with
    | some b => i :: c.visits n b.next
    | none => []

/--
Every block leads to the one behind it, and the last block to the first.
-/
def Circular (c : Chain) : Prop :=
  ∀ i b, c.blocks[i]? = some b → b.next = (i + 1) % c.blocks.length

namespace Circular

theorem visits_eq (h : c.Circular) (hi : i < c.blocks.length) (n : Nat) :
    c.visits n i = (List.range n).map fun k => (i + k) % c.blocks.length := by
  induction n generalizing i with
  | zero => rfl
  | succ n ih =>
    have hget : c.blocks[i]? = some c.blocks[i] := List.getElem?_eq_getElem hi
    have hnext : (i + 1) % c.blocks.length < c.blocks.length :=
      Nat.mod_lt _ (Nat.zero_lt_of_lt hi)
    have hhere : (i + 0) % c.blocks.length = i := Nat.mod_eq_of_lt hi
    rw [visits, hget]
    dsimp only
    rw [h i _ hget, ih hnext, List.range_succ_eq_map, List.map_cons, List.map_map, hhere]
    congr 1
    apply List.map_congr_left
    intro k _
    rw [Function.comp_apply, Nat.mod_add_mod, Nat.succ_eq_add_one, Nat.add_assoc, Nat.add_comm 1 k]

theorem visits_add (h : c.Circular) (hi : i < c.blocks.length) (m n : Nat) :
    c.visits (m + n) i = c.visits m i ++ c.visits n ((i + m) % c.blocks.length) := by
  have hbehind : (i + m) % c.blocks.length < c.blocks.length :=
    Nat.mod_lt _ (Nat.zero_lt_of_lt hi)
  rw [h.visits_eq hi, h.visits_eq hi, h.visits_eq hbehind, List.range_add, List.map_append,
    List.map_map]
  congr 1
  apply List.map_congr_left
  intro k _
  rw [Function.comp_apply, Nat.mod_add_mod, Nat.add_assoc]

theorem visits_lap (h : c.Circular) (hi : i < c.blocks.length) :
    c.visits c.blocks.length i = (List.range c.blocks.length).rotate i := by
  rw [h.visits_eq hi]
  apply List.ext_getElem
  . simp
  . intro k hk hk'
    rw [List.getElem_map, List.getElem_range, List.getElem_rotate, List.getElem_range,
      List.length_range, Nat.add_comm]

/--
Lap after lap, all blocks run in turn, and after each lap it is the turn of the first one again.
-/
theorem visits_laps (h : c.Circular) (hi : i < c.blocks.length) (laps : Nat) :
    c.visits (laps * c.blocks.length) i =
      (List.replicate laps ((List.range c.blocks.length).rotate i)).flatten := by
  induction laps with
  | zero => rw [Nat.zero_mul, visits, List.replicate_zero, List.flatten_nil]
  | succ laps ih =>
    rw [Nat.succ_mul, Nat.add_comm, h.visits_add hi, h.visits_lap hi, Nat.add_mod_right,
      Nat.mod_eq_of_lt hi, ih, List.replicate_succ, List.flatten_cons]

end Circular

end Chain

namespace TileProgram

variable {q : TileProgram}

/--
The chains that a dispatcher starts, from an entry on until it is done.
-/
inductive Starts (q : TileProgram) : DispatchNext → List Chain → Prop
  | done : Starts q .done []
  | entry {n : Nat} {e : DispatchEntry} {c : Chain} {rest : List Chain}
      (hentry : q.entries[n]? = some e) (hchain : q.chains[e.chain]? = some c)
      (hname : e.direction = c.direction ∧ e.channel = c.channel) (hrest : Starts q e.next rest) :
    Starts q (.entry n) (c :: rest)

/--
Where a dispatcher begins: at its first entry, or it is done if it has none.
-/
def first (q : TileProgram) : DispatchNext :=
  if q.entries.isEmpty then .done else .entry 0

theorem Starts.unique {next : DispatchNext} {cs cs' : List Chain} (h : q.Starts next cs)
    (h' : q.Starts next cs') : cs = cs' := by
  induction h generalizing cs' with
  | done =>
    cases h'
    rfl
  | entry hentry hchain _ _ ih =>
    cases h' with
    | entry hentry' hchain' _ hrest' =>
      obtain rfl := Option.some.inj (hentry.symm.trans hentry')
      obtain rfl := Option.some.inj (hchain.symm.trans hchain')
      rw [ih hrest']

theorem getElem?_dispatch (chains : List Chain) (n : Nat) :
    (Device.dispatch chains)[n]? = chains[n]?.map fun c =>
      ⟨c.direction, c.channel, n, if n + 1 < chains.length then .entry (n + 1) else .done⟩ := by
  unfold Device.dispatch
  rw [List.getElem?_map, List.getElem?_zipIdx, Option.map_map, Nat.zero_add]
  rfl

/--
An entry starts the chain at its position, and is done if no chains are behind this one.
-/
theorem getElem?_of_drop (h : q.entries = Device.dispatch q.chains) {c : Chain} {rest : List Chain}
    {n : Nat} (hdrop : q.chains.drop n = c :: rest) :
    q.chains[n]? = some c ∧ q.entries[n]? =
      some ⟨c.direction, c.channel, n, if rest.isEmpty then .done else .entry (n + 1)⟩ := by
  have hchain : q.chains[n]? = some c := by
    rw [← List.head?_drop, hdrop, List.head?_cons]
  have hlength := congrArg List.length hdrop
  rw [List.length_drop, List.length_cons] at hlength
  refine ⟨hchain, ?_⟩
  rw [h, getElem?_dispatch, hchain, Option.map_some]
  cases rest with
  | nil =>
    rw [if_neg (by rw [List.length_nil] at hlength; omega)]
    rfl
  | cons c' rest =>
    rw [if_pos (by rw [List.length_cons] at hlength; omega)]
    rfl

theorem starts_of_drop (h : q.entries = Device.dispatch q.chains) {c : Chain} {rest : List Chain}
    {n : Nat} (hdrop : q.chains.drop n = c :: rest) : q.Starts (.entry n) (c :: rest) := by
  induction rest generalizing c n with
  | nil =>
    obtain ⟨hchain, hentry⟩ := getElem?_of_drop h hdrop
    exact .entry hentry hchain ⟨rfl, rfl⟩ .done
  | cons c' rest ih =>
    obtain ⟨hchain, hentry⟩ := getElem?_of_drop h hdrop
    have hrest : q.chains.drop (n + 1) = c' :: rest := by
      rw [← List.tail_drop, hdrop, List.tail_cons]
    exact .entry hentry hchain ⟨rfl, rfl⟩ (ih hrest)

theorem starts_first (h : q.entries = Device.dispatch q.chains) : q.Starts q.first q.chains := by
  have hlength : q.entries.length = q.chains.length := by
    rw [h]
    simp [Device.dispatch]
  unfold first
  cases hchains : q.chains with
  | nil =>
    rw [hchains, List.length_nil, List.length_eq_zero_iff] at hlength
    rw [hlength]
    exact .done
  | cons c rest =>
    have hne : q.entries.isEmpty = false := by
      rw [List.isEmpty_eq_false_iff, ← List.length_pos_iff, hlength, hchains, List.length_cons]
      exact Nat.succ_pos _
    rw [hne]
    exact starts_of_drop h (n := 0) (by rw [List.drop_zero, hchains])

end TileProgram

end TileTraffic
