import Mathlib.Data.List.Basic
import Mathlib.Data.List.Induction
import TileTraffic.Proofs.Flow.Reuse

/-!
The reuse index saves going through all bundles. What it finds is what a plain search would find that
goes through them in the order in which they were first recorded, however often and in whatever order
they have been recorded since.
-/

namespace TileTraffic

namespace ReuseIndex

variable {index : ReuseIndex} {ends : List Ends} {calls : List (Fin ends.length)}
  {need : Direction} {key anchor : ChannelKey}

/--
The plain search: for each of the anchors in turn, every bundle that has it at its far end is asked
for a channel of direction `need` that is eligible.
-/
def scan (bundles : List Ends) (anchors : List ChannelKey) (need : Direction)
    (eligible : ChannelKey → Bool) : Option ChannelKey :=
  anchors.findSome? fun anchor =>
    bundles.findSome? fun e =>
      if anchor ∈ e.anchors need then
        (e.keysToward need).find? fun key => key.direction = need && eligible key
      else
        none

/--
The index after bundles have been recorded, by number.
-/
def recording (ends : List Ends) (calls : List (Fin ends.length)) : ReuseIndex :=
  calls.foldl (fun index (n : Fin ends.length) => index.record n (ends.get n)) empty

/--
The bundles in the order in which they were recorded for the first time.
-/
def inOrder (ends : List Ends) (calls : List (Fin ends.length)) : List Ends :=
  calls.eraseDups.map ends.get

theorem recording_push (calls : List (Fin ends.length)) (n : Fin ends.length) :
    recording ends (calls ++ [n]) = (recording ends calls).record n (ends.get n) := by
  unfold recording
  rw [List.foldl_append]
  rfl

/--
The users of a channel are the bundles that have it at their far end, by their first record.
-/
theorem users_recording (calls : List (Fin ends.length)) : (recording ends calls).users need key =
    (calls.eraseDups.filter fun n => key ∈ (ends.get n).anchors need).map Fin.val := by
  induction calls using List.reverseRecOn with
  | nil => cases need <;> rfl
  | append_singleton calls n ih =>
    have hmem : (n : Nat) ∈ (recording ends calls).users need key ↔
        n ∈ calls ∧ key ∈ (ends.get n).anchors need := by
      rw [ih, List.mem_map_of_injective fun _ _ => Fin.eq_of_val_eq, List.mem_filter,
        List.mem_eraseDups, decide_eq_true_eq]
    rw [recording_push, users_record, eraseDups_push]
    simp only [hmem]
    by_cases hn : n ∈ calls
    . -- a bundle that has been recorded before is listed wherever it would be listed now
      rw [if_neg fun h => h.2 ⟨hn, h.1⟩, if_pos hn]
      exact ih
    . rw [if_neg hn, List.filter_append, List.map_append, ← ih, List.filter_singleton]
      by_cases hkey : key ∈ (ends.get n).anchors need
      . rw [if_pos ⟨hkey, fun h => hn h.1⟩, decide_eq_true hkey]
        rfl
      . rw [if_neg fun h => hkey h.1, decide_eq_false hkey]
        exact (List.append_nil _).symm

/--
Once all bundles have been recorded, the index is exact.
-/
theorem indexes_recording (hall : ∀ n, n ∈ calls) : (recording ends calls).Indexes ends := by
  intro need key n
  rw [users_recording, List.mem_map]
  constructor
  . rintro ⟨m, hm, rfl⟩
    rw [List.mem_filter, decide_eq_true_eq] at hm
    exact ⟨ends.get m, List.getElem?_eq_getElem m.isLt, hm.2⟩
  . rintro ⟨e, he, hkey⟩
    obtain ⟨hn, rfl⟩ := List.getElem?_eq_some_iff.mp he
    refine ⟨⟨n, hn⟩, ?_, rfl⟩
    rw [List.mem_filter, List.mem_eraseDups, decide_eq_true_eq]
    exact ⟨hall _, hkey⟩

theorem findReuse_recording (calls : List (Fin ends.length)) (anchors : List ChannelKey)
    (need : Direction) (eligible : ChannelKey → Bool) :
    (recording ends calls).findReuse ends anchors need eligible =
      scan (inOrder ends calls) anchors need eligible := by
  unfold findReuse scan inOrder
  congr 1
  funext anchor
  rw [users_recording, List.findSome?_map, List.findSome?_map, findSome?_filter]
  congr 1
  funext n
  simp

/--
What the index finds is what the plain search finds among the bundles in the order of their first
record, if all of them have been recorded. It finds nothing just if none of them leads from an
anchor to a channel that would do.
-/
theorem findReuse_eq_scan (hall : ∀ n, n ∈ calls) (anchors : List ChannelKey) (need : Direction)
    (eligible : ChannelKey → Bool) :
    (recording ends calls).findReuse ends anchors need eligible =
        scan (inOrder ends calls) anchors need eligible ∧
      ((recording ends calls).findReuse ends anchors need eligible = none ↔
        ∀ anchor ∈ anchors, ∀ e ∈ ends, anchor ∈ e.anchors need →
          ∀ key ∈ e.keysToward need, key.direction = need → eligible key = false) := by
  have hindex := indexes_recording hall
  refine ⟨findReuse_recording calls anchors need eligible, ?_, ?_⟩
  . intro hnone anchor hanchor e he hmem key hkey hd
    exact hindex.findReuse_eq_none hnone hanchor he hmem hkey hd
  . intro hnever
    cases h : (recording ends calls).findReuse ends anchors need eligible with
    | none => rfl
    | some key =>
      obtain ⟨anchor, hanchor, e, he, hmem, hkey, hd, hok⟩ := hindex.findReuse_eq_some h
      rw [hnever anchor hanchor e he hmem key hkey hd] at hok
      cases hok

/--
A broadcast that lists one of its destinations twice and another one not at all, a bundle to the same
destination, and one that has not been given its producing end.
-/
def quay : List Ends :=
  [⟨some (interface 0), [some cell, none, some cell]⟩, ⟨some (interface 1), [some cell]⟩,
    ⟨none, [some cell]⟩]
where
  interface (id : Nat) : ChannelKey := ⟨⟨2, 0⟩, .outbound, id⟩
  cell : ChannelKey := ⟨⟨2, 2⟩, .inbound, 0⟩

namespace quay

/--
The last bundle is recorded first, and the first one last.
-/
def records : List (Fin quay.length) :=
  [⟨2, by decide⟩, ⟨1, by decide⟩, ⟨2, by decide⟩, ⟨0, by decide⟩, ⟨1, by decide⟩]

end quay

/--
The bundle that was recorded first has nothing to offer, and the next one is taken.
-/
theorem quay_findReuse : (∀ n, n ∈ quay.records) ∧
    (recording quay quay.records).findReuse quay [quay.interface 0, quay.cell] .outbound
      (fun key => key.tile.row = 0) = some (quay.interface 1) ∧
    scan (inOrder quay quay.records) [quay.interface 0, quay.cell] .outbound
      (fun key => key.tile.row = 0) = some (quay.interface 1) := by
  have hall : ∀ n, n ∈ quay.records := by decide
  obtain ⟨hscan, _⟩ := findReuse_eq_scan hall [quay.interface 0, quay.cell] .outbound
    (fun key => key.tile.row = 0)
  have hfound : (recording quay quay.records).findReuse quay [quay.interface 0, quay.cell] .outbound
      (fun key => key.tile.row = 0) = some (quay.interface 1) := by
    decide
  exact ⟨hall, hfound, hscan.symm.trans hfound⟩

end ReuseIndex

end TileTraffic
