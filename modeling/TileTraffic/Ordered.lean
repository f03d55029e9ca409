/-!
Lists kept in strictly increasing order of a key.

Programs are emitted tile by tile and channel by channel in the order of their coordinates, whatever
the order in which the channels were opened. `Ordered.insert` puts an element where its key belongs;
an element with the same key gives way to the new one.
-/

namespace TileTraffic

namespace Ordered

variable {α κ : Type} [LT κ] [DecidableLT κ]

/--
Put `a` into its place. An element with an equal key is replaced.
-/
def insert (key : α → κ) (a : α) : List α → List α
  | [] => [a]
  | b :: rest =>
    if key a < key b then
      a :: b :: rest
    else if key b < key a then
      b :: insert key a rest
    else
      a :: rest

/--
The elements of `as` in increasing order of their keys, the last one for every key.
-/
def ofList (key : α → κ) (as : List α) : List α :=
  as.foldl (fun sorted a => insert key a sorted) []

theorem mem_insert {key : α → κ} {a b : α} {l : List α} (h : b ∈ insert key a l) :
    b = a ∨ b ∈ l := by
  induction l with
  | nil => simpa [insert] using h
  | cons c rest ih =>
    unfold insert at h
    split at h
    . simpa using h
    . split at h
      . rcases List.mem_cons.mp h with h | h
        . simp [h]
        . rcases ih h with h | h <;> simp [h]
      . rcases List.mem_cons.mp h with h | h <;> simp [h]

end Ordered

end TileTraffic
