import TileTraffic.Bundle.Basic

/-!
Reuse of interface channels.

A bundle that needs an interface channel may ride on one that an earlier bundle has opened toward
the same far end. The index remembers, for every channel, the bundles that use it as their producing
end and those that use it as a consuming end.
-/

namespace TileTraffic

/--
The bundles, by number, that use a channel, in the order in which they were recorded.
-/
structure ReuseIndex where
  byProducer : List (ChannelKey × List Nat)
  byConsumer : List (ChannelKey × List Nat)
  deriving DecidableEq, Repr, Inhabited

namespace ReuseIndex

def empty : ReuseIndex :=
  ⟨[], []⟩

/--
Note that bundle `n` uses the channel, unless that is known.
-/
def note (key : ChannelKey) (n : Nat) : List (ChannelKey × List Nat) → List (ChannelKey × List Nat)
  | [] => [(key, [n])]
  | (k, users) :: rest =>
    if k = key then
      (k, if n ∈ users then users else users ++ [n]) :: rest
    else
      (k, users) :: note key n rest

/--
Record the channels that bundle `n` has so far. This may be done again when it has more.
-/
def record (index : ReuseIndex) (n : Nat) (e : Ends) : ReuseIndex where
  byProducer := e.producer.toList.foldl (fun entries key => note key n entries) index.byProducer
  byConsumer := e.consumerKeys.foldl (fun entries key => note key n entries) index.byConsumer

/--
The bundles that have an interface channel of direction `need` opposite to a channel: a bundle that
consumes there has its interface channel at the producing end, and the other way round.
-/
def users (index : ReuseIndex) (need : Direction) (anchor : ChannelKey) : List Nat :=
  let entries :=
    match need with
    | .outbound => index.byConsumer
    | .inbound => index.byProducer
  (entries.lookup anchor).getD []

/--
An open interface channel of direction `need` that leads to one of the anchors. Anchors are tried in
order, for each of them the bundles recorded there, and for each bundle its channels.
-/
def findReuse (index : ReuseIndex) (ends : List Ends) (anchors : List ChannelKey) (need : Direction)
    (eligible : ChannelKey → Bool) : Option ChannelKey :=
  anchors.findSome? fun anchor =>
    (index.users need anchor).findSome? fun n =>
      ends[n]?.bind fun e =>
        (e.keysToward need).find? fun key => key.direction = need && eligible key

end ReuseIndex

end TileTraffic
