import TileTraffic.Bundle.Destination

/-!
Partition of the ops of a graph into bundles.

A copy is a bundle of its own. The puts and gets of a logical channel form one bundle; those of a
unicast channel that is used with indices form one bundle for every index. Bundles are ordered by
their first op.
-/

namespace TileTraffic

/--
A bundle under construction.
-/
structure Draft where
  /-- Channel and index that puts and gets have to share to get in. Nothing gets in to a copy. -/
  slot : Option (String × List Nat)
  name : String
  producerLevel : Option Level
  consumerLevel : Option Level
  producers : List Occurrence
  consumers : List (List Occurrence)
  deriving Repr, Inhabited

namespace Draft

def ofCopy (occ : Occurrence) (src dst : Access) : Draft where
  slot := none
  name := s!"copy{occ.op.id}#{occ.ref}"
  producerLevel := some src.level
  consumerLevel := some dst.level
  producers := [occ]
  consumers := [[occ]]

/--
A flow over a logical channel, without ops.
-/
def ofChannel (channel : String) (index : List Nat) (destinations : Nat) : Draft where
  slot := some (channel, index)
  name := if index.isEmpty then channel else channel ++ Text.list index
  producerLevel := none
  consumerLevel := none
  producers := []
  consumers := List.replicate destinations []

def meetLevel (known : Option Level) (level : Level) (op : Op) (channel : String) :
    Except CompileError Unit :=
  match known with
  | some other =>
    if other = level then
      .ok ()
    else
      .error (op.blame (.graph (.mixedLevels channel other level)))
  | none => .ok ()

def addPut (d : Draft) (channel : String) (occ : Occurrence) (src : Access) :
    Except CompileError Draft := do
  meetLevel d.producerLevel src.level occ.op channel
  return { d with producerLevel := some src.level, producers := d.producers ++ [occ] }

def addGet (d : Draft) (decl : ChannelDecl) (channel : String) (occ : Occurrence) (dst : Access) :
    Except CompileError Draft := do
  meetLevel d.consumerLevel dst.level occ.op channel
  let n ← decl.destination occ.op
  let ops ← elementAt d.consumers n
  return {
    d with consumerLevel := some dst.level, consumers := d.consumers.set n (ops ++ [occ]) }

/--
Apply `f` to the draft for `slot`, which is `fresh` and comes last if there is none yet.
-/
def update (slot : String × List Nat) (fresh : Draft) (f : Draft → Except CompileError Draft) :
    List Draft → Except CompileError (List Draft)
  | [] => do
    return [← f fresh]
  | d :: rest =>
    if d.slot = some slot then do
      return (← f d) :: rest
    else do
      return d :: (← update slot fresh f rest)

/--
The index that tells the flows over a channel apart: none where the channel is a broadcast.
-/
def indexOf (decl : ChannelDecl) (op : Op) : List Nat :=
  if decl.broadcastShape.isSome then [] else op.indices

def addHalf (g : Graph) (t : Target) (channel : String) (occ : Occurrence) (drafts : List Draft)
    (add : ChannelDecl → Draft → Except CompileError Draft) : Except CompileError (List Draft) := do
  match g.channel? channel with
  | none => throw (.graph (.unknownChannel channel))
  | some decl =>
    let index := indexOf decl occ.op
    let destinations ← (decl.destinationCount t).mapError occ.op.blame
    update (channel, index) (ofChannel channel index destinations) (add decl) drafts

def add (g : Graph) (t : Target) (drafts : List Draft) (occ : Occurrence) :
    Except CompileError (List Draft) :=
  match occ.op.movement with
  | .copy src dst => do
    (t.checkPath src.level dst.level).mapError occ.op.blame
    return drafts ++ [ofCopy occ src dst]
  | .put channel src => addHalf g t channel occ drafts fun _ d => d.addPut channel occ src
  | .get channel dst => addHalf g t channel occ drafts fun decl d => d.addGet decl channel occ dst

/--
The finished bundle: both sides have ops, and so has every destination.
-/
def finish (t : Target) (d : Draft) : Except CompileError Bundle :=
  match d.producerLevel, d.consumerLevel with
  | none, _ => .error (.graph (.noProducer d.name))
  | some _, none => .error (.graph (.noConsumer d.name))
  | some src, some dst =>
    match d.consumers.findIdx? List.isEmpty with
    | some n => .error (.unresolvedBroadcast d.name (.noConsumer n) .unknown)
    | none => do
      let first ← elementAt d.producers 0
      (t.checkPath src dst).mapError first.op.blame
      return {
        name := d.name
        producerLevel := src
        consumerLevel := dst
        producer := ⟨d.producers, none⟩
        consumers := d.consumers.map fun ops => ⟨ops, none⟩ }

end Draft

namespace Graph

/--
The bundles of a graph on a target, none of them assigned to channels.
-/
def partition (g : Graph) (t : Target) : Except CompileError (List Bundle) := do
  g.validate
  let drafts ← g.occurrences.foldlM (Draft.add g t) []
  drafts.mapM (Draft.finish t)

end Graph

end TileTraffic
