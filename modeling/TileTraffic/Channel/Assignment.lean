import TileTraffic.Bundle.Basic
import TileTraffic.Channel.Pool
import TileTraffic.Device
import TileTraffic.Flow.Reuse

/-!
Assignment of channels to the ends of bundles.

Tile-local ends come first, then shared ones, each on the tile where its op runs or its buffer
lives. External ends come last: they share the interface channels that lead to the same far end, and
open new ones only where there is none with room.
-/

namespace TileTraffic

/--
Apply `f` to the elements of a list in order, handing a state from each to the next.
-/
def threadM {ε σ α β : Type} (f : σ → α → Except ε (β × σ)) (s : σ) :
    List α → Except ε (List β × σ)
  | [] => .ok ([], s)
  | a :: rest => do
    let (b, s) ← f s a
    let (bs, s) ← threadM f s rest
    return (b :: bs, s)

/--
The result and the new state of an attempt, or its failure, reported against an op.
-/
def attempt {σ α : Type} (op : Op) (x : EStateM CompileError σ α) (s : σ) :
    Except CompileError (α × σ) :=
  match x s with
  | .ok a s => .ok (a, s)
  | .error e _ => .error (op.blame e)

namespace Graph

/--
The compute tile that an op with a tile-local side runs on: its cell in its region.
-/
def computeTile (g : Graph) (t : Target) (op : Op) : Except CompileError Coord :=
  match op.region.bind g.region? with
  | none => .error (op.blame (.graph .noRegion))
  | some region =>
    let index := op.spatialIndex.getD []
    match region.tileAt? index with
    | none => .error (op.blame (.graph (.cellOutside index region.name)))
    | some tile =>
      if t.contains tile ∧ t.roleOfRow tile.row = .compute then
        .ok tile
      else
        .error (op.blame (.graph (.notCompute tile)))

end Graph

namespace Device

def sharedTile (d : Device) (op : Op) : Except CompileError Coord :=
  match (op.accessAt? .shared).bind fun a => d.home? a.buffer with
  | some tile => .ok tile
  | none => .error (.codeGen (.unplaced op.id))

end Device

namespace Endpoint

/--
The channel that later ops of a tile-local end prefer: the one of the earlier ops, on the same tile.
-/
def preferred? (level : Level) (key : Option ChannelKey) (tile : Coord) : Option Nat :=
  if level = .tileLocal then
    (key.filter fun k => k.tile = tile).map ChannelKey.id
  else
    none

def meetKey (flow : String) (op : Op) (known : Option ChannelKey) (key : ChannelKey) :
    Except CompileError Unit :=
  match known with
  | some other =>
    if other = key then
      .ok ()
    else
      .error (op.blame (.graph (.splitEndpoint flow other key)))
  | none => .ok ()

variable (t : Target) (flow : String) (tileOf : Op → Except CompileError Coord)

def serveOp (state : Option ChannelKey × ChannelPool) (occ : Occurrence) :
    Except CompileError (Option ChannelKey × ChannelPool) := do
  let (known, pool) := state
  let tile ← tileOf occ.op
  let preferred := preferred? pool.level known tile
  let (key, pool) ← attempt occ.op (ChannelPool.serve t occ tile preferred) pool
  meetKey flow occ.op known key
  return (some key, pool)

def assign (pool : ChannelPool) (e : Endpoint) : Except CompileError (Endpoint × ChannelPool) := do
  let (key, pool) ← e.ops.foldlM (serveOp t flow tileOf) (e.key, pool)
  return ({ e with key := key }, pool)

end Endpoint

namespace Bundle

/--
Assign the ends of a bundle that live at the level of the pool.
-/
def assignLevel (t : Target) (tileOf : Op → Except CompileError Coord) (pool : ChannelPool)
    (b : Bundle) : Except CompileError (Bundle × ChannelPool) := do
  let (producer, pool) ←
    if b.producerLevel = pool.level then
      b.producer.assign t b.name tileOf pool
    else
      pure (b.producer, pool)
  let (consumers, pool) ←
    if b.consumerLevel = pool.level then
      threadM (Endpoint.assign t b.name tileOf) pool b.consumers
    else
      pure (b.consumers, pool)
  return ({ b with producer := producer, consumers := consumers }, pool)

end Bundle

namespace ChannelPool

/--
The interface channel may take one more op: it is on an interface tile with a free descriptor.
-/
def reusable (p : ChannelPool) (t : Target) (key : ChannelKey) : Bool :=
  t.roleOfRow key.tile.row = .interface && p.hasRoom t key.tile

def joinAll (t : Target) (key : ChannelKey) (pool : ChannelPool) (ops : List Occurrence) :
    Except CompileError ChannelPool :=
  ops.foldlM (fun pool occ => (attempt occ.op (join t occ key) pool).map Prod.snd) pool

/--
Serve an external end whose far end is given by `anchors`: on a channel that leads there already, or
else on a new one.
-/
def serveExternal (t : Target) (index : ReuseIndex) (ends : List Ends) (ops : List Occurrence)
    (anchors : List ChannelKey) (need : Direction) (pool : ChannelPool) :
    Except CompileError (ChannelKey × ChannelPool) :=
  match ops with
  | [] => .error (.codeGen .noOps)
  | first :: _ => do
    let (key, pool) ←
      match index.findReuse ends anchors need (pool.reusable t) with
      | some key => pure (key, pool)
      | none =>
        match anchors with
        | [] => throw (.codeGen .noPartner)
        | anchor :: _ => attempt first.op (openInterface t first anchor.tile) pool
    return (key, ← joinAll t key pool ops)

end ChannelPool

namespace Bundle

def withProducer (b : Bundle) (key : ChannelKey) : Bundle :=
  { b with producer := { b.producer with key := some key } }

def withConsumer (b : Bundle) (key : ChannelKey) : Bundle :=
  { b with consumers := b.consumers.modifyHead fun e => { e with key := some key } }

/--
Assign the producing end, if it is external. The bundles in `before` and `after` are those around
this one.
-/
def assignExternalProducer (t : Target) (index : ReuseIndex) (before after : List Ends) (b : Bundle)
    (pool : ChannelPool) : Except CompileError (Bundle × ChannelPool) :=
  if b.producerLevel = .external then do
    let (key, pool) ← pool.serveExternal t index (before ++ b.ends :: after) b.producer.ops
      b.ends.consumerKeys .outbound
    return (b.withProducer key, pool)
  else
    .ok (b, pool)

/--
Assign the consuming end, if it is external. External memory takes no broadcasts.
-/
def assignExternalConsumer (t : Target) (index : ReuseIndex) (before after : List Ends) (b : Bundle)
    (pool : ChannelPool) : Except CompileError (Bundle × ChannelPool) :=
  if b.consumerLevel = .external then
    if b.isBroadcast then do
      let first ← elementAt b.producer.ops 0
      throw (first.op.blame (.path .broadcast (.level .external)))
    else do
      let e ← elementAt b.consumers 0
      let (key, pool) ← pool.serveExternal t index (before ++ b.ends :: after) e.ops
        b.ends.producer.toList .inbound
      return (b.withConsumer key, pool)
  else
    .ok (b, pool)

/--
Assign the external ends of all bundles, those in `done` before those in the list, and record where
they are.
-/
def assignExternal (t : Target) (done : List Bundle) (index : ReuseIndex) (pool : ChannelPool) :
    List Bundle → Except CompileError (List Bundle × ChannelPool)
  | [] => .ok (done, pool)
  | b :: rest => do
    let before := done.map Bundle.ends
    let after := rest.map Bundle.ends
    let (b, pool) ← b.assignExternalProducer t index before after pool
    let (b, pool) ← b.assignExternalConsumer t index before after pool
    assignExternal t (done ++ [b]) (index.record done.length b.ends) pool rest

end Bundle

/--
The bundles with all their channels, and the pools from which these were taken.
-/
structure Assignment where
  bundles : List Bundle
  tileLocal : ChannelPool
  shared : ChannelPool
  external : ChannelPool
  deriving Repr, Inhabited

namespace Assignment

/--
All channels: the tile-local ones, then the shared and the external ones.
-/
def allocations (a : Assignment) : List Allocation :=
  a.tileLocal.allocations ++ a.shared.allocations ++ a.external.allocations

/--
The index of all bundles and the channels that they have so far.
-/
def indexOf (bundles : List Bundle) : ReuseIndex :=
  bundles.zipIdx.foldl (fun index (b, n) => index.record n b.ends) .empty

/--
Assign all ends of all bundles. `device` knows where the shared buffers are.
-/
def ofBundles (g : Graph) (t : Target) (device : Device) (bundles : List Bundle) :
    Except CompileError Assignment := do
  let (bundles, tileLocal) ←
    threadM (Bundle.assignLevel t (g.computeTile t)) (.empty .tileLocal) bundles
  let (bundles, shared) ←
    threadM (Bundle.assignLevel t device.sharedTile) (.empty .shared) bundles
  let (bundles, external) ←
    Bundle.assignExternal t [] (indexOf bundles) (.empty .external) bundles
  return { bundles, tileLocal, shared, external }

end Assignment

end TileTraffic
