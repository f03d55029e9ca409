import TileTraffic.Error
import TileTraffic.Graph.Basic

/-!
Whether the references of a graph resolve and its sizes can be counted, and where the sides of an op
live.
-/

namespace TileTraffic

namespace Op

/--
The ends of the path an op takes. The half of a movement that is elsewhere is a stream.
-/
def pathEnds (op : Op) : PathEnd × PathEnd :=
  (pathEnd op.movement.src?, pathEnd op.movement.dst?)
where
  pathEnd : Option Access → PathEnd
    | some a => .level a.level
    | none => .stream

/--
Direction of the channel that serves the op at a level of memory: reading from there is outbound,
writing to it inbound.
-/
def directionAt (op : Op) (level : Level) : Except CompileError Direction :=
  if op.movement.src?.any fun a => a.level = level then
    .ok .outbound
  else if op.movement.dst?.any fun a => a.level = level then
    .ok .inbound
  else
    .error (op.blame (.path op.pathEnds.1 op.pathEnds.2))

end Op

namespace Graph

def checkBuffer (b : BufferDecl) : Except CompileError Unit :=
  if b.bytes?.isSome then .ok () else .error (.graph (.bufferBytes b.name b.shape))

def checkChannel (c : ChannelDecl) : Except CompileError Unit :=
  if c.consumerCount?.isSome then
    .ok ()
  else
    .error (.graph (.destinations c.broadcastShape c.name))

/--
An access names a declared buffer, at the level at which it is declared.
-/
def checkAccess (g : Graph) (op : Op) (a : Access) : Except CompileError Unit :=
  match g.buffer? a.buffer with
  | none => .error (op.blame (.graph (.unknownBuffer a.buffer)))
  | some b =>
    if b.level = a.level then
      .ok ()
    else
      .error (op.blame (.graph (.levelMismatch b.name b.level a.level)))

/--
The logical channel of an op, if it has one, is declared.
-/
def checkOpChannel (g : Graph) (op : Op) : Except CompileError Unit :=
  match op.movement.channel? with
  | none => .ok ()
  | some name =>
    if (g.channel? name).isSome then .ok () else .error (op.blame (.graph (.unknownChannel name)))

/--
The region of an op, if it has one, is declared.
-/
def checkOpRegion (g : Graph) (op : Op) : Except CompileError Unit :=
  match op.region with
  | none => .ok ()
  | some name =>
    if (g.region? name).isSome then .ok () else .error (op.blame (.graph (.unknownRegion name)))

def checkOp (g : Graph) (op : Op) : Except CompileError Unit := do
  op.movement.accesses.forM (g.checkAccess op)
  g.checkOpChannel op
  g.checkOpRegion op

/--
Every reference of the graph resolves. Declarations are looked at before ops, in their order.
-/
def validate (g : Graph) : Except CompileError Unit := do
  g.buffers.forM checkBuffer
  g.channels.forM checkChannel
  g.ops.forM g.checkOp

end Graph

end TileTraffic
