import TileTraffic.Device

/-!
The window of a buffer that one descriptor moves: how many elements, and from where.
-/

namespace TileTraffic

/--
Element strides of a shape whose last dimension is contiguous. Every stride has to fit 64 bits; the
first dimension does not enter any of them.
-/
def rowMajorStrides? : List Nat → Option (List Nat)
  | [] => some []
  | [_] => some [1]
  | _ :: side :: sides => do
    let strides ← rowMajorStrides? (side :: sides)
    let stride ← fit? word64 (strides.headD 1 * side)
    some (stride :: strides)

namespace Access

def overflow (op : Op) (quantity : Quantity) : CompileError :=
  op.blame (.graph (.overflow quantity))

/--
Number of elements that one descriptor moves: the product of the sizes, or the whole buffer if there
are none.
-/
def transferLength (a : Access) (op : Op) (buffer : Buffer) : Except CompileError Nat :=
  if a.sizes.isEmpty then
    match buffer.volume? with
    | some n => .ok n
    | none => .error (overflow op (.volume buffer.symbol))
  else
    a.sizes.foldlM times 1
where
  times (n : Nat) : Dim → Except CompileError Nat
    | .known size =>
      match fit? word64 (n * size) with
      | some m => .ok m
      | none => .error (overflow op (.length a.buffer))
    | .runtime name => .error (.nonStaticShape (.size name a.buffer) op.id op.location)

/--
The strides that go with the offsets: those that are given, or the last ones of the buffer.
-/
def effectiveStrides (a : Access) (op : Op) (buffer : Buffer) : Except CompileError (List Dim) :=
  let offsets := a.offsets.length
  if a.strides.isEmpty then
    match rowMajorStrides? buffer.shape with
    | none => .error (overflow op (.strides buffer.symbol))
    | some natural =>
      if offsets ≤ natural.length then
        .ok ((natural.drop (natural.length - offsets)).map .known)
      else
        .error (op.blame (.graph (.offsetRank offsets a.buffer natural.length)))
  else if a.strides.length = offsets then
    .ok a.strides
  else
    .error (op.blame (.graph (.strideRank offsets a.buffer a.strides.length)))

/--
The sum of offsets times strides. An offset or stride of the run time is refused, except on external
memory: there the whole address is filled in later, and 0 stands for it.
-/
def sumOffsets (a : Access) (op : Op) (sum : Nat) : List (Dim × Dim) → Except CompileError Nat
  | [] => .ok sum
  | (.known index, .known stride) :: rest =>
    match (fit? word64 (index * stride)).bind fun step => fit? word64 (sum + step) with
    | some sum => a.sumOffsets op sum rest
    | none => .error (overflow op (.offset a.buffer))
  | (index, stride) :: _ =>
    if a.level = .external then
      .ok 0
    else
      .error (.nonStaticShape (.offset index stride a.buffer) op.id op.location)

def baseOffset (a : Access) (op : Op) (buffer : Buffer) : Except CompileError Nat :=
  if a.offsets.isEmpty then
    .ok 0
  else do
    let strides ← a.effectiveStrides op buffer
    a.sumOffsets op 0 (a.offsets.zip strides)

end Access

end TileTraffic
