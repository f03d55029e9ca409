import TileTraffic.Cli.Run
import TileTraffic.Proofs.Wire.Graph

/-!
What is written is read back: movement graphs, target descriptions and side tables for the host come
out of their texts as they went in.

Targets and side tables are nested to a fixed depth. The host program of a graph may be nested
deeper than the reader of texts follows; the graph then still comes out of its JSON value.
-/

namespace TileTraffic

open Json

theorem Json.Spells.ofText {α : Type} {value : Json → Option α} {j : Json} {a : α}
    (h : Spells value j a) (hdepth : j.depth ≤ Reader.maxDepth) :
    (parse? j.pretty).bind value = some a := by
  rw [parse?_pretty h.plain hdepth]
  exact h.reads

namespace Direction

theorem spells (d : Direction) : Spells ofJson? d.toJson d :=
  ⟨ofJson?_toJson d, by cases d <;> trivial⟩

theorem depth_toJson (d : Direction) : d.toJson.depth = 0 := by
  cases d <;> rfl

end Direction

/-! ### Target descriptions -/

namespace Budget

@[mk_iff]
structure Sized (b : Budget) : Prop where
  channels : b.channels < word32
  locks : b.locks < word32
  descriptors : b.descriptors < word32

instance (b : Budget) : Decidable b.Sized :=
  decidable_of_iff _ (sized_iff b).symm

theorem spells {b : Budget} (h : b.Sized) : Spells ofJson? b.toJson b := by
  have hchannels := spells_nat32 h.channels
  have hlocks := spells_nat32 h.locks
  have hdescriptors := spells_nat32 h.descriptors
  refine ⟨?_, hchannels.plain, hlocks.plain, hdescriptors.plain, trivial⟩
  rw [ofJson?, toJson, record?_obj (by simp)]
  simp [hchannels.reads, hlocks.reads, hdescriptors.reads]

theorem depth_toJson (b : Budget) : b.toJson.depth = 1 :=
  rfl

end Budget

namespace Target

/--
Every number of the description has room in the field that it is written to.
-/
@[mk_iff]
structure Sized (t : Target) : Prop where
  columns : t.columns < word32
  rows : t.rows < word32
  interfaceColumns : ∀ column ∈ t.interfaceColumns, column < word32
  sharedRows : t.sharedRows < word32
  sharedTileBytes : t.sharedTileBytes < word64
  interface : t.interface.Sized
  shared : t.shared.Sized
  compute : t.compute.Sized

instance (t : Target) : Decidable t.Sized :=
  decidable_of_iff _ (sized_iff t).symm

theorem spells {t : Target} (h : t.Sized) : Spells ofJson? t.toJson t := by
  have hcolumns := spells_nat32 h.columns
  have hrows := spells_nat32 h.rows
  have hinterfaceColumns := spells_nats32 h.interfaceColumns
  have hsharedRows := spells_nat32 h.sharedRows
  have hsharedTileBytes := spells_nat64 h.sharedTileBytes
  have hinterface := Budget.spells h.interface
  have hshared := Budget.spells h.shared
  have hcompute := Budget.spells h.compute
  have hlockPolicy : Spells LockPolicy.ofJson? t.lockPolicy.toJson t.lockPolicy :=
    ⟨LockPolicy.ofJson?_toJson _, by cases t.lockPolicy <;> trivial⟩
  have hstartPrimitive : Spells StartPrimitive.ofJson? t.startPrimitive.toJson t.startPrimitive :=
    ⟨StartPrimitive.ofJson?_toJson _, by cases t.startPrimitive <;> trivial⟩
  refine ⟨?_, trivial, hcolumns.plain, hrows.plain, hinterfaceColumns.plain, hsharedRows.plain,
    hsharedTileBytes.plain, hinterface.plain, hshared.plain, hcompute.plain, hlockPolicy.plain,
    hstartPrimitive.plain, trivial, trivial⟩
  rw [ofJson?, toJson, record?_obj (by simp)]
  simp [hcolumns.reads, hrows.reads, hinterfaceColumns.reads, hsharedRows.reads,
    hsharedTileBytes.reads, hinterface.reads, hshared.reads, hcompute.reads, hlockPolicy.reads,
    hstartPrimitive.reads]

theorem depth_toJson_le (t : Target) : t.toJson.depth ≤ 2 := by
  have hcolumns := depth_ofNats_le t.interfaceColumns
  have hlockPolicy : t.lockPolicy.toJson.depth = 0 := by cases t.lockPolicy <;> rfl
  have hstartPrimitive : t.startPrimitive.toJson.depth = 0 := by cases t.startPrimitive <;> rfl
  simp only [toJson, depth, membersDepth, Budget.depth_toJson, hlockPolicy, hstartPrimitive]
  omega

end Target

/-! ### Side tables -/

namespace MetadataRecord

@[mk_iff]
structure Sized (r : MetadataRecord) : Prop where
  id : r.id < word32
  col : Signed64 r.col
  row : Signed64 r.row
  channel : r.channel < word32
  location : r.location < word32

instance (r : MetadataRecord) : Decidable r.Sized :=
  decidable_of_iff _ (sized_iff r).symm

theorem spells {r : MetadataRecord} (h : r.Sized) : Spells ofJson? r.toJson r := by
  have hid := spells_nat32 h.id
  have hcol := spells_int64 h.col
  have hrow := spells_int64 h.row
  have hchannel := spells_nat32 h.channel
  have hlocation := spells_nat32 h.location
  have hdirection := r.direction.spells
  refine ⟨?_, hid.plain, hcol.plain, hrow.plain, hchannel.plain, hlocation.plain, hdirection.plain,
    trivial⟩
  rw [ofJson?, toJson, record?_obj (by simp)]
  simp [hid.reads, hcol.reads, hrow.reads, hchannel.reads, hlocation.reads, hdirection.reads]

theorem depth_toJson (r : MetadataRecord) : r.toJson.depth = 1 := by
  simp [toJson, depth, membersDepth, Direction.depth_toJson]

end MetadataRecord

namespace MetadataGroup

theorem spells {group : MetadataGroup} (h : ∀ r ∈ group.records, r.Sized) :
    Spells ofJson? group.toJson group := by
  have hrecords := spells_list fun r hr => MetadataRecord.spells (h r hr)
  refine ⟨?_, trivial, hrecords.plain, trivial⟩
  rw [ofJson?, toJson, record?_obj (by simp)]
  simp [hrecords.reads]

theorem depth_toJson_le (group : MetadataGroup) : group.toJson.depth ≤ 3 := by
  have hrecords : (Json.arr (group.records.map MetadataRecord.toJson)).depth ≤ 2 :=
    depth_map_le fun r _ => Nat.le_of_eq r.depth_toJson
  show max 0 (max _ 0) + 1 ≤ 3
  omega

end MetadataGroup

namespace Metadata

/--
Every number of the side table has room in the field that it is written to.
-/
def Sized (m : Metadata) : Prop :=
  ∀ group ∈ m.groups, ∀ r ∈ group.records, r.Sized

instance (m : Metadata) : Decidable m.Sized :=
  inferInstanceAs (Decidable (∀ group ∈ m.groups, ∀ r ∈ group.records, r.Sized))

theorem spells {m : Metadata} (h : m.Sized) : Spells ofJson? m.toJson m := by
  have hgroups := spells_list fun group hgroup => MetadataGroup.spells (h group hgroup)
  refine ⟨?_, trivial, hgroups.plain, trivial⟩
  rw [ofJson?, toJson, record?_obj (by simp)]
  simp [hgroups.reads]

theorem depth_toJson_le (m : Metadata) : m.toJson.depth ≤ 5 := by
  have hgroups : (Json.arr (m.groups.map MetadataGroup.toJson)).depth ≤ 4 :=
    depth_map_le fun group _ => group.depth_toJson_le
  show max 0 (max _ 0) + 1 ≤ 5
  omega

end Metadata

/-! ### Texts -/

/--
Whatever is written is read back as it was, as far as all numbers have room in their fields. A graph
is read back from its text whenever its JSON value is, which is so when no more containers are
nested in it than the reader follows.
-/
theorem ofText?_pretty_toJson :
    (∀ g : Graph, g.Sized →
      Graph.ofJson? g.toJson = some g ∧
      (parse? g.toJson.pretty = some g.toJson → Graph.ofText? g.toJson.pretty = some g) ∧
      (g.toJson.depth ≤ Reader.maxDepth → parse? g.toJson.pretty = some g.toJson)) ∧
    (∀ t : Target, t.Sized → Target.ofText? t.toJson.pretty = some t) ∧
    ∀ m : Metadata, m.Sized → Metadata.ofText? m.toJson.pretty = some m := by
  refine ⟨fun g h => ?_, fun t h => ?_, fun m h => ?_⟩
  . obtain ⟨hreads, hplain⟩ := Graph.spells h
    refine ⟨hreads, fun hparse => ?_, fun hdepth => parse?_pretty hplain hdepth⟩
    rw [Graph.ofText?, hparse]
    exact hreads
  . exact (Target.spells h).ofText (Nat.le_trans t.depth_toJson_le (by decide))
  . exact (Metadata.spells h).ofText (Nat.le_trans m.depth_toJson_le (by decide))

/--
All three kinds of ops, extents of the run time, a broadcast, and a loop within a loop.
-/
def Graph.ferry : Graph where
  scope := "ferry"
  buffers := [⟨"far", .external, [16, 16], 4⟩, ⟨"near", .tileLocal, [16], 2⟩]
  channels := [⟨"out", some [2, 1]⟩, ⟨"back", none⟩]
  regions := [⟨"pair", 0, 2, 2, 1⟩]
  ops := [
    ⟨1, .copy ⟨"far", .external, [], [.known 4, .runtime "n"], [.known 16, .known 1]⟩
      (.whole "near" .tileLocal), some "pair", some [1, 0], [], [], some "line 3"⟩,
    ⟨2, .put "out" (.whole "far" .external), none, none, [0], [1], none⟩,
    ⟨3, .get "out" ⟨"near", .tileLocal, [.runtime "k"], [], []⟩, some "pair", some [0, 0], [1, 0],
      [], none⟩]
  host := some ⟨"main", [
    .loop (.parallel ["x", "y"] [2, 2]) [
      .loop ⟨.sequential, ["k"], [.const (-1)], [.var "n"], [.const 2]⟩ [
        .launch 1 [.add (.mul (.var "k") (.const 4)) (.var "x")],
        .launch 2 []]],
    .launch 3 [.var "n"]]⟩

def Metadata.ferry : Metadata :=
  ⟨"ferry", [⟨"pair", [⟨1, -1, 2, 3, 0, .outbound⟩, ⟨3, 0, 0, 0, 2, .inbound⟩]⟩, ⟨"ferry", []⟩]⟩

theorem ofText?_pretty_ferry :
    Graph.ferry.Sized ∧ Graph.ofText? Graph.ferry.toJson.pretty = some Graph.ferry ∧
    Target.standard.Sized ∧ Target.ofText? Target.standard.toJson.pretty = some Target.standard ∧
    Metadata.ferry.Sized ∧ Metadata.ofText? Metadata.ferry.toJson.pretty = some Metadata.ferry := by
  have hgraph : Graph.ferry.Sized := by decide
  have htarget : Target.standard.Sized := by decide
  have hmetadata : Metadata.ferry.Sized := by decide
  have hdepth : Graph.ferry.toJson.depth ≤ Reader.maxDepth := by decide +kernel
  obtain ⟨hgraphs, htargets, htables⟩ := ofText?_pretty_toJson
  obtain ⟨_, htext, hparse⟩ := hgraphs _ hgraph
  exact ⟨hgraph, htext (hparse hdepth), htarget, htargets _ htarget, hmetadata, htables _ hmetadata⟩

end TileTraffic
