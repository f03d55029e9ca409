import TileTraffic.Graph.Basic
import TileTraffic.Proofs.Wire.Host

/-!
Movement graphs on the wire: every graph whose numbers have room in their fields is read back from
its JSON value.
-/

namespace TileTraffic

open Json

namespace Level

theorem spells (l : Level) : Spells ofJson? l.toJson l :=
  ⟨ofJson?_toJson l, by cases l <;> trivial⟩

theorem spells_loose (l : Level) : Spells ofLooseJson? l.toJson l :=
  ⟨ofLooseJson?_toJson l, by cases l <;> trivial⟩

end Level

namespace Dim

def Sized : Dim → Prop
  | .known n => n < word64
  | .runtime _ => True

instance : (d : Dim) → Decidable d.Sized
  | .known n => inferInstanceAs (Decidable (n < word64))
  | .runtime _ => .isTrue trivial

theorem spells : ∀ {d : Dim}, d.Sized → Spells ofJson? d.toJson d
  | .known n, h => by
    obtain ⟨hreads, hplain⟩ := spells_nat64 h
    refine ⟨?_, hplain⟩
    show (nat? word64 (.int n)).map Dim.known = some (.known n)
    rw [hreads]
    rfl
  | .runtime _, _ => ⟨rfl, trivial⟩

end Dim

namespace Access

@[mk_iff]
structure Sized (a : Access) : Prop where
  offsets : ∀ d ∈ a.offsets, d.Sized
  sizes : ∀ d ∈ a.sizes, d.Sized
  strides : ∀ d ∈ a.strides, d.Sized

instance (a : Access) : Decidable a.Sized :=
  decidable_of_iff _ (sized_iff a).symm

theorem spells {a : Access} (h : a.Sized) : Spells ofLooseJson? a.toJson a := by
  have hlevel := a.level.spells_loose
  have hoffsets := spells_list fun d hd => Dim.spells (h.offsets d hd)
  have hsizes := spells_list fun d hd => Dim.spells (h.sizes d hd)
  have hstrides := spells_list fun d hd => Dim.spells (h.strides d hd)
  refine ⟨?_, trivial, hlevel.plain, hoffsets.plain, hsizes.plain, hstrides.plain, trivial⟩
  rw [ofLooseJson?, ofJsonWith?, toJson, record?_obj (by simp)]
  simp [hlevel.reads, hoffsets.reads, hsizes.reads, hstrides.reads]

end Access

namespace Op

@[mk_iff]
structure Sized (op : Op) : Prop where
  id : op.id < word32
  accesses : ∀ a ∈ op.movement.accesses, a.Sized
  spatialIndex : ∀ index ∈ op.spatialIndex, ∀ n ∈ index, n < word32
  indices : ∀ n ∈ op.indices, n < word32
  dependsOn : ∀ n ∈ op.dependsOn, n < word32

instance (op : Op) : Decidable op.Sized :=
  decidable_of_iff _ (sized_iff op).symm

/--
The name of a kind, under which it is written.
-/
def Kind.name : Kind → String
  | .copy => "copy"
  | .put => "put"
  | .get => "get"

theorem Kind.spells (kind : Kind) : Spells ofJson? (.str kind.name) kind := by
  cases kind <;> exact ⟨rfl, trivial⟩

/--
The movement is found among the members of an op: its kind tells which fields to look for.
-/
theorem movement?_eq {m : Movement} (h : ∀ a ∈ m.accesses, a.Sized)
    {members : List (String × Json)} (hnodup : (members.map Prod.fst).Nodup)
    (hmem : ∀ member ∈ movementMembers m, member ∈ members) : movement? members = some m := by
  have hunrepeated := unrepeated_of_nodup hnodup
  have haccess := fun a ha => Access.spells (h a ha)
  cases m with
  | copy src dst =>
    simp only [movementMembers, List.forall_mem_cons] at hmem
    obtain ⟨hkind, hsrc, hdst, _⟩ := hmem
    have hkind := field?_of_mem "kind" hnodup hkind Kind.copy.spells
    have hsrc := field?_of_mem "src" hnodup hsrc (haccess src (.head _))
    have hdst := field?_of_mem "dst" hnodup hdst (haccess dst (.tail _ (.head _)))
    simp [movement?, hkind, hunrepeated, hsrc, hdst]
  | put channel src =>
    simp only [movementMembers, List.forall_mem_cons] at hmem
    obtain ⟨hkind, hchannel, hsrc, _⟩ := hmem
    have hkind := field?_of_mem "kind" hnodup hkind Kind.put.spells
    have hchannel := field?_of_mem "channel" hnodup hchannel (spells_str channel)
    have hsrc := field?_of_mem "src" hnodup hsrc (haccess src (.head _))
    simp [movement?, hkind, hunrepeated, hchannel, hsrc]
  | get channel dst =>
    simp only [movementMembers, List.forall_mem_cons] at hmem
    obtain ⟨hkind, hchannel, hdst, _⟩ := hmem
    have hkind := field?_of_mem "kind" hnodup hkind Kind.get.spells
    have hchannel := field?_of_mem "channel" hnodup hchannel (spells_str channel)
    have hdst := field?_of_mem "dst" hnodup hdst (haccess dst (.head _))
    simp [movement?, hkind, hunrepeated, hchannel, hdst]

theorem plain_movementMembers {m : Movement} (h : ∀ a ∈ m.accesses, a.Sized) :
    MembersPlain (movementMembers m) := by
  have haccess := fun a ha => (Access.spells (h a ha)).plain
  cases m with
  | copy src dst => exact ⟨trivial, haccess src (.head _), haccess dst (.tail _ (.head _)), trivial⟩
  | put channel src => exact ⟨trivial, trivial, haccess src (.head _), trivial⟩
  | get channel dst => exact ⟨trivial, trivial, haccess dst (.head _), trivial⟩

def members (op : Op) : List (String × Json) :=
  ("id", .int op.id) :: movementMembers op.movement ++ [
    ("region", ofOption .str op.region),
    ("spatial_index", ofOption ofNats op.spatialIndex),
    ("indices", ofNats op.indices),
    ("depends_on", ofNats op.dependsOn),
    ("location", ofOption .str op.location)]

theorem nodup_members (op : Op) : (op.members.map Prod.fst).Nodup := by
  unfold members
  cases op.movement <;> simp [movementMembers]

/--
The members of an op and those of its movement stand side by side, and neither are mistaken for the
others.
-/
theorem spells {op : Op} (h : op.Sized) : Spells ofJson? op.toJson op := by
  have hid := spells_nat32 h.id
  have hregion : Spells _ _ op.region := spells_option (fun s _ => spells_str s) fun _ => nofun
  have hspatialIndex : Spells _ _ op.spatialIndex :=
    spells_option (fun index hindex => spells_nats32 (h.spatialIndex index hindex)) fun _ => nofun
  have hindices := spells_nats32 h.indices
  have hdependsOn := spells_nats32 h.dependsOn
  have hlocation : Spells _ _ op.location := spells_option (fun s _ => spells_str s) fun _ => nofun
  have hplain : MembersPlain op.members :=
    ⟨hid.plain, membersPlain_append.mpr ⟨plain_movementMembers h.accesses, hregion.plain,
      hspatialIndex.plain, hindices.plain, hdependsOn.plain, hlocation.plain, trivial⟩⟩
  refine ⟨?_, hplain⟩
  have hnodup := op.nodup_members
  have hmovement := movement?_eq h.accesses hnodup fun member hmember => by
    simp [members, hmember]
  have hid := field?_of_mem "id" hnodup (by simp [members]) hid
  have hregion := fieldOr?_of_mem "region" hnodup (by simp [members]) hregion none
  have hspatialIndex :=
    fieldOr?_of_mem "spatial_index" hnodup (by simp [members]) hspatialIndex none
  have hindices := fieldOr?_of_mem "indices" hnodup (by simp [members]) hindices []
  have hdependsOn := fieldOr?_of_mem "depends_on" hnodup (by simp [members]) hdependsOn []
  have hlocation := fieldOr?_of_mem "location" hnodup (by simp [members]) hlocation none
  show ofJson? (.obj op.members) = some op
  simp [ofJson?, unrepeated_of_nodup hnodup, membersReadable_of_plain hplain, hid, hmovement,
    hregion, hspatialIndex, hindices, hdependsOn, hlocation]

end Op

namespace BufferDecl

@[mk_iff]
structure Sized (b : BufferDecl) : Prop where
  shape : ∀ n ∈ b.shape, n < word64
  elementBytes : b.elementBytes < word64

instance (b : BufferDecl) : Decidable b.Sized :=
  decidable_of_iff _ (sized_iff b).symm

theorem spells {b : BufferDecl} (h : b.Sized) : Spells ofJson? b.toJson b := by
  have hlevel := b.level.spells
  have hshape := spells_nats64 h.shape
  have helementBytes := spells_nat64 h.elementBytes
  refine ⟨?_, trivial, hlevel.plain, hshape.plain, helementBytes.plain, trivial⟩
  rw [ofJson?, toJson, record?_obj (by simp)]
  simp [hlevel.reads, hshape.reads, helementBytes.reads]

end BufferDecl

namespace ChannelDecl

def Sized (c : ChannelDecl) : Prop :=
  ∀ shape ∈ c.broadcastShape, ∀ n ∈ shape, n < word32

instance (c : ChannelDecl) : Decidable c.Sized :=
  inferInstanceAs (Decidable (∀ shape ∈ c.broadcastShape, ∀ n ∈ shape, n < word32))

theorem spells {c : ChannelDecl} (h : c.Sized) : Spells ofJson? c.toJson c := by
  have hshape : Spells _ _ c.broadcastShape :=
    spells_option (fun shape hshape => spells_nats32 (h shape hshape)) fun _ => nofun
  refine ⟨?_, trivial, hshape.plain, trivial⟩
  rw [ofJson?, toJson, record?_obj (by simp)]
  simp [hshape.reads]

end ChannelDecl

namespace Region

@[mk_iff]
structure Sized (r : Region) : Prop where
  col : r.col < word32
  row : r.row < word32
  cols : r.cols < word32
  rows : r.rows < word32

instance (r : Region) : Decidable r.Sized :=
  decidable_of_iff _ (sized_iff r).symm

theorem spells {r : Region} (h : r.Sized) : Spells ofJson? r.toJson r := by
  have hcol := spells_nat32 h.col
  have hrow := spells_nat32 h.row
  have hcols := spells_nat32 h.cols
  have hrows := spells_nat32 h.rows
  refine ⟨?_, trivial, hcol.plain, hrow.plain, hcols.plain, hrows.plain, trivial⟩
  rw [ofJson?, toJson, record?_obj (by simp)]
  simp [hcol.reads, hrow.reads, hcols.reads, hrows.reads]

end Region

namespace Graph

/--
Every number of the graph has room in the field that it is written to.
-/
@[mk_iff]
structure Sized (g : Graph) : Prop where
  buffers : ∀ b ∈ g.buffers, b.Sized
  channels : ∀ c ∈ g.channels, c.Sized
  regions : ∀ r ∈ g.regions, r.Sized
  ops : ∀ op ∈ g.ops, op.Sized
  host : ∀ host ∈ g.host, host.Sized

instance (g : Graph) : Decidable g.Sized :=
  decidable_of_iff _ (sized_iff g).symm

theorem spells {g : Graph} (h : g.Sized) : Spells ofJson? g.toJson g := by
  have hbuffers := spells_list fun b hb => BufferDecl.spells (h.buffers b hb)
  have hchannels := spells_list fun c hc => ChannelDecl.spells (h.channels c hc)
  have hregions := spells_list fun r hr => Region.spells (h.regions r hr)
  have hops := spells_list fun op hop => Op.spells (h.ops op hop)
  have hhost : Spells _ _ g.host :=
    spells_option (fun host hhost => Host.spells (h.host host hhost)) fun _ => nofun
  refine ⟨?_, trivial, hbuffers.plain, hchannels.plain, hregions.plain, hops.plain, hhost.plain,
    trivial⟩
  rw [ofJson?, toJson, record?_obj (by simp)]
  simp [hbuffers.reads, hchannels.reads, hregions.reads, hops.reads, hhost.reads]

end Graph

end TileTraffic
