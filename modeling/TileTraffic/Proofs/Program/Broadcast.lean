import TileTraffic.Proofs.Program.Flows
import TileTraffic.Proofs.Program.Order

/-!
Broadcasts. Every destination is fed from the channel of the producing end. Destinations get
channels of their own, on tiles of their own, exactly if their ops ask for different tiles: the
number of destinations is held against the number of tiles of the grid, but not the destinations
against each other.
-/

namespace TileTraffic

namespace Assignment

variable {g : Graph} {d : Device} {level : Level} {op : Op} {tile : Coord}

/--
The one tile where the channel of an op has to be. External memory leaves a choice.
-/
def place? (g : Graph) (d : Device) (level : Level) (op : Op) : Option Coord :=
  match level with
  | .tileLocal => g.cell? op
  | .shared => (op.accessAt? .shared).bind fun a => d.home? a.buffer
  | .external => none

theorem place?_eq_some_iff (hlevel : level ≠ .external) :
    place? g d level op = some tile ↔ Sits g d level op tile := by
  cases level with
  | tileLocal => exact Graph.cell?_eq_some_iff
  | shared => exact Option.bind_eq_some_iff
  | external => exact absurd rfl hlevel

end Assignment

namespace Bundle

/--
Ops of different destinations ask for different tiles.
-/
def Spread (g : Graph) (d : Device) (b : Bundle) : Prop :=
  b.consumers.Pairwise fun e e' => ∀ occ ∈ e.ops, ∀ occ' ∈ e'.ops,
    Assignment.place? g d b.consumerLevel occ.op ≠ Assignment.place? g d b.consumerLevel occ'.op

instance (g : Graph) (d : Device) (b : Bundle) : Decidable (b.Spread g d) :=
  inferInstanceAs (Decidable (b.consumers.Pairwise _))

/--
Different destinations have different channels, on different tiles.
-/
structure Apart (b : Bundle) : Prop where
  keys_nodup : (b.consumers.map Endpoint.key).Nodup
  tiles_nodup : (b.consumers.map fun e => e.key.map ChannelKey.tile).Nodup

variable {g : Graph} {t : Target} {d : Device} {b : Bundle}

theorem apart_iff_tiles_nodup :
    b.Apart ↔ (b.consumers.map fun e => e.key.map ChannelKey.tile).Nodup := by
  constructor
  . exact Apart.tiles_nodup
  . intro h
    refine ⟨nodup_map_of_imp h ?_, h⟩
    intro e _ e' _ hkey
    rw [hkey]

theorem isBroadcast_unassigned : b.unassigned.isBroadcast = b.isBroadcast := by
  simp [isBroadcast, Ends.isBroadcast, ends, unassigned]

theorem spread_unassigned_iff : b.unassigned.Spread g d ↔ b.Spread g d := by
  unfold Spread unassigned
  rw [List.pairwise_map]
  rfl

/-! ### External memory takes no broadcasts -/

theorem assignExternalConsumer_unicast {index : ReuseIndex} {before after : List Ends}
    {p p' : ChannelPool} {b' : Bundle} (hlevel : b.consumerLevel = .external)
    (h : b.assignExternalConsumer t index before after p = .ok (b', p')) :
    b.isBroadcast = false := by
  unfold assignExternalConsumer at h
  rw [if_pos hlevel] at h
  split at h
  . obtain ⟨_, _, h⟩ := bind_eq_ok h
    cases h
  . next hunicast => simpa using hunicast

theorem assignExternal_unicast {index : ReuseIndex} {p p' : ChannelPool}
    {done bs rest : List Bundle} (h : assignExternal t done index p rest = .ok (bs, p')) :
    ∀ b ∈ rest, b.consumerLevel = .external → b.isBroadcast = false := by
  induction rest generalizing done index p with
  | nil => simp
  | cons c rest ih =>
    rw [assignExternal_cons] at h
    obtain ⟨⟨c', p₁⟩, hstep, h⟩ := bind_eq_ok h
    obtain ⟨⟨c₁, p₂⟩, hproducer, hconsumer⟩ := bind_eq_ok hstep
    have hsame : c₁.consumerLevel = c.consumerLevel ∧ c₁.isBroadcast = c.isBroadcast := by
      unfold assignExternalProducer at hproducer
      split at hproducer
      . obtain ⟨_, _, hproducer⟩ := bind_eq_ok hproducer
        obtain ⟨rfl, _⟩ := Prod.mk.inj (Except.ok.inj hproducer)
        exact ⟨rfl, rfl⟩
      . obtain ⟨rfl, _⟩ := Prod.mk.inj (Except.ok.inj hproducer)
        exact ⟨rfl, rfl⟩
    intro b hb hlevel
    rcases List.mem_cons.mp hb with rfl | hb
    . rw [← hsame.2]
      exact assignExternalConsumer_unicast (hsame.1.trans hlevel) hconsumer
    . exact ih h b hb hlevel

end Bundle

namespace Program

/--
A channel of the program serves the producing end, others serve the destinations, and flows lead
from the first to each of these.
-/
def Feeds (p : Program) (g : Graph) (d : Device) (b : Bundle) : Prop :=
  ∃ source ∈ p.channels, b.producer.RunsOn g d b.producerLevel .outbound source ∧
    ∀ e ∈ b.consumers, ∃ dest ∈ p.channels, e.RunsOn g d b.consumerLevel .inbound dest ∧
      ⟨source.key, dest.key⟩ ∈ p.flows

theorem Realizes.feeds {p : Program} {g : Graph} {d : Device} {bs : List Bundle} {b : Bundle}
    (h : p.Realizes g d bs) (hb : b ∈ bs) : p.Feeds g d b := by
  obtain ⟨source, hsource, hproducer⟩ := h.producer b hb
  refine ⟨source, hsource, hproducer, ?_⟩
  intro e he
  obtain ⟨dest, hdest, hconsumer⟩ := h.consumer b hb e he
  exact ⟨dest, hdest, hconsumer,
    (h.mem_flows _).mpr ⟨b, hb, hproducer.key_eq, e, he, hconsumer.key_eq⟩⟩

end Program

namespace Built

variable {g : Graph} {t : Target} {p : Program} {bs : List Bundle} {d : Device} {a : Assignment}
  {b : Bundle}

theorem consumerLevel_ne_external (h : Built g t p bs d a) (hb : b ∈ a.bundles)
    (hbroadcast : b.isBroadcast = true) : b.consumerLevel ≠ .external := by
  intro hlevel
  obtain ⟨bs₁, bs₂, hpasses⟩ := h.passes
  -- the bundle before the external pass, which would have refused it
  have hmem : b.unassigned ∈ bs₂.map Bundle.unassigned := by
    rw [← hpasses.third.unassigned]
    exact List.mem_map_of_mem hb
  obtain ⟨c, hc, heq⟩ := List.mem_map.mp hmem
  have hunicast := Bundle.assignExternal_unicast hpasses.external c hc
    ((congrArg Bundle.consumerLevel heq).trans hlevel)
  rw [← Bundle.isBroadcast_unassigned, heq, Bundle.isBroadcast_unassigned, hbroadcast] at hunicast
  cases hunicast

/--
The channel of a destination is on the tile that all of its ops ask for.
-/
theorem place?_eq (h : Built g t p bs d a) (hb : b ∈ a.bundles) (hbroadcast : b.isBroadcast = true)
    {e : Endpoint} (he : e ∈ b.consumers) {occ : Occurrence} (hocc : occ ∈ e.ops) :
    Assignment.place? g d b.consumerLevel occ.op = e.key.map ChannelKey.tile := by
  obtain ⟨dest, _, hdest⟩ := h.realizes.consumer b hb e he
  rw [hdest.key_eq, Option.map_some,
    Assignment.place?_eq_some_iff (h.consumerLevel_ne_external hb hbroadcast)]
  exact hdest.sits occ hocc

theorem apart_iff_spread (h : Built g t p bs d a) (hb : b ∈ a.bundles)
    (hbroadcast : b.isBroadcast = true) : b.Apart ↔ b.Spread g d := by
  have hsound := h.complete.bundle_sound h.partitioned.sound hb
  unfold Bundle.Spread
  rw [Bundle.apart_iff_tiles_nodup, List.Nodup, List.pairwise_map]
  apply List.Pairwise.iff_of_mem
  intro e e' he he'
  constructor
  . intro hne occ hocc occ' hocc'
    rw [h.place?_eq hb hbroadcast he hocc, h.place?_eq hb hbroadcast he' hocc']
    exact hne
  . intro hne
    obtain ⟨occ, hocc⟩ := List.exists_mem_of_ne_nil e.ops
      (hsound.ends_ne (Bundle.consumer_mem_endsAt he))
    obtain ⟨occ', hocc'⟩ := List.exists_mem_of_ne_nil e'.ops
      (hsound.ends_ne (Bundle.consumer_mem_endsAt he'))
    rw [← h.place?_eq hb hbroadcast he hocc, ← h.place?_eq hb hbroadcast he' hocc']
    exact hne occ hocc occ' hocc'

end Built

namespace Graph

variable {g : Graph} {t : Target} {p : Program}

/--
Every destination of a broadcast is fed from the one channel of its producing end. They are fed on
channels of their own, each on another tile, exactly if their ops ask for different tiles.
-/
theorem compile_fansOut (h : g.compile t = .ok p) :
    ∃ (bs : List Bundle) (d : Device), g.partition t = .ok (bs.map Bundle.unassigned) ∧
      (Device.empty t t.lockPolicy).placeShared g = .ok d ∧
        ∀ b ∈ bs, b.isBroadcast = true → p.Feeds g d b ∧ (b.Apart ↔ b.Spread g d) := by
  obtain ⟨bs, d, a, hbuilt⟩ := (compile_yields g t).of_eq_ok h
  refine ⟨a.bundles, d, ?_, hbuilt.placed, ?_⟩
  . rw [hbuilt.complete.unassigned]
    exact hbuilt.partition
  . intro b hb hbroadcast
    exact ⟨hbuilt.realizes.feeds hb, hbuilt.apart_iff_spread hb hbroadcast⟩

/--
A broadcast to three destinations, whose gets run in the first cells of a row in turn.
-/
def fan (cells : Nat) : Graph where
  scope := "fan"
  buffers := [⟨"far", .external, [16], 4⟩, ⟨"near", .tileLocal, [16], 4⟩]
  channels := [⟨"all", some [3]⟩]
  regions := [⟨"row", 0, 2, 3, 1⟩]
  ops := [⟨1, .put "all" (.whole "far" .external), none, none, [], [], none⟩,
    hear 2 0, hear 3 1, hear 4 2]
  host := none
where
  hear (id n : Nat) : Op :=
    ⟨id, .get "all" (.whole "near" .tileLocal), some "row", some [n % cells, 0], [n], [], none⟩

/--
With a cell for each of them, the destinations have channels on three tiles.
-/
theorem compile_fan_apart : ∃ p, (fan 3).compile (.gen2 4 6) = .ok p ∧
    ∃ (bs : List Bundle) (d : Device),
      (fan 3).partition (.gen2 4 6) = .ok (bs.map Bundle.unassigned) ∧
        (∃ b ∈ bs, b.isBroadcast = true) ∧
          ∀ b ∈ bs, b.isBroadcast = true → p.Feeds (fan 3) d b ∧ b.Apart := by
  obtain ⟨bs₀, d₀, hbs₀, hd₀, ⟨b₀, hb₀, hbroadcast⟩, hspread⟩ := exists_of_decide
    (x := (fan 3).partition (.gen2 4 6))
    (y := (Device.empty (.gen2 4 6) .counting).placeShared (fan 3))
    (P := fun bs d => (∃ b ∈ bs, b.isBroadcast = true) ∧ ∀ b ∈ bs, b.Spread (fan 3) d)
    (by decide +kernel)
  obtain ⟨p, h⟩ := exists_of_isOk (x := (fan 3).compile (.gen2 4 6)) (by decide +kernel)
  obtain ⟨bs, d, hbs, hd, hfans⟩ := compile_fansOut h
  obtain rfl := Except.ok.inj (hbs₀.symm.trans hbs)
  obtain rfl : d₀ = d := Except.ok.inj (hd₀.symm.trans hd)
  refine ⟨p, h, bs, d₀, hbs, ?_, ?_⟩
  . obtain ⟨b, hb, rfl⟩ := List.mem_map.mp hb₀
    rw [Bundle.isBroadcast_unassigned] at hbroadcast
    exact ⟨b, hb, hbroadcast⟩
  . intro b hb hbroadcast
    obtain ⟨hfeeds, hiff⟩ := hfans b hb hbroadcast
    have hb := hspread b.unassigned (List.mem_map_of_mem hb)
    exact ⟨hfeeds, hiff.mpr (Bundle.spread_unassigned_iff.mp hb)⟩

/--
In a cell that all three share there are two channels for them, so that two destinations are fed by
one flow.
-/
theorem compile_fan_crowded : ∃ p bs, (fan 1).compile (.gen2 4 6) = .ok p ∧
    (fan 1).partition (.gen2 4 6) = .ok bs ∧ (∃ b ∈ bs, b.consumers.length = 3) ∧
      p.flows.length = 2 ∧ p.channels.countP (fun x => x.key.direction = .inbound) = 2 ∧
        ∀ x ∈ p.channels, x.key.direction = .inbound → x.key.tile = ⟨0, 2⟩ := by
  exact exists_of_decide
    (P := fun (p : Program) (bs : List Bundle) => (∃ b ∈ bs, b.consumers.length = 3) ∧
      p.flows.length = 2 ∧ p.channels.countP (fun x => x.key.direction = .inbound) = 2 ∧
        ∀ x ∈ p.channels, x.key.direction = .inbound → x.key.tile = ⟨0, 2⟩)
    (by decide +kernel)

end Graph

end TileTraffic
