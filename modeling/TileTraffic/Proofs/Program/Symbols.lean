import TileTraffic.Proofs.Channel.Seats
import TileTraffic.Proofs.Program.Order

/-!
Symbols of the buffers of a program. They are all different exactly if no shared buffer is named
like an instance of a tile-local or of an external buffer: a shared buffer goes by its bare name, an
instance by its name and what it is an instance for.
-/

namespace TileTraffic

namespace Graph

/--
The buffer that an op uses at a level.
-/
def bufferKey? (g : Graph) (occ : Occurrence) (level : Level) : Option BufferKey :=
  (occ.op.accessAt? level).bind fun access =>
    match level with
    | .tileLocal => (g.cell? occ.op).map (.tileLocal access.buffer)
    | .shared => some (.shared access.buffer)
    | .external => some (.external access.buffer occ.ref)

/--
The buffers that the ops of the graph use.
-/
def bufferKeys (g : Graph) : List BufferKey :=
  g.occurrences.flatMap fun occ => [Level.tileLocal, .shared, .external].filterMap (g.bufferKey? occ)

/--
No shared buffer that is used is named like an instance that is used.
-/
def NamesApart (g : Graph) : Prop :=
  ∀ key ∈ g.bufferKeys, key.level = .shared → ∀ key' ∈ g.bufferKeys, key'.level ≠ .shared →
    key.symbol ≠ key'.symbol

instance (g : Graph) : Decidable g.NamesApart :=
  inferInstanceAs (Decidable (∀ key ∈ g.bufferKeys, key.level = .shared → _))

variable {g : Graph}

theorem mem_bufferKeys {occ : Occurrence} (hocc : occ ∈ g.occurrences) {level : Level}
    {key : BufferKey} (h : g.bufferKey? occ level = some key) : key ∈ g.bufferKeys := by
  refine List.mem_flatMap.mpr ⟨occ, hocc, List.mem_filterMap.mpr ⟨level, ?_, h⟩⟩
  cases level <;> simp

/--
Names without underscores are safe.
-/
theorem namesApart_of_no_underscore
    (h : ∀ key ∈ g.bufferKeys, key.level = .shared → '_' ∉ key.symbol.toList) : g.NamesApart := by
  intro key hkey hshared key' _ hlevel heq
  apply h key hkey hshared
  rw [heq]
  exact BufferKey.underscore_mem_symbol hlevel

end Graph

namespace Program

/--
No shared buffer of the program has the symbol of another buffer of it.
-/
def NamesApart (p : Program) : Prop :=
  ∀ b ∈ p.buffers, b.level = .shared → ∀ b' ∈ p.buffers, b'.level ≠ .shared → b.symbol ≠ b'.symbol

/--
Of two buffers with one symbol, both are shared or none.
-/
theorem NamesApart.level_iff {p : Program} (h : p.NamesApart) {b b' : Buffer} (hb : b ∈ p.buffers)
    (hb' : b' ∈ p.buffers) (heq : b.symbol = b'.symbol) :
    b.level = .shared ↔ b'.level = .shared := by
  have hshared : ∀ b ∈ p.buffers, ∀ b' ∈ p.buffers, b.symbol = b'.symbol →
      b.level = .shared → b'.level = .shared := by
    intro b hb b' hb' heq hlevel
    apply Decidable.byContradiction
    intro hother
    exact h b hb hlevel b' hb' hother heq
  exact ⟨hshared b hb b' hb' heq, hshared b' hb' b hb heq.symm⟩

end Program

namespace Built

variable {g : Graph} {t : Target} {p : Program} {bs : List Bundle} {d d' : Device} {a : Assignment}
  {bindings : Bindings}

/--
What is set up for an op is the buffer that the op uses at the level that the buffer is declared
for.
-/
theorem setUp_key (h : Built g t p bs d a) {x : BufferKey × Buffer}
    (hx : Device.SetUp g (Device.workOf p.channels) x) :
    x.1.level = x.2.level ∧ x.1 ∈ g.bufferKeys := by
  obtain ⟨y, hy, occ, hocc, access, decl, haccess, hdecl, hlevel, rfl⟩ := h.exists_use hx
  have hname : decl.name = access.buffer := by simpa using List.find?_some hdecl
  constructor
  . exact (Device.level_bufferKey ..).trans hlevel.symm
  . have hopened := (h.opened hy).1
    obtain ⟨bs₁, bs₂, hpasses⟩ := h.passes
    have hkey : g.bufferKey? occ y.level = some (Device.bufferOf decl (y, occ)).1 := by
      unfold Graph.bufferKey? Device.bufferOf
      rw [haccess, hname, Option.bind_some]
      dsimp only
      generalize y.level = level at hopened
      cases level with
      | tileLocal =>
        rw [Graph.cell?_eq_some_iff.mpr (hpasses.cellOf_tileLocal hopened hocc)]
        rfl
      | shared => rfl
      | external => rfl
    exact Graph.mem_bufferKeys (h.mem_occurrences hy hocc) hkey

variable (h : Built g t p bs d a) (he : Emitted t p d' bindings)
  (hsetUp : ∀ x ∈ d'.buffers, Device.SetUp g (Device.workOf p.channels) x)

include h he hsetUp

theorem symbols_nodup_iff : (p.buffers.map Buffer.symbol).Nodup ↔ p.NamesApart := by
  rw [he.buffers_eq, List.map_map]
  constructor
  . intro hnodup b hb hshared b' hb' hlevel heq
    rw [he.buffers_eq] at hb hb'
    obtain ⟨x, hx, rfl⟩ := List.mem_map.mp hb
    obtain ⟨x', hx', rfl⟩ := List.mem_map.mp hb'
    obtain rfl := eq_of_nodup_map hnodup hx hx' heq
    exact hlevel hshared
  . intro hapart
    apply nodup_map_of_imp he.wired.interned.keys_nodup
    intro x hx x' hx' heq
    have hmem : ∀ x ∈ d'.buffers, x.2 ∈ p.buffers := by
      intro x hx
      rw [he.buffers_eq]
      exact List.mem_map_of_mem hx
    have hsymbols : x.1.symbol = x'.1.symbol := by
      rw [← he.wired.interned.symbol_eq x hx, ← he.wired.interned.symbol_eq x' hx']
      exact heq
    apply BufferKey.eq_of_symbol_eq _ hsymbols
    rw [(h.setUp_key (hsetUp x hx)).1, (h.setUp_key (hsetUp x' hx')).1]
    exact hapart.level_iff (hmem x hx) (hmem x' hx') heq

theorem namesApart (hapart : g.NamesApart) : p.NamesApart := by
  intro b hb hshared b' hb' hlevel
  rw [he.buffers_eq] at hb hb'
  obtain ⟨x, hx, rfl⟩ := List.mem_map.mp hb
  obtain ⟨x', hx', rfl⟩ := List.mem_map.mp hb'
  obtain ⟨hsame, hkey⟩ := h.setUp_key (hsetUp x hx)
  obtain ⟨hsame', hkey'⟩ := h.setUp_key (hsetUp x' hx')
  rw [he.wired.interned.symbol_eq x hx, he.wired.interned.symbol_eq x' hx']
  exact hapart x.1 hkey (hsame.trans hshared) x'.1 hkey' (hsame' ▸ hlevel)

end Built

namespace Graph

variable {g : Graph} {t : Target} {p : Program}

/--
The buffers of a compiled program have different symbols exactly if no shared buffer has the symbol
of another one, and so whenever the names in the graph are apart.
-/
theorem compile_symbols_nodup (h : g.compile t = .ok p) :
    ((p.buffers.map Buffer.symbol).Nodup ↔ p.NamesApart) ∧ (g.NamesApart → p.NamesApart) := by
  obtain ⟨bs, d, a, d', bindings, hbuilt, honly, hguarded, hemitted⟩ := compile_stages h
  have hsetUp := Device.guardAll_setUp honly.buffers_eq hguarded
  exact ⟨hbuilt.symbols_nodup_iff hemitted hsetUp, hbuilt.namesApart hemitted hsetUp⟩

/--
A load into shared memory and one into a cell.
-/
def namesake (shared : String) : Graph where
  scope := "namesake"
  buffers := [⟨"far", .external, [16], 4⟩, ⟨"a", .tileLocal, [16], 4⟩, ⟨shared, .shared, [16], 4⟩]
  channels := []
  regions := [⟨"cell", 0, 2, 1, 1⟩]
  ops := [
    ⟨1, .copy (.whole "far" .external) (.whole shared .shared), none, none, [], [], none⟩,
    ⟨2, .copy (.whole "far" .external) (.whole "a" .tileLocal), some "cell", some [0, 0], [], [],
      none⟩]
  host := none

theorem compile_namesake_apart : ∃ p, (namesake "b").compile (.gen2 4 6) = .ok p ∧
    p.buffers.length = 4 ∧ (p.buffers.map Buffer.symbol).Nodup := by
  obtain ⟨p, h, hlength⟩ := exists_ok_of_decide (x := (namesake "b").compile (.gen2 4 6))
    (P := fun p => p.buffers.length = 4) (by decide +kernel)
  obtain ⟨hiff, hnames⟩ := compile_symbols_nodup h
  exact ⟨p, h, hlength, hiff.mpr (hnames (by decide +kernel))⟩

/--
The tile-local buffer of the cell has the symbol of a shared buffer that is named for it.
-/
theorem compile_namesake_same : ∃ p, (namesake "a_0_2").compile (.gen2 4 6) = .ok p ∧
    ¬ (p.buffers.map Buffer.symbol).Nodup := by
  exact exists_ok_of_decide (by decide +kernel)

end Graph

end TileTraffic
