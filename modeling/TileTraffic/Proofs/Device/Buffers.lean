import TileTraffic.Proofs.Device.Guards
import TileTraffic.Proofs.Lists

/-!
Buffers of the device. Each key has one buffer, which goes by the symbol of the key. Among the
shared buffers, and among all others, a symbol tells which key it is of: names may have underscores,
but what follows the last one in a symbol is not part of a name.
-/

namespace TileTraffic

namespace BufferKey

theorem symbol_tileLocal (name : String) (tile : Coord) :
    (tileLocal name tile).symbol = name ++ "_" ++ toString tile.col ++ "_" ++ toString tile.row :=
  rfl

theorem symbol_external (name : String) (ref : Nat) :
    (external name ref).symbol = name ++ "_ext" ++ toString ref :=
  rfl

/--
The level that the buffer is on.
-/
def level : BufferKey → Level
  | .tileLocal _ _ => .tileLocal
  | .shared _ => .shared
  | .external _ _ => .external

/--
Name of the declaration.
-/
def name : BufferKey → String
  | .tileLocal name _ => name
  | .shared name => name
  | .external name _ => name

/-! ### Symbols, up to the last underscore and from there on -/

variable {name name' : String} {tile tile' : Coord} {ref ref' : Nat}

theorem toList_symbol_tileLocal :
    (tileLocal name tile).symbol.toList =
      (name.toList ++ '_' :: Nat.toDigits 10 tile.col) ++ '_' :: Nat.toDigits 10 tile.row := by
  rw [symbol_tileLocal, String.toList_append, String.toList_append, String.toList_append,
    String.toList_append, Nat.toString_eq_ofList_toDigits, Nat.toString_eq_ofList_toDigits,
    String.toList_ofList, String.toList_ofList]
  simp

theorem toList_symbol_external :
    (external name ref).symbol.toList =
      name.toList ++ '_' :: ('e' :: 'x' :: 't' :: Nat.toDigits 10 ref) := by
  rw [symbol_external, String.toList_append, String.toList_append,
    Nat.toString_eq_ofList_toDigits, String.toList_ofList]
  simp

theorem underscore_not_mem_ext :
    '_' ∉ 'e' :: 'x' :: 't' :: Nat.toDigits 10 ref := by
  simp [Nat.underscore_not_in_toDigits]

theorem toDigits_ten_inj {n n' : Nat} (h : Nat.toDigits 10 n = Nat.toDigits 10 n') : n = n' := by
  rw [← Nat.ofDigitChars_ten_toDigits (n := n), h, Nat.ofDigitChars_ten_toDigits]

theorem tileLocal_inj (h : (tileLocal name tile).symbol = (tileLocal name' tile').symbol) :
    name = name' ∧ tile = tile' := by
  have heq := congrArg String.toList h
  rw [toList_symbol_tileLocal, toList_symbol_tileLocal] at heq
  obtain ⟨hfront, hrow⟩ := eq_of_append_cons_eq Nat.underscore_not_in_toDigits
    Nat.underscore_not_in_toDigits heq
  obtain ⟨hname, hcol⟩ := eq_of_append_cons_eq Nat.underscore_not_in_toDigits
    Nat.underscore_not_in_toDigits hfront
  refine ⟨String.toList_inj.mp hname, ?_⟩
  cases tile
  cases tile'
  exact congr (congrArg Coord.mk (toDigits_ten_inj hcol)) (toDigits_ten_inj hrow)

theorem external_inj (h : (external name ref).symbol = (external name' ref').symbol) :
    name = name' ∧ ref = ref' := by
  have heq := congrArg String.toList h
  rw [toList_symbol_external, toList_symbol_external] at heq
  obtain ⟨hname, hrest⟩ := eq_of_append_cons_eq underscore_not_mem_ext underscore_not_mem_ext heq
  exact ⟨String.toList_inj.mp hname, toDigits_ten_inj (by simpa using hrest)⟩

/--
After the last underscore there are digits only, or a word and digits.
-/
theorem tileLocal_ne_external : (tileLocal name tile).symbol ≠ (external name' ref).symbol := by
  intro h
  have heq := congrArg String.toList h
  rw [toList_symbol_tileLocal, toList_symbol_external] at heq
  obtain ⟨_, hrow⟩ := eq_of_append_cons_eq Nat.underscore_not_in_toDigits underscore_not_mem_ext heq
  have hmem : 'e' ∈ Nat.toDigits 10 tile.row := by
    rw [hrow]
    exact List.mem_cons_self
  have hdigit := Nat.isDigit_of_mem_toDigits (by decide) (by decide) hmem
  revert hdigit
  decide

/--
A symbol tells which buffer it is of, among the shared buffers and among all others.
-/
theorem eq_of_symbol_eq {key key' : BufferKey}
    (hlevel : key.level = .shared ↔ key'.level = .shared) (h : key.symbol = key'.symbol) :
    key = key' := by
  cases key with
  | tileLocal name tile =>
    cases key' with
    | tileLocal name' tile' =>
      obtain ⟨rfl, rfl⟩ := tileLocal_inj h
      rfl
    | shared name' => simp [level] at hlevel
    | external name' ref' => exact absurd h tileLocal_ne_external
  | shared name =>
    cases key' with
    | shared name' => exact congrArg shared h
    | tileLocal name' tile' => simp [level] at hlevel
    | external name' ref' => simp [level] at hlevel
  | external name ref =>
    cases key' with
    | tileLocal name' tile' => exact absurd h.symm tileLocal_ne_external
    | shared name' => simp [level] at hlevel
    | external name' ref' =>
      obtain ⟨rfl, rfl⟩ := external_inj h
      rfl

theorem underscore_mem_symbol {key : BufferKey} (h : key.level ≠ .shared) :
    '_' ∈ key.symbol.toList := by
  cases key with
  | tileLocal name tile =>
    rw [toList_symbol_tileLocal]
    simp
  | shared name => exact absurd rfl h
  | external name ref =>
    rw [toList_symbol_external]
    simp

end BufferKey

namespace Device

theorem level_bufferKey (name : String) (level : Level) (ref : Nat) (tile : Coord) :
    (bufferKey name level ref tile).1.level = level := by
  cases level <;> rfl

theorem name_bufferKey (name : String) (level : Level) (ref : Nat) (tile : Coord) :
    (bufferKey name level ref tile).1.name = name := by
  cases level <;> rfl

/--
Ops on channels of one level on one tile that use buffers of one symbol use the same buffer.
-/
theorem bufferKey_eq_of_symbol_eq {name name' : String} {level : Level} {ref ref' : Nat}
    {tile : Coord}
    (h : (bufferKey name level ref tile).1.symbol = (bufferKey name' level ref' tile).1.symbol) :
    (bufferKey name level ref tile).1 = (bufferKey name' level ref' tile).1 := by
  apply BufferKey.eq_of_symbol_eq _ h
  rw [level_bufferKey, level_bufferKey]

/--
Keys are those of one buffer each, and buffers go by their symbols.
-/
structure Interned (d : Device) : Prop where
  keys_nodup : (d.buffers.map Prod.fst).Nodup
  symbol_eq : ∀ x ∈ d.buffers, x.2.symbol = x.1.symbol

variable {d d' : Device}

theorem Interned.of_buffers_eq (h : d.Interned) (heq : d'.buffers = d.buffers) : d'.Interned where
  keys_nodup := by
    rw [heq]
    exact h.keys_nodup
  symbol_eq := by
    rw [heq]
    exact h.symbol_eq

theorem Interned.index_inj (h : d.Interned) {n n' : Nat} {x x' : BufferKey × Buffer}
    (hn : d.buffers[n]? = some x) (hn' : d.buffers[n']? = some x') (hkey : x.1 = x'.1) :
    n = n' := by
  have hlt : n < (d.buffers.map Prod.fst).length := by
    rw [List.length_map]
    exact (List.getElem?_eq_some_iff.mp hn).1
  apply (List.getElem?_inj hlt h.keys_nodup).mp
  rw [List.getElem?_map, List.getElem?_map, hn, hn', Option.map_some, Option.map_some, hkey]

/--
Interning a key only adds to the buffers, and the key has a buffer at the position that comes out.
-/
theorem intern_interned (h : d.Interned) (key : BufferKey) (decl : BufferDecl)
    (tile : Option Coord) :
    (d.intern key decl tile).2.Interned ∧
      (∀ (n : Nat) x, d.buffers[n]? = some x → (d.intern key decl tile).2.buffers[n]? = some x) ∧
      ∃ b, (d.intern key decl tile).2.buffers[(d.intern key decl tile).1]? = some (key, b) := by
  unfold intern
  split
  . next n hn =>
    obtain ⟨hlt, hkey, _⟩ := List.findIdx?_eq_some_iff_getElem.mp hn
    have hkey : d.buffers[n].1 = key := by simpa using hkey
    refine ⟨h, fun _ _ hx => hx, d.buffers[n].2, ?_⟩
    rw [List.getElem?_eq_getElem hlt, ← hkey]
  . next hnone =>
    rw [List.findIdx?_eq_none_iff] at hnone
    refine ⟨⟨?_, ?_⟩, ?_, ?_⟩
    . rw [List.map_append]
      apply nodup_push h.keys_nodup
      intro hk
      obtain ⟨x, hx, heq⟩ := List.mem_map.mp hk
      simpa [heq] using hnone x hx
    . intro x hx
      rcases List.mem_append.mp hx with hx | hx
      . exact h.symbol_eq x hx
      . rw [List.mem_singleton.mp hx]
    . intro n x hx
      have hlt := (List.getElem?_eq_some_iff.mp hx).1
      rw [← hx]
      exact List.getElem?_append_left hlt
    . exact ⟨_, List.getElem?_concat_length ..⟩

end Device

end TileTraffic
