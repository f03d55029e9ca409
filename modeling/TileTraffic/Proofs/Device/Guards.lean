import TileTraffic.Compile
import TileTraffic.Proofs.Channel.Pool
import TileTraffic.Proofs.Device.Locks

/-!
Setting up tiles, buffers and locks. A device stays sound, what it has stays, and after all ops have
been guarded every one of them has a buffer and a lock pair on its channel.
-/

namespace TileTraffic

namespace Device

variable {d d' : Device} {c : Coord}

theorem findIdx?_lt {α : Type} {as : List α} {p : α → Bool} {n : Nat}
    (h : as.findIdx? p = some n) : n < as.length :=
  (List.findIdx?_eq_some_iff_getElem.mp h).1

/--
Interning a buffer only adds to a device, and the buffer is there afterwards.
-/
theorem intern_spec (h : d.Sound) (key : BufferKey) (decl : BufferDecl) (tile : Option Coord) :
    (d.intern key decl tile).2.Sound ∧ d.Extends (d.intern key decl tile).2 ∧
      ((d.intern key decl tile).2.buffer? (d.intern key decl tile).1).isSome := by
  unfold intern
  split
  . next n hn =>
    refine ⟨h, .refl, ?_⟩
    unfold buffer?
    rw [List.getElem?_eq_getElem (findIdx?_lt hn)]
    rfl
  . refine ⟨h.of_pairs h.paired, ⟨rfl, rfl, List.prefix_refl _, List.prefix_refl _,
      List.prefix_append _ _, List.prefix_refl _⟩, ?_⟩
    unfold buffer?
    simp

theorem bindBuffer_yields {g : Graph} {a : Allocation} {occ : Occurrence} (h : d.Sound)
    (hside : ∃ direction, occ.op.directionAt a.level = .ok direction) :
    Yields (d.bindBuffer g a occ) fun r =>
      r.2.Sound ∧ d.Extends r.2 ∧ (r.2.buffer? r.1).isSome := by
  obtain ⟨direction, hd⟩ := hside
  obtain ⟨access, _, haccess, _⟩ := Op.accessAt?_of_directionAt hd
  unfold bindBuffer
  rw [haccess]
  dsimp only
  split
  . rfl
  . next decl _ => exact intern_spec h _ decl _

/--
Work that has been done: every op of `work` has a buffer and locks on its channel, and all channels
are on the grid.
-/
structure Guarded (d : Device) (bindings : Bindings) (work : List (Allocation × Occurrence)) :
    Prop where
  sound : d.Sound
  valid : ∀ key ref n, bindings.lookup (key, ref) = some n →
    (d.buffer? n).isSome ∧ (d.pair? n key).isSome
  bound : ∀ w ∈ work, (bindings.lookup (w.1.key, w.2.ref)).isSome
  contained : ∀ w ∈ work, w.1.key.tile ∈ d.coords

theorem isSome_of_imp {α : Type} {x y : Option α} (h : ∀ a, x = some a → y = some a)
    (hx : x.isSome) : y.isSome := by
  obtain ⟨a, ha⟩ := Option.isSome_iff_exists.mp hx
  rw [h a ha]
  rfl

theorem Guarded.push {bindings : Bindings} {work : List (Allocation × Occurrence)}
    (h : d.Guarded bindings work) (hd' : d'.Sound) (hext : d.Extends d') {a : Allocation}
    {occ : Occurrence} {buffer : Nat} (hbuffer : (d'.buffer? buffer).isSome)
    (hpair : (d'.pair? buffer a.key).isSome) (htile : a.key.tile ∈ d'.coords) :
    d'.Guarded (((a.key, occ.ref), buffer) :: bindings) (work ++ [(a, occ)]) where
  sound := hd'
  valid := by
    intro key ref n hn
    rw [List.lookup_cons] at hn
    split at hn
    . next heq =>
      obtain ⟨rfl, rfl⟩ : key = a.key ∧ ref = occ.ref := by simpa using heq
      obtain rfl := Option.some.inj hn
      exact ⟨hbuffer, hpair⟩
    . -- an older entry: what it refers to is still there
      obtain ⟨hb, hp⟩ := h.valid key ref n hn
      exact ⟨isSome_of_imp (fun _ => hext.buffer?) hb, isSome_of_imp (fun _ => hext.pair?) hp⟩
  bound := by
    intro w hw
    rw [List.lookup_cons]
    split
    . rfl
    . next hne =>
      rcases List.mem_append.mp hw with hw | hw
      . exact h.bound w hw
      . rw [List.mem_singleton.mp hw] at hne
        simp at hne
  contained := by
    intro w hw
    rcases List.mem_append.mp hw with hw | hw
    . exact hext.coords.subset (h.contained w hw)
    . rw [List.mem_singleton.mp hw]
      exact htile

theorem guardOp_yields {g : Graph} {bindings : Bindings} {work : List (Allocation × Occurrence)}
    (h : d.Guarded bindings work) {a : Allocation} {occ : Occurrence}
    (hside : ∃ direction, occ.op.directionAt a.level = .ok direction) :
    Yields (guardOp g (d, bindings) (a, occ)) fun s =>
      s.1.Guarded s.2 (work ++ [(a, occ)]) ∧ d.Extends s.1 := by
  unfold guardOp
  apply ((tile_keeps h.sound a.key.tile).runs.attempt occ.op).bind
  intro ⟨_, d₁⟩ ⟨h₁, hext₁, hindex⟩
  apply (bindBuffer_yields h₁ hside).bind
  intro ⟨buffer, d₂⟩ ⟨h₂, hext₂, hbuffer⟩
  apply ((lockPair_keeps h₂ buffer a.key none).runs.attempt occ.op).bind
  intro ⟨_, d₃⟩ ⟨h₃, hext₃, hpair⟩
  have hext := (hext₁.trans hext₂).trans hext₃
  apply Yields.pure
  refine ⟨h.push h₃ hext ?_ hpair ?_, hext⟩
  . exact isSome_of_imp (fun _ => hext₃.buffer?) hbuffer
  . apply (hext₂.trans hext₃).coords.subset
    exact h₁.mem_coords hindex

/--
The ops of all channels, channel by channel.
-/
def workOf (as : List Allocation) : List (Allocation × Occurrence) :=
  as.flatMap fun a => a.ops.map fun occ => (a, occ)

theorem mem_workOf {as : List Allocation} {a : Allocation} {occ : Occurrence} :
    (a, occ) ∈ workOf as ↔ a ∈ as ∧ occ ∈ a.ops := by
  unfold workOf
  simp

theorem guardAll_yields {g : Graph} {as : List Allocation} (h : d.Sound)
    (hsides : ∀ a ∈ as, ∀ occ ∈ a.ops, ∃ direction, occ.op.directionAt a.level = .ok direction) :
    Yields (d.guardAll g as) fun s => s.1.Guarded s.2 (workOf as) ∧ d.Extends s.1 := by
  show Yields ((workOf as).foldlM (guardOp g) (d, [])) _
  apply Yields.foldlM fun done (s : Device × Bindings) => s.1.Guarded s.2 done ∧ d.Extends s.1
  . exact ⟨⟨h, by simp, by simp, by simp⟩, .refl⟩
  . intro done ⟨a, occ⟩ hw ⟨d₁, bindings⟩ ⟨hguarded, hext⟩
    obtain ⟨ha, hocc⟩ := mem_workOf.mp hw
    apply (guardOp_yields hguarded (hsides a ha occ hocc)).mono
    intro s ⟨hs, hext'⟩
    exact ⟨hs, hext.trans hext'⟩

end Device

end TileTraffic
