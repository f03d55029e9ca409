import TileTraffic.Proofs.Channel.Failure
import TileTraffic.Proofs.Compile
import TileTraffic.Proofs.Descriptor.Failure
import TileTraffic.Proofs.Program.SideTable

/-!
Failures of a compilation. Once a graph is partitioned, whatever is wrong with an op is reported
against the op itself, with its id and its location. Placing the shared buffers is no op's business,
and neither is folding the host program.
-/

namespace TileTraffic

open CompileError

variable {g : Graph} {t : Target}

namespace CompileError

/--
There is no tile for a shared buffer of the graph, or no room for it on any of them.
-/
def Unplaced (g : Graph) (e : CompileError) : Prop :=
  ∃ b ∈ g.buffers, b.level = .shared ∧
    (e = .capacity (.sharedTiles b.name) ∨
      ∃ bytes, b.bytes? = some bytes ∧ e = .capacity (.sharedMemory b.name bytes))

end CompileError

/-! ### Placement -/

namespace SharedMemory

variable {buffer : String} {bytes : Nat} {m : SharedMemory} {E : CompileError → Prop}

theorem search_raises (hgen : ∀ m, E (.codeGen m))
    (hroom : E (.capacity (.sharedMemory buffer bytes))) (left : Nat) :
    Raises (place.search buffer bytes left) m E := by
  induction left generalizing m with
  | zero => exact hroom
  | succ left ih =>
    unfold place.search
    apply Raises.bind (x := get)
    . trivial
    . intro m' m₁
      apply (Raises.ofExcept (elementAt_fails _ _ hgen)).bind
      intro bin m₂
      have hnext : Fails m'.next E := remainder_fails _ _ hgen
      apply (Raises.ofExcept hnext).bind
      intro next m₃
      split
      . apply Raises.bind (x := set _)
        . trivial
        . intro _ m₄
          exact ih
      . apply Raises.bind (x := set _)
        . trivial
        . intro _ m₄
          trivial

theorem place_raises (hgen : ∀ m, E (.codeGen m)) (htiles : E (.capacity (.sharedTiles buffer)))
    (hroom : E (.capacity (.sharedMemory buffer bytes))) : Raises (place buffer bytes) m E := by
  show Refused (place buffer bytes m) E
  unfold place
  split
  . exact htiles
  . exact search_raises hgen hroom _

end SharedMemory

namespace Graph

theorem bytes?_of_validate (h : g.validate = .ok ()) {b : BufferDecl} (hb : b ∈ g.buffers) :
    ∃ bytes, b.bytes? = some bytes := by
  have hbytes := (validate_eq_ok_iff.mp h).bytes b hb
  exact Option.isSome_iff_exists.mp (BufferDecl.isSome_bytes?_iff.mpr hbytes)

end Graph

/--
A valid graph has no buffer too large to be counted, so that placement fails for want of room only.
-/
theorem Device.placeShared_fails (hvalid : g.validate = .ok ()) (d : Device) :
    Fails (d.placeShared g) fun e => (∃ m, e = .codeGen m) ∨ e.Unplaced g := by
  unfold placeShared
  dsimp only
  apply Fails.bind
  . apply Fails.foldlM
    intro s b hb
    obtain ⟨hb, hused⟩ := List.mem_filter.mp hb
    have hlevel : b.level = .shared := by
      simp only [decide_eq_true_eq] at hused
      exact hused.1
    obtain ⟨bytes, hbytes⟩ := Graph.bytes?_of_validate hvalid hb
    unfold placeShared.place
    rw [hbytes]
    dsimp only
    have hplace : Raises (SharedMemory.place b.name bytes) s.2 fun e =>
        (∃ m, e = .codeGen m) ∨ e.Unplaced g :=
      SharedMemory.place_raises (fun m => .inl ⟨m, rfl⟩) (.inr ⟨b, hb, hlevel, .inl rfl⟩)
        (.inr ⟨b, hb, hlevel, .inr ⟨bytes, hbytes, rfl⟩⟩)
    unfold Raises Refused at hplace
    split
    . trivial
    . next e _ he =>
      rw [he] at hplace
      exact hplace
  . intro _ _
    trivial

/-! ### The remaining stages -/

theorem Bundle.connect_fails {b : Bundle} (hb : b.OpsIn g) (table : FlowTable) :
    Fails (Bundle.connect table b) (Sited g) := by
  have hassigned : ∀ key, Fails (Bundle.connect.assigned b key) (Sited g) := by
    intro key
    unfold Bundle.connect.assigned
    split
    . trivial
    . apply sited_codeGen
  unfold Bundle.connect
  apply (hassigned _).bind
  intro source _
  apply Fails.foldlM
  intro table e _
  apply (hassigned _).bind
  intro dest _
  apply (elementAt_fails _ _ sited_codeGen).bind
  intro first hfirst
  have hmem := List.mem_of_getElem? (elementAt_eq_ok hfirst)
  apply Fails.bind
  . apply Raises.attempt _ (Graph.mem_occurrences (hb.producer first hmem))
    show Refused (FlowTable.connect source dest table) _
    unfold FlowTable.connect
    split
    . apply concerns_codeGen
    . split
      . apply concerns_path
      . split
        . trivial
        . trivial
  . intro _ _
    trivial

namespace Graph

theorem control?_fails (g : Graph) (t : Target) :
    Fails (g.control? t) fun e => ∃ what, e = .incompleteFold what := by
  have hofHost : ∀ host outer inner, Fails (Control.ofHost? host outer inner) fun e =>
      ∃ what, e = .incompleteFold what := by
    intro host outer inner
    have hfolds := Control.ofHost?_folds host outer inner
    unfold Folds at hfolds
    unfold Fails
    split
    . trivial
    . next e he =>
      rw [he] at hfolds
      exact hfolds
  unfold control?
  split
  . split
    . apply hofHost
    . apply hofHost
  . trivial

/--
After partitioning, every stage but two reports its failures against ops.
-/
theorem compile_fails {bs : List Bundle} (hpartition : g.partition t = .ok bs) :
    Fails (g.compile t) fun e =>
      ((Device.empty t t.lockPolicy).placeShared g = .error e ∧
        ((∃ m, e = .codeGen m) ∨ e.Unplaced g)) ∨
      e.Sited g ∨ ∃ what, e = .incompleteFold what := by
  have hbs := (partition_yields g t).of_eq_ok hpartition
  have hvalid := validate_of_partition hpartition
  unfold compile
  rw [hpartition]
  apply Fails.bind (x := .ok bs)
  . trivial
  intro _ heq
  obtain rfl := Except.ok.inj heq
  apply ((Device.placeShared_fails hvalid _).with_eq.mono fun _ h => .inl h).bind
  intro d hplaced
  obtain ⟨htarget, hhomes, _⟩ := (placeShared_fresh_yields hbs.resolves).of_eq_ok hplaced
  -- from here on there is always an op to report against
  apply ((Assignment.ofBundles_fails fun b hb => (hbs.sound b hb).opsIn).mono
    fun _ h => .inr (.inl h)).bind
  intro a hassigned
  have hcomplete := (ofBundles_complete htarget hhomes hbs).of_eq_ok hassigned
  have hops : ∀ x ∈ a.allocations, ∀ occ ∈ x.ops, occ.op ∈ g.ops := by
    intro x hx occ hocc
    obtain ⟨level, hopened⟩ := Assignment.mem_allocations_iff.mp hx
    exact mem_occurrences ((hcomplete.allocation hopened).fits occ hocc).mem
  apply Fails.bind
  . apply Fails.mono _ fun _ h => .inr (.inl h)
    exact Fails.foldlM fun table b hb =>
      Bundle.connect_fails (hcomplete.bundle_sound hbs.sound hb).opsIn table
  intro table _
  dsimp only
  apply ((Device.guardAll_fails hbs.resolves hops).mono fun _ h => .inr (.inl h)).bind
  intro ⟨d', bindings⟩ _
  apply ((Device.synthesize_fails hcomplete.keys_nodup hops).mono fun _ h => .inr (.inl h)).bind
  intro tiles _
  apply (Device.corePrograms_fails.mono fun _ h => .inr (.inl h)).bind
  intro cores _
  apply ((control?_fails g t).mono fun _ h => .inr (.inr h)).bind
  intro control _
  trivial

/--
If a graph is partitioned but not compiled, then some shared buffer could not be placed, or the host
program could not be folded, or the error gives the id and the location of an op of the graph.
-/
theorem compile_failure_sited {bs : List Bundle} (hpartition : g.partition t = .ok bs)
    {e : CompileError} (h : g.compile t = .error e) :
    ((Device.empty t t.lockPolicy).placeShared g = .error e ∧ e.Unplaced g) ∨
      (∃ op ∈ g.ops, e.site? = some op.site) ∨ ∃ what, e = .incompleteFold what := by
  obtain ⟨hgen, _⟩ := compile_never_internal h
  have hnot : ¬ ∃ m, e = .codeGen m := fun ⟨m, hm⟩ => hgen m hm
  rcases (compile_fails hpartition).of_eq_error h with ⟨hplacing, hm | hunplaced⟩ | hm | hfold
  . exact absurd hm hnot
  . exact .inl ⟨hplacing, hunplaced⟩
  . exact .inr (.inl (hm.resolve_left hnot))
  . exact .inr (.inr hfold)

/--
Two loads, the second of them into a cell that the region does not have.
-/
def stray : Graph where
  scope := "stray"
  buffers := [⟨"far", .external, [16], 4⟩, ⟨"near", .tileLocal, [16], 4⟩]
  channels := []
  regions := [⟨"pair", 0, 2, 2, 1⟩]
  ops := [load 1 [0, 0] "pair.0", load 2 [2, 0] "pair.2"]
  host := none
where
  load (id : Nat) (cell : List Nat) (location : String) : Op :=
    ⟨id, .copy (.whole "far" .external) (.whole "near" .tileLocal), some "pair", some cell, [], [],
      some location⟩

theorem compile_stray_sited : ∃ bs e, stray.partition (.gen2 4 6) = .ok bs ∧
    stray.compile (.gen2 4 6) = .error e ∧ e.site? = some ⟨some 2, some "pair.2"⟩ ∧
    (((Device.empty (.gen2 4 6) .counting).placeShared stray = .error e ∧ e.Unplaced stray) ∨
      (∃ op ∈ stray.ops, e.site? = some op.site) ∨ ∃ what, e = .incompleteFold what) := by
  obtain ⟨bs, hpartition⟩ : ∃ bs, stray.partition (.gen2 4 6) = .ok bs :=
    exists_of_isOk (by decide +kernel)
  obtain ⟨e, h, hsite⟩ : ∃ e, stray.compile (.gen2 4 6) = .error e ∧
      e.site? = some ⟨some 2, some "pair.2"⟩ :=
    exists_error_of_decide (by decide +kernel)
  exact ⟨bs, e, hpartition, h, hsite, compile_failure_sited hpartition h⟩

end Graph

end TileTraffic
