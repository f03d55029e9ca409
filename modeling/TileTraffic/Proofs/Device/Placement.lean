import TileTraffic.Compile
import TileTraffic.Proofs.Channel.Pool

/-!
Placement of shared buffers: every buffer that some op accesses in shared memory gets a home, and
all homes are shared memory tiles.
-/

namespace TileTraffic

namespace SharedMemory

variable {t : Target} {m : SharedMemory} {buffer : String} {bytes : Nat}

/--
All tiles are shared memory tiles, and the cursor is on one of them.
-/
structure Sound (t : Target) (m : SharedMemory) : Prop where
  hosts : ∀ bin ∈ m.bins, t.Hosts .shared bin.tile
  cursor_lt : m.bins ≠ [] → m.cursor < m.bins.length

theorem sound_ofTarget (t : Target) : (ofTarget t).Sound t where
  hosts := by
    intro bin hbin
    obtain ⟨tile, htile, rfl⟩ := List.mem_map.mp hbin
    obtain ⟨r, hr, htile⟩ := List.mem_flatMap.mp htile
    obtain ⟨c, _, rfl⟩ := List.mem_map.mp htile
    have hrow : r + 1 ≤ t.sharedRows := by
      have := List.mem_range.mp hr
      omega
    simp [Target.Hosts, Target.roleOfRow, hrow]
  cursor_lt := by
    intro hne
    exact List.length_pos_iff.mpr hne

theorem next_yields (hne : m.bins ≠ []) :
    Yields m.next fun n => n < m.bins.length := by
  have hpos := List.length_pos_iff.mpr hne
  apply (remainder_yields hpos).mono
  intro n hn
  rw [hn]
  exact Nat.mod_lt _ hpos

theorem search_runs (left : Nat) (h : m.Sound t) (hne : m.bins ≠ []) :
    Runs (place.search buffer bytes left) m fun tile m' =>
      t.Hosts .shared tile ∧ m'.Sound t := by
  induction left generalizing m with
  | zero =>
    apply Runs.throw
    rfl
  | succ left ih =>
    unfold place.search
    apply Runs.bind (P := fun m' s => m = m' ∧ m = s)
    . exact Runs.get ⟨rfl, rfl⟩
    rintro _ _ ⟨rfl, rfl⟩
    have hlt := h.cursor_lt hne
    apply Runs.bind (P := fun bin s => m.bins[m.cursor] = bin ∧ m = s)
    . apply Runs.ofExcept
      apply (elementAt_yields (List.getElem?_eq_getElem hlt)).mono
      intro bin hbin
      exact ⟨hbin.symm, rfl⟩
    rintro _ _ ⟨rfl, rfl⟩
    apply Runs.bind (P := fun n s => n < m.bins.length ∧ m = s)
    . apply Runs.ofExcept
      apply (next_yields hne).mono
      intro n hn
      exact ⟨hn, rfl⟩
    rintro n _ ⟨hn, rfl⟩
    split
    . -- not enough room in this bin: the search goes on with the next one
      apply Runs.bind (P := fun _ s => { m with cursor := n } = s)
      . exact Runs.set rfl
      rintro _ _ rfl
      exact ih ⟨h.hosts, fun _ => hn⟩ hne
    . have hsound : Sound t
          ⟨m.bins.set m.cursor ⟨m.bins[m.cursor].tile, m.bins[m.cursor].free - bytes⟩, n⟩ := by
        constructor
        . intro bin hbin
          rcases List.mem_or_eq_of_mem_set hbin with hbin | rfl
          . exact h.hosts bin hbin
          . exact h.hosts m.bins[m.cursor] (List.getElem_mem hlt)
        . intro _
          rw [List.length_set]
          exact hn
      apply Runs.bind (P := fun _ s => s.Sound t)
      . apply Runs.set
        exact hsound
      intro _ s hs
      apply Runs.pure
      exact ⟨h.hosts _ (List.getElem_mem hlt), hs⟩

theorem place_runs (buffer : String) (bytes : Nat) (h : m.Sound t) :
    Runs (place buffer bytes) m fun tile m' => t.Hosts .shared tile ∧ m'.Sound t := by
  unfold Runs place
  by_cases hempty : m.bins.isEmpty = true
  . rw [if_pos hempty]
    rfl
  . rw [if_neg hempty]
    -- how many bins are tried does not matter here
    apply search_runs m.bins.length h
    simpa using hempty

end SharedMemory

namespace Device

variable {g : Graph} {d d' : Device}

/--
The shared buffer has a home.
-/
def HasHome (d : Device) (buffer : String) : Prop :=
  ∃ tile, d.home? buffer = some tile ∧ d.target.Hosts .shared tile

/--
Nothing but homes is added to a device.
-/
def OnlyHomes (d d' : Device) : Prop :=
  d' = { d with homes := d'.homes }

theorem OnlyHomes.buffers_eq {d d' : Device} (h : d.OnlyHomes d') : d'.buffers = d.buffers := by
  unfold OnlyHomes at h
  rw [h]

theorem hasHome_setHome {buffer : String} {tile : Coord} (htile : d.target.Hosts .shared tile)
    {name : String} (h : name = buffer ∨ d.HasHome name) :
    (d.setHome buffer tile).HasHome name := by
  by_cases heq : name = buffer
  . refine ⟨tile, ?_, htile⟩
    unfold home? setHome
    subst heq
    exact List.lookup_cons_self
  . obtain ⟨tile', hhome, hhosts⟩ := h.resolve_left heq
    refine ⟨tile', ?_, hhosts⟩
    unfold home? setHome
    have hne : (name == buffer) = false := by simp [heq]
    rw [List.lookup_cons, hne]
    exact hhome

theorem place_yields {d : Device} {m : SharedMemory} (hm : m.Sound d.target) (b : BufferDecl) :
    Yields (placeShared.place (d, m) b) fun s =>
      ∃ tile, s.1 = d.setHome b.name tile ∧ d.target.Hosts .shared tile ∧
        s.2.Sound d.target := by
  unfold placeShared.place
  split
  . rfl
  . next bytes _ =>
    have hplace := SharedMemory.place_runs b.name bytes hm
    unfold Runs at hplace
    dsimp only
    cases hrun : SharedMemory.place b.name bytes m with
    | ok tile m' =>
      rw [hrun] at hplace
      exact ⟨tile, rfl, hplace.1, hplace.2⟩
    | error e m' =>
      rw [hrun] at hplace
      exact hplace

theorem placeAll_yields (bs : List BufferDecl) (d : Device) :
    Yields (bs.foldlM placeShared.place (d, SharedMemory.ofTarget d.target)) fun s =>
      d.OnlyHomes s.1 ∧ ∀ b ∈ bs, s.1.HasHome b.name := by
  apply Yields.mono
  . apply Yields.foldlM fun done s =>
      s.2.Sound d.target ∧ d.OnlyHomes s.1 ∧ ∀ b ∈ done, s.1.HasHome b.name
    . exact ⟨SharedMemory.sound_ofTarget d.target, rfl, by simp⟩
    . intro done b _ ⟨d', m⟩ ⟨hm, honly, hhomes⟩
      dsimp only at hm honly hhomes
      have htarget : d'.target = d.target := by
        rw [honly]
      rw [← htarget] at hm
      apply (place_yields hm b).mono
      intro s ⟨tile, hs, hhosts, hm'⟩
      rw [hs]
      refine ⟨htarget ▸ hm', ?_, ?_⟩
      . unfold OnlyHomes at honly ⊢
        rw [honly]
        rfl
      . intro c hc
        apply hasHome_setHome hhosts
        rcases List.mem_append.mp hc with hc | hc
        . exact .inr (hhomes c hc)
        . exact .inl (by rw [List.mem_singleton.mp hc])
  . intro s ⟨_, honly, hhomes⟩
    exact ⟨honly, hhomes⟩

/--
In a graph whose references resolve, all buffers that are accessed in shared memory get homes.
-/
theorem placeShared_yields (hg : g.Resolves) (d : Device) :
    Yields (d.placeShared g) fun d' => d.OnlyHomes d' ∧
      ∀ op ∈ g.ops, ∀ a, op.accessAt? .shared = some a → d'.HasHome a.buffer := by
  unfold placeShared
  apply (placeAll_yields _ d).bind
  intro ⟨d', m⟩ ⟨honly, hhomes⟩
  apply Yields.pure
  refine ⟨honly, ?_⟩
  intro op hop a ha
  have hlevel : a.level = .shared := by simpa using List.find?_some ha
  obtain ⟨b, hb, hblevel⟩ := hg op hop a (List.mem_of_find?_eq_some ha)
  have hname : b.name = a.buffer := by simpa using List.find?_some hb
  rw [← hname]
  apply hhomes
  rw [List.mem_filter]
  refine ⟨List.mem_of_find?_eq_some hb, ?_⟩
  simp only [decide_eq_true_eq]
  refine ⟨hblevel.trans hlevel, ?_⟩
  rw [List.mem_filterMap]
  exact ⟨op, hop, by simp [ha, hname]⟩

end Device

end TileTraffic
