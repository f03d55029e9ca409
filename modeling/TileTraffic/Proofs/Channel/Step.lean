import TileTraffic.Proofs.Channel.Pool

/-!
Running ops on channels, one at a time: serving an op on a given tile, opening an interface channel
for it, and joining an open channel are steps of a sound pool.
-/

namespace TileTraffic

namespace ChannelPool

/--
What running an op on a channel does to a pool: nothing where the channel serves the id of the op
already, and else the op enters the channel and takes a descriptor.
-/
inductive Step (t : Target) (occ : Occurrence) (key : ChannelKey) (partner : Option Coord)
    (p : ChannelPool) : ChannelPool → Prop where
  | served (h : p.Serves key occ.op.id) : Step t occ key partner p p
  | entered (h : p.hasRoom t key.tile = true) :
    Step t occ key partner p (p.enter occ key partner)

variable {g : Graph} {t : Target} {p p' : ChannelPool} {occ : Occurrence} {key : ChannelKey}
  {partner : Option Coord}

namespace Step

theorem sound (hstep : Step t occ key partner p p') (h : p.Sound g t)
    (hfits : Fits g t p.level occ key) : p'.Sound g t := by
  cases hstep with
  | served => exact h
  | entered hroom => exact sound_enter h hfits hroom

theorem grows (hstep : Step t occ key partner p p') : p.Grows p' (· = key) := by
  cases hstep with
  | served => exact Grows.refl
  | entered => exact grows_enter

theorem serves (hstep : Step t occ key partner p p') : p'.Serves key occ.op.id := by
  cases hstep with
  | served h => exact h
  | entered => exact serves_enter

theorem slots_eq (hstep : Step t occ key partner p p') : p'.slots = p.slots := by
  cases hstep with
  | served => rfl
  | entered => rfl

theorem total_le (hstep : Step t occ key partner p p') (h : p.keys.Nodup) :
    p'.total ≤ p.total + 1 := by
  cases hstep with
  | served => omega
  | entered =>
    unfold total
    rw [load_enter h]
    simp

end Step

/--
The op is in the list of the channel.
-/
def RunsOn (p : ChannelPool) (key : ChannelKey) (occ : Occurrence) : Prop :=
  ∃ a ∈ p.opened, a.key = key ∧ occ ∈ a.ops

theorem get?_of_mem (h : p.keys.Nodup) {a : Allocation} (ha : a ∈ p.opened) :
    p.get? a.key = some a := by
  have hsome : (p.get? a.key).isSome := by
    rw [get?_isSome_iff]
    exact List.mem_map_of_mem ha
  obtain ⟨b, hb⟩ := Option.isSome_iff_exists.mp hsome
  obtain ⟨hmem, hkey⟩ := mem_of_get?_eq_some hb
  rw [hb, eq_of_nodup_map h hmem ha hkey]

theorem runsOn_iff_any (h : p.Sound g t) (hocc : occ ∈ g.occurrences) :
    ((p.get? key).any fun a => a.ops.any fun o => o.ref = occ.ref) = true ↔ p.RunsOn key occ := by
  rw [Option.any_eq_true]
  constructor
  . intro ⟨a, hget, hany⟩
    rw [List.any_eq_true] at hany
    obtain ⟨o, ho, href⟩ := hany
    obtain ⟨hopened, rfl⟩ := mem_of_get?_eq_some hget
    have hmem := ((h.allocation a hopened).fits o ho).mem
    obtain rfl := Graph.eq_of_ref_eq hmem hocc (by simpa using href)
    exact ⟨a, hopened, rfl, ho⟩
  . intro ⟨a, hopened, hkey, hmem⟩
    subst hkey
    refine ⟨a, get?_of_mem h.keys_nodup hopened, ?_⟩
    rw [List.any_eq_true]
    exact ⟨occ, hmem, by simp⟩

theorem RunsOn.serves (hr : p.RunsOn key occ) (h : p.Sound g t) : p.Serves key occ.op.id := by
  obtain ⟨a, hopened, hkey, hmem⟩ := hr
  refine ⟨a, hopened, hkey, ?_⟩
  rw [(h.allocation a hopened).opIds_eq]
  exact List.mem_map_of_mem hmem

theorem runsOn_enter : (p.enter occ key partner).RunsOn key occ := by
  by_cases hmem : key ∈ p.keys
  . obtain ⟨a, ha, hkey⟩ := List.mem_map.mp hmem
    refine ⟨a.addAt key occ, ?_, by simp [hkey], ?_⟩
    . rw [opened_enter_of_mem hmem]
      exact List.mem_map_of_mem ha
    . unfold Allocation.addAt
      rw [if_pos hkey]
      simp [Allocation.add]
  . refine ⟨⟨key, p.level, partner, [occ.op.id], [occ]⟩, ?_, rfl, by simp⟩
    rw [opened_enter_of_not_mem hmem]
    simp

theorem commit_of_runsOn (h : p.Sound g t) (hocc : occ ∈ g.occurrences) (hr : p.RunsOn key occ) :
    commit t occ key partner p = .ok key p := by
  unfold commit
  rw [if_pos]
  rw [runsOn_iff_any h hocc]
  exact hr

theorem commit_runs (h : p.Sound g t) (hocc : occ ∈ g.occurrences) :
    Runs (commit t occ key partner) p fun k p' =>
      k = key ∧ Step t occ key partner p p' ∧ p'.RunsOn key occ := by
  unfold Runs commit
  by_cases hany : ((p.get? key).any fun a => a.ops.any fun o => o.ref = occ.ref) = true
  . rw [if_pos hany]
    rw [runsOn_iff_any h hocc] at hany
    exact ⟨rfl, .served (hany.serves h), hany⟩
  . rw [if_neg hany]
    by_cases hroom : p.hasRoom t key.tile = true
    . rw [if_pos hroom]
      exact ⟨rfl, .entered hroom, runsOn_enter⟩
    . rw [if_neg hroom]
      rfl

theorem join_runs (h : p.Sound g t) (hocc : occ ∈ g.occurrences) (hopen : key ∈ p.keys) :
    Runs (join t occ key) p fun k p' => k = key ∧ Step t occ key none p p' := by
  rw [← get?_isSome_iff] at hopen
  unfold Runs join
  rw [if_pos hopen]
  apply (commit_runs h hocc).mono
  intro k p' ⟨hk, hstep, _⟩
  exact ⟨hk, hstep⟩

theorem join_of_runsOn (h : p.Sound g t) (hocc : occ ∈ g.occurrences) (hr : p.RunsOn key occ) :
    join t occ key p = .ok key p := by
  have hopen : (p.get? key).isSome := by
    obtain ⟨a, ha, rfl, _⟩ := hr
    rw [get?_isSome_iff]
    exact List.mem_map_of_mem ha
  unfold join
  rw [if_pos hopen]
  exact commit_of_runsOn h hocc hr

theorem serve_runs (h : p.Sound g t) (hlevel : p.level ≠ .external) (hocc : occ ∈ g.occurrences)
    {tile : Coord} (hhosts : t.Hosts p.level tile) {d : Direction}
    (hd : occ.op.directionAt p.level = .ok d) (preferred : Option Nat) :
    Runs (serve t occ tile preferred) p fun k p' =>
      k.tile = tile ∧ k.direction = d ∧ Fits g t p.level occ k ∧ Step t occ k none p p' := by
  have hopened : ∀ a ∈ p.opened, a.key.tile = tile → a.key.direction = d →
      Fits g t p.level occ a.key := by
    intro a ha htile hdir
    have hkey := (h.allocation a ha).key_fits
    exact ⟨hocc, by rw [hdir]; exact hd, hkey.1, hkey.2⟩
  unfold Runs serve
  rw [if_neg hlevel, hd]
  dsimp only
  -- the op id may be served already, or the preferred channel be open; otherwise one comes in turn
  cases hserving : p.serving? tile d occ.op.id with
  | some a =>
    obtain ⟨hmem, htile, hdir, hid⟩ := serving?_eq_some hserving
    exact ⟨htile, hdir, hopened a hmem htile hdir, .served ⟨a, hmem, rfl, hid⟩⟩
  | none =>
    dsimp only
    cases hpref : preferred.bind fun id => p.get? ⟨tile, d, id⟩ with
    | some a =>
      obtain ⟨id, _, hget⟩ := Option.bind_eq_some_iff.mp hpref
      obtain ⟨hmem, hkey⟩ := mem_of_get?_eq_some hget
      have htile : a.key.tile = tile := by rw [hkey]
      have hdir : a.key.direction = d := by rw [hkey]
      apply (commit_runs h hocc).mono
      intro k p' ⟨hk, hstep, _⟩
      subst hk
      exact ⟨htile, hdir, hopened a hmem htile hdir, hstep⟩
    | none =>
      dsimp only
      by_cases hzero : t.channelsOfRow tile.row = 0
      . rw [if_pos hzero]
        rfl
      . rw [if_neg hzero]
        have hpos : 0 < t.channelsOfRow tile.row := by omega
        have hrem := remainder_yields (n := (p.onTile tile d).length) hpos
        cases hr : remainder (p.onTile tile d).length (t.channelsOfRow tile.row) with
        | error e =>
          apply hrem.of_eq_error hr
        | ok id =>
          have hid := hrem.of_eq_ok hr
          apply (commit_runs h hocc).mono
          intro k p' ⟨hk, hstep, _⟩
          subst hk
          -- the turn is a remainder, so the channel is one that the tile has
          refine ⟨rfl, rfl, ⟨hocc, hd, ?_, hhosts⟩, hstep⟩
          rw [hid]
          exact Nat.mod_lt _ hpos

theorem sound_slots {s : InterfaceSlots} (h : p.Sound g t) (hs : s.Sound t) :
    { p with slots := s }.Sound g t :=
  ⟨hs, h.keys_nodup, h.allocation, h.used_eq, h.used_le⟩

theorem openInterface_runs (h : p.Sound g t) (hlevel : p.level = .external)
    (hocc : occ ∈ g.occurrences) {d : Direction} (hd : occ.op.directionAt p.level = .ok d)
    (facing : Coord) :
    Runs (openInterface t occ facing) p fun k p' =>
      k.direction = d ∧ p.slots.peek t d = .ok (k.tile, k.id) ∧ Fits g t p.level occ k ∧
        Step t occ k (some facing) { p with slots := p.slots.advance t d } p' ∧
        p'.RunsOn k occ := by
  unfold Runs openInterface
  rw [hd]
  dsimp only
  rw [if_neg (by simp [hlevel])]
  have hpeek := InterfaceSlots.peek_yields h.slots_sound d
  cases hslot : p.slots.peek t d with
  | error e => exact hpeek.of_eq_error hslot
  | ok slot =>
    obtain ⟨tile, id⟩ := slot
    obtain ⟨hid, hhosts⟩ := hpeek.of_eq_ok hslot
    dsimp only
    by_cases hroom : p.hasRoom t tile = true
    . rw [if_pos hroom]
      have hs := sound_slots h (h.slots_sound.advance d)
      apply (commit_runs hs hocc).mono
      intro k p' ⟨hk, hstep⟩
      subst hk
      exact ⟨rfl, rfl, ⟨hocc, hd, hid, by rw [hlevel]; exact hhosts⟩, hstep⟩
    . rw [if_neg hroom]
      rfl

end ChannelPool

end TileTraffic
