import TileTraffic.Proofs.Channel.Calls

/-!
Tiles are served on their own. All tiles share one list of channels and one count of descriptors,
but what is served on a tile depends on the channels and the descriptors of that tile only, and
serving other tiles leaves these alone.
-/

namespace TileTraffic

namespace ChannelPool

variable {g : Graph} {t : Target} {p q p' : ChannelPool} {occ : Occurrence} {key : ChannelKey}
  {partner : Option Coord} {tile : Coord} {preferred : Option Nat} {d : Direction}
  {e : CompileError}

/--
What a pool has to do with one tile.
-/
structure TileView where
  level : Level
  /-- The channels of the tile in each direction, in the order of opening. -/
  channels : Direction → List Allocation
  used : Nat

def view (p : ChannelPool) (tile : Coord) : TileView :=
  ⟨p.level, p.onTile tile, p.used tile⟩

theorem level_eq_of_view (h : p.view tile = q.view tile) : p.level = q.level :=
  congrArg TileView.level h

theorem onTile_eq_of_view (h : p.view tile = q.view tile) (d : Direction) :
    p.onTile tile d = q.onTile tile d :=
  congrFun (congrArg TileView.channels h) d

theorem used_eq_of_view (h : p.view tile = q.view tile) : p.used tile = q.used tile :=
  congrArg TileView.used h

theorem hasRoom_eq_of_view (h : p.view tile = q.view tile) :
    p.hasRoom t tile = q.hasRoom t tile := by
  unfold hasRoom
  rw [used_eq_of_view h]

/--
A channel is looked up among those of its tile.
-/
theorem get?_eq_find?_onTile (p : ChannelPool) (key : ChannelKey) :
    p.get? key = (p.onTile key.tile key.direction).find? fun a => a.key = key := by
  unfold get? onTile
  rw [List.find?_filter]
  congr 1
  funext a
  by_cases hkey : a.key = key
  . simp [hkey]
  . simp [hkey]

theorem get?_eq_of_view (h : p.view key.tile = q.view key.tile) : p.get? key = q.get? key := by
  rw [get?_eq_find?_onTile, get?_eq_find?_onTile, onTile_eq_of_view h]

theorem serving?_eq_of_view (h : p.view tile = q.view tile) (d : Direction) (id : Nat) :
    p.serving? tile d id = q.serving? tile d id := by
  unfold serving?
  rw [onTile_eq_of_view h]

/-! ### Entering a channel -/

theorem onTile_enter_of_mem (h : key ∈ p.keys) (tile : Coord) (d : Direction) :
    (p.enter occ key partner).onTile tile d = (p.onTile tile d).map (Allocation.addAt key occ) := by
  have hsame : ((fun a : Allocation => decide (a.key.tile = tile ∧ a.key.direction = d)) ∘
      Allocation.addAt key occ) = fun a => decide (a.key.tile = tile ∧ a.key.direction = d) := by
    funext a
    simp
  unfold onTile
  rw [opened_enter_of_mem h, List.filter_map, hsame]

theorem onTile_enter_of_not_mem (h : key ∉ p.keys) (tile : Coord) (d : Direction) :
    (p.enter occ key partner).onTile tile d = p.onTile tile d ++
      if key.tile = tile ∧ key.direction = d then
        [⟨key, p.level, partner, [occ.op.id], [occ]⟩]
      else [] := by
  unfold onTile
  rw [opened_enter_of_not_mem h, List.filter_append]
  congr 1
  split
  . next hplace => simp [hplace]
  . next hplace => simpa using hplace

theorem onTile_enter_of_ne (h : ¬ (key.tile = tile ∧ key.direction = d)) :
    (p.enter occ key partner).onTile tile d = p.onTile tile d := by
  by_cases hmem : key ∈ p.keys
  . rw [onTile_enter_of_mem hmem, Allocation.map_addAt_of_not_mem]
    intro hkey
    obtain ⟨a, ha, rfl⟩ := List.mem_map.mp hkey
    exact h (of_decide_eq_true (List.mem_filter.mp ha).2)
  . rw [onTile_enter_of_not_mem hmem, if_neg h, List.append_nil]

theorem view_enter_of_ne (h : key.tile ≠ tile) :
    (p.enter occ key partner).view tile = p.view tile := by
  have hchannels : (p.enter occ key partner).onTile tile = p.onTile tile := by
    funext d
    exact onTile_enter_of_ne fun hplace => h hplace.1
  unfold view
  rw [hchannels, used_enter, if_neg h]
  rfl

theorem view_enter (h : p.view key.tile = q.view key.tile) :
    (p.enter occ key partner).view key.tile = (q.enter occ key partner).view key.tile := by
  have hchannels : (p.enter occ key partner).onTile key.tile =
      (q.enter occ key partner).onTile key.tile := by
    funext d
    have hmem : key ∈ p.keys ↔ key ∈ q.keys := by
      rw [← get?_isSome_iff, ← get?_isSome_iff, get?_eq_of_view h]
    by_cases hp : key ∈ p.keys
    . rw [onTile_enter_of_mem hp, onTile_enter_of_mem (hmem.mp hp), onTile_eq_of_view h]
    . rw [onTile_enter_of_not_mem hp, onTile_enter_of_not_mem (mt hmem.mpr hp),
        onTile_eq_of_view h, level_eq_of_view h]
  unfold view
  rw [hchannels, used_enter, used_enter, used_eq_of_view h]
  show TileView.mk p.level _ _ = TileView.mk q.level _ _
  rw [level_eq_of_view h]

/-! ### Serving on a tile -/

/--
The results are the same as far as one tile goes.
-/
def Alike (tile : Coord) : EStateM.Result CompileError ChannelPool ChannelKey →
    EStateM.Result CompileError ChannelPool ChannelKey → Prop
  | .ok k p, .ok k' q => k = k' ∧ p.view tile = q.view tile
  | .error e p, .error e' q => e = e' ∧ p.view tile = q.view tile
  | _, _ => False

theorem commit_alike (h : p.view key.tile = q.view key.tile) (occ : Occurrence)
    (partner : Option Coord) :
    Alike key.tile (commit t occ key partner p) (commit t occ key partner q) := by
  unfold commit
  rw [get?_eq_of_view h, hasRoom_eq_of_view h]
  split
  . exact ⟨rfl, h⟩
  . split
    . exact ⟨rfl, view_enter h⟩
    . exact ⟨rfl, h⟩

theorem serve_alike (h : p.view tile = q.view tile) (occ : Occurrence) (preferred : Option Nat) :
    Alike tile (serve t occ tile preferred p) (serve t occ tile preferred q) := by
  have hget : ∀ d, (preferred.bind fun id => p.get? ⟨tile, d, id⟩) =
      preferred.bind fun id => q.get? ⟨tile, d, id⟩ := by
    intro d
    congr 1
    funext id
    exact get?_eq_of_view h
  unfold serve
  rw [level_eq_of_view h]
  split
  . exact ⟨rfl, h⟩
  . split
    . exact ⟨rfl, h⟩
    . next d _ =>
      rw [serving?_eq_of_view h, hget, onTile_eq_of_view h]
      split
      . exact ⟨rfl, h⟩
      . split
        . next a hpreferred =>
          obtain ⟨id, _, ha⟩ := Option.bind_eq_some_iff.mp hpreferred
          rw [(mem_of_get?_eq_some ha).2]
          exact commit_alike h occ none
        . dsimp only
          split
          . exact ⟨rfl, h⟩
          . split
            . exact ⟨rfl, h⟩
            . exact commit_alike h occ none

theorem commit_eq_error (h : commit t occ key partner p = .error e p') : p' = p := by
  unfold commit at h
  split at h
  . cases h
  . split at h
    . cases h
    . exact (EStateM.Result.error.inj h).2.symm

theorem serve_eq_error (h : serve t occ tile preferred p = .error e p') : p' = p := by
  unfold serve at h
  split at h
  . exact (EStateM.Result.error.inj h).2.symm
  . split at h
    . exact (EStateM.Result.error.inj h).2.symm
    . split at h
      . cases h
      . split at h
        . exact commit_eq_error h
        . dsimp only at h
          split at h
          . exact (EStateM.Result.error.inj h).2.symm
          . split at h
            . exact (EStateM.Result.error.inj h).2.symm
            . exact commit_eq_error h

/-! ### Any number of ops -/

/--
Serve an op as it is asked for.
-/
def serving (g : Graph) (t : Target) (c : ServeCall) :
    EStateM CompileError ChannelPool ChannelKey :=
  call g t c.toRequest

/--
What those are answered that ask for a channel on one tile.
-/
def answersOn (g : Graph) (t : Target) (p : ChannelPool) (tile : Coord) (calls : List ServeCall) :
    List (Except CompileError ChannelKey) :=
  History.answersOf (serving g t) (fun c => c.tile = tile) p calls

theorem afterServing_eq (g : Graph) (t : Target) (p : ChannelPool) (calls : List ServeCall) :
    p.afterServing g t calls = History.afterAll (serving g t) p calls := by
  unfold afterServing
  rw [afterAll_eq]
  exact List.foldl_map

theorem serving_eq (g : Graph) (t : Target) (c : ServeCall) (p : ChannelPool) :
    serving g t c p =
      match elementAt g.occurrences c.op with
      | .error e => .error e p
      | .ok occ => serve t occ c.tile c.preferred p :=
  rfl

theorem serving_alike (h : p.view tile = q.view tile) {c : ServeCall} (hc : c.tile = tile) :
    Alike tile (serving g t c p) (serving g t c q) := by
  rw [serving_eq, serving_eq]
  split
  . exact ⟨rfl, h⟩
  . subst hc
    exact serve_alike h _ _

/--
Whatever becomes of an op that is to be served on a tile, all other tiles are left alone.
-/
theorem view_after_serving {c : ServeCall} (hc : c.tile ≠ tile) :
    (History.after (serving g t) p c).view tile = p.view tile := by
  unfold History.after
  rw [serving_eq]
  cases elementAt g.occurrences c.op with
  | error e => rfl
  | ok occ =>
    dsimp only
    cases hserve : serve t occ c.tile c.preferred p with
    | error e p' => rw [serve_eq_error hserve]
    | ok k p' =>
      obtain ⟨hk, rfl | rfl⟩ := serve_cases hserve
      . rfl
      . exact view_enter_of_ne (hk ▸ hc)

theorem serving_separates (g : Graph) (t : Target) (tile : Coord) :
    History.Separates (serving g t) (fun c => c.tile = tile) fun p => p.view tile where
  answered := by
    intro c hc p q h
    have halike := serving_alike (g := g) (t := t) h (of_decide_eq_true hc)
    unfold History.answer
    cases hp : serving g t c p <;> cases hq : serving g t c q <;> rw [hp, hq] at halike
    . rw [halike.1]
    . exact halike.elim
    . exact halike.elim
    . rw [halike.1]
  seen := by
    intro c hc p q h
    have halike := serving_alike (g := g) (t := t) h (of_decide_eq_true hc)
    unfold History.after
    cases hp : serving g t c p <;> cases hq : serving g t c q <;> rw [hp, hq] at halike
    . exact halike.2
    . exact halike.elim
    . exact halike.elim
    . exact halike.2
  unseen := by
    intro c hc p
    exact view_after_serving (of_decide_eq_false hc)

/--
Tiles do not interfere. Where the same ops are asked to be served on a tile, in the same order, they
are answered alike and leave the tile with the same channels and the same room, whatever is asked of
other tiles in between, be it granted or refused.
-/
theorem tiles_apart (g : Graph) (t : Target) (p : ChannelPool) (tile : Coord)
    {calls calls' : List ServeCall}
    (h : calls.filter (fun c => c.tile = tile) = calls'.filter fun c => c.tile = tile) :
    p.answersOn g t tile calls = p.answersOn g t tile calls' ∧
      (∀ d, (p.afterServing g t calls).onTile tile d = (p.afterServing g t calls').onTile tile d) ∧
      (p.afterServing g t calls).hasRoom t tile = (p.afterServing g t calls').hasRoom t tile := by
  obtain ⟨hanswers, hview⟩ := (serving_separates g t tile).apart p h
  rw [← afterServing_eq, ← afterServing_eq] at hview
  exact ⟨hanswers, onTile_eq_of_view hview, hasRoom_eq_of_view hview⟩

/--
The second load is refused for want of a descriptor, whether or not another tile is used before.
-/
theorem haul_tiles_apart :
    let t : Target := { Target.gen2 4 6 with compute := ⟨2, 16, 1⟩ }
    let calls : List ServeCall := [⟨0, ⟨0, 2⟩, none⟩, ⟨1, ⟨0, 2⟩, none⟩]
    let calls' : List ServeCall :=
      [⟨1, ⟨1, 2⟩, none⟩, ⟨0, ⟨0, 2⟩, none⟩, ⟨0, ⟨1, 2⟩, none⟩, ⟨1, ⟨0, 2⟩, none⟩]
    calls.filter (fun c => c.tile = ⟨0, 2⟩) = calls'.filter (fun c => c.tile = ⟨0, 2⟩) ∧
      (empty .tileLocal).answersOn haul t ⟨0, 2⟩ calls =
        (empty .tileLocal).answersOn haul t ⟨0, 2⟩ calls' ∧
      (∀ d, ((empty .tileLocal).afterServing haul t calls).onTile ⟨0, 2⟩ d =
        ((empty .tileLocal).afterServing haul t calls').onTile ⟨0, 2⟩ d) ∧
      ((empty .tileLocal).afterServing haul t calls).hasRoom t ⟨0, 2⟩ =
        ((empty .tileLocal).afterServing haul t calls').hasRoom t ⟨0, 2⟩ := by
  intro t calls calls'
  have hsame : calls.filter (fun c => c.tile = ⟨0, 2⟩) =
      calls'.filter fun c => c.tile = ⟨0, 2⟩ := by
    decide
  exact ⟨hsame, tiles_apart haul t (empty .tileLocal) ⟨0, 2⟩ hsame⟩

end ChannelPool

end TileTraffic
