import TileTraffic.Proofs.Channel.Passes

/-!
Where listed ops belong. On tile-local and shared memory a channel lists an op only if its tile is
the one that the op asked for. This is so for every graph: ops with the same id may be left out, but
none is listed on another tile.
-/

namespace TileTraffic

namespace ChannelPool

variable {t : Target} {tileOf : Op → Except CompileError Coord} {p p' : ChannelPool}
  {occ : Occurrence} {key k : ChannelKey} {partner : Option Coord}

/--
Every op is listed on the tile that it asks for.
-/
def Seated (tileOf : Op → Except CompileError Coord) (p : ChannelPool) : Prop :=
  ∀ a ∈ p.opened, ∀ occ ∈ a.ops, tileOf occ.op = .ok a.key.tile

theorem seated_empty (level : Level) : (empty level).Seated tileOf := by
  intro a ha
  cases ha

theorem Seated.enter (h : p.Seated tileOf) (htile : tileOf occ.op = .ok key.tile) :
    (p.enter occ key partner).Seated tileOf := by
  intro a ha o ho
  by_cases hmem : key ∈ p.keys
  . rw [opened_enter_of_mem hmem] at ha
    obtain ⟨b, hb, rfl⟩ := List.mem_map.mp ha
    unfold Allocation.addAt at ho ⊢
    split at ho
    . next hkey =>
      rw [if_pos hkey]
      rcases List.mem_append.mp ho with ho | ho
      . exact h b hb o ho
      . rw [List.mem_singleton.mp ho, htile, ← hkey]
        rfl
    . next hkey =>
      rw [if_neg hkey]
      exact h b hb o ho
  . rw [opened_enter_of_not_mem hmem] at ha
    rcases List.mem_append.mp ha with ha | ha
    . exact h a ha o ho
    . obtain rfl := List.mem_singleton.mp ha
      obtain rfl := List.mem_singleton.mp ho
      exact htile

theorem Seated.serve (h : p.Seated tileOf) {tile : Coord} {preferred : Option Nat}
    (htile : tileOf occ.op = .ok tile) (hok : serve t occ tile preferred p = .ok k p') :
    p'.Seated tileOf := by
  obtain ⟨rfl, hp' | hp'⟩ := serve_cases hok
  . rw [hp']
    exact h
  . rw [hp']
    exact h.enter htile

end ChannelPool

namespace Endpoint

variable {t : Target} {flow : String} {tileOf : Op → Except CompileError Coord}
  {p p' : ChannelPool} {e e' : Endpoint}

theorem assign_seated (h : p.Seated tileOf) (hok : assign t flow tileOf p e = .ok (e', p')) :
    p'.Seated tileOf := by
  unfold assign at hok
  obtain ⟨⟨known, p''⟩, hfold, hok⟩ := bind_eq_ok hok
  obtain ⟨_, rfl⟩ := Prod.mk.inj (Except.ok.inj hok)
  refine foldlM_eq_ok (fun _ (state : Option ChannelKey × ChannelPool) =>
    state.2.Seated tileOf) hfold h ?_
  rintro _ occ _ ⟨known, p₁⟩ state _ hseated hstep
  unfold serveOp at hstep
  obtain ⟨tile, htile, hstep⟩ := bind_eq_ok hstep
  obtain ⟨⟨key, p₂⟩, hserve, hstep⟩ := bind_eq_ok hstep
  obtain ⟨_, _, hstep⟩ := bind_eq_ok hstep
  obtain rfl := Except.ok.inj hstep
  exact hseated.serve htile (attempt_eq_ok hserve)

theorem assignAll_seated {es es' : List Endpoint} (h : p.Seated tileOf)
    (hok : threadM (assign t flow tileOf) p es = .ok (es', p')) : p'.Seated tileOf := by
  refine threadM_eq_ok (fun _ _ (p' : ChannelPool) => p'.Seated tileOf) hok h ?_
  intro _ _ e _ p₁ e' p₂ _ hseated hassign
  exact assign_seated hseated hassign

end Endpoint

namespace Bundle

variable {t : Target} {tileOf : Op → Except CompileError Coord} {p p' : ChannelPool} {b b' : Bundle}

theorem assignLevel_seated (h : p.Seated tileOf)
    (hok : b.assignLevel t tileOf p = .ok (b', p')) : p'.Seated tileOf := by
  rw [assignLevel_eq] at hok
  obtain ⟨⟨producer, p₁⟩, hproducer, hok⟩ := bind_eq_ok hok
  obtain ⟨⟨consumers, p₂⟩, hconsumers, hok⟩ := bind_eq_ok hok
  obtain ⟨_, rfl⟩ := Prod.mk.inj (Except.ok.inj hok)
  have h₁ : p₁.Seated tileOf := by
    split at hproducer
    . exact Endpoint.assign_seated h hproducer
    . obtain ⟨_, rfl⟩ := Prod.mk.inj (Except.ok.inj hproducer)
      exact h
  dsimp only at hconsumers
  split at hconsumers
  . exact Endpoint.assignAll_seated h₁ hconsumers
  . obtain ⟨_, rfl⟩ := Prod.mk.inj (Except.ok.inj hconsumers)
    exact h₁

theorem assignLevel_all_seated {bs bs' : List Bundle} {level : Level}
    (hok : threadM (Bundle.assignLevel t tileOf) (.empty level) bs = .ok (bs', p)) :
    p.Seated tileOf := by
  refine threadM_eq_ok (fun _ _ (p : ChannelPool) => p.Seated tileOf) hok
    (ChannelPool.seated_empty level) ?_
  intro _ _ b _ p₁ b' p₂ _ hseated hassign
  exact assignLevel_seated hseated hassign

end Bundle

namespace Assignment.Passes

variable {g : Graph} {t : Target} {d : Device} {bs bs₁ bs₂ : List Bundle} {a : Assignment}

/--
An op on a tile-local channel is on its cell.
-/
theorem cellOf_tileLocal (h : Passes g t d bs bs₁ bs₂ a) {x : Allocation}
    (hx : x ∈ a.tileLocal.opened) {occ : Occurrence} (hocc : occ ∈ x.ops) :
    g.CellOf occ.op x.key.tile := by
  have hseated := Bundle.assignLevel_all_seated h.tileLocal x hx occ hocc
  exact ((g.computeTile_yields t occ.op).of_eq_ok hseated).1

/--
An op on a shared channel is on the tile of the buffer that it accesses in shared memory.
-/
theorem homeOf_shared (h : Passes g t d bs bs₁ bs₂ a) {x : Allocation}
    (hx : x ∈ a.shared.opened) {occ : Occurrence} (hocc : occ ∈ x.ops) :
    d.HomeOf occ.op x.key.tile := by
  have hseated := Bundle.assignLevel_all_seated h.shared x hx occ hocc
  unfold Device.sharedTile at hseated
  split at hseated
  . next tile htile =>
    obtain rfl := Except.ok.inj hseated
    obtain ⟨access, haccess, hhome⟩ := Option.bind_eq_some_iff.mp htile
    exact ⟨access, haccess, hhome⟩
  . cases hseated

end Assignment.Passes

end TileTraffic
