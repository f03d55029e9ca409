import TileTraffic.Proofs.Host.Launches
import TileTraffic.Proofs.Lists

/-!
The iteration spaces of launches: the bounds of the loops around each of them. A loop that is merged
gives up its own bounds for those of the loop that it meets in the nest. So all launches keep their
spaces just if no loop ever meets one with other bounds.
-/

namespace TileTraffic

theorem Expr.value?_rename (ρ : Renaming) (e : Expr) : (e.rename ρ).value? = e.value? := by
  induction e with
  | const => rfl
  | var => rfl
  | add a b iha ihb => simp only [rename, value?, iha, ihb]
  | mul a b iha ihb => simp only [rename, value?, iha, ihb]

/--
The bounds and steps of the variables of a loop, those of them that are constant.
-/
structure LoopBounds where
  lower : List (Option Int)
  upper : List (Option Int)
  step : List (Option Int)
  deriving DecidableEq, Repr

namespace LoopHead

def bounds (head : LoopHead) : LoopBounds where
  lower := head.lower.map Expr.value?
  upper := head.upper.map Expr.value?
  step := head.step.map Expr.value?

@[simp]
theorem bounds_rename (ρ : Renaming) (head : LoopHead) : (head.rename ρ).bounds = head.bounds := by
  unfold bounds rename
  simp [Function.comp_def, Expr.value?_rename]

end LoopHead

/--
An op that is launched, and the bounds of the sequential loops around it from outside in.
-/
abbrev Space := Nat × List LoopBounds

namespace Space

def within (b : LoopBounds) (x : Space) : Space :=
  (x.1, b :: x.2)

/--
The space with `bs` in place of its outermost bounds.
-/
def overlay (bs : List LoopBounds) (x : Space) : Space :=
  (x.1, bs ++ x.2.drop bs.length)

theorem overlay_nil : overlay [] = id :=
  rfl

theorem overlay_within (b b' : LoopBounds) (bs : List LoopBounds) :
    overlay (b :: bs) ∘ within b' = within b ∘ overlay bs :=
  rfl

theorem getElem?_overlay (bs : List LoopBounds) (x : Space) (depth : Nat) :
    (overlay bs x).2[depth]? = if depth < bs.length then bs[depth]? else x.2[depth]? := by
  unfold overlay
  dsimp only
  split
  . next hlt => exact List.getElem?_append_left hlt
  . next hlt => rw [List.getElem?_append_right (by omega), List.getElem?_drop,
      Nat.add_sub_cancel' (by omega)]

/--
The space does not have the bounds `b` at a depth.
-/
def differs (depth : Nat) (b : LoopBounds) (x : Space) : Bool :=
  x.2[depth]? != some b

theorem overlay_eq_self {bs : List LoopBounds} {x : Space} (h : bs <+: x.2) :
    overlay bs x = x := by
  obtain ⟨rest, hrest⟩ := h
  unfold overlay
  rw [← hrest, List.drop_left, hrest]

end Space

namespace Stmt

mutual

/--
The spaces of all launches of a statement, at any depth.
-/
def spaces : Stmt → List Space
  | .launch op _ => [(op, [])]
  | .loop head body =>
    match head.kind with
    | .sequential => (spacesAll body).map (Space.within head.bounds)
    | .parallel => spacesAll body

def spacesAll : List Stmt → List Space
  | [] => []
  | s :: rest => s.spaces ++ spacesAll rest

end

@[simp]
theorem spacesAll_append (body body' : List Stmt) :
    spacesAll (body ++ body') = spacesAll body ++ spacesAll body' := by
  induction body with
  | nil => simp [spacesAll]
  | cons s body ih => simp [spacesAll, ih]

mutual

theorem spaces_rename (ρ : Renaming) : ∀ s : Stmt, (s.rename ρ).spaces = s.spaces
  | .launch .. => by simp [rename, spaces]
  | .loop head body => by
    simp only [rename, spaces, LoopHead.bounds_rename, spacesAll_renameAll ρ body]
    rfl

theorem spacesAll_renameAll (ρ : Renaming) :
    ∀ body, spacesAll (renameAll ρ body) = spacesAll body
  | [] => by simp [renameAll]
  | s :: rest => by
    simp only [renameAll, spacesAll]
    rw [spaces_rename ρ s, spacesAll_renameAll ρ rest]

end

mutual

theorem map_fst_spaces : ∀ s : Stmt, s.spaces.map Prod.fst = s.ops
  | .launch .. => by simp [spaces, ops]
  | .loop head body => by
    simp only [spaces, ops, ← map_fst_spacesAll body]
    cases head.kind <;> simp [Space.within]

theorem map_fst_spacesAll : ∀ body, (spacesAll body).map Prod.fst = opsAll body
  | [] => by simp [spacesAll, opsAll]
  | s :: rest => by
    simp only [spacesAll, opsAll, List.map_append]
    rw [map_fst_spaces s, map_fst_spacesAll rest]

end

theorem spacesAll_ne_nil {body : List Stmt} (h : anyLaunches body = true) :
    spacesAll body ≠ [] := by
  intro hnil
  have hops : opsAll body = [] := by rw [← map_fst_spacesAll, hnil, List.map_nil]
  rw [(opsAll_eq_nil_iff body).mp hops] at h
  cases h

end Stmt

namespace Control

namespace Folding

/--
The bounds of the loops that are merged.
-/
def ownBounds (f : Folding) : List LoopBounds :=
  f.meetings.map fun m => m.1.head.bounds

/--
The bounds of the loops of the nest that they are merged into.
-/
def metBounds (f : Folding) : List LoopBounds :=
  f.meetings.map fun m => m.2.head.bounds

/--
Loops are merged into loops with the same bounds.
-/
def Matches (f : Folding) : Prop :=
  ∀ m ∈ f.meetings, m.1.head.bounds = m.2.head.bounds

theorem matches_iff (f : Folding) : f.Matches ↔ f.ownBounds = f.metBounds :=
  List.map_inj_left.symm

end Folding

variable {source before after nest nest' : List Stmt} {loop : Nest} {ρ : Renaming}
  {used used' : Nat} {place : Place}

/--
In a body without parallel loops, what is brought in is all that there is.
-/
theorem SplitsAt.eq_singleton (h : SplitsAt source before loop after)
    (hnone : launchCount source = 0) (hone : loopCount source ≤ 1)
    (hseq : ∀ head ∈ Stmt.headsAll source, head.kind = .sequential) :
    source = [.loop loop.head loop.body] := by
  have hbeside : before ++ after = [] := by
    rw [List.eq_nil_iff_forall_not_mem]
    intro s hs
    obtain ⟨hlaunch, hloop⟩ := h.beside hnone hone hs
    cases s with
    | launch => cases hlaunch
    | loop head body =>
      have hmem : Stmt.loop head body ∈ source := by
        rw [h.eq]
        simp at hs ⊢
        tauto
      have hkind := hseq head (Stmt.heads_subset_headsAll hmem (by simp [Stmt.heads]))
      simp [Stmt.isSequential, hkind] at hloop
  obtain ⟨rfl, rfl⟩ := List.append_eq_nil_iff.mp hbeside
  exact h.eq

theorem SplitsAt.spacesAll_eq (h : SplitsAt source before loop after)
    (hnone : launchCount source = 0) (hone : loopCount source ≤ 1)
    (hseq : ∀ head ∈ Stmt.headsAll source, head.kind = .sequential) :
    Stmt.spacesAll source = (Stmt.spacesAll loop.body).map (Space.within loop.head.bounds) := by
  rw [h.eq_singleton hnone hone hseq]
  simp [Stmt.spacesAll, Stmt.spaces, h.sequential]

theorem SplitsAt.headsAll_subset (h : SplitsAt source before loop after) :
    Stmt.headsAll loop.body ⊆ Stmt.headsAll source := by
  have hmem : Stmt.loop loop.head loop.body ∈ source := by simp [h.eq]
  apply List.Subset.trans _ (Stmt.heads_subset_headsAll hmem)
  rw [Stmt.heads]
  exact List.subset_cons_self ..

theorem spaces_copyLoop (ρ : Renaming) (used : Nat) (loop : Nest) :
    (copyLoop ρ used loop).spaces =
      (Stmt.spacesAll loop.body).map (Space.within loop.head.bounds) := by
  have hbounds : ∀ es : List Expr,
      (es.map (Expr.rename ρ)).map Expr.value? = es.map Expr.value? := by
    intro es
    simp [Function.comp_def, Expr.value?_rename]
  simp only [copyLoop, Stmt.spaces, Stmt.spacesAll_renameAll, LoopHead.bounds, hbounds]

theorem Merges.spacesAll_perm (h : Merges ρ used place source nest nest' used')
    (hnone : launchCount source = 0) (hone : loopCount source ≤ 1)
    (hseq : ∀ head ∈ Stmt.headsAll source, head.kind = .sequential) :
    (Stmt.spacesAll nest').Perm (Stmt.spacesAll nest ++
      (Stmt.spacesAll source).map (Space.overlay (Folding.metBounds ⟨nest, source⟩))) := by
  induction h with
  | @copy ρ used place source nest before after loop hsource hnest =>
    rw [Folding.metBounds, Folding.meetings_of_copy hnest, List.map_nil, Space.overlay_nil,
      List.map_id, hsource.spacesAll_eq hnone hone hseq, ← spaces_copyLoop ρ used loop]
    cases place with
    | first => exact List.perm_append_comm
    | last => simp [Place.put, Stmt.spacesAll]
  | @append ρ used place source nest before after before' after' loop met hsource hnest hlaunch =>
    -- what the loop launches is appended to the loop met: there it has the bounds of that one
    rw [Folding.metBounds, Folding.meetings_of_append hsource hnest hlaunch,
      hsource.spacesAll_eq hnone hone hseq, hnest.eq]
    simp only [Stmt.spacesAll_append, Stmt.spacesAll, Stmt.spaces, hnest.sequential,
      Stmt.spacesAll_renameAll, List.map_append, List.map_map, List.map_cons, List.map_nil,
      Space.overlay_within, Space.overlay_nil, Function.comp_id]
    grind
  | @enter ρ used used' place source nest inner before after before' after' loop met hsource hnest
      hnone' hone' _ ih =>
    have hinner := ih hnone' hone' fun head hhead => hseq head (hsource.headsAll_subset hhead)
    have hmet : Folding.metBounds ⟨nest, source⟩ =
        met.head.bounds :: Folding.metBounds ⟨met.body, loop.body⟩ := by
      rw [Folding.metBounds, Folding.meetings_of_enter hsource hnest hnone', List.map_cons]
      rfl
    have hmap := hinner.map (Space.within met.head.bounds)
    rw [hmet, hsource.spacesAll_eq hnone hone hseq, hnest.eq]
    simp only [Stmt.spacesAll_append, Stmt.spacesAll, Stmt.spaces, hnest.sequential,
      List.map_append, List.map_map, Space.overlay_within] at hmap ⊢
    rw [List.perm_iff_count] at hmap ⊢
    intro x
    have hcount := hmap x
    simp only [List.count_append] at hcount ⊢
    omega

/--
What is brought in has the bounds of the merged loops around it.
-/
theorem Merges.prefix_ownBounds (h : Merges ρ used place source nest nest' used')
    (hnone : launchCount source = 0) (hone : loopCount source ≤ 1)
    (hseq : ∀ head ∈ Stmt.headsAll source, head.kind = .sequential) :
    ∀ x ∈ Stmt.spacesAll source, Folding.ownBounds ⟨nest, source⟩ <+: x.2 := by
  induction h with
  | copy hsource hnest =>
    intro x _
    rw [Folding.ownBounds, Folding.meetings_of_copy hnest]
    exact List.nil_prefix
  | append hsource hnest hlaunch =>
    intro x hx
    rw [hsource.spacesAll_eq hnone hone hseq] at hx
    obtain ⟨y, _, rfl⟩ := List.mem_map.mp hx
    rw [Folding.ownBounds, Folding.meetings_of_append hsource hnest hlaunch]
    exact List.prefix_append [_] y.2
  | enter hsource hnest hnone' hone' _ ih =>
    intro x hx
    rw [hsource.spacesAll_eq hnone hone hseq] at hx
    obtain ⟨y, hy, rfl⟩ := List.mem_map.mp hx
    have hy' := ih hnone' hone' (fun head hhead => hseq head (hsource.headsAll_subset hhead)) y hy
    rw [Folding.ownBounds, Folding.meetings_of_enter hsource hnest hnone']
    exact (List.prefix_cons_inj _).mpr hy'

theorem prefix_spine_append (body body' : List Stmt) : spine body <+: spine (body ++ body') := by
  cases hfirst : firstLoop? body with
  | none =>
    rw [spine_eq_nil hfirst]
    exact List.nil_prefix
  | some index =>
    obtain ⟨before, loop, after, hsplit, _⟩ := exists_splitsAt_of_firstLoop? hfirst
    have hsplit' : SplitsAt (body ++ body') before loop (after ++ body') :=
      ⟨by simp [hsplit.eq], hsplit.sequential, hsplit.none_before⟩
    have hsame : spine (body ++ body') = spine body := by
      rw [hsplit.spine_eq, hsplit'.spine_eq]
    exact hsame ▸ List.prefix_rfl

/--
The bounds of the loops on the way into a nest.
-/
def spineBounds (nest : List Stmt) : List LoopBounds :=
  (spine nest).map fun loop => loop.head.bounds

theorem SplitsAt.spineBounds_eq (h : SplitsAt source before loop after) :
    spineBounds source = loop.head.bounds :: spineBounds loop.body := by
  unfold spineBounds
  rw [h.spine_eq, List.map_cons]

theorem prefix_spineBounds_append (body body' : List Stmt) :
    spineBounds body <+: spineBounds (body ++ body') :=
  (prefix_spine_append body body').map _

/--
The loops that are in the nest stay on the way into it.
-/
theorem Merges.prefix_spineBounds (h : Merges ρ used place source nest nest' used') :
    spineBounds nest <+: spineBounds nest' := by
  induction h with
  | copy _ hnest =>
    rw [spineBounds, spine_eq_nil hnest]
    exact List.nil_prefix
  | @append ρ used place source nest before after before' after' loop met hsource hnest hlaunch =>
    rw [hnest.spineBounds_eq, (hnest.replace _).spineBounds_eq, List.prefix_cons_inj]
    exact prefix_spineBounds_append ..
  | @enter ρ used used' place source nest inner before after before' after' loop met hsource hnest _
      _ _ ih =>
    rw [hnest.spineBounds_eq, (hnest.replace _).spineBounds_eq, List.prefix_cons_inj]
    exact ih

namespace Folding

/--
There are sequential loops only in the body that is folded.
-/
def Plain (f : Folding) : Prop :=
  ∀ head ∈ Stmt.headsAll f.body, head.kind = .sequential

/--
The spaces that the launches of the body get in the nest.
-/
def placed (f : Folding) : List Space :=
  (Stmt.spacesAll f.body).map (Space.overlay f.metBounds)

/--
The body launches something, with the bounds of the merged loops around it, and the loops that these
were merged into are on the way into `nest`.
-/
structure Within (f : Folding) (nest : List Stmt) : Prop where
  spaces_ne : Stmt.spacesAll f.body ≠ []
  own : ∀ x ∈ Stmt.spacesAll f.body, f.ownBounds <+: x.2
  met : f.metBounds <+: spineBounds nest

theorem prefix_metBounds (f : Folding) : f.metBounds <+: spineBounds f.nest := by
  have hbefore := (prefix_map_snd_zip (upToLaunch (spine f.body)) (spine f.nest)).map
    fun loop => loop.head.bounds
  rwa [List.map_map] at hbefore

theorem placed_eq_of_matches {f : Folding} {nest : List Stmt} (hwithin : f.Within nest)
    (h : f.Matches) : f.placed = Stmt.spacesAll f.body := by
  unfold placed
  rw [← (matches_iff f).mp h]
  apply Eq.trans _ (List.map_id _)
  apply List.map_congr_left
  intro x hx
  exact Space.overlay_eq_self (hwithin.own x hx)

end Folding

theorem Folding.Within.mono {f : Folding} (h : f.Within nest)
    (hbefore : spineBounds nest <+: spineBounds nest') : f.Within nest' :=
  ⟨h.spaces_ne, h.own, h.met.trans hbefore⟩

theorem Takes.prefix_spineBounds {c c' : Control} {s : Stmt} (h : Takes c used s c' used') :
    spineBounds c.body <+: spineBounds c'.body := by
  cases h with
  | launch => exact List.prefix_rfl
  | drop => exact List.prefix_rfl
  | direct => exact prefix_spineBounds_append ..
  | nested _ _ _ _ hmerges => exact hmerges.prefix_spineBounds

theorem Takes.spaces {c c' : Control} {s : Stmt} (h : Takes c used s c' used')
    (hplain : ∀ f ∈ foldings.folding c s, f.Plain) :
    (Stmt.spacesAll c'.body).Perm
        (Stmt.spacesAll c.body ++ (foldings.folding c s).flatMap Folding.placed) ∧
      ∀ f ∈ foldings.folding c s, f.Within c'.body := by
  have hspine := h.prefix_spineBounds
  cases h with
  | launch => simp [foldings.folding]
  | drop hnone => simp [foldings.folding, isCandidate, hnone]
  | @direct head body hcandidate _ _ hloops =>
    have hmeetings : Folding.meetings ⟨c.body, body⟩ = [] := by
      simp [Folding.meetings, spine_eq_nil_of_loopCount hloops, upToLaunch]
    have hwithin : Folding.Within ⟨c.body, body⟩ c.body := by
      refine ⟨Stmt.spacesAll_ne_nil (isCandidate_loop_iff.mp hcandidate).2, ?_,
        Folding.prefix_metBounds _⟩
      intro x _
      rw [Folding.ownBounds, hmeetings]
      exact List.nil_prefix
    simp only [foldings.folding, hcandidate, if_true, List.flatMap_singleton,
      List.forall_mem_singleton]
    refine ⟨?_, hwithin.mono hspine⟩
    simp [Folding.placed, Folding.metBounds, hmeetings, Space.overlay_nil,
      Stmt.spacesAll_renameAll]
  | @nested head body nest _ hcandidate _ hlaunch hone hmerges =>
    simp only [foldings.folding, hcandidate, if_true, List.flatMap_singleton,
      List.forall_mem_singleton] at hplain ⊢
    have hwithin : Folding.Within ⟨c.body, body⟩ c.body :=
      ⟨Stmt.spacesAll_ne_nil (isCandidate_loop_iff.mp hcandidate).2,
        hmerges.prefix_ownBounds hlaunch hone hplain, Folding.prefix_metBounds _⟩
    exact ⟨hmerges.spacesAll_perm hlaunch hone hplain, hwithin.mono hspine⟩

theorem takeAll_spaces {c c' : Control} {rest : List Stmt}
    (h : rest.foldlM takeStmt (c, used) = .ok (c', used'))
    (hplain : ∀ f ∈ foldings (c, used) rest, f.Plain) :
    (Stmt.spacesAll c'.body).Perm
        (Stmt.spacesAll c.body ++ (foldings (c, used) rest).flatMap Folding.placed) ∧
      (∀ f ∈ foldings (c, used) rest, f.Within c'.body) ∧
      spineBounds c.body <+: spineBounds c'.body := by
  -- earlier folds stay within the nest, as later ones leave the way into it as it is
  induction rest generalizing c used with
  | nil =>
    obtain ⟨rfl, rfl⟩ := Prod.mk.inj (Except.ok.inj h)
    simp [foldings]
  | cons s rest ih =>
    obtain ⟨c₁, used₁, htake, htakes, hrest⟩ := takeAll_cons h
    rw [foldings, htake] at hplain ⊢
    obtain ⟨hplain, hplain'⟩ := List.forall_mem_append.mp hplain
    obtain ⟨hperm, hwithin⟩ := htakes.spaces hplain
    obtain ⟨hperm', hwithin', hbefore⟩ := ih hrest hplain'
    refine ⟨?_, ?_, htakes.prefix_spineBounds.trans hbefore⟩
    . rw [List.flatMap_append, ← List.append_assoc]
      exact hperm'.trans (hperm.append_right _)
    . rw [List.forall_mem_append]
      exact ⟨fun f hf => (hwithin f hf).mono hbefore, hwithin'⟩

/--
What is folded are the parallel loops of the host program that launch something.
-/
theorem spacesAll_filter_isCandidate {c c' : Control} {rest : List Stmt}
    (h : rest.foldlM takeStmt (c, used) = .ok (c', used')) :
    Stmt.spacesAll (rest.filter isCandidate) =
      (foldings (c, used) rest).flatMap fun f => Stmt.spacesAll f.body := by
  induction rest generalizing c used with
  | nil => simp [foldings, Stmt.spacesAll]
  | cons s rest ih =>
    obtain ⟨c₁, used₁, htake, _, hrest⟩ := takeAll_cons h
    rw [foldings, htake, List.flatMap_append, ← ih hrest]
    cases s with
    | launch => simp [foldings.folding, isCandidate]
    | loop head body =>
      by_cases hcandidate : isCandidate (.loop head body)
      . rw [List.filter_cons_of_pos hcandidate]
        simp [foldings.folding, hcandidate, Stmt.spacesAll, Stmt.spaces,
          (isCandidate_loop_iff.mp hcandidate).1]
      . rw [List.filter_cons_of_neg hcandidate]
        simp [foldings.folding, hcandidate]

theorem mem_foldings {state : Control × Nat} {rest : List Stmt} {f : Folding}
    (h : f ∈ foldings state rest) : ∃ head, .loop head f.body ∈ rest.filter isCandidate := by
  induction rest generalizing state with
  | nil => cases h
  | cons s rest ih =>
    rw [foldings] at h
    rcases List.mem_append.mp h with h | h
    . cases s with
      | launch => cases h
      | loop head body =>
        by_cases hcandidate : isCandidate (.loop head body)
        . simp only [foldings.folding, hcandidate, if_true, List.mem_singleton] at h
          subst h
          exact ⟨head, by simp [hcandidate]⟩
        . simp [foldings.folding, hcandidate] at h
    . split at h
      . obtain ⟨head, hmem⟩ := ih h
        refine ⟨head, ?_⟩
        simp only [List.mem_filter, List.mem_cons] at hmem ⊢
        tauto
      . cases h

namespace Folding

variable {f : Folding} {depth : Nat} {b : LoopBounds}

/--
Merging does not move a space away from the bounds `b` where the nest has them.
-/
theorem Within.countP_placed_le (h : f.Within nest) (hb : (spineBounds nest)[depth]? = some b) :
    f.placed.countP (Space.differs depth b) ≤
      (Stmt.spacesAll f.body).countP (Space.differs depth b) := by
  unfold placed
  rw [List.countP_map]
  apply List.countP_mono_left
  intro x _ hx
  rw [Function.comp_apply, Space.differs, Space.getElem?_overlay] at hx
  split at hx
  . next hlt =>
    rw [← hb, List.prefix_iff_getElem?.mp h.met depth hlt, List.getElem?_eq_getElem hlt,
      bne_self_eq_false] at hx
    cases hx
  . exact hx

theorem countP_placed_eq_zero (hb : f.metBounds[depth]? = some b) :
    f.placed.countP (Space.differs depth b) = 0 := by
  obtain ⟨hlt, _⟩ := List.getElem?_eq_some_iff.mp hb
  rw [List.countP_eq_zero]
  intro y hy
  obtain ⟨x, _, rfl⟩ := List.mem_map.mp hy
  rw [Space.differs, Space.getElem?_overlay, if_pos hlt, hb]
  simp

theorem Within.countP_spaces_eq_length (h : f.Within nest) {own : LoopBounds}
    (hown : f.ownBounds[depth]? = some own) (hne : own ≠ b) :
    (Stmt.spacesAll f.body).countP (Space.differs depth b) = (Stmt.spacesAll f.body).length := by
  obtain ⟨hlt, hown⟩ := List.getElem?_eq_some_iff.mp hown
  rw [List.countP_eq_length]
  intro x hx
  rw [Space.differs, List.prefix_iff_getElem?.mp (h.own x hx) depth hlt, hown]
  simpa using hne

/--
Where loops are merged into one with other bounds `b`, no space has these before and all have them
after.
-/
theorem Within.exists_countP_placed_lt (h : f.Within nest) (hmatches : ¬ f.Matches) :
    ∃ (depth : Nat) (b : LoopBounds), (spineBounds nest)[depth]? = some b ∧
      f.placed.countP (Space.differs depth b) <
        (Stmt.spacesAll f.body).countP (Space.differs depth b) := by
  obtain ⟨m, hm, hne⟩ : ∃ m ∈ f.meetings, m.1.head.bounds ≠ m.2.head.bounds := by
    simpa [Matches] using hmatches
  obtain ⟨depth, hdepth⟩ := List.mem_iff_getElem?.mp hm
  have hown : f.ownBounds[depth]? = some m.1.head.bounds := by
    rw [ownBounds, List.getElem?_map, hdepth, Option.map_some]
  have hmet : f.metBounds[depth]? = some m.2.head.bounds := by
    rw [metBounds, List.getElem?_map, hdepth, Option.map_some]
  refine ⟨depth, m.2.head.bounds, ?_, ?_⟩
  . obtain ⟨hlt, hmet⟩ := List.getElem?_eq_some_iff.mp hmet
    rw [List.prefix_iff_getElem?.mp h.met depth hlt, hmet]
  . rw [countP_placed_eq_zero hmet, h.countP_spaces_eq_length hown hne]
    exact List.length_pos_iff.mpr h.spaces_ne

/--
Spaces stay the same in their number only if no loop was merged into one with other bounds: where
that happened, there are more spaces with these other bounds than before.
-/
theorem matches_of_perm {fs : List Folding} (hwithin : ∀ f ∈ fs, f.Within nest)
    (hperm : (fs.flatMap placed).Perm (fs.flatMap fun f => Stmt.spacesAll f.body)) :
    ∀ f ∈ fs, f.Matches := by
  intro f hf
  by_contra hmatches
  -- nothing makes up for it: no other fold takes a space away from these bounds
  obtain ⟨depth, b, hb, hlt⟩ := (hwithin f hf).exists_countP_placed_lt hmatches
  have hcount := hperm.countP_eq (Space.differs depth b)
  rw [List.countP_flatMap, List.countP_flatMap] at hcount
  apply absurd hcount
  apply Nat.ne_of_lt
  apply List.sum_lt_sum
  . intro g hg
    exact (hwithin g hg).countP_placed_le hb
  . exact ⟨f, hf, hlt⟩

end Folding

/--
Where parallel loops hold sequential loops only, their launches keep their iteration spaces just if
each loop is merged into a loop with the same bounds.
-/
theorem ofHost?_spaces {host : Host} {outer inner : Nat} {c : Control}
    (h : ofHost? host outer inner = .ok (some c))
    (hplain : ∀ s ∈ host.body, isCandidate s → ∀ head ∈ s.innerHeads, head.kind = .sequential) :
    (Stmt.spacesAll c.body).Perm (Stmt.spacesAll (host.body.filter isCandidate)) ↔
      ∀ f ∈ foldings (idle outer inner, 0) host.body, f.Matches := by
  obtain ⟨used, hfold⟩ := (ofHost?_folds host outer inner).of_eq_ok h
  have hplain' : ∀ f ∈ foldings (idle outer inner, 0) host.body, f.Plain := by
    intro f hf
    obtain ⟨head, hmem⟩ := mem_foldings hf
    obtain ⟨hmem, hcandidate⟩ := List.mem_filter.mp hmem
    exact hplain _ hmem hcandidate
  obtain ⟨hperm, hwithin, _⟩ := takeAll_spaces hfold hplain'
  rw [idle, Stmt.spacesAll, List.nil_append] at hperm
  rw [spacesAll_filter_isCandidate hfold]
  constructor
  . intro hsame
    exact Folding.matches_of_perm hwithin (hperm.symm.trans hsame)
  . intro hmatches
    rw [← List.flatMap_congr fun f hf =>
      Folding.placed_eq_of_matches (hwithin f hf) (hmatches f hf)]
    exact hperm

/--
Three parallel loops with child loops of the given extents. The last one goes two loops deep.
-/
def triple (first second third : Int) : Host where
  name := "triple"
  body := [
    .loop (.parallel ["x", "y"] [2, 2]) [.loop (.sequential "k" 0 first 1) [.launch 1 [.var "k"]]],
    .loop (.parallel ["a", "b"] [2, 2]) [.loop (.sequential "k" 0 second 1) [.launch 2 [.var "k"]]],
    .loop (.parallel ["x", "y"] [2, 2]) [.loop (.sequential "m" 0 third 1)
      [.loop (.sequential "n" 0 2 1) [.launch 3 [.var "m", .var "n"]]]]]

/--
Child loops with the same bounds become one loop, in which the deeper one of the third loop comes
first.
-/
theorem ofHost?_triple_spaces : ∃ c, ofHost? (triple 8 8 8) 2 2 = .ok (some c) ∧
    (∀ s ∈ (triple 8 8 8).body, isCandidate s → ∀ head ∈ s.innerHeads,
      head.kind = .sequential) ∧
    (Stmt.spacesAll c.body).Perm (Stmt.spacesAll ((triple 8 8 8).body.filter isCandidate)) ∧
    ∀ f ∈ foldings (idle 2 2, 0) (triple 8 8 8).body, f.Matches := by
  have h : ofHost? (triple 8 8 8) 2 2 = .ok (some ⟨[], "ctrl_x", "ctrl_y", 2, 2,
      [.loop (.sequential "ctrl_iv1" 0 8 1)
        [.loop (.sequential "ctrl_iv2" 0 2 1) [.launch 3 [.var "ctrl_iv1", .var "ctrl_iv2"]],
          .launch 1 [.var "ctrl_iv1"], .launch 2 [.var "ctrl_iv1"]]]⟩) := by
    cbv
  have hplain : ∀ s ∈ (triple 8 8 8).body, isCandidate s → ∀ head ∈ s.innerHeads,
      head.kind = .sequential := by
    decide
  have hperm := ofHost?_spaces h hplain
  refine ⟨_, h, hplain, ?_, hperm.mp ?_⟩
  . decide
  . decide

/--
Nothing compares the bounds. So the second launch is repeated as often as the first one.
-/
theorem ofHost?_triple_stretches : ∃ c, ofHost? (triple 8 4 8) 2 2 = .ok (some c) ∧
    ¬ (Stmt.spacesAll c.body).Perm
      (Stmt.spacesAll ((triple 8 4 8).body.filter isCandidate)) := by
  refine ⟨⟨[], "ctrl_x", "ctrl_y", 2, 2,
    [.loop (.sequential "ctrl_iv1" 0 8 1)
      [.loop (.sequential "ctrl_iv2" 0 2 1) [.launch 3 [.var "ctrl_iv1", .var "ctrl_iv2"]],
        .launch 1 [.var "ctrl_iv1"], .launch 2 [.var "ctrl_iv1"]]]⟩, ?_, ?_⟩
  . cbv
  . decide

end Control

end TileTraffic
