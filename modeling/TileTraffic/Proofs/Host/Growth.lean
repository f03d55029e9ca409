import TileTraffic.Proofs.Host.Meaning

/-!
How the control program grows with the host program. Each parallel loop that is folded adds one
block of statements, first or last in the nest or in the body of a loop on the way into it. Nothing
that is there is moved, renamed or taken away, whatever comes later.
-/

namespace TileTraffic

namespace Stmt

/--
All launches and loops of the first body are in the second one, as they are, in the same order and
in the same loops. There may be more in between.
-/
inductive Kept : List Stmt → List Stmt → Prop where
  | nil : Kept [] []
  | more {body body' : List Stmt} (s : Stmt) (h : Kept body body') : Kept body (s :: body')
  | launch {body body' : List Stmt} (op : Nat) (operands : List Expr) (h : Kept body body') :
      Kept (.launch op operands :: body) (.launch op operands :: body')
  | loop {inner inner' body body' : List Stmt} (head : LoopHead) (hinner : Kept inner inner')
      (h : Kept body body') : Kept (.loop head inner :: body) (.loop head inner' :: body')

namespace Kept

variable {body body' body'' rest rest' : List Stmt}

theorem refl : ∀ body, Kept body body
  | [] => .nil
  | .launch op operands :: rest => .launch op operands (refl rest)
  | .loop head inner :: rest => .loop head (refl inner) (refl rest)

theorem nil_left (body : List Stmt) : Kept [] body := by
  induction body with
  | nil => exact .nil
  | cons s body ih => exact .more s ih

theorem append (h : Kept body body') (h' : Kept rest rest') :
    Kept (body ++ rest) (body' ++ rest') := by
  induction h with
  | nil => exact h'
  | more s _ ih => exact .more s ih
  | launch op operands _ ih => exact .launch op operands ih
  | loop head hinner _ _ ih => exact .loop head hinner ih

theorem trans (h : Kept body body') (h' : Kept body' body'') : Kept body body'' := by
  -- a statement of `body''` was added to `body'`, or it is in `body'` as it is
  induction h' generalizing body with
  | nil => exact h
  | more s _ ih => exact .more s (ih h)
  | launch op operands _ ih =>
    cases h with
    | more _ h => exact .more _ (ih h)
    | launch _ _ h => exact .launch op operands (ih h)
  | loop head _ _ ihinner ih =>
    cases h with
    | more _ h => exact .more _ (ih h)
    | loop _ hinner h => exact .loop head (ihinner hinner) (ih h)

end Kept

theorem renameAll_ne_nil (ρ : Renaming) {body : List Stmt} (h : body ≠ []) :
    renameAll ρ body ≠ [] := by
  cases body with
  | nil => exact absurd rfl h
  | cons s rest => simp [renameAll]

end Stmt

namespace Control

variable {block body body' source before after rest : List Stmt} {loop : Nest}
  {ρ : Renaming} {used used' : Nat} {place : Place} {c c' c'' : Control} {s : Stmt}

/--
A block of statements is put first or last into a body, or into the body of its first sequential
loop, or into that of the first one there, and so on.
-/
inductive Inserts (block : List Stmt) : List Stmt → List Stmt → Prop where
  | first (body : List Stmt) : Inserts block body (block ++ body)
  | last (body : List Stmt) : Inserts block body (body ++ block)
  | inside {body before after inner : List Stmt} {loop : Nest}
      (hsplit : SplitsAt body before loop after) (hinner : Inserts block loop.body inner) :
      Inserts block body (before ++ .loop loop.head inner :: after)

theorem Inserts.kept (h : Inserts block body body') : Stmt.Kept body body' := by
  induction h with
  | first body => exact (Stmt.Kept.nil_left block).append (.refl body)
  | last body =>
    have hlast := (Stmt.Kept.refl body).append (.nil_left block)
    rwa [List.append_nil] at hlast
  | @inside body before after inner loop hsplit _ ih =>
    rw [hsplit.eq]
    exact (Stmt.Kept.refl before).append (.loop loop.head ih (.refl after))

theorem Place.inserts_put (place : Place) (s : Stmt) (body : List Stmt) :
    Inserts [s] body (place.put s body) := by
  cases place with
  | first => exact .first body
  | last => exact .last body

theorem ne_nil_of_launchCount (h : 0 < launchCount body) : body ≠ [] := by
  rintro rfl
  cases h

theorem SplitsAt.opsAll_sublist (h : SplitsAt source before loop after) :
    (Stmt.opsAll loop.body).Sublist (Stmt.opsAll source) := by
  rw [h.eq, Stmt.opsAll_append, Stmt.opsAll, Stmt.ops]
  exact (List.sublist_append_left _ _).trans (List.sublist_append_right _ _)

/--
Bringing in a loop comes down to one insertion, be the loop copied or merged.
-/
theorem Merges.inserts (h : Merges ρ used place source body body' used') :
    ∃ block, Inserts block body body' ∧ block ≠ [] ∧
      (Stmt.opsAll block).Sublist (Stmt.opsAll source) := by
  induction h with
  | @copy ρ used place source body _ _ loop hsource _ =>
    refine ⟨[copyLoop ρ used loop], place.inserts_put _ body, List.cons_ne_nil _ _, ?_⟩
    simp only [Stmt.opsAll, copyLoop, Stmt.ops, Stmt.opsAll_renameAll, List.append_nil]
    exact hsource.opsAll_sublist
  | @append ρ _ _ _ _ _ _ _ _ loop met hsource hnest hlaunch =>
    refine ⟨Stmt.renameAll (ρ.extend loop.head.vars met.head.vars) loop.body,
      .inside hnest (.last met.body), ?_, ?_⟩
    . exact Stmt.renameAll_ne_nil _ (ne_nil_of_launchCount hlaunch)
    . rw [Stmt.opsAll_renameAll]
      exact hsource.opsAll_sublist
  | enter hsource hnest _ _ _ ih =>
    -- the loop that is met stays where it is, and the block goes further in
    obtain ⟨block, hinserts, hne, hops⟩ := ih
    exact ⟨block, .inside hnest hinserts, hne, hops.trans hsource.opsAll_sublist⟩

/--
A statement adds at most one block to the nest, and it adds one just if it is folded.
-/
theorem Takes.inserts (h : Takes c used s c' used') :
    ∃ block, Inserts block c.body c'.body ∧ (block = [] ↔ isCandidate s = false) ∧
      (Stmt.opsAll block).Sublist s.ops := by
  cases h with
  | launch => exact ⟨[], .first c.body, by simp [isCandidate], List.nil_sublist _⟩
  | drop hnone => exact ⟨[], .first c.body, by simp [isCandidate, hnone], List.nil_sublist _⟩
  | @direct head body hcandidate _ hlaunch _ =>
    have hpos : 0 < launchCount body := by omega
    have hne := Stmt.renameAll_ne_nil (c.cellRenaming head) (ne_nil_of_launchCount hpos)
    refine ⟨Stmt.renameAll (c.cellRenaming head) body, .last c.body, ?_, ?_⟩
    . simp [hne, hcandidate]
    . rw [Stmt.opsAll_renameAll, Stmt.ops]
  | nested hcandidate _ _ _ hmerges =>
    obtain ⟨block, hinserts, hne, hops⟩ := hmerges.inserts
    exact ⟨block, hinserts, by simp [hne, hcandidate], hops⟩

/--
The control program `c'` is what `c` becomes when the statements `later` are taken over: it has
their launches in addition, walks the same cells, and keeps all that is in the nest of `c`.
-/
structure Grows (c : Control) (later : List Stmt) (c' : Control) : Prop where
  prologue : c'.prologue = c.prologue ++ later.filter Stmt.isLaunch
  walk : c'.walk = c.walk
  kept : Stmt.Kept c.body c'.body

namespace Grows

variable {later later' : List Stmt}

theorem refl (c : Control) : c.Grows [] c where
  prologue := (List.append_nil _).symm
  walk := rfl
  kept := .refl c.body

theorem trans (h : c.Grows later c') (h' : c'.Grows later' c'') :
    c.Grows (later ++ later') c'' where
  prologue := by rw [h'.prologue, h.prologue, List.filter_append, List.append_assoc]
  walk := h'.walk.trans h.walk
  kept := h.kept.trans h'.kept

end Grows

theorem Takes.prologue_eq (h : Takes c used s c' used') :
    c'.prologue = c.prologue ++ [s].filter Stmt.isLaunch := by
  cases h with
  | launch => rfl
  | drop | direct | nested => simp [Stmt.isLaunch]

theorem Takes.grows (h : Takes c used s c' used') : c.Grows [s] c' := by
  obtain ⟨_, hinserts, _⟩ := h.inserts
  exact ⟨h.prologue_eq, h.walk_eq, hinserts.kept⟩

theorem takeAll_grows (h : rest.foldlM takeStmt (c, used) = .ok (c', used')) :
    c.Grows rest c' := by
  induction rest generalizing c used with
  | nil =>
    obtain ⟨rfl, rfl⟩ := Prod.mk.inj (Except.ok.inj h)
    exact .refl c
  | cons s rest ih =>
    obtain ⟨c₁, used₁, _, htakes, hrest⟩ := takeAll_cons h
    exact htakes.grows.trans (ih hrest)

variable {host : Host} {outer inner : Nat}

theorem ofHost?_of_takeAll (h : host.body.foldlM takeStmt (idle outer inner, 0) = .ok (c, used)) :
    ofHost? host outer inner = .ok (if host.body.any isCandidate then some c else none) := by
  unfold ofHost?
  rw [h]
  split <;> rfl

/--
A host program that is accepted was accepted before its last statements were there, and they have
left in place what was in the nest by then.
-/
theorem ofHost?_append {later : List Stmt}
    (h : ofHost? { host with body := host.body ++ later } outer inner = .ok (some c')) :
    ∃ c, c.Grows later c' ∧
      ofHost? host outer inner = .ok (if host.body.any isCandidate then some c else none) := by
  obtain ⟨used', hfold⟩ := (ofHost?_folds _ outer inner).of_eq_ok h
  rw [List.foldlM_append] at hfold
  obtain ⟨⟨c, used⟩, hbefore, hlater⟩ := bind_eq_ok hfold
  exact ⟨c, takeAll_grows hlater, ofHost?_of_takeAll hbefore⟩

/--
One more statement never damages what is there. If it is a launch, it goes to the end of the
prologue. If it is folded, one block is put first or last into the nest or into a loop on the way
into it, and this block launches nothing that the statement does not launch. All else stays.
-/
theorem ofHost?_push (h : ofHost? host outer inner = .ok (some c))
    (h' : ofHost? { host with body := host.body ++ [s] } outer inner = .ok (some c')) :
    c.Grows [s] c' ∧ ∃ block, Inserts block c.body c'.body ∧
      (block = [] ↔ isCandidate s = false) ∧ (Stmt.opsAll block).Sublist s.ops := by
  obtain ⟨used, hfold⟩ := (ofHost?_folds host outer inner).of_eq_ok h
  obtain ⟨used', hfold'⟩ := (ofHost?_folds _ outer inner).of_eq_ok h'
  rw [List.foldlM_append, hfold] at hfold'
  obtain ⟨c₁, used₁, _, htakes, hdone⟩ := takeAll_cons hfold'
  obtain ⟨rfl, rfl⟩ := Prod.mk.inj (Except.ok.inj hdone)
  exact ⟨htakes.grows, htakes.inserts⟩

/--
A parallel loop with two loops in it, and one without any.
-/
def terrace : Host where
  name := "terrace"
  body := [
    .launch 0 [],
    .loop (.parallel ["x", "y"] [2, 2]) [.loop (.sequential "k" 0 8 1) [
      .loop (.sequential "m" 0 4 1) [.launch 1 [.var "k", .var "m"]]]],
    .loop (.parallel ["a", "b"] [2, 2]) [.launch 2 [.var "a"]]]

/--
A parallel loop with three loops in it.
-/
def stair : Stmt :=
  .loop (.parallel ["p", "q"] [2, 2]) [.loop (.sequential "i" 0 8 1) [
    .loop (.sequential "j" 0 4 1) [.loop (.sequential "n" 0 2 1)
      [.launch 3 [.var "q", .var "j", .var "n"]]]]]

/--
Its innermost loop is put before the launch that stands two loops deep in the nest.
-/
theorem ofHost?_terrace_push : ∃ c c', ofHost? terrace 2 2 = .ok (some c) ∧
    ofHost? { terrace with body := terrace.body ++ [stair] } 2 2 = .ok (some c') ∧
    c.Grows [stair] c' ∧ ∃ block, Inserts block c.body c'.body ∧
      (block = [] ↔ isCandidate stair = false) ∧ (Stmt.opsAll block).Sublist stair.ops := by
  have h : ofHost? terrace 2 2 = .ok (some ⟨[.launch 0 []], "ctrl_x", "ctrl_y", 2, 2, [
      .loop (.sequential "ctrl_iv1" 0 8 1) [
        .loop (.sequential "m" 0 4 1) [.launch 1 [.var "ctrl_iv1", .var "m"]]],
      .launch 2 [.var "ctrl_x"]]⟩) := by
    cbv
  have h' : ofHost? { terrace with body := terrace.body ++ [stair] } 2 2 =
      .ok (some ⟨[.launch 0 []], "ctrl_x", "ctrl_y", 2, 2, [
        .loop (.sequential "ctrl_iv1" 0 8 1) [
          .loop (.sequential "m" 0 4 1) [
            .loop (.sequential "ctrl_iv2" 0 2 1)
              [.launch 3 [.var "ctrl_y", .var "m", .var "ctrl_iv2"]],
            .launch 1 [.var "ctrl_iv1", .var "m"]]],
        .launch 2 [.var "ctrl_x"]]⟩) := by
    cbv
  exact ⟨_, _, h, h', ofHost?_push h h'⟩

end Control

end TileTraffic
