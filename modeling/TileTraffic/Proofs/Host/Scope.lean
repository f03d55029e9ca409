import TileTraffic.Proofs.Host.Meaning

/-!
The scopes of variables. A loop binds its variables in its body, not in its bounds. Folding moves
statements out of loops that disappear into loops of the nest, and a renaming takes the variables of
the first to those of the second. As long as both have equally many, nothing that was bound gets
loose.
-/

namespace TileTraffic

namespace LoopHead

/--
The variables in the bounds and steps of a loop.
-/
def reads (head : LoopHead) : List String :=
  (head.lower ++ head.upper ++ head.step).flatMap Expr.names

/--
Those of the variables `names` that the loop does not bind.
-/
def unbound (head : LoopHead) (names : List String) : List String :=
  names.filter fun name => name ∉ head.vars

theorem unbound_subset_iff {head : LoopHead} {names scope : List String} :
    head.unbound names ⊆ scope ↔ names ⊆ scope ++ head.vars := by
  unfold unbound
  simp only [List.subset_def, List.mem_filter, List.mem_append, decide_eq_true_eq]
  constructor
  . intro h x hx
    by_cases hbinds : x ∈ head.vars
    . exact .inr hbinds
    . exact .inl (h ⟨hx, hbinds⟩)
  . rintro h x ⟨hx, hbinds⟩
    exact (h hx).resolve_right hbinds

/--
If the loop is sequential, it has one variable.
-/
def Single (head : LoopHead) : Prop :=
  head.kind = .sequential → head.vars.length = 1

instance (head : LoopHead) : Decidable head.Single :=
  inferInstanceAs (Decidable (head.kind = .sequential → head.vars.length = 1))

theorem Single.rename {head : LoopHead} (h : head.Single) (ρ : Renaming) :
    (head.rename ρ).Single := by
  intro hkind
  unfold LoopHead.rename
  rw [List.length_map]
  exact h hkind

end LoopHead

namespace Stmt

mutual

/--
The variables of a statement that no loop around them binds.
-/
def free : Stmt → List String
  | .launch _ operands => operands.flatMap Expr.names
  | .loop head body => head.reads ++ head.unbound (freeAll body)

def freeAll : List Stmt → List String
  | [] => []
  | s :: rest => s.free ++ freeAll rest

end

/--
The variables inside a loop that neither this loop nor one inside it binds.
-/
def innerFree : Stmt → List String
  | .launch .. => []
  | .loop head body => head.unbound (freeAll body)

@[simp]
theorem freeAll_append (body body' : List Stmt) :
    freeAll (body ++ body') = freeAll body ++ freeAll body' := by
  induction body with
  | nil => simp [freeAll]
  | cons s body ih => simp [freeAll, ih]

@[simp]
theorem headsAll_append (body body' : List Stmt) :
    headsAll (body ++ body') = headsAll body ++ headsAll body' := by
  induction body with
  | nil => simp [headsAll]
  | cons s body ih => simp [headsAll, ih]

mutual

theorem heads_rename (ρ : Renaming) : ∀ s : Stmt,
    (s.rename ρ).heads = s.heads.map (LoopHead.rename ρ)
  | .launch .. => by simp [rename, heads]
  | .loop head body => by
    simp only [rename, heads, List.map_cons]
    rw [headsAll_renameAll ρ body]

theorem headsAll_renameAll (ρ : Renaming) : ∀ body,
    headsAll (renameAll ρ body) = (headsAll body).map (LoopHead.rename ρ)
  | [] => by simp [renameAll, headsAll]
  | s :: rest => by
    simp only [renameAll, headsAll, List.map_append]
    rw [heads_rename ρ s, headsAll_renameAll ρ rest]

end

end Stmt

theorem Expr.names_rename (ρ : Renaming) (e : Expr) :
    (e.rename ρ).names = e.names.map ρ.apply := by
  induction e with
  | const => rfl
  | var => rfl
  | add a b iha ihb => simp [rename, names, iha, ihb]
  | mul a b iha ihb => simp [rename, names, iha, ihb]

theorem Expr.flatMap_names_rename (ρ : Renaming) (es : List Expr) :
    (es.map (Expr.rename ρ)).flatMap Expr.names = (es.flatMap Expr.names).map ρ.apply := by
  rw [List.flatMap_map, List.map_flatMap]
  exact List.flatMap_congr fun e _ => names_rename ρ e

theorem LoopHead.reads_rename (ρ : Renaming) (head : LoopHead) :
    (head.rename ρ).reads = head.reads.map ρ.apply := by
  unfold reads rename
  rw [← List.map_append, ← List.map_append, Expr.flatMap_names_rename]

namespace Renaming

/--
The renaming takes what is bound in the scope `scope` to what is bound in the scope `bound`.
-/
def Carries (ρ : Renaming) (scope bound : List String) : Prop :=
  ∀ x ∈ scope, ρ.apply x ∈ bound

variable {ρ : Renaming} {scope bound names : List String}

theorem Carries.map_subset (h : ρ.Carries scope bound) (hnames : names ⊆ scope) :
    names.map ρ.apply ⊆ bound := by
  intro y hy
  obtain ⟨x, hx, rfl⟩ := List.mem_map.mp hy
  exact h x (hnames hx)

/--
Inside a loop that is renamed as well.
-/
theorem Carries.under (h : ρ.Carries scope bound) (vars : List String) :
    ρ.Carries (scope ++ vars) (bound ++ vars.map ρ.apply) := by
  intro x hx
  rcases List.mem_append.mp hx with hx | hx
  . exact List.mem_append_left _ (h x hx)
  . exact List.mem_append_right _ (List.mem_map_of_mem hx)

theorem Carries.cons (h : ρ.Carries scope bound) (name other : String) :
    Renaming.Carries ((name, other) :: ρ) (scope ++ [name]) (bound ++ [other]) := by
  intro x hx
  rw [apply_cons]
  split
  . simp
  . next hne =>
    have hx : x ∈ scope := by simpa [hne] using hx
    exact List.mem_append_left _ (h x hx)

/--
Inside a loop that gives its variables up for those of another one, which has as many.
-/
theorem Carries.extend (h : ρ.Carries scope bound) {vars others : List String}
    (hlength : others.length = vars.length) :
    (ρ.extend vars others).Carries (scope ++ vars) (bound ++ others) := by
  induction vars generalizing ρ scope bound others with
  | nil =>
    obtain rfl := List.length_eq_zero_iff.mp hlength
    rw [List.append_nil, List.append_nil]
    exact h
  | cons x vars ih =>
    obtain ⟨other, others, rfl⟩ := List.exists_cons_of_length_eq_add_one hlength
    rw [extend_cons, List.append_cons scope, List.append_cons bound]
    exact ih (h.cons x other) (by simpa using hlength)

end Renaming

namespace Stmt

variable {ρ : Renaming}

mutual

theorem free_rename : ∀ (s : Stmt) {scope bound : List String}, ρ.Carries scope bound →
    s.free ⊆ scope → (s.rename ρ).free ⊆ bound
  | .launch op operands, scope, bound, h, hs => by
    rw [rename, free, Expr.flatMap_names_rename]
    exact h.map_subset hs
  | .loop head body, scope, bound, h, hs => by
    obtain ⟨hreads, hbody⟩ := List.append_subset.mp hs
    rw [rename, free, LoopHead.reads_rename, List.append_subset, LoopHead.unbound_subset_iff]
    rw [LoopHead.unbound_subset_iff] at hbody
    exact ⟨h.map_subset hreads, freeAll_renameAll body (h.under head.vars) hbody⟩

/--
A renaming that carries one scope over to another one moves statements between them.
-/
theorem freeAll_renameAll : ∀ (body : List Stmt) {scope bound : List String},
    ρ.Carries scope bound → freeAll body ⊆ scope → freeAll (renameAll ρ body) ⊆ bound
  | [], _, _, _, _ => by simp [renameAll, freeAll]
  | s :: rest, scope, bound, h, hbody => by
    obtain ⟨hs, hrest⟩ := List.append_subset.mp hbody
    rw [renameAll, freeAll, List.append_subset]
    exact ⟨free_rename s h hs, freeAll_renameAll rest h hrest⟩

end

end Stmt

/--
A body in which all variables are bound, given the scope that it stands in, and in which sequential
loops have one variable each.
-/
structure Scoped (scope : List String) (body : List Stmt) : Prop where
  free : Stmt.freeAll body ⊆ scope
  single : ∀ head ∈ Stmt.headsAll body, head.Single

namespace Scoped

variable {scope bound : List String} {body body' rest : List Stmt} {head : LoopHead} {ρ : Renaming}

theorem append_iff : Scoped scope (body ++ body') ↔ Scoped scope body ∧ Scoped scope body' := by
  constructor
  . rintro ⟨hfree, hsingle⟩
    rw [Stmt.freeAll_append, List.append_subset] at hfree
    rw [Stmt.headsAll_append, List.forall_mem_append] at hsingle
    exact ⟨⟨hfree.1, hsingle.1⟩, ⟨hfree.2, hsingle.2⟩⟩
  . rintro ⟨h, h'⟩
    constructor
    . rw [Stmt.freeAll_append, List.append_subset]
      exact ⟨h.free, h'.free⟩
    . rw [Stmt.headsAll_append, List.forall_mem_append]
      exact ⟨h.single, h'.single⟩

/--
The bounds of a loop stand in the scope around it, and its body sees its variables in addition.
-/
theorem loop_iff : Scoped scope [.loop head body] ↔
    head.reads ⊆ scope ∧ head.Single ∧ Scoped (scope ++ head.vars) body := by
  have hfree : Stmt.freeAll [.loop head body] ⊆ scope ↔
      head.reads ⊆ scope ∧ Stmt.freeAll body ⊆ scope ++ head.vars := by
    simp only [Stmt.freeAll, Stmt.free, List.append_nil]
    rw [List.append_subset, LoopHead.unbound_subset_iff]
  have hsingle : (∀ head' ∈ Stmt.headsAll [.loop head body], head'.Single) ↔
      head.Single ∧ ∀ head' ∈ Stmt.headsAll body, head'.Single := by
    simp only [Stmt.headsAll, Stmt.heads, List.append_nil]
    exact List.forall_mem_cons
  constructor
  . intro h
    obtain ⟨hreads, hbody⟩ := hfree.mp h.free
    obtain ⟨hhead, hinner⟩ := hsingle.mp h.single
    exact ⟨hreads, hhead, hbody, hinner⟩
  . rintro ⟨hreads, hhead, hbody⟩
    exact ⟨hfree.mpr ⟨hreads, hbody.free⟩, hsingle.mpr ⟨hhead, hbody.single⟩⟩

theorem renameAll (h : Scoped scope body) (hcarries : ρ.Carries scope bound) :
    Scoped bound (Stmt.renameAll ρ body) := by
  refine ⟨Stmt.freeAll_renameAll body hcarries h.free, ?_⟩
  intro head hhead
  rw [Stmt.headsAll_renameAll] at hhead
  obtain ⟨head, hmem, rfl⟩ := List.mem_map.mp hhead
  exact (h.single head hmem).rename ρ

end Scoped

namespace Control

variable {scope bound : List String} {source before after nest nest' : List Stmt} {loop met : Nest}
  {ρ : Renaming} {used used' : Nat} {place : Place}

theorem SplitsAt.scoped_iff (h : SplitsAt source before loop after) :
    Scoped scope source ↔
      Scoped scope before ∧ Scoped scope [.loop loop.head loop.body] ∧ Scoped scope after := by
  rw [h.eq, List.append_cons, Scoped.append_iff, Scoped.append_iff, and_assoc]

theorem SplitsAt.scoped_body (h : SplitsAt source before loop after)
    (hsource : Scoped scope source) :
    loop.head.vars.length = 1 ∧ Scoped (scope ++ loop.head.vars) loop.body := by
  obtain ⟨_, hloop, _⟩ := h.scoped_iff.mp hsource
  obtain ⟨_, hsingle, hbody⟩ := Scoped.loop_iff.mp hloop
  exact ⟨hsingle h.sequential, hbody⟩

/--
A loop of the nest stays in its place with another body.
-/
theorem SplitsAt.scoped_replace (h : SplitsAt nest before met after) (hnest : Scoped bound nest)
    {inner : List Stmt} (hinner : Scoped (bound ++ met.head.vars) inner) :
    Scoped bound (before ++ .loop met.head inner :: after) := by
  obtain ⟨hbefore, hmet, hafter⟩ := h.scoped_iff.mp hnest
  obtain ⟨hreads, hsingle, _⟩ := Scoped.loop_iff.mp hmet
  rw [(h.replace inner).scoped_iff]
  exact ⟨hbefore, Scoped.loop_iff.mpr ⟨hreads, hsingle, hinner⟩, hafter⟩

theorem scoped_put {s : Stmt} (hs : Scoped bound [s]) (hnest : Scoped bound nest) (place : Place) :
    Scoped bound (place.put s nest) := by
  cases place with
  | first => exact Scoped.append_iff.mpr ⟨hs, hnest⟩
  | last => exact Scoped.append_iff.mpr ⟨hnest, hs⟩

theorem scoped_copyLoop (h : Scoped scope [.loop loop.head loop.body])
    (hkind : loop.head.kind = .sequential) (hcarries : ρ.Carries scope bound) (used : Nat) :
    Scoped bound [copyLoop ρ used loop] := by
  obtain ⟨hreads, hsingle, hbody⟩ := Scoped.loop_iff.mp h
  have hlength := length_freshVars used loop.head.vars.length
  refine Scoped.loop_iff.mpr ⟨?_, fun _ => ?_, hbody.renameAll (hcarries.extend hlength)⟩
  . -- the bounds are renamed before the loop has its new variables
    have hrename := hcarries.map_subset hreads
    rwa [← LoopHead.reads_rename] at hrename
  . exact hlength.trans (hsingle hkind)

/--
What is brought into the nest finds its variables bound there.
-/
theorem Merges.scoped (h : Merges ρ used place source nest nest' used')
    (hcarries : ρ.Carries scope bound) (hsource : Scoped scope source)
    (hnest : Scoped bound nest) : Scoped bound nest' := by
  -- a loop that is gone into adds its variables to one scope, the loop that it meets to the other
  induction h generalizing scope bound with
  | copy hsplit =>
    obtain ⟨_, hloop, _⟩ := hsplit.scoped_iff.mp hsource
    exact scoped_put (scoped_copyLoop hloop hsplit.sequential hcarries _) hnest _
  | append hsplit hsplit' =>
    obtain ⟨hone, hbody⟩ := hsplit.scoped_body hsource
    obtain ⟨hone', hbody'⟩ := hsplit'.scoped_body hnest
    have hextend := hcarries.extend (hone'.trans hone.symm)
    apply hsplit'.scoped_replace hnest
    exact Scoped.append_iff.mpr ⟨hbody', hbody.renameAll hextend⟩
  | enter hsplit hsplit' _ _ _ ih =>
    obtain ⟨hone, hbody⟩ := hsplit.scoped_body hsource
    obtain ⟨hone', hbody'⟩ := hsplit'.scoped_body hnest
    have hextend := hcarries.extend (hone'.trans hone.symm)
    exact hsplit'.scoped_replace hnest (ih hextend hbody hbody')

theorem carries_cellRenaming (c : Control) {head : LoopHead} (hvars : head.vars.length = 2) :
    (c.cellRenaming head).Carries head.vars c.walk.vars := by
  have hnil : Renaming.Carries [] [] [] := by
    intro x hx
    cases hx
  exact hnil.extend hvars.symm

/--
All variables of the nest are bound if they were before, and those of the loop that is folded, too.
-/
theorem Takes.scoped {c c' : Control} {s : Stmt} (h : Takes c used s c' used')
    (hs : ∀ head body, s = .loop head body → isCandidate s → Scoped head.vars body)
    (hc : Scoped c.walk.vars c.body) : Scoped c'.walk.vars c'.body := by
  cases h with
  | launch => exact hc
  | drop => exact hc
  | direct hcandidate hvars =>
    have hbody := hs _ _ rfl hcandidate
    exact Scoped.append_iff.mpr ⟨hc, hbody.renameAll (carries_cellRenaming c hvars)⟩
  | nested hcandidate hvars _ _ hmerges =>
    exact hmerges.scoped (carries_cellRenaming c hvars) (hs _ _ rfl hcandidate) hc

theorem takeAll_scoped {c c' : Control} {rest : List Stmt}
    (h : rest.foldlM takeStmt (c, used) = .ok (c', used'))
    (hrest : ∀ head body, .loop head body ∈ rest → isCandidate (.loop head body) →
      Scoped head.vars body)
    (hc : Scoped c.walk.vars c.body) : Scoped c'.walk.vars c'.body ∧ c'.walk = c.walk := by
  induction rest generalizing c used with
  | nil =>
    obtain ⟨rfl, rfl⟩ := Prod.mk.inj (Except.ok.inj h)
    exact ⟨hc, rfl⟩
  | cons s rest ih =>
    obtain ⟨c₁, used₁, _, htakes, hfold⟩ := takeAll_cons h
    rw [← htakes.walk_eq]
    apply ih hfold
    . intro head body hmem
      exact hrest head body (List.mem_cons_of_mem s hmem)
    . apply htakes.scoped _ hc
      rintro head body rfl
      exact hrest head body List.mem_cons_self

/--
If all variables inside the parallel loops are bound there, and each sequential loop has one
variable, then the control program has no loose variables besides those of its nest.
-/
theorem ofHost?_closed {host : Host} {outer inner : Nat} {c : Control}
    (h : ofHost? host outer inner = .ok (some c))
    (hsingle : ∀ s ∈ host.body, isCandidate s → ∀ head ∈ s.innerHeads, head.Single)
    (hbound : ∀ s ∈ host.body, isCandidate s → s.innerFree = []) :
    Stmt.freeAll c.body ⊆ ["ctrl_x", "ctrl_y"] := by
  obtain ⟨used, hfold⟩ := (ofHost?_folds host outer inner).of_eq_ok h
  have hbody : ∀ head body, .loop head body ∈ host.body → isCandidate (.loop head body) →
      Scoped head.vars body := by
    intro head body hmem hcandidate
    refine ⟨?_, hsingle _ hmem hcandidate⟩
    have hnone : head.unbound (Stmt.freeAll body) = [] := hbound _ hmem hcandidate
    have hsubset := LoopHead.unbound_subset_iff.mp (List.subset_nil.mpr hnone)
    rwa [List.nil_append] at hsubset
  have hidle : Scoped (idle outer inner).walk.vars (idle outer inner).body := by
    constructor
    . exact List.nil_subset _
    . intro head hhead
      cases hhead
  obtain ⟨hscoped, hwalk⟩ := takeAll_scoped hfold hbody hidle
  rw [hwalk] at hscoped
  exact hscoped.free

/--
Two parallel loops. In the first one, inner bounds speak of outer variables; in the second one, the
inner loop binds the variable of the outer loop once more, and its lower bound means the outer one.
-/
def staircase : Host where
  name := "staircase"
  body := [
    .loop (.parallel ["x", "y"] [2, 3]) [.loop (.sequential "k" 0 8 1) [
      .loop ⟨.sequential, ["m"], [.var "k"], [.add (.var "x") (.const 4)], [.const 1]⟩
        [.launch 1 [.var "m", .var "y"]]]],
    .loop (.parallel ["a", "b"] [2, 3]) [
      .loop ⟨.sequential, ["k"], [.var "a"], [.const 8], [.const 1]⟩ [
        .loop ⟨.sequential, ["k"], [.var "k"], [.var "b"], [.const 1]⟩ [
          .launch 2 [.var "a", .var "k"],
          .loop (.sequential "n" 0 4 1) [.launch 3 [.var "n", .var "k"]]]]]]

/--
The inner loop of the first parallel loop keeps its name. What comes from the second one is renamed
to it.
-/
theorem ofHost?_staircase_closed : ∃ c, ofHost? staircase 2 3 = .ok (some c) ∧
    (∀ s ∈ staircase.body, isCandidate s → ∀ head ∈ s.innerHeads, head.Single) ∧
    (∀ s ∈ staircase.body, isCandidate s → s.innerFree = []) ∧
    Stmt.freeAll c.body ⊆ ["ctrl_x", "ctrl_y"] := by
  have h : ofHost? staircase 2 3 = .ok (some ⟨[], "ctrl_x", "ctrl_y", 2, 3,
      [.loop (.sequential "ctrl_iv1" 0 8 1) [
        .loop ⟨.sequential, ["m"], [.var "ctrl_iv1"], [.add (.var "ctrl_x") (.const 4)],
          [.const 1]⟩ [
          .launch 1 [.var "m", .var "ctrl_y"],
          .launch 2 [.var "ctrl_x", .var "m"],
          .loop (.sequential "n" 0 4 1) [.launch 3 [.var "n", .var "m"]]]]]⟩) := by
    cbv
  have hsingle : ∀ s ∈ staircase.body, isCandidate s → ∀ head ∈ s.innerHeads, head.Single := by
    decide
  have hbound : ∀ s ∈ staircase.body, isCandidate s → s.innerFree = [] := by
    decide
  exact ⟨_, h, hsingle, hbound, ofHost?_closed h hsingle hbound⟩

/--
A loop with two variables that meets a loop with one variable: its second variable gets loose.
-/
def uneven : Host where
  name := "uneven"
  body := [
    .loop (.parallel ["x", "y"] [2, 2]) [.loop (.sequential "k" 0 8 1) [.launch 1 [.var "k"]]],
    .loop (.parallel ["x", "y"] [2, 2]) [
      .loop ⟨.sequential, ["m", "n"], [.const 0, .const 0], [.const 4, .const 4],
        [.const 1, .const 1]⟩ [.launch 2 [.var "m", .var "n"]]]]

example : ∃ c, ofHost? uneven 2 2 = .ok (some c) ∧ Stmt.freeAll c.body = ["n"] := by
  refine ⟨⟨[], "ctrl_x", "ctrl_y", 2, 2, [.loop (.sequential "ctrl_iv1" 0 8 1)
    [.launch 1 [.var "ctrl_iv1"], .launch 2 [.var "ctrl_iv1", .var "n"]]]⟩, ?_, ?_⟩
  . cbv
  . decide

end Control

end TileTraffic
