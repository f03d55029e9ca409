import TileTraffic.Host.Control
import TileTraffic.Proofs.Outcome
import TileTraffic.Proofs.Success

/-!
What folding does, step by step. A path leads to a body that is there, and the nest is changed at
the end of a path only. So bringing loops into the nest comes down to three rules (`Merges`), and
taking over a statement of the host program to four (`Takes`). Folding never loses its way: if it
fails, the shape of the host program is to blame.
-/

namespace TileTraffic

/--
The result of `x` satisfies `P`, unless `x` refuses the shape of the host program.
-/
def Folds {α : Type} (x : Except CompileError α) (P : α → Prop) : Prop :=
  match x with
  | .ok a => P a
  | .error e => ∃ fault, e = .incompleteFold fault

namespace Folds

variable {α β : Type} {x : Except CompileError α} {P Q : α → Prop}

theorem pure {a : α} (h : P a) : Folds (Pure.pure a) P :=
  h

theorem throw (fault : FoldFault) : Folds (MonadExcept.throw (.incompleteFold fault)) P :=
  ⟨fault, rfl⟩

theorem of_eq_ok (h : Folds x P) {a : α} (ha : x = .ok a) : P a := by
  subst ha
  exact h

theorem mono (h : Folds x P) (hPQ : ∀ a, P a → Q a) : Folds x Q := by
  cases x with
  | ok a => exact hPQ a h
  | error e => exact h

theorem bind {f : α → Except CompileError β} {R : β → Prop} (h : Folds x P)
    (hf : ∀ a, P a → Folds (f a) R) : Folds (x >>= f) R := by
  cases x with
  | ok a => exact hf a h
  | error e => exact h

theorem yields (h : Folds x P) : Yields x P := by
  cases x with
  | ok a => exact h
  | error e =>
    obtain ⟨fault, rfl⟩ := h
    exact Yields.error rfl

end Folds

namespace Control

variable {body inner nest source : List Stmt} {path : Path} {index : Nat}

/--
The first sequential loop of a body, with what stands before and behind it.
-/
structure SplitsAt (body before : List Stmt) (loop : Nest) (after : List Stmt) : Prop where
  eq : body = before ++ .loop loop.head loop.body :: after
  sequential : loop.head.kind = .sequential
  none_before : ∀ s ∈ before, s.isSequential = false

theorem exists_splitsAt_of_firstLoop? (h : firstLoop? body = some index) :
    ∃ before loop after, SplitsAt body before loop after ∧ before.length = index := by
  obtain ⟨hlt, hloop, hbefore⟩ := List.findIdx?_eq_some_iff_getElem.mp h
  cases hs : body[index] with
  | launch =>
    rw [hs] at hloop
    cases hloop
  | loop head inner =>
    rw [hs] at hloop
    refine ⟨body.take index, ⟨head, inner⟩, body.drop (index + 1), ⟨?_, ?_, ?_⟩, ?_⟩
    . dsimp only
      rw [← hs, ← List.drop_eq_getElem_cons hlt, List.take_append_drop]
    . simpa [Stmt.isSequential] using hloop
    . intro s hs
      obtain ⟨n, hn, rfl⟩ := List.mem_take_iff_getElem.mp hs
      simpa using hbefore n (by omega)
    . rw [List.length_take]
      omega

theorem spine_cons {s : Stmt} (h : s.isSequential = false) : spine (s :: body) = spine body := by
  cases s with
  | launch => rw [spine]
  | loop head inner =>
    have hkind : head.kind ≠ .sequential := by simpa [Stmt.isSequential] using h
    rw [spine, if_neg hkind]

theorem spine_eq_nil (h : firstLoop? body = none) : spine body = [] := by
  unfold firstLoop? at h
  rw [List.findIdx?_eq_none_iff] at h
  induction body with
  | nil => rw [spine]
  | cons s body ih =>
    rw [spine_cons (h s List.mem_cons_self)]
    exact ih fun x hx => h x (List.mem_cons_of_mem s hx)

theorem SplitsAt.spine_eq {before after : List Stmt} {loop : Nest}
    (h : SplitsAt body before loop after) : spine body = loop :: spine loop.body := by
  obtain ⟨rfl, hkind, hbefore⟩ := h
  induction before with
  | nil => rw [List.nil_append, spine, if_pos hkind]
  | cons s before ih =>
    rw [List.cons_append, spine_cons (hbefore s List.mem_cons_self)]
    exact ih fun x hx => hbefore x (List.mem_cons_of_mem s hx)

theorem exists_splitsAt_of_spine {loop : Nest} {row : List Nest} (h : spine body = loop :: row) :
    ∃ before after, SplitsAt body before loop after ∧ row = spine loop.body := by
  cases hfirst : firstLoop? body with
  | none =>
    rw [spine_eq_nil hfirst] at h
    cases h
  | some index =>
    obtain ⟨before, loop', after, hsplit, _⟩ := exists_splitsAt_of_firstLoop? hfirst
    rw [hsplit.spine_eq] at h
    obtain ⟨rfl, rfl⟩ := List.cons.inj h
    exact ⟨before, after, hsplit, rfl⟩

theorem bodyAt?_append {head : LoopHead} (h : bodyAt? path nest = some body)
    (hloop : body[index]? = some (.loop head inner)) :
    bodyAt? (path ++ [index]) nest = some inner := by
  induction path generalizing nest with
  | nil =>
    obtain rfl := Option.some.inj h
    simp [bodyAt?, hloop]
  | cons i path ih =>
    rw [List.cons_append]
    unfold bodyAt? at h ⊢
    split at h
    . exact ih h
    . cases h

theorem exists_editAt? (f : List Stmt → List Stmt) (h : bodyAt? path nest = some body) :
    ∃ nest', editAt? f path nest = some nest' ∧
      editAt? (fun _ => f body) path nest = some nest' := by
  induction path generalizing nest with
  | nil =>
    obtain rfl := Option.some.inj h
    exact ⟨f nest, rfl, rfl⟩
  | cons i path ih =>
    unfold bodyAt? at h
    unfold editAt?
    split at h
    . obtain ⟨nest', hedit, hput⟩ := ih h
      rw [hedit, hput]
      exact ⟨_, rfl, rfl⟩
    . cases h

theorem editAt?_append (f : List Stmt → List Stmt) {head : LoopHead}
    (h : bodyAt? path nest = some body) (hloop : body[index]? = some (.loop head inner)) :
    editAt? f (path ++ [index]) nest =
      editAt? (fun _ => body.set index (.loop head (f inner))) path nest := by
  induction path generalizing nest with
  | nil =>
    obtain rfl := Option.some.inj h
    simp [editAt?, hloop]
  | cons i path ih =>
    rw [List.cons_append]
    unfold bodyAt? at h
    unfold editAt?
    split at h
    . rw [ih h]
    . cases h

theorem SplitsAt.getElem? {before after : List Stmt} {loop : Nest}
    (h : SplitsAt body before loop after) :
    body[before.length]? = some (.loop loop.head loop.body) := by
  rw [h.eq, List.getElem?_append_right (Nat.le_refl _), Nat.sub_self]
  rfl

theorem SplitsAt.set {before after : List Stmt} {loop : Nest} (h : SplitsAt body before loop after)
    (s : Stmt) : body.set before.length s = before ++ s :: after := by
  rw [h.eq, List.set_append_right _ _ (Nat.le_refl _), Nat.sub_self]
  rfl

theorem SplitsAt.replace {before after : List Stmt} {loop : Nest}
    (h : SplitsAt body before loop after) (inner : List Stmt) :
    SplitsAt (before ++ .loop loop.head inner :: after) before ⟨loop.head, inner⟩ after :=
  ⟨rfl, h.sequential, h.none_before⟩

theorem varsAt_eq {before after : List Stmt} {loop : Nest} (h : bodyAt? path nest = some body)
    (hsplit : SplitsAt body before loop after) :
    varsAt nest path before.length = .ok loop.head.vars := by
  unfold varsAt
  rw [h, Option.bind_some, hsplit.getElem?]

/--
What it comes to when the first loop of `source` is brought into the body `nest` of a loop. It is
copied if there is no loop in `nest`. Otherwise it is merged into the first one there: what it holds
is appended if it launches something itself, and else it is gone into.
-/
inductive Merges :
    Renaming → Nat → Place → List Stmt → List Stmt → List Stmt → Nat → Prop where
  | copy {ρ : Renaming} {used : Nat} {place : Place} {source nest before after : List Stmt}
      {loop : Nest} (hsource : SplitsAt source before loop after)
      (hnest : firstLoop? nest = none) :
      Merges ρ used place source nest (place.put (copyLoop ρ used loop) nest)
        (used + loop.head.vars.length)
  | append {ρ : Renaming} {used : Nat} {place : Place} {source nest : List Stmt}
      {before after before' after' : List Stmt} {loop met : Nest}
      (hsource : SplitsAt source before loop after) (hnest : SplitsAt nest before' met after')
      (hlaunch : 0 < launchCount loop.body) :
      Merges ρ used place source nest
        (before' ++ .loop met.head (met.body ++
          Stmt.renameAll (ρ.extend loop.head.vars met.head.vars) loop.body) :: after') used
  | enter {ρ : Renaming} {used used' : Nat} {place : Place} {source nest inner : List Stmt}
      {before after before' after' : List Stmt} {loop met : Nest}
      (hsource : SplitsAt source before loop after) (hnest : SplitsAt nest before' met after')
      (hnone : launchCount loop.body = 0) (hone : loopCount loop.body ≤ 1)
      (hinner : Merges (ρ.extend loop.head.vars met.head.vars) used .first loop.body met.body inner
        used') :
      Merges ρ used place source nest (before' ++ .loop met.head inner :: after') used'

theorem expect_folds {α : Type} {x : Option α} {a : α} {P : α → Prop} (h : x = some a)
    (ha : P a) : Folds (expect x) P := by
  subst h
  exact ha

theorem followLoops_folds (ρ : Renaming) (used : Nat) (place : Place) (source : List Stmt)
    (h : bodyAt? path nest = some body) :
    Folds (followLoops ρ used place nest path (firstLoop? body) (spine source)) fun r =>
      ∃ body', editAt? (fun _ => body') path nest = some r.1 ∧
        Merges ρ used place source body body' r.2 := by
  generalize hrow : spine source = row
  -- the row is what is left of the loops to bring in: each round of it is a rule of `Merges`
  induction row generalizing ρ place path body source with
  | nil => exact ⟨_, rfl⟩
  | cons loop row ih =>
    obtain ⟨before, after, hsource, rfl⟩ := exists_splitsAt_of_spine hrow
    unfold followLoops
    cases hchild : firstLoop? body with
    | none =>
      obtain ⟨nest', hedit, hput⟩ :=
        exists_editAt? (fun body => place.put (copyLoop ρ used loop) body) h
      apply Folds.bind (P := fun r => r = nest') (expect_folds hedit rfl)
      rintro _ rfl
      exact Folds.pure ⟨_, hput, .copy hsource hchild⟩
    | some index =>
      obtain ⟨before', met, after', hnest, rfl⟩ := exists_splitsAt_of_firstLoop? hchild
      -- the path may be extended by the loop that was found at its end
      have hinner := bodyAt?_append h hnest.getElem?
      dsimp only
      rw [varsAt_eq h hnest]
      show Folds (if _ then _ else _) _
      split
      . next hlaunch =>
        obtain ⟨nest', hedit, _⟩ := exists_editAt? (fun body =>
          body ++ Stmt.renameAll (ρ.extend loop.head.vars met.head.vars) loop.body) hinner
        apply Folds.bind (P := fun r => r = nest') (expect_folds hedit rfl)
        rintro _ rfl
        rw [editAt?_append _ h hnest.getElem?, hnest.set] at hedit
        exact Folds.pure ⟨_, hedit, .append hsource hnest hlaunch⟩
      . next hlaunch =>
        split
        . exact Folds.throw _
        . next hone =>
          apply Folds.bind (P := fun r => r = met.body) (expect_folds hinner rfl)
          rintro _ rfl
          apply (ih _ .first loop.body hinner rfl).mono
          rintro r ⟨inner, hedit, hmerges⟩
          rw [editAt?_append _ h hnest.getElem?, hnest.set] at hedit
          exact ⟨_, hedit, .enter hsource hnest (by omega) (by omega) hmerges⟩

/--
The variables of a parallel loop are those of the nest.
-/
def cellRenaming (c : Control) (head : LoopHead) : Renaming :=
  Renaming.extend [] head.vars [c.outerVar, c.innerVar]

/--
What taking over a statement comes to. What a parallel loop launches itself goes to the end of the
nest. If it launches nothing itself, its one sequential loop is brought into the nest.
-/
inductive Takes (c : Control) (used : Nat) : Stmt → Control → Nat → Prop where
  | launch (op : Nat) (operands : List Expr) :
      Takes c used (.launch op operands)
        { c with prologue := c.prologue ++ [.launch op operands] } used
  | drop {head : LoopHead} {body : List Stmt} (hnone : Stmt.anyLaunches body = false) :
      Takes c used (.loop head body) c used
  | direct {head : LoopHead} {body : List Stmt} (hcandidate : isCandidate (.loop head body))
      (hvars : head.vars.length = 2) (hlaunch : launchCount body = 1)
      (hloops : loopCount body = 0) :
      Takes c used (.loop head body)
        { c with body := c.body ++ Stmt.renameAll (c.cellRenaming head) body } used
  | nested {head : LoopHead} {body nest : List Stmt} {used' : Nat}
      (hcandidate : isCandidate (.loop head body)) (hvars : head.vars.length = 2)
      (hlaunch : launchCount body = 0) (hone : loopCount body ≤ 1)
      (hmerges : Merges (c.cellRenaming head) used .last body c.body nest used') :
      Takes c used (.loop head body) { c with body := nest } used'

theorem isCandidate_loop_iff {head : LoopHead} {body : List Stmt} :
    isCandidate (.loop head body) = true ↔
      head.kind = .parallel ∧ Stmt.anyLaunches body = true := by
  simp [isCandidate]

theorem foldParallel_folds (c : Control) (used : Nat) {head : LoopHead} {body : List Stmt}
    (hcandidate : isCandidate (.loop head body)) :
    Folds (foldParallel c used head body) fun r => Takes c used (.loop head body) r.1 r.2 := by
  unfold foldParallel
  split
  . exact ⟨_, rfl⟩
  . next hvars =>
    have hvars : head.vars.length = 2 := by omega
    dsimp only
    split
    . next hlaunch =>
      split
      . exact ⟨_, rfl⟩
      . next hsingle => exact .direct hcandidate hvars (by omega) (by omega)
    . next hlaunch =>
      split
      . exact ⟨_, rfl⟩
      . next hone =>
        have hroot : bodyAt? [] c.body = some c.body := rfl
        apply (followLoops_folds _ used .last body hroot).bind
        rintro ⟨nest, used'⟩ ⟨nest', hedit, hmerges⟩
        obtain rfl := Option.some.inj hedit
        exact Folds.pure (.nested hcandidate hvars (by omega) (by omega) hmerges)

theorem takeStmt_folds (state : Control × Nat) (s : Stmt) :
    Folds (takeStmt state s) fun r => Takes state.1 state.2 s r.1 r.2 := by
  unfold takeStmt
  split
  . exact .launch _ _
  . next head body =>
    split
    . next hnone => exact .drop (by simpa using hnone)
    . next hany =>
      split
      . next hkind =>
        apply foldParallel_folds
        exact isCandidate_loop_iff.mpr ⟨hkind, by simpa using hany⟩
      . exact ⟨_, rfl⟩

theorem takeAll_folds (state : Control × Nat) (stmts : List Stmt) :
    Folds (stmts.foldlM takeStmt state) fun _ => True := by
  induction stmts generalizing state with
  | nil => trivial
  | cons s rest ih =>
    rw [List.foldlM_cons]
    apply (takeStmt_folds state s).bind
    intro state' _
    exact ih state'

theorem takeAll_cons {c c' : Control} {used used' : Nat} {s : Stmt} {rest : List Stmt}
    (h : (s :: rest).foldlM takeStmt (c, used) = .ok (c', used')) :
    ∃ c₁ used₁, takeStmt (c, used) s = .ok (c₁, used₁) ∧ Takes c used s c₁ used₁ ∧
      rest.foldlM takeStmt (c₁, used₁) = .ok (c', used') := by
  rw [List.foldlM_cons] at h
  obtain ⟨⟨c₁, used₁⟩, htake, hrest⟩ := bind_eq_ok h
  exact ⟨c₁, used₁, htake, (takeStmt_folds _ s).of_eq_ok htake, hrest⟩

theorem ofHost?_folds (host : Host) (outer inner : Nat) :
    Folds (ofHost? host outer inner) fun
      | none => host.body.any isCandidate = false
      | some c => ∃ used, host.body.foldlM takeStmt (idle outer inner, 0) = .ok (c, used) := by
  unfold ofHost?
  split
  . cases hfold : host.body.foldlM takeStmt (idle outer inner, 0) with
    | ok state => exact ⟨state.2, rfl⟩
    | error e =>
      have hfails := takeAll_folds (idle outer inner, 0) host.body
      rw [hfold] at hfails
      exact hfails
  . next hnone =>
    show host.body.any isCandidate = false
    simpa using hnone

theorem ofHost?_yields (host : Host) (outer inner : Nat) :
    Yields (ofHost? host outer inner) fun _ => True :=
  (ofHost?_folds host outer inner).yields.mono fun _ _ => trivial

end Control

end TileTraffic
