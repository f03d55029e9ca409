import TileTraffic.Proofs.Host.Spaces
import TileTraffic.Proofs.Host.Trace

/-!
A parallel loop that is folded alone keeps its meaning: the control program launches the same ops,
in the same order and with the same operands, as the loop does cell by cell. The variables of the
nest and those of copied loops are told apart from all others as long as the host program has no
names of their kind.
-/

namespace TileTraffic

theorem Expr.map_eval_of_map_value? {es : List Expr} (ns : List Int)
    (h : es.map Expr.value? = ns.map some) (σ : Valuation) : es.map (Expr.eval σ) = ns := by
  induction es generalizing ns with
  | nil =>
    cases ns with
    | nil => rfl
    | cons n ns => cases h
  | cons e es ih =>
    cases ns with
    | nil => cases h
    | cons n ns =>
      obtain ⟨he, hes⟩ := List.cons.inj h
      rw [List.map_cons, eval_of_value? he, ih ns hes]

/--
The loop walks the cells of a region: two variables run from 0 to the extents, in steps of 1.
-/
structure LoopHead.Walks (head : LoopHead) (outer inner : Nat) : Prop where
  lower : head.lower.map Expr.value? = [some 0, some 0]
  upper : head.upper.map Expr.value? = [some (outer : Int), some (inner : Int)]
  step : head.step.map Expr.value? = [some 1, some 1]

theorem LoopHead.Walks.cells_eq {head : LoopHead} {outer inner : Nat}
    (h : head.Walks outer inner) (rounds : Nat) (σ : Valuation) :
    head.cells rounds σ =
      TileTraffic.cells rounds [0, 0] [(outer : Int), (inner : Int)] [1, 1] := by
  unfold cells
  rw [Expr.map_eval_of_map_value? [0, 0] h.lower,
    Expr.map_eval_of_map_value? [(outer : Int), (inner : Int)] h.upper,
    Expr.map_eval_of_map_value? [1, 1] h.step]

namespace Control

/--
The names that folding gives to variables.
-/
def Reserved (name : String) : Prop :=
  name = "ctrl_x" ∨ name = "ctrl_y" ∨ ∃ n : Nat, name = s!"ctrl_iv{n}"

theorem toList_freshVar (n : Nat) :
    (s!"ctrl_iv{n}").toList = ['c', 't', 'r', 'l', '_', 'i', 'v'] ++ Nat.toDigits 10 n := by
  rw [String.toList_append, Nat.toString_eq_ofList_toDigits, String.toList_ofList]
  rfl

theorem Reserved.prefix_toList {name : String} (h : Reserved name) :
    ['c', 't', 'r', 'l', '_'] <+: name.toList := by
  rcases h with rfl | rfl | ⟨n, rfl⟩
  . decide
  . decide
  . rw [toList_freshVar]
    exact ⟨['i', 'v'] ++ Nat.toDigits 10 n, rfl⟩

theorem length_freshVars (used count : Nat) : (freshVars used count).length = count := by
  simp [freshVars]

theorem freshVars_nodup (used count : Nat) : (freshVars used count).Nodup := by
  unfold freshVars
  apply List.Nodup.map _ List.nodup_range'
  intro m n h
  have hchars := congrArg String.toList h
  rw [toList_freshVar, toList_freshVar, List.append_cancel_left_eq] at hchars
  rw [← Nat.ofDigitChars_ten_toDigits (n := m), hchars, Nat.ofDigitChars_ten_toDigits]

theorem reserved_of_mem_freshVars {used count : Nat} {name : String}
    (h : name ∈ freshVars used count) : Reserved name := by
  obtain ⟨n, _, rfl⟩ := List.mem_map.mp h
  exact .inr (.inr ⟨n, rfl⟩)

theorem not_mem_freshVars {used count : Nat} {name : String} (h : name ∈ ["ctrl_x", "ctrl_y"]) :
    name ∉ freshVars used count := by
  intro hmem
  obtain ⟨n, _, rfl⟩ := List.mem_map.mp hmem
  have hstart : ['c', 't', 'r', 'l', '_', 'i'] <+: (s!"ctrl_iv{n}").toList := by
    rw [toList_freshVar]
    exact ⟨'v' :: Nat.toDigits 10 n, rfl⟩
  have hnone : ∀ x ∈ ["ctrl_x", "ctrl_y"], ¬ ['c', 't', 'r', 'l', '_', 'i'] <+: x.toList := by
    decide
  exact hnone _ h hstart

variable {ρ : Renaming} {names : List String} {σ τ : Valuation} {c c' : Control}
  {used used' : Nat} {head : LoopHead} {body : List Stmt}

/--
A copied loop does what the loop did: its bounds are evaluated before its new variables are bound.
-/
theorem trace_copyLoop {loop : Nest} (rounds : Nat) (h : ρ.Embeds names σ τ)
    (hnames : (Stmt.loop loop.head loop.body).names ⊆ names) (hwell : loop.head.WellFormed)
    (hfresh : ∀ x ∈ names, ρ.apply x ∉ freshVars used loop.head.vars.length) :
    (copyLoop ρ used loop).trace rounds τ = (Stmt.loop loop.head loop.body).trace rounds σ := by
  obtain ⟨hhead, hbody⟩ := List.append_subset.mp hnames
  have hcells := LoopHead.cells_rename rounds h hhead
  unfold LoopHead.rename LoopHead.cells at hcells
  simp only [copyLoop, Stmt.trace, LoopHead.cells, hcells]
  apply Cut.flatMap_congr
  intro cell hcell
  apply Stmt.traceAll_renameAll rounds _ (h.extend _ _ (freshVars_nodup used _) hfresh) hbody
  . exact length_freshVars ..
  . exact hwell.length_of_mem_cells hcell

def walk (c : Control) : LoopHead :=
  .parallel [c.outerVar, c.innerVar] [(c.outerExtent : Int), (c.innerExtent : Int)]

/--
The nest as a loop over its cells.
-/
def nest (c : Control) : Stmt :=
  .loop c.walk c.body

theorem Takes.walk_eq {s : Stmt} (h : Takes c used s c' used') : c'.walk = c.walk := by
  cases h <;> rfl

theorem Takes.body_eq {s : Stmt} (h : Takes c used s c' used') (hs : isCandidate s = false) :
    c'.body = c.body ∧ used' = used := by
  cases h with
  | launch => exact ⟨rfl, rfl⟩
  | drop => exact ⟨rfl, rfl⟩
  | direct hcandidate => simp [hcandidate] at hs
  | nested hcandidate => simp [hcandidate] at hs

theorem takeAll_of_filter_eq_nil {rest : List Stmt}
    (h : rest.foldlM takeStmt (c, used) = .ok (c', used')) (hnone : rest.filter isCandidate = []) :
    c'.body = c.body ∧ c'.walk = c.walk := by
  induction rest generalizing c used with
  | nil =>
    obtain ⟨rfl, rfl⟩ := Prod.mk.inj (Except.ok.inj h)
    exact ⟨rfl, rfl⟩
  | cons s rest ih =>
    obtain ⟨c₁, used₁, _, htakes, hrest⟩ := takeAll_cons h
    rw [List.filter_eq_nil_iff, List.forall_mem_cons] at hnone
    obtain ⟨hs, hnone⟩ := hnone
    obtain ⟨hbody, hwalk⟩ := ih hrest (List.filter_eq_nil_iff.mpr hnone)
    rw [hbody, hwalk, htakes.walk_eq]
    exact ⟨(htakes.body_eq (by simpa using hs)).1, rfl⟩

/--
If there is one parallel loop to fold, the nest is what becomes of it.
-/
theorem takeAll_of_filter_eq_singleton {rest : List Stmt} {s : Stmt}
    (h : rest.foldlM takeStmt (c, used) = .ok (c', used'))
    (hone : rest.filter isCandidate = [s]) :
    ∃ c₀ c₁ used₁, Takes c₀ used s c₁ used₁ ∧ c₀.body = c.body ∧ c₀.walk = c.walk ∧
      c'.body = c₁.body ∧ c'.walk = c.walk := by
  induction rest generalizing c used with
  | nil => cases hone
  | cons s' rest ih =>
    obtain ⟨c₁, used₁, _, htakes, hrest⟩ := takeAll_cons h
    by_cases hs : isCandidate s' = true
    . rw [List.filter_cons_of_pos hs] at hone
      obtain ⟨rfl, hnone⟩ := List.cons.inj hone
      obtain ⟨hbody, hwalk⟩ := takeAll_of_filter_eq_nil hrest hnone
      exact ⟨c, c₁, used₁, htakes, rfl, rfl, hbody, hwalk.trans htakes.walk_eq⟩
    . -- what stands before the loop leaves the nest as it is
      rw [List.filter_cons_of_neg hs] at hone
      obtain ⟨hbody, rfl⟩ := htakes.body_eq (by simpa using hs)
      obtain ⟨c₀, c₂, used₂, htakes', hbody₀, hwalk₀, hbody', hwalk'⟩ := ih hrest hone
      rw [hbody] at hbody₀
      rw [htakes.walk_eq] at hwalk₀ hwalk'
      exact ⟨c₀, c₂, used₂, htakes', hbody₀, hwalk₀, hbody', hwalk'⟩

/--
A body without parallel loops does in an empty nest what it did, once its variables are found there.
-/
theorem Takes.trace_eq (h : Takes c used (.loop head body) c' used')
    (hcandidate : isCandidate (.loop head body)) (hempty : c.body = [])
    (hembeds : (c.cellRenaming head).Embeds names σ τ) (hnames : Stmt.namesAll body ⊆ names)
    (hfresh : ∀ x ∈ names, ∀ count, (c.cellRenaming head).apply x ∉ freshVars used count)
    (hplain : ∀ head' ∈ Stmt.headsAll body, head'.kind = .sequential)
    (hwell : ∀ head' ∈ Stmt.headsAll body, head'.WellFormed) (rounds : Nat) :
    Stmt.traceAll rounds τ c'.body = Stmt.traceAll rounds σ body := by
  cases h with
  | drop hnone => simp [isCandidate, hnone] at hcandidate
  | direct =>
    dsimp only
    rw [hempty, List.nil_append]
    exact Stmt.traceAll_renameAll rounds body hembeds hnames
  | nested _ _ hlaunch hone hmerges =>
    dsimp only
    -- there is nothing in the nest to be merged into
    rw [hempty] at hmerges
    cases hmerges with
    | append _ hnest => exact absurd hnest.eq (by simp)
    | enter _ hnest => exact absurd hnest.eq (by simp)
    | @copy _ _ _ _ _ _ _ loop hsource =>
      have hbody := hsource.eq_singleton hlaunch hone hplain
      have hloop : loop.head ∈ Stmt.headsAll body := by
        rw [hbody]
        simp [Stmt.headsAll, Stmt.heads]
      have hnames' : (Stmt.loop loop.head loop.body).names ⊆ names := by
        rw [hbody] at hnames
        simpa [Stmt.namesAll] using hnames
      rw [hbody, Stmt.traceAll_singleton, Place.put, List.nil_append, Stmt.traceAll_singleton]
      exact trace_copyLoop rounds hembeds hnames' (hwell _ hloop) fun x hx => hfresh x hx _

theorem embeds_cells {vars : List String} {cell : List Int} (hvars : vars.length = 2)
    (hcell : cell.length = 2) (hnames : ∀ name ∈ names, ¬ Reserved name) :
    (Renaming.extend [] vars ["ctrl_x", "ctrl_y"]).Embeds names (σ.bind vars cell)
      (σ.bind ["ctrl_x", "ctrl_y"] cell) := by
  apply (Renaming.Embeds.refl names σ).extend
  . rw [hvars]
    rfl
  . rw [hvars, hcell]
  . decide
  intro x hx hmem
  apply hnames x hx
  rw [Renaming.apply_nil] at hmem
  rcases List.mem_pair.mp hmem with h | h
  . exact .inl h
  . exact .inr (.inl h)

theorem apply_cells_not_mem_freshVars (hnames : ∀ name ∈ names, ¬ Reserved name)
    (vars : List String) {x : String} (hx : x ∈ names) (count : Nat) :
    (Renaming.extend [] vars ["ctrl_x", "ctrl_y"]).apply x ∉ freshVars used count := by
  rcases Renaming.apply_extend [] vars ["ctrl_x", "ctrl_y"] x with h | h
  . rw [h, Renaming.apply_nil]
    exact fun hmem => hnames x hx (reserved_of_mem_freshVars hmem)
  . exact not_mem_freshVars h

/--
A parallel loop that is the only one to be folded does, cell by cell, what the nest does.
-/
theorem ofHost?_trace {host : Host} {outer inner : Nat}
    (h : ofHost? host outer inner = .ok (some c))
    (hsingle : host.body.filter isCandidate = [.loop head body])
    (hwalks : head.Walks outer inner)
    (hplain : ∀ head' ∈ Stmt.headsAll body, head'.kind = .sequential)
    (hwell : ∀ head' ∈ (Stmt.loop head body).heads, head'.WellFormed)
    (hnames : ∀ name ∈ (Stmt.loop head body).names, ¬ Reserved name)
    (rounds : Nat) (σ : Valuation) :
    c.nest.trace rounds σ = (Stmt.loop head body).trace rounds σ := by
  obtain ⟨used, hfold⟩ := (ofHost?_folds host outer inner).of_eq_ok h
  obtain ⟨c₀, c₁, used₁, htakes, hempty, hsame, hbody, hnest⟩ :=
    takeAll_of_filter_eq_singleton hfold hsingle
  have hcandidate : isCandidate (.loop head body) = true := by
    have hmem : Stmt.loop head body ∈ host.body.filter isCandidate := by simp [hsingle]
    exact (List.mem_filter.mp hmem).2
  have hvars : head.vars.length = 2 := by
    rw [← (hwell head (by simp [Stmt.heads])).lower, ← List.length_map Expr.value?, hwalks.lower]
    rfl
  have hrenaming : c₀.cellRenaming head = Renaming.extend [] head.vars ["ctrl_x", "ctrl_y"] := by
    show Renaming.extend [] head.vars c₀.walk.vars = _
    rw [hsame]
    rfl
  have hidle : (idle outer inner).walk.Walks outer inner := ⟨rfl, rfl, rfl⟩
  rw [nest, hnest, Stmt.trace, Stmt.trace, hidle.cells_eq, hwalks.cells_eq]
  apply Cut.flatMap_congr
  intro cell hcell
  have hlength : cell.length = 2 := length_of_mem_cells (by rfl) (by rfl) hcell
  rw [hbody]
  apply htakes.trace_eq hcandidate hempty
  . rw [hrenaming]
    exact embeds_cells hvars hlength hnames
  . exact (List.append_subset.mp (List.Subset.refl _)).2
  . rw [hrenaming]
    intro x hx count
    exact apply_cells_not_mem_freshVars hnames head.vars hx count
  . exact hplain
  . intro head' hhead'
    exact hwell head' (by simp [Stmt.heads, hhead'])

/--
Loops that bind the variables of loops around them once more, in a parallel loop.
-/
def shadowing : Stmt :=
  .loop (.parallel ["x", "y"] [2, 3]) [
    .loop (.sequential "k" 0 3 1) [
      .launch 1 [.var "k", .add (.var "x") (.var "n")],
      .loop ⟨.sequential, ["x"], [.var "k"], [.add (.var "x") (.const 4)], [.const 2]⟩ [
        .launch 2 [.var "x", .var "y"],
        .loop ⟨.sequential, ["k", "y"], [.const 0, .var "k"], [.const 2, .var "x"],
          [.const 1, .const 1]⟩ [.launch 3 [.mul (.var "k") (.const 8), .var "y"]]],
      .launch 4 [.var "x"]]]

/--
It is folded with a new name for the outermost loop variable only. What is bound once more keeps its
bounds, which speak of the variables around it.
-/
theorem ofHost?_trace_shadowing : ∃ c,
    ofHost? ⟨"shadowing", [.launch 0 [], shadowing]⟩ 2 3 = .ok (some c) ∧
      (shadowing.trace 9 fun _ => 7).whole ∧
      ∀ rounds σ, c.nest.trace rounds σ = shadowing.trace rounds σ := by
  have h : ofHost? ⟨"shadowing", [.launch 0 [], shadowing]⟩ 2 3 =
      .ok (some ⟨[.launch 0 []], "ctrl_x", "ctrl_y", 2, 3, [
        .loop (.sequential "ctrl_iv1" 0 3 1) [
          .launch 1 [.var "ctrl_iv1", .add (.var "ctrl_x") (.var "n")],
          .loop ⟨.sequential, ["ctrl_x"], [.var "ctrl_iv1"], [.add (.var "ctrl_x") (.const 4)],
            [.const 2]⟩ [
            .launch 2 [.var "ctrl_x", .var "ctrl_y"],
            .loop ⟨.sequential, ["ctrl_iv1", "ctrl_y"], [.const 0, .var "ctrl_iv1"],
              [.const 2, .var "ctrl_x"], [.const 1, .const 1]⟩ [
              .launch 3 [.mul (.var "ctrl_iv1") (.const 8), .var "ctrl_y"]]],
          .launch 4 [.var "ctrl_x"]]]⟩) := by
    cbv
  refine ⟨_, h, by decide, fun rounds σ => ?_⟩
  apply ofHost?_trace h rfl
  . exact ⟨rfl, rfl, rfl⟩
  . decide
  . decide
  . have hstart : ∀ name ∈ shadowing.names, ¬ ['c', 't', 'r', 'l', '_'] <+: name.toList := by
      decide
    exact fun name hname hreserved => hstart name hname hreserved.prefix_toList

end Control

end TileTraffic
