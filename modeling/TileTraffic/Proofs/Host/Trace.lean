import TileTraffic.Proofs.Host.Parts

/-!
What host programs do: they launch ops with operand values, loop by loop and cell by cell. A
renaming that keeps different variables apart changes nothing of it.
-/

namespace TileTraffic

abbrev Valuation := String → Int

namespace Valuation

def set (σ : Valuation) (name : String) (n : Int) : Valuation :=
  fun other => if other = name then n else σ other

/--
Give values to variables, position by position. Of two values for one variable the later one counts.
-/
def bind (σ : Valuation) (names : List String) (values : List Int) : Valuation :=
  (names.zip values).foldl (fun σ entry => σ.set entry.1 entry.2) σ

@[simp]
theorem bind_cons (σ : Valuation) (name : String) (names : List String) (n : Int)
    (values : List Int) :
    σ.bind (name :: names) (n :: values) = (σ.set name n).bind names values :=
  rfl

end Valuation

namespace Expr

def eval (σ : Valuation) : Expr → Int
  | .const n => n
  | .var name => σ name
  | .add a b => a.eval σ + b.eval σ
  | .mul a b => a.eval σ * b.eval σ

theorem eval_of_value? {e : Expr} {n : Int} (h : e.value? = some n) (σ : Valuation) :
    e.eval σ = n := by
  induction e generalizing n with
  | const m => exact Option.some.inj h
  | var name => cases h
  | add a b iha ihb =>
    simp only [value?, Option.bind_eq_bind, Option.bind_eq_some_iff] at h
    obtain ⟨m, ha, k, hb, hn⟩ := h
    rw [eval, iha ha, ihb hb]
    exact Option.some.inj hn
  | mul a b iha ihb =>
    simp only [value?, Option.bind_eq_bind, Option.bind_eq_some_iff] at h
    obtain ⟨m, ha, k, hb, hn⟩ := h
    rw [eval, iha ha, ihb hb]
    exact Option.some.inj hn

end Expr

/--
A list, or what there is of it where it is cut off before its end.
-/
structure Cut (α : Type) where
  items : List α
  /-- Nothing is cut off. -/
  whole : Bool
  deriving DecidableEq, Repr

namespace Cut

variable {α β : Type}

/--
Nothing comes after a list that is cut off.
-/
def append (c c' : Cut α) : Cut α :=
  if c.whole then ⟨c.items ++ c'.items, c'.whole⟩ else c

def map (f : α → β) (c : Cut α) : Cut β :=
  ⟨c.items.map f, c.whole⟩

/--
The lists of all items, one after the other.
-/
def flatMap (c : Cut α) (f : α → Cut β) : Cut β :=
  (c.items.map f).foldr append ⟨[], c.whole⟩

@[simp]
theorem append_nil (c : Cut α) : c.append ⟨[], true⟩ = c := by
  unfold append
  split
  . next h => simp [← h]
  . rfl

@[simp]
theorem whole_append (c c' : Cut α) : (c.append c').whole = (c.whole && c'.whole) := by
  unfold append
  split
  . next h => simp [h]
  . next h => simp [h]

theorem whole_flatMap (c : Cut α) (f : α → Cut β) :
    (c.flatMap f).whole = true ↔ c.whole ∧ ∀ a ∈ c.items, (f a).whole := by
  obtain ⟨items, whole⟩ := c
  unfold flatMap
  dsimp only
  induction items with
  | nil => simp
  | cons a items ih =>
    rw [List.map_cons, List.foldr_cons, whole_append, Bool.and_eq_true, ih, List.forall_mem_cons]
    exact and_left_comm

theorem flatMap_congr {c : Cut α} {f g : α → Cut β} (h : ∀ a ∈ c.items, f a = g a) :
    c.flatMap f = c.flatMap g := by
  unfold flatMap
  rw [List.map_congr_left h]

theorem exists_of_mem_flatMap {c : Cut α} {f : α → Cut β} {b : β}
    (h : b ∈ (c.flatMap f).items) : ∃ a ∈ c.items, b ∈ (f a).items := by
  obtain ⟨items, whole⟩ := c
  unfold flatMap at h
  dsimp only at h ⊢
  induction items with
  | nil => cases h
  | cons a items ih =>
    have hcases : b ∈ (f a).items ∨ b ∈ ((items.map f).foldr append ⟨[], whole⟩).items := by
      rw [List.map_cons, List.foldr_cons, append] at h
      split at h
      . exact List.mem_append.mp h
      . exact .inl h
    rcases hcases with hb | hb
    . exact ⟨a, List.mem_cons_self, hb⟩
    . obtain ⟨a', ha', hb'⟩ := ih hb
      exact ⟨a', List.mem_cons_of_mem a ha', hb'⟩

end Cut

/--
The values that a variable runs through from `n` on, in steps as long as it is below the upper bound.
They are cut off after `rounds` of them, since there need not be an end.
-/
def countUp (upper step : Int) : Nat → Int → Cut Int
  | 0, _ => ⟨[], false⟩
  | rounds + 1, n =>
    if n < upper then
      Cut.append ⟨[n], true⟩ (countUp upper step rounds (n + step))
    else
      ⟨[], true⟩

theorem countUp_succ {upper step n : Int} {rounds : Nat}
    (h : (countUp upper step rounds n).whole) :
    countUp upper step (rounds + 1) n = countUp upper step rounds n := by
  induction rounds generalizing n with
  | zero => simp [countUp] at h
  | succ rounds ih =>
    rw [countUp] at h
    split at h
    . next hlt =>
      rw [Cut.whole_append, Bool.and_eq_true] at h
      rw [countUp, if_pos hlt, ih h.2, countUp, if_pos hlt]
    . next hge => rw [countUp, if_neg hge, countUp, if_neg hge]

/--
The values of several variables, cell by cell. The last variable runs fastest.
-/
def cells (rounds : Nat) : List Int → List Int → List Int → Cut (List Int)
  | lower :: lowers, upper :: uppers, step :: steps =>
    (countUp upper step rounds lower).flatMap fun n =>
      (cells rounds lowers uppers steps).map (n :: ·)
  | _, _, _ => ⟨[[]], true⟩

theorem cells_succ {rounds : Nat} {lower upper step : List Int}
    (h : (cells rounds lower upper step).whole) :
    cells (rounds + 1) lower upper step = cells rounds lower upper step := by
  fun_induction cells rounds lower upper step with
  | case1 l lower u upper s step ih =>
    rw [Cut.whole_flatMap] at h
    obtain ⟨hcount, hcells⟩ := h
    rw [cells, countUp_succ hcount]
    apply Cut.flatMap_congr
    intro n hn
    rw [ih (hcells n hn)]
  | case2 lower upper step hnone => rw [cells.eq_2 _ _ _ _ hnone]

theorem length_of_mem_cells {rounds : Nat} {lower upper step : List Int}
    (hupper : upper.length = lower.length) (hstep : step.length = lower.length) {cell : List Int}
    (hcell : cell ∈ (cells rounds lower upper step).items) : cell.length = lower.length := by
  induction lower generalizing upper step cell with
  | nil =>
    rw [cells, List.mem_singleton] at hcell
    . rw [hcell]
    . simp
  | cons l lower ih =>
    obtain ⟨u, upper, rfl⟩ := List.exists_cons_of_length_eq_add_one hupper
    obtain ⟨s, step, rfl⟩ := List.exists_cons_of_length_eq_add_one hstep
    rw [cells] at hcell
    obtain ⟨n, _, hcell⟩ := Cut.exists_of_mem_flatMap hcell
    obtain ⟨cell, hmem, rfl⟩ := List.mem_map.mp hcell
    simp only [List.length_cons, Nat.add_right_cancel_iff] at hupper hstep ⊢
    exact ih hupper hstep hmem

/--
The cells of a loop. Bounds and steps are evaluated on entry.
-/
def LoopHead.cells (rounds : Nat) (σ : Valuation) (head : LoopHead) : Cut (List Int) :=
  TileTraffic.cells rounds (head.lower.map (Expr.eval σ)) (head.upper.map (Expr.eval σ))
    (head.step.map (Expr.eval σ))

theorem LoopHead.WellFormed.length_of_mem_cells {head : LoopHead} (hwell : head.WellFormed)
    {rounds : Nat} {σ : Valuation} {cell : List Int} (hcell : cell ∈ (head.cells rounds σ).items) :
    cell.length = head.vars.length := by
  rw [TileTraffic.length_of_mem_cells _ _ hcell, List.length_map, hwell.lower]
  . rw [List.length_map, List.length_map, hwell.upper, hwell.lower]
  . rw [List.length_map, List.length_map, hwell.step, hwell.lower]

/--
A launch as it happens: the op and the values of its operands.
-/
abbrev Event := Nat × List Int

namespace Stmt

mutual

/--
What a statement launches, in this order, where no loop is gone through more than `rounds` times.
-/
def trace (rounds : Nat) (σ : Valuation) : Stmt → Cut Event
  | .launch op operands => ⟨[(op, operands.map (Expr.eval σ))], true⟩
  | .loop head body =>
    (head.cells rounds σ).flatMap fun cell => traceAll rounds (σ.bind head.vars cell) body

def traceAll (rounds : Nat) (σ : Valuation) : List Stmt → Cut Event
  | [] => ⟨[], true⟩
  | s :: rest => (s.trace rounds σ).append (traceAll rounds σ rest)

end

@[simp]
theorem traceAll_singleton (rounds : Nat) (σ : Valuation) (s : Stmt) :
    traceAll rounds σ [s] = s.trace rounds σ := by
  simp [traceAll]

mutual

theorem trace_succ {rounds : Nat} : ∀ (s : Stmt) {σ : Valuation}, (s.trace rounds σ).whole →
    s.trace (rounds + 1) σ = s.trace rounds σ
  | .launch op operands, _, _ => by simp only [trace]
  | .loop head body, σ, h => by
    rw [trace, Cut.whole_flatMap] at h
    obtain ⟨hcells, hbody⟩ := h
    rw [trace, trace, LoopHead.cells, cells_succ hcells]
    apply Cut.flatMap_congr
    intro cell hcell
    exact traceAll_succ body (hbody cell hcell)

theorem traceAll_succ {rounds : Nat} : ∀ (body : List Stmt) {σ : Valuation},
    (traceAll rounds σ body).whole → traceAll (rounds + 1) σ body = traceAll rounds σ body
  | [], _, _ => by simp only [traceAll]
  | s :: rest, σ, h => by
    rw [traceAll, Cut.whole_append, Bool.and_eq_true] at h
    rw [traceAll, traceAll, trace_succ s h.1, traceAll_succ rest h.2]

end

/--
What a statement launches does not depend on the number of rounds, once they suffice.
-/
theorem trace_of_le {s : Stmt} {σ : Valuation} {rounds rounds' : Nat}
    (h : (s.trace rounds σ).whole) (hle : rounds ≤ rounds') :
    s.trace rounds' σ = s.trace rounds σ := by
  induction hle with
  | refl => rfl
  | step _ ih =>
    rw [← ih] at h ⊢
    exact trace_succ s h

end Stmt

namespace Renaming

@[simp]
theorem apply_nil (name : String) : Renaming.apply [] name = name :=
  rfl

@[simp]
theorem apply_cons (ρ : Renaming) (name other x : String) :
    Renaming.apply ((name, other) :: ρ) x = if x = name then other else ρ.apply x := by
  unfold apply
  rw [List.lookup_cons]
  by_cases h : x = name
  . simp [h]
  . have hne : (x == name) = false := by simp [h]
    simp [hne, h]

@[simp]
theorem extend_cons (ρ : Renaming) (name other : String) (names others : List String) :
    ρ.extend (name :: names) (other :: others) = Renaming.extend ((name, other) :: ρ) names others :=
  rfl

/--
Whatever a renaming was extended by, a name is renamed as before or to one of the new names.
-/
theorem apply_extend (ρ : Renaming) (names others : List String) (x : String) :
    (ρ.extend names others).apply x = ρ.apply x ∨ (ρ.extend names others).apply x ∈ others := by
  induction names generalizing ρ others with
  | nil => exact .inl rfl
  | cons name names ih =>
    cases others with
    | nil => exact .inl rfl
    | cons other others =>
      rw [extend_cons]
      rcases ih ((name, other) :: ρ) others with h | h
      . rw [h, apply_cons]
        split
        . exact .inr List.mem_cons_self
        . exact .inl rfl
      . exact .inr (List.mem_cons_of_mem other h)

/--
The renaming keeps the variables `names` apart, and under their new names they have the same values
in `τ` as they have in `σ`.
-/
structure Embeds (ρ : Renaming) (names : List String) (σ τ : Valuation) : Prop where
  agrees : ∀ x ∈ names, τ (ρ.apply x) = σ x
  injective : ∀ x ∈ names, ∀ y ∈ names, ρ.apply x = ρ.apply y → x = y

variable {ρ : Renaming} {names : List String} {σ τ : Valuation}

theorem Embeds.refl (names : List String) (σ : Valuation) : Embeds [] names σ σ where
  agrees := fun _ _ => rfl
  injective := fun _ _ _ _ h => h

theorem Embeds.set (h : ρ.Embeds names σ τ) {x : String} (hx : x ∈ names) (n : Int) :
    ρ.Embeds names (σ.set x n) (τ.set (ρ.apply x) n) := by
  refine ⟨?_, h.injective⟩
  intro y hy
  unfold Valuation.set
  by_cases heq : y = x
  . rw [if_pos heq, if_pos (by rw [heq])]
  . rw [if_neg heq, if_neg fun hsame => heq (h.injective y hy x hx hsame)]
    exact h.agrees y hy

theorem Embeds.bind (h : ρ.Embeds names σ τ) {vars : List String} (hvars : vars ⊆ names)
    (values : List Int) :
    ρ.Embeds names (σ.bind vars values) (τ.bind (vars.map ρ.apply) values) := by
  induction vars generalizing σ τ values with
  | nil => exact h
  | cons x vars ih =>
    cases values with
    | nil => exact h
    | cons n values =>
      rw [List.map_cons, Valuation.bind_cons, Valuation.bind_cons]
      obtain ⟨hx, hvars⟩ := List.cons_subset.mp hvars
      exact ih (h.set hx n) hvars values

theorem Embeds.cons (h : ρ.Embeds names σ τ) {other : String}
    (hfresh : ∀ y ∈ names, ρ.apply y ≠ other) (x : String) (n : Int) :
    Renaming.Embeds ((x, other) :: ρ) names (σ.set x n) (τ.set other n) := by
  constructor
  . intro y hy
    unfold Valuation.set
    rw [apply_cons]
    split
    . simp
    . rw [if_neg (hfresh y hy)]
      exact h.agrees y hy
  . intro y hy z hz heq
    rw [apply_cons, apply_cons] at heq
    split at heq
    . next hyx =>
      split at heq
      . next hzx => rw [hyx, hzx]
      . exact absurd heq.symm (hfresh z hz)
    . split at heq
      . exact absurd heq (hfresh y hy)
      . exact h.injective y hy z hz heq

/--
Variables that are bound under names which nothing else has.
-/
theorem Embeds.extend (h : ρ.Embeds names σ τ) {vars others : List String} {values : List Int}
    (hothers : others.length = vars.length) (hvalues : values.length = vars.length)
    (hnodup : others.Nodup) (hfresh : ∀ x ∈ names, ρ.apply x ∉ others) :
    (ρ.extend vars others).Embeds names (σ.bind vars values) (τ.bind others values) := by
  -- a name that comes twice gets its second new name and its second value
  induction vars generalizing ρ σ τ others values with
  | nil =>
    obtain rfl := List.length_eq_zero_iff.mp hothers
    exact h
  | cons x vars ih =>
    obtain ⟨other, others, rfl⟩ := List.exists_cons_of_length_eq_add_one hothers
    obtain ⟨n, values, rfl⟩ := List.exists_cons_of_length_eq_add_one hvalues
    rw [extend_cons, Valuation.bind_cons, Valuation.bind_cons]
    obtain ⟨hnew, hnodup⟩ := List.nodup_cons.mp hnodup
    have hne : ∀ y ∈ names, ρ.apply y ≠ other := by
      intro y hy heq
      exact hfresh y hy (by simp [heq])
    apply ih (h.cons hne x n) (by simpa using hothers) (by simpa using hvalues) hnodup
    intro y hy
    rw [apply_cons]
    split
    . exact hnew
    . exact fun hmem => hfresh y hy (List.mem_cons_of_mem other hmem)

end Renaming

section

variable {ρ : Renaming} {names : List String} {σ τ : Valuation}

theorem Expr.eval_rename {e : Expr} (h : ρ.Embeds names σ τ) (he : e.names ⊆ names) :
    (e.rename ρ).eval τ = e.eval σ := by
  induction e with
  | const n => rfl
  | var name => exact h.agrees name (he (by simp [Expr.names]))
  | add a b iha ihb =>
    obtain ⟨ha, hb⟩ := List.append_subset.mp he
    rw [rename, eval, eval, iha ha, ihb hb]
  | mul a b iha ihb =>
    obtain ⟨ha, hb⟩ := List.append_subset.mp he
    rw [rename, eval, eval, iha ha, ihb hb]

theorem Expr.map_eval_rename {es : List Expr} (h : ρ.Embeds names σ τ)
    (hes : es.flatMap Expr.names ⊆ names) :
    (es.map (Expr.rename ρ)).map (Expr.eval τ) = es.map (Expr.eval σ) := by
  rw [List.map_map]
  apply List.map_congr_left
  intro e he
  apply Expr.eval_rename h
  intro x hx
  exact hes (List.mem_flatMap.mpr ⟨e, he, hx⟩)

theorem LoopHead.cells_rename {head : LoopHead} (rounds : Nat) (h : ρ.Embeds names σ τ)
    (hhead : head.names ⊆ names) : (head.rename ρ).cells rounds τ = head.cells rounds σ := by
  obtain ⟨_, hbounds⟩ := List.append_subset.mp hhead
  rw [List.flatMap_append, List.flatMap_append] at hbounds
  obtain ⟨hbounds, hstep⟩ := List.append_subset.mp hbounds
  obtain ⟨hlower, hupper⟩ := List.append_subset.mp hbounds
  unfold cells rename
  rw [Expr.map_eval_rename h hlower, Expr.map_eval_rename h hupper, Expr.map_eval_rename h hstep]

namespace Stmt

mutual

/--
A renaming that keeps variables apart changes nothing.
-/
theorem trace_rename (rounds : Nat) : ∀ (s : Stmt) {σ τ : Valuation}, ρ.Embeds names σ τ →
    s.names ⊆ names → (s.rename ρ).trace rounds τ = s.trace rounds σ
  | .launch op operands, σ, τ, h, hs => by
    simp only [rename, trace]
    rw [Expr.map_eval_rename h hs]
  | .loop head body, σ, τ, h, hs => by
    obtain ⟨hhead, hbody⟩ := List.append_subset.mp hs
    obtain ⟨hvars, _⟩ := List.append_subset.mp hhead
    simp only [rename, trace, LoopHead.cells_rename rounds h hhead]
    apply Cut.flatMap_congr
    intro cell _
    exact traceAll_renameAll rounds body (h.bind hvars cell) hbody

theorem traceAll_renameAll (rounds : Nat) : ∀ (body : List Stmt) {σ τ : Valuation},
    ρ.Embeds names σ τ → namesAll body ⊆ names →
      traceAll rounds τ (renameAll ρ body) = traceAll rounds σ body
  | [], _, _, _, _ => by simp [renameAll, traceAll]
  | s :: rest, σ, τ, h, hbody => by
    obtain ⟨hs, hrest⟩ := List.append_subset.mp hbody
    simp only [renameAll, traceAll]
    rw [trace_rename rounds s h hs, traceAll_renameAll rounds rest h hrest]

end

end Stmt

end

end TileTraffic
