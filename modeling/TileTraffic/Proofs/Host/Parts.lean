import TileTraffic.Host.Stmt

/-!
What host programs are made of: the ops that they launch, the heads of their loops, and the names of
their variables.
-/

namespace TileTraffic

def Expr.names : Expr → List String
  | .const _ => []
  | .var name => [name]
  | .add a b => a.names ++ b.names
  | .mul a b => a.names ++ b.names

namespace LoopHead

/--
The variables that a loop binds and those in its bounds.
-/
def names (head : LoopHead) : List String :=
  head.vars ++ (head.lower ++ head.upper ++ head.step).flatMap Expr.names

/--
Every variable has bounds and a step.
-/
structure WellFormed (head : LoopHead) : Prop where
  lower : head.lower.length = head.vars.length
  upper : head.upper.length = head.vars.length
  step : head.step.length = head.vars.length

instance (head : LoopHead) : Decidable head.WellFormed :=
  decidable_of_iff (head.lower.length = head.vars.length ∧
      head.upper.length = head.vars.length ∧ head.step.length = head.vars.length)
    ⟨fun ⟨hlower, hupper, hstep⟩ => ⟨hlower, hupper, hstep⟩, fun h => ⟨h.lower, h.upper, h.step⟩⟩

end LoopHead

namespace Stmt

mutual

/--
The ids of the ops that a statement launches, at any depth.
-/
def ops : Stmt → List Nat
  | .launch op _ => [op]
  | .loop _ body => opsAll body

def opsAll : List Stmt → List Nat
  | [] => []
  | s :: rest => s.ops ++ opsAll rest

end

@[simp]
theorem opsAll_append (body body' : List Stmt) :
    opsAll (body ++ body') = opsAll body ++ opsAll body' := by
  induction body with
  | nil => simp [opsAll]
  | cons s body ih => simp [opsAll, ih]

mutual

theorem ops_rename (ρ : Renaming) : ∀ s : Stmt, (s.rename ρ).ops = s.ops
  | .launch .. => by simp [rename, ops]
  | .loop _ body => by
    simp only [rename, ops]
    exact opsAll_renameAll ρ body

theorem opsAll_renameAll (ρ : Renaming) : ∀ body, opsAll (renameAll ρ body) = opsAll body
  | [] => by simp [renameAll]
  | s :: rest => by
    simp only [renameAll, opsAll]
    rw [ops_rename ρ s, opsAll_renameAll ρ rest]

end

mutual

theorem ops_eq_nil_iff : ∀ s : Stmt, s.ops = [] ↔ s.launches = false
  | .launch .. => by simp [ops, launches]
  | .loop _ body => by
    simp only [ops, launches]
    exact opsAll_eq_nil_iff body

theorem opsAll_eq_nil_iff : ∀ body, opsAll body = [] ↔ anyLaunches body = false
  | [] => by simp [opsAll, anyLaunches]
  | s :: rest => by
    simp only [opsAll, anyLaunches, List.append_eq_nil_iff, Bool.or_eq_false_iff]
    rw [ops_eq_nil_iff s, opsAll_eq_nil_iff rest]

end

theorem opsAll_eq_nil_iff_forall (body : List Stmt) :
    opsAll body = [] ↔ ∀ s ∈ body, s.launches = false := by
  induction body with
  | nil => simp [opsAll]
  | cons s body ih => simp [opsAll, ih, ops_eq_nil_iff]

mutual

def heads : Stmt → List LoopHead
  | .launch .. => []
  | .loop head body => head :: headsAll body

def headsAll : List Stmt → List LoopHead
  | [] => []
  | s :: rest => s.heads ++ headsAll rest

end

/--
The heads of the loops inside a statement, itself not counted.
-/
def innerHeads : Stmt → List LoopHead
  | .launch .. => []
  | .loop _ body => headsAll body

theorem heads_subset_headsAll {s : Stmt} {body : List Stmt} (h : s ∈ body) :
    s.heads ⊆ headsAll body := by
  induction body with
  | nil => cases h
  | cons s' body ih =>
    rw [headsAll]
    rcases List.mem_cons.mp h with rfl | h
    . exact List.subset_append_left ..
    . exact List.subset_append_of_subset_right _ (ih h)

mutual

/--
All variables of a statement, those that loops bind included.
-/
def names : Stmt → List String
  | .launch _ operands => operands.flatMap Expr.names
  | .loop head body => head.names ++ namesAll body

def namesAll : List Stmt → List String
  | [] => []
  | s :: rest => s.names ++ namesAll rest

end

end Stmt

end TileTraffic
