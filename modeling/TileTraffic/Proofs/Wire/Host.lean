import TileTraffic.Host.Stmt
import TileTraffic.Proofs.Json.Record
import Mathlib.Tactic.MkIffOfInductiveProp

/-!
Host programs on the wire: every expression, statement and program is read back from its JSON value,
however deeply loops and expressions are nested.
-/

namespace TileTraffic

open Json

namespace Expr

/--
All constants have 64 bits.
-/
def Sized : Expr → Prop
  | .const n => Signed64 n
  | .var _ => True
  | .add a b | .mul a b => a.Sized ∧ b.Sized

instance decidableSized : (e : Expr) → Decidable e.Sized
  | .const n => inferInstanceAs (Decidable (Signed64 n))
  | .var _ => .isTrue trivial
  | .add a b | .mul a b =>
    have := decidableSized a
    have := decidableSized b
    inferInstanceAs (Decidable (a.Sized ∧ b.Sized))

theorem spells : ∀ {e : Expr}, e.Sized → Spells ofJson? e.toJson e
  | .const n, h => by
    obtain ⟨hreads, hplain⟩ := spells_int64 h
    exact ⟨by simp [toJson, ofJson?, hreads], ⟨hplain, trivial⟩⟩
  | .var name, _ => ⟨rfl, ⟨trivial, trivial⟩⟩
  | .add a b, ⟨ha, hb⟩ => by
    obtain ⟨hreads, hplain⟩ := spells ha
    obtain ⟨hreads', hplain'⟩ := spells hb
    exact ⟨by simp [toJson, ofJson?, hreads, hreads'], ⟨⟨hplain, hplain', trivial⟩, trivial⟩⟩
  | .mul a b, ⟨ha, hb⟩ => by
    obtain ⟨hreads, hplain⟩ := spells ha
    obtain ⟨hreads', hplain'⟩ := spells hb
    exact ⟨by simp [toJson, ofJson?, hreads, hreads'], ⟨⟨hplain, hplain', trivial⟩, trivial⟩⟩

end Expr

namespace LoopKind

theorem spells (k : LoopKind) : Spells ofJson? k.toJson k :=
  ⟨ofJson?_toJson k, by cases k <;> trivial⟩

end LoopKind

namespace LoopHead

@[mk_iff]
structure Sized (head : LoopHead) : Prop where
  lower : ∀ e ∈ head.lower, e.Sized
  upper : ∀ e ∈ head.upper, e.Sized
  step : ∀ e ∈ head.step, e.Sized

instance (head : LoopHead) : Decidable head.Sized :=
  decidable_of_iff _ (sized_iff head).symm

/--
The head of a loop is read from its members, whatever comes behind them.
-/
theorem ofMembers?_append {head : LoopHead} (h : head.Sized) (rest : List (String × Json)) :
    ofMembers? (head.members ++ rest) = some head := by
  have hkind := LoopKind.spells head.kind
  have hvars := spells_strs head.vars
  have hlower := spells_list fun e he => Expr.spells (h.lower e he)
  have hupper := spells_list fun e he => Expr.spells (h.upper e he)
  have hstep := spells_list fun e he => Expr.spells (h.step e he)
  simp [ofMembers?, members, hkind.reads, hvars.reads, hlower.reads, hupper.reads, hstep.reads]

theorem plain_members {head : LoopHead} (h : head.Sized) : MembersPlain head.members :=
  ⟨(LoopKind.spells head.kind).plain, (spells_strs head.vars).plain,
    (spells_list fun e he => Expr.spells (h.lower e he)).plain,
    (spells_list fun e he => Expr.spells (h.upper e he)).plain,
    (spells_list fun e he => Expr.spells (h.step e he)).plain, trivial⟩

end LoopHead

namespace Stmt

mutual

/--
Every number has room in its field, in the statement and in all statements below it.
-/
def Sized : Stmt → Prop
  | .launch op operands => op < word32 ∧ ∀ e ∈ operands, e.Sized
  | .loop head body => head.Sized ∧ AllSized body

def AllSized : List Stmt → Prop
  | [] => True
  | s :: rest => s.Sized ∧ AllSized rest

end

mutual

instance decidableSized : (s : Stmt) → Decidable s.Sized
  | .launch op operands => inferInstanceAs (Decidable (op < word32 ∧ ∀ e ∈ operands, e.Sized))
  | .loop head body =>
    have := decidableAllSized body
    inferInstanceAs (Decidable (head.Sized ∧ AllSized body))

instance decidableAllSized : (body : List Stmt) → Decidable (AllSized body)
  | [] => .isTrue trivial
  | s :: rest =>
    have := decidableSized s
    have := decidableAllSized rest
    inferInstanceAs (Decidable (s.Sized ∧ AllSized rest))

end

theorem bodyOfMembers?_append (head : LoopHead) (body : List Json) :
    bodyOfMembers? (head.members ++ [("body", .arr body)]) = ofJsons? body := by
  simp [LoopHead.members, bodyOfMembers?]

mutual

theorem spells : ∀ {s : Stmt}, s.Sized → Spells ofJson? s.toJson s
  | .launch op operands, ⟨hop, hoperands⟩ => by
    have hop := spells_nat32 hop
    have hoperands := spells_list fun e he => Expr.spells (hoperands e he)
    have hreads : launchOfJson? (.obj [("op_id", .int op),
        ("operands", .arr (operands.map Expr.toJson))]) = some (.launch op operands) := by
      rw [launchOfJson?, record?_obj (by simp)]
      simp [hop.reads, hoperands.reads]
    exact ⟨by simp [toJson, ofJson?, hreads], ⟨hop.plain, hoperands.plain, trivial⟩, trivial⟩
  | .loop head body, ⟨hhead, hbody⟩ => by
    obtain ⟨hreads, hplain⟩ := spellsAll hbody
    have hunrepeated : unrepeated LoopHead.fields
        (head.members ++ [("body", .arr (toJsons body))]) = true :=
      unrepeated_of_nodup (by simp [LoopHead.members]) _
    have hmembers : MembersPlain (head.members ++ [("body", .arr (toJsons body))]) :=
      membersPlain_append.mpr ⟨LoopHead.plain_members hhead, hplain, trivial⟩
    refine ⟨?_, hmembers, trivial⟩
    simp [toJson, ofJson?, hunrepeated, LoopHead.ofMembers?_append hhead, bodyOfMembers?_append,
      hreads]

theorem spellsAll : ∀ {body : List Stmt}, AllSized body →
    ofJsons? (toJsons body) = some body ∧ AllPlain (toJsons body)
  | [], _ => ⟨rfl, trivial⟩
  | s :: rest, ⟨hs, hrest⟩ => by
    obtain ⟨hreads, hplain⟩ := spells hs
    obtain ⟨hreads', hplain'⟩ := spellsAll hrest
    exact ⟨by simp [toJsons, ofJsons?, hreads, hreads'], hplain, hplain'⟩

end

end Stmt

namespace Host

def Sized (host : Host) : Prop :=
  Stmt.AllSized host.body

instance (host : Host) : Decidable host.Sized :=
  inferInstanceAs (Decidable (Stmt.AllSized host.body))

theorem spells {host : Host} (h : host.Sized) : Spells ofJson? host.toJson host := by
  obtain ⟨hreads, hplain⟩ := Stmt.spellsAll h
  refine ⟨?_, trivial, hplain, trivial⟩
  rw [ofJson?, toJson, record?_obj (by simp)]
  simp [Stmt.bodyOfMembers?, hreads]

end Host

end TileTraffic
