import TileTraffic.Json.Reader
import TileTraffic.Proofs.Json.Token

/-!
What is printed is read back: the tokens of a value take the reader from where a value may come to
where that value has been handed over. A value that is nested too deeply is printed but not read.
-/

namespace TileTraffic

namespace Json

mutual

/--
How many containers are open at the innermost part of the value.
-/
def depth : Json → Nat
  | .arr items => depthAll items + 1
  | .obj members => membersDepth members + 1
  | _ => 0

def depthAll : List Json → Nat
  | [] => 0
  | item :: rest => max item.depth (depthAll rest)

def membersDepth : List (String × Json) → Nat
  | [] => 0
  | (_, value) :: rest => max value.depth (membersDepth rest)

end

namespace Reader

open Token

/--
The members as the reader keeps them, last one first.
-/
def kept (members : List (String × Json)) : List (Option String × Json) :=
  (members.map fun m => (some m.1, m.2)).reverse

theorem members?_reverse_kept (members : List (String × Json)) :
    members? (kept members).reverse = some members := by
  rw [kept, List.reverse_reverse]
  induction members with
  | nil => rfl
  | cons member members ih =>
    unfold members? at ih ⊢
    rw [List.map_cons, List.mapM_cons, ih]
    rfl

theorem close_eq_settle {value : Json} {outer : List Frame} (h : outer.length < maxDepth) :
    close value outer = settle value outer := by
  rw [close, if_pos h]

/--
The tokens are accepted one after the other, and lead from one reader to the other.
-/
def Reads (tokens : List Token) (r r' : Reader) : Prop :=
  tokens.foldlM step? r = some r'

namespace Reads

variable {token : Token} {ts ts' : List Token} {r r' r'' : Reader}

theorem nil : Reads [] r r :=
  rfl

theorem cons (h : step? r token = some r') (h' : Reads ts r' r'') : Reads (token :: ts) r r'' := by
  rw [Reads, List.foldlM_cons, h]
  exact h'

theorem append (h : Reads ts r r') (h' : Reads ts' r' r'') : Reads (ts ++ ts') r r'' := by
  rw [Reads, List.foldlM_append, show ts.foldlM step? r = some r' from h]
  exact h'

theorem single (h : step? r token = some r') : Reads [token] r r' :=
  cons h nil

end Reads

/--
A value may come next.
-/
def Awaits (expect : Expect) : Prop :=
  expect = .value ∨ expect = .valueOrClose

section

variable {expect : Expect} (h : Awaits expect) (opened : List Frame)
include h

theorem step?_scalar (value : Json) :
    step? ⟨opened, expect⟩ (.scalar value) = some (settle value opened) := by
  rcases h with rfl | rfl <;> rfl

theorem step?_text (s : String) :
    step? ⟨opened, expect⟩ (.text (some s)) = some (settle (.str s) opened) := by
  rcases h with rfl | rfl <;> rfl

theorem step?_openArr :
    step? ⟨opened, expect⟩ .openArr = some ⟨.arr [] :: opened, .valueOrClose⟩ := by
  rcases h with rfl | rfl <;> rfl

theorem step?_openObj :
    step? ⟨opened, expect⟩ .openObj = some ⟨.obj [] none :: opened, .nameOrClose⟩ := by
  rcases h with rfl | rfl <;> rfl

end

section

variable {opened : List Frame} (h : opened.length < maxDepth)
include h

theorem step?_closeArr (seen : List Json) :
    step? ⟨.arr seen :: opened, .next⟩ .closeArr = some (settle (.arr seen.reverse) opened) :=
  congrArg some (close_eq_settle h)

theorem step?_closeEmptyArr :
    step? ⟨.arr [] :: opened, .valueOrClose⟩ .closeArr = some (settle (.arr []) opened) :=
  congrArg some (close_eq_settle h)

theorem closeObj_eq_settle (members : List (String × Json)) :
    closeObj (kept members) opened = settle (.obj members) opened := by
  rw [closeObj, members?_reverse_kept]
  exact close_eq_settle h

theorem step?_closeObj (members : List (String × Json)) :
    step? ⟨.obj (kept members) none :: opened, .next⟩ .closeObj =
      some (settle (.obj members) opened) :=
  congrArg some (closeObj_eq_settle h members)

theorem step?_closeEmptyObj :
    step? ⟨.obj [] none :: opened, .nameOrClose⟩ .closeObj = some (settle (.obj []) opened) :=
  congrArg some (closeObj_eq_settle h [])

end

mutual

/--
The tokens of a value hand the value to the innermost open container.
-/
theorem reads_tokens {expect : Expect} (h : Awaits expect) (opened : List Frame) :
    ∀ j : Json, j.Plain → opened.length + j.depth ≤ maxDepth →
      Reads j.tokens ⟨opened, expect⟩ (settle j opened)
  | .null, _, _ | .bool _, _, _ | .int _, _, _ => .single (step?_scalar h opened _)
  | .str s, _, _ => .single (step?_text h opened s)
  | .arr [], _, hdepth =>
    have hroom : opened.length < maxDepth := by
      simp only [depth, depthAll] at hdepth
      omega
    .cons (step?_openArr h opened) (.single (step?_closeEmptyArr hroom))
  | .arr (item :: rest), ⟨hitem, hrest⟩, hdepth => by
    have hroom : opened.length + (max item.depth (depthAll rest) + 1) ≤ maxDepth := hdepth
    have hfirst := reads_tokens (.inr rfl) (.arr [] :: opened) item hitem
      (by rw [List.length_cons]; omega)
    have hothers := reads_itemTokens opened [item] rest hrest (by omega)
    have hclose := step?_closeArr (by omega : opened.length < maxDepth) (rest.reverse ++ [item])
    have hall := Reads.cons (step?_openArr h opened)
      ((hfirst.append hothers).append (.single hclose))
    simpa [tokens, itemTokens, separated] using hall
  | .obj [], _, hdepth =>
    have hroom : opened.length < maxDepth := by
      simp only [depth, membersDepth] at hdepth
      omega
    .cons (step?_openObj h opened) (.single (step?_closeEmptyObj hroom))
  | .obj ((name, value) :: rest), ⟨hvalue, hrest⟩, hdepth => by
    have hroom : opened.length + (max value.depth (membersDepth rest) + 1) ≤ maxDepth := hdepth
    have hfirst := reads_tokens (.inl rfl) (.obj [] (some name) :: opened) value hvalue
      (by rw [List.length_cons]; omega)
    have hothers := reads_memberTokens opened [(name, value)] rest hrest (by omega)
    have hclose := step?_closeObj (by omega : opened.length < maxDepth) ((name, value) :: rest)
    have hname : step? ⟨.obj [] none :: opened, .nameOrClose⟩ (.text (some name)) =
        some ⟨.obj [] (some name) :: opened, .colon⟩ := rfl
    have hcolon : step? ⟨.obj [] (some name) :: opened, .colon⟩ .colon =
        some ⟨.obj [] (some name) :: opened, .value⟩ := rfl
    have hall := Reads.cons (step?_openObj h opened) (.cons hname (.cons hcolon
      ((hfirst.append hothers).append (.single hclose))))
    simpa [tokens, memberTokens, separated] using hall

theorem reads_itemTokens (opened : List Frame) (seen : List Json) :
    ∀ items : List Json, AllPlain items → opened.length + (depthAll items + 1) ≤ maxDepth →
      Reads ((itemTokens items).flatMap (.comma :: ·)) ⟨.arr seen :: opened, .next⟩
        ⟨.arr (items.reverse ++ seen) :: opened, .next⟩
  | [], _, _ => .nil
  | item :: rest, ⟨hitem, hrest⟩, hdepth => by
    have hroom : opened.length + (max item.depth (depthAll rest) + 1) ≤ maxDepth := hdepth
    have hcomma : step? ⟨.arr seen :: opened, .next⟩ .comma =
        some ⟨.arr seen :: opened, .value⟩ := rfl
    have hfirst := reads_tokens (.inl rfl) (.arr seen :: opened) item hitem
      (by rw [List.length_cons]; omega)
    have hothers := reads_itemTokens opened (item :: seen) rest hrest (by omega)
    have hall := Reads.cons hcomma (hfirst.append hothers)
    simpa [itemTokens] using hall

theorem reads_memberTokens (opened : List Frame) (seen : List (String × Json)) :
    ∀ members : List (String × Json), MembersPlain members →
      opened.length + (membersDepth members + 1) ≤ maxDepth →
      Reads ((memberTokens members).flatMap (.comma :: ·)) ⟨.obj (kept seen) none :: opened, .next⟩
        ⟨.obj (kept (seen ++ members)) none :: opened, .next⟩
  | [], _, _ => by
    rw [List.append_nil]
    exact .nil
  | (name, value) :: rest, ⟨hvalue, hrest⟩, hdepth => by
    have hroom : opened.length + (max value.depth (membersDepth rest) + 1) ≤ maxDepth := hdepth
    have hcomma : step? ⟨.obj (kept seen) none :: opened, .next⟩ .comma =
        some ⟨.obj (kept seen) none :: opened, .name⟩ := rfl
    have hname : step? ⟨.obj (kept seen) none :: opened, .name⟩ (.text (some name)) =
        some ⟨.obj (kept seen) (some name) :: opened, .colon⟩ := rfl
    have hcolon : step? ⟨.obj (kept seen) (some name) :: opened, .colon⟩ .colon =
        some ⟨.obj (kept seen) (some name) :: opened, .value⟩ := rfl
    have hfirst := reads_tokens (.inl rfl) (.obj (kept seen) (some name) :: opened) value hvalue
      (by rw [List.length_cons]; omega)
    have hothers := reads_memberTokens opened (seen ++ [(name, value)]) rest hrest (by omega)
    have hkept : kept (seen ++ [(name, value)]) = (some name, value) :: kept seen := by
      simp [kept]
    rw [hkept] at hothers
    have hall := Reads.cons hcomma (.cons hname (.cons hcolon (hfirst.append hothers)))
    simpa [memberTokens] using hall

end

end Reader

open Reader

/--
A value that is printed over several lines is read back, unless it is nested too deeply.
-/
theorem parse?_pretty {j : Json} (h : j.Plain) (hdepth : j.depth ≤ maxDepth) :
    parse? j.pretty = some j := by
  have hscan : Token.scan? [] j.pretty.toList = some j.tokens := by
    have hall := scans_prettyAt 0 j h [] [] Token.boundary_nil
    rw [List.append_nil, List.append_nil] at hall
    rw [pretty, hall, Token.scan?, List.reverse_reverse]
  have hread : j.tokens.foldlM step? start = some (settle j []) :=
    reads_tokens (.inl rfl) [] j h (by simpa using hdepth)
  unfold parse?
  simp [hscan, hread, settle]

end Json

end TileTraffic
