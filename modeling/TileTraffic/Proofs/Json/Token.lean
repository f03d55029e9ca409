import TileTraffic.Json.Printer
import TileTraffic.Proofs.Json.Number
import Mathlib.Data.List.Forall2

/-!
The text of a value falls into the tokens of the value. Every piece of it is scanned by itself:
after a number or a word comes a character that cannot belong to it.
-/

namespace TileTraffic

namespace Json

mutual

/--
The value has a text that can be read: its numbers are integers of at most 64 bits.
-/
def Plain : Json → Prop
  | .int n => n.natAbs < word64
  | .decimal _ | .unreadable => False
  | .arr items => AllPlain items
  | .obj members => MembersPlain members
  | .null | .bool _ | .str _ => True

def AllPlain : List Json → Prop
  | [] => True
  | item :: rest => item.Plain ∧ AllPlain rest

def MembersPlain : List (String × Json) → Prop
  | [] => True
  | (_, value) :: rest => value.Plain ∧ MembersPlain rest

end

namespace Token

/--
The tokens of the parts of a container, with commas in between.
-/
def separated : List (List Token) → List Token
  | [] => []
  | part :: rest => part ++ rest.flatMap (.comma :: ·)

end Token

mutual

def tokens : Json → List Token
  | .str s => [.text (some s)]
  | .arr items => .openArr :: Token.separated (itemTokens items) ++ [.closeArr]
  | .obj members => .openObj :: Token.separated (memberTokens members) ++ [.closeObj]
  | .null => [.scalar .null]
  | .bool b => [.scalar (.bool b)]
  | .int n => [.scalar (.int n)]
  | .decimal text => [.scalar (.decimal text)]
  | .unreadable => [.scalar .unreadable]

def itemTokens : List Json → List (List Token)
  | [] => []
  | item :: rest => item.tokens :: itemTokens rest

def memberTokens : List (String × Json) → List (List Token)
  | [] => []
  | (name, value) :: rest => (.text (some name) :: .colon :: value.tokens) :: memberTokens rest

end

namespace Token

/--
The text cannot go on with a number or a word.
-/
def Boundary (rest : List Char) : Prop :=
  ∀ c ∈ rest.head?, isNumeric c = false ∧ c.isAlpha = false

theorem boundary_nil : Boundary [] := by
  simp [Boundary]

theorem boundary_cons {c : Char} (rest : List Char) (hnumeric : isNumeric c = false)
    (halpha : c.isAlpha = false) : Boundary (c :: rest) := by
  simp [Boundary, hnumeric, halpha]

theorem takeWhile_append_of_boundary {p : Char → Bool} {cs rest : List Char}
    (hcs : ∀ c ∈ cs, p c = true) (hrest : ∀ c ∈ rest.head?, p c = false) :
    (cs ++ rest).takeWhile p = cs ∧ (cs ++ rest).dropWhile p = rest := by
  rw [List.takeWhile_append_of_pos hcs, List.dropWhile_append_of_pos hcs]
  cases rest with
  | nil => simp
  | cons c rest => simp [hrest c (by simp)]

/--
The characters are the tokens, whatever stands before them. What follows must not run on from a
number or a word at their end.
-/
def Scans (cs : List Char) (tokens : List Token) : Prop :=
  ∀ seen rest, Boundary rest → scan? seen (cs ++ rest) = scan? (tokens.reverse ++ seen) rest

/--
The characters are the tokens, whatever stands around them: a number or a word ends before them, and
does not begin within.
-/
structure Separates (cs : List Char) (tokens : List Token) : Prop where
  scan?_eq : ∀ seen rest, scan? seen (cs ++ rest) = scan? (tokens.reverse ++ seen) rest
  boundary : ∀ rest, Boundary (cs ++ rest)

namespace Separates

variable {cs cs' : List Char} {ts ts' : List Token}

theorem scans (h : Separates cs ts) : Scans cs ts :=
  fun seen rest _ => h.scan?_eq seen rest

theorem append_scans (h : Separates cs ts) (h' : Scans cs' ts') :
    Scans (cs ++ cs') (ts ++ ts') := by
  intro seen rest hrest
  rw [List.append_assoc, h.scan?_eq, h' _ rest hrest, List.reverse_append, List.append_assoc]

theorem append (h : Separates cs ts) (h' : Separates cs' ts') :
    Separates (cs ++ cs') (ts ++ ts') where
  scan?_eq seen rest := by
    rw [List.append_assoc, h.scan?_eq, h'.scan?_eq, List.reverse_append, List.append_assoc]
  boundary rest := by
    rw [List.append_assoc]
    exact h.boundary _

end Separates

theorem Scans.append {cs cs' : List Char} {ts ts' : List Token} (h : Scans cs ts)
    (h' : Scans cs' ts') (hboundary : ∀ rest, Boundary (cs' ++ rest)) :
    Scans (cs ++ cs') (ts ++ ts') := by
  intro seen rest hrest
  rw [List.append_assoc, h seen _ (hboundary rest), h' _ rest hrest, List.reverse_append,
    List.append_assoc]

theorem Scans.append_separates {cs cs' : List Char} {ts ts' : List Token} (h : Scans cs ts)
    (h' : Separates cs' ts') : Scans (cs ++ cs') (ts ++ ts') :=
  h.append h'.scans h'.boundary

/-! ### Punctuation and blanks -/

theorem separates_punctuation {c : Char} {token : Token} (h : punctuation? c = some token) :
    Separates [c] [token] where
  scan?_eq seen rest := by
    unfold punctuation? at h
    split at h
    all_goals cases h
    all_goals
      rw [List.singleton_append, scan?]
      rfl
  boundary rest := by
    unfold punctuation? at h
    split at h
    all_goals cases h
    all_goals exact boundary_cons rest (by decide) (by decide)

theorem scan?_blank {c : Char} (h : isBlank c = true) (seen : List Token) (rest : List Char) :
    scan? seen (c :: rest) = scan? seen rest := by
  rw [scan?, if_pos h]

theorem toList_newline (n : Nat) : (newline n).toList = '\n' :: List.replicate n ' ' := by
  have hpush : ∀ (n : Nat) (s : String),
      (Nat.repeat (fun s => s.push ' ') n s).toList = s.toList ++ List.replicate n ' ' := by
    intro n s
    induction n with
    | zero => simp [Nat.repeat]
    | succ n ih => rw [Nat.repeat, String.toList_push, ih, List.append_assoc, List.replicate_succ']
  unfold newline
  rw [String.toList_append, String.pushn_eq_repeat_push, hpush]
  rfl

theorem separates_newline (n : Nat) : Separates (newline n).toList [] where
  scan?_eq seen rest := by
    rw [toList_newline, List.cons_append, scan?_blank (by decide)]
    induction n with
    | zero => rfl
    | succ n ih => rw [List.replicate_succ, List.cons_append, scan?_blank (by decide), ih]
  boundary rest := by
    rw [toList_newline]
    exact boundary_cons _ (by decide) (by decide)

/--
A comma ends the line of the part before it.
-/
theorem separates_comma (n : Nat) : Separates ("," ++ newline n).toList [.comma] := by
  rw [String.toList_append]
  exact (separates_punctuation (c := ',') rfl).append (separates_newline n)

theorem separates_colon : Separates ": ".toList [.colon] where
  scan?_eq seen rest := by
    show scan? seen (':' :: ' ' :: rest) = _
    rw [scan?]
    exact scan?_blank (by decide) _ rest
  boundary rest := boundary_cons (c := ':') (' ' :: rest) (by decide) (by decide)

/-! ### Numbers and words -/

theorem isNumeric_of_isDigit {c : Char} (h : c.isDigit = true) : isNumeric c = true := by
  simp [isNumeric, h]

/--
A class of characters tells its members from a character outside.
-/
theorem ne_of_class {p : Char → Bool} {c d : Char} (hc : p c = true) (hd : p d = false) :
    c ≠ d := by
  rintro rfl
  rw [hc] at hd
  cases hd

theorem isBlank_of_class {p : Char → Bool} {c : Char} (hc : p c = true)
    (hp : p ' ' = false ∧ p '\t' = false ∧ p '\n' = false ∧ p '\r' = false) :
    isBlank c = false := by
  obtain ⟨hspace, htab, hnewline, hreturn⟩ := hp
  simp [isBlank, ne_of_class hc hspace, ne_of_class hc htab, ne_of_class hc hnewline,
    ne_of_class hc hreturn]

theorem scans_number {c : Char} {cs : List Char} {value : Json}
    (hc : c.isDigit = true ∨ c = '-') (hcs : ∀ d ∈ cs, d.isDigit = true)
    (h : number? (c :: cs) = some value) : Scans (c :: cs) [.scalar value] := by
  intro seen rest hrest
  obtain ⟨htake, hdrop⟩ := takeWhile_append_of_boundary (p := isNumeric)
    (fun d hd => isNumeric_of_isDigit (hcs d hd)) fun d hd => (hrest d hd).1
  have hblank : isBlank c = false := by
    rcases hc with hc | rfl
    . exact isBlank_of_class hc (by decide)
    . rfl
  have hquote : (c == '"') = false := by
    rcases hc with hc | rfl
    . exact beq_eq_false_iff_ne.mpr (ne_of_class hc (by decide))
    . rfl
  have hstart : (c.isDigit || c == '-') = true := by
    rcases hc with hc | rfl
    . simp [hc]
    . rfl
  rw [List.cons_append, scan?]
  simp only [hblank, hquote, hstart, htake, hdrop, h, Bool.false_eq_true, if_false, if_true]
  rfl

theorem scans_int {n : Int} (h : n.natAbs < word64) :
    Scans (toString n).toList [.scalar (.int n)] := by
  rw [Int.toString_eq_repr, Int.repr_eq_if]
  split
  . next hsign =>
    obtain ⟨m, rfl⟩ := Int.eq_ofNat_of_zero_le hsign
    rw [Int.toNat_natCast, Nat.toList_repr]
    have hnumber := number?_toDigits (n := m) h
    obtain ⟨d, ds, hdigits⟩ := List.exists_cons_of_ne_nil (Nat.toDigits_ne_nil (n := m) (b := 10))
    have hall : ∀ c ∈ d :: ds, c.isDigit = true := by
      rw [← hdigits]
      exact fun _ hc => isDigit_of_mem_toDigits hc
    rw [hdigits] at hnumber ⊢
    exact scans_number (.inl (hall d (by simp))) (fun c hc => hall c (by simp [hc])) hnumber
  . next hsign =>
    obtain ⟨m, rfl⟩ := Int.exists_eq_neg_ofNat (Int.le_of_lt (Int.not_le.mp hsign))
    rw [String.toList_append, Int.neg_neg, Int.toNat_natCast, Nat.toList_repr]
    have hnumber := number?_neg_toDigits (n := m) (by omega) (by simpa using h)
    exact scans_number (.inr rfl) (fun _ hc => isDigit_of_mem_toDigits hc) hnumber

theorem scans_word {c : Char} {cs : List Char} {value : Json} (hc : c.isAlpha = true)
    (hdigit : c.isDigit = false) (hcs : cs.all Char.isAlpha = true)
    (h : word? (c :: cs) = some value) : Scans (c :: cs) [.scalar value] := by
  intro seen rest hrest
  obtain ⟨htake, hdrop⟩ := takeWhile_append_of_boundary (List.all_eq_true.mp hcs)
    fun d hd => (hrest d hd).2
  have hblank : isBlank c = false := isBlank_of_class hc (by decide)
  have hquote : (c == '"') = false :=
    beq_eq_false_iff_ne.mpr (ne_of_class hc (by decide))
  have hnumber : (c.isDigit || c == '-') = false := by
    simpa [hdigit] using ne_of_class hc (by decide : '-'.isAlpha = false)
  rw [List.cons_append, scan?]
  simp only [hblank, hquote, hnumber, hc, htake, hdrop, h, Bool.false_eq_true, if_false, if_true]
  rfl

theorem scans_null : Scans "null".toList [.scalar .null] := by
  show Scans ('n' :: ['u', 'l', 'l']) _
  exact scans_word (by decide) (by decide) (by decide) rfl

theorem scans_true : Scans "true".toList [.scalar (.bool true)] := by
  show Scans ('t' :: ['r', 'u', 'e']) _
  exact scans_word (by decide) (by decide) (by decide) rfl

theorem scans_false : Scans "false".toList [.scalar (.bool false)] := by
  show Scans ('f' :: ['a', 'l', 's', 'e']) _
  exact scans_word (by decide) (by decide) (by decide) rfl

/-! ### Strings -/

theorem hex4?_control : ∀ n < 32,
    hex4? '0' '0' (Nat.digitChar (n / 16)) (Nat.digitChar (n % 16)) = some n := by
  decide

theorem toList_control {n : Nat} (h : n < 32) :
    (escaped.control n).toList =
      ['\\', 'u', '0', '0', Nat.digitChar (n / 16), Nat.digitChar (n % 16)] := by
  unfold escaped.control
  split
  . next hshort =>
    simp [Nat.toDigits_of_lt_base hshort, Nat.div_eq_of_lt hshort, Nat.mod_eq_of_lt hshort,
      Nat.digitChar]
  . next hlong =>
    have hdiv : n / 16 < 16 := by omega
    simp [Nat.toDigits_of_base_le (by decide) (Nat.not_lt.mp hlong), Nat.toDigits_of_lt_base hdiv]

theorem string?_control {c : Char} (h : c.toNat < 32) (seen cs : List Char) :
    string? seen true none ((escaped.control c.toNat).toList ++ cs) =
      string? (c :: seen) true none cs := by
  have hlow : isLowSurrogate c.toNat = false := by
    simp [isLowSurrogate]
    omega
  have hhigh : isHighSurrogate c.toNat = false := by
    simp [isHighSurrogate]
    omega
  rw [toList_control h]
  simp only [List.cons_append, List.nil_append]
  rw [string?, hex4?_control _ h]
  simp [hlow, hhigh, Char.ofNat_toNat]

theorem string?_plain {c : Char} (hquote : c ≠ '"') (hslash : c ≠ '\\') (h : ¬c.toNat < 32)
    (seen cs : List Char) :
    string? seen true none (c :: cs) = string? (c :: seen) true none cs := by
  rw [string?.eq_def]
  split
  . next heq => cases heq
  . next heq => exact absurd (List.cons.inj heq).1 hquote
  . next heq => exact absurd (List.cons.inj heq).1 hslash
  . next heq => exact absurd (List.cons.inj heq).1 hslash
  . next heq =>
    obtain ⟨rfl, rfl⟩ := List.cons.inj heq
    rw [if_neg h]
    rfl

/--
However a character is written, it is read back as itself.
-/
theorem string?_escaped (c : Char) (seen cs : List Char) :
    string? seen true none ((escaped c).toList ++ cs) = string? (c :: seen) true none cs := by
  unfold escaped
  split
  case h_8 =>
    split
    . next h => exact string?_control h seen cs
    . next h =>
      rw [Char.toString_eq_singleton, String.toList_singleton, List.singleton_append]
      exact string?_plain ‹_› ‹_› h seen cs
  all_goals
    rw [string?.eq_def]
    rfl

theorem string?_flatMap_escaped (cs seen rest : List Char) :
    string? seen true none (cs.flatMap (fun c => (escaped c).toList) ++ '"' :: rest) =
      some (some (String.ofList (seen.reverse ++ cs)), rest) := by
  induction cs generalizing seen with
  | nil => simp [string?]
  | cons c cs ih =>
    rw [List.flatMap_cons, List.append_assoc, string?_escaped, ih, List.reverse_cons,
      List.append_assoc, List.singleton_append]

theorem toList_quoted (s : String) :
    (quoted s).toList = '"' :: (s.toList.flatMap (fun c => (escaped c).toList) ++ ['"']) := by
  have hfold : ∀ (cs : List Char) (text : String),
      (cs.foldl (fun text c => text ++ escaped c) text).toList =
        text.toList ++ cs.flatMap fun c => (escaped c).toList := by
    intro cs
    induction cs with
    | nil => simp
    | cons c cs ih =>
      intro text
      rw [List.foldl_cons, ih, String.toList_append, List.flatMap_cons, List.append_assoc]
  unfold quoted
  rw [String.foldl_eq_foldl_toList, String.toList_append, String.toList_append, hfold]
  simp

theorem separates_quoted (s : String) : Separates (quoted s).toList [.text (some s)] where
  scan?_eq seen rest := by
    have hstring := string?_flatMap_escaped s.toList [] rest
    rw [List.reverse_nil, List.nil_append, String.ofList_toList] at hstring
    rw [toList_quoted, List.cons_append, List.append_assoc, List.singleton_append, scan?,
      if_neg (by decide), if_pos (by decide)]
    split
    . next hnone =>
      rw [hstring] at hnone
      cases hnone
    . next hsome =>
      rw [hstring] at hsome
      obtain ⟨rfl, rfl⟩ := Prod.mk.inj (Option.some.inj hsome)
      rfl
  boundary rest := by
    rw [toList_quoted]
    exact boundary_cons _ (by decide) (by decide)

/-! ### Containers -/

theorem scans_intercalate {separator : String} (hseparator : Separates separator.toList [.comma])
    {parts : List String} {tokens : List (List Token)}
    (h : List.Forall₂ (fun part ts => Scans part.toList ts) parts tokens) (hne : parts ≠ []) :
    Scans (separator.intercalate parts).toList (separated tokens) := by
  rw [String.toList_intercalate]
  induction h with
  | nil => exact absurd rfl hne
  | @cons part ts parts tokens hpart hrest ih =>
    cases hrest with
    | nil => simpa [separated] using hpart
    | cons hpart' hrest' =>
      have htail := hseparator.append_scans (ih (List.cons_ne_nil _ _))
      have hall := hpart.append htail fun rest => by
        rw [List.append_assoc]
        exact hseparator.boundary _
      simpa [separated] using hall

theorem scans_block (left right : String) {opening closing : Token}
    (hleft : Separates left.toList [opening]) (hright : Separates right.toList [closing])
    (indent : Nat) {parts : List String} {tokens : List (List Token)}
    (h : List.Forall₂ (fun part ts => Scans part.toList ts) parts tokens) :
    Scans (block left right indent parts).toList
      (opening :: separated tokens ++ [closing]) := by
  unfold block
  split
  . next hempty =>
    obtain rfl := List.isEmpty_iff.mp hempty
    cases h
    rw [String.toList_append]
    exact (hleft.append hright).scans
  . next hnonempty =>
    have hparts := scans_intercalate (separates_comma (indent + 2)) h
      (mt List.isEmpty_iff.mpr hnonempty)
    have hopen := (hleft.append (separates_newline (indent + 2))).append_scans hparts
    have hclose := hopen.append_separates ((separates_newline indent).append hright)
    simpa using hclose

end Token

open Token

mutual

/--
The text of a value, at any indentation, falls into the tokens of the value.
-/
theorem scans_prettyAt (indent : Nat) :
    ∀ j : Json, j.Plain → Scans (j.prettyAt indent).toList j.tokens
  | .null, _ => scans_null
  | .bool true, _ => scans_true
  | .bool false, _ => scans_false
  | .int _, h => scans_int h
  | .str s, _ => (separates_quoted s).scans
  | .arr items, h =>
    scans_block "[" "]" (separates_punctuation rfl) (separates_punctuation rfl) indent
      (scans_prettyItems (indent + 2) items h)
  | .obj members, h =>
    scans_block "\x7b" "\x7d" (separates_punctuation rfl) (separates_punctuation rfl) indent
      (scans_prettyMembers (indent + 2) members h)

theorem scans_prettyItems (indent : Nat) :
    ∀ items : List Json, AllPlain items →
      List.Forall₂ (fun part ts => Scans part.toList ts) (prettyItems indent items)
        (itemTokens items)
  | [], _ => .nil
  | item :: rest, ⟨hitem, hrest⟩ =>
    .cons (scans_prettyAt indent item hitem) (scans_prettyItems indent rest hrest)

theorem scans_prettyMembers (indent : Nat) :
    ∀ members : List (String × Json), MembersPlain members →
      List.Forall₂ (fun part ts => Scans part.toList ts) (prettyMembers indent members)
        (memberTokens members)
  | [], _ => .nil
  | (name, value) :: rest, ⟨hvalue, hrest⟩ => by
    refine .cons ?_ (scans_prettyMembers indent rest hrest)
    have hmember := ((separates_quoted name).append separates_colon).append_scans
      (scans_prettyAt indent value hvalue)
    simpa using hmember

end

end Json

end TileTraffic
