import TileTraffic.Json.Basic
import TileTraffic.Json.Magnitude

/-!
The tokens of JSON text.
-/

namespace TileTraffic

namespace Json

/--
A token: punctuation, a string, or another value without parts. A string with an unpaired surrogate
is well formed, but no text.
-/
inductive Token where
  | openArr
  | closeArr
  | openObj
  | closeObj
  | comma
  | colon
  | text (s : Option String)
  | scalar (value : Json)

namespace Token

def hex4? (a b c d : Char) : Option Nat :=
  [a, b, c, d].foldlM (fun n digit => (hexDigit? digit).map (16 * n + ·)) 0
where
  hexDigit? (c : Char) : Option Nat :=
    if '0' ≤ c ∧ c ≤ '9' then some (c.toNat - '0'.toNat)
    else if 'a' ≤ c ∧ c ≤ 'f' then some (c.toNat - 'a'.toNat + 10)
    else if 'A' ≤ c ∧ c ≤ 'F' then some (c.toNat - 'A'.toNat + 10)
    else none

/--
The character behind a backslash, where it is a single letter.
-/
def escape? : Char → Option Char
  | '"' => some '"'
  | '\\' => some '\\'
  | '/' => some '/'
  | 'b' => some '\x08'
  | 'f' => some '\x0c'
  | 'n' => some '\n'
  | 'r' => some '\r'
  | 't' => some '\t'
  | _ => none

def isHighSurrogate (unit : Nat) : Bool := 0xD800 ≤ unit && unit < 0xDC00

def isLowSurrogate (unit : Nat) : Bool := 0xDC00 ≤ unit && unit < 0xE000

def surrogatePair (high low : Nat) : Char :=
  Char.ofNat (0x10000 + (high - 0xD800) * 0x400 + (low - 0xDC00))

/--
The rest of a string literal after its opening quote, and what follows it. `seen` are the characters
so far, last one first; `high` is a surrogate that waits for its second half; `intact` is lost at a
surrogate that stays alone.
-/
def string? (seen : List Char) (intact : Bool) (high : Option Nat) :
    List Char → Option (Option String × List Char)
  | [] => none
  | '"' :: rest =>
    some (if intact && high.isNone then some (String.ofList seen.reverse) else none, rest)
  | '\\' :: 'u' :: a :: b :: c :: d :: rest =>
    match hex4? a b c d with
    | none => none
    | some unit =>
      if isLowSurrogate unit then
        match high with
        | some first => string? (surrogatePair first unit :: seen) intact none rest
        | none => string? seen false none rest
      else if isHighSurrogate unit then
        string? seen (intact && high.isNone) (some unit) rest
      else
        string? (Char.ofNat unit :: seen) (intact && high.isNone) none rest
  | '\\' :: c :: rest =>
    match escape? c with
    | none => none
    | some x => string? (x :: seen) (intact && high.isNone) none rest
  | c :: rest =>
    if c.toNat < 0x20 then none else string? (c :: seen) (intact && high.isNone) none rest

theorem length_of_string? {seen : List Char} {intact : Bool} {high : Option Nat} {cs : List Char}
    {s : Option String} {rest : List Char} (h : string? seen intact high cs = some (s, rest)) :
    rest.length < cs.length := by
  fun_induction string? seen intact high cs <;> simp_all <;> omega

def isNumeric (c : Char) : Bool :=
  c.isDigit || c == '-' || c == '+' || c == '.' || c == 'e' || c == 'E'

/--
The digits at the front of `cs`, of which there has to be at least one, and the rest.
-/
def digits? (cs : List Char) : Option (List Char × List Char) :=
  match cs.takeWhile Char.isDigit with
  | [] => none
  | ds => some (ds, cs.dropWhile Char.isDigit)

/--
The digits before the point: no zero in front of another digit.
-/
def whole? (cs : List Char) : Option (List Char × List Char) :=
  match digits? cs with
  | some ('0' :: _ :: _, _) => none
  | found => found

/--
The digits of a fraction, if there is one, and the rest. A point needs a digit.
-/
def fraction? : List Char → Option (List Char × List Char)
  | '.' :: cs => digits? cs
  | cs => some ([], cs)

/--
The exponent, zero if there is none, and the rest. It needs a digit.
-/
def exponent? : List Char → Option (Int × List Char)
  | 'e' :: cs | 'E' :: cs => signed? cs
  | cs => some (0, cs)
where
  signed? : List Char → Option (Int × List Char)
    | '-' :: cs => (digits? cs).map fun (ds, rest) => (-(natOfDigits ds : Int), rest)
    | '+' :: cs => (digits? cs).map fun (ds, rest) => ((natOfDigits ds : Int), rest)
    | cs => (digits? cs).map fun (ds, rest) => ((natOfDigits ds : Int), rest)

/--
The number that `cs` spells. A minus sign in front of a plain zero makes it a `decimal`: no integer
is written like that.
-/
def number? (cs : List Char) : Option Json := do
  let negative := cs.head? == some '-'
  let (whole, rest) ← whole? (if negative then cs.tail else cs)
  let (fraction, rest') ← fraction? rest
  let (exponent, unread) ← exponent? rest'
  if !unread.isEmpty then
    none
  else if Magnitude.isTooLarge whole fraction exponent then
    some .unreadable
  else if !rest.isEmpty || negative && whole == ['0'] then
    some (.decimal (String.ofList cs))
  else
    let n : Int := natOfDigits whole
    some (.int (if negative then -n else n))

def word? : List Char → Option Json
  | ['n', 'u', 'l', 'l'] => some .null
  | ['t', 'r', 'u', 'e'] => some (.bool true)
  | ['f', 'a', 'l', 's', 'e'] => some (.bool false)
  | _ => none

def isBlank (c : Char) : Bool :=
  c == ' ' || c == '\t' || c == '\n' || c == '\r'

def punctuation? : Char → Option Token
  | '[' => some .openArr
  | ']' => some .closeArr
  | '\x7b' => some .openObj
  | '\x7d' => some .closeObj
  | ',' => some .comma
  | ':' => some .colon
  | _ => none

private theorem length_dropWhile_le (p : Char → Bool) (cs : List Char) :
    (cs.dropWhile p).length ≤ cs.length := by
  induction cs with
  | nil => simp
  | cons c cs ih =>
    rw [List.dropWhile_cons]
    split
    . simp; omega
    . simp

/--
The tokens of `cs`, behind those already `seen`, which are listed last one first.
-/
def scan? (seen : List Token) (cs : List Char) : Option (List Token) :=
  match cs with
  | [] => some seen.reverse
  | c :: rest =>
    if isBlank c then
      scan? seen rest
    else if c == '"' then
      match h : string? [] true none rest with
      | none => none
      | some (s, rest') =>
        have := length_of_string? h
        scan? (.text s :: seen) rest'
    else if c.isDigit || c == '-' then
      match number? (c :: rest.takeWhile isNumeric) with
      | none => none
      | some value =>
        have := length_dropWhile_le isNumeric rest
        scan? (.scalar value :: seen) (rest.dropWhile isNumeric)
    else if c.isAlpha then
      match word? (c :: rest.takeWhile Char.isAlpha) with
      | none => none
      | some value =>
        have := length_dropWhile_le Char.isAlpha rest
        scan? (.scalar value :: seen) (rest.dropWhile Char.isAlpha)
    else
      match punctuation? c with
      | none => none
      | some token => scan? (token :: seen) rest
termination_by cs.length

end Token

end Json

end TileTraffic
