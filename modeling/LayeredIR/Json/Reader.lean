import LayeredIR.Json
import LayeredIR.Binary64.Rounding

/-! Reading of JSON text: characters to tokens, tokens to a tree with an explicit stack of open
arrays and objects. A number beyond the finite doubles, a lone surrogate, a raw control character
and more than `maxOpen` containers within each other are refused. -/
namespace LayeredIR.Json

inductive Token
  | openArr | closeArr | openObj | closeObj | colon | comma
  | scalar (tree : Json)

private def hexValue (c : Char) : Option Nat :=
  if c.isDigit then some (c.toNat - 48)
  else if 'a' ≤ c ∧ c ≤ 'f' then some (c.toNat - 87)
  else if 'A' ≤ c ∧ c ≤ 'F' then some (c.toNat - 55)
  else none

private def hexUnit (a b c d : Char) : Option Nat := do
  return ((((← hexValue a) * 16 + (← hexValue b)) * 16 + (← hexValue c)) * 16 + (← hexValue d))

private def simpleEscape (c : Char) : Option Char :=
  match c with
  | '"' => some '"'
  | '\\' => some '\\'
  | '/' => some '/'
  | 'b' => some (Char.ofNat 8)
  | 'f' => some (Char.ofNat 12)
  | 'n' => some '\n'
  | 'r' => some '\r'
  | 't' => some '\t'
  | _ => none

/-- The rest of a string after its opening quote: its characters, in reverse before `done`, and
what follows it. `high` is the first half of a pair of surrogates, whose second half must come
next. -/
def readString (high : Option Nat) (done : List Char) : List Char → Option (String × List Char)
  | '\\' :: 'u' :: a :: b :: c :: d :: rest =>
    match high, hexUnit a b c d with
    | none, some unit =>
      if 0xD800 ≤ unit ∧ unit < 0xDC00 then readString (some unit) done rest
      else if 0xDC00 ≤ unit ∧ unit < 0xE000 then none
      else readString none (Char.ofNat unit :: done) rest
    | some first, some unit =>
      if 0xDC00 ≤ unit ∧ unit < 0xE000 then
        let point := 0x10000 + (first - 0xD800) * 0x400 + (unit - 0xDC00)
        readString none (Char.ofNat point :: done) rest
      else none
    | _, none => none
  | '\\' :: c :: rest =>
    match high, simpleEscape c with
    | none, some plain => readString none (plain :: done) rest
    | _, _ => none
  | c :: rest =>
    if high.isSome then none
    else if c = '"' then some (String.ofList done.reverse, rest)
    else if c.toNat < 32 ∨ c = '\\' then none
    else readString none (c :: done) rest
  | [] => none

private def spanDigits (cs : List Char) : List Char × List Char :=
  (cs.takeWhile Char.isDigit, cs.dropWhile Char.isDigit)

private def digitsValue (cs : List Char) : Nat :=
  cs.foldl (fun n c => n * 10 + (c.toNat - 48)) 0

private def readFraction (cs : List Char) : Option (Option (List Char) × List Char) :=
  match cs with
  | '.' :: rest =>
    match spanDigits rest with
    | ([], _) => none
    | (digits, rest) => some (some digits, rest)
  | _ => some (none, cs)

private def readExponentDigits (negative : Bool) (cs : List Char) :
    Option (Option Int × List Char) :=
  match spanDigits cs with
  | ([], _) => none
  | (digits, rest) =>
    let value : Int := digitsValue digits
    some (some (if negative then -value else value), rest)

private def readExponent (cs : List Char) : Option (Option Int × List Char) :=
  match cs with
  | 'e' :: '-' :: rest | 'E' :: '-' :: rest => readExponentDigits true rest
  | 'e' :: '+' :: rest | 'E' :: '+' :: rest => readExponentDigits false rest
  | 'e' :: rest | 'E' :: rest => readExponentDigits false rest
  | _ => some (none, cs)

private def floatTree (negative : Bool) (coefficient : Nat) (scale : Int) : Option Json :=
  let x := Binary64.ofDecimal negative coefficient scale
  if x.isFinite then some (.float x) else none

/-- A number without point and exponent is an integer if it fits a word, signed or unsigned. The
negative zero is no integer. -/
private def integerTree (negative : Bool) (magnitude : Nat) : Option Json :=
  if negative then
    if 0 < magnitude ∧ Int64.minValue.toInt ≤ -(magnitude : Int) then some (.int (-magnitude))
    else floatTree true magnitude 0
  else if magnitude < UInt64.size then some (.int magnitude)
  else floatTree false magnitude 0

def readNumber (negative : Bool) (cs : List Char) : Option (Json × List Char) := do
  let (whole, rest) := spanDigits cs
  let wellFormed := match whole with
    | [] => false
    | '0' :: _ :: _ => false
    | _ => true
  if !wellFormed then none
  let (fraction, rest) ← readFraction rest
  let (exponent, rest) ← readExponent rest
  let tree ← match fraction, exponent with
    | none, none => integerTree negative (digitsValue whole)
    | _, _ =>
      let digits := fraction.getD []
      floatTree negative (digitsValue (whole ++ digits)) (exponent.getD 0 - digits.length)
  return (tree, rest)

def tokens : Nat → List Char → Option (List Token)
  | 0, cs => if cs.isEmpty then some [] else none
  | fuel + 1, cs =>
    match cs with
    | [] => some []
    | '[' :: rest => (tokens fuel rest).map (Token.openArr :: ·)
    | ']' :: rest => (tokens fuel rest).map (Token.closeArr :: ·)
    | '\x7b' :: rest => (tokens fuel rest).map (Token.openObj :: ·)
    | '\x7d' :: rest => (tokens fuel rest).map (Token.closeObj :: ·)
    | ':' :: rest => (tokens fuel rest).map (Token.colon :: ·)
    | ',' :: rest => (tokens fuel rest).map (Token.comma :: ·)
    | 'n' :: 'u' :: 'l' :: 'l' :: rest => (tokens fuel rest).map (Token.scalar .null :: ·)
    | 't' :: 'r' :: 'u' :: 'e' :: rest => (tokens fuel rest).map (Token.scalar (.bool true) :: ·)
    | 'f' :: 'a' :: 'l' :: 's' :: 'e' :: rest =>
      (tokens fuel rest).map (Token.scalar (.bool false) :: ·)
    | '"' :: rest => do
      let (text, rest) ← readString none [] rest
      return Token.scalar (.str text) :: (← tokens fuel rest)
    | '-' :: rest => do
      let (tree, rest) ← readNumber true rest
      return Token.scalar tree :: (← tokens fuel rest)
    | c :: rest =>
      if c = ' ' ∨ c = '\n' ∨ c = '\r' ∨ c = '\t' then tokens fuel rest
      else do
        let (tree, rest) ← readNumber false cs
        return Token.scalar tree :: (← tokens fuel rest)

inductive Open
  | arr (items : List Json)
  | obj (members : List (String × Json)) (name : String)

inductive Expect
  | value
  | firstItem
  | firstName
  | name
  | colon (name : String)
  | separator

structure Progress where
  stack : List Open
  expect : Expect
  result : Option Json

namespace Progress

def finish (tree : Json) : List Open → Progress
  | [] => ⟨[], .separator, some tree⟩
  | .arr items :: rest => ⟨.arr (tree :: items) :: rest, .separator, none⟩
  | .obj members name :: rest => ⟨.obj ((name, tree) :: members) name :: rest, .separator, none⟩

def maxOpen : Nat := 127

def startValue (stack : List Open) : Token → Option Progress
  | .scalar tree => some (finish tree stack)
  | .openArr =>
    if stack.length < maxOpen then some ⟨.arr [] :: stack, .firstItem, none⟩ else none
  | .openObj =>
    if stack.length < maxOpen then some ⟨.obj [] "" :: stack, .firstName, none⟩ else none
  | _ => none

def step (p : Progress) (token : Token) : Option Progress :=
  match p.expect, token, p.stack with
  | .value, _, stack => startValue stack token
  | .firstItem, .closeArr, .arr items :: rest => some (finish (.arr items.reverse) rest)
  | .firstItem, _, stack => startValue stack token
  | .firstName, .closeObj, .obj members _ :: rest =>
    some (finish (Json.ofMembers members.reverse) rest)
  | .firstName, .scalar (.str name), stack => some ⟨stack, .colon name, none⟩
  | .name, .scalar (.str name), stack => some ⟨stack, .colon name, none⟩
  | .colon name, .colon, .obj members _ :: rest => some ⟨.obj members name :: rest, .value, none⟩
  | .separator, .comma, .arr items :: rest => some ⟨.arr items :: rest, .value, none⟩
  | .separator, .comma, .obj members name :: rest => some ⟨.obj members name :: rest, .name, none⟩
  | .separator, .closeArr, .arr items :: rest => some (finish (.arr items.reverse) rest)
  | .separator, .closeObj, .obj members _ :: rest =>
    some (finish (Json.ofMembers members.reverse) rest)
  | _, _, _ => none

end Progress

def parse? (text : String) : Option Json := do
  let chars := text.toList
  let tokens ← tokens chars.length chars
  let last ← tokens.foldlM Progress.step ⟨[], .value, none⟩
  last.result

end LayeredIR.Json
