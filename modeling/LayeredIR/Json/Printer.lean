import LayeredIR.Json
import LayeredIR.Binary64.Notation

/-! Compact JSON text. Members are written in the order of their names; a quote, a backslash and
the control characters are escaped, all else is written as it is; a number that is not finite has
no JSON form and is written as null. -/
namespace LayeredIR.Json

private def hexDigit (n : Nat) : Char :=
  if n < 10 then Char.ofNat (48 + n) else Char.ofNat (87 + n)

private def escapeChar (c : Char) : List Char :=
  if c = '"' then ['\\', '"']
  else if c = '\\' then ['\\', '\\']
  else if c = '\n' then ['\\', 'n']
  else if c = '\r' then ['\\', 'r']
  else if c = '\t' then ['\\', 't']
  else if c.toNat = 8 then ['\\', 'b']
  else if c.toNat = 12 then ['\\', 'f']
  else if c.toNat < 32 then
    ['\\', 'u', '0', '0', hexDigit (c.toNat / 16), hexDigit (c.toNat % 16)]
  else [c]

def quote (s : String) : String :=
  String.ofList ('"' :: s.toList.flatMap escapeChar ++ ['"'])

def insertSorted (member : String × Json) : List (String × Json) → List (String × Json)
  | [] => [member]
  | other :: rest =>
    if other.1 < member.1 then other :: insertSorted member rest else member :: other :: rest

def sortMembers (members : List (String × Json)) : List (String × Json) :=
  members.foldr insertSorted []

mutual

def sorted : Json → Json
  | .arr items => .arr (sortedItems items)
  | .obj members => .obj (sortMembers (sortedMembers members))
  | tree => tree

def sortedItems : List Json → List Json
  | [] => []
  | item :: rest => item.sorted :: sortedItems rest

def sortedMembers : List (String × Json) → List (String × Json)
  | [] => []
  | (name, value) :: rest => (name, value.sorted) :: sortedMembers rest

end

mutual

def pieces : Json → List String → List String
  | .null, rest => "null" :: rest
  | .bool true, rest => "true" :: rest
  | .bool false, rest => "false" :: rest
  | .int n, rest => toString n :: rest
  | .float x, rest => (if x.isFinite then x.tagged else "null") :: rest
  | .str s, rest => quote s :: rest
  | .arr items, rest => "[" :: itemPieces items ("]" :: rest)
  | .obj members, rest => "\x7b" :: memberPieces members ("\x7d" :: rest)

def itemPieces : List Json → List String → List String
  | [], rest => rest
  | [item], rest => item.pieces rest
  | item :: other :: items, rest => item.pieces ("," :: itemPieces (other :: items) rest)

def memberPieces : List (String × Json) → List String → List String
  | [], rest => rest
  | [(name, value)], rest => quote name :: ":" :: value.pieces rest
  | (name, value) :: other :: members, rest =>
    quote name :: ":" :: value.pieces ("," :: memberPieces (other :: members) rest)

end

def render (tree : Json) : String := String.join (tree.sorted.pieces [])

end LayeredIR.Json
