import LayeredIR.Text.Unprintable

/-! Quoted text for debugging: quotes, backslashes and what cannot be seen are escaped. -/
namespace LayeredIR.Text.Quoted

private def codeDigits (n : Nat) : List Char := Nat.toDigits 16 n

def escape (c : Char) : List Char :=
  match c with
  | '"' => ['\\', '"']
  | '\\' => ['\\', '\\']
  | '\n' => ['\\', 'n']
  | '\r' => ['\\', 'r']
  | '\t' => ['\\', 't']
  | '\x00' => ['\\', '0']
  | _ => if isUnprintable c then ['\\', 'u', '\x7b'] ++ codeDigits c.toNat ++ ['\x7d'] else [c]

def quote (s : String) : String :=
  String.ofList ('"' :: s.toList.flatMap escape ++ ['"'])

def quoteList (texts : List String) : String :=
  "[" ++ String.intercalate ", " (texts.map quote) ++ "]"

end LayeredIR.Text.Quoted
