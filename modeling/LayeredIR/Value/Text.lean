import LayeredIR.Binary64.Notation
import LayeredIR.Future
import LayeredIR.Text.Quoted

/-! The text of values: `text` for messages, `display` for output, where a string stands without
quotes, and `debug`, which shows declared types and escapes strings. Closures do not show what they
captured. -/
namespace LayeredIR.Value

mutual

def textWith (futures : Futures) : Value → String
  | .int n => toString n.toInt
  | .float x => x.plain
  | .bool true => "true"
  | .bool false => "false"
  | .string s => "\"" ++ s ++ "\""
  | .void => "void"
  | .list _ items => "[" ++ String.intercalate ", " (textsWith futures items) ++ "]"
  | .set _ items => "\x7b" ++ String.intercalate ", " (textsWith futures items) ++ "\x7d"
  | .closure c =>
    (if c.isFix then "<fix(" else "<closure(") ++ String.intercalate ", " c.shownParams ++ ")>"
  | .future id => "<future " ++ Future.statusOf (futures.outcome? id) ++ ">"
  | .error e => "<error " ++ e.text ++ ">"
termination_by structural x => x

def textsWith (futures : Futures) : List Value → List String
  | [] => []
  | item :: rest => item.textWith futures :: textsWith futures rest
termination_by structural x => x

end

def display (futures : Futures) : Value → String
  | .string s => s
  | value => value.textWith futures

private def closureDebug (c : Closure) : String :=
  "ClosureValue \x7b params: " ++ Text.Quoted.quoteList c.shownParams ++
    ", body: " ++ Text.Quoted.quote c.body.describe ++
    ", fix: " ++ (if c.isFix then "true" else "false") ++ ", .. \x7d"

private def futureDebug (futures : Futures) (id : Identity) : String :=
  let task := (futures.get? id).elim 0 Future.task
  "Future(#" ++ toString task ++ ", " ++ Future.debugStatusOf (futures.outcome? id) ++ ")"

mutual

def debugWith (futures : Futures) : Value → String
  | .int n => "Int(" ++ toString n.toInt ++ ")"
  | .float x => "Float(" ++ x.plain ++ ")"
  | .bool true => "Bool(true)"
  | .bool false => "Bool(false)"
  | .string s => "Str(" ++ Text.Quoted.quote s ++ ")"
  | .void => "Void"
  | .list of items =>
    "List<" ++ of.text ++ ">([" ++ String.intercalate ", " (debugsWith futures items) ++ "])"
  | .set of items =>
    "Set<" ++ of.text ++ ">([" ++ String.intercalate ", " (debugsWith futures items) ++ "])"
  | .closure c => "Closure(" ++ closureDebug c ++ ")"
  | .future id => futureDebug futures id
  | .error e => "Error(" ++ e.text ++ ")"
termination_by structural x => x

def debugsWith (futures : Futures) : List Value → List String
  | [] => []
  | item :: rest => item.debugWith futures :: debugsWith futures rest
termination_by structural x => x

end

end LayeredIR.Value
