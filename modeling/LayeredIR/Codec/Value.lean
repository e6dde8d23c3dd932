import LayeredIR.Codec.Literal
import LayeredIR.Future
import LayeredIR.Value.Equality

/-! Values as tagged records. Values without closures and futures share the form of literals, and
are read as literals. A closure shows its parameters and its body, never what it captured; a future
shows its outcome, never its task. -/
namespace LayeredIR.Value

def encodeError (e : ErrorValue) : Json :=
  Json.tagged "error" (("code", .str e.code) :: Json.memberIf "message" .str e.message)

private def encodeClosure (c : Closure) : Json :=
  Json.tagged "closure" (("params", Json.ofStrings c.shownParams) ::
    ((if c.isFix then [("fix", .bool true)] else []) ++
      [("body", .str c.body.describe), ("env", .str "<env>")]))

mutual

def encodeWith (encodeFuture : Identity → Json) : Value → Json
  | .int value => Json.tagged "int" [("value", .int value.toInt)]
  | .float value => Json.tagged "float" [("value", .ofBinary64 value)]
  | .bool value => Json.tagged "bool" [("value", .bool value)]
  | .string value => Json.tagged "string" [("value", .str value)]
  | .void => Json.tagged "void" []
  | .list of items =>
    Json.tagged "list" [("of", of.toJson), ("value", .arr (encodeAllWith encodeFuture items))]
  | .set of items =>
    Json.tagged "set" [("of", of.toJson), ("value", .arr (encodeAllWith encodeFuture items))]
  | .closure c => encodeClosure c
  | .future id => encodeFuture id
  | .error e => encodeError e
termination_by structural x => x

def encodeAllWith (encodeFuture : Identity → Json) : List Value → List Json
  | [] => []
  | item :: rest => item.encodeWith encodeFuture :: encodeAllWith encodeFuture rest
termination_by structural x => x

end

def ofJson? (tree : Json) : Option Value := (Literal.ofJson? tree).map ofLiteral

end LayeredIR.Value

namespace LayeredIR.Futures

def encodeWithin (futures : Futures) : Nat → Identity → Json
  | 0, _ => Json.tagged "future" [("status", .str "pending")]
  | fuel + 1, id =>
    let outcome := futures.outcome? id
    let shown := match outcome with
      | none => []
      | some (.ok value) =>
        Json.memberIf "of" Ty.toJson (futures.typeOf value) ++
          [("value", value.encodeWith (encodeWithin futures fuel))]
      | some (.error error) => [("value", Value.encodeError error)]
    Json.tagged "future" (("status", .str (Future.statusOf outcome)) :: shown)

/-- The form of a value. Futures within each other's results are distinct, so no more of them are
nested than there are futures. -/
def encode (futures : Futures) (value : Value) : Json :=
  value.encodeWith (futures.encodeWithin futures.entries.length)

end LayeredIR.Futures
