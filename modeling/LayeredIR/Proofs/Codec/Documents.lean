import LayeredIR.Codec.Flow
import LayeredIR.Proofs.Codec.Expressions

/-! Documents, written and read. A document of either kind is read back as it was written, as long
as its float literals are finite; and since reading makes no others, whatever tree a document was
read from, writing it and reading it again gives the same document. -/
namespace LayeredIR

theorem Layer.ofJson?_toJson (layer : Layer) : ofJson? layer.toJson = some layer := by
  cases layer <;> rfl

/-- A descriptor is never written as null, which would stand for its absence. -/
theorem Ty.toJson_eq_obj (ty : Ty) : ∃ members, ty.toJson = .obj members := by
  cases ty <;> exact ⟨_, rfl⟩

namespace Node

theorem ofJson?_toJson {node : Node} (finite : node.expr.Every Expr.FiniteLiteral) :
    ofJson? node.toJson = some node := by
  simp [ofJson?, toJson, Expr.ofJson?, Expr.decode?_toJson false finite]

theorem every_of_ofJson? {tree : Json} {node : Node} (decoded : ofJson? tree = some node) :
    node.expr.Every Expr.FiniteLiteral := by
  simp only [ofJson?, Option.bind_eq_bind, Option.pure_def, Option.bind_eq_some_iff,
    Option.some.injEq] at decoded
  obtain ⟨_, -, _, -, _, -, _, expr, rfl⟩ := decoded
  exact Expr.every_of_ofJson? expr

end Node

namespace Definition

theorem ofJson?_toJson {d : Definition} (finite : d.body.Every Expr.FiniteLiteral) :
    ofJson? d.toJson = some d := by
  obtain ⟨ns, name, params, body, result⟩ := d
  cases result with
  | none =>
    simp [ofJson?, toJson, Arg.ofJson?_toJson finite]
  | some ty =>
    obtain ⟨members, written⟩ := ty.toJson_eq_obj
    have declared : Ty.ofJson? (.obj members) = some ty := written ▸ Ty.decode?_toJson false ty
    simp [ofJson?, toJson, Arg.ofJson?_toJson finite, written, declared]

theorem every_of_ofJson? {tree : Json} {d : Definition} (decoded : ofJson? tree = some d) :
    d.body.Every Expr.FiniteLiteral := by
  simp only [ofJson?, Option.bind_eq_bind, Option.pure_def, Option.bind_eq_some_iff,
    Option.some.injEq] at decoded
  obtain ⟨_, -, _, -, _, -, _, body, _, -, _, -, _, -, rfl⟩ := decoded
  exact Arg.every_of_ofJson? body

end Definition

namespace Document

theorem ofJson?_toJson {doc : Document} (finite : doc.Every Expr.FiniteLiteral) :
    ofJson? doc.toJson = some doc := by
  obtain ⟨version, layer, definitions, nodes, result⟩ := doc
  have definitionsBack : Definition.listOfJson? (.arr (definitions.map Definition.toJson)) =
      some definitions :=
    Json.all?_arr fun d member => Definition.ofJson?_toJson (finite.definition d member)
  have nodesBack : (nodes.map Node.toJson).mapM Node.ofJson? = some nodes :=
    Json.all?_arr fun node member => Node.ofJson?_toJson (finite.node node member)
  have resultBack : Arg.ofJson? result.toJson = some result := Arg.ofJson?_toJson finite.result
  cases layer with
  | none =>
    simp [ofJson?, toJson, definitionsBack, nodesBack, resultBack]
  | some layer =>
    have layerBack : Layer.ofJson? (.str layer.name) = some layer := layer.ofJson?_toJson
    simp [ofJson?, toJson, Layer.toJson, layerBack, definitionsBack, nodesBack, resultBack]

theorem every_of_ofJson? {tree : Json} {doc : Document} (decoded : ofJson? tree = some doc) :
    doc.Every Expr.FiniteLiteral := by
  simp only [ofJson?, Option.bind_eq_bind, Option.pure_def, Option.bind_eq_some_iff,
    Option.some.injEq] at decoded
  obtain ⟨_, -, _, -, _, -, _, definitions, _, nodes, _, -, _, result, rfl⟩ := decoded
  refine ⟨fun node member => ?_, fun d member => ?_, Arg.every_of_ofJson? result⟩
  · obtain ⟨_, -, here⟩ := Json.Members.has_of_getOr? nodes node member
    exact Node.every_of_ofJson? here
  · obtain ⟨_, -, here⟩ := Json.Members.has_of_getOr? definitions d member
    exact Definition.every_of_ofJson? here

end Document

namespace Instruction

def Every (P : Expr → Prop) : Instruction → Prop
  | .assign _ value => value.Every P
  | .op _ _ _ _ | .call _ _ _ | .effect _ _ _ => True

theorem ofJson?_toJson {i : Instruction} (finite : i.Every Expr.FiniteLiteral) :
    ofJson? i.toJson = some i := by
  cases i with
  | assign target value =>
    rw [toJson, ofJson?, Json.tagged?_tagged false rfl]
    simp [Arg.ofJson?_toJson finite]
  | op target ns name args =>
    rw [toJson, ofJson?, Json.tagged?_tagged false rfl]
    cases ns <;> simp
  | call target callee args =>
    rw [toJson, ofJson?, Json.tagged?_tagged false rfl]
    simp
  | effect target name args =>
    rw [toJson, ofJson?, Json.tagged?_tagged false rfl]
    cases target <;> simp

theorem every_of_ofJson? {tree : Json} {i : Instruction} (decoded : ofJson? tree = some i) :
    i.Every Expr.FiniteLiteral := by
  simp only [ofJson?, Option.bind_eq_bind, Option.bind_eq_some_iff] at decoded
  obtain ⟨⟨tag, record⟩, -, read⟩ := decoded
  dsimp only at read
  split at read <;> simp only [Option.pure_def, Option.bind_eq_some_iff, Option.some.injEq,
    reduceCtorEq] at read
  case h_1 =>
    obtain ⟨_, -, _, -, _, value, rfl⟩ := read
    exact Arg.every_of_ofJson? value
  case h_2 =>
    obtain ⟨_, -, _, -, _, -, _, -, rfl⟩ := read
    trivial
  case h_3 | h_4 =>
    obtain ⟨_, -, _, -, _, -, rfl⟩ := read
    trivial

end Instruction

theorem Terminator.ofJson?_toJson (t : Terminator) : ofJson? t.toJson = some t := by
  cases t with
  | jump | branch | fork =>
    rw [toJson, ofJson?, Json.tagged?_tagged false rfl]
    simp
  | ret value =>
    rw [toJson, ofJson?, Json.tagged?_tagged false rfl]
    cases value <;> simp
  | join future target label =>
    rw [toJson, ofJson?, Json.tagged?_tagged false rfl]
    cases target <;> simp

namespace Block

def Every (P : Expr → Prop) (block : Block) : Prop := ∀ i ∈ block.instructions, i.Every P

theorem ofJson?_toJson {block : Block} (finite : block.Every Expr.FiniteLiteral) :
    ofJson? block.toJson = some block := by
  have instructions : (block.instructions.map Instruction.toJson).mapM Instruction.ofJson? =
      some block.instructions :=
    Json.all?_arr fun i member => Instruction.ofJson?_toJson (finite i member)
  simp [ofJson?, toJson, instructions, Terminator.ofJson?_toJson]

theorem every_of_ofJson? {tree : Json} {block : Block} (decoded : ofJson? tree = some block) :
    block.Every Expr.FiniteLiteral := by
  simp only [ofJson?, Option.bind_eq_bind, Option.pure_def, Option.bind_eq_some_iff,
    Option.some.injEq] at decoded
  obtain ⟨_, -, _, instructions, _, -, _, -, _, -, rfl⟩ := decoded
  intro i member
  obtain ⟨_, -, here⟩ := Json.Members.has_of_getOr? instructions i member
  exact Instruction.every_of_ofJson? here

end Block

namespace FlowDocument

structure Every (P : Expr → Prop) (doc : FlowDocument) : Prop where
  definition : ∀ d ∈ doc.definitions, d.body.Every P
  block : ∀ block ∈ doc.blocks, block.Every P

theorem ofJson?_toJson {doc : FlowDocument} (finite : doc.Every Expr.FiniteLiteral) :
    ofJson? doc.toJson = some doc := by
  have definitions : Definition.listOfJson? (.arr (doc.definitions.map Definition.toJson)) =
      some doc.definitions :=
    Json.all?_arr fun d member => Definition.ofJson?_toJson (finite.definition d member)
  have blocks : (doc.blocks.map Block.toJson).mapM Block.ofJson? = some doc.blocks :=
    Json.all?_arr fun block member => Block.ofJson?_toJson (finite.block block member)
  simp [ofJson?, toJson, definitions, blocks]

theorem every_of_ofJson? {tree : Json} {doc : FlowDocument} (decoded : ofJson? tree = some doc) :
    doc.Every Expr.FiniteLiteral := by
  simp only [ofJson?, Option.bind_eq_bind, Option.pure_def, Option.bind_eq_some_iff,
    Option.some.injEq] at decoded
  obtain ⟨_, -, _, -, _, definitions, _, -, _, -, _, blocks, _, -, rfl⟩ := decoded
  refine ⟨fun d member => ?_, fun block member => ?_⟩
  · obtain ⟨_, -, here⟩ := Json.Members.has_of_getOr? definitions d member
    exact Definition.every_of_ofJson? here
  · obtain ⟨_, -, here⟩ := Json.mem_of_mapM blocks block member
    exact Block.every_of_ofJson? here

end FlowDocument

/-- Documents survive being written and read. -/
theorem documents_roundTrip :
    (∀ doc : Document, doc.Every Expr.FiniteLiteral → Document.ofJson? doc.toJson = some doc) ∧
    (∀ doc : FlowDocument, doc.Every Expr.FiniteLiteral →
      FlowDocument.ofJson? doc.toJson = some doc) ∧
    (∀ tree doc, Document.ofJson? tree = some doc → Document.ofJson? doc.toJson = some doc) ∧
    ∀ tree doc, FlowDocument.ofJson? tree = some doc →
      FlowDocument.ofJson? doc.toJson = some doc :=
  ⟨fun _ finite => Document.ofJson?_toJson finite,
    fun _ finite => FlowDocument.ofJson?_toJson finite,
    fun _ _ decoded => Document.ofJson?_toJson (Document.every_of_ofJson? decoded),
    fun _ _ decoded => FlowDocument.ofJson?_toJson (FlowDocument.every_of_ofJson? decoded)⟩

def threeHalves : Literal := .float ⟨0x3FF8000000000000⟩

def countedLoop : Document where
  version := "1.0.0"
  layer := some .eir
  definitions := [⟨"math", "next", ["x"],
    .inline (.call (some "core") "add" [.id "x", .inline (.lit threeHalves)]), some .float⟩]
  nodes := [
    ⟨"start", .list (.fn [.int] .void) [.id "y", .inline (.lit (.set .float [threeHalves]))]⟩,
    ⟨"knot", .fix (.inline (.lambda ["f"] (.inline (.apply (.id "f") [.id "start"]))))⟩]
  result := .inline (.seq [.inline (.declare "i" (.inline (.input "n"))),
    .inline (.whileDo (.inline (.call none "lt" [.id "i", .inline (.ref "start")]))
      (.inline (.assign "i" (.inline (.airRef "math" "next" [.id "i"])))))])

def timed : Document := ⟨"", none, [], [⟨"n", .call none "now" []⟩], .id "n"⟩

def nowTree : Json := .obj [("name", .str "now"), ("kind", .str "call")]

def timedTree : Json :=
  .obj [("result", .str "n"), ("layer", .null), ("author", .str "n"),
    ("nodes", .arr [.obj [("expr", nowTree), ("id", .str "n")]])]

def handOver : FlowDocument where
  version := "1.0.0"
  entry := "main"
  definitions := []
  blocks := [⟨"main", [.assign "x" (.inline (.lit threeHalves)), .op "y" none "neg" ["x"],
      .effect none "print" ["y"]], .fork "task" "wait" "f"⟩, ⟨"task", [], .ret (some "y")⟩,
    ⟨"wait", [.call "z" "y" []], .join "f" none "task"⟩]

def stop : FlowDocument := ⟨"", "b", [], [⟨"b", [], .ret none⟩]⟩

def stopTree : Json :=
  .obj [("entry", .str "b"), ("blocks", .arr [.obj [("id", .str "b"),
    ("terminator", .obj [("value", .null), ("kind", .str "return")])]])]

theorem documents_roundTrip_examples :
    (countedLoop.Every Expr.FiniteLiteral ∧
      Document.ofJson? countedLoop.toJson = some countedLoop) ∧
    (handOver.Every Expr.FiniteLiteral ∧
      FlowDocument.ofJson? handOver.toJson = some handOver) ∧
    (Document.ofJson? timedTree = some timed ∧ Document.ofJson? timed.toJson = some timed) ∧
    FlowDocument.ofJson? stopTree = some stop ∧ FlowDocument.ofJson? stop.toJson = some stop := by
  have finite : threeHalves.Finite := .float (by decide)
  have among : (Literal.set .float [threeHalves]).Finite :=
    .set (List.forall_mem_singleton.mpr finite)
  have counted : countedLoop.Every Expr.FiniteLiteral := by
    constructor <;> simp [countedLoop, Expr.every_iff, List.Forall, Expr.FiniteLiteral, finite,
      among]
  have handed : handOver.Every Expr.FiniteLiteral := by
    constructor <;> simp [handOver, Expr.every_iff, List.Forall, Expr.FiniteLiteral, finite,
      Block.Every, Instruction.Every]
  have form : Expr.ofJson? nowTree = some (.call none "now" []) := (Expr.decode?_eq ..).trans rfl
  have result : Arg.ofJson? (.str "n") = some (.id "n") := by rw [Arg.ofJson?]
  have once : Document.ofJson? timedTree = some timed := by
    simp [timedTree, timed, Document.ofJson?, Node.ofJson?, form, result]
  have stopped : FlowDocument.ofJson? stopTree = some stop := rfl
  exact ⟨⟨counted, documents_roundTrip.1 _ counted⟩, ⟨handed, documents_roundTrip.2.1 _ handed⟩,
    ⟨once, documents_roundTrip.2.2.1 _ _ once⟩, stopped, documents_roundTrip.2.2.2 _ _ stopped⟩

end LayeredIR
