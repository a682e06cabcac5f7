import Craftlang.Tree.Basic

/-!
# What the parser makes

Items, statements, blocks and expressions as nodes of one type. The parser keeps what it makes in the
order in which it is made, and a node is made after the nodes right below it, its parts.
-/

namespace Craftlang

/-- A node that was made. -/
inductive Made where
  | item (i : Item)
  | stmt (s : Stmt)
  | block (b : Block)
  | expr (e : Expr)

/-- What the parser makes nodes of. -/
class IsNode (α : Type) where
  made : α → Made

instance : IsNode Item := ⟨.item⟩

instance : IsNode Stmt := ⟨.stmt⟩

instance : IsNode Block := ⟨.block⟩

instance : IsNode Expr := ⟨.expr⟩

/-- Nodes are items, statements or expressions; a block is a statement. -/
inductive NodeSort where
  | item | stmt | expr
deriving DecidableEq, Repr

/-- The nodes right below what stands after `else`. -/
def Otherwise.parts : Otherwise → List Made
  | .none => []
  | .block body => [.block body]
  | .chain s => [.stmt s]

/-- The node of an expression that may be missing. -/
def Expr.part? (e : Option Expr) : List Made := e.toList.map .expr

namespace Made

def node : Made → Node
  | item i => i.node
  | stmt s => s.node
  | block b => b.node
  | expr e => e.node

def number (m : Made) : Nat := m.node.id

def sort : Made → NodeSort
  | item _ => .item
  | stmt _ | block _ => .stmt
  | expr _ => .expr

/-- The nodes right below a node. -/
def parts : Made → List Made
  | item (.function f) => [block f.body]
  | item (.stmt _ s) => [stmt s]
  | item (.error _) | item (.typeAlias _) => []
  | stmt (.var _ _ _ value) => Expr.part? value
  | stmt (.expr _ e) => [expr e]
  | stmt (.branch _ cond body otherwise) => expr cond :: block body :: otherwise.parts
  | stmt (.loop _ _ cond body) => [expr cond, block body]
  | stmt (.give _ value) => Expr.part? value
  | stmt (.error _) | stmt (.leave _) | stmt (.again _) | stmt (.command ..) => []
  | block b => b.stmts.map stmt
  | expr (.binary _ _ _ left right) => [expr left, expr right]
  | expr (.unary _ _ operand) => [expr operand]
  | expr (.call _ target args) => expr target :: args.map expr
  | expr (.group _ inner) => [expr inner]
  | expr (.assign _ _ _ target value) => [expr (.ident target), expr value]
  | expr (.error _) | expr (.constant ..) | expr (.ident _) => []

end Made

end Craftlang

/-!
## Arenas

The nodes of a source in tables. Items, statements and expressions are kept in an arena each, where a
node has a kind, a span and the place of its payload; the payloads are in arenas of their own, by kind.
Nodes refer to each other by ID: the place of a node in its arena, counted from one. Zero is no ID.

Nodes are only added, each at the end of its arena. What was made and turned out to be of no use stays,
and nothing refers to it.
-/

namespace Craftlang

/-- Values by the places in which they were put, the first of which is one. -/
structure Arena (α : Type) where
  data : Array α := #[]

namespace Arena

variable {α : Type}

def size (a : Arena α) : Nat := a.data.size

/-- Puts a value at the end, and tells its place. -/
def allocate (a : Arena α) (v : α) : Arena α × Nat := (⟨a.data.push v⟩, a.data.size + 1)

def get? (a : Arena α) : Nat → Option α
  | 0 => none
  | i + 1 => a.data[i]?

end Arena

abbrev ItemId := Nat
abbrev StmtId := Nat
abbrev ExprId := Nat

/-- The place of a payload; zero for a kind of node that has none. -/
abbrev PayloadId := Nat

/-- A node in its arena. -/
structure Entry (κ : Type) where
  kind : κ
  span : Span
  payload : PayloadId

/-- A node by its arena and its ID. -/
structure Ref where
  sort : NodeSort
  id : Nat
deriving DecidableEq, Repr

/-- The node that an ID leads to, if there is one. -/
def Ref.ofId? (sort : NodeSort) (id : Nat) : List Ref := if id = 0 then [] else [⟨sort, id⟩]

/-! ### Expressions -/

inductive ExprKind where
  | error | ident | literal | binary | unary | call | group | assign
deriving DecidableEq, Repr

structure BinaryData where
  op : BinaryOp
  opSpan : Span
  left : ExprId
  right : ExprId

structure UnaryData where
  op : UnaryOp
  operand : ExprId

structure CallData where
  target : ExprId
  args : List ExprId

structure AssignData where
  op : AssignOp
  opSpan : Span
  target : ExprId
  value : ExprId

/-- An expression with what its payload says. -/
inductive ExprData where
  | error
  | ident (name : Bytes)
  | literal (value : Constant)
  | binary (data : BinaryData)
  | unary (data : UnaryData)
  | call (data : CallData)
  | group (inner : ExprId)
  | assign (data : AssignData)

/-- The nodes that an expression refers to. -/
def ExprData.children : ExprData → List Ref
  | error | ident _ | literal _ => []
  | binary d => [⟨.expr, d.left⟩, ⟨.expr, d.right⟩]
  | unary d => [⟨.expr, d.operand⟩]
  | call d => ⟨.expr, d.target⟩ :: d.args.map (⟨.expr, ·⟩)
  | group inner => [⟨.expr, inner⟩]
  | assign d => [⟨.expr, d.target⟩, ⟨.expr, d.value⟩]

structure Exprs where
  nodes : Arena (Entry ExprKind) := {}
  idents : Arena Bytes := {}
  literals : Arena Constant := {}
  binaries : Arena BinaryData := {}
  unaries : Arena UnaryData := {}
  calls : Arena CallData := {}
  groups : Arena ExprId := {}
  assigns : Arena AssignData := {}

namespace Exprs

/-- Adds a node whose payload is in its place. -/
def add (e : Exprs) (kind : ExprKind) (span : Span) (payload : PayloadId) : Exprs × ExprId :=
  let (nodes, id) := e.nodes.allocate ⟨kind, span, payload⟩
  ({ e with nodes }, id)

/-- Adds an expression: its payload first, then its node. -/
def new (e : Exprs) (span : Span) : ExprData → Exprs × ExprId
  | .error => e.add .error span 0
  | .ident name =>
    let (idents, payload) := e.idents.allocate name
    { e with idents }.add .ident span payload
  | .literal value =>
    let (literals, payload) := e.literals.allocate value
    { e with literals }.add .literal span payload
  | .binary data =>
    let (binaries, payload) := e.binaries.allocate data
    { e with binaries }.add .binary span payload
  | .unary data =>
    let (unaries, payload) := e.unaries.allocate data
    { e with unaries }.add .unary span payload
  | .call data =>
    let (calls, payload) := e.calls.allocate data
    { e with calls }.add .call span payload
  | .group inner =>
    let (groups, payload) := e.groups.allocate inner
    { e with groups }.add .group span payload
  | .assign data =>
    let (assigns, payload) := e.assigns.allocate data
    { e with assigns }.add .assign span payload

/-- What the payload of a node says, looked up in the arena of its kind. -/
def payload? (e : Exprs) (entry : Entry ExprKind) : Option ExprData :=
  match entry.kind with
  | .error => some .error
  | .ident => (e.idents.get? entry.payload).map .ident
  | .literal => (e.literals.get? entry.payload).map .literal
  | .binary => (e.binaries.get? entry.payload).map .binary
  | .unary => (e.unaries.get? entry.payload).map .unary
  | .call => (e.calls.get? entry.payload).map .call
  | .group => (e.groups.get? entry.payload).map .group
  | .assign => (e.assigns.get? entry.payload).map .assign

/-- The expression of an ID. -/
def data? (e : Exprs) (id : ExprId) : Option ExprData := (e.nodes.get? id).bind e.payload?

/-- What stands inside the parentheses that an ID is for. -/
def group? (e : Exprs) (id : ExprId) : Option ExprId :=
  match e.data? id with
  | some (.group inner) => some inner
  | _ => none

/-- Skips parentheses from outside to inside, in a loop that is given up after some rounds. -/
def unwrapWithin (e : Exprs) : Nat → ExprId → Option ExprId
  | 0, _ => none
  | rounds + 1, id =>
    match e.group? id with
    | none => some id
    | some inner => e.unwrapWithin rounds inner

end Exprs

/-! ### Statements -/

inductive StmtKind where
  | error | block | var | expr | branch
  | loop (kind : LoopKind)
  | leave | again | give | command
deriving DecidableEq, Repr

structure VarData where
  name : Name
  type : Option Name
  value : ExprId

structure BranchData where
  cond : ExprId
  body : StmtId
  otherwise : StmtId

structure LoopData where
  cond : ExprId
  body : StmtId

/-- A statement with what its payload says. Both kinds of loop have their payload in one arena. -/
inductive StmtData where
  | error
  | block (stmts : List StmtId)
  | var (data : VarData)
  | expr (e : ExprId)
  | branch (data : BranchData)
  | loop (kind : LoopKind) (data : LoopData)
  | leave
  | again
  | give (value : ExprId)
  | command (text : Bytes)

/-- The nodes that a statement refers to. -/
def StmtData.children : StmtData → List Ref
  | error | leave | again | command _ => []
  | block stmts => stmts.map (⟨.stmt, ·⟩)
  | var d => Ref.ofId? .expr d.value
  | expr e => [⟨.expr, e⟩]
  | branch d => ⟨.expr, d.cond⟩ :: ⟨.stmt, d.body⟩ :: Ref.ofId? .stmt d.otherwise
  | loop _ d => [⟨.expr, d.cond⟩, ⟨.stmt, d.body⟩]
  | give value => Ref.ofId? .expr value

structure Stmts where
  nodes : Arena (Entry StmtKind) := {}
  blocks : Arena (List StmtId) := {}
  vars : Arena VarData := {}
  exprs : Arena ExprId := {}
  branches : Arena BranchData := {}
  loops : Arena LoopData := {}
  gives : Arena ExprId := {}
  commands : Arena Bytes := {}

namespace Stmts

/-- Adds a node whose payload is in its place. -/
def add (s : Stmts) (kind : StmtKind) (span : Span) (payload : PayloadId) : Stmts × StmtId :=
  let (nodes, id) := s.nodes.allocate ⟨kind, span, payload⟩
  ({ s with nodes }, id)

/-- Adds a statement: its payload first, then its node. -/
def new (s : Stmts) (span : Span) : StmtData → Stmts × StmtId
  | .error => s.add .error span 0
  | .leave => s.add .leave span 0
  | .again => s.add .again span 0
  | .block stmts =>
    let (blocks, payload) := s.blocks.allocate stmts
    { s with blocks }.add .block span payload
  | .var data =>
    let (vars, payload) := s.vars.allocate data
    { s with vars }.add .var span payload
  | .expr e =>
    let (exprs, payload) := s.exprs.allocate e
    { s with exprs }.add .expr span payload
  | .branch data =>
    let (branches, payload) := s.branches.allocate data
    { s with branches }.add .branch span payload
  | .loop kind data =>
    let (loops, payload) := s.loops.allocate data
    { s with loops }.add (.loop kind) span payload
  | .give value =>
    let (gives, payload) := s.gives.allocate value
    { s with gives }.add .give span payload
  | .command text =>
    let (commands, payload) := s.commands.allocate text
    { s with commands }.add .command span payload

/-- What the payload of a node says, looked up in the arena of its kind. -/
def payload? (s : Stmts) (entry : Entry StmtKind) : Option StmtData :=
  match entry.kind with
  | .error => some .error
  | .leave => some .leave
  | .again => some .again
  | .block => (s.blocks.get? entry.payload).map .block
  | .var => (s.vars.get? entry.payload).map .var
  | .expr => (s.exprs.get? entry.payload).map .expr
  | .branch => (s.branches.get? entry.payload).map .branch
  | .loop kind => (s.loops.get? entry.payload).map (.loop kind)
  | .give => (s.gives.get? entry.payload).map .give
  | .command => (s.commands.get? entry.payload).map .command

/-- The statement of an ID. -/
def data? (s : Stmts) (id : StmtId) : Option StmtData := (s.nodes.get? id).bind s.payload?

end Stmts

/-! ### Items -/

inductive ItemKind where
  | error | function | typeAlias | stmt
deriving DecidableEq, Repr

structure FunctionData where
  tags : List DottedName
  name : Name
  params : List Param
  result : Option Name
  body : StmtId

structure AliasData where
  name : Name
  target : Name

/-- An item with what its payload says. -/
inductive ItemData where
  | error
  | function (data : FunctionData)
  | typeAlias (data : AliasData)
  | stmt (s : StmtId)

/-- The nodes that an item refers to. -/
def ItemData.children : ItemData → List Ref
  | error | typeAlias _ => []
  | function d => [⟨.stmt, d.body⟩]
  | stmt s => [⟨.stmt, s⟩]

structure Items where
  nodes : Arena (Entry ItemKind) := {}
  functions : Arena FunctionData := {}
  aliases : Arena AliasData := {}
  stmts : Arena StmtId := {}

namespace Items

/-- Adds a node whose payload is in its place. -/
def add (i : Items) (kind : ItemKind) (span : Span) (payload : PayloadId) : Items × ItemId :=
  let (nodes, id) := i.nodes.allocate ⟨kind, span, payload⟩
  ({ i with nodes }, id)

/-- Adds an item: its payload first, then its node. -/
def new (i : Items) (span : Span) : ItemData → Items × ItemId
  | .error => i.add .error span 0
  | .function data =>
    let (functions, payload) := i.functions.allocate data
    { i with functions }.add .function span payload
  | .typeAlias data =>
    let (aliases, payload) := i.aliases.allocate data
    { i with aliases }.add .typeAlias span payload
  | .stmt s =>
    let (stmts, payload) := i.stmts.allocate s
    { i with stmts }.add .stmt span payload

/-- What the payload of a node says, looked up in the arena of its kind. -/
def payload? (i : Items) (entry : Entry ItemKind) : Option ItemData :=
  match entry.kind with
  | .error => some .error
  | .function => (i.functions.get? entry.payload).map .function
  | .typeAlias => (i.aliases.get? entry.payload).map .typeAlias
  | .stmt => (i.stmts.get? entry.payload).map .stmt

/-- The item of an ID. -/
def data? (i : Items) (id : ItemId) : Option ItemData := (i.nodes.get? id).bind i.payload?

end Items

/-! ### All of a source -/

/-- A node of any sort with what its payload says. -/
inductive NodeData where
  | item (data : ItemData)
  | stmt (data : StmtData)
  | expr (data : ExprData)

/-- The nodes that a node refers to. -/
def NodeData.children : NodeData → List Ref
  | item data => data.children
  | stmt data => data.children
  | expr data => data.children

/-- The arenas of a source, and by the numbers of nodes the IDs that they were given. -/
structure Builder where
  items : Items := {}
  stmts : Stmts := {}
  exprs : Exprs := {}
  given : Arena Nat := {}

namespace Builder

/-- How many nodes of a sort there are. -/
def count (b : Builder) : NodeSort → Nat
  | .item => b.items.nodes.size
  | .stmt => b.stmts.nodes.size
  | .expr => b.exprs.nodes.size

/-- The ID that a node was given. -/
def idOf (b : Builder) (n : Node) : Nat := (b.given.get? n.id).getD 0

/-- The ID of an expression, or none. -/
def idOf? (b : Builder) (e : Option Expr) : ExprId := (e.map fun e => b.idOf e.node).getD 0

/-- An expression as its payload says it, with IDs for the nodes below. -/
def exprData (b : Builder) : Expr → ExprData
  | .error _ => .error
  | .ident i => .ident i.name
  | .constant _ value => .literal value
  | .binary _ op opSpan left right => .binary ⟨op, opSpan, b.idOf left.node, b.idOf right.node⟩
  | .unary _ op operand => .unary ⟨op, b.idOf operand.node⟩
  | .call _ target args => .call ⟨b.idOf target.node, args.map fun e => b.idOf e.node⟩
  | .group _ inner => .group (b.idOf inner.node)
  | .assign _ op opSpan target value => .assign ⟨op, opSpan, b.idOf target.node, b.idOf value.node⟩

/-- What stands after `else`, by its ID, or none. -/
def otherwiseId (b : Builder) : Otherwise → StmtId
  | .none => 0
  | .block body => b.idOf body.node
  | .chain s => b.idOf s.node

/-- A statement as its payload says it, with IDs for the nodes below. -/
def stmtData (b : Builder) : Stmt → StmtData
  | .error _ => .error
  | .var _ name type value => .var ⟨name, type, b.idOf? value⟩
  | .expr _ e => .expr (b.idOf e.node)
  | .branch _ cond body otherwise =>
    .branch ⟨b.idOf cond.node, b.idOf body.node, b.otherwiseId otherwise⟩
  | .loop _ kind cond body => .loop kind ⟨b.idOf cond.node, b.idOf body.node⟩
  | .leave _ => .leave
  | .again _ => .again
  | .give _ value => .give (b.idOf? value)
  | .command _ text => .command text

/-- An item as its payload says it, with IDs for the nodes below. -/
def itemData (b : Builder) : Item → ItemData
  | .error _ => .error
  | .function f => .function ⟨f.tags, f.name, f.params, f.result, b.idOf f.body.node⟩
  | .typeAlias a => .typeAlias ⟨a.name, a.target⟩
  | .stmt _ s => .stmt (b.idOf s.node)

/-- A node as its payload says it. -/
def dataOf (b : Builder) : Made → NodeData
  | .item i => .item (b.itemData i)
  | .stmt s => .stmt (b.stmtData s)
  | .block body => .stmt (.block (body.stmts.map fun s => b.idOf s.node))
  | .expr e => .expr (b.exprData e)

/-- Adds a node of any sort, and tells its ID. -/
def new (b : Builder) (span : Span) : NodeData → Builder × Nat
  | .item data =>
    let (items, id) := b.items.new span data
    ({ b with items }, id)
  | .stmt data =>
    let (stmts, id) := b.stmts.new span data
    ({ b with stmts }, id)
  | .expr data =>
    let (exprs, id) := b.exprs.new span data
    ({ b with exprs }, id)

/-- Adds what was made. -/
def add (b : Builder) (m : Made) : Builder :=
  let (added, id) := b.new m.node.span (b.dataOf m)
  { added with given := (added.given.allocate id).1 }

/-- The arenas after all that was made is added in its order; the list has the newest first. -/
def of : List Made → Builder
  | [] => {}
  | m :: earlier => (of earlier).add m

/-- The node of a reference: it is there, and so is its payload in the arena of its kind. -/
def data? (b : Builder) (r : Ref) : Option NodeData :=
  match r.sort with
  | .item => (b.items.data? r.id).map .item
  | .stmt => (b.stmts.data? r.id).map .stmt
  | .expr => (b.exprs.data? r.id).map .expr

/-- The nodes that a node refers to. -/
def children (b : Builder) (r : Ref) : List Ref := ((b.data? r).map NodeData.children).getD []

end Builder

/-- A parsed source in arenas, with the IDs of its items. -/
structure FileArenas where
  builder : Builder
  items : List ItemId

def Builder.file (b : Builder) (items : List Item) : FileArenas := ⟨b, items.map fun i => b.idOf i.node⟩

end Craftlang
