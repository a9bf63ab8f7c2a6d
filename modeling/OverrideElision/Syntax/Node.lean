/-! # Syntax trees

The tree that a reader of JavaScript makes of a source: nodes with a kind, a byte span, and the
children between which the source's tokens and comments are shared out. Nothing is assumed about a
tree; children may be missing, doubled, or of any kind. -/

namespace OverrideElision.Syntax

/-- What a node is. Kinds that nothing depends on are known by their names only. -/
inductive Kind where
  | comment
  | expressionStatement
  | returnStatement
  | variableDeclaration
  | lexicalDeclaration
  | variableDeclarator
  | statementBlock
  | identifier
  | this
  | memberExpression
  | propertyIdentifier
  | callExpression
  | arguments
  | spreadElement
  | assignmentExpression
  | parenthesizedExpression
  | optionalChain
  | functionExpression
  | functionWord
  | asyncWord
  | formalParameters
  | assignmentPattern
  | restPattern
  | functionDeclaration
  | generatorFunction
  | generatorFunctionDeclaration
  | arrowFunction
  | methodDefinition
  | classExpression
  | classDeclaration
  | other (name : String)
deriving DecidableEq, Repr

namespace Kind

/-- The kinds that have a name of their own here, with the name that a grammar gives them. -/
def names : List (String × Kind) := [
  ("comment", .comment),
  ("expression_statement", .expressionStatement),
  ("return_statement", .returnStatement),
  ("variable_declaration", .variableDeclaration),
  ("lexical_declaration", .lexicalDeclaration),
  ("variable_declarator", .variableDeclarator),
  ("statement_block", .statementBlock),
  ("identifier", .identifier),
  ("this", .this),
  ("member_expression", .memberExpression),
  ("property_identifier", .propertyIdentifier),
  ("call_expression", .callExpression),
  ("arguments", .arguments),
  ("spread_element", .spreadElement),
  ("assignment_expression", .assignmentExpression),
  ("parenthesized_expression", .parenthesizedExpression),
  ("optional_chain", .optionalChain),
  ("function_expression", .functionExpression),
  ("function", .functionWord),
  ("async", .asyncWord),
  ("formal_parameters", .formalParameters),
  ("assignment_pattern", .assignmentPattern),
  ("rest_pattern", .restPattern),
  ("function_declaration", .functionDeclaration),
  ("generator_function", .generatorFunction),
  ("generator_function_declaration", .generatorFunctionDeclaration),
  ("arrow_function", .arrowFunction),
  ("method_definition", .methodDefinition),
  ("class", .classExpression),
  ("class_declaration", .classDeclaration)]

/-- The kind with this name. -/
def ofName (name : String) : Kind :=
  (names.lookup name).getD (.other name)

/-- Functions and classes: a `return` inside belongs to them and not to a function around them. -/
def opensReturnScope : Kind → Bool
  | .functionExpression | .functionWord | .functionDeclaration | .generatorFunction
  | .generatorFunctionDeclaration | .arrowFunction | .methodDefinition | .classExpression
  | .classDeclaration => true
  | _ => false

/-- A function literal that is read as such, and not kept as text. -/
def isFunctionLiteral : Kind → Bool
  | .functionExpression | .functionWord => true
  | _ => false

end Kind

/-- The part that a child plays in its parent. -/
inductive Field where
  | name
  | value
  | object
  | property
  | function
  | arguments
  | left
  | right
  | parameters
  | body
  | other (name : String)
deriving DecidableEq, Repr

/-- The field with this name. -/
def Field.ofName (name : String) : Field :=
  ([("name", .name), ("value", .value), ("object", .object), ("property", .property),
    ("function", .function), ("arguments", .arguments), ("left", .left), ("right", .right),
    ("parameters", .parameters), ("body", .body)].lookup name).getD (.other name)

/-- A node of a syntax tree: its kind, whether it is more than a token, its field in its parent, the
bytes of the source from `start` up to `stop`, and an identity. -/
structure Node where
  kind : Kind
  named : Bool
  field : Option Field
  start : Nat
  stop : Nat
  id : Nat
  children : List Node

instance : Inhabited Node := ⟨⟨.other "", false, none, 0, 0, 0, []⟩⟩

mutual

/-- The number of nodes of a tree. -/
def Node.size : Node → Nat
  | ⟨_, _, _, _, _, _, children⟩ => Node.sizeAll children + 1

/-- The number of nodes of several trees. -/
def Node.sizeAll : List Node → Nat
  | [] => 0
  | n :: ns => n.size + Node.sizeAll ns

end

mutual

/-- The tree with its nodes numbered from `next` on, a node before its children. -/
def Node.numbered (next : Nat) : Node → Node
  | ⟨kind, named, field, start, stop, _, children⟩ =>
    ⟨kind, named, field, start, stop, next, Node.numberedAll (next + 1) children⟩

/-- The trees with their nodes numbered from `next` on, one tree after the other. -/
def Node.numberedAll (next : Nat) : List Node → List Node
  | [] => []
  | n :: ns => n.numbered next :: Node.numberedAll (next + n.size) ns

end

namespace Node

/-- The children that are more than tokens. -/
def namedChildren (n : Node) : List Node :=
  n.children.filter (·.named)

/-- The children that are more than tokens, comments apart. -/
def parts (n : Node) : List Node :=
  n.namedChildren.filter (·.kind ≠ .comment)

/-- The first child in a field. -/
def field? (n : Node) (field : Field) : Option Node :=
  n.children.find? (·.field = some field)

theorem size_eq (n : Node) : n.size = sizeAll n.children + 1 := by
  cases n
  rw [Node.size]

theorem size_pos (n : Node) : 0 < n.size := by
  rw [size_eq]
  exact Nat.succ_pos _

theorem sizeAll_cons (n : Node) (ns : List Node) : sizeAll (n :: ns) = n.size + sizeAll ns := rfl

theorem size_le_sizeAll {n : Node} {ns : List Node} (h : n ∈ ns) : n.size ≤ sizeAll ns := by
  induction ns with
  | nil => exact absurd h List.not_mem_nil
  | cons m ns ih =>
    rw [sizeAll_cons]
    rcases List.mem_cons.mp h with rfl | h
    · omega
    · have := ih h
      omega

theorem size_lt_of_mem {n m : Node} (h : m ∈ n.children) : m.size < n.size := by
  rw [size_eq n]
  exact Nat.lt_succ_of_le (size_le_sizeAll h)

theorem sizeAll_filter_le (p : Node → Bool) (ns : List Node) :
    sizeAll (ns.filter p) ≤ sizeAll ns := by
  induction ns with
  | nil => exact Nat.le_refl _
  | cons n ns ih =>
    rw [List.filter_cons, sizeAll_cons]
    split
    · rw [sizeAll_cons]
      omega
    · omega

theorem mem_children_of_mem_parts {n m : Node} (h : m ∈ n.parts) : m ∈ n.children :=
  (List.mem_filter.mp (List.mem_filter.mp h).1).1

theorem mem_children_of_field? {n m : Node} {field : Field} (h : n.field? field = some m) :
    m ∈ n.children :=
  List.mem_of_find?_eq_some h

theorem sizeAll_parts_lt (n : Node) : sizeAll n.parts < n.size := by
  have h1 := sizeAll_filter_le (·.kind ≠ .comment) n.namedChildren
  have h2 := sizeAll_filter_le (·.named) n.children
  have h3 := size_eq n
  simp only [parts, namedChildren] at *
  omega

/-- The expression inside parentheses, as long as they hold one expression and nothing else but
comments. -/
def unwrapped (n : Node) : Node :=
  if n.kind = .parenthesizedExpression then
    match h : n.parts with
    | [inner] =>
      have : inner.size < n.size :=
        size_lt_of_mem (mem_children_of_mem_parts (h ▸ List.mem_cons_self))
      inner.unwrapped
    | _ => n
  else n
termination_by n.size

theorem size_unwrapped_le (n : Node) : n.unwrapped.size ≤ n.size := by
  fun_induction unwrapped n with
  | case1 n _ inner h hlt ih => exact Nat.le_trans ih (Nat.le_of_lt hlt)
  | case2 => exact Nat.le_refl _
  | case3 => exact Nat.le_refl _

end Node

mutual

/-- Whether a `return` with a value stands in the node, outside functions and classes in it. -/
def Node.returns : Node → Bool
  | ⟨kind, _, _, _, _, _, children⟩ =>
    if kind.opensReturnScope then false
    else if kind = .returnStatement then
      children.any fun child => child.named && decide (child.kind ≠ .comment)
    else Node.anyReturns children

/-- Whether a `return` with a value stands in one of the nodes. -/
def Node.anyReturns : List Node → Bool
  | [] => false
  | n :: ns => n.returns || Node.anyReturns ns

end

theorem Node.anyReturns_eq_any (ns : List Node) : Node.anyReturns ns = ns.any Node.returns := by
  induction ns with
  | nil => rfl
  | cons n ns ih => simp [Node.anyReturns, ih]

end OverrideElision.Syntax
