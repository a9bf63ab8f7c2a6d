import OverrideElision.Syntax.Documented
import OverrideElision.Syntax.Grouping
import OverrideElision.Tree.Program

/-! # From syntax trees to program trees

Every syntax tree has a program tree, however damaged it is: a node that lacks what its kind
promises is kept as text. Code that is kept as text is still searched for assignments. -/

namespace OverrideElision.Syntax

/-- A parameter by naming convention and documentation: `opt_` and an optional type make it
optional, `var_args` and a `...` type make it take the remaining arguments. -/
def conventionalParam (info : Doc.Info) (name : String) : Param :=
  let byName : Param :=
    if "opt_".toList.isPrefixOf name.toList then { name, kind := .optional, declared := true }
    else if name = "var_args" then { name, kind := .rest, declared := true }
    else { name }
  match info.param? name with
  | none => byName
  | some documented =>
    { byName with
      declared := true
      kind := if documented.isRest then .rest
        else if documented.isOptional then .optional
        else byName.kind }

/-- The parameter that a node of a parameter list is. A pattern keeps its text as its name, which no
name that is passed on can equal. -/
def Node.param (source : ByteArray) (info : Doc.Info) (n : Node) : Param :=
  match n.kind with
  | .identifier => conventionalParam info (n.text source)
  | .assignmentPattern =>
    { name := ((n.field? .left).getD n).text source, kind := .optional, declared := true }
  | .restPattern =>
    let target := match n.parts with
      | [inner] => inner
      | _ => n
    { name := target.text source, kind := .rest, spread := true, declared := true }
  | _ => { name := n.text source }

/-- The node is a link of an optional chain. -/
def Node.isOptionalChain (n : Node) : Bool :=
  n.children.any (·.kind = .optionalChain)

/-- The function, its arguments and nothing optional between them. -/
def Node.plainCall? (n : Node) : Option (Node × Node) :=
  if n.kind = .callExpression ∧ !n.isOptionalChain then
    match n.field? .function, n.field? .arguments with
    | some callee, some args => if args.kind = .arguments then some (callee, args) else none
    | _, _ => none
  else none

/-- The object and the name of a property read that is neither computed, private nor optional. -/
def Node.plainMember? (n : Node) : Option (Node × Node) :=
  if n.kind = .memberExpression ∧ !n.isOptionalChain then
    match n.field? .object, n.field? .property with
    | some object, some property =>
      if property.kind = .propertyIdentifier then some (object, property) else none
    | _, _ => none
  else none

/-- The two sides of an assignment. -/
def Node.assignmentSides? (n : Node) : Option (Node × Node) :=
  if n.kind = .assignmentExpression then
    match n.field? .left, n.field? .right with
    | some left, some right => some (left, right)
    | _, _ => none
  else none

/-- A function literal that is not asynchronous. -/
def Node.isPlainFunction (n : Node) : Bool :=
  n.kind.isFunctionLiteral && !n.children.any (·.kind = .asyncWord)

/-- The name, the initial value and the keyword of a declaration of a single variable. -/
def Node.singleDeclaration? (n : Node) : Option (Node × Option Node × Node) :=
  if n.kind = .variableDeclaration ∨ n.kind = .lexicalDeclaration then
    match n.namedChildren.filter (·.kind = .variableDeclarator), n.children with
    | [declarator], keyword :: _ =>
      match declarator.field? .name with
      | some name =>
        if name.kind = .identifier then some (name, declarator.field? .value, keyword) else none
      | none => none
    | _, _ => none
  else none

theorem Node.size_lt_of_plainCall? {n callee args : Node} (h : n.plainCall? = some (callee, args)) :
    callee.size < n.size ∧ args.size < n.size := by
  unfold plainCall? at h
  split at h
  · split at h
    · split at h
      · simp only [Option.some.injEq, Prod.mk.injEq] at h
        obtain ⟨rfl, rfl⟩ := h
        exact ⟨size_lt_of_mem (mem_children_of_field? ‹_›),
          size_lt_of_mem (mem_children_of_field? ‹_›)⟩
      · exact absurd h nofun
    · exact absurd h nofun
  · exact absurd h nofun

theorem Node.size_lt_of_plainMember? {n object property : Node}
    (h : n.plainMember? = some (object, property)) : object.size < n.size := by
  unfold plainMember? at h
  split at h
  · split at h
    · split at h
      · simp only [Option.some.injEq, Prod.mk.injEq] at h
        obtain ⟨rfl, rfl⟩ := h
        exact size_lt_of_mem (mem_children_of_field? ‹_›)
      · exact absurd h nofun
    · exact absurd h nofun
  · exact absurd h nofun

theorem Node.size_lt_of_assignmentSides? {n left right : Node}
    (h : n.assignmentSides? = some (left, right)) : left.size < n.size ∧ right.size < n.size := by
  unfold assignmentSides? at h
  split at h
  · split at h
    · simp only [Option.some.injEq, Prod.mk.injEq] at h
      obtain ⟨rfl, rfl⟩ := h
      exact ⟨size_lt_of_mem (mem_children_of_field? ‹_›),
        size_lt_of_mem (mem_children_of_field? ‹_›)⟩
    · exact absurd h nofun
  · exact absurd h nofun

theorem Node.size_lt_of_singleDeclaration? {n name value keyword : Node}
    (h : n.singleDeclaration? = some (name, some value, keyword)) : value.size < n.size := by
  unfold singleDeclaration? at h
  split at h
  · split at h
    · rename_i declarator _ _ hd _
      split at h
      · split at h
        · simp only [Option.some.injEq, Prod.mk.injEq] at h
          obtain ⟨rfl, hv, rfl⟩ := h
          have hmem : declarator ∈ n.children :=
            (List.mem_filter.mp (List.mem_filter.mp (hd ▸ List.mem_cons_self)).1).1
          exact Nat.lt_trans (size_lt_of_mem (mem_children_of_field? hv)) (size_lt_of_mem hmem)
        · exact absurd h nofun
      · exact absurd h nofun
    · exact absurd h nofun
  · exact absurd h nofun

mutual

/-- The expression that a node is, parentheses apart. The documentation is that of the statement
around it; it tells the kinds of the parameters of a function literal that the statement assigns or
declares. -/
def readExpr (source : ByteArray) (info : Doc.Info) (n : Node) : Documented Expr :=
  have := n.size_unwrapped_le
  readBare source info n.unwrapped
termination_by 8 * n.size + 3

/-- The expression that a node without parentheses around it is. -/
def readBare (source : ByteArray) (info : Doc.Info) (n : Node) : Documented Expr :=
  if n.kind = .identifier then return .name (n.text source)
  else if n.kind = .this then return .this
  else match hm : n.plainMember? with
    | some (object, property) => do
      have := Node.size_lt_of_plainMember? hm
      return .member (← readExpr source {} object) (property.text source)
    | none => match hc : n.plainCall? with
      | some (callee, args) => do
        have := Node.size_lt_of_plainCall? hc
        have := args.sizeAll_parts_lt
        let callee ← readExpr source {} callee
        return .call callee (← readArguments source args.parts)
      | none => match ha : n.assignmentSides? with
        | some (left, right) => do
          have := Node.size_lt_of_assignmentSides? ha
          let target ← readExpr source {} left
          return .assign ⟨n.id, target, ← readExpr source info right⟩
        | none =>
          if n.isPlainFunction then return .function (← readFunction source info n)
          else do
            have := n.size_eq
            return .other (n.text source) (← readNested source n.children)
termination_by 8 * n.size + 2

/-- The arguments of a call. -/
def readArguments (source : ByteArray) : List Node → Documented (List Expr)
  | [] => return []
  | n :: rest => do
    have := n.sizeAll_cons rest
    have := n.size_pos
    let arg ←
      if n.kind = .spreadElement then
        match h : n.parts with
        | [inner] => do
          have := Node.size_lt_of_mem (Node.mem_children_of_mem_parts (n := n) (m := inner)
            (h ▸ List.mem_cons_self))
          pure (Expr.spread (← readExpr source {} inner))
        | _ => do
          have := n.size_eq
          pure (Expr.other (n.text source) (← readNested source n.children))
      else readExpr source {} n
    return arg :: (← readArguments source rest)
termination_by nodes => 8 * Node.sizeAll nodes + 4

/-- The assignments in nodes that are kept as text, outermost ones only: what is below an assignment
is part of it. -/
def readNested (source : ByteArray) : List Node → Documented (List Assignment)
  | [] => return []
  | n :: rest => do
    have := n.sizeAll_cons rest
    have := n.size_pos
    have := n.size_eq
    let found ←
      if n.kind = .assignmentExpression then do
        match ← readExpr source {} n with
        | .assign a => pure [a]
        | .other _ assignments => pure assignments
        | _ => pure []
      else readNested source n.children
    return found ++ (← readNested source rest)
termination_by nodes => 8 * Node.sizeAll nodes + 4

/-- The function literal that a node is. -/
def readFunction (source : ByteArray) (info : Doc.Info) (n : Node) : Documented FunctionLiteral :=
  let params := match n.field? .parameters with
    | some list => list.parts.map (Node.param source info)
    | none => []
  let name := (n.field? .name).map (Node.text source)
  match h : n.field? .body with
  | some body => do
    have := Group.sizeAll_ofNodes_le source body.children
    have := body.size_eq
    have := Node.size_lt_of_mem (Node.mem_children_of_field? h)
    let statements ← readGroups source (Group.ofNodes source body.children)
    return ⟨params, statements, name, Node.anyReturns body.children⟩
  | none => return ⟨params, [], name, false⟩
termination_by 8 * n.size + 1

/-- What the statement at a node does. -/
def readForm (source : ByteArray) (info : Doc.Info) (n : Node) : Documented Form :=
  have := n.size_eq
  if n.kind = .expressionStatement then
    match h : n.parts with
    | [e] => do
      have := Node.size_lt_of_mem (Node.mem_children_of_mem_parts (n := n) (m := e)
        (h ▸ List.mem_cons_self))
      return .expr (← readExpr source info e)
    | _ => return .other (← readNested source n.children)
  else if n.kind = .returnStatement then
    match h : n.parts with
    | [] => return .ret none
    | [e] => do
      have := Node.size_lt_of_mem (Node.mem_children_of_mem_parts (n := n) (m := e)
        (h ▸ List.mem_cons_self))
      return .ret (some (← readExpr source info e))
    | _ => return .other (← readNested source n.children)
  else match h : n.singleDeclaration? with
    | some (name, some value, keyword) => do
      have := Node.size_lt_of_singleDeclaration? h
      return .decl (keyword.text source) (name.text source) (some (← readExpr source info value))
    | some (name, none, keyword) => return .decl (keyword.text source) (name.text source) none
    | none => return .other (← readNested source n.children)
termination_by 8 * n.size + 5

/-- The statements that groups are. Code with comments before it is documented by them. -/
def readGroups (source : ByteArray) : List Group → Documented (List Statement)
  | [] => return []
  | group :: rest => do
    have : Group.sizeAll (group :: rest) = Node.sizeAll group.nodes + Group.sizeAll rest := rfl
    have := group.sizeAll_nodes_pos
    let form ← match _h : group with
      | .remarks _ _ => pure (Form.other [])
      | .code comments n => do
        have : n.size ≤ Node.sizeAll (Group.nodes (.code comments n)) :=
          Node.size_le_sizeAll (List.mem_append_right _ (List.mem_singleton.mpr rfl))
        let info := group.info source
        let form ← readForm source info n
        if !comments.isEmpty then Documented.note n.id info
        pure form
    return ⟨group.id, group.text source, form⟩ :: (← readGroups source rest)
termination_by groups => 8 * Group.sizeAll groups + 6

end

/-- The statements among the children of a block. -/
def readStatements (source : ByteArray) (nodes : List Node) : Documented (List Statement) :=
  readGroups source (Group.ofNodes source nodes)

/-- A source and its syntax tree. -/
structure SourceTree where
  name : String
  text : String
  root : Node

/-- The number of nodes of several sources. -/
def SourceTree.sizeAll (sources : List SourceTree) : Nat :=
  Node.sizeAll (sources.map SourceTree.root)

/-- The scripts of sources and the documentation in them. Script identities count from
`nextScript`, node identities from `nextNode`. -/
def readScripts (nextScript nextNode : Nat) : List SourceTree → Documented (List Script)
  | [] => return []
  | source :: rest => do
    let statements ←
      readStatements source.text.toUTF8 (source.root.numbered nextNode).children
    return ⟨nextScript, source.name, statements⟩ ::
      (← readScripts (nextScript + 1) (nextNode + source.root.size) rest)

end Syntax

/-- The program that sources make up, one script for each. Its statements and assignments have
identities from `first` on, fewer than the sources have nodes. -/
def Program.ofSources (first : Nat) (sources : List Syntax.SourceTree) : Program :=
  let scripts := Syntax.readScripts 0 first sources
  ⟨scripts.value, Table.ofList scripts.docs⟩

end OverrideElision
