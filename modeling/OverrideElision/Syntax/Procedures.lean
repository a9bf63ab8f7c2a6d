import OverrideElision.Syntax.Steps

/-! # Reading by procedures

The readers as procedures that call one another. Each has its own loops and its own tests of what it
is going to ask for; nothing is known about the trees. A run has a limit on the calls that are open
at the same time. -/

namespace OverrideElision.Syntax

theorem Node.sizeAll_reverse (nodes : List Node) : sizeAll nodes.reverse = sizeAll nodes := by
  induction nodes with
  | nil => rfl
  | cons n nodes ih =>
    rw [List.reverse_cons, Group.sizeAll_nodes_append, ih, sizeAll_cons, sizeAll_cons, sizeAll]
    omega

theorem Node.sizeAll_lt_cons (n : Node) (stack : List Node) :
    sizeAll stack < sizeAll (n :: stack) := by
  rw [sizeAll_cons]
  exact Nat.lt_add_of_pos_left n.size_pos

/-- The children of a node are less than the node. -/
theorem Node.sizeAll_children_lt (n : Node) (stack : List Node) :
    sizeAll (n.children ++ stack) < sizeAll (n :: stack) := by
  rw [Group.sizeAll_nodes_append, sizeAll_cons, n.size_eq]
  exact Nat.add_lt_add_right (Nat.lt_succ_self _) _

/-- Whether a search finds a `return` with a value when the nodes of a stack are still to be looked
at, the first one next. It does not go into functions and classes. -/
def Node.returnsFrom : List Node → Bool
  | [] => false
  | n :: stack =>
    if n.kind.opensReturnScope then returnsFrom stack
    else if n.kind = .returnStatement then
      n.namedChildren.any (·.kind ≠ .comment) || returnsFrom stack
    else returnsFrom (n.children.reverse ++ stack)
termination_by stack => sizeAll stack
decreasing_by
  · exact n.sizeAll_lt_cons stack
  · exact n.sizeAll_lt_cons stack
  · rw [List.unattach_reverse, List.unattach_attach, Group.sizeAll_nodes_append, sizeAll_reverse,
      ← Group.sizeAll_nodes_append]
    exact n.sizeAll_children_lt stack

namespace Procedure

open Steps

variable (source : ByteArray)

/-! ## Statements -/

/-- The statements that nodes are, after the comments `pending` in front of them. -/
def statementsAfter (pending : List Node) : List Node → Steps (List Statement)
  | [] =>
    if pending.isEmpty then return []
    else do
      let first ← first pending
      let last ← last pending
      return [⟨first.id, first.textThrough source last, .other []⟩]
  | n :: rest =>
    if n.kind = .comment then
      let pending := pending ++ [n]
      if Doc.isFileLevel (n.text source) then do
        let first ← first pending
        let header : Statement := ⟨first.id, first.textThrough source n, .other []⟩
        return header :: (← statementsAfter [] rest)
      else statementsAfter pending rest
    else if !n.named then statementsAfter pending rest
    else do
      let info := Doc.Info.ofComments (pending.map (Node.text source))
      let first ← if pending.isEmpty then pure n else first pending
      let form ← callStatement n info
      unless pending.isEmpty do note n.id info (pure ())
      return ⟨n.id, first.textThrough source n, form⟩ :: (← statementsAfter [] rest)

/-- What the statement at a node does. -/
def statement (n : Node) (info : Doc.Info) : Steps Form := do
  if n.kind = .expressionStatement then
    if n.parts.length = 1 then
      return .expr (← callExpression (← only n.parts) info)
  else if n.kind = .returnStatement then
    if n.parts.isEmpty then
      return .ret none
    if n.parts.length = 1 then
      return .ret (some (← callExpression (← only n.parts) info))
  else if n.kind = .variableDeclaration ∨ n.kind = .lexicalDeclaration then
    let declarators := n.namedChildren.filter (·.kind = .variableDeclarator)
    if declarators.length = 1 then
      let name := (← only declarators).field? .name
      let value := (← only declarators).field? .value
      if name.isSome then
        if (← present name).kind = .identifier then
          let value ← if value.isSome then do
              pure (some (← callExpression (← present value) info))
            else pure none
          return .decl ((← first n.children).text source) ((← present name).text source) value
  return .other (← callNested n)

/-! ## Expressions -/

/-- The expression inside parentheses, as long as they hold one expression and nothing else but
comments. -/
def unwrap (n : Node) : Steps Node :=
  if n.kind = .parenthesizedExpression then
    if n.parts.length ≠ 1 then return n
    else match h : n.parts with
      | [inner] =>
        have : inner.size < n.size :=
          Node.size_lt_of_mem (Node.mem_children_of_mem_parts (h ▸ List.mem_cons_self))
        unwrap inner
      | _ => fail .notSingle
  else return n
termination_by n.size

/-- The expression that a node is, parentheses apart. -/
def expression (n : Node) (info : Option Doc.Info) : Steps Expr := do
  let n ← unwrap n
  if n.kind = .identifier then
    return .name (n.text source)
  if n.kind = .this then
    return .this
  if n.kind = .memberExpression ∧ !n.isOptionalChain then
    let object := n.field? .object
    let property := n.field? .property
    if object.isSome ∧ property.isSome then
      if (← present property).kind = .propertyIdentifier then
        let object ← callExpression (← present object)
        return .member object ((← present property).text source)
  else if n.kind = .callExpression ∧ !n.isOptionalChain then
    let callee := n.field? .function
    let args := n.field? .arguments
    if callee.isSome ∧ args.isSome then
      if (← present args).kind = .arguments then
        let callee ← callExpression (← present callee)
        return .call callee (← callArguments (← present args))
  else if n.kind = .assignmentExpression then
    let left := n.field? .left
    let right := n.field? .right
    if left.isSome ∧ right.isSome then
      let target ← callExpression (← present left)
      return .assign ⟨n.id, target, ← callExpression (← present right) info⟩
  else if n.kind.isFunctionLiteral then
    if !n.children.any (·.kind = .asyncWord) then
      return .function (← callFunction n info)
  return .other (n.text source) (← callNested n)

/-- The assignments that a search finds when the nodes of a stack are still to be looked at, the
first one next. It does not go into assignments: what is below an assignment is part of it. -/
def nestedFrom : List Node → Steps (List Assignment)
  | [] => return []
  | n :: stack =>
    if n.kind = .assignmentExpression then do
      let found ← match ← callExpression n with
        | .assign a => pure [a]
        | converted => assignmentsIn converted
      return found ++ (← nestedFrom stack)
    else nestedFrom (n.children ++ stack)
termination_by stack => Node.sizeAll stack
decreasing_by
  · exact n.sizeAll_lt_cons stack
  · exact n.sizeAll_children_lt stack

/-- The expression that an argument is. -/
def argument (n : Node) : Steps Expr := do
  if n.kind = .spreadElement then
    if n.parts.length = 1 then
      return .spread (← callExpression (← only n.parts))
    else
      return .other (n.text source) (← callNested n)
  else callExpression n

/-! ## Functions -/

/-- A parameter by its name, and by its documentation where there is some. -/
def conventional (info : Option Doc.Info) (name : String) : Steps Param := do
  let byName := conventionalParam {} name
  let documented ← if info.isSome then do
      pure ((← present info).param? name)
    else pure none
  if documented.isSome then
    let documented ← present documented
    return { byName with
      declared := true
      kind := if documented.isRest then .rest
        else if documented.isOptional then .optional
        else byName.kind }
  else return byName

/-- The parameter that a node of a parameter list is. -/
def param (info : Option Doc.Info) (n : Node) : Steps Param :=
  match n.kind with
  | .identifier => conventional info (n.text source)
  | .assignmentPattern => do
    let left := n.field? .left
    let target ← if left.isSome then present left else pure n
    return { name := target.text source, kind := .optional, declared := true }
  | .restPattern => do
    let target ← if n.parts.length = 1 then only n.parts else pure n
    return { name := target.text source, kind := .rest, spread := true, declared := true }
  | _ => return { name := n.text source }

/-- The function literal that a node is. -/
def function (n : Node) (info : Option Doc.Info) : Steps FunctionLiteral := do
  let name := n.field? .name
  let params := n.field? .parameters
  let body := n.field? .body
  let params ← if params.isSome then do
      (← present params).parts.mapM (param source info)
    else pure []
  let statements ← if body.isSome then do
      callStatements (← present body).children
    else pure []
  let name ← if name.isSome then do
      pure (some ((← present name).text source))
    else pure none
  let returnsValue ← if body.isSome then do
      pure (Node.returnsFrom (← present body).children.reverse)
    else pure false
  return ⟨params, statements, name, returnsValue⟩

end Procedure

namespace Call

/-- The steps that answer a call. -/
def steps (source : ByteArray) : (c : Call) → Steps c.Answer
  | .statements nodes => Procedure.statementsAfter source [] nodes
  | .statement n info => Procedure.statement source n info
  | .expression n info => Procedure.expression source n info
  | .nested n => Procedure.nestedFrom n.children
  | .arguments n => n.parts.mapM (Procedure.argument source)
  | .function n info => Procedure.function source n info

/-- In answering the call `c`, the call `d` can be made. -/
def Makes (source : ByteArray) (c d : Call) : Prop := (c.steps source).Makes d

/-- The answer to a call, with at most `limit` calls open at the same time. -/
def run (source : ByteArray) : (limit : Nat) → (c : Call) → Steps.Noting c.Answer
  | 0, _ => throw .tooDeep
  | limit + 1, c => (c.steps source).eval (run source limit)

end Call

end OverrideElision.Syntax
