import OverrideElision.Proofs.Syntax.Steps

/-! # What procedures ask for

No procedure asks for something that is not there. What is left of its steps, once all that it asks
for is found, are the steps for the shape of the node. -/

namespace OverrideElision.Syntax

open List Steps

/-! ## Steps by shape -/

/-- The steps that read an expression of this shape. -/
def Shape.steps (source : ByteArray) (info : Option Doc.Info) {n : Node} : Shape n → Steps Expr
  | .name _ => return .name (n.text source)
  | .this _ => return .this
  | .member object property _ => return .member (← callExpression object) (property.text source)
  | .call callee args _ => do
    let callee ← callExpression callee
    return .call callee (← callArguments args)
  | .assign left right _ => do
    let target ← callExpression left
    return .assign ⟨n.id, target, ← callExpression right info⟩
  | .function _ => return .function (← callFunction n info)
  | .other .. => return .other (n.text source) (← callNested n)

/-- The steps that read a statement of this shape. -/
def StatementShape.steps (source : ByteArray) (info : Doc.Info) {n : Node} :
    StatementShape n → Steps Form
  | .expr e _ _ => return .expr (← callExpression e info)
  | .ret _ => return .ret none
  | .retValue e _ => return .ret (some (← callExpression e info))
  | .decl name value keyword _ =>
    return .decl (keyword.text source) (name.text source) (some (← callExpression value info))
  | .declBare name keyword _ => return .decl (keyword.text source) (name.text source) none
  | .other => return .other (← callNested n)

/-- The steps that read a group. -/
def Group.steps (source : ByteArray) : Group → Steps Statement
  | .remarks first more =>
    return ⟨first.id, (Group.remarks first more).text source, .other []⟩
  | .code comments n => do
    let info := (Group.code comments n).info source
    let form ← callStatement n info
    unless comments.isEmpty do note n.id info (pure ())
    return ⟨n.id, (Group.code comments n).text source, form⟩

theorem Shape.steps_eq_cases (source : ByteArray) (info : Option Doc.Info) (n : Node) :
    n.shape.steps source info =
      if n.kind = .identifier then return .name (n.text source)
      else if n.kind = .this then return .this
      else match n.plainMember? with
        | some (object, property) => do
          return .member (← callExpression object) (property.text source)
        | none => match n.plainCall? with
          | some (callee, args) => do
            let callee ← callExpression callee
            return .call callee (← callArguments args)
          | none => match n.assignmentSides? with
            | some (left, right) => do
              let target ← callExpression left
              return .assign ⟨n.id, target, ← callExpression right info⟩
            | none =>
              if n.isPlainFunction then return .function (← callFunction n info)
              else return .other (n.text source) (← callNested n) := by
  unfold Node.shape
  grind [Shape.steps]

theorem StatementShape.steps_eq_cases (source : ByteArray) (info : Doc.Info) (n : Node) :
    n.statementShape.steps source info =
      if n.kind = .expressionStatement then
        match n.parts with
        | [e] => do return .expr (← callExpression e info)
        | _ => do return .other (← callNested n)
      else if n.kind = .returnStatement then
        match n.parts with
        | [] => return .ret none
        | [e] => do return .ret (some (← callExpression e info))
        | _ => do return .other (← callNested n)
      else match n.singleDeclaration? with
        | some (name, some value, keyword) => do
          return .decl (keyword.text source) (name.text source)
            (some (← callExpression value info))
        | some (name, none, keyword) => return .decl (keyword.text source) (name.text source) none
        | none => do return .other (← callNested n) := by
  unfold Node.statementShape
  grind [StatementShape.steps]

/-! ## Parentheses -/

namespace Node

variable {n inner : Node}

theorem unwrapped_of_parts (hkind : n.kind = .parenthesizedExpression) (hparts : n.parts = [inner]) :
    n.unwrapped = inner.unwrapped := by
  rw [unwrapped, if_pos hkind]
  split
  · rename_i hparts'
    rw [hparts] at hparts'
    cases hparts'
    rfl
  · rename_i hnone
    exact (hnone inner hparts).elim

theorem unwrapped_of_length_parts_ne (h : n.parts.length ≠ 1) : n.unwrapped = n := by
  rw [unwrapped]
  split
  · split
    · rename_i hparts
      simp [hparts] at h
    · rfl
  · rfl

end Node

namespace Procedure

variable (source : ByteArray)

theorem unwrap_eq (n : Node) : unwrap n = pure n.unwrapped := by
  fun_induction unwrap n with
  | case1 n hkind hlength => rw [Node.unwrapped_of_length_parts_ne hlength]
  | case2 n hkind hlength inner hparts hsize ih => rw [ih, Node.unwrapped_of_parts hkind hparts]
  | case3 n hkind hlength hparts =>
    obtain ⟨inner, hinner⟩ := length_eq_one_iff.mp (not_not.mp hlength)
    exact (hparts inner hinner).elim
  | case4 n hkind => rw [Node.unwrapped_of_kind hkind]

/-! ## Expressions -/

theorem expression_eq (n : Node) (info : Option Doc.Info) :
    expression source n info = n.unwrapped.shape.steps source info := by
  rw [expression, unwrap_eq, pure_bind, Shape.steps_eq_cases]
  generalize n.unwrapped = n
  unfold Node.plainMember? Node.plainCall? Node.assignmentSides? Node.isPlainFunction
  -- The kind tells which fields are asked for.
  cases n.kind with
  | memberExpression =>
    cases n.isOptionalChain with
    | true => simp [Kind.isFunctionLiteral]
    | false =>
      cases n.field? .object with
      | none => simp [Kind.isFunctionLiteral]
      | some object =>
        cases n.field? .property with
        | none => simp [Kind.isFunctionLiteral]
        | some property =>
          by_cases hproperty : property.kind = .propertyIdentifier <;>
            simp [hproperty, Kind.isFunctionLiteral]
  | callExpression =>
    cases n.isOptionalChain with
    | true => simp [Kind.isFunctionLiteral]
    | false =>
      cases n.field? .function with
      | none => simp [Kind.isFunctionLiteral]
      | some callee =>
        cases n.field? .arguments with
        | none => simp [Kind.isFunctionLiteral]
        | some args =>
          by_cases hargs : args.kind = .arguments <;> simp [hargs, Kind.isFunctionLiteral]
  | assignmentExpression =>
    cases n.field? .left with
    | none => simp [Kind.isFunctionLiteral]
    | some left => cases n.field? .right <;> simp [Kind.isFunctionLiteral]
  | _ => simp [Kind.isFunctionLiteral]

/-! ## Statements -/

/-- The first child of a declaration is asked for when there is a declarator, so there is one. -/
theorem statement_eq (n : Node) (info : Doc.Info) :
    statement source n info = n.statementShape.steps source info := by
  rw [statement, StatementShape.steps_eq_cases]
  unfold Node.singleDeclaration?
  split
  · match n.parts with
    | [] | [_] => rfl
    | _ :: _ :: _ => simp
  · split
    · match n.parts with
      | [] | [_] => rfl
      | _ :: _ :: _ => simp
    · split
      · have hchildren : ∀ declarator,
            n.namedChildren.filter (·.kind = .variableDeclarator) = [declarator] →
              ∃ keyword rest, n.children = keyword :: rest := fun declarator h =>
          have hmem := mem_filter.mp (h ▸ mem_singleton_self declarator)
          exists_cons_of_ne_nil (ne_nil_of_mem (mem_filter.mp hmem.1).1)
        generalize n.namedChildren.filter (·.kind = .variableDeclarator) = declarators
          at hchildren ⊢
        match declarators with
        | [] => rfl
        | [declarator] =>
          obtain ⟨keyword, rest, hchildren⟩ := hchildren declarator rfl
          simp only [hchildren, length_singleton, if_true, only_singleton, first_cons, pure_bind]
          cases declarator.field? .name with
          | none => rfl
          | some name =>
            by_cases hkind : name.kind = .identifier
            · cases declarator.field? .value <;> simp [hkind]
            · simp [hkind]
        | _ :: _ :: _ => simp
      · rfl

/-- The first and the last of the comments are asked for only when there are some. -/
theorem statementsAfter_eq (pending nodes : List Node) :
    statementsAfter source pending nodes =
      (Group.ofNodesAfter source pending nodes).mapM (Group.steps source) := by
  induction nodes generalizing pending with
  | nil =>
    rw [statementsAfter, Group.ofNodesAfter]
    cases pending with
    | nil => rfl
    | cons first more => simp [Group.ofPending, Group.steps, Group.text, Group.first, Group.last]
  | cons n rest ih =>
    rw [statementsAfter, Group.ofNodesAfter]
    split
    · split
      · rw [ih, mapM_append]
        cases pending <;>
          simp [Group.ofPending, Group.steps, Group.text, Group.first, Group.last]
      · exact ih _
    · simp only [Bool.not_eq_true', ih]
      cases n.named with
      | false => simp
      | true =>
        cases pending <;>
          simp [Group.steps, Group.info, Group.comments, Group.text, Group.first, Group.last]

/-! ## Functions -/

/-- Documentation overrides what the name of a parameter tells. -/
theorem conventionalParam_eq (info : Doc.Info) (name : String) :
    conventionalParam info name =
      match info.param? name with
      | none => conventionalParam {} name
      | some documented =>
        { conventionalParam {} name with
          declared := true
          kind := if documented.isRest then .rest
            else if documented.isOptional then .optional
            else (conventionalParam {} name).kind } := rfl

theorem conventional_eq (info : Option Doc.Info) (name : String) :
    conventional info name = pure (conventionalParam (info.getD {}) name) := by
  cases info with
  | none => rfl
  | some info =>
    rw [conventional, Option.getD_some, conventionalParam_eq info]
    simp only [Option.isSome_some, if_true, present_some, pure_bind]
    cases info.param? name <;> rfl

theorem param_eq (info : Option Doc.Info) (n : Node) :
    param source info n = pure (n.param source (info.getD {})) := by
  unfold param Node.param
  cases n.kind with
  | identifier => exact conventional_eq info _
  | assignmentPattern => cases n.field? .left <;> rfl
  | restPattern =>
    match n.parts with
    | [] | [_] => rfl
    | _ :: _ :: _ => simp
  | _ => rfl

theorem returnsFrom_eq (stack : List Node) : Node.returnsFrom stack = stack.any Node.returns := by
  fun_induction Node.returnsFrom stack with
  | case1 => rfl
  | case2 n stack hscope ih =>
    rw [any_cons, Node.returns_eq, if_pos hscope, ih, Bool.false_or]
  | case3 n stack hscope hkind ih =>
    rw [any_cons, Node.returns_eq, if_neg hscope, if_pos hkind, ih]
    simp [Node.namedChildren]
  | case4 n stack hscope hkind ih =>
    rw [unattach_reverse, unattach_attach] at ih
    rw [any_cons, Node.returns_eq, if_neg hscope, if_neg hkind, ih, any_append, any_reverse]

theorem function_eq (n : Node) (info : Option Doc.Info) :
    function source n info =
      match n.field? .body with
      | some body => do
        let statements ← callStatements body.children
        return ⟨n.parameters.map (Node.param source (info.getD {})), statements,
          (n.field? .name).map (Node.text source), Node.anyReturns body.children⟩
      | none =>
        return ⟨n.parameters.map (Node.param source (info.getD {})), [],
          (n.field? .name).map (Node.text source), false⟩ := by
  have hparam : param source info = fun p => pure (p.param source (info.getD {})) :=
    funext (param_eq source info)
  rw [function, hparam]
  unfold Node.parameters
  cases n.field? .parameters <;> cases n.field? .body <;> cases n.field? .name <;>
    simp [returnsFrom_eq, Node.anyReturns_eq_any]

end Procedure

end OverrideElision.Syntax
