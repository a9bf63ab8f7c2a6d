import OverrideElision.Proofs.Syntax.Nodes

/-! # What nodes are read as

The shapes that an expression or a statement is read by, each with the tree that it becomes. Which
class member a node names can be told from the syntax tree alone. -/

namespace OverrideElision.Syntax

open List

namespace Node

variable {n : Node}

/-! ## Shapes -/

theorem plainMember?_eq_some {object property : Node}
    (h : n.plainMember? = some (object, property)) :
    n.kind = .memberExpression ∧ n.field? .object = some object ∧
      n.field? .property = some property ∧ property.kind = .propertyIdentifier := by
  unfold plainMember? at h
  split at h
  · split at h <;> grind
  · cases h

theorem plainCall?_eq_some {callee args : Node} (h : n.plainCall? = some (callee, args)) :
    n.kind = .callExpression ∧ n.field? .function = some callee ∧
      n.field? .arguments = some args ∧ args.kind = .arguments := by
  unfold plainCall? at h
  split at h
  · split at h <;> grind
  · cases h

theorem assignmentSides?_eq_some_iff {left right : Node} :
    n.assignmentSides? = some (left, right) ↔
      n.kind = .assignmentExpression ∧ n.field? .left = some left ∧
        n.field? .right = some right := by
  unfold assignmentSides?
  cases n.field? .left <;> cases n.field? .right <;> simp

theorem isPlainFunction_kind (h : n.isPlainFunction = true) : n.kind.isFunctionLiteral = true := by
  unfold isPlainFunction at h
  exact (Bool.and_eq_true_iff.mp h).1

theorem singleDeclaration?_eq_some {name keyword : Node} {value : Option Node}
    (h : n.singleDeclaration? = some (name, value, keyword)) :
    (n.kind = .variableDeclaration ∨ n.kind = .lexicalDeclaration) ∧
      ∃ declarator, n.namedChildren.filter (·.kind = .variableDeclarator) = [declarator] ∧
        declarator.field? .name = some name ∧ name.kind = .identifier ∧
          declarator.field? .value = value := by
  unfold singleDeclaration? at h
  split at h
  · split at h
    · split at h <;> grind
    · cases h
  · cases h

theorem unwrapped_of_kind (h : n.kind ≠ .parenthesizedExpression) : n.unwrapped = n := by
  rw [unwrapped]
  exact if_neg h

/-! ## Class members -/

/-- The names of a chain of property reads that starts at an identifier, parentheses apart. -/
def path? (source : ByteArray) (n : Node) : Option (List String) :=
  match h : n.unwrapped.plainMember? with
  | some (object, property) =>
    have := n.size_unwrapped_le
    have := size_lt_of_plainMember? h
    (object.path? source).map (· ++ [property.text source])
  | none => if n.unwrapped.kind = .identifier then some [n.unwrapped.text source] else none
termination_by n.size

/-- The class member that a node names, as `Owner.prototype.name`. -/
def member? (source : ByteArray) (n : Node) : Option Member := do
  let (object, method) ← n.unwrapped.plainMember?
  let (owner, property) ← object.unwrapped.plainMember?
  if property.text source = "prototype" then
    (owner.path? source).map fun path => ⟨".".intercalate path, method.text source⟩
  else none

/-- The class member that an assignment assigns. -/
def assignedMember? (source : ByteArray) (n : Node) : Option Member :=
  if n.kind = .assignmentExpression then (n.field? .left).bind (member? source) else none

end Node

/-! ## Expressions -/

/-- The shapes of a node without parentheses around it, each with what tells it. -/
inductive Shape (n : Node) where
  | name (h : n.kind = .identifier)
  | this (h : n.kind = .this)
  | member (object property : Node) (h : n.plainMember? = some (object, property))
  | call (callee args : Node) (h : n.plainCall? = some (callee, args))
  | assign (left right : Node) (h : n.assignmentSides? = some (left, right))
  | function (h : n.isPlainFunction = true)
  | other (hsides : n.assignmentSides? = none) (hplain : n.isPlainFunction = false)

/-- The shape that a node is read by when it is an expression. -/
def Node.shape (n : Node) : Shape n :=
  if hname : n.kind = .identifier then .name hname
  else if hthis : n.kind = .this then .this hthis
  else match hmember : n.plainMember? with
    | some (object, property) => .member object property hmember
    | none => match hcall : n.plainCall? with
      | some (callee, args) => .call callee args hcall
      | none => match hsides : n.assignmentSides? with
        | some (left, right) => .assign left right hsides
        | none =>
          if hplain : n.isPlainFunction = true then .function hplain
          else .other hsides (eq_false_of_ne_true hplain)

/-- What a node of this shape is read as. -/
def Shape.read (source : ByteArray) (info : Doc.Info) {n : Node} : Shape n → Documented Expr
  | .name _ => return .name (n.text source)
  | .this _ => return .this
  | .member object property _ => do
    return .member (← readExpr source {} object) (property.text source)
  | .call callee args _ => do
    let callee ← readExpr source {} callee
    return .call callee (← readArguments source args.parts)
  | .assign left right _ => do
    let target ← readExpr source {} left
    return .assign ⟨n.id, target, ← readExpr source info right⟩
  | .function _ => return .function (← readFunction source info n)
  | .other .. => return .other (n.text source) (← readNested source n.children)

theorem readBare_eq (source : ByteArray) (info : Doc.Info) (n : Node) :
    readBare source info n = n.shape.read source info := by
  -- Both sides put the same questions to the node, in the same order.
  rw [readBare]
  unfold Node.shape
  grind [Shape.read]

theorem readExpr_eq (source : ByteArray) (info : Doc.Info) (n : Node) :
    readExpr source info n = readBare source info n.unwrapped := by
  rw [readExpr]

theorem readExpr_eq_shape (source : ByteArray) (info : Doc.Info) (n : Node) :
    readExpr source info n = n.unwrapped.shape.read source info := by
  rw [readExpr_eq, readBare_eq]

theorem readBare_of_plainMember? (source : ByteArray) (info : Doc.Info) {n object property : Node}
    (h : n.plainMember? = some (object, property)) :
    (readBare source info n).value =
      .member (readExpr source {} object).value (property.text source) := by
  obtain ⟨hkind, _⟩ := Node.plainMember?_eq_some h
  rw [readBare, if_neg (by simp [hkind]), if_neg (by simp [hkind])]
  split
  · rename_i hmember
    rw [h] at hmember
    cases hmember
    rfl
  · rename_i hmember
    simp [h] at hmember

theorem readBare_of_identifier (source : ByteArray) (info : Doc.Info) {n : Node}
    (h : n.kind = .identifier) : (readBare source info n).value = .name (n.text source) := by
  rw [readBare, if_pos h]
  rfl

namespace Shape

variable {n : Node} (source : ByteArray) (info : Doc.Info)

/-- Nothing else is read as a property read. -/
theorem read_ne_member (shape : Shape n) (hmember : n.plainMember? = none)
    (object : Expr) (property : String) :
    (shape.read source info).value ≠ .member object property := by
  cases shape with
  | member _ _ h => simp [hmember] at h
  | _ => exact nofun

theorem path?_read_eq_none (shape : Shape n) (hmember : n.plainMember? = none)
    (hkind : n.kind ≠ .identifier) : (shape.read source info).value.path? = none := by
  cases shape with
  | name h => exact absurd h hkind
  | member _ _ h => simp [hmember] at h
  | _ => rfl

end Shape

theorem path?_readExpr (source : ByteArray) (info : Doc.Info) (n : Node) :
    (readExpr source info n).value.path? = n.path? source := by
  fun_induction Node.path? source n generalizing info with
  | case1 n object property h _ _ ih =>
    rw [readExpr_eq, readBare_of_plainMember? source info h, Expr.path?, ih {}]
  | case2 n h hkind => rw [readExpr_eq, readBare_of_identifier source info hkind, Expr.path?]
  | case3 n h hkind =>
    rw [readExpr_eq_shape]
    exact n.unwrapped.shape.path?_read_eq_none source info h hkind

/-- An expression names the member that its node does. -/
theorem member?_readExpr (source : ByteArray) (info : Doc.Info) (n : Node) :
    (readExpr source info n).value.member? = n.member? source := by
  unfold Node.member?
  cases h : n.unwrapped.plainMember? with
  | none =>
    have hne := n.unwrapped.shape.read_ne_member source info h
    rw [← readExpr_eq_shape] at hne
    generalize (readExpr source info n).value = e at hne ⊢
    cases e with
    | member object property => exact absurd rfl (hne object property)
    | _ => rfl
  | some parts =>
    obtain ⟨object, method⟩ := parts
    rw [readExpr_eq, readBare_of_plainMember? source info h]
    cases hobject : object.unwrapped.plainMember? with
    | none =>
      have hne := object.unwrapped.shape.read_ne_member source {} hobject
      rw [← readExpr_eq_shape] at hne
      simp only [Option.bind_eq_bind, Option.bind_some, hobject, Option.bind_none]
      generalize (readExpr source {} object).value = e at hne ⊢
      cases e with
      | member owner property => exact absurd rfl (hne owner property)
      | _ => rfl
    | some parts =>
      obtain ⟨owner, property⟩ := parts
      rw [readExpr_eq, readBare_of_plainMember? source {} hobject]
      simp [Expr.member?, Expr.qualifiedName?, hobject, path?_readExpr, Function.comp_def]

/-! ## Functions -/

/-- The nodes of the parameters of a function literal. -/
def Node.parameters (n : Node) : List Node :=
  match n.field? .parameters with
  | some list => list.parts
  | none => []

theorem readFunction_eq (source : ByteArray) (info : Doc.Info) (n : Node) :
    readFunction source info n =
      match n.field? .body with
      | some body => do
        let statements ← readStatements source body.children
        return ⟨n.parameters.map (Node.param source info), statements,
          (n.field? .name).map (Node.text source), Node.anyReturns body.children⟩
      | none =>
        return ⟨n.parameters.map (Node.param source info), [],
          (n.field? .name).map (Node.text source), false⟩ := by
  rw [readFunction]
  unfold Node.parameters
  grind [readStatements]

theorem params_readFunction (source : ByteArray) (info : Doc.Info) (n : Node) :
    (readFunction source info n).value.params = n.parameters.map (Node.param source info) := by
  rw [readFunction_eq]
  cases n.field? .body <;> rfl

/-! ## Statements -/

/-- The shapes of a statement, each with what tells it. -/
inductive StatementShape (n : Node) where
  | expr (e : Node) (hkind : n.kind = .expressionStatement) (h : n.parts = [e])
  | ret (h : n.parts = [])
  | retValue (e : Node) (h : n.parts = [e])
  | decl (name value keyword : Node) (h : n.singleDeclaration? = some (name, some value, keyword))
  | declBare (name keyword : Node) (h : n.singleDeclaration? = some (name, none, keyword))
  | other

/-- The shape that a node is read by when it is a statement. -/
def Node.statementShape (n : Node) : StatementShape n :=
  if hkind : n.kind = .expressionStatement then
    match h : n.parts with
    | [e] => .expr e hkind h
    | _ => .other
  else if n.kind = .returnStatement then
    match h : n.parts with
    | [] => .ret h
    | [e] => .retValue e h
    | _ => .other
  else match h : n.singleDeclaration? with
    | some (name, some value, keyword) => .decl name value keyword h
    | some (name, none, keyword) => .declBare name keyword h
    | none => .other

/-- What a statement of this shape does. -/
def StatementShape.read (source : ByteArray) (info : Doc.Info) {n : Node} :
    StatementShape n → Documented Form
  | .expr e _ _ => return .expr (← readExpr source info e)
  | .ret _ => return .ret none
  | .retValue e _ => return .ret (some (← readExpr source info e))
  | .decl name value keyword _ => do
    return .decl (keyword.text source) (name.text source) (some (← readExpr source info value))
  | .declBare name keyword _ => return .decl (keyword.text source) (name.text source) none
  | .other => return .other (← readNested source n.children)

theorem readForm_eq (source : ByteArray) (info : Doc.Info) (n : Node) :
    readForm source info n = n.statementShape.read source info := by
  rw [readForm]
  unfold Node.statementShape
  grind [StatementShape.read]

theorem readForm_eq_cases (source : ByteArray) (info : Doc.Info) (n : Node) :
    readForm source info n =
      if n.kind = .expressionStatement then
        match n.parts with
        | [e] => do return .expr (← readExpr source info e)
        | _ => do return .other (← readNested source n.children)
      else if n.kind = .returnStatement then
        match n.parts with
        | [] => return .ret none
        | [e] => do return .ret (some (← readExpr source info e))
        | _ => do return .other (← readNested source n.children)
      else match n.singleDeclaration? with
        | some (name, some value, keyword) => do
          return .decl (keyword.text source) (name.text source)
            (some (← readExpr source info value))
        | some (name, none, keyword) => return .decl (keyword.text source) (name.text source) none
        | none => do return .other (← readNested source n.children) := by
  rw [readForm]
  grind

/-- What the code of a group does. Comments alone do nothing. -/
def Group.form (source : ByteArray) : Group → Form
  | .remarks _ _ => .other []
  | .code comments n => (readForm source ((Group.code comments n).info source) n).value

/-- The statement that a group is. -/
def Group.statement (source : ByteArray) (group : Group) : Statement :=
  ⟨group.id, group.text source, group.form source⟩

theorem value_readGroups (source : ByteArray) (groups : List Group) :
    (readGroups source groups).value = groups.map (Group.statement source) := by
  induction groups with
  | nil =>
    rw [readGroups]
    rfl
  | cons group rest ih =>
    rw [readGroups.eq_def, map_cons, ← ih]
    cases group with
    | remarks first more => rfl
    | code comments n => cases comments <;> rfl

/-- What is noted about the statements at and below the code of a group. -/
def Group.docs (source : ByteArray) : Group → List (Nat × Doc.Info)
  | .remarks _ _ => []
  | .code comments n =>
    let info := (Group.code comments n).info source
    (readForm source info n).docs ++ if comments.isEmpty then [] else [(n.id, info)]

theorem docs_readGroups (source : ByteArray) (groups : List Group) :
    (readGroups source groups).docs = groups.flatMap (Group.docs source) := by
  induction groups with
  | nil =>
    rw [readGroups]
    rfl
  | cons group rest ih =>
    rw [readGroups.eq_def, flatMap_cons, ← ih]
    cases group with
    | remarks first more => simp [Group.docs]
    | code comments n => cases comments <;> simp [Group.docs, Documented.note]

/-! ## Groups -/

namespace Group

/-- The code of a group. -/
def code? : Group → Option Node
  | .remarks _ _ => none
  | .code _ n => some n

theorem filterMap_code?_ofPending (pending : List Node) :
    (ofPending pending).filterMap code? = [] := by
  cases pending <;> rfl

/-- The code of the groups of a block are the parts of the block. -/
theorem filterMap_code?_ofNodesAfter (source : ByteArray) (pending nodes : List Node) :
    (ofNodesAfter source pending nodes).filterMap code? =
      (nodes.filter (·.named)).filter (·.kind ≠ .comment) := by
  induction nodes generalizing pending with
  | nil => exact filterMap_code?_ofPending pending
  | cons n rest ih =>
    rw [ofNodesAfter, filter_cons]
    by_cases hkind : n.kind = .comment
    · rw [if_pos hkind]
      have hnot : (rest.filter (·.named)).filter (·.kind ≠ .comment) =
          (if n.named then n :: rest.filter (·.named) else rest.filter (·.named)).filter
            (·.kind ≠ .comment) := by
        split <;> simp [hkind]
      split
      · rw [filterMap_append, filterMap_code?_ofPending, nil_append, ih, hnot]
      · rw [ih, hnot]
    · rw [if_neg hkind]
      split
      · rw [filterMap_cons, code?, ih, filter_cons_of_pos (by simpa using hkind)]
      · rw [ih]

variable {source : ByteArray} {pending nodes : List Node} {n : Node}

theorem not_code_mem_ofPending {comments : List Node} :
    ¬ .code comments n ∈ ofPending pending := by
  cases pending <;> simp [ofPending]

theorem mem_of_code_mem_ofNodesAfter {comments : List Node}
    (h : .code comments n ∈ ofNodesAfter source pending nodes) : n ∈ nodes := by
  induction nodes generalizing pending with
  | nil => exact absurd h not_code_mem_ofPending
  | cons m rest ih =>
    rw [ofNodesAfter] at h
    split at h
    · split at h
      · rcases mem_append.mp h with h | h
        · exact absurd h not_code_mem_ofPending
        · exact mem_cons_of_mem _ (ih h)
      · exact mem_cons_of_mem _ (ih h)
    · split at h
      · rcases mem_cons.mp h with heq | h
        · cases heq
          exact mem_cons_self
        · exact mem_cons_of_mem _ (ih h)
      · exact mem_cons_of_mem _ (ih h)

end Group

end OverrideElision.Syntax
