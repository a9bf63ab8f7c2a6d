import OverrideElision.Proofs.Syntax.Expressions

/-! # Where reading goes

Reading a node goes on to nodes below it, which it looks at as expressions, as statements, or only
in search of assignments. What a statement yields is put together from what these positions do, so
that facts about the readers need one case for each shape of a node and one induction. -/

namespace OverrideElision

open List

theorem Assignment.allOccurrences_append (enclosing : Statement) (as bs : List Assignment) :
    Assignment.allOccurrences enclosing (as ++ bs) =
      Assignment.allOccurrences enclosing bs ++ Assignment.allOccurrences enclosing as := by
  induction as with
  | nil => simp [Assignment.allOccurrences]
  | cons a as ih =>
    rw [cons_append, Assignment.allOccurrences, Assignment.allOccurrences, ih, append_assoc]

/-- What an assignment is told by: its identity and the class member that it assigns. -/
def Occurrence.key (o : Occurrence) : Nat × Option Member :=
  (o.assignment.id, o.assignment.target.member?)

/-! ## Function literals of a statement -/

mutual

/-- The function literals at or below an expression, in the order of the assignments there. -/
def Expr.literals : Expr → List FunctionLiteral
  | .name _ => []
  | .this => []
  | .member object _ => object.literals
  | .call callee args => Expr.allLiterals args ++ callee.literals
  | .spread value => value.literals
  | .assign assignment => assignment.literals
  | .function literal => literal.literals
  | .other _ assignments => Assignment.allLiterals assignments

/-- The function literals in several expressions, those of the last expression first. -/
def Expr.allLiterals : List Expr → List FunctionLiteral
  | [] => []
  | e :: es => Expr.allLiterals es ++ e.literals

/-- The function literals in the value of an assignment, then those in its target. -/
def Assignment.literals : Assignment → List FunctionLiteral
  | ⟨_, target, value⟩ => value.literals ++ target.literals

/-- The function literals in several assignments, those of the last first. -/
def Assignment.allLiterals : List Assignment → List FunctionLiteral
  | [] => []
  | a :: as => Assignment.allLiterals as ++ a.literals

/-- A function literal itself, then those in its body. -/
def FunctionLiteral.literals : FunctionLiteral → List FunctionLiteral
  | ⟨params, body, name, returnsValue⟩ =>
    ⟨params, body, name, returnsValue⟩ :: Statement.allLiterals body

/-- The function literals in a statement. -/
def Statement.literals : Statement → List FunctionLiteral
  | ⟨_, _, form⟩ => form.literals

/-- The function literals in several statements, those of the last statement first. -/
def Statement.allLiterals : List Statement → List FunctionLiteral
  | [] => []
  | s :: ss => Statement.allLiterals ss ++ s.literals

/-- The function literals in a statement of this form. -/
def Form.literals : Form → List FunctionLiteral
  | .expr e => e.literals
  | .ret none => []
  | .ret (some e) => e.literals
  | .decl _ _ none => []
  | .decl _ _ (some e) => e.literals
  | .other assignments => Assignment.allLiterals assignments

end

theorem FunctionLiteral.literals_eq (f : FunctionLiteral) :
    f.literals = f :: Statement.allLiterals f.body := by
  cases f
  rw [FunctionLiteral.literals]

theorem Assignment.allLiterals_append (as bs : List Assignment) :
    Assignment.allLiterals (as ++ bs) =
      Assignment.allLiterals bs ++ Assignment.allLiterals as := by
  induction as with
  | nil => simp [Assignment.allLiterals]
  | cons a as ih =>
    rw [cons_append, Assignment.allLiterals, Assignment.allLiterals, ih, append_assoc]

namespace Syntax

/-! ## Positions -/

/-- The statements of a function literal. -/
def Node.bodyParts (n : Node) : List Node :=
  match n.field? .body with
  | some body => body.parts
  | none => []

/-- How a node is looked at: as an expression, as an argument, in search of assignments, or as a
statement. -/
inductive Position where
  | expression (n : Node)
  | argument (n : Node)
  | search (n : Node)
  | statement (n : Node)

/-- Where an expression of this shape goes on. -/
def Shape.next {n : Node} : Shape n → List Position
  | .name _ | .this _ => []
  | .member object _ _ => [.expression object]
  | .call callee args _ => .expression callee :: args.parts.map .argument
  | .assign left right _ => [.expression left, .expression right]
  | .function _ => n.bodyParts.map .statement
  | .other .. => n.children.map .search

/-- Where a statement of this shape goes on. -/
def StatementShape.next {n : Node} : StatementShape n → List Position
  | .ret _ | .declBare .. => []
  | .expr e _ _ | .retValue e _ => [.expression e]
  | .decl _ value _ _ => [.expression value]
  | .other => n.children.map .search

namespace Position

/-- The node that is looked at. -/
def node : Position → Node
  | .expression n | .argument n | .search n | .statement n => n

/-- The trees that a position is about. A statement is about what it consists of. -/
def roots : Position → List Node
  | .expression n | .argument n | .search n => [n]
  | .statement n => n.children

/-- The nodes that a position is about. -/
def nodes (p : Position) : List Node := p.roots.flatMap Node.nodes

/-- Where reading goes on from a position. -/
def next : Position → List Position
  | .expression n => n.unwrapped.shape.next
  | .argument n =>
    if n.kind = .spreadElement then
      match n.parts with
      | [inner] => [.expression inner]
      | _ => n.children.map .search
    else [.expression n]
  | .search n =>
    if n.kind = .assignmentExpression then [.expression n] else n.children.map .search
  | .statement n => n.statementShape.next

/-- Reading goes down the tree. On one and the same node, only an expression is left to look at. -/
def rank : Position → Nat
  | .expression n => 2 * n.size
  | .argument n | .search n | .statement n => 2 * n.size + 1

end Position

namespace Node

variable {n : Node}

theorem mem_descendants_of_bodyParts {c : Node} (h : c ∈ n.bodyParts) : c ∈ n.descendants := by
  unfold bodyParts at h
  split at h
  · exact mem_descendants_of_child (mem_children_of_field? ‹_›)
      (mem_nodes_of_child (mem_children_of_mem_parts h) c.self_mem_nodes)
  · cases h

theorem mem_descendants_of_singleDeclaration? {name value keyword : Node}
    (h : n.singleDeclaration? = some (name, some value, keyword)) : value ∈ n.descendants := by
  obtain ⟨_, declarator, hsingle, _, _, hvalue⟩ := singleDeclaration?_eq_some h
  have hdeclarator : declarator ∈ n.namedChildren.filter (·.kind = .variableDeclarator) :=
    hsingle ▸ mem_cons_self
  exact mem_descendants_of_child (mem_filter.mp (mem_filter.mp hdeclarator).1).1
    (mem_nodes_of_child (mem_children_of_field? hvalue) value.self_mem_nodes)

end Node

theorem Shape.mem_descendants_of_next {n : Node} {shape : Shape n} {q : Position}
    (h : q ∈ shape.next) : q.node ∈ n.descendants := by
  cases shape with
  | name | this => cases h
  | member object property hmember =>
    obtain rfl := mem_singleton.mp h
    exact Node.child_mem_descendants
      (Node.mem_children_of_field? (Node.plainMember?_eq_some hmember).2.1)
  | call callee args hcall =>
    obtain ⟨_, hcallee, hargs, _⟩ := Node.plainCall?_eq_some hcall
    rcases mem_cons.mp h with rfl | h
    · exact Node.child_mem_descendants (Node.mem_children_of_field? hcallee)
    · obtain ⟨arg, harg, rfl⟩ := mem_map.mp h
      exact Node.mem_descendants_of_child (Node.mem_children_of_field? hargs)
        (Node.mem_nodes_of_child (Node.mem_children_of_mem_parts harg) arg.self_mem_nodes)
  | assign left right hsides =>
    obtain ⟨_, hleft, hright⟩ := Node.assignmentSides?_eq_some_iff.mp hsides
    rcases mem_pair.mp h with rfl | rfl
    · exact Node.child_mem_descendants (Node.mem_children_of_field? hleft)
    · exact Node.child_mem_descendants (Node.mem_children_of_field? hright)
  | function =>
    obtain ⟨c, hc, rfl⟩ := mem_map.mp h
    exact Node.mem_descendants_of_bodyParts hc
  | other =>
    obtain ⟨c, hc, rfl⟩ := mem_map.mp h
    exact Node.child_mem_descendants hc

theorem StatementShape.mem_descendants_of_next {n : Node} {shape : StatementShape n} {q : Position}
    (h : q ∈ shape.next) : q.node ∈ n.descendants := by
  have hpart : ∀ e, n.parts = [e] → e ∈ n.descendants := fun e he =>
    Node.child_mem_descendants (Node.mem_children_of_mem_parts (he ▸ mem_cons_self))
  cases shape with
  | ret | declBare => cases h
  | expr e _ hparts | retValue e hparts =>
    obtain rfl := mem_singleton.mp h
    exact hpart e hparts
  | decl name value keyword hdeclaration =>
    obtain rfl := mem_singleton.mp h
    exact Node.mem_descendants_of_singleDeclaration? hdeclaration
  | other =>
    obtain ⟨c, hc, rfl⟩ := mem_map.mp h
    exact Node.child_mem_descendants hc

namespace Position

variable {p q : Position}

theorem rank_le (p : Position) : p.rank ≤ 2 * p.node.size + 1 := by
  cases p <;> simp [rank, node]

theorem nodes_subset (p : Position) : ∀ m ∈ p.nodes, m ∈ p.node.nodes := by
  intro m hm
  obtain ⟨root, hroot, hroots⟩ := mem_flatMap.mp hm
  cases p with
  | expression n | argument n | search n =>
    obtain rfl := mem_singleton.mp hroot
    exact hroots
  | statement n => exact Node.mem_nodes_of_child hroot hroots

theorem mem_nodes_trans {n m : Node} (hn : n ∈ p.nodes) (hm : m ∈ n.nodes) : m ∈ p.nodes := by
  obtain ⟨root, hroot, hn⟩ := mem_flatMap.mp hn
  exact mem_flatMap.mpr ⟨root, hroot, Node.mem_nodes_trans hn hm⟩

theorem rank_lt_of_mem_descendants {n : Node} (h : q.node ∈ n.descendants) :
    q.rank < 2 * n.size := by
  have hrank := q.rank_le
  have hsize := Node.size_lt_of_mem_descendants h
  omega

theorem mem_descendants_of_search {n : Node} (h : q ∈ n.children.map .search) :
    q.node ∈ n.descendants := by
  obtain ⟨c, hc, rfl⟩ := mem_map.mp h
  exact Node.child_mem_descendants hc

/-- Reading goes on at nodes that the position is about, and comes to an end. -/
theorem next_spec (h : q ∈ p.next) : q.node ∈ p.nodes ∧ q.rank < p.rank := by
  have hself : ∀ {n m : Node}, m ∈ n.nodes → m ∈ [n].flatMap Node.nodes := by simp
  have hdescends : ∀ n : Node, q.node ∈ n.descendants →
      q.node ∈ [n].flatMap Node.nodes ∧ q.rank < 2 * n.size + 1 := by
    intro n hq
    have hrank := rank_lt_of_mem_descendants hq
    exact ⟨hself (Node.mem_nodes_of_mem_descendants hq), by omega⟩
  cases p with
  | expression n =>
    have hq := Shape.mem_descendants_of_next h
    have hrank := rank_lt_of_mem_descendants hq
    have hsize := n.size_unwrapped_le
    refine ⟨hself (Node.mem_nodes_trans n.unwrapped_mem_nodes
      (Node.mem_nodes_of_mem_descendants hq)), ?_⟩
    rw [rank]
    omega
  | argument n =>
    rw [next] at h
    split at h
    · split at h
      · rename_i inner hparts
        obtain rfl := mem_singleton.mp h
        exact hdescends n (Node.child_mem_descendants
          (Node.mem_children_of_mem_parts (hparts ▸ mem_cons_self)))
      · exact hdescends n (mem_descendants_of_search h)
    · obtain rfl := mem_singleton.mp h
      exact ⟨hself n.self_mem_nodes, Nat.lt_succ_self _⟩
  | search n =>
    rw [next] at h
    split at h
    · obtain rfl := mem_singleton.mp h
      exact ⟨hself n.self_mem_nodes, Nat.lt_succ_self _⟩
    · exact hdescends n (mem_descendants_of_search h)
  | statement n =>
    have hq := StatementShape.mem_descendants_of_next h
    exact ⟨hq, (rank_lt_of_mem_descendants hq).trans (Nat.lt_succ_self _)⟩

/-- What holds of a position when it holds wherever reading goes on from it holds of all. -/
theorem induction {motive : Position → Prop}
    (step : ∀ p : Position, (∀ q ∈ p.next, motive q) → motive p) (p : Position) : motive p :=
  step p fun q hq =>
    have := (next_spec hq).2
    induction step q
termination_by p.rank

/-- The position and all that reading comes to from it. Parts are gone through from the last one. -/
def reached (p : Position) : List Position :=
  p :: p.next.reverse.attach.flatMap fun q =>
    have := (next_spec (mem_reverse.mp q.2)).2
    q.1.reached
termination_by p.rank

theorem reached_eq (p : Position) : p.reached = p :: p.next.reverse.flatMap reached := by
  rw [reached]
  simp [flatMap_def]

end Position

/-- The assignment that a node of this shape is. -/
def Shape.assignment? {n : Node} : Shape n → Option Node
  | .assign .. => some n
  | _ => none

/-- The function literal that a node of this shape is. -/
def Shape.literal? {n : Node} : Shape n → Option Node
  | .function _ => some n
  | _ => none

namespace Position

/-- The assignment that is read at a position. -/
def assignment? : Position → Option Node
  | .expression n => n.unwrapped.shape.assignment?
  | _ => none

/-- The function literal that is read at a position. -/
def literal? : Position → Option Node
  | .expression n => n.unwrapped.shape.literal?
  | _ => none

end Position

theorem Shape.literal?_eq_some_iff {n f : Node} (shape : Shape n) :
    shape.literal? = some f ↔ n = f ∧ n.isPlainFunction = true := by
  cases shape with
  | name h | this h => simp [literal?, Node.isPlainFunction, Kind.isFunctionLiteral, h]
  | member _ _ h =>
    simp [literal?, Node.isPlainFunction, Kind.isFunctionLiteral, (Node.plainMember?_eq_some h).1]
  | call _ _ h =>
    simp [literal?, Node.isPlainFunction, Kind.isFunctionLiteral, (Node.plainCall?_eq_some h).1]
  | assign _ _ h =>
    simp [literal?, Node.isPlainFunction, Kind.isFunctionLiteral,
      (Node.assignmentSides?_eq_some_iff.mp h).1]
  | function h => simp [literal?, h]
  | other _ h => simp [literal?, h]

/-- What is read as a function literal is one that is not asynchronous, parentheses apart. -/
theorem Position.literal?_eq_some_iff {q : Position} {f : Node} :
    q.literal? = some f ↔ ∃ e, q = .expression e ∧ e.unwrapped = f ∧ f.isPlainFunction = true := by
  cases q with
  | expression n =>
    rw [literal?, Shape.literal?_eq_some_iff]
    constructor
    · rintro ⟨rfl, hplain⟩
      exact ⟨n, rfl, rfl, hplain⟩
    · rintro ⟨e, heq, rfl, hplain⟩
      cases heq
      exact ⟨rfl, hplain⟩
  | argument | search | statement => simp [literal?]

theorem Position.node_mem_nodes_of_reached {p q : Position} (h : q ∈ p.reached) :
    q.node ∈ p.node.nodes := by
  induction p using Position.induction with
  | step p ih =>
    rw [reached_eq] at h
    rcases mem_cons.mp h with rfl | h
    · exact q.node.self_mem_nodes
    · obtain ⟨r, hr, hq⟩ := mem_flatMap.mp h
      have hr := mem_reverse.mp hr
      exact Node.mem_nodes_trans (p.nodes_subset _ (next_spec hr).1) (ih r hr hq)

/-! ## What is read -/

variable (source : ByteArray) (info : Doc.Info)

/-- What an argument of a call is read as. -/
def readArgument (n : Node) : Documented Expr :=
  if n.kind = .spreadElement then
    match n.parts with
    | [inner] => return .spread (← readExpr source {} inner)
    | _ => return .other (n.text source) (← readNested source n.children)
  else readExpr source {} n

/-- What a search finds at a node. -/
def searchNode (n : Node) : Documented (List Assignment) :=
  if n.kind = .assignmentExpression then do
    match ← readExpr source {} n with
    | .assign a => return [a]
    | .other _ assignments => return assignments
    | _ => return []
  else readNested source n.children

theorem readArguments_cons (n : Node) (rest : List Node) :
    (readArguments source (n :: rest)).value =
        (readArgument source n).value :: (readArguments source rest).value ∧
      (readArguments source (n :: rest)).docs =
        (readArgument source n).docs ++ (readArguments source rest).docs := by
  rw [readArguments, readArgument]
  split
  · split <;> split <;> simp_all
  · simp

theorem readNested_cons (n : Node) (rest : List Node) :
    (readNested source (n :: rest)).value =
        (searchNode source n).value ++ (readNested source rest).value ∧
      (readNested source (n :: rest)).docs =
        (searchNode source n).docs ++ (readNested source rest).docs := by
  rw [readNested, searchNode]
  split
  · simp only [Documented.value_bind, Documented.docs_bind]
    cases (readExpr source {} n).value <;> simp
  · simp

/-- What reading yields at a position: the assignments and the function literals in their order, and
the documentation noted on the way. The documentation that is passed down and the enclosing
statement can be any. -/
inductive Yields :
    Position → List Occurrence → List FunctionLiteral → List (Nat × Doc.Info) → Prop where
  | expression (info : Doc.Info) (enclosing : Statement) (n : Node) :
      Yields (.expression n) ((readExpr source info n).value.occurrences enclosing)
        (readExpr source info n).value.literals (readExpr source info n).docs
  | argument (enclosing : Statement) (n : Node) :
      Yields (.argument n) ((readArgument source n).value.occurrences enclosing)
        (readArgument source n).value.literals (readArgument source n).docs
  | search (enclosing : Statement) (n : Node) :
      Yields (.search n) (Assignment.allOccurrences enclosing (searchNode source n).value)
        (Assignment.allLiterals (searchNode source n).value) (searchNode source n).docs
  | statement (info : Doc.Info) (enclosing : Statement) (n : Node) :
      Yields (.statement n) ((readForm source info n).value.occurrences enclosing)
        (readForm source info n).value.literals (readForm source info n).docs

/-- What reading yields at several positions one after the other, when it may also note something
about the node of each. -/
inductive YieldsAll :
    List Position → List Occurrence → List FunctionLiteral → List (Nat × Doc.Info) → Prop where
  | nil : YieldsAll [] [] [] []
  | cons {p : Position} {ps : List Position} {occurrences moreOccurrences : List Occurrence}
      {literals moreLiterals : List FunctionLiteral} {docs notes moreDocs : List (Nat × Doc.Info)} :
      Yields source p occurrences literals docs → (∀ note ∈ notes, note.1 = p.node.id) →
        YieldsAll ps moreOccurrences moreLiterals moreDocs →
          YieldsAll (p :: ps) (moreOccurrences ++ occurrences) (moreLiterals ++ literals)
            (docs ++ notes ++ moreDocs)

section

variable {source}
variable {p : Position} {ps : List Position} {occurrences moreOccurrences : List Occurrence}
  {literals moreLiterals : List FunctionLiteral} {docs moreDocs : List (Nat × Doc.Info)}

namespace YieldsAll

theorem cons_of_yields (h : Yields source p occurrences literals docs)
    (hrest : YieldsAll source ps moreOccurrences moreLiterals moreDocs) :
    YieldsAll source (p :: ps) (moreOccurrences ++ occurrences) (moreLiterals ++ literals)
      (docs ++ moreDocs) := by
  have hcons : YieldsAll source (p :: ps) (moreOccurrences ++ occurrences)
      (moreLiterals ++ literals) (docs ++ [] ++ moreDocs) := cons h (forall_mem_nil _) hrest
  rwa [append_nil] at hcons

theorem singleton (h : Yields source p occurrences literals docs) :
    YieldsAll source [p] occurrences literals docs := by
  simpa using cons_of_yields h .nil

theorem arguments (enclosing : Statement) (ns : List Node) :
    YieldsAll source (ns.map .argument)
      (Expr.allOccurrences enclosing (readArguments source ns).value)
      (Expr.allLiterals (readArguments source ns).value) (readArguments source ns).docs := by
  induction ns with
  | nil =>
    rw [readArguments, Documented.value_pure, Expr.allOccurrences, Expr.allLiterals]
    exact .nil
  | cons n rest ih =>
    obtain ⟨hvalue, hdocs⟩ := readArguments_cons source n rest
    rw [hvalue, hdocs, Expr.allOccurrences, Expr.allLiterals]
    exact cons_of_yields (.argument enclosing n) ih

theorem searches (enclosing : Statement) (ns : List Node) :
    YieldsAll source (ns.map .search)
      (Assignment.allOccurrences enclosing (readNested source ns).value)
      (Assignment.allLiterals (readNested source ns).value) (readNested source ns).docs := by
  induction ns with
  | nil =>
    rw [readNested, Documented.value_pure, Assignment.allOccurrences, Assignment.allLiterals]
    exact .nil
  | cons n rest ih =>
    obtain ⟨hvalue, hdocs⟩ := readNested_cons source n rest
    rw [hvalue, hdocs, Assignment.allOccurrences_append, Assignment.allLiterals_append]
    exact cons_of_yields (.search enclosing n) ih

theorem groups (groups : List Group) :
    YieldsAll source ((groups.filterMap Group.code?).map .statement)
      (Statement.allOccurrences (groups.map (Group.statement source)))
      (Statement.allLiterals (groups.map (Group.statement source)))
      (groups.flatMap (Group.docs source)) := by
  induction groups with
  | nil =>
    rw [map_nil, Statement.allOccurrences, Statement.allLiterals]
    exact .nil
  | cons group rest ih =>
    rw [map_cons, Statement.allOccurrences, Statement.allLiterals, Statement.occurrences_eq,
      flatMap_cons, Group.statement, Statement.literals]
    cases group with
    | remarks first more =>
      rw [Group.form, Form.occurrences, Assignment.allOccurrences, append_nil, Form.literals,
        Assignment.allLiterals, append_nil]
      exact ih
    | code comments n =>
      refine cons (.statement _ _ n) ?_ ih
      intro note hnote
      split at hnote
      · cases hnote
      · rw [mem_singleton.mp hnote]
        rfl

/-- The statements of a block. -/
theorem block (n : Node) :
    YieldsAll source (n.parts.map .statement)
      (Statement.allOccurrences (readStatements source n.children).value)
      (Statement.allLiterals (readStatements source n.children).value)
      (readStatements source n.children).docs := by
  have h : YieldsAll source _ _ _ _ := groups (Group.ofNodes source n.children)
  rwa [Group.ofNodes, Group.filterMap_code?_ofNodesAfter, ← Group.ofNodes, ← value_readGroups,
    ← docs_readGroups] at h

/-- The statements in the body of a function literal. -/
theorem function (info : Doc.Info) (n : Node) :
    YieldsAll source (n.bodyParts.map .statement)
      (Statement.allOccurrences (readFunction source info n).value.body)
      (Statement.allLiterals (readFunction source info n).value.body)
      (readFunction source info n).docs := by
  rw [readFunction]
  split
  · rename_i body hbody
    have h : YieldsAll source (body.parts.map .statement) _ _ _ := block body
    have hparts : n.bodyParts = body.parts := by rw [Node.bodyParts, hbody]
    rw [hparts]
    simpa only [readStatements, Documented.value_bind, Documented.docs_bind,
      Documented.value_pure, Documented.docs_pure, append_nil] using h
  · rename_i hbody
    have hparts : n.bodyParts = [] := by rw [Node.bodyParts, hbody]
    rw [hparts, Documented.value_pure, Statement.allOccurrences, Statement.allLiterals]
    exact .nil

end YieldsAll

end

/-- What an assignment is told by, as far as the syntax tree goes. -/
def Node.key (n : Node) : Nat × Option Member := (n.id, n.assignedMember? source)

/-- The node is read as the function literal, with the documentation of some statement. -/
def Node.Becomes (n : Node) (literal : FunctionLiteral) : Prop :=
  ∃ info, literal = (readFunction source info n).value

/-- The assignments and the function literals that nodes become. -/
structure Become (assignments functions : List Node) (occurrences : List Occurrence)
    (literals : List FunctionLiteral) : Prop where
  keys : occurrences.map Occurrence.key = assignments.map (Node.key source)
  literals : Forall₂ (Node.Becomes source) functions literals

/-- What is yielded is what stands at a node itself and what is yielded where reading goes on. -/
inductive Splits (assignments functions : List Node) (next : List Position) :
    List Occurrence → List FunctionLiteral → List (Nat × Doc.Info) → Prop where
  | intro {own more : List Occurrence} {ownLiterals moreLiterals : List FunctionLiteral}
      {docs : List (Nat × Doc.Info)} :
      Become source assignments functions own ownLiterals →
        YieldsAll source next more moreLiterals docs →
          Splits assignments functions next (own ++ more) (ownLiterals ++ moreLiterals) docs

theorem Splits.of_yieldsAll {next : List Position} {occurrences : List Occurrence}
    {literals : List FunctionLiteral} {docs : List (Nat × Doc.Info)}
    (h : YieldsAll source next occurrences literals docs) :
    Splits source [] [] next occurrences literals docs := by
  have hown : Become source [] [] [] [] := ⟨rfl, .nil⟩
  exact .intro hown h

theorem Shape.step {n : Node} (shape : Shape n) (enclosing : Statement) :
    Splits source shape.assignment?.toList shape.literal?.toList shape.next
      ((shape.read source info).value.occurrences enclosing)
      (shape.read source info).value.literals (shape.read source info).docs := by
  cases shape with
  | name | this =>
    have h : Splits source [] [] [] _ _ _ := .of_yieldsAll source .nil
    simpa [read, next, assignment?, literal?, Expr.occurrences, Expr.literals] using h
  | member object property =>
    have h : Splits source [] [] [.expression object] _ _ _ :=
      .of_yieldsAll source (.singleton (.expression {} enclosing object))
    simpa [read, next, assignment?, literal?, Expr.occurrences, Expr.literals] using h
  | call callee args =>
    have h : Splits source [] [] (.expression callee :: args.parts.map .argument) _ _ _ :=
      .of_yieldsAll source
        (.cons_of_yields (.expression {} enclosing callee) (.arguments enclosing args.parts))
    simpa [read, next, assignment?, literal?, Expr.occurrences, Expr.literals] using h
  | assign left right hsides =>
    obtain ⟨hkind, hleft, _⟩ := Node.assignmentSides?_eq_some_iff.mp hsides
    have hkey : (n.id, (readExpr source {} left).value.member?) = n.key source := by
      rw [Node.key, Node.assignedMember?, if_pos hkind, hleft, member?_readExpr, Option.bind_some]
    have hown : Become source [n] []
        [⟨⟨n.id, (readExpr source {} left).value, (readExpr source info right).value⟩, enclosing⟩]
        [] := ⟨by simpa [Occurrence.key] using hkey, .nil⟩
    have h : Splits source [n] [] [.expression left, .expression right] _ _ _ :=
      .intro hown (.cons_of_yields (.expression {} enclosing left)
        (.singleton (.expression info enclosing right)))
    simpa [read, next, assignment?, literal?, Expr.occurrences, Expr.literals,
      Assignment.occurrences_eq, Assignment.literals] using h
  | function =>
    have hown : Become source [] [n] [] [(readFunction source info n).value] :=
      ⟨rfl, .cons ⟨info, rfl⟩ .nil⟩
    have h : Splits source [] [n] (n.bodyParts.map .statement) _ _ _ :=
      .intro hown (.function info n)
    simpa [read, next, assignment?, literal?, Expr.occurrences, Expr.literals,
      FunctionLiteral.occurrences_eq, FunctionLiteral.literals_eq] using h
  | other =>
    have h : Splits source [] [] (n.children.map .search) _ _ _ :=
      .of_yieldsAll source (.searches enclosing n.children)
    simpa [read, next, assignment?, literal?, Expr.occurrences, Expr.literals] using h

theorem StatementShape.step {n : Node} (shape : StatementShape n) (enclosing : Statement) :
    YieldsAll source shape.next ((shape.read source info).value.occurrences enclosing)
      (shape.read source info).value.literals (shape.read source info).docs := by
  cases shape with
  | ret | declBare => simpa [read, next, Form.occurrences, Form.literals] using .nil
  | expr e | retValue e =>
    have h : YieldsAll source [.expression e] _ _ _ := .singleton (.expression info enclosing e)
    simpa [read, next, Form.occurrences, Form.literals] using h
  | decl name value keyword =>
    have h : YieldsAll source [.expression value] _ _ _ :=
      .singleton (.expression info enclosing value)
    simpa [read, next, Form.occurrences, Form.literals] using h
  | other =>
    have h : YieldsAll source (n.children.map .search) _ _ _ := .searches enclosing n.children
    simpa [read, next, Form.occurrences, Form.literals] using h

/-- At an assignment, a search finds what an expression there holds. -/
theorem searchNode_of_assignment (enclosing : Statement) {n : Node}
    (hkind : n.kind = .assignmentExpression) :
    Assignment.allOccurrences enclosing (searchNode source n).value =
        (readExpr source {} n).value.occurrences enclosing ∧
      Assignment.allLiterals (searchNode source n).value = (readExpr source {} n).value.literals ∧
        (searchNode source n).docs = (readExpr source {} n).docs := by
  rw [searchNode, if_pos hkind, Documented.value_bind, Documented.docs_bind, readExpr_eq,
    Node.unwrapped_of_kind (by simp [hkind]), readBare_eq]
  cases n.shape with
  | name h | this h => simp [hkind] at h
  | member object property h => simp [(Node.plainMember?_eq_some h).1] at hkind
  | call callee args h => simp [(Node.plainCall?_eq_some h).1] at hkind
  | function h => simp [hkind, Node.isPlainFunction, Kind.isFunctionLiteral] at h
  | assign =>
    simp [Shape.read, Assignment.allOccurrences, Assignment.allLiterals, Expr.occurrences,
      Expr.literals]
  | other => simp [Shape.read, Expr.occurrences, Expr.literals]

section

variable {source}
variable {p : Position} {ps : List Position} {occurrences : List Occurrence}
  {literals : List FunctionLiteral} {docs : List (Nat × Doc.Info)}

theorem Yields.step (h : Yields source p occurrences literals docs) :
    Splits source p.assignment?.toList p.literal?.toList p.next occurrences literals docs := by
  cases h with
  | expression info enclosing n =>
    rw [readExpr_eq, readBare_eq]
    exact n.unwrapped.shape.step source info enclosing
  | argument enclosing n =>
    refine .of_yieldsAll source ?_
    rw [readArgument, Position.next]
    split
    · split
      · rename_i inner _
        have h : YieldsAll source [.expression inner] _ _ _ :=
          .singleton (.expression {} enclosing inner)
        simpa [Expr.occurrences, Expr.literals] using h
      · have h : YieldsAll source (n.children.map .search) _ _ _ := .searches enclosing n.children
        simpa [Expr.occurrences, Expr.literals] using h
    · exact .singleton (.expression {} enclosing n)
  | search enclosing n =>
    refine .of_yieldsAll source ?_
    rw [Position.next]
    split
    · rename_i hkind
      obtain ⟨hoccurrences, hliterals, hdocs⟩ := searchNode_of_assignment source enclosing hkind
      rw [hoccurrences, hliterals, hdocs]
      exact .singleton (.expression {} enclosing n)
    · rename_i hkind
      rw [searchNode, if_neg hkind]
      exact .searches enclosing n.children
  | statement info enclosing n =>
    rw [readForm_eq]
    exact .of_yieldsAll source (n.statementShape.step source info enclosing)

/-! ## Whole readings -/

/-- The assignments and the function literals are those that stand at the positions. -/
def StandAt (source : ByteArray) (ps : List Position) (occurrences : List Occurrence)
    (literals : List FunctionLiteral) : Prop :=
  Become source (ps.filterMap Position.assignment?) (ps.filterMap Position.literal?) occurrences
    literals

theorem StandAt.append {qs : List Position} {moreOccurrences : List Occurrence}
    {moreLiterals : List FunctionLiteral} (h : StandAt source ps occurrences literals)
    (hmore : StandAt source qs moreOccurrences moreLiterals) :
    StandAt source (ps ++ qs) (occurrences ++ moreOccurrences) (literals ++ moreLiterals) where
  keys := by rw [map_append, h.keys, hmore.keys, ← map_append, filterMap_append]
  literals := by
    rw [filterMap_append]
    exact rel_append h.literals hmore.literals

theorem YieldsAll.standAt (h : YieldsAll source ps occurrences literals docs)
    (hps : ∀ p ∈ ps, ∀ occurrences literals docs, Yields source p occurrences literals docs →
      StandAt source p.reached occurrences literals) :
    StandAt source (ps.reverse.flatMap Position.reached) occurrences literals := by
  induction h with
  | nil => exact ⟨rfl, .nil⟩
  | cons hp _ _ ih =>
    obtain ⟨hhead, htail⟩ := forall_mem_cons.mp hps
    rw [reverse_cons, flatMap_append, flatMap_singleton]
    exact (ih htail).append (hhead _ _ _ hp)

/-- What reading yields is what stands where it comes to, in this order. -/
theorem Yields.standAt (h : Yields source p occurrences literals docs) :
    StandAt source p.reached occurrences literals := by
  induction p using Position.induction generalizing occurrences literals docs with
  | step p ih =>
    cases h.step with
    | @intro own _ ownLiterals _ _ hown hmore =>
      have hrest := hmore.standAt fun q hq occurrences literals docs hyields => ih q hq hyields
      have hhere : StandAt source [p] own ownLiterals := by
        unfold StandAt
        rwa [filterMap_eq_flatMap_toList, filterMap_eq_flatMap_toList, flatMap_singleton,
          flatMap_singleton]
      rw [Position.reached_eq, ← singleton_append]
      exact hhere.append hrest

theorem YieldsAll.notes (h : YieldsAll source ps occurrences literals docs)
    (hps : ∀ p ∈ ps, ∀ occurrences literals docs, Yields source p occurrences literals docs →
      ∀ note ∈ docs, ∃ m ∈ p.nodes, m.id = note.1) :
    ∀ note ∈ docs, ∃ p ∈ ps, ∃ m ∈ p.node.nodes, m.id = note.1 := by
  induction h with
  | nil => exact forall_mem_nil _
  | @cons p ps _ _ _ _ docs notes _ hp hnotes _ ih =>
    obtain ⟨hhead, htail⟩ := forall_mem_cons.mp hps
    intro note hnote
    rcases mem_append.mp hnote with hnote | hnote
    · refine ⟨p, mem_cons_self, ?_⟩
      rcases mem_append.mp hnote with hnote | hnote
      · obtain ⟨m, hm, hid⟩ := hhead _ _ _ hp note hnote
        exact ⟨m, p.nodes_subset m hm, hid⟩
      · exact ⟨p.node, p.node.self_mem_nodes, (hnotes note hnote).symm⟩
    · obtain ⟨q, hq, hfound⟩ := ih htail note hnote
      exact ⟨q, mem_cons_of_mem _ hq, hfound⟩

/-- Nothing is noted but about the nodes that a position is about. -/
theorem Yields.notes (h : Yields source p occurrences literals docs) :
    ∀ note ∈ docs, ∃ m ∈ p.nodes, m.id = note.1 := by
  induction p using Position.induction generalizing occurrences literals docs with
  | step p ih =>
    cases h.step with
    | intro _ hmore =>
      intro note hnote
      obtain ⟨q, hq, m, hm, hid⟩ := hmore.notes
        (fun q hq occurrences literals docs hyields => ih q hq hyields) note hnote
      exact ⟨m, Position.mem_nodes_trans (Position.next_spec hq).1 hm, hid⟩

end

end Syntax

end OverrideElision
