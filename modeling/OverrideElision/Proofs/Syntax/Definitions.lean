import OverrideElision.Proofs.Members
import OverrideElision.Proofs.Syntax.Expressions

/-! # Where definitions come from

Every definition of a program is read from an expression statement at the top level of a source,
whose expression assigns a function literal to a class member. -/

namespace OverrideElision

open List

namespace Syntax

/-! ## Definitions as they are read -/

theorem readExpr_eq_assign {source : ByteArray} {info : Doc.Info} {n : Node} {a : Assignment}
    (h : (readExpr source info n).value = .assign a) :
    ∃ left right, n.unwrapped.assignmentSides? = some (left, right) ∧
      a = ⟨n.unwrapped.id, (readExpr source {} left).value,
        (readExpr source info right).value⟩ := by
  rw [readExpr_eq_shape] at h
  cases hshape : n.unwrapped.shape with
  | assign left right hsides =>
    rw [hshape] at h
    cases h
    exact ⟨left, right, hsides, rfl⟩
  | _ => simp [hshape, Shape.read] at h

theorem readExpr_eq_function {source : ByteArray} {info : Doc.Info} {n : Node}
    {literal : FunctionLiteral} (h : (readExpr source info n).value = .function literal) :
    n.unwrapped.isPlainFunction = true ∧
      literal = (readFunction source info n.unwrapped).value := by
  rw [readExpr_eq_shape] at h
  cases hshape : n.unwrapped.shape with
  | function hplain =>
    rw [hshape] at h
    cases h
    exact ⟨hplain, rfl⟩
  | _ => simp [hshape, Shape.read] at h

theorem readForm_eq_expr {source : ByteArray} {info : Doc.Info} {n : Node} {e : Expr}
    (h : (readForm source info n).value = .expr e) :
    n.kind = .expressionStatement ∧
      ∃ inner, n.parts = [inner] ∧ e = (readExpr source info inner).value := by
  rw [readForm_eq] at h
  cases hshape : n.statementShape with
  | expr inner hkind hparts =>
    rw [hshape] at h
    cases h
    exact ⟨hkind, inner, hparts, rfl⟩
  | _ => simp [hshape, StatementShape.read] at h

/-! ## Definitions in their sources -/

namespace SourceTree

/-- The definition is read from the code `statement`, with the comments in front of it. The
assignment that it consists of has the function literal on its right. -/
structure Defines (source : SourceTree) (d : MethodDefinition) (comments : List Node)
    (statement assignment literal : Node) : Prop where
  code : .code comments statement ∈ Group.ofNodes source.bytes source.root.children
  kind : statement.kind = .expressionStatement
  expression : ∃ e, statement.parts = [e] ∧ e.unwrapped = assignment
  sides : ∃ left right, assignment.assignmentSides? = some (left, right) ∧
    left.member? source.bytes = some d.member ∧ right.unwrapped = literal
  plain : literal.isPlainFunction = true
  id : d.assignment?.map Assignment.id = some assignment.id
  function : d.function =
    (readFunction source.bytes (Group.info source.bytes (.code comments statement)) literal).value

theorem exists_defines_of_group {source : SourceTree} {group : Group} {d : MethodDefinition}
    {a : Assignment} (hgroup : group ∈ Group.ofNodes source.bytes source.root.children)
    (hstatement : d.statement = group.statement source.bytes)
    (hdefines : d.statement.Defines d.member a d.function) :
    ∃ comments statement assignment literal,
      source.Defines d comments statement assignment literal := by
  have hform : group.form source.bytes = .expr (.assign a) := by
    have hform := hdefines.form_eq
    rwa [hstatement] at hform
  cases group with
  | remarks first more => cases hform
  | code comments n =>
    obtain ⟨hkind, e, hparts, he⟩ := readForm_eq_expr hform
    obtain ⟨left, right, hsides, ha⟩ := readExpr_eq_assign he.symm
    have hid := MethodDefinition.assignment?_of_defines hdefines
    have htarget := Expr.isMember_iff.mp hdefines.target
    have hvalue := hdefines.value_eq
    rw [ha] at hid htarget hvalue
    rw [member?_readExpr] at htarget
    obtain ⟨hplain, hfunction⟩ := readExpr_eq_function hvalue
    refine ⟨comments, n, e.unwrapped, right.unwrapped, hgroup, hkind, ⟨e, hparts, rfl⟩,
      ⟨left, right, hsides, htarget, rfl⟩, hplain, ?_, hfunction⟩
    rw [hid]
    rfl

namespace Defines

variable {source : SourceTree} {d : MethodDefinition} {comments : List Node}
  {statement assignment literal : Node}

theorem params (h : source.Defines d comments statement assignment literal) :
    d.params = literal.parameters.map
      (Node.param source.bytes (Group.info source.bytes (.code comments statement))) := by
  rw [MethodDefinition.params, h.function, params_readFunction]

theorem mem_nodes (h : source.Defines d comments statement assignment literal) :
    assignment ∈ source.root.nodes := by
  obtain ⟨e, hparts, rfl⟩ := h.expression
  have hstatement : statement ∈ source.root.children := Group.mem_of_code_mem_ofNodesAfter h.code
  have he : e ∈ statement.children := Node.mem_children_of_mem_parts (hparts ▸ mem_cons_self)
  exact Node.mem_nodes_of_child hstatement (Node.mem_nodes_of_child he e.unwrapped_mem_nodes)

theorem assignedMember?_eq (h : source.Defines d comments statement assignment literal) :
    assignment.assignedMember? source.bytes = some d.member := by
  obtain ⟨left, right, hsides, htarget, _⟩ := h.sides
  obtain ⟨hkind, hleft, _⟩ := Node.assignmentSides?_eq_some_iff.mp hsides
  rw [Node.assignedMember?, if_pos hkind, hleft, Option.bind_some, htarget]

end Defines

end SourceTree

end Syntax

namespace Program

variable {first : Nat} {sources : List Syntax.SourceTree}

/-- The statements of a program are those of its sources. -/
theorem mem_statements_ofSources {s : Statement} :
    s ∈ (Program.ofSources first sources).statements ↔
      ∃ source ∈ Syntax.SourceTree.numbered first sources, s ∈ source.statements := by
  rw [statements, flatMap_def, ofSources, Syntax.SourceTree.statements_readScripts, ← flatMap_def,
    mem_flatMap]

theorem exists_defines {d : MethodDefinition}
    (hd : d ∈ (Program.ofSources first sources).definitions) :
    ∃ source ∈ Syntax.SourceTree.numbered first sources, ∃ comments statement assignment literal,
      source.Defines d comments statement assignment literal := by
  obtain ⟨hs, a, hdefines⟩ := defines_of_mem hd
  obtain ⟨source, hsource, hs⟩ := mem_statements_ofSources.mp hs
  rw [Syntax.SourceTree.statements, Syntax.readStatements, Syntax.value_readGroups] at hs
  obtain ⟨group, hgroup, hstatement⟩ := mem_map.mp hs
  exact ⟨source, hsource,
    Syntax.SourceTree.exists_defines_of_group hgroup hstatement.symm hdefines⟩

end Program

end OverrideElision
