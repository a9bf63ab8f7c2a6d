import OverrideElision.Proofs.Syntax.Coverage
import OverrideElision.Proofs.Syntax.Definitions
import OverrideElision.Proofs.Verdict

/-! # Returned values

A function literal is marked as returning a value exactly when a `return` with a value belongs to
its body: on the way down to it there is no function, no class and no other `return`. A statement of
the body that returns a value is such a `return`, so that in code that was read the mark alone tells
whether a method returns something. -/

namespace OverrideElision

open List

namespace Syntax

namespace Node

/-! ## Returns that belong to a body -/

/-- The node `m` stands below `n`, with the nodes `between` on the way down to it. -/
inductive LeadsTo : Node → List Node → Node → Prop where
  | child {n m : Node} : m ∈ n.children → LeadsTo n [] m
  | step {n c m : Node} {between : List Node} :
      c ∈ n.children → LeadsTo c between m → LeadsTo n (c :: between) m

/-- A `return` with something to return. -/
def IsValueReturn (n : Node) : Prop :=
  n.kind = .returnStatement ∧ ∃ c ∈ n.children, c.named = true ∧ c.kind ≠ .comment

/-- What is below the node belongs to it: to a function, a class or another `return`. -/
def Encloses (n : Node) : Prop :=
  n.kind.opensReturnScope = true ∨ n.kind = .returnStatement

/-- A `return` with a value stands below the node and belongs to nothing in between. -/
def HoldsReturn (n : Node) : Prop :=
  ∃ between r, n.LeadsTo between r ∧ r.IsValueReturn ∧ ∀ m ∈ between, ¬ m.Encloses

theorem holdsReturn_iff {n : Node} :
    n.HoldsReturn ↔ ∃ c ∈ n.children, c.IsValueReturn ∨ ¬ c.Encloses ∧ c.HoldsReturn := by
  constructor
  · rintro ⟨between, r, hpath, hreturn, hfree⟩
    cases hpath with
    | child hr => exact ⟨r, hr, .inl hreturn⟩
    | step hc hpath =>
      obtain ⟨hfirst, hfree⟩ := forall_mem_cons.mp hfree
      exact ⟨_, hc, .inr ⟨hfirst, _, r, hpath, hreturn, hfree⟩⟩
  · rintro ⟨c, hc, hreturn | ⟨hfirst, between, r, hpath, hreturn, hfree⟩⟩
    · exact ⟨[], c, .child hc, hreturn, forall_mem_nil _⟩
    · exact ⟨c :: between, r, .step hc hpath, hreturn, forall_mem_cons.mpr ⟨hfirst, hfree⟩⟩

/-- The search looks at a node as the definition of a `return` that belongs to it does. -/
theorem returns_iff (n : Node) :
    n.returns = true ↔ n.IsValueReturn ∨ ¬ n.Encloses ∧ n.HoldsReturn := by
  rw [returns_eq]
  by_cases hscope : n.kind.opensReturnScope = true
  · have hkind : n.kind ≠ .returnStatement := by
      intro hkind
      rw [hkind] at hscope
      cases hscope
    simp [hscope, IsValueReturn, Encloses, hkind]
  · by_cases hkind : n.kind = .returnStatement
    · simp [IsValueReturn, Encloses, hkind, Kind.opensReturnScope]
    · have hchildren : n.children.any returns = true ↔ n.HoldsReturn := by
        rw [any_eq_true, holdsReturn_iff]
        refine exists_congr fun c => and_congr_right fun hc => ?_
        have := size_lt_of_mem hc
        exact c.returns_iff
      simp [IsValueReturn, Encloses, hscope, hkind, hchildren]
termination_by n.size

theorem anyReturns_iff (body : Node) : anyReturns body.children = true ↔ body.HoldsReturn := by
  rw [anyReturns_eq_any, any_eq_true, holdsReturn_iff]
  exact exists_congr fun c => and_congr_right fun _ => c.returns_iff

end Node

/-! ## Statements that return a value -/

theorem readForm_eq_ret {source : ByteArray} {info : Doc.Info} {n : Node} {value : Expr}
    (h : (readForm source info n).value = .ret (some value)) : n.IsValueReturn := by
  rw [readForm_eq_cases] at h
  split at h
  · split at h <;> cases h
  · split at h
    · rename_i hkind
      split at h
      · cases h
      · rename_i e hparts
        have he : e ∈ n.parts := hparts ▸ mem_cons_self
        obtain ⟨hnamed, hcomment⟩ := mem_filter.mp he
        obtain ⟨hchild, hnamed⟩ := mem_filter.mp hnamed
        exact ⟨hkind, e, hchild, hnamed, of_decide_eq_true hcomment⟩
      · cases h
    · split at h <;> cases h

/-- A statement of a block that returns a value is a `return` right below the block. -/
theorem holdsReturn_of_mem_readStatements {source : ByteArray} {body : Node} {s : Statement}
    {value : Expr} (hs : s ∈ (readStatements source body.children).value)
    (hform : s.form = .ret (some value)) : body.HoldsReturn := by
  rw [readStatements, value_readGroups] at hs
  obtain ⟨group, hgroup, rfl⟩ := mem_map.mp hs
  cases group with
  | remarks first more => cases hform
  | code comments n =>
    have hn : n ∈ body.children := Group.mem_of_code_mem_ofNodesAfter hgroup
    exact Node.holdsReturn_iff.mpr ⟨n, hn, .inl (readForm_eq_ret hform)⟩

end Syntax

/-! ## The mark of a function literal -/

/-- The literal that a node is read as is marked by the `return`s that belong to its body, and by
any statement of its body that returns a value. -/
structure FunctionLiteral.MarksReturns (literal : FunctionLiteral) (n : Syntax.Node) : Prop where
  mark : literal.returnsValue = true ↔ ∃ body, n.field? .body = some body ∧ body.HoldsReturn
  statements : (∃ s ∈ literal.body, ∃ value, s.form = .ret (some value)) →
    literal.returnsValue = true

theorem Syntax.readFunction_marksReturns (source : ByteArray) (info : Doc.Info) (n : Node) :
    (readFunction source info n).value.MarksReturns n := by
  rw [readFunction_eq]
  cases hbody : n.field? .body with
  | none =>
    refine ⟨by simp [hbody], ?_⟩
    rintro ⟨s, hs, -⟩
    cases hs
  | some body =>
    have hmark : Node.anyReturns body.children = true ↔
        ∃ body', n.field? .body = some body' ∧ body'.HoldsReturn := by
      simp [hbody, Node.anyReturns_iff]
    refine ⟨hmark, ?_⟩
    rintro ⟨s, hs, value, hform⟩
    exact (Node.anyReturns_iff body).mpr (holdsReturn_of_mem_readStatements hs hform)

theorem Statement.mem_allLiterals {ss : List Statement} {literal : FunctionLiteral} :
    literal ∈ Statement.allLiterals ss ↔ ∃ s ∈ ss, literal ∈ s.literals := by
  induction ss with
  | nil => simp [Statement.allLiterals]
  | cons s ss ih => rw [Statement.allLiterals, mem_append, ih, exists_mem_cons_iff, or_comm]

/-- Every function literal of a source is what one of its nodes is read as. -/
theorem Syntax.SourceTree.exists_becomes {source : SourceTree} {s : Statement}
    {literal : FunctionLiteral} (hs : s ∈ source.statements) (hliteral : literal ∈ s.literals) :
    ∃ n ∈ source.root.nodes, n.Becomes source.bytes literal := by
  obtain ⟨_, hliterals⟩ := source.yieldsAll_positions.standAt fun _ _ _ _ _ hq => hq.standAt
  have hmem : literal ∈ Statement.allLiterals source.statements :=
    Statement.mem_allLiterals.mpr ⟨s, hs, hliteral⟩
  obtain ⟨i, hi, rfl⟩ := getElem_of_mem hmem
  have hlength := hliterals.length_eq
  have hbecomes := hliterals.get (hlength ▸ hi) hi
  obtain ⟨q, hq, hn⟩ := mem_filterMap.mp (getElem_mem (hlength ▸ hi))
  obtain ⟨e, rfl, hunwrapped, _⟩ := Position.literal?_eq_some_iff.mp hn
  refine ⟨_, ?_, hbecomes⟩
  rw [get_eq_getElem, ← hunwrapped]
  exact Node.mem_nodes_trans (SourceTree.node_mem_nodes_of_reached hq) e.unwrapped_mem_nodes

/-! ## Programs that were read -/

namespace Program

/-- The function literals at any depth of a program. -/
def literals (program : Program) : List FunctionLiteral :=
  program.statements.flatMap Statement.literals

/-- Every function literal of the program is marked by the `return`s of the node that it was read
from, and the mark of a method tells all that its statements would tell. -/
structure MarksReturns (program : Program) (sources : List Syntax.SourceTree) : Prop where
  literals : ∀ literal ∈ program.literals, ∃ source ∈ sources, ∃ n ∈ source.root.nodes,
    n.Becomes source.bytes literal ∧ literal.MarksReturns n
  definitions : ∀ d ∈ program.definitions, ∀ annotations : Annotations,
    d.returnsValue annotations = true ↔
      (annotations.info d.statement).hasReturn = true ∨ d.function.returnsValue = true

variable {first : Nat} {sources : List Syntax.SourceTree}

theorem exists_marksReturns {literal : FunctionLiteral}
    (h : literal ∈ (Program.ofSources first sources).literals) :
    ∃ source ∈ Syntax.SourceTree.numbered first sources, ∃ n ∈ source.root.nodes,
      n.Becomes source.bytes literal ∧ literal.MarksReturns n := by
  obtain ⟨s, hs, hliteral⟩ := mem_flatMap.mp h
  obtain ⟨source, hsource, hs⟩ := mem_statements_ofSources.mp hs
  obtain ⟨n, hn, hbecomes⟩ := source.exists_becomes hs hliteral
  obtain ⟨info, hread⟩ := hbecomes
  refine ⟨source, hsource, n, hn, ⟨info, hread⟩, ?_⟩
  rw [hread]
  exact Syntax.readFunction_marksReturns source.bytes info n

/-- A method that was read gives a value by its documentation or by its mark. -/
theorem returnsValue_iff_of_read {d : MethodDefinition}
    (hd : d ∈ (Program.ofSources first sources).definitions) (annotations : Annotations) :
    d.returnsValue annotations = true ↔
      (annotations.info d.statement).hasReturn = true ∨ d.function.returnsValue = true := by
  obtain ⟨source, _, comments, statement, assignment, literal, hdefines⟩ := exists_defines hd
  have hmarks := Syntax.readFunction_marksReturns source.bytes
    (Syntax.Group.info source.bytes (.code comments statement)) literal
  rw [← hdefines.function] at hmarks
  rw [MethodDefinition.returnsValue_iff, Annotations.Returns]
  exact or_congr_right (or_iff_left_of_imp hmarks.statements)

end Program

/-- The marks of function literals are exact: for every node that is read as a literal, and for all
literals and methods of a program that was read. -/
theorem Program.ofSources_marksReturns (first : Nat) (sources : List Syntax.SourceTree) :
    (∀ bytes info n, (Syntax.readFunction bytes info n).value.MarksReturns n) ∧
      (Program.ofSources first sources).MarksReturns (Syntax.SourceTree.numbered first sources) :=
  ⟨Syntax.readFunction_marksReturns, fun _ h => exists_marksReturns h,
    fun _ hd annotations => returnsValue_iff_of_read hd annotations⟩

/-! ## Returns at different depths -/

namespace Override

open Syntax.Draft

/-- A conditional statement. -/
def conditional (body : List Syntax.Draft) : Syntax.Draft :=
  .node none (.other "if_statement")
    [token "if ", parenthesized (identifier "x"),
      .node none .statementBlock ([token "\x7b"] ++ body ++ [token "\x7d"])]

/-- A `return` with a value. -/
def returning (value : Syntax.Draft) : Syntax.Draft :=
  .node none .returnStatement [token "return ", value, token ";"]

/-- Two methods, of which the first returns a value below a condition, and the second only from a
function inside it. -/
def returnsBelow : List Syntax.SourceTree :=
  [source "a.js"
    [statement (assignment (classMember "A" "m") (function [] [conditional [returning this]])),
      statement (assignment (classMember "A" "n")
        (function [] [statement (call (function [] [returning this]) [])]))]]

theorem returnsBelow_marksReturns :
    (Program.ofSources 0 returnsBelow).MarksReturns (Syntax.SourceTree.numbered 0 returnsBelow) ∧
      (Program.ofSources 0 returnsBelow).definitions.map
        (fun d => (d.member.name, d.function.returnsValue)) = [("m", true), ("n", false)] := by
  refine ⟨(Program.ofSources_marksReturns 0 returnsBelow).2, ?_⟩
  decide +kernel

end Override

end OverrideElision
