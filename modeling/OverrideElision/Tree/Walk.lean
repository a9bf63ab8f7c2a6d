import OverrideElision.Tree.Occurrence

/-! # Walking a statement with a stack

The assignments at or below a statement, gathered with a stack of the parts that are still to be
visited. Each of them waits together with the statement that encloses what is found in it. -/

namespace OverrideElision

/-- A part of a program tree. -/
inductive Part where
  | statement (s : Statement)
  | expr (e : Expr)

/-- The size of a part. -/
noncomputable def Part.size : Part → Nat
  | .statement s => sizeOf s
  | .expr e => sizeOf e

/-- A part that waits to be visited, and the statement that encloses it. -/
structure Visit where
  part : Part
  enclosing : Statement

namespace Visit

/-- The occurrence that is found when the part is visited, if it is an assignment. -/
def found : Visit → List Occurrence
  | ⟨.expr (.assign a), enclosing⟩ => [⟨a, enclosing⟩]
  | _ => []

/-- What is to be visited next, in the order in which it is put on the stack. -/
def next : Visit → List Visit
  | ⟨.statement s, enclosing⟩ =>
    match s.form with
    | .expr e => [⟨.expr e, s⟩]
    | .ret value => value.toList.map (⟨.expr ·, s⟩)
    | .decl _ _ value => value.toList.map (⟨.expr ·, s⟩)
    | .other assignments => assignments.map fun a => ⟨.expr (.assign a), enclosing⟩
  | ⟨.expr e, enclosing⟩ =>
    match e with
    | .name _ => []
    | .this => []
    | .member object _ => [⟨.expr object, enclosing⟩]
    | .call callee args => ⟨.expr callee, enclosing⟩ :: args.map (⟨.expr ·, enclosing⟩)
    | .spread value => [⟨.expr value, enclosing⟩]
    | .assign a => [⟨.expr a.target, enclosing⟩, ⟨.expr a.value, enclosing⟩]
    | .function literal => literal.body.map fun s => ⟨.statement s, s⟩
    | .other _ assignments => assignments.map fun a => ⟨.expr (.assign a), enclosing⟩

/-! ## Size of a stack -/

/-- The size of the part. -/
noncomputable def size (visit : Visit) : Nat := visit.part.size

/-- The size of all that is on a stack. -/
noncomputable def sizeAll : List Visit → Nat
  | [] => 0
  | visit :: stack => visit.size + sizeAll stack

theorem sizeAll_append (stack stack' : List Visit) :
    sizeAll (stack ++ stack') = sizeAll stack + sizeAll stack' := by
  induction stack with
  | nil => simp [sizeAll]
  | cons visit stack ih => simp [sizeAll, ih, Nat.add_assoc]

theorem sizeAll_reverse (stack : List Visit) : sizeAll stack.reverse = sizeAll stack := by
  induction stack with
  | nil => rfl
  | cons visit stack ih => simp [sizeAll, sizeAll_append, ih, Nat.add_comm]

theorem size_le_sizeAll {visit : Visit} {stack : List Visit} (h : visit ∈ stack) :
    visit.size ≤ sizeAll stack := by
  induction stack with
  | nil => cases h
  | cons first stack ih =>
    simp only [sizeAll]
    cases h with
    | head => exact Nat.le_add_right ..
    | tail _ h => exact Nat.le_trans (ih h) (Nat.le_add_left ..)

/-- Parts listed in a tree are smaller than the list. -/
theorem sizeAll_map_lt {α : Type} [SizeOf α] (visit : α → Visit) (xs : List α)
    (h : ∀ x, (visit x).size ≤ sizeOf x + 1) : sizeAll (xs.map visit) < sizeOf xs := by
  induction xs with
  | nil => simp [sizeAll]
  | cons x xs ih =>
    have hx := h x
    simp only [List.map_cons, sizeAll, List.cons.sizeOf_spec]
    omega

theorem sizeAll_assignments_lt (assignments : List Assignment) (enclosing : Statement) :
    sizeAll (assignments.map fun a => ⟨.expr (.assign a), enclosing⟩) < sizeOf assignments :=
  sizeAll_map_lt _ assignments fun a => Nat.le_of_eq (Nat.add_comm 1 (sizeOf a))

theorem sizeAll_singleton (visit : Visit) : sizeAll [visit] = visit.size := by
  rw [sizeAll, sizeAll, Nat.add_zero]

theorem sizeAll_value_lt (value : Option Expr) (enclosing : Statement) :
    sizeAll (value.toList.map (⟨.expr ·, enclosing⟩)) < sizeOf value := by
  cases value with
  | none => exact Nat.one_pos
  | some e =>
    rw [Option.toList, List.map_cons, List.map_nil, sizeAll_singleton, Option.some.sizeOf_spec]
    exact Nat.lt_add_of_pos_left Nat.one_pos

theorem sizeAll_next_lt (visit : Visit) : sizeAll visit.next < visit.size := by
  obtain ⟨part, enclosing⟩ := visit
  cases part with
  | statement s =>
    obtain ⟨id, text, form⟩ := s
    simp only [size, Part.size, next, Statement.mk.sizeOf_spec]
    cases form with
    | expr e =>
      simp only [sizeAll_singleton, size, Part.size, Form.expr.sizeOf_spec]
      omega
    | ret value =>
      have hbelow := sizeAll_value_lt value ⟨id, text, .ret value⟩
      simp only [Form.ret.sizeOf_spec]
      omega
    | decl keyword name value =>
      have hbelow := sizeAll_value_lt value ⟨id, text, .decl keyword name value⟩
      simp only [Form.decl.sizeOf_spec]
      omega
    | other assignments =>
      have hbelow := sizeAll_assignments_lt assignments enclosing
      simp only [Form.other.sizeOf_spec]
      omega
  | expr e =>
    simp only [size, Part.size, next]
    cases e with
    | name text =>
      simp only [sizeAll, Expr.name.sizeOf_spec]
      omega
    | this =>
      simp only [sizeAll, Expr.this.sizeOf_spec]
      omega
    | member object property =>
      simp only [sizeAll_singleton, size, Part.size, Expr.member.sizeOf_spec]
      omega
    | call callee args =>
      have hbelow := sizeAll_map_lt (⟨.expr ·, enclosing⟩) args fun e => Nat.le_succ _
      simp only [sizeAll, size, Part.size, Expr.call.sizeOf_spec]
      omega
    | spread value =>
      simp only [sizeAll_singleton, size, Part.size, Expr.spread.sizeOf_spec]
      omega
    | assign a =>
      obtain ⟨id, target, value⟩ := a
      simp only [sizeAll, size, Part.size, Expr.assign.sizeOf_spec, Assignment.mk.sizeOf_spec]
      omega
    | function literal =>
      obtain ⟨params, body, name, returnsValue⟩ := literal
      have hbelow := sizeAll_map_lt (fun s => ⟨.statement s, s⟩) body fun s => Nat.le_succ _
      simp only [Expr.function.sizeOf_spec, FunctionLiteral.mk.sizeOf_spec]
      omega
    | other text assignments =>
      have hbelow := sizeAll_assignments_lt assignments enclosing
      simp only [Expr.other.sizeOf_spec]
      omega

/-! ## The walk -/

/-- The occurrences found from a stack on, whose top comes first. -/
def walk : List Visit → List Occurrence
  | [] => []
  | visit :: stack => visit.found ++ walk (visit.next.reverse ++ stack)
termination_by stack => sizeAll stack
decreasing_by
  rw [sizeAll_append, sizeAll_reverse, sizeAll]
  exact Nat.add_lt_add_right visit.sizeAll_next_lt _

end Visit

/-- The assignments at or below a statement, in the order of the walk. -/
def Statement.walk (s : Statement) : List Occurrence :=
  Visit.walk [⟨.statement s, s⟩]

end OverrideElision
