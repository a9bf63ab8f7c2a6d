import Mathlib.Data.List.Basic
import OverrideElision.Tree.Walk

/-! # The stack of a walk

Whatever the stack holds, a walk finds of it what the recursion over the tree finds, part by part
from the top: a part before what is below it, and of several parts the last one first. -/

namespace OverrideElision

open List

/-! ## Lists of parts -/

theorem Expr.allOccurrences_eq_flatMap (enclosing : Statement) (es : List Expr) :
    Expr.allOccurrences enclosing es = es.reverse.flatMap (·.occurrences enclosing) := by
  induction es with
  | nil => simp [Expr.allOccurrences]
  | cons e es ih => simp [Expr.allOccurrences, ih]

theorem Assignment.allOccurrences_eq_flatMap (enclosing : Statement) (as : List Assignment) :
    Assignment.allOccurrences enclosing as = as.reverse.flatMap (·.occurrences enclosing) := by
  induction as with
  | nil => simp [Assignment.allOccurrences]
  | cons a as ih => simp [Assignment.allOccurrences, ih]

theorem Statement.allOccurrences_eq_flatMap (ss : List Statement) :
    Statement.allOccurrences ss = ss.reverse.flatMap Statement.occurrences := by
  induction ss with
  | nil => simp [Statement.allOccurrences]
  | cons s ss ih => simp [Statement.allOccurrences, ih]

/-! ## Parts below a part -/

/-- The parts directly below a part, in the order in which they are written. -/
def Part.children : Part → List Part
  | .statement s =>
    match s.form with
    | .expr e => [.expr e]
    | .ret value => value.toList.map .expr
    | .decl _ _ value => value.toList.map .expr
    | .other assignments => assignments.map fun a => .expr (.assign a)
  | .expr e =>
    match e with
    | .name _ => []
    | .this => []
    | .member object _ => [.expr object]
    | .call callee args => .expr callee :: args.map .expr
    | .spread value => [.expr value]
    | .assign a => [.expr a.target, .expr a.value]
    | .function literal => literal.body.map .statement
    | .other _ assignments => assignments.map fun a => .expr (.assign a)

namespace Visit

/-- The visit of a part below: a statement encloses what is in it, and any other part is enclosed
by what encloses the part above. -/
def enter (visit : Visit) (part : Part) : Visit :=
  ⟨part, match part with | .statement s => s | .expr _ => visit.enclosing⟩

/-- A statement waits together with itself: nothing further out encloses what is found in it. -/
def IsProper (visit : Visit) : Prop :=
  ∀ s, visit.part = .statement s → visit.enclosing = s

theorem isProper_enter (visit : Visit) (part : Part) : (visit.enter part).IsProper := by
  rintro s rfl
  rfl

/-- What a visit leaves on the stack are the parts below. -/
theorem IsProper.next_eq {visit : Visit} (h : visit.IsProper) :
    visit.next = visit.part.children.map visit.enter := by
  obtain ⟨part, enclosing⟩ := visit
  cases part with
  | statement s =>
    obtain rfl : enclosing = s := h s rfl
    simp only [next, Part.children]
    cases enclosing.form <;> simp [enter]
  | expr e => cases e <;> simp [next, Part.children, enter]

theorem IsProper.of_mem_next {visit below : Visit} (h : visit.IsProper)
    (hbelow : below ∈ visit.next) : below.IsProper := by
  rw [h.next_eq] at hbelow
  obtain ⟨part, _, rfl⟩ := mem_map.mp hbelow
  exact visit.isProper_enter part

/-! ## The stack and the recursion -/

/-- The assignments at or below the part that is to be visited. -/
def occurrences : Visit → List Occurrence
  | ⟨.statement s, _⟩ => s.occurrences
  | ⟨.expr e, enclosing⟩ => e.occurrences enclosing

/-- A visit finds its own occurrence before those in the parts below, the last part first. -/
theorem IsProper.occurrences_eq {visit : Visit} (h : visit.IsProper) :
    visit.occurrences =
      visit.found ++ visit.part.children.reverse.flatMap fun part =>
        (visit.enter part).occurrences := by
  obtain ⟨part, enclosing⟩ := visit
  cases part with
  | statement s =>
    obtain rfl : enclosing = s := h s rfl
    simp only [occurrences, found, Part.children, nil_append, Statement.occurrences_eq enclosing]
    cases enclosing.form with
    | expr e => simp [Form.occurrences, enter]
    | ret value => cases value <;> simp [Form.occurrences, enter]
    | decl keyword name value => cases value <;> simp [Form.occurrences, enter]
    | other assignments =>
      simp [Form.occurrences, Assignment.allOccurrences_eq_flatMap, ← map_reverse, flatMap_map,
        enter, Expr.occurrences]
  | expr e =>
    cases e with
    | name text => simp [found, Part.children, occurrences, Expr.occurrences]
    | this => simp [found, Part.children, occurrences, Expr.occurrences]
    | member object property => simp [found, Part.children, occurrences, enter, Expr.occurrences]
    | call callee args =>
      simp [found, Part.children, occurrences, enter, Expr.occurrences,
        Expr.allOccurrences_eq_flatMap, ← map_reverse, flatMap_map]
    | spread value => simp [found, Part.children, occurrences, enter, Expr.occurrences]
    | assign a =>
      simp [found, Part.children, occurrences, enter, Expr.occurrences,
        Assignment.occurrences_eq enclosing a]
    | function literal =>
      simp [found, Part.children, occurrences, enter, Expr.occurrences,
        FunctionLiteral.occurrences_eq, Statement.allOccurrences_eq_flatMap, ← map_reverse,
        flatMap_map]
    | other text assignments =>
      simp [found, Part.children, occurrences, enter, Expr.occurrences,
        Assignment.allOccurrences_eq_flatMap, ← map_reverse, flatMap_map]

/-- Of what is on the stack, the walk finds the occurrences, one visit after the other. -/
theorem walk_eq_flatMap {stack : List Visit} (h : ∀ visit ∈ stack, visit.IsProper) :
    walk stack = stack.flatMap occurrences := by
  induction stack using walk.induct with
  | case1 => simp [walk]
  | case2 visit stack ih =>
    have hvisit : visit.IsProper := h visit mem_cons_self
    have hbelow : ∀ below ∈ visit.next.reverse ++ stack, below.IsProper := by
      intro below hmem
      rcases mem_append.mp hmem with hmem | hmem
      · exact hvisit.of_mem_next (mem_reverse.mp hmem)
      · exact h below (mem_cons_of_mem visit hmem)
    rw [walk, ih hbelow, flatMap_append, flatMap_cons, hvisit.occurrences_eq, hvisit.next_eq,
      ← map_reverse, flatMap_map, append_assoc]

end Visit

/-- A walk through a statement finds its occurrences. -/
theorem Statement.walk_eq_occurrences (s : Statement) : s.walk = s.occurrences := by
  have hproper : ∀ visit ∈ [(⟨.statement s, s⟩ : Visit)], visit.IsProper := by
    intro visit hmem
    rw [mem_singleton.mp hmem]
    exact Visit.isProper_enter ⟨.statement s, s⟩ (.statement s)
  rw [walk, Visit.walk_eq_flatMap hproper, flatMap_singleton]
  rfl

-- The body of `f = function() { x = this; y = this; };`, the last statement first.
example : (Statement.walk ⟨1, "", .expr (.assign ⟨2, .name "f", .function ⟨[],
    [⟨3, "", .expr (.assign ⟨4, .name "x", .this⟩)⟩,
      ⟨5, "", .expr (.assign ⟨6, .name "y", .this⟩)⟩], none, false⟩⟩)⟩).map
        (fun o => (o.assignment.id, o.enclosing.id)) =
      [(2, 1), (6, 5), (4, 3)] := by
  cbv

end OverrideElision
