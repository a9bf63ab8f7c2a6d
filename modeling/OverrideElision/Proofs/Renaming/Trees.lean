import Mathlib.Data.List.Basic
import OverrideElision.Tree.Occurrence
import OverrideElision.Tree.Reference
import OverrideElision.Tree.Source

/-! # Trees with other identities

Statements and assignments get other identities, and nothing else about their trees changes: not
their text, nor what they refer to, nor the assignments in them. -/

namespace OverrideElision

open List

/-! ## Trees -/

mutual

/-- The expression with other identities in it. -/
def Expr.renamed (f : Nat → Nat) : Expr → Expr
  | .name text => .name text
  | .this => .this
  | .member object property => .member (object.renamed f) property
  | .call callee args => .call (callee.renamed f) (Expr.renamedAll f args)
  | .spread value => .spread (value.renamed f)
  | .assign assignment => .assign (assignment.renamed f)
  | .function literal => .function (literal.renamed f)
  | .other text assignments => .other text (Assignment.renamedAll f assignments)

/-- The expressions with other identities in them. -/
def Expr.renamedAll (f : Nat → Nat) : List Expr → List Expr
  | [] => []
  | e :: es => e.renamed f :: Expr.renamedAll f es

/-- The assignment with other identities in it. -/
def Assignment.renamed (f : Nat → Nat) : Assignment → Assignment
  | ⟨id, target, value⟩ => ⟨f id, target.renamed f, value.renamed f⟩

/-- The assignments with other identities in them. -/
def Assignment.renamedAll (f : Nat → Nat) : List Assignment → List Assignment
  | [] => []
  | a :: as => a.renamed f :: Assignment.renamedAll f as

/-- The function literal with other identities in it. -/
def FunctionLiteral.renamed (f : Nat → Nat) : FunctionLiteral → FunctionLiteral
  | ⟨params, body, name, returnsValue⟩ => ⟨params, Statement.renamedAll f body, name, returnsValue⟩

/-- The statement with other identities in it. -/
def Statement.renamed (f : Nat → Nat) : Statement → Statement
  | ⟨id, text, form⟩ => ⟨f id, text, form.renamed f⟩

/-- The statements with other identities in them. -/
def Statement.renamedAll (f : Nat → Nat) : List Statement → List Statement
  | [] => []
  | s :: ss => s.renamed f :: Statement.renamedAll f ss

/-- The form with other identities in it. -/
def Form.renamed (f : Nat → Nat) : Form → Form
  | .expr e => .expr (e.renamed f)
  | .ret none => .ret none
  | .ret (some e) => .ret (some (e.renamed f))
  | .decl keyword name none => .decl keyword name none
  | .decl keyword name (some e) => .decl keyword name (some (e.renamed f))
  | .other assignments => .other (Assignment.renamedAll f assignments)

end

section

variable (f : Nat → Nat)

theorem Expr.renamedAll_eq_map (es : List Expr) : renamedAll f es = es.map (renamed f) := by
  induction es with
  | nil => rfl
  | cons e es ih => rw [renamedAll, ih, map_cons]

theorem Assignment.renamedAll_eq_map (as : List Assignment) :
    renamedAll f as = as.map (renamed f) := by
  induction as with
  | nil => rfl
  | cons a as ih => rw [renamedAll, ih, map_cons]

theorem Statement.renamedAll_eq_map (ss : List Statement) :
    renamedAll f ss = ss.map (renamed f) := by
  induction ss with
  | nil => rfl
  | cons s ss ih => rw [renamedAll, ih, map_cons]

@[simp]
theorem Statement.id_renamed (s : Statement) : (s.renamed f).id = f s.id := by
  cases s
  rfl

@[simp]
theorem Statement.form_renamed (s : Statement) : (s.renamed f).form = s.form.renamed f := by
  cases s
  rfl

@[simp]
theorem Assignment.id_renamed (a : Assignment) : (a.renamed f).id = f a.id := by
  cases a
  rfl

@[simp]
theorem Assignment.target_renamed (a : Assignment) :
    (a.renamed f).target = a.target.renamed f := by
  cases a
  rfl

@[simp]
theorem Assignment.value_renamed (a : Assignment) : (a.renamed f).value = a.value.renamed f := by
  cases a
  rfl

@[simp]
theorem FunctionLiteral.params_renamed (l : FunctionLiteral) : (l.renamed f).params = l.params := by
  cases l
  rfl

@[simp]
theorem FunctionLiteral.body_renamed (l : FunctionLiteral) :
    (l.renamed f).body = l.body.map (Statement.renamed f) := by
  cases l
  exact Statement.renamedAll_eq_map ..

@[simp]
theorem FunctionLiteral.returnsValue_renamed (l : FunctionLiteral) :
    (l.renamed f).returnsValue = l.returnsValue := by
  cases l
  rfl

mutual

theorem Expr.renamed_id : (e : Expr) → e.renamed id = e
  | .name _ | .this => rfl
  | .member object _ => by simp only [Expr.renamed, Expr.renamed_id object]
  | .call callee args => by
    simp only [Expr.renamed, Expr.renamed_id callee, Expr.renamedAll_id args]
  | .spread value => by simp only [Expr.renamed, Expr.renamed_id value]
  | .assign a => by simp only [Expr.renamed, Assignment.renamed_id a]
  | .function literal => by simp only [Expr.renamed, FunctionLiteral.renamed_id literal]
  | .other _ as => by simp only [Expr.renamed, Assignment.renamedAll_id as]

theorem Expr.renamedAll_id : (es : List Expr) → Expr.renamedAll id es = es
  | [] => rfl
  | e :: es => by simp only [Expr.renamedAll, Expr.renamed_id e, Expr.renamedAll_id es]

theorem Assignment.renamed_id : (a : Assignment) → a.renamed id = a
  | ⟨_, target, value⟩ => by
    simp only [Assignment.renamed, Expr.renamed_id target, Expr.renamed_id value, id_eq]

theorem Assignment.renamedAll_id : (as : List Assignment) → Assignment.renamedAll id as = as
  | [] => rfl
  | a :: as => by
    simp only [Assignment.renamedAll, Assignment.renamed_id a, Assignment.renamedAll_id as]

theorem FunctionLiteral.renamed_id : (l : FunctionLiteral) → l.renamed id = l
  | ⟨_, body, _, _⟩ => by simp only [FunctionLiteral.renamed, Statement.renamedAll_id body]

theorem Statement.renamed_id : (s : Statement) → s.renamed id = s
  | ⟨_, _, form⟩ => by simp only [Statement.renamed, Form.renamed_id form, id_eq]

theorem Statement.renamedAll_id : (ss : List Statement) → Statement.renamedAll id ss = ss
  | [] => rfl
  | s :: ss => by
    simp only [Statement.renamedAll, Statement.renamed_id s, Statement.renamedAll_id ss]

theorem Form.renamed_id : (form : Form) → form.renamed id = form
  | .expr e => by simp only [Form.renamed, Expr.renamed_id e]
  | .ret none => rfl
  | .ret (some e) => by simp only [Form.renamed, Expr.renamed_id e]
  | .decl _ _ none => rfl
  | .decl _ _ (some e) => by simp only [Form.renamed, Expr.renamed_id e]
  | .other as => by simp only [Form.renamed, Assignment.renamedAll_id as]

end

/-! ## Text -/

mutual

theorem Expr.source_renamed : (e : Expr) → (e.renamed f).source = e.source
  | .name _ | .this => rfl
  | .member object _ => by simp only [Expr.renamed, Expr.source, Expr.source_renamed object]
  | .call callee args => by
    simp only [Expr.renamed, Expr.source, Expr.source_renamed callee, Expr.sources_renamedAll args]
  | .spread value => by simp only [Expr.renamed, Expr.source, Expr.source_renamed value]
  | .assign a => by simp only [Expr.renamed, Expr.source, Assignment.source_renamed a]
  | .function literal => by
    simp only [Expr.renamed, Expr.source, FunctionLiteral.source_renamed literal]
  | .other _ _ => rfl

theorem Expr.sources_renamedAll :
    (es : List Expr) → Expr.sources (Expr.renamedAll f es) = Expr.sources es
  | [] => rfl
  | e :: es => by
    simp only [Expr.renamedAll, Expr.sources, Expr.source_renamed e, Expr.sources_renamedAll es]

theorem Assignment.source_renamed : (a : Assignment) → (a.renamed f).source = a.source
  | ⟨_, target, value⟩ => by
    simp only [Assignment.renamed, Assignment.source, Expr.source_renamed target,
      Expr.source_renamed value]

theorem FunctionLiteral.source_renamed : (l : FunctionLiteral) → (l.renamed f).source = l.source
  | ⟨_, body, _, _⟩ => by
    simp only [FunctionLiteral.renamed, FunctionLiteral.source, Statement.sources_renamedAll body]

theorem Statement.source_renamed : (s : Statement) → (s.renamed f).source = s.source
  | ⟨_, _, form⟩ => by
    simp only [Statement.renamed, Statement.source, Form.source_renamed form]

theorem Statement.sources_renamedAll :
    (ss : List Statement) → Statement.sources (Statement.renamedAll f ss) = Statement.sources ss
  | [] => rfl
  | s :: ss => by
    simp only [Statement.renamedAll, Statement.sources, Statement.source_renamed s,
      Statement.sources_renamedAll ss]

theorem Form.source_renamed : (form : Form) → (form.renamed f).source = form.source
  | .expr e => by simp only [Form.renamed, Form.source, Expr.source_renamed e]
  | .ret none => rfl
  | .ret (some e) => by simp only [Form.renamed, Form.source, Expr.source_renamed e]
  | .decl _ _ none => rfl
  | .decl _ _ (some e) => by simp only [Form.renamed, Form.source, Expr.source_renamed e]
  | .other _ => rfl

end

/-! ## Names -/

@[simp]
theorem Expr.path?_renamed : (e : Expr) → (e.renamed f).path? = e.path?
  | .name _ | .this | .call .. | .spread _ | .assign _ | .function _ | .other .. => rfl
  | .member object _ => by rw [renamed, path?, path?, path?_renamed object]

@[simp]
theorem Expr.qualifiedName?_renamed (e : Expr) :
    (e.renamed f).qualifiedName? = e.qualifiedName? := by
  rw [qualifiedName?, qualifiedName?, path?_renamed]

@[simp]
theorem Expr.member?_renamed (e : Expr) : (e.renamed f).member? = e.member? := by
  cases e with
  | member object method =>
    cases object with
    | member owner property => simp [renamed, member?]
    | _ => rfl
  | _ => rfl

@[simp]
theorem Expr.superReference?_renamed (e : Expr) :
    (e.renamed f).superReference? = e.superReference? := by
  cases e with
  | member object property => simp [renamed, superReference?]
  | _ => rfl

theorem Expr.ownerOf?_renamed (property : String) (e : Expr) :
    (e.renamed f).ownerOf? property = e.ownerOf? property := by
  cases e with
  | member object read => simp [renamed, ownerOf?]
  | _ => rfl

/-! ## Assignments -/

/-- The occurrence with other identities in it. -/
def Occurrence.renamed (o : Occurrence) : Occurrence :=
  ⟨o.assignment.renamed f, o.enclosing.renamed f⟩

mutual

theorem Expr.occurrences_renamed (s : Statement) :
    (e : Expr) → (e.renamed f).occurrences (s.renamed f) =
      (e.occurrences s).map (Occurrence.renamed f)
  | .name _ | .this => by simp only [Expr.renamed, Expr.occurrences, map_nil]
  | .member object _ => by
    simp only [Expr.renamed, Expr.occurrences, Expr.occurrences_renamed s object]
  | .call callee args => by
    simp only [Expr.renamed, Expr.occurrences, Expr.occurrences_renamed s callee,
      Expr.allOccurrences_renamedAll s args, map_append]
  | .spread value => by
    simp only [Expr.renamed, Expr.occurrences, Expr.occurrences_renamed s value]
  | .assign a => by
    simp only [Expr.renamed, Expr.occurrences, Assignment.occurrences_renamed s a]
  | .function literal => by
    simp only [Expr.renamed, Expr.occurrences, FunctionLiteral.occurrences_renamed literal]
  | .other _ as => by
    simp only [Expr.renamed, Expr.occurrences, Assignment.allOccurrences_renamedAll s as]

theorem Expr.allOccurrences_renamedAll (s : Statement) :
    (es : List Expr) → Expr.allOccurrences (s.renamed f) (Expr.renamedAll f es) =
      (Expr.allOccurrences s es).map (Occurrence.renamed f)
  | [] => by simp only [Expr.renamedAll, Expr.allOccurrences, map_nil]
  | e :: es => by
    simp only [Expr.renamedAll, Expr.allOccurrences, Expr.occurrences_renamed s e,
      Expr.allOccurrences_renamedAll s es, map_append]

theorem Assignment.occurrences_renamed (s : Statement) :
    (a : Assignment) → (a.renamed f).occurrences (s.renamed f) =
      (a.occurrences s).map (Occurrence.renamed f)
  | ⟨_, target, value⟩ => by
    simp only [Assignment.renamed, Assignment.occurrences, Expr.occurrences_renamed s target,
      Expr.occurrences_renamed s value, map_cons, map_append, Occurrence.renamed]

theorem Assignment.allOccurrences_renamedAll (s : Statement) :
    (as : List Assignment) → Assignment.allOccurrences (s.renamed f) (Assignment.renamedAll f as) =
      (Assignment.allOccurrences s as).map (Occurrence.renamed f)
  | [] => by simp only [Assignment.renamedAll, Assignment.allOccurrences, map_nil]
  | a :: as => by
    simp only [Assignment.renamedAll, Assignment.allOccurrences,
      Assignment.occurrences_renamed s a, Assignment.allOccurrences_renamedAll s as, map_append]

theorem FunctionLiteral.occurrences_renamed :
    (l : FunctionLiteral) → (l.renamed f).occurrences = l.occurrences.map (Occurrence.renamed f)
  | ⟨_, body, _, _⟩ => by
    simp only [FunctionLiteral.renamed, FunctionLiteral.occurrences,
      Statement.allOccurrences_renamedAll body]

theorem Statement.occurrences_renamed :
    (s : Statement) → (s.renamed f).occurrences = s.occurrences.map (Occurrence.renamed f)
  | ⟨id, text, form⟩ => by
    have hform := Form.occurrences_renamed ⟨id, text, form⟩ form
    rw [Statement.renamed] at hform
    simp only [Statement.renamed, Statement.occurrences, hform]

theorem Statement.allOccurrences_renamedAll :
    (ss : List Statement) → Statement.allOccurrences (Statement.renamedAll f ss) =
      (Statement.allOccurrences ss).map (Occurrence.renamed f)
  | [] => by simp only [Statement.renamedAll, Statement.allOccurrences, map_nil]
  | s :: ss => by
    simp only [Statement.renamedAll, Statement.allOccurrences, Statement.occurrences_renamed s,
      Statement.allOccurrences_renamedAll ss, map_append]

theorem Form.occurrences_renamed (s : Statement) :
    (form : Form) → (form.renamed f).occurrences (s.renamed f) =
      (form.occurrences s).map (Occurrence.renamed f)
  | .expr e | .ret (some e) | .decl _ _ (some e) => by
    simp only [Form.renamed, Form.occurrences, Expr.occurrences_renamed s e]
  | .ret none | .decl _ _ none => by simp only [Form.renamed, Form.occurrences, map_nil]
  | .other as => by
    simp only [Form.renamed, Form.occurrences, Assignment.allOccurrences_renamedAll s as]

end

end

end OverrideElision
