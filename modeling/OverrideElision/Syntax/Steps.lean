import OverrideElision.Syntax.Reading

/-! # Steps of reading

Reading as a computation that can go wrong: it asks for things that may not be there, such as the
node in a field, and it goes on by calls, of which too many can be open at a time. Steps leave the
answers to their calls open, so that what is called can be told from them alone. -/

namespace OverrideElision.Syntax

/-- Why reading stops without a result: a list is empty or does not hold just one element, something
is not present, an expression keeps no assignments, or too many calls are open. -/
inductive Fault where
  | noElement
  | notSingle
  | notPresent
  | noAssignments
  | tooDeep
deriving DecidableEq, Repr

/-- What can be called. -/
inductive Callee where
  | statements
  | statement
  | expression
  | nested
  | arguments
  | function
deriving DecidableEq, Repr

/-- A call and what it is about. The documentation of a statement is passed on as far as a function
literal that it assigns or declares. -/
inductive Call where
  | statements (nodes : List Node)
  | statement (n : Node) (info : Doc.Info)
  | expression (n : Node) (info : Option Doc.Info)
  | nested (n : Node)
  | arguments (n : Node)
  | function (n : Node) (info : Option Doc.Info)

namespace Call

/-- What a call gives. -/
@[reducible]
def Answer : Call → Type
  | .statements _ => List Statement
  | .statement _ _ => Form
  | .expression _ _ => Expr
  | .nested _ => List Assignment
  | .arguments _ => List Expr
  | .function _ _ => FunctionLiteral

/-- What is called. -/
def callee : Call → Callee
  | .statements _ => .statements
  | .statement _ _ => .statement
  | .expression _ _ => .expression
  | .nested _ => .nested
  | .arguments _ => .arguments
  | .function _ _ => .function

/-- The nodes that a call is about. -/
def nodes : Call → List Node
  | .statements nodes => nodes
  | .statement n _ | .expression n _ | .nested n | .arguments n | .function n _ => [n]

end Call

/-- Steps towards a value. On the way the documentation of statements is noted, and calls are made
whose answers tell how to go on. -/
inductive Steps (α : Type) where
  | done (value : α)
  | fail (fault : Fault)
  | note (id : Nat) (info : Doc.Info) (rest : Steps α)
  | call (c : Call) (rest : c.Answer → Steps α)

namespace Steps

variable {α β : Type}

/-- The steps, and then those that their value tells. -/
def bind : Steps α → (α → Steps β) → Steps β
  | .done value, next => next value
  | .fail fault, _ => .fail fault
  | .note id info rest, next => .note id info (rest.bind next)
  | .call c rest, next => .call c fun answer => (rest answer).bind next

instance : Monad Steps where
  pure := done
  bind := bind

/-! ## Operations that may not apply -/

/-- The first element of a list, which must not be empty. -/
def first : List α → Steps α
  | [] => fail .noElement
  | x :: _ => pure x

/-- The last element of a list, which must not be empty. -/
def last (xs : List α) : Steps α :=
  match xs.getLast? with
  | some x => pure x
  | none => fail .noElement

/-- The element of a list, which must not have another one. -/
def only : List α → Steps α
  | [x] => pure x
  | _ => fail .notSingle

/-- What is found, which must be present. -/
def present : Option α → Steps α
  | some x => pure x
  | none => fail .notPresent

/-- The assignments that an expression keeps, which must be kept as text. -/
def assignmentsIn : Expr → Steps (List Assignment)
  | .other _ assignments => pure assignments
  | _ => fail .noAssignments

/-! ## Calls -/

/-- The statements that nodes are. -/
def callStatements (nodes : List Node) : Steps (List Statement) :=
  call (.statements nodes) done

/-- What the statement at a node does. -/
def callStatement (n : Node) (info : Doc.Info) : Steps Form :=
  call (.statement n info) done

/-- The expression that a node is. -/
def callExpression (n : Node) (info : Option Doc.Info := none) : Steps Expr :=
  call (.expression n info) done

/-- The assignments below a node. -/
def callNested (n : Node) : Steps (List Assignment) :=
  call (.nested n) done

/-- The arguments in an argument list. -/
def callArguments (n : Node) : Steps (List Expr) :=
  call (.arguments n) done

/-- The function literal that a node is. -/
def callFunction (n : Node) (info : Option Doc.Info) : Steps FunctionLiteral :=
  call (.function n info) done

/-- The steps come to the call `c` when the calls before it are answered in some way. -/
def Makes (c : Call) : Steps α → Prop
  | .done _ | .fail _ => False
  | .note _ _ rest => rest.Makes c
  | .call d rest => c = d ∨ ∃ answer, (rest answer).Makes c

/-! ## Taking the steps -/

/-- A computation that notes the documentation of statements and may stop at a fault. -/
abbrev Noting := StateT (List (Nat × Doc.Info)) (Except Fault)

/-- The value that the steps come to with these answers to their calls. -/
def eval (answer : (c : Call) → Noting c.Answer) : Steps α → Noting α
  | .done value => pure value
  | .fail fault => throw fault
  | .note id info rest => do
    modify (· ++ [(id, info)])
    rest.eval answer
  | .call c rest => do (rest (← answer c)).eval answer

end Steps

end OverrideElision.Syntax
