import OverrideElision.Forwarding
import OverrideElision.Proofs.Members

/-! # The body of a forwarding method

A method forwards when its body is one statement that can be written down from its name, its
parameters and a receiver. Reading the body back gives these data, and no other body is read. -/

namespace OverrideElision

open List

/-- The argument that passes a parameter on. -/
def Param.argument (param : Param) : Expr :=
  if param.spread then .spread (.name param.name) else .name param.name

/-- The call `reference.method.call(this, ...)` that passes on all parameters. -/
def Expr.forwardingCall (reference : Expr) (method : String) (params : List Param) : Expr :=
  .call (.member (.member reference method) "call") (.this :: params.map Param.argument)

/-- A statement that evaluates an expression, or returns it. -/
def Form.ofExpr (returned : Bool) (e : Expr) : Form :=
  if returned then .ret (some e) else .expr e

/-- The body of the literal is one statement, which forwards to `method` on a superclass
reference, and only its last parameter takes several arguments. -/
structure FunctionLiteral.Forwards (literal : FunctionLiteral) (method : String)
    (reference : SuperReference) (returned : Bool) : Prop where
  body_eq : ∃ id text, ∃ receiver : Expr, receiver.Spells reference.receiver ∧
    literal.body = [⟨id, text, .ofExpr returned (.forwardingCall
      (.member receiver (if reference.viaSuperClass then "superClass_" else "prototype"))
      method literal.params)⟩]
  rest_last : ∀ param ∈ literal.params.dropLast, param.kind ≠ .rest

/-! ## Arguments -/

theorem Param.isPassedBy_iff {param : Param} {arg : Expr} :
    param.isPassedBy arg = true ↔ arg = param.argument := by
  unfold Param.argument
  cases hspread : param.spread with
  | false =>
    cases arg with
    | name text => simp [Param.isPassedBy, hspread]
    | spread value => cases value <;> simp [Param.isPassedBy, hspread]
    | _ => simp [Param.isPassedBy]
  | true =>
    cases arg with
    | spread value => cases value <;> simp [Param.isPassedBy, hspread]
    | _ => simp [Param.isPassedBy, hspread]

theorem passes_iff {params : List Param} {args : List Expr} :
    (args.length == params.length && (params.zip args).all fun (param, arg) =>
      param.isPassedBy arg) = true ↔ args = params.map Param.argument := by
  induction params generalizing args with
  | nil => cases args <;> simp
  | cons param params ih =>
    cases args with
    | nil => simp
    | cons arg args =>
      simp only [length_cons, zip_cons_cons, all_cons, map_cons, cons.injEq, ← ih,
        ← Param.isPassedBy_iff, Bool.and_eq_true, beq_iff_eq, Nat.add_right_cancel_iff]
      tauto

theorem ForwardingCall.forwardsExactly_iff {call : ForwardingCall} {params : List Param} :
    call.forwardsExactly params = true ↔
      call.args = params.map Param.argument ∧ ∀ param ∈ params.dropLast, param.kind ≠ .rest := by
  unfold ForwardingCall.forwardsExactly
  rw [Bool.and_eq_true, passes_iff]
  simp only [all_eq_true, decide_eq_true_eq, ne_eq]

/-! ## Bodies -/

theorem Expr.superCall?_eq_some_iff {method : String} {e : Expr} {reference : SuperReference}
    {args : List Expr} :
    e.superCall? method = some (reference, args) ↔
      ∃ object : Expr, object.superReference? = some reference ∧
        e = .call (.member (.member object method) "call") (.this :: args) := by
  constructor
  · intro h
    unfold superCall? at h
    split at h
    · rename_i object property caller rest
      split at h
      · rename_i hnames
        obtain ⟨rfl, rfl⟩ := hnames
        obtain ⟨found, hfound, heq⟩ := Option.map_eq_some_iff.mp h
        obtain ⟨rfl, rfl⟩ := Prod.mk.inj heq
        exact ⟨object, hfound, rfl⟩
      · cases h
    · cases h
  · intro h
    rcases h with ⟨object, hobject, rfl⟩
    simp [superCall?, hobject]

theorem MethodDefinition.forwardingCall?_eq_some_iff {d : MethodDefinition}
    {call : ForwardingCall} :
    d.forwardingCall? = some call ↔
      call.method = d.member.name ∧ ∃ id text e,
        d.body = [⟨id, text, .ofExpr call.returned e⟩] ∧
          e.superCall? d.member.name = some (call.reference, call.args) := by
  obtain ⟨reference, method, args, returned⟩ := call
  constructor
  · intro h
    unfold forwardingCall? at h
    split at h
    · rename_i id text e hbody
      obtain ⟨⟨found, passed⟩, hfound, heq⟩ := Option.map_eq_some_iff.mp h
      cases heq
      exact ⟨rfl, id, text, e, hbody, hfound⟩
    · rename_i id text e hbody
      obtain ⟨⟨found, passed⟩, hfound, heq⟩ := Option.map_eq_some_iff.mp h
      cases heq
      exact ⟨rfl, id, text, e, hbody, hfound⟩
    · cases h
  · intro h
    rcases h with ⟨rfl, id, text, e, hbody, he⟩
    cases returned <;> simp_all [forwardingCall?, Form.ofExpr]

/-- The matcher accepts a documented override with the forwarding body, and nothing else. -/
theorem MethodDefinition.override?_eq_some_iff {d : MethodDefinition} {info : Doc.Info}
    {call : ForwardingCall} :
    d.override? info = some call ↔
      info.isOverride = true ∧ d.function.Forwards d.member.name call.reference call.returned ∧
        call.method = d.member.name ∧ call.args = d.params.map Param.argument := by
  unfold override?
  split
  · rename_i hoverride
    rw [Option.filter_eq_some_iff, forwardingCall?_eq_some_iff, ForwardingCall.forwardsExactly_iff]
    constructor
    · intro h
      rcases h with ⟨⟨hmethod, id, text, e, hbody, he⟩, hargs, hrest⟩
      obtain ⟨object, hobject, rfl⟩ := Expr.superCall?_eq_some_iff.mp he
      obtain ⟨receiver, hreceiver, rfl⟩ := Expr.superReference?_eq_some_iff.mp hobject
      rw [hargs] at hbody
      exact ⟨hoverride, ⟨⟨id, text, receiver, hreceiver, hbody⟩, hrest⟩, hmethod, hargs⟩
    · intro h
      rcases h with ⟨_, ⟨⟨id, text, receiver, hreceiver, hbody⟩, hrest⟩, hmethod, hargs⟩
      refine ⟨⟨hmethod, id, text, _, hbody, ?_⟩, hargs, hrest⟩
      rw [Expr.superCall?_eq_some_iff]
      refine ⟨_, Expr.superReference?_eq_some_iff.mpr ⟨receiver, hreceiver, rfl⟩, ?_⟩
      rw [hargs]
      rfl
  · rename_i hoverride
    constructor
    · intro h
      cases h
    · intro h
      rcases h with ⟨h, _⟩
      exact absurd h hoverride

/-! ## Nothing is assigned in a forwarding body -/

theorem Param.argument_occurrences (param : Param) (enclosing : Statement) :
    param.argument.occurrences enclosing = [] := by
  unfold argument
  split <;> simp only [Expr.occurrences]

theorem allOccurrences_arguments (params : List Param) (enclosing : Statement) :
    Expr.allOccurrences enclosing (params.map Param.argument) = [] := by
  induction params with
  | nil => simp only [map_nil, Expr.allOccurrences]
  | cons param params ih =>
    simp only [map_cons, Expr.allOccurrences, ih, param.argument_occurrences, append_nil]

theorem FunctionLiteral.Forwards.occurrences_eq {literal : FunctionLiteral} {method : String}
    {reference : SuperReference} {returned : Bool}
    (h : literal.Forwards method reference returned) : literal.occurrences = [] := by
  obtain ⟨⟨id, text, receiver, hreceiver, hbody⟩, _⟩ := h
  rw [FunctionLiteral.occurrences_eq, hbody]
  cases returned <;>
    simp only [Statement.allOccurrences, Statement.occurrences, Form.ofExpr, Form.occurrences,
      Expr.forwardingCall, Expr.occurrences, Expr.allOccurrences, allOccurrences_arguments,
      hreceiver.occurrences_eq, append_nil, Bool.false_eq_true, if_true, if_false]

/-- A forwarding definition holds one assignment, its own. -/
theorem Statement.Defines.occurrences_of_forwards {s : Statement} {member : Member}
    {a : Assignment} {literal : FunctionLiteral} {method : String} {reference : SuperReference}
    {returned : Bool} (h : s.Defines member a literal)
    (hforwards : literal.Forwards method reference returned) : s.occurrences = [⟨a, s⟩] := by
  rw [h.occurrences_eq, hforwards.occurrences_eq]

end OverrideElision
