import OverrideElision.Tree.Program

/-! # Forwarding overrides

A method forwards when its body is a single call of the method of the same name on a superclass
reference, with `this` and then its own parameters, in order and unchanged. -/

namespace OverrideElision

/-- A call `reference.method.call(this, args...)`, and whether its value is returned. -/
structure ForwardingCall where
  reference : SuperReference
  method : String
  args : List Expr
  returned : Bool

/-- The superclass reference and the arguments after `this` of a call of `method` by way of
`call`. -/
def Expr.superCall? (method : String) : Expr → Option (SuperReference × List Expr)
  | .call (.member (.member object property) caller) (.this :: args) =>
    if caller = "call" ∧ property = method then object.superReference?.map (·, args) else none
  | _ => none

namespace MethodDefinition

/-- The superclass call that is all of the method's body, bare or returned. -/
def forwardingCall? (definition : MethodDefinition) : Option ForwardingCall :=
  let method := definition.member.name
  match definition.body with
  | [⟨_, _, .expr e⟩] =>
    (e.superCall? method).map fun (reference, args) => ⟨reference, method, args, false⟩
  | [⟨_, _, .ret (some e)⟩] =>
    (e.superCall? method).map fun (reference, args) => ⟨reference, method, args, true⟩
  | _ => none

end MethodDefinition

/-- The argument passes the parameter on: by its name, spread out again when the parameter is
written with `...`. -/
def Param.isPassedBy (param : Param) : Expr → Bool
  | .name text => !param.spread && text == param.name
  | .spread (.name text) => param.spread && text == param.name
  | _ => false

/-- The arguments are the parameters, in order and unchanged, and only the last parameter takes
several arguments. -/
def ForwardingCall.forwardsExactly (call : ForwardingCall) (params : List Param) : Bool :=
  call.args.length == params.length &&
    (params.zip call.args).all (fun (param, arg) => param.isPassedBy arg) &&
    params.dropLast.all (·.kind ≠ .rest)

/-- The forwarding call of a method that is documented as an override and does nothing else. -/
def MethodDefinition.override? (definition : MethodDefinition) (info : Doc.Info) :
    Option ForwardingCall :=
  if info.isOverride then
    definition.forwardingCall?.filter (·.forwardsExactly definition.params)
  else none

end OverrideElision
