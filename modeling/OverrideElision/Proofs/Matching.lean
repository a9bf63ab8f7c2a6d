import OverrideElision.Proofs.Forwarding

/-! # Writing and matching forwarding bodies

The one statement of a forwarding body can be written down from the receiver of the superclass
reference, the way in which it names the superclass, and whether the call is returned. Matching
reads exactly these data back out of the body, and no other body is matched. -/

namespace OverrideElision

/-- What a forwarding body is written from, the name of the method and its parameters apart. -/
structure Forwarder where
  receiver : Expr
  viaSuperClass : Bool
  returned : Bool

namespace Forwarder

/-- The superclass reference of the call. -/
def reference (w : Forwarder) : Expr :=
  .member w.receiver (if w.viaSuperClass then "superClass_" else "prototype")

/-- The statement that forwards to `method`. -/
def form (w : Forwarder) (method : String) (params : List Param) : Form :=
  .ofExpr w.returned (.forwardingCall w.reference method params)

/-- The call that this statement consists of, if the receiver is a dotted name. -/
def call? (w : Forwarder) (method : String) (params : List Param) : Option ForwardingCall :=
  w.receiver.qualifiedName?.map fun receiver =>
    ⟨⟨receiver, w.viaSuperClass⟩, method, params.map Param.argument, w.returned⟩

/-- The body of the method is this one statement, whatever its text. -/
def Writes (w : Forwarder) (d : MethodDefinition) : Prop :=
  d.body.map Statement.form = [w.form d.member.name d.params]

theorem call?_eq_some_iff {w : Forwarder} {method : String} {params : List Param}
    {call : ForwardingCall} :
    w.call? method params = some call ↔
      w.receiver.Spells call.reference.receiver ∧
        w.viaSuperClass = call.reference.viaSuperClass ∧ w.returned = call.returned ∧
          call.method = method ∧ call.args = params.map Param.argument := by
  obtain ⟨⟨receiver, via⟩, called, args, returned⟩ := call
  simp only [call?, Option.map_eq_some_iff, ForwardingCall.mk.injEq, SuperReference.mk.injEq,
    Expr.spells_iff]
  constructor
  · rintro ⟨name, hname, ⟨rfl, rfl⟩, rfl, rfl, rfl⟩
    exact ⟨hname, rfl, rfl, rfl, rfl⟩
  · rintro ⟨hname, rfl, rfl, rfl, rfl⟩
    exact ⟨receiver, hname, ⟨rfl, rfl⟩, rfl, rfl, rfl⟩

theorem reference_injective {w w' : Forwarder} (h : w.reference = w'.reference) :
    w.receiver = w'.receiver ∧ w.viaSuperClass = w'.viaSuperClass := by
  obtain ⟨hreceiver, hproperty⟩ := Expr.member.inj h
  refine ⟨hreceiver, ?_⟩
  cases hvia : w.viaSuperClass <;> cases hvia' : w'.viaSuperClass <;>
    simp [hvia, hvia'] at hproperty ⊢

/-- A statement is written from one receiver, in one way. -/
theorem form_injective {w w' : Forwarder} {method : String} {params : List Param}
    (h : w.form method params = w'.form method params) : w = w' := by
  have hparts : w.returned = w'.returned ∧
      Expr.forwardingCall w.reference method params =
        Expr.forwardingCall w'.reference method params := by
    unfold form Form.ofExpr at h
    cases hreturned : w.returned <;> cases hreturned' : w'.returned <;>
      simp_all
  obtain ⟨hreturned, hcall⟩ := hparts
  have hreference : w.reference = w'.reference := by
    simpa [Expr.forwardingCall] using hcall
  obtain ⟨hreceiver, hvia⟩ := reference_injective hreference
  cases w
  cases w'
  simp_all

/-- A forwarding body is one that some forwarder with a dotted name writes. -/
theorem forwards_iff {d : MethodDefinition} {reference : SuperReference} {returned : Bool} :
    d.function.Forwards d.member.name reference returned ↔
      (∀ param ∈ d.params.dropLast, param.kind ≠ .rest) ∧
        ∃ w : Forwarder, w.Writes d ∧ w.receiver.Spells reference.receiver ∧
          w.viaSuperClass = reference.viaSuperClass ∧ w.returned = returned := by
  constructor
  · intro h
    obtain ⟨id, text, receiver, hreceiver, hbody⟩ := h.body_eq
    refine ⟨h.rest_last, ⟨receiver, reference.viaSuperClass, returned⟩, ?_, hreceiver, rfl, rfl⟩
    have hbody : d.body = _ := hbody
    rw [Writes, hbody]
    rfl
  · rintro ⟨hrest, ⟨receiver, via, bare⟩, hwrites, hreceiver, rfl, rfl⟩
    obtain ⟨⟨id, text, form⟩, hbody, hform⟩ := List.map_eq_singleton_iff.mp hwrites
    refine ⟨⟨id, text, receiver, hreceiver, ?_⟩, hrest⟩
    obtain rfl : form = _ := hform
    exact hbody

end Forwarder

/-- Matching a method is undoing the writing of a forwarding body: a call is found exactly when the
body is written from its data, and any written body gives the data back that it was written from. -/
structure MethodDefinition.Matches (d : MethodDefinition) (info : Doc.Info) : Prop where
  accepts_iff : ∀ call, d.override? info = some call ↔
    info.isOverride = true ∧ (∀ param ∈ d.params.dropLast, param.kind ≠ .rest) ∧
      ∃ w : Forwarder, w.Writes d ∧ w.call? d.member.name d.params = some call
  reads_back : ∀ w : Forwarder, w.Writes d → info.isOverride = true →
    (∀ param ∈ d.params.dropLast, param.kind ≠ .rest) →
      d.override? info = w.call? d.member.name d.params
  unique : ∀ w w' : Forwarder, w.Writes d → w'.Writes d → w = w'

namespace MethodDefinition

theorem override?_iff_written {d : MethodDefinition} {info : Doc.Info} {call : ForwardingCall} :
    d.override? info = some call ↔
      info.isOverride = true ∧ (∀ param ∈ d.params.dropLast, param.kind ≠ .rest) ∧
        ∃ w : Forwarder, w.Writes d ∧ w.call? d.member.name d.params = some call := by
  rw [override?_eq_some_iff, Forwarder.forwards_iff]
  simp only [Forwarder.call?_eq_some_iff]
  constructor
  · rintro ⟨hoverride, ⟨hrest, w, hwrites, hreceiver, hvia, hreturned⟩, hmethod, hargs⟩
    exact ⟨hoverride, hrest, w, hwrites, hreceiver, hvia, hreturned, hmethod, hargs⟩
  · rintro ⟨hoverride, hrest, w, hwrites, hreceiver, hvia, hreturned, hmethod, hargs⟩
    exact ⟨hoverride, ⟨hrest, w, hwrites, hreceiver, hvia, hreturned⟩, hmethod, hargs⟩

theorem writes_unique {d : MethodDefinition} {w w' : Forwarder} (h : w.Writes d)
    (h' : w'.Writes d) : w = w' := by
  apply Forwarder.form_injective
  exact List.singleton_inj.mp (h.symm.trans h')

theorem override?_matches (d : MethodDefinition) (info : Doc.Info) : d.Matches info := by
  refine ⟨fun call => override?_iff_written, ?_, fun w w' => writes_unique⟩
  intro w hwrites hoverride hrest
  apply Option.ext
  intro call
  rw [override?_iff_written]
  constructor
  · rintro ⟨_, _, w', hwrites', hcall⟩
    rwa [writes_unique hwrites hwrites']
  · intro hcall
    exact ⟨hoverride, hrest, w, hwrites, hcall⟩

end MethodDefinition

end OverrideElision
