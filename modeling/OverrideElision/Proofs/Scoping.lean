import OverrideElision.Proofs.Removal

/-! # What a forwarding body passes on

The body of a method is read with the scoping of JavaScript: an identifier denotes the last of the
parameters of its name, or else the function itself when that has the name, and is global otherwise.
A forwarding body is written with the names of its parameters. Whether it passes on the arguments of
a call, to the class that it names, is then a question of which names are bound twice. -/

namespace OverrideElision

open List

variable {α : Type}

/-- A value of a run: an array, or anything else. -/
inductive Value (α : Type) where
  | atom (a : α)
  | array (items : List (Value α))

/-- What an identifier denotes in the body of a function. -/
inductive Referent (α : Type) where
  | parameter (value : Value α)
  | itself
  | global (name : String)

/-- The parameters of a function with their values during a call, and the name that the function
gives itself. -/
structure Frame (α : Type) where
  bindings : List (String × Value α)
  ownName : Option String

namespace Frame

/-- What an identifier denotes. A parameter hides those of its name before it. -/
def referent (frame : Frame α) (name : String) : Referent α :=
  match frame.bindings.reverse.lookup name with
  | some value => .parameter value
  | none => if frame.ownName = some name then .itself else .global name

/-- The values that an argument stands for: that of a parameter, or those in the array that a
parameter holds. Of other arguments nothing is known. -/
def argument? (frame : Frame α) : Expr → Option (List (Value α))
  | .name text =>
    match frame.referent text with
    | .parameter value => some [value]
    | _ => none
  | .spread (.name text) =>
    match frame.referent text with
    | .parameter (.array items) => some items
    | _ => none
  | _ => none

/-- The values that a list of arguments stands for. -/
def arguments? (frame : Frame α) : List Expr → Option (List (Value α))
  | [] => some []
  | arg :: rest => do return (← frame.argument? arg) ++ (← frame.arguments? rest)

end Frame

/-- One argument for each parameter, and any number for a last one that is written with `...`. -/
inductive Fits : List Param → List (Value α) → Prop where
  | nil : Fits [] []
  | cons {params : List Param} {args : List (Value α)} (param : Param) (arg : Value α) :
      Fits params args → Fits (param :: params) (arg :: args)
  | rest {param : Param} (args : List (Value α)) : param.spread = true → Fits [param] args

/-- What a parameter holds that takes one argument. -/
def Param.holding (param : Param) (arg : Value α) : Value α :=
  if param.spread then .array [arg] else arg

/-- The parameters with what they hold in a call. A last one that is written with `...` takes all
the arguments that are left. -/
def Param.bindAll : List Param → List (Value α) → List (String × Value α)
  | [], _ => []
  | param :: params, args =>
    if params = [] ∧ param.spread = true then [(param.name, .array args)]
    else match args with
      | [] => []
      | arg :: args => (param.name, param.holding arg) :: Param.bindAll params args

namespace MethodDefinition

/-- What is in scope in the body of a method that is called with these arguments. -/
def frame (d : MethodDefinition) (args : List (Value α)) : Frame α :=
  ⟨Param.bindAll d.params args, d.function.name⟩

end MethodDefinition

/-- The identifier that a chain of property reads and calls starts with. -/
def Expr.root? : Expr → Option String
  | .name text => some text
  | .member object _ => object.root?
  | .call callee _ => callee.root?
  | _ => none

namespace MethodDefinition

/-- The identifier that the body of a method starts with when it is one expression, bare or
returned. -/
def root? (d : MethodDefinition) : Option String :=
  match d.body with
  | [⟨_, _, .expr e⟩] => e.root?
  | [⟨_, _, .ret (some e)⟩] => e.root?
  | _ => none

/-- Whatever the method is called with, its body calls a method of a global class, with exactly the
arguments that it was given. -/
structure PassesOn (α : Type) (d : MethodDefinition) (call : ForwardingCall) : Prop where
  arguments : ∀ args : List (Value α), Fits d.params args →
    (d.frame args).arguments? call.args = some args
  receiver : ∀ args : List (Value α), Fits d.params args →
    ∃ root, d.root? = some root ∧ (d.frame args).referent root = .global root

end MethodDefinition

/-! ## Parameters and their values -/

theorem Fits.of_length_eq {params : List Param} {args : List (Value α)}
    (h : args.length = params.length) : Fits params args := by
  induction params generalizing args with
  | nil =>
    obtain rfl := length_eq_zero_iff.mp h
    exact .nil
  | cons param params ih =>
    cases args with
    | nil => cases h
    | cons arg args => exact .cons param arg (ih (by simpa using h))

theorem Param.bindAll_cons {params : List Param} {args : List (Value α)} (h : Fits params args)
    (param : Param) (arg : Value α) :
    Param.bindAll (param :: params) (arg :: args) =
      (param.name, param.holding arg) :: Param.bindAll params args := by
  rw [Param.bindAll]
  split
  · rename_i hlast
    obtain ⟨rfl, hspread⟩ := hlast
    cases h
    simp [Param.holding, hspread, Param.bindAll]
  · rfl

theorem Param.bindAll_rest {param : Param} (h : param.spread = true) (args : List (Value α)) :
    Param.bindAll [param] args = [(param.name, .array args)] := by
  rw [Param.bindAll.eq_def]
  exact if_pos ⟨rfl, h⟩

theorem Fits.names_bindAll {params : List Param} {args : List (Value α)} (h : Fits params args) :
    (Param.bindAll params args).map Prod.fst = params.map Param.name := by
  induction h with
  | nil => rfl
  | cons param arg hfits ih => rw [Param.bindAll_cons hfits, map_cons, map_cons, ih]
  | rest args hspread => rw [Param.bindAll_rest hspread]; rfl

theorem Param.bindAll_append {front back : List Param} {before after : List (Value α)}
    (hfront : before.length = front.length) (hback : after.length = back.length) :
    Param.bindAll (front ++ back) (before ++ after) =
      Param.bindAll front before ++ Param.bindAll back after := by
  induction front generalizing before with
  | nil =>
    obtain rfl := length_eq_zero_iff.mp hfront
    rfl
  | cons param front ih =>
    cases before with
    | nil => cases hfront
    | cons arg before =>
      have hlength : before.length = front.length := by simpa using hfront
      rw [cons_append, cons_append, Param.bindAll_cons (.of_length_eq (by simp [hlength, hback])),
        Param.bindAll_cons (.of_length_eq hlength), ih hlength, cons_append]

/-! ## What identifiers denote -/

namespace Frame

theorem referent_of_mem {frame : Frame α} (hnodup : (frame.bindings.map Prod.fst).Nodup)
    {name : String} {value : Value α} (h : (name, value) ∈ frame.bindings) :
    frame.referent name = .parameter value := by
  have hreverse : (frame.bindings.reverse.map Prod.fst).Nodup := by
    rw [map_reverse]
    exact nodup_reverse.mpr hnodup
  let table : Table String (Value α) := ⟨frame.bindings.reverse, hreverse⟩
  have hlookup : table.get? name = some value := Table.mem_entries_iff.mp (mem_reverse.mpr h)
  rw [Table.get?] at hlookup
  rw [referent, hlookup]

theorem lookup_eq_none_iff_not_mem {bindings : List (String × Value α)} {name : String} :
    bindings.lookup name = none ↔ ¬ name ∈ bindings.map Prod.fst := by
  rw [lookup_eq_none_iff]
  simp only [mem_map, not_exists, not_and, bne_iff_ne, ne_eq]
  exact forall_congr' fun entry => forall_congr' fun _ => not_congr eq_comm

theorem referent_eq_global_iff {frame : Frame α} {name : String} :
    frame.referent name = .global name ↔
      ¬ name ∈ frame.bindings.map Prod.fst ∧ frame.ownName ≠ some name := by
  have hlookup : frame.bindings.reverse.lookup name = none ↔
      ¬ name ∈ frame.bindings.map Prod.fst := by
    rw [lookup_eq_none_iff_not_mem, map_reverse, mem_reverse]
  unfold referent
  rw [← hlookup]
  cases frame.bindings.reverse.lookup name with
  | some value => simp
  | none => by_cases hown : frame.ownName = some name <;> simp [hown]

/-- Arguments depend on nothing but what the identifiers in them denote. -/
theorem arguments?_congr {frame other : Frame α} (h : frame.referent = other.referent)
    (args : List Expr) : frame.arguments? args = other.arguments? args := by
  have hargument (e : Expr) : frame.argument? e = other.argument? e := by
    unfold argument?
    rw [h]
  induction args with
  | nil => rfl
  | cons arg rest ih => rw [arguments?, arguments?, hargument, ih]

/-- The value of a parameter makes no difference when a later one hides it. -/
theorem referent_hidden {after : List (String × Value α)} {name : String}
    (h : name ∈ after.map Prod.fst) (v w : Value α) (before : List (String × Value α))
    (ownName : Option String) :
    (⟨before ++ (name, v) :: after, ownName⟩ : Frame α).referent =
      (⟨before ++ (name, w) :: after, ownName⟩ : Frame α).referent := by
  funext other
  have hlookup : (before ++ (name, v) :: after).reverse.lookup other =
      (before ++ (name, w) :: after).reverse.lookup other := by
    simp only [reverse_append, reverse_cons, append_assoc, lookup_append, singleton_append]
    by_cases hother : other = name
    · subst hother
      have hsome : after.reverse.lookup other ≠ none := by
        rwa [Ne, lookup_eq_none_iff_not_mem, not_not, map_reverse, mem_reverse]
      obtain ⟨value, hvalue⟩ := Option.ne_none_iff_exists'.mp hsome
      simp [hvalue]
    · simp [lookup_cons, beq_false_of_ne hother]
  unfold referent
  rw [hlookup]

end Frame

/-! ## Names bound once -/

/-- The induction is along a part of the parameters of the frame, of which it is only needed that it
gives each parameter in this part its value. -/
theorem Fits.arguments?_eq {params : List Param} {args : List (Value α)} (h : Fits params args)
    {frame : Frame α}
    (hvalues : ∀ entry ∈ Param.bindAll params args, frame.referent entry.1 = .parameter entry.2) :
    frame.arguments? (params.map Param.argument) = some args := by
  induction h with
  | nil => rfl
  | @cons params args param arg hfits ih =>
    rw [Param.bindAll_cons hfits] at hvalues
    obtain ⟨hvalue, hrest⟩ := forall_mem_cons.mp hvalues
    have harg : frame.argument? param.argument = some [arg] := by
      unfold Param.holding at hvalue
      unfold Param.argument
      cases hspread : param.spread with
      | false =>
        rw [hspread] at hvalue
        simp [Frame.argument?, hvalue]
      | true =>
        rw [hspread] at hvalue
        simp [Frame.argument?, hvalue]
    rw [map_cons, Frame.arguments?, harg, ih hrest]
    rfl
  | @rest param args hspread =>
    rw [Param.bindAll_rest hspread] at hvalues
    have hvalue : frame.referent param.name = .parameter (.array args) :=
      hvalues _ mem_cons_self
    have harg : frame.argument? param.argument = some args := by
      simp [Param.argument, hspread, Frame.argument?, hvalue]
    rw [map_cons, Frame.arguments?, harg]
    simp [Frame.arguments?]

/-! ## Names bound twice -/

theorem exists_repeated {names : List String} (h : ¬ names.Nodup) :
    ∃ before name after, names = before ++ name :: after ∧ name ∈ after := by
  induction names with
  | nil => exact absurd .nil h
  | cons name names ih =>
    by_cases hmem : name ∈ names
    · exact ⟨[], name, names, rfl, hmem⟩
    · obtain ⟨before, again, after, rfl, hafter⟩ :=
        ih fun hnodup => h (nodup_cons.mpr ⟨hmem, hnodup⟩)
      exact ⟨name :: before, again, after, rfl, hafter⟩

/-- Two argument lists that differ only where a later parameter hides an earlier one look the same
from within the body, so that not both can be passed on. -/
theorem nodup_of_arguments? {params : List Param} {ownName : Option String} {args : List Expr}
    (h : ∀ values : List (Value α), Fits params values →
      (⟨Param.bindAll params values, ownName⟩ : Frame α).arguments? args = some values) :
    (params.map Param.name).Nodup := by
  by_contra hnodup
  obtain ⟨before, name, after, hnames, hafter⟩ := exists_repeated hnodup
  obtain ⟨front, tail, rfl, rfl, htail⟩ := map_eq_append_iff.mp hnames
  obtain ⟨param, back, rfl, rfl, rfl⟩ := map_eq_cons_iff.mp htail
  obtain ⟨fill, hfill⟩ : ∃ fill : Nat → List (Value α), ∀ n, (fill n).length = n :=
    ⟨(replicate · (.array [])), fun n => length_replicate⟩
  have hback : Fits back (fill back.length) := .of_length_eq (hfill _)
  have hpassed (v : Value α) : (⟨Param.bindAll front (fill front.length) ++
      (param.name, param.holding v) :: Param.bindAll back (fill back.length), ownName⟩ :
        Frame α).arguments? args = some (fill front.length ++ v :: fill back.length) := by
    rw [← Param.bindAll_cons hback, ← Param.bindAll_append (hfill _) (by simp [hfill])]
    exact h _ (.of_length_eq (by simp [hfill]))
  have hhidden : param.name ∈ (Param.bindAll back (fill back.length)).map Prod.fst := by
    rwa [hback.names_bindAll]
  have hreferents := Frame.referent_hidden hhidden (param.holding (.array []))
    (param.holding (.array [.array []])) (Param.bindAll front (fill front.length)) ownName
  have hsame := Frame.arguments?_congr hreferents args
  rw [hpassed, hpassed] at hsame
  simp at hsame

/-! ## Matched overrides -/

theorem Expr.Spells.exists_root {e : Expr} {path : String} (h : e.Spells path) :
    ∃ root, e.root? = some root := by
  induction h with
  | name text => exact ⟨text, rfl⟩
  | member _ _ ih => exact ih

theorem FunctionLiteral.Forwards.exists_root {d : MethodDefinition} {method : String}
    {reference : SuperReference} {returned : Bool}
    (h : d.function.Forwards method reference returned) : ∃ root, d.root? = some root := by
  obtain ⟨id, text, receiver, hreceiver, hbody⟩ := h.body_eq
  obtain ⟨root, hroot⟩ := hreceiver.exists_root
  refine ⟨root, ?_⟩
  unfold MethodDefinition.root? MethodDefinition.body
  rw [hbody]
  cases returned <;> exact hroot

namespace MethodDefinition

theorem PassesOn.root_free {d : MethodDefinition} {call : ForwardingCall}
    (h : d.PassesOn α call) {root : String} (hroot : d.root? = some root) :
    ¬ root ∈ d.params.map Param.name ∧ d.function.name ≠ some root := by
  have hfits : Fits d.params (replicate d.params.length (.array (α := α) [])) :=
    .of_length_eq length_replicate
  obtain ⟨found, hfound, hglobal⟩ := h.receiver _ hfits
  obtain rfl : root = found := Option.some.inj (hroot.symm.trans hfound)
  rw [Frame.referent_eq_global_iff, frame, hfits.names_bindAll] at hglobal
  exact hglobal

/-- A matched override passes its arguments on, whatever they are, to the global class that it
names, exactly when no two parameters have one name and neither a parameter nor the function itself
has the name that its superclass reference starts with. -/
theorem passesOn_iff {d : MethodDefinition} {info : Doc.Info} {call : ForwardingCall}
    (h : d.override? info = some call) :
    d.PassesOn α call ↔ (d.params.map Param.name).Nodup ∧
      ∀ root ∈ d.root?, ¬ root ∈ d.params.map Param.name ∧ d.function.name ≠ some root := by
  obtain ⟨_, hforwards, _, hargs⟩ := override?_eq_some_iff.mp h
  constructor
  · intro hpasses
    exact ⟨nodup_of_arguments? hpasses.arguments, fun root hroot => hpasses.root_free hroot⟩
  · intro hnames
    obtain ⟨hnodup, hroots⟩ := hnames
    refine ⟨fun args hfits => ?_, fun args hfits => ?_⟩
    · have hbound : ((d.frame args).bindings.map Prod.fst).Nodup := by
        rwa [frame, hfits.names_bindAll]
      rw [hargs]
      exact hfits.arguments?_eq fun entry hentry => Frame.referent_of_mem hbound hentry
    · obtain ⟨root, hroot⟩ := hforwards.exists_root
      refine ⟨root, hroot, ?_⟩
      rw [Frame.referent_eq_global_iff, frame, hfits.names_bindAll]
      exact hroots root hroot

end MethodDefinition

namespace Chain

/-- `B.prototype.m = function ownName(params) { return B.superClass_.m.call(this, params); };` -/
def forwarder (ownName : Option String) (params : List Param) : MethodDefinition :=
  let call := Expr.forwardingCall (.member (.name "B") "superClass_") "m" params
  let literal := ⟨params, [⟨1, "", .ret (some call)⟩], ownName, true⟩
  ⟨⟨"B", "m"⟩, literal, ⟨0, "", .expr (.assign ⟨0, .member (prototype "B") "m",
    .function literal⟩)⟩, 0, "a.js"⟩

/-- `B.prototype.m` as `function own(x, ...more)`. -/
def variadic : MethodDefinition :=
  forwarder (some "own")
    [{ name := "x" }, { name := "more", kind := .rest, spread := true, declared := true }]

theorem variadic_passesOn :
    ∃ call, variadic.override? { isOverride := true } = some call ∧
      variadic.PassesOn Nat call := by
  have hmatched : (variadic.override? { isOverride := true }).isSome = true := by decide
  obtain ⟨call, hcall⟩ := Option.isSome_iff_exists.mp hmatched
  exact ⟨call, hcall, (MethodDefinition.passesOn_iff hcall).mpr (by decide)⟩

/-- `B.prototype.m` as `function(x, x)`. -/
def repeated : MethodDefinition := forwarder none [{ name := "x" }, { name := "x" }]

/-- `B.prototype.m` as `function(B)`. -/
def capturing : MethodDefinition := forwarder none [{ name := "B" }]

/-- `B.prototype.m` as `function B(x)`. -/
def selfNamed : MethodDefinition := forwarder (some "B") [{ name := "x" }]

/-- All three are matched. The first passes its second argument on twice, and the others do not call
the class `B`. -/
theorem matched_not_passesOn :
    (∃ call, repeated.override? { isOverride := true } = some call ∧
        ¬ repeated.PassesOn Nat call) ∧
      (∃ call, capturing.override? { isOverride := true } = some call ∧
        ¬ capturing.PassesOn Nat call) ∧
      ∃ call, selfNamed.override? { isOverride := true } = some call ∧
        ¬ selfNamed.PassesOn Nat call := by
  have hrepeated : (repeated.override? { isOverride := true }).isSome = true := by decide
  have hcapturing : (capturing.override? { isOverride := true }).isSome = true := by decide
  have hselfNamed : (selfNamed.override? { isOverride := true }).isSome = true := by decide
  obtain ⟨first, hfirst⟩ := Option.isSome_iff_exists.mp hrepeated
  obtain ⟨second, hsecond⟩ := Option.isSome_iff_exists.mp hcapturing
  obtain ⟨third, hthird⟩ := Option.isSome_iff_exists.mp hselfNamed
  refine ⟨⟨first, hfirst, fun hpasses => ?_⟩, ⟨second, hsecond, fun hpasses => ?_⟩,
    third, hthird, fun hpasses => ?_⟩
  · exact absurd (nodup_of_arguments? hpasses.arguments) (by decide)
  · obtain ⟨hparams, _⟩ := hpasses.root_free rfl
    exact absurd hparams (by decide)
  · obtain ⟨_, hown⟩ := hpasses.root_free rfl
    exact absurd hown (by decide)

end Chain

end OverrideElision
