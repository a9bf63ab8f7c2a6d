import OverrideElision.Proofs.Signatures
import OverrideElision.Proofs.Syntax.Definitions
import OverrideElision.Proofs.Syntax.Drafts

/-! # Default values of parameters

A parameter with a default value is optional, and so must be the parameter above it. That one may
have a default value of its own, of which nothing is known, or be optional by its name or its
documentation alone. -/

namespace OverrideElision

open List

namespace Syntax

/-- The name or the documentation makes the parameter optional. -/
def OptionalByConvention (info : Doc.Info) (name : String) : Prop :=
  (∀ documented, info.param? name = some documented → documented.isRest = false) ∧
    ("opt_".toList.isPrefixOf name.toList = true ∨
      ∃ documented, info.param? name = some documented ∧ documented.isOptional = true)

theorem conventionalParam_kind_eq_optional_iff {info : Doc.Info} {name : String} :
    (conventionalParam info name).kind = .optional ↔ OptionalByConvention info name := by
  unfold conventionalParam OptionalByConvention
  generalize "opt_".toList.isPrefixOf name.toList = named
  cases info.param? name with
  | none =>
    cases named with
    | true => simp
    | false => by_cases hname : name = "var_args" <;> simp [hname]
  | some documented =>
    cases hrest : documented.isRest with
    | true => simp [hrest]
    | false =>
      cases hoptional : documented.isOptional with
      | true => simp [hrest, hoptional]
      | false =>
        cases named with
        | true => simp [hrest]
        | false => by_cases hname : name = "var_args" <;> simp [hname, hrest, hoptional]

namespace Node

/-- The parameter has a default value, or it is optional by convention. -/
def IsOptional (source : ByteArray) (info : Doc.Info) (n : Node) : Prop :=
  n.kind = .assignmentPattern ∨
    n.kind = .identifier ∧ OptionalByConvention info (n.text source)

theorem param_of_assignmentPattern {source : ByteArray} {info : Doc.Info} {n : Node}
    (h : n.kind = .assignmentPattern) :
    (n.param source info).kind = .optional ∧ (n.param source info).declared = true := by
  rw [param, h]
  exact ⟨rfl, rfl⟩

theorem param_kind_eq_optional_iff {source : ByteArray} {info : Doc.Info} {n : Node} :
    (n.param source info).kind = .optional ↔ n.IsOptional source info := by
  unfold param IsOptional
  split
  · rename_i hkind
    simp [hkind, conventionalParam_kind_eq_optional_iff]
  · rename_i hkind
    simp [hkind]
  · rename_i hkind
    simp [hkind]
  · rename_i hidentifier hpattern _
    simp only [reduceCtorEq, false_iff, not_or, not_and]
    exact ⟨hpattern, fun hkind => absurd hkind hidentifier⟩

/-- The text of the default value of a parameter. -/
def default? (source : ByteArray) (n : Node) : Option String :=
  if n.kind = .assignmentPattern then (n.field? .right).map (Node.text source) else none

end Node

/-- The definition is read from a function literal with these parameters, in a statement that is
documented like this. -/
def SourceTree.Declares (source : SourceTree) (d : MethodDefinition) (params : List Node)
    (info : Doc.Info) : Prop :=
  ∃ comments statement assignment literal,
    source.Defines d comments statement assignment literal ∧ params = literal.parameters ∧
      info = Group.info source.bytes (.code comments statement)

/-- The parameters of the function literals that the source assigns to a class member. -/
def SourceTree.assignedParameters (source : SourceTree) (member : Member) : List (List Node) :=
  (source.root.nodes.filter (·.assignedMember? source.bytes = some member)).filterMap fun n =>
    (n.field? .right).map fun right => right.unwrapped.parameters

theorem SourceTree.Declares.mem_assignedParameters {source : SourceTree} {d : MethodDefinition}
    {params : List Node} {info : Doc.Info} (h : source.Declares d params info) :
    params ∈ source.assignedParameters d.member := by
  obtain ⟨comments, statement, assignment, literal, hdefines, rfl, _⟩ := h
  obtain ⟨left, right, hsides, _, rfl⟩ := hdefines.sides
  obtain ⟨_, _, hright⟩ := Node.assignmentSides?_eq_some_iff.mp hsides
  refine mem_filterMap.mpr ⟨assignment, mem_filter.mpr ⟨hdefines.mem_nodes, ?_⟩, ?_⟩
  · simpa using hdefines.assignedMember?_eq
  · rw [hright, Option.map_some]

theorem SourceTree.Declares.params_eq {source : SourceTree} {d : MethodDefinition}
    {params : List Node} {info : Doc.Info} (h : source.Declares d params info) :
    d.params = params.map (Node.param source.bytes info) := by
  obtain ⟨comments, statement, assignment, literal, hdefines, rfl, rfl⟩ := h
  exact hdefines.params

end Syntax

open Syntax (SourceTree Node)

/-- Where the one definition gives a parameter a default value in the sources, the other one has an
optional parameter. -/
structure MethodDefinition.DefaultsWithin (d e : MethodDefinition) (sources : List SourceTree) :
    Prop where
  own : ∃ source ∈ sources, ∃ params info, source.Declares d params info
  inherited : ∃ source ∈ sources, ∃ params info, source.Declares e params info
  optional : ∀ source ∈ sources, ∀ params info, source.Declares d params info →
    ∀ source' ∈ sources, ∀ params' info', source'.Declares e params' info' →
      Forall₂ (fun own inherited => own.kind = .assignmentPattern →
        inherited.IsOptional source'.bytes info') params params'

theorem Param.Accepts.kind_eq_optional {own inherited : Param} (h : own.Accepts inherited)
    (hown : own.kind = .optional) : inherited.kind = .optional := by
  rcases h with hkind | ⟨_, hrequired, _⟩
  · exact hkind ▸ hown
  · simp [hown] at hrequired

namespace Program

variable {first : Nat} {sources : List SourceTree} {annotations : Annotations} {context : Context}

theorem exists_declares {d : MethodDefinition}
    (hd : d ∈ (Program.ofSources first sources).definitions) :
    ∃ source ∈ SourceTree.numbered first sources, ∃ params info, source.Declares d params info := by
  obtain ⟨source, hsource, comments, statement, assignment, literal, hdefines⟩ := exists_defines hd
  exact ⟨source, hsource, _, _, comments, statement, assignment, literal, hdefines, rfl, rfl⟩

/-- The definitions of a member have the default values that all functions have which the sources
assign to it. -/
theorem exists_declares_defaults {d : MethodDefinition} {texts : List (Option String)}
    (hd : d ∈ (Program.ofSources first sources).definitions)
    (h : ∀ source ∈ SourceTree.numbered first sources,
      ∀ params ∈ source.assignedParameters d.member,
        params.map (Node.default? source.bytes) = texts) :
    ∃ source ∈ SourceTree.numbered first sources, ∃ params info, source.Declares d params info ∧
      params.map (Node.default? source.bytes) = texts := by
  obtain ⟨source, hsource, params, info, hdeclares⟩ := exists_declares hd
  exact ⟨source, hsource, params, info, hdeclares,
    h source hsource params hdeclares.mem_assignedParameters⟩

theorem removed_defaultsWithin {d : MethodDefinition}
    (hd : d ∈ (context.process (Program.ofSources first sources) annotations).report.removed) :
    ∃ e, ((Program.ofSources first sources).hierarchy annotations).SuperMethod d e ∧
      d.DefaultsWithin e (SourceTree.numbered first sources) := by
  obtain ⟨e, hsuper, _⟩ := superMethod_of_removed hd
  have haccepts := accepts_of_handsOn ⟨hd, hsuper⟩
  have hmethod := hsuper
  obtain ⟨_, _, hown⟩ := hmethod
  refine ⟨e, hsuper, exists_declares (mem_definitions_of_removed hd),
    exists_declares (Hierarchy.ownMethod?_mem hown).1, ?_⟩
  intro source _ params info hd source' _ params' info' he
  rw [hd.params_eq, he.params_eq, forall₂_map_left_iff, forall₂_map_right_iff] at haccepts
  refine haccepts.imp fun own inherited haccepts hkind => ?_
  have hoptional := haccepts.kind_eq_optional (Node.param_of_assignmentPattern hkind).1
  exact Node.param_kind_eq_optional_iff.mp hoptional

end Program

/-! ## Different default values -/

namespace Override

open Syntax.Draft

/-- An override that passes on its only parameter. The method `m` of `A` has the default value
`inherited` for it, and the one of `B` the default value `own`. -/
def defaulting (inherited own : String) : List SourceTree :=
  sources [defaulted "x" (number inherited)] [defaulted "x" (number own)] [identifier "x"]

/-- Both default values are in the sources, and the override goes, whether they are equal or not. -/
theorem defaulting_removed (own : String) (h : own = "1" ∨ own = "2") :
    ∃ d ∈ removed (defaulting "1" own),
      (∃ source ∈ SourceTree.numbered 0 (defaulting "1" own), ∃ params info,
        source.Declares d params info ∧ params.map (Node.default? source.bytes) = [some own]) ∧
      ∀ e, ((Program.ofSources 0 (defaulting "1" own)).hierarchy
          (Program.ofSources 0 (defaulting "1" own)).annotations).SuperMethod d e →
        ∃ source ∈ SourceTree.numbered 0 (defaulting "1" own), ∃ params info,
          source.Declares e params info ∧ params.map (Node.default? source.bytes) = [some "1"] := by
  have hremoved :
      (removed (defaulting "1" own)).map MethodDefinition.member = [⟨"B", "m"⟩] := by
    rcases h with rfl | rfl <;> decide +kernel
  have hsuper : ((Program.ofSources 0 (defaulting "1" own)).hierarchy
      (Program.ofSources 0 (defaulting "1" own)).annotations).immediateSuper? "B" = some "A" := by
    rcases h with rfl | rfl <;> decide +kernel
  have hown : ∀ source ∈ SourceTree.numbered 0 (defaulting "1" own),
      ∀ params ∈ source.assignedParameters ⟨"B", "m"⟩,
        params.map (Node.default? source.bytes) = [some own] := by
    rcases h with rfl | rfl <;> decide +kernel
  have hinherited : ∀ source ∈ SourceTree.numbered 0 (defaulting "1" own),
      ∀ params ∈ source.assignedParameters ⟨"A", "m"⟩,
        params.map (Node.default? source.bytes) = [some "1"] := by
    rcases h with rfl | rfl <;> decide +kernel
  obtain ⟨d, hd, hmember⟩ := mem_map.mp (hremoved ▸ mem_singleton_self _)
  refine ⟨d, hd, ?_, ?_⟩
  · exact Program.exists_declares_defaults (Program.mem_definitions_of_removed hd)
      (hmember ▸ hown)
  · rintro e ⟨superclass, hextends, hmethod⟩
    rw [Hierarchy.Extends, hmember, hsuper] at hextends
    obtain rfl := Option.some.inj hextends
    obtain ⟨he, hinheritedMember⟩ := Hierarchy.ownMethod?_mem hmethod
    refine Program.exists_declares_defaults he ?_
    rw [hinheritedMember, hmember]
    exact hinherited

theorem defaulting_defaultsWithin :
    ∃ d ∈ removed (defaulting "1" "1"), ∃ e,
      d.DefaultsWithin e (SourceTree.numbered 0 (defaulting "1" "1")) ∧
        ∃ source ∈ SourceTree.numbered 0 (defaulting "1" "1"), ∃ params info,
          source.Declares d params info ∧
            params.map (Node.default? source.bytes) = [some "1"] := by
  obtain ⟨d, hd, hown, _⟩ := defaulting_removed "1" (.inl rfl)
  obtain ⟨e, _, hwithin⟩ := Program.removed_defaultsWithin hd
  exact ⟨d, hd, e, hwithin, hown⟩

/-- A call without an argument sees another value once the override is gone. -/
theorem defaulting_differs :
    ∃ d ∈ removed (defaulting "1" "2"), ∃ e,
      ((Program.ofSources 0 (defaulting "1" "2")).hierarchy
          (Program.ofSources 0 (defaulting "1" "2")).annotations).SuperMethod d e ∧
        (∃ source ∈ SourceTree.numbered 0 (defaulting "1" "2"), ∃ params info,
          source.Declares d params info ∧
            params.map (Node.default? source.bytes) = [some "2"]) ∧
        ∃ source ∈ SourceTree.numbered 0 (defaulting "1" "2"), ∃ params info,
          source.Declares e params info ∧
            params.map (Node.default? source.bytes) = [some "1"] := by
  obtain ⟨d, hd, hown, hinherited⟩ := defaulting_removed "2" (.inr rfl)
  obtain ⟨e, hsuper, _⟩ := Program.superMethod_of_removed hd
  exact ⟨d, hd, e, hsuper, hown, hinherited e hsuper⟩

end Override

end OverrideElision
