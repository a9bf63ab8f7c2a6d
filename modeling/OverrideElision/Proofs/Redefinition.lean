import OverrideElision.Proofs.Removal
import OverrideElision.Proofs.Syntax.Coverage
import OverrideElision.Proofs.Syntax.Definitions
import OverrideElision.Proofs.Syntax.Drafts

/-! # Members that are assigned twice

A run removes a method only when its class member and the one that it overrides are assigned once
each. What counts is the source: however deep an assignment stands, it is found, unless it stands in
the parameter list of a function literal. -/

namespace OverrideElision

open List

namespace Syntax.SourceTree

/-- The assignments to the class member in the sources, at whatever depth. -/
def assignmentsTo (sources : List SourceTree) (member : Member) : List Node :=
  sources.flatMap fun source =>
    source.root.nodes.filter (·.assignedMember? source.bytes = some member)

/-- The node stands in the parameter list of a function literal of the sources. -/
def InParameters (sources : List SourceTree) (n : Node) : Prop :=
  ∃ source ∈ sources, source.root.HasInParameters n

/-- Outside the parameter lists of function literals, the node is the only assignment to the
member. -/
structure SoleAssignment (sources : List SourceTree) (member : Member) (n : Node) : Prop where
  assigns : n ∈ assignmentsTo sources member
  sole : ∀ m ∈ assignmentsTo sources member, m = n ∨ InParameters sources m

theorem mem_assignmentsTo {sources : List SourceTree} {member : Member} {n : Node} :
    n ∈ assignmentsTo sources member ↔
      ∃ source ∈ sources, n ∈ source.root.nodes ∧
        n.assignedMember? source.bytes = some member := by
  simp only [assignmentsTo, mem_flatMap, mem_filter, decide_eq_true_eq]

end Syntax.SourceTree

open Syntax (SourceTree Node)

/-- The definition is all that the sources assign to its class member, and the member of the
superclass that it overrides is assigned once, too. -/
structure MethodDefinition.Undisturbed (d : MethodDefinition) (sources : List SourceTree)
    (superclass : String) : Prop where
  own : ∃ n, d.assignment?.map Assignment.id = some n.id ∧
    SourceTree.SoleAssignment sources d.member n
  inherited : ∃ n, SourceTree.SoleAssignment sources ⟨superclass, d.member.name⟩ n

namespace Program

variable {first : Nat} {sources : List SourceTree} {annotations : Annotations} {context : Context}

theorem exists_assignment_of_definition {d : MethodDefinition}
    (hd : d ∈ (Program.ofSources first sources).definitions) :
    ∃ n, d.assignment?.map Assignment.id = some n.id ∧
      n ∈ SourceTree.assignmentsTo (SourceTree.numbered first sources) d.member := by
  obtain ⟨source, hsource, _, _, n, _, hdefines⟩ := exists_defines hd
  exact ⟨n, hdefines.id, SourceTree.mem_assignmentsTo.mpr
    ⟨source, hsource, hdefines.mem_nodes, hdefines.assignedMember?_eq⟩⟩

/-- An assignment that the program has no trace of stands in a parameter list. -/
theorem occurs_of_mem_assignmentsTo (h : ∀ source ∈ sources, source.WellFormed)
    {member : Member} {n : Node}
    (hn : n ∈ SourceTree.assignmentsTo (SourceTree.numbered first sources) member) :
    (∃ o ∈ (Program.ofSources first sources).occurrences,
      o.assignment.target.IsMember member ∧ o.assignment.id = n.id) ∨
      SourceTree.InParameters (SourceTree.numbered first sources) n := by
  obtain ⟨source, hsource, hn, hmember⟩ := SourceTree.mem_assignmentsTo.mp hn
  have hkind : n.kind = .assignmentExpression := by
    by_contra hkind
    simp [Node.assignedMember?, hkind] at hmember
  rcases (SourceTree.wellFormed_numbered h source hsource).covers n hn hkind with
    ⟨o, ho, hid, htarget⟩ | hparameters
  · obtain ⟨s, hs, ho⟩ := Statement.mem_allOccurrences.mp ho
    have hs := mem_statements_ofSources.mpr ⟨source, hsource, hs⟩
    exact .inl ⟨o, mem_occurrences.mpr ⟨s, hs, ho⟩,
      Expr.isMember_iff.mpr (htarget.trans hmember), hid⟩
  · exact .inr ⟨source, hsource, hparameters⟩

theorem soleAssignment_of_ids (h : ∀ source ∈ sources, source.WellFormed) {member : Member}
    {n : Node} (hn : n ∈ SourceTree.assignmentsTo (SourceTree.numbered first sources) member)
    (hids : ∀ o ∈ (Program.ofSources first sources).occurrences,
      o.assignment.target.IsMember member → o.assignment.id = n.id) :
    SourceTree.SoleAssignment (SourceTree.numbered first sources) member n := by
  refine ⟨hn, fun m hm => ?_⟩
  rcases occurs_of_mem_assignmentsTo h hm with ⟨o, ho, htarget, hid⟩ | hparameters
  · left
    obtain ⟨source, hsource, hn, _⟩ := SourceTree.mem_assignmentsTo.mp hn
    obtain ⟨source', hsource', hm, _⟩ := SourceTree.mem_assignmentsTo.mp hm
    exact inj_on_of_nodup_map (SourceTree.nodup_ids_numbered first sources)
      (mem_flatMap.mpr ⟨source', hsource', hm⟩) (mem_flatMap.mpr ⟨source, hsource, hn⟩)
      (hid.symm.trans (hids o ho htarget))
  · exact .inr hparameters

/-- The member of a method that is defined once is assigned with one identity only. -/
theorem assignment_id_of_ownMethod? {program : Program} {member : Member} {e : MethodDefinition}
    (h : (program.hierarchy annotations).ownMethod? member = some e) :
    ∀ o ∈ program.occurrences, o.assignment.target.IsMember member →
      e.assignment?.map Assignment.id = some o.assignment.id := by
  obtain ⟨_, a, hdefines, hsingle⟩ := ownMethod?_iff.mp h
  intro o ho htarget
  have ho := mem_occurrencesOf.mpr ⟨ho, htarget⟩
  rw [hsingle, mem_singleton] at ho
  rw [MethodDefinition.assignment?_of_defines hdefines, ho]
  rfl

theorem removed_undisturbed (h : ∀ source ∈ sources, source.WellFormed) {d : MethodDefinition}
    (hd : d ∈ (context.process (Program.ofSources first sources) annotations).report.removed) :
    ∃ superclass,
      ((Program.ofSources first sources).hierarchy annotations).immediateSuper? d.member.owner =
          some superclass ∧
        d.Undisturbed (SourceTree.numbered first sources) superclass := by
  have hd' := mem_definitions_of_removed hd
  have hnot := isDuplicated_of_removed hd
  rw [removed_eq] at hd
  obtain ⟨call, _, hreason⟩ := elides_iff.mp (mem_filter.mp hd).2
  obtain ⟨_, superclass, hsuper, _, e, hown, _⟩ := Hierarchy.keepReason?_eq_none_iff.mp hreason
  refine ⟨superclass, hsuper, ?_, ?_⟩
  · obtain ⟨n, hid, hassigns⟩ := exists_assignment_of_definition hd'
    obtain ⟨hs, a, hdefines⟩ := defines_of_mem hd'
    refine ⟨n, hid, soleAssignment_of_ids h hassigns fun o ho htarget => ?_⟩
    rw [MethodDefinition.assignment?_of_defines hdefines] at hid
    obtain ⟨_, hsole⟩ := (isDuplicated_noted_eq_false hs hdefines).mp hnot
    exact (hsole o ho htarget).trans (Option.some.inj hid)
  · obtain ⟨he, hmember⟩ := Hierarchy.ownMethod?_mem hown
    obtain ⟨n, hid, hassigns⟩ := exists_assignment_of_definition he
    rw [hmember] at hassigns
    refine ⟨n, soleAssignment_of_ids h hassigns fun o ho htarget => ?_⟩
    have hsame := assignment_id_of_ownMethod? hown o ho htarget
    exact Option.some.inj (hsame.symm.trans hid)

end Program

/-! ## A redefinition in a default value -/

namespace Override

open Syntax.Draft

/-- An override without parameters. -/
def plain : List SourceTree := sources [] [] []

/-- The same, and a function call that assigns `B.prototype.m` anew in the default value of its
parameter. -/
def redefined : List SourceTree :=
  plain ++ [source "c.js"
    [statement (call (parenthesized (function
      [defaulted "x" (assignment (classMember "B" "m") (function [] []))] [])) [])]]

theorem plain_undisturbed :
    (∀ source ∈ plain, source.WellFormed) ∧
      ∃ d ∈ removed plain, d.member = ⟨"B", "m"⟩ ∧
        ∃ superclass, d.Undisturbed (SourceTree.numbered 0 plain) superclass := by
  have hwell : ∀ source ∈ plain, source.WellFormed := by decide +kernel
  have hremoved : (removed plain).map MethodDefinition.member = [⟨"B", "m"⟩] := by decide +kernel
  obtain ⟨d, hd, hmember⟩ := mem_map.mp (hremoved ▸ mem_singleton_self _)
  obtain ⟨superclass, _, hundisturbed⟩ := Program.removed_undisturbed hwell hd
  exact ⟨hwell, d, hd, hmember, superclass, hundisturbed⟩

/-- The override goes although its member is assigned twice. -/
theorem redefined_removed :
    (∀ source ∈ redefined, source.WellFormed) ∧
      ∃ d ∈ removed redefined, d.member = ⟨"B", "m"⟩ ∧
        (SourceTree.assignmentsTo (SourceTree.numbered 0 redefined) d.member).length = 2 := by
  have hwell : ∀ source ∈ redefined, source.WellFormed := by decide +kernel
  have hremoved : (removed redefined).map MethodDefinition.member = [⟨"B", "m"⟩] := by
    decide +kernel
  have hassignments :
      (SourceTree.assignmentsTo (SourceTree.numbered 0 redefined) ⟨"B", "m"⟩).length = 2 := by
    decide +kernel
  obtain ⟨d, hd, hmember⟩ := mem_map.mp (hremoved ▸ mem_singleton_self _)
  exact ⟨hwell, d, hd, hmember, hmember ▸ hassignments⟩

end Override

end OverrideElision
