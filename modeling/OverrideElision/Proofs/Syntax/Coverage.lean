import OverrideElision.Proofs.Syntax.Accounting

/-! # Assignments that are found

Every assignment of a well-formed tree stands in the program tree, at whatever depth and inside
whatever construct, unless it stands in the parameter list of a function literal. -/

namespace OverrideElision

open List

theorem Statement.mem_allOccurrences {ss : List Statement} {o : Occurrence} :
    o ∈ Statement.allOccurrences ss ↔ ∃ s ∈ ss, o ∈ s.occurrences := by
  induction ss with
  | nil => simp [Statement.allOccurrences]
  | cons s ss ih =>
    rw [Statement.allOccurrences, mem_append, ih, exists_mem_cons_iff, or_comm]

namespace Syntax

namespace Node

/-- The other node stands in the parameter list of a function literal at or below this node. -/
def HasInParameters (n x : Node) : Prop :=
  ∃ f ∈ n.nodes, f.isPlainFunction = true ∧ ∃ list, f.field? .parameters = some list ∧
    x ∈ list.nodes

end Node

/-- The assignments are those of the node and all below it, parameter lists of function literals
apart. -/
def Covers (source : ByteArray) (occurrences : List Occurrence) (n : Node) : Prop :=
  ∀ x ∈ n.nodes, x.kind = .assignmentExpression →
    (∃ o ∈ occurrences, o.assignment.id = x.id ∧
      o.assignment.target.member? = x.assignedMember? source) ∨ n.HasInParameters x

namespace SourceTree

/-- Where reading goes on from a source. -/
def positions (source : SourceTree) : List Position := source.root.parts.map .statement

theorem yieldsAll_positions (source : SourceTree) :
    YieldsAll source.bytes source.positions (Statement.allOccurrences source.statements)
      (Statement.allLiterals source.statements)
      (readStatements source.bytes source.root.children).docs :=
  .block source.root

/-- All that reading comes to in a source. -/
def reached (source : SourceTree) : List Position :=
  source.positions.reverse.flatMap Position.reached

theorem accounted_within (source : SourceTree) (p : Node → Bool) :
    Within source.WellFormed (accounted p source.reached) (tally p [source.root]) := by
  have hreached : Within (∀ q ∈ source.positions.reverse, q.node.WellFormed)
      (accounted p source.reached) _ :=
    accounted_flatMap_within p fun q _ => q.accounted_reached_within p
  rw [tallyRoots_reverse, positions, tallyRoots_statements] at hreached
  have hchildren : source.WellFormed → ∀ c ∈ source.root.children,
      c.kind ≠ .assignmentExpression := by
    intro h c hc
    have hadmits := h.nodes.conforms.children c hc
    simpa [h.program, Kind.admits] using hadmits
  have hstatements := (tally_children_within p source.root.parts).mono
    fun (h : source.WellFormed) c hc => hchildren h c (Node.mem_children_of_mem_parts hc)
  have hparts := (tally_parts_within p source.root).mono fun (h : source.WellFormed) => h.nodes
  have hroot := (tally_children_within p [source.root]).mono
    fun (h : source.WellFormed) => forall_mem_singleton.mpr (by simp [h.program])
  rw [flatMap_singleton] at hroot
  refine (hreached.mono fun h q hq => ?_).trans (hstatements.trans (hparts.trans hroot))
  obtain ⟨c, hc, rfl⟩ := mem_map.mp (mem_reverse.mp hq)
  exact h.nodes.child (Node.mem_children_of_mem_parts hc)

theorem node_mem_nodes_of_reached {source : SourceTree} {q : Position} (h : q ∈ source.reached) :
    q.node ∈ source.root.nodes := by
  obtain ⟨p, hp, hq⟩ := mem_flatMap.mp h
  obtain ⟨c, hc, rfl⟩ := mem_map.mp (mem_reverse.mp hp)
  exact Node.mem_nodes_of_child (Node.mem_children_of_mem_parts hc)
    (Position.node_mem_nodes_of_reached hq)

/-- Nothing but parameter lists is left out of a source. -/
theorem WellFormed.covers {source : SourceTree} (h : source.WellFormed) :
    Covers source.bytes (Statement.allOccurrences source.statements) source.root := by
  intro x hx hkind
  have hroot : x ∈ [source.root].flatMap Node.nodes := by simpa using hx
  rcases mem_assignmentsAt_or_listsAt source.accounted_within h hroot hkind with
    hread | ⟨list, hlist, hx⟩
  · obtain ⟨hkeys, _⟩ := source.yieldsAll_positions.standAt fun _ _ _ _ _ hq => hq.standAt
    have hkey : x.key source.bytes ∈
        (Statement.allOccurrences source.statements).map Occurrence.key := by
      rw [hkeys]
      exact mem_map_of_mem hread
    obtain ⟨o, ho, hkey⟩ := mem_map.mp hkey
    exact .inl ⟨o, ho, congrArg Prod.fst hkey, congrArg Prod.snd hkey⟩
  · obtain ⟨f, ⟨q, hq, hf⟩, hfield⟩ := mem_listsAt_iff.mp hlist
    obtain ⟨e, rfl, rfl, hplain⟩ := Position.literal?_eq_some_iff.mp hf
    have hmem : e.unwrapped ∈ source.root.nodes :=
      Node.mem_nodes_trans (node_mem_nodes_of_reached hq) e.unwrapped_mem_nodes
    exact .inr ⟨e.unwrapped, hmem, hplain, list, hfield, hx⟩

end SourceTree

end Syntax

end OverrideElision
