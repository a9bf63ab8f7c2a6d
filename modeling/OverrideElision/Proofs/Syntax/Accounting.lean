import Mathlib.Algebra.BigOperators.Group.List.Basic
import OverrideElision.Proofs.Syntax.Drafts
import OverrideElision.Proofs.Syntax.Grammar
import OverrideElision.Proofs.Syntax.Positions

/-! # Assignments are read once

Every assignment of a syntax tree is counted against what reading makes of it: it is read, or it
stands in the parameter list of a function literal that is read as such. No tree has an assignment
that is read twice, and in a well-formed tree every assignment has its share in the count. -/

namespace OverrideElision.Syntax

open List

/-! ## Counting -/

/-- The part is at most the whole, and all of it under the condition. -/
structure Within (condition : Prop) (part whole : Nat) : Prop where
  le : part ≤ whole
  eq : condition → part = whole

namespace Within

variable {condition stronger : Prop} {a b c d : Nat}

theorem of_eq (h : a = b) : Within condition a b := ⟨h.le, fun _ => h⟩

theorem trans (hab : Within condition a b) (hbc : Within condition b c) : Within condition a c :=
  ⟨hab.le.trans hbc.le, fun h => (hab.eq h).trans (hbc.eq h)⟩

theorem add (hab : Within condition a b) (hcd : Within condition c d) :
    Within condition (a + c) (b + d) :=
  ⟨Nat.add_le_add hab.le hcd.le, fun h => by rw [hab.eq h, hcd.eq h]⟩

theorem mono (hab : Within condition a b) (h : stronger → condition) : Within stronger a b :=
  ⟨hab.le, fun hstronger => hab.eq (h hstronger)⟩

/-- What is empty under the condition can be left out. -/
theorem of_add (hab : Within condition (a + c) b) (h : condition → c = 0) : Within condition a b :=
  ⟨(Nat.le_add_right a c).trans hab.le, fun hc => by rw [← hab.eq hc, h hc, Nat.add_zero]⟩

end Within

/-- The number of assignments in trees that have a property. -/
def tally (p : Node → Bool) (ns : List Node) : Nat :=
  (ns.flatMap Node.nodes).countP fun n => decide (n.kind = .assignmentExpression) && p n

section Tally

variable (p : Node → Bool)

@[simp]
theorem tally_nil : tally p [] = 0 := rfl

theorem tally_append (ns ms : List Node) : tally p (ns ++ ms) = tally p ns + tally p ms := by
  rw [tally, flatMap_append, countP_append]
  rfl

theorem tally_cons (n : Node) (ns : List Node) : tally p (n :: ns) = tally p [n] + tally p ns :=
  tally_append p [n] ns

theorem tally_singleton (n : Node) :
    tally p [n] = [n].countP (fun n => decide (n.kind = .assignmentExpression) && p n) +
      tally p n.children := by
  rw [tally, flatMap_singleton, Node.nodes_eq, countP_cons, countP_singleton, Nat.add_comm]
  rfl

theorem tally_of_kind {n : Node} (h : n.kind ≠ .assignmentExpression) :
    tally p [n] = tally p n.children := by
  simp [tally_singleton, h]

theorem tally_of_isLeaf {n : Node} (h : n.Conforms) (hleaf : n.isLeaf = true) :
    tally p [n] = 0 := by
  rw [tally_of_kind p (h.kind_ne_assignment_of_isLeaf hleaf), Node.isLeaf_iff.mp hleaf, tally_nil]

theorem tally_of_refuses {n : Node} (h : n.Conforms) (hrefuses : ∀ c, n.kind.admits c = false) :
    tally p [n] = 0 :=
  tally_of_isLeaf p h (h.isLeaf_of_refuses hrefuses)

theorem tally_filter (q : Node → Bool) (ns : List Node) :
    tally p (ns.filter q) + tally p (ns.filter fun n => !q n) = tally p ns := by
  induction ns with
  | nil => rfl
  | cons n ns ih =>
    rw [tally_cons p n ns, ← ih]
    cases h : q n
    · rw [filter_cons_of_neg (by simp [h]), filter_cons_of_pos (by simp [h]), tally_cons p n]
      omega
    · rw [filter_cons_of_pos h, filter_cons_of_neg (by simp [h]), tally_cons p n]
      omega

theorem tally_eq_zero {ns : List Node} (h : ∀ n ∈ ns, tally p [n] = 0) : tally p ns = 0 := by
  induction ns with
  | nil => rfl
  | cons n ns ih =>
    obtain ⟨hn, hns⟩ := forall_mem_cons.mp h
    rw [tally_cons, hn, ih hns]

/-- Nothing is lost with trees that have no assignments. -/
theorem tally_filter_within (q : Node → Bool) (ns : List Node) :
    Within (∀ n ∈ ns, q n = false → tally p [n] = 0) (tally p (ns.filter q)) (tally p ns) := by
  have h := tally_filter p q ns
  refine ⟨by omega, fun hzero => ?_⟩
  have hrest : tally p (ns.filter fun n => !q n) = 0 := by
    refine tally_eq_zero p fun n hn => ?_
    obtain ⟨hn, hq⟩ := mem_filter.mp hn
    exact hzero n hn (by simpa using hq)
  omega

/-- Nothing is lost below trees that are no assignments themselves. -/
theorem tally_children_within (ns : List Node) :
    Within (∀ n ∈ ns, n.kind ≠ .assignmentExpression) (tally p (ns.flatMap Node.children))
      (tally p ns) := by
  induction ns with
  | nil => exact .of_eq rfl
  | cons n ns ih =>
    have hn := tally_singleton p n
    have hle := ih.le
    rw [flatMap_cons, tally_append, tally_cons p n ns]
    refine ⟨by omega, fun h => ?_⟩
    obtain ⟨hkind, hkinds⟩ := forall_mem_cons.mp h
    rw [tally_of_kind p hkind, ih.eq hkinds]

/-! ## Parts and fields -/

/-- Of a node, tokens and comments have no assignments. -/
theorem tally_parts_within (n : Node) :
    Within n.WellFormed (tally p n.parts) (tally p n.children) := by
  have hnamed := (tally_filter_within p (·.named) n.children).mono
    fun (h : n.WellFormed) c hc htoken =>
      tally_of_isLeaf p (h.child hc).conforms ((h.child hc).conforms.token htoken)
  have hparts := (tally_filter_within p (·.kind ≠ .comment) n.namedChildren).mono
    fun (h : n.WellFormed) c hc hcomment => by
      have hconforms := (h.child (mem_filter.mp hc).1).conforms
      have hkind : c.kind = .comment := by simpa using hcomment
      exact tally_of_refuses p hconforms (by simp [hkind, Kind.admits])
  exact hparts.trans hnamed

/-- The node in a field, as a list. -/
def Node.slot (n : Node) (field : Field) : List Node := (n.field? field).toList

theorem tally_find_within (field : Field) (ns : List Node) :
    Within (ns.filterMap Node.field).Nodup (tally p (ns.find? (·.field = some field)).toList)
      (tally p (ns.filter (·.field = some field))) := by
  induction ns with
  | nil => exact .of_eq rfl
  | cons n ns ih =>
    by_cases hfield : n.field = some field
    · rw [find?_cons_of_pos (by simpa using hfield), filter_cons_of_pos (by simpa using hfield),
        tally_cons p n]
      refine ⟨Nat.le_add_right _ _, fun hnodup => ?_⟩
      rw [filterMap_cons_some hfield, nodup_cons] at hnodup
      have hnone : ns.filter (·.field = some field) = [] := by
        refine filter_eq_nil_iff.mpr fun m hm hsame => hnodup.1 ?_
        exact mem_filterMap.mpr ⟨m, hm, by simpa using hsame⟩
      rw [hnone]
      rfl
    · rw [find?_cons_of_neg (by simpa using hfield), filter_cons_of_neg (by simpa using hfield)]
      refine ih.mono fun hnodup => ?_
      cases h : n.field with
      | none => rwa [filterMap_cons_none h] at hnodup
      | some other =>
        rw [filterMap_cons_some h] at hnodup
        exact hnodup.of_cons

theorem tally_fields_within {f g : Field} (hne : f ≠ g) (ns : List Node) :
    Within (∀ c ∈ ns, c.field ≠ some f → c.field ≠ some g → tally p [c] = 0)
      (tally p (ns.filter (·.field = some f)) + tally p (ns.filter (·.field = some g)))
      (tally p ns) := by
  have hboth := tally_filter_within p (fun c => c.field = some f || c.field = some g) ns
  have hsplit := tally_filter p (·.field = some f)
    (ns.filter fun c => c.field = some f || c.field = some g)
  rw [filter_filter, filter_filter] at hsplit
  have hf : (ns.filter fun c => decide (c.field = some f) &&
      (decide (c.field = some f) || decide (c.field = some g))) =
        ns.filter (·.field = some f) := by
    refine filter_congr fun c _ => ?_
    by_cases h : c.field = some f <;> simp [h]
  have hg : (ns.filter fun c => !decide (c.field = some f) &&
      (decide (c.field = some f) || decide (c.field = some g))) =
        ns.filter (·.field = some g) := by
    refine filter_congr fun c _ => ?_
    by_cases h : c.field = some g <;> simp [h, hne.symm]
  rw [hf, hg] at hsplit
  rw [hsplit]
  refine hboth.mono fun h c hc hnot => ?_
  simp only [Bool.or_eq_false_iff, decide_eq_false_iff_not] at hnot
  exact h c hc hnot.1 hnot.2

/-- A node that is read by two fields has no assignments beside them. -/
theorem tally_slots_within (n : Node) {f g : Field} (hne : f ≠ g) :
    Within (n.WellFormed ∧ n.kind.slots = [f, g]) (tally p (n.slot f) + tally p (n.slot g))
      (tally p n.children) := by
  have hfound := ((tally_find_within p f n.children).add (tally_find_within p g n.children)).mono
    fun (h : n.WellFormed ∧ n.kind.slots = [f, g]) => h.1.conforms.once (by simp [h.2])
  refine hfound.trans ((tally_fields_within p hne n.children).mono ?_)
  rintro ⟨hwell, hslots⟩ c hc hf hg
  rcases hwell.conforms.isLeaf_or_field? hslots hc with hleaf | hfield | hfield
  · exact tally_of_isLeaf p (hwell.child hc).conforms hleaf
  · exact absurd (by simpa using find?_some hfield) hf
  · exact absurd (by simpa using find?_some hfield) hg

theorem tally_unwrapped_within (n : Node) :
    Within n.WellFormed (tally p [n.unwrapped]) (tally p [n]) := by
  fun_induction Node.unwrapped n with
  | case1 n hkind inner hparts _ ih =>
    have hinner := Node.mem_children_of_mem_parts (hparts ▸ mem_cons_self)
    have h := tally_parts_within p n
    rw [hparts, ← tally_of_kind p (n := n) (by simp [hkind])] at h
    exact (ih.mono fun h => h.child hinner).trans h
  | case2 => exact .of_eq rfl
  | case3 => exact .of_eq rfl

theorem tally_slots_within_of_kind {n : Node} {f g : Field} (hne : f ≠ g)
    (hslots : n.kind.slots = [f, g]) :
    Within n.WellFormed (tally p (n.slot f) + tally p (n.slot g)) (tally p n.children) :=
  (tally_slots_within p n hne).mono fun h => ⟨h, hslots⟩

/-! ## Shapes -/

theorem tally_member_within {n object property : Node}
    (h : n.plainMember? = some (object, property)) :
    Within n.WellFormed (tally p [object]) (tally p [n]) := by
  obtain ⟨hkind, hobject, hproperty, hname⟩ := Node.plainMember?_eq_some h
  have hslots := tally_slots_within_of_kind p (n := n) (f := .object) (g := .property)
    (by decide) (by rw [hkind]; rfl)
  rw [Node.slot, Node.slot, hobject, hproperty, ← tally_of_kind p (by simp [hkind])] at hslots
  refine hslots.of_add fun hwell => ?_
  exact tally_of_refuses p (hwell.child (Node.mem_children_of_field? hproperty)).conforms
    (by simp [hname, Kind.admits])

theorem tally_call_within {n callee args : Node} (h : n.plainCall? = some (callee, args)) :
    Within n.WellFormed (tally p [callee] + tally p args.parts) (tally p [n]) := by
  obtain ⟨hkind, hcallee, hargs, hlist⟩ := Node.plainCall?_eq_some h
  have hslots := tally_slots_within_of_kind p (n := n) (f := .function) (g := .arguments)
    (by decide) (by rw [hkind]; rfl)
  rw [Node.slot, Node.slot, hcallee, hargs, ← tally_of_kind p (by simp [hkind])] at hslots
  have hparts := (tally_parts_within p args).mono
    fun (h : n.WellFormed) => h.child (Node.mem_children_of_field? hargs)
  rw [← tally_of_kind p (by simp [hlist])] at hparts
  exact ((Within.of_eq rfl).add hparts).trans hslots

theorem tally_assignment_within {n left right : Node}
    (h : n.assignmentSides? = some (left, right)) :
    Within n.WellFormed ([n].countP p + (tally p [left] + tally p [right])) (tally p [n]) := by
  obtain ⟨hkind, hleft, hright⟩ := Node.assignmentSides?_eq_some_iff.mp h
  have hslots := tally_slots_within_of_kind p (n := n) (f := .left) (g := .right)
    (by decide) (by rw [hkind]; rfl)
  rw [Node.slot, Node.slot, hleft, hright] at hslots
  have hown : [n].countP (fun n => decide (n.kind = .assignmentExpression) && p n) =
      [n].countP p := by simp [hkind]
  rw [tally_singleton p n, hown]
  exact (Within.of_eq rfl).add hslots

/-- The body of a function literal has its assignments in its statements. -/
theorem tally_bodyParts_within {n : Node} (hplain : n.isPlainFunction = true) :
    Within n.WellFormed (tally p (n.bodyParts.flatMap Node.children)) (tally p (n.slot .body)) := by
  unfold Node.bodyParts Node.slot
  cases hbody : n.field? .body with
  | none => exact .of_eq rfl
  | some body =>
    have hshape : n.WellFormed → body.WellFormed ∧ body.kind ≠ .assignmentExpression ∧
        ∀ c ∈ body.children, c.kind ≠ .assignmentExpression := by
      intro h
      have hwell := h.child (Node.mem_children_of_field? hbody)
      rcases h.conforms.isLeaf_or_block (Node.isPlainFunction_kind hplain) hbody with
        hleaf | hblock
      · refine ⟨hwell, hwell.conforms.kind_ne_assignment_of_isLeaf hleaf, ?_⟩
        rw [Node.isLeaf_iff.mp hleaf]
        exact nofun
      · refine ⟨hwell, by simp [hblock], fun c hc => ?_⟩
        have hadmits := hwell.conforms.children c hc
        simpa [hblock, Kind.admits] using hadmits
    have hstatements := (tally_children_within p body.parts).mono fun h c hc =>
      (hshape h).2.2 c (Node.mem_children_of_mem_parts hc)
    have hparts := (tally_parts_within p body).mono fun h => (hshape h).1
    have hblock := (tally_children_within p [body]).mono fun h =>
      forall_mem_singleton.mpr (hshape h).2.1
    rw [flatMap_singleton] at hblock
    exact (hstatements.trans hparts).trans hblock

theorem tally_function_within {n : Node} (hplain : n.isPlainFunction = true) :
    Within n.WellFormed
      (tally p (n.slot .parameters) + tally p (n.bodyParts.flatMap Node.children))
      (tally p [n]) := by
  have hkind := Node.isPlainFunction_kind hplain
  have hslots : n.kind.slots = [.parameters, .body] := by
    unfold Kind.isFunctionLiteral at hkind
    split at hkind <;> simp_all [Kind.slots]
  have hne : n.kind ≠ .assignmentExpression := by
    intro heq
    simp [heq, Kind.isFunctionLiteral] at hkind
  rw [tally_of_kind p hne]
  exact ((Within.of_eq rfl).add (tally_bodyParts_within p hplain)).trans
    (tally_slots_within_of_kind p (by decide) hslots)

theorem tally_other_within {n : Node} (h : n.assignmentSides? = none) :
    Within n.WellFormed (tally p n.children) (tally p [n]) := by
  have hchildren := tally_children_within p [n]
  rw [flatMap_singleton] at hchildren
  refine hchildren.mono fun hwell => forall_mem_singleton.mpr fun hkind => ?_
  have hsome := hwell.conforms.isSome_assignmentSides? hkind
  simp [h] at hsome

/-- Of the declaration of a single variable only the value has assignments. -/
theorem tally_declaration_within {n name keyword : Node} {value : Option Node}
    (h : n.singleDeclaration? = some (name, value, keyword)) :
    Within n.WellFormed (tally p value.toList) (tally p n.children) := by
  obtain ⟨hkind, declarator, hsingle, hname, hidentifier, rfl⟩ :=
    Node.singleDeclaration?_eq_some h
  obtain ⟨hnamed, hdeclarator⟩ : declarator ∈ n.namedChildren ∧
      declarator.kind = .variableDeclarator := by
    have hmem : declarator ∈ n.namedChildren.filter (·.kind = .variableDeclarator) :=
      hsingle ▸ mem_cons_self
    simpa using mem_filter.mp hmem
  have hwell : n.WellFormed → declarator.WellFormed := fun h => h.child (mem_filter.mp hnamed).1
  have hvalue : Within n.WellFormed (tally p (declarator.slot .value)) (tally p [declarator]) := by
    have hslots := tally_slots_within_of_kind p (n := declarator) (f := .name) (g := .value)
      (by decide) (by rw [hdeclarator]; rfl)
    rw [Nat.add_comm, ← tally_of_kind p (by simp [hdeclarator])] at hslots
    refine (hslots.mono hwell).of_add fun h => ?_
    rw [Node.slot, hname]
    exact tally_of_refuses p ((hwell h).child (Node.mem_children_of_field? hname)).conforms
      (by simp [hidentifier, Kind.admits])
  have hleaf : ∀ h : n.WellFormed, ∀ c ∈ n.children, c.kind ≠ .variableDeclarator →
      tally p [c] = 0 := by
    intro h c hc hother
    have hadmits := h.conforms.children c hc
    refine tally_of_isLeaf p (h.child hc).conforms ?_
    rcases hkind with hkind | hkind <;> simpa [hkind, Kind.admits, hother] using hadmits
  have hdeclarators := (tally_filter_within p (·.kind = .variableDeclarator) n.namedChildren).mono
    fun (h : n.WellFormed) c hc hother =>
      hleaf h c (mem_filter.mp hc).1 (by simpa using hother)
  have hnamedOnly := (tally_filter_within p (·.named) n.children).mono
    fun (h : n.WellFormed) c hc htoken =>
      tally_of_isLeaf p (h.child hc).conforms ((h.child hc).conforms.token htoken)
  rw [hsingle] at hdeclarators
  exact (hvalue.trans hdeclarators).trans hnamedOnly

/-! ## Reading -/

/-- The assignments in what positions are about. -/
def tallyRoots (ps : List Position) : Nat := tally p (ps.flatMap Position.roots)

/-- The assignments that are read at positions, and those in the parameter lists of the function
literals that are read there. -/
def accounted (ps : List Position) : Nat :=
  (ps.filterMap Position.assignment?).countP p +
    tally p ((ps.filterMap Position.literal?).flatMap (Node.slot · .parameters))

theorem tallyRoots_append (ps qs : List Position) :
    tallyRoots p (ps ++ qs) = tallyRoots p ps + tallyRoots p qs := by
  rw [tallyRoots, flatMap_append, tally_append]
  rfl

theorem tallyRoots_expression (n : Node) : tallyRoots p [.expression n] = tally p [n] := rfl

theorem tallyRoots_searches (ns : List Node) : tallyRoots p (ns.map .search) = tally p ns := by
  simp [tallyRoots, flatMap_map, Position.roots]

theorem tallyRoots_arguments (ns : List Node) : tallyRoots p (ns.map .argument) = tally p ns := by
  simp [tallyRoots, flatMap_map, Position.roots]

theorem tallyRoots_statements (ns : List Node) :
    tallyRoots p (ns.map .statement) = tally p (ns.flatMap Node.children) := by
  simp [tallyRoots, flatMap_map, Position.roots]

theorem accounted_append (ps qs : List Position) :
    accounted p (ps ++ qs) = accounted p ps + accounted p qs := by
  simp only [accounted, filterMap_append, flatMap_append, countP_append, tally_append]
  omega

theorem accounted_singleton (q : Position) :
    accounted p [q] = q.assignment?.toList.countP p +
      tally p (q.literal?.toList.flatMap (Node.slot · .parameters)) := by
  rw [accounted, filterMap_eq_flatMap_toList, filterMap_eq_flatMap_toList, flatMap_singleton,
    flatMap_singleton]

theorem accounted_eq_zero {q : Position} (hassignment : q.assignment? = none)
    (hliteral : q.literal? = none) : accounted p [q] = 0 := by
  rw [accounted_singleton, hassignment, hliteral]
  rfl

theorem Shape.accounted_within {n : Node} (shape : Shape n) :
    Within n.WellFormed
      (shape.assignment?.toList.countP p +
        tally p (shape.literal?.toList.flatMap (Node.slot · .parameters)) +
          tallyRoots p shape.next)
      (tally p [n]) := by
  cases shape with
  | name h =>
    refine ⟨Nat.zero_le _, fun hwell => (tally_of_refuses p hwell.conforms ?_).symm⟩
    simp [h, Kind.admits]
  | this h =>
    refine ⟨Nat.zero_le _, fun hwell => (tally_of_refuses p hwell.conforms ?_).symm⟩
    simp [h, Kind.admits]
  | member object property h =>
    have hread := tally_member_within p h
    simpa [assignment?, literal?, next, tallyRoots_expression] using hread
  | call callee args h =>
    have hread := tally_call_within p h
    rw [← tallyRoots_expression p callee, ← tallyRoots_arguments p args.parts,
      ← tallyRoots_append] at hread
    simpa [assignment?, literal?, next] using hread
  | assign left right h =>
    have hread := tally_assignment_within p h
    rw [← tallyRoots_expression p left, ← tallyRoots_expression p right, ← tallyRoots_append]
      at hread
    simpa [assignment?, literal?, next] using hread
  | function h =>
    have hread := tally_function_within p h
    simpa [assignment?, literal?, next, tallyRoots_statements] using hread
  | other h _ =>
    have hread := tally_other_within p h
    simpa [assignment?, literal?, next, tallyRoots_searches] using hread

theorem StatementShape.accounted_within {n : Node} (shape : StatementShape n) :
    Within n.WellFormed (tallyRoots p shape.next) (tally p n.children) := by
  have hparts := tally_parts_within p n
  cases shape with
  | expr e _ h | retValue e h =>
    rw [h] at hparts
    exact hparts
  | ret h =>
    rw [h] at hparts
    exact hparts
  | decl name value keyword h => exact tally_declaration_within p h
  | declBare name keyword h => exact tally_declaration_within p h
  | other => exact .of_eq (tallyRoots_searches p n.children)

/-- At every position, what stands there and what reading goes on to share out the assignments. -/
theorem Position.accounted_within (q : Position) :
    Within q.node.WellFormed (accounted p [q] + tallyRoots p q.next) (tally p q.roots) := by
  cases q with
  | expression n =>
    rw [accounted_singleton]
    have hshape := (Shape.accounted_within p n.unwrapped.shape).mono
      fun (h : n.WellFormed) => h.of_mem n.unwrapped_mem_nodes
    exact hshape.trans (tally_unwrapped_within p n)
  | argument n =>
    rw [accounted_eq_zero p rfl rfl, Nat.zero_add, next]
    split
    · rename_i hkind
      rw [roots, tally_of_kind p (by simp [hkind])]
      split
      · rename_i inner hparts
        have hread := tally_parts_within p n
        rwa [hparts] at hread
      · exact .of_eq (tallyRoots_searches p n.children)
    · exact .of_eq rfl
  | search n =>
    rw [accounted_eq_zero p rfl rfl, Nat.zero_add, next]
    split
    · exact .of_eq rfl
    · rename_i hkind
      rw [tallyRoots_searches, roots, tally_of_kind p hkind]
      exact .of_eq rfl
  | statement n =>
    rw [accounted_eq_zero p rfl rfl, Nat.zero_add]
    exact StatementShape.accounted_within p n.statementShape

/-- All that reading comes to at positions shares out the assignments there. -/
theorem accounted_flatMap_within {qs : List Position}
    (h : ∀ q ∈ qs, Within q.node.WellFormed (accounted p q.reached) (tally p q.roots)) :
    Within (∀ q ∈ qs, q.node.WellFormed) (accounted p (qs.flatMap Position.reached))
      (tallyRoots p qs) := by
  induction qs with
  | nil => exact .of_eq rfl
  | cons q qs ih =>
    obtain ⟨hhead, htail⟩ := forall_mem_cons.mp h
    rw [flatMap_cons, accounted_append, tallyRoots, flatMap_cons, tally_append]
    refine (hhead.mono fun hwell => ?_).add ((ih htail).mono fun hwell => ?_)
    · exact (forall_mem_cons.mp hwell).1
    · exact (forall_mem_cons.mp hwell).2

theorem tallyRoots_reverse (qs : List Position) : tallyRoots p qs.reverse = tallyRoots p qs := by
  induction qs with
  | nil => rfl
  | cons q qs ih =>
    rw [reverse_cons, tallyRoots_append, ih, Nat.add_comm, ← tallyRoots_append, singleton_append]

/-- All that reading comes to from a position shares out the assignments there. -/
theorem Position.accounted_reached_within (q : Position) :
    Within q.node.WellFormed (accounted p q.reached) (tally p q.roots) := by
  induction q using Position.induction with
  | step q ih =>
    have hnext : Within (∀ r ∈ q.next.reverse, r.node.WellFormed) _ _ :=
      accounted_flatMap_within p fun r hr => ih r (mem_reverse.mp hr)
    have hwell : q.node.WellFormed → ∀ r ∈ q.next.reverse, r.node.WellFormed := fun h r hr =>
      h.of_mem (q.nodes_subset r.node (next_spec (mem_reverse.mp hr)).1)
    rw [tallyRoots_reverse] at hnext
    rw [reached_eq, ← singleton_append, accounted_append]
    exact ((Within.of_eq rfl).add (hnext.mono hwell)).trans (q.accounted_within p)

end Tally

/-! ## What is counted -/

theorem tally_pos_iff {p : Node → Bool} {ns : List Node} :
    0 < tally p ns ↔
      ∃ m ∈ ns.flatMap Node.nodes, m.kind = .assignmentExpression ∧ p m = true := by
  simp [tally, countP_pos_iff]

/-- Among nodes with identities of their own, none is counted twice. -/
theorem tally_id_le_one {ns : List Node} (h : ((ns.flatMap Node.nodes).map Node.id).Nodup)
    (id : Nat) : tally (·.id == id) ns ≤ 1 := by
  have hcount := nodup_iff_count_le_one.mp h id
  rw [count, countP_map] at hcount
  exact (countP_mono_left fun m _ hm => (Bool.and_eq_true_iff.mp hm).2).trans hcount

/-- The assignments that are read at positions. -/
def assignmentsAt (ps : List Position) : List Node := ps.filterMap Position.assignment?

/-- The parameter lists of the function literals that are read at positions. -/
def listsAt (ps : List Position) : List Node :=
  (ps.filterMap Position.literal?).flatMap (Node.slot · .parameters)

section Shares

variable {ps : List Position} {ns : List Node} {condition : Prop}
  (h : ∀ p, Within condition (accounted p ps) (tally p ns))
include h

/-- What is read stands in the trees. -/
theorem mem_nodes_of_assignmentsAt {x : Node} (hx : x ∈ assignmentsAt ps) :
    x ∈ ns.flatMap Node.nodes ∧ x.kind = .assignmentExpression := by
  classical
  have hread : 0 < (assignmentsAt ps).countP fun m => m = x :=
    countP_pos_iff.mpr ⟨x, hx, by simp⟩
  have htally : 0 < tally (fun m => m = x) ns :=
    hread.trans_le ((Nat.le_add_right _ _).trans (h _).le)
  obtain ⟨m, hm, hkind, hsame⟩ := tally_pos_iff.mp htally
  obtain rfl : m = x := by simpa using hsame
  exact ⟨hm, hkind⟩

/-- What the trees hold is read, or is passed over with a parameter list. -/
theorem mem_assignmentsAt_or_listsAt (hcondition : condition) {x : Node}
    (hx : x ∈ ns.flatMap Node.nodes) (hkind : x.kind = .assignmentExpression) :
    x ∈ assignmentsAt ps ∨ ∃ list ∈ listsAt ps, x ∈ list.nodes := by
  classical
  have htally : 0 < tally (fun m => m = x) ns := tally_pos_iff.mpr ⟨x, hx, hkind, by simp⟩
  have heq := (h fun m => m = x).eq hcondition
  rw [← heq] at htally
  rcases Nat.add_pos_iff_pos_or_pos.mp htally with hread | hpassed
  · obtain ⟨m, hm, hsame⟩ := countP_pos_iff.mp hread
    obtain rfl : m = x := by simpa using hsame
    exact .inl hm
  · obtain ⟨m, hm, _, hsame⟩ := tally_pos_iff.mp hpassed
    obtain rfl : m = x := by simpa using hsame
    exact .inr (mem_flatMap.mp hm)

variable (hids : ((ns.flatMap Node.nodes).map Node.id).Nodup)
include hids

theorem nodup_ids_assignmentsAt : ((assignmentsAt ps).map Node.id).Nodup := by
  refine nodup_iff_count_le_one.mpr fun id => ?_
  rw [count, countP_map]
  exact (Nat.le_add_right _ _).trans ((h _).le.trans (tally_id_le_one hids id))

/-- Nothing is both read and passed over. -/
theorem id_ne_of_listsAt {x y list : Node} (hx : x ∈ assignmentsAt ps) (hlist : list ∈ listsAt ps)
    (hy : y ∈ list.nodes) (hkind : y.kind = .assignmentExpression) : x.id ≠ y.id := by
  intro hid
  have hread : 0 < (assignmentsAt ps).countP (·.id == y.id) :=
    countP_pos_iff.mpr ⟨x, hx, by simpa using hid⟩
  have hpassed : 0 < tally (·.id == y.id) (listsAt ps) :=
    tally_pos_iff.mpr ⟨y, mem_flatMap.mpr ⟨list, hlist, hy⟩, hkind, by simp⟩
  have hboth : (assignmentsAt ps).countP (·.id == y.id) + tally (·.id == y.id) (listsAt ps) ≤ 1 :=
    (h _).le.trans (tally_id_le_one hids y.id)
  omega

end Shares

/-! ## Statements -/

/-- Reading the statement comes to the function literal. -/
def Node.Converts (statement f : Node) : Prop :=
  ∃ e, .expression e ∈ (Position.statement statement).reached ∧ e.unwrapped = f ∧
    f.isPlainFunction = true

/-- The node stands in the parameter list of a function literal that the statement is read with. -/
def Node.PassesOver (statement x : Node) : Prop :=
  ∃ f, statement.Converts f ∧ ∃ list, f.field? .parameters = some list ∧ x ∈ list.nodes

/-- The assignments of the statement `s` are those of the syntax tree `n` that it is read from. What
is passed over belongs to the function literals of the statement. -/
structure AccountsFor (source : ByteArray) (n : Node) (s : Statement) : Prop where
  once : (s.occurrences.map (·.assignment.id)).Nodup
  origin : ∀ o ∈ s.occurrences, ∃ x ∈ n.descendants,
    x.kind = .assignmentExpression ∧ o.key = x.key source
  literals : ∃ converted, (∀ f, f ∈ converted ↔ n.Converts f) ∧
    Forall₂ (Node.Becomes source) converted s.literals
  all : n.WellFormed → ∀ x ∈ n.descendants, x.kind = .assignmentExpression →
    ((∃ o ∈ s.occurrences, o.assignment.id = x.id) ↔ ¬ n.PassesOver x)

theorem Node.converts_iff {n f : Node} :
    n.Converts f ↔ ∃ q ∈ (Position.statement n).reached, q.literal? = some f := by
  simp only [Position.literal?_eq_some_iff]
  constructor
  · rintro ⟨e, he, hf⟩
    exact ⟨_, he, e, rfl, hf⟩
  · rintro ⟨_, he, e, rfl, hf⟩
    exact ⟨e, he, hf⟩

theorem mem_listsAt_iff {ps : List Position} {list : Node} :
    list ∈ listsAt ps ↔
      ∃ f, (∃ q ∈ ps, q.literal? = some f) ∧ f.field? .parameters = some list := by
  simp only [listsAt, mem_flatMap, mem_filterMap, Node.slot, Option.mem_toList]

theorem Node.passesOver_iff {n x : Node} :
    n.PassesOver x ↔ ∃ list ∈ listsAt (Position.statement n).reached, x ∈ list.nodes := by
  simp only [PassesOver, converts_iff, mem_listsAt_iff]
  constructor
  · rintro ⟨f, hf, list, hlist, hx⟩
    exact ⟨list, ⟨f, hf, hlist⟩, hx⟩
  · rintro ⟨list, ⟨f, hf, hlist⟩, hx⟩
    exact ⟨f, hf, list, hlist, hx⟩

theorem accountsFor_of_yields {source : ByteArray} {n : Node} {s : Statement}
    {docs : List (Nat × Doc.Info)} (hids : (n.nodes.map Node.id).Nodup)
    (hread : Yields source (.statement n) s.occurrences s.literals docs) :
    AccountsFor source n s := by
  have hshare : ∀ p, Within n.WellFormed (accounted p (Position.statement n).reached)
      (tally p n.children) := fun p => Position.accounted_reached_within p (.statement n)
  have hnodup : ((n.children.flatMap Node.nodes).map Node.id).Nodup := by
    rw [n.nodes_eq] at hids
    exact (nodup_cons.mp hids).2
  obtain ⟨hkeys, hliterals⟩ := hread.standAt
  have hmem : ∀ key, key ∈ s.occurrences.map Occurrence.key ↔
      ∃ x ∈ assignmentsAt (Position.statement n).reached, x.key source = key := by
    intro key
    rw [hkeys, mem_map]
    rfl
  refine ⟨?_, fun o ho => ?_, ⟨_, fun f => ?_, hliterals⟩, fun hwell x hx hkind => ?_⟩
  · have hsame : s.occurrences.map (·.assignment.id) =
        (assignmentsAt (Position.statement n).reached).map Node.id := by
      have hids := congrArg (map Prod.fst) hkeys
      rwa [map_map, map_map] at hids
    rw [hsame]
    exact nodup_ids_assignmentsAt hshare hnodup
  · obtain ⟨x, hx, hkey⟩ := (hmem o.key).mp (mem_map_of_mem ho)
    obtain ⟨hx, hkind⟩ := mem_nodes_of_assignmentsAt hshare hx
    exact ⟨x, hx, hkind, hkey.symm⟩
  · rw [mem_filterMap, Node.converts_iff]
  · rw [Node.passesOver_iff]
    constructor
    · rintro ⟨o, ho, hid⟩ ⟨list, hlist, hx⟩
      obtain ⟨y, hy, hkey⟩ := (hmem o.key).mp (mem_map_of_mem ho)
      refine id_ne_of_listsAt hshare hnodup hy hlist hx hkind ?_
      exact (congrArg Prod.fst hkey).trans hid
    · intro hnot
      have hfound := (mem_assignmentsAt_or_listsAt hshare hwell hx hkind).resolve_right hnot
      obtain ⟨o, ho, hkey⟩ := mem_map.mp ((hmem _).mpr ⟨x, hfound, rfl⟩)
      exact ⟨o, ho, congrArg Prod.fst hkey⟩

theorem yields_statement (source : ByteArray) (info : Doc.Info) (id : Nat) (text : String)
    (n : Node) :
    Yields source (.statement n) (Statement.occurrences ⟨id, text, (readForm source info n).value⟩)
      (Statement.literals ⟨id, text, (readForm source info n).value⟩)
      (readForm source info n).docs := by
  rw [Statement.occurrences_eq, Statement.literals]
  exact .statement info _ n

/-- Every assignment of a statement is read once, parameter lists of function literals apart. -/
theorem readForm_accountsFor (source : ByteArray) (info : Doc.Info) (id : Nat) (text : String)
    (next : Nat) (n : Node) :
    AccountsFor source (n.numbered next)
      ⟨id, text, (readForm source info (n.numbered next)).value⟩ := by
  have hids : ((n.numbered next).nodes.map Node.id).Nodup := by
    rw [Node.ids_numbered]
    exact nodup_range'
  exact accountsFor_of_yields hids (yields_statement source info id text (n.numbered next))

/-- A function literal that is called where it stands. It assigns in the default value of its
parameter and in its body. -/
def immediateCall : Node :=
  (Draft.statement (.call (.parenthesized (.function
    [.defaulted "x" (.assignment (.identifier "a") (.number "1"))]
    [.statement (.assignment (.identifier "b") (.number "2"))])) [])).tree 0

theorem immediateCall_accountsFor :
    (immediateCall.numbered 0).WellFormed ∧
      (∃ x ∈ (immediateCall.numbered 0).descendants, x.kind = .assignmentExpression ∧
        (immediateCall.numbered 0).PassesOver x) ∧
      ∃ x ∈ (immediateCall.numbered 0).descendants, x.kind = .assignmentExpression ∧
        ¬ (immediateCall.numbered 0).PassesOver x := by
  have hwell : (immediateCall.numbered 0).WellFormed := by decide +kernel
  have haccounts := readForm_accountsFor "".toUTF8 {} 0 "" 0 immediateCall
  have hids : (Statement.occurrences
      ⟨0, "", (readForm "".toUTF8 {} (immediateCall.numbered 0)).value⟩).map (·.assignment.id) =
        [19] := by decide +kernel
  have hread : ∀ id, (∃ o ∈ Statement.occurrences
      ⟨0, "", (readForm "".toUTF8 {} (immediateCall.numbered 0)).value⟩, o.assignment.id = id) ↔
        id = 19 := by
    intro id
    rw [← mem_singleton, ← hids, mem_map]
  have hnodes : ((immediateCall.numbered 0).descendants.filter
      (·.kind = .assignmentExpression)).map Node.id = [11, 19] := by decide +kernel
  obtain ⟨inDefault, hdefault, hdefaultId⟩ := mem_map.mp (hnodes ▸ mem_cons_self)
  obtain ⟨inBody, hbody, hbodyId⟩ := mem_map.mp (hnodes ▸ mem_cons_of_mem _ mem_cons_self)
  simp only [mem_filter, decide_eq_true_eq] at hdefault hbody
  refine ⟨hwell, ⟨inDefault, hdefault.1, hdefault.2, ?_⟩, inBody, hbody.1, hbody.2, ?_⟩
  · by_contra hnot
    have hfound := (haccounts.all hwell inDefault hdefault.1 hdefault.2).mpr hnot
    rw [hread, hdefaultId] at hfound
    cases hfound
  · exact (haccounts.all hwell inBody hbody.1 hbody.2).mp ((hread _).mpr hbodyId)

end OverrideElision.Syntax
