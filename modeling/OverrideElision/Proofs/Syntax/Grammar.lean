import OverrideElision.Proofs.Syntax.Nodes

/-! # Well-formed trees

What a grammar of JavaScript promises of every node, as far as the readers rely on it. A promise is
about the kind of a node and what it sees of its children, so that numbering a tree keeps it. -/

namespace OverrideElision.Syntax

open List

/-- A node without anything below it. -/
def Node.isLeaf (n : Node) : Bool := n.children.isEmpty

namespace Kind

/-- The fields of the kinds that are read by their fields. -/
def slots : Kind → List Field
  | .memberExpression => [.object, .property]
  | .callExpression => [.function, .arguments]
  | .assignmentExpression => [.left, .right]
  | .functionExpression | .functionWord => [.parameters, .body]
  | .variableDeclarator => [.name, .value]
  | _ => []

/-- A node of this kind can have the child. Only what is left out somewhere is ruled out. -/
def admits (kind : Kind) (c : Node) : Bool :=
  match kind with
  | .comment | .identifier | .this | .propertyIdentifier => false
  | .memberExpression | .callExpression | .assignmentExpression | .variableDeclarator =>
    c.isLeaf || kind.slots.any (c.field = some ·)
  | .functionExpression | .functionWord =>
    c.isLeaf || c.field = some .parameters || (c.field = some .body && c.kind = .statementBlock)
  | .variableDeclaration | .lexicalDeclaration => c.isLeaf || c.kind = .variableDeclarator
  | .statementBlock | .other "program" => c.kind ≠ .assignmentExpression
  | _ => true

end Kind

namespace Node

/-- The node is as the grammar has nodes of its kind. Tokens have nothing below them, no field is
used twice, and an assignment has both sides. -/
structure Conforms (n : Node) : Prop where
  token : n.named = false → n.isLeaf = true
  children : ∀ c ∈ n.children, n.kind.admits c = true
  once : n.kind.slots ≠ [] → (n.children.filterMap Node.field).Nodup
  sides : n.kind = .assignmentExpression →
    ∀ field ∈ n.kind.slots, field ∈ n.children.filterMap Node.field

instance (n : Node) : Decidable n.Conforms :=
  decidable_of_iff
    ((n.named = false → n.isLeaf = true) ∧ (∀ c ∈ n.children, n.kind.admits c = true) ∧
      (n.kind.slots ≠ [] → (n.children.filterMap Node.field).Nodup) ∧
      (n.kind = .assignmentExpression →
        ∀ field ∈ n.kind.slots, field ∈ n.children.filterMap Node.field))
    ⟨fun ⟨token, children, once, sides⟩ => ⟨token, children, once, sides⟩,
      fun h => ⟨h.token, h.children, h.once, h.sides⟩⟩

/-- All nodes of the tree are as the grammar has them. -/
def WellFormed (n : Node) : Prop := ∀ m ∈ n.nodes, m.Conforms

instance (n : Node) : Decidable n.WellFormed :=
  inferInstanceAs (Decidable (∀ m ∈ n.nodes, m.Conforms))

namespace WellFormed

theorem conforms {n : Node} (h : n.WellFormed) : n.Conforms := h n n.self_mem_nodes

theorem of_mem {n m : Node} (h : n.WellFormed) (hm : m ∈ n.nodes) : m.WellFormed :=
  fun x hx => h x (mem_nodes_trans hm hx)

theorem child {n c : Node} (h : n.WellFormed) (hc : c ∈ n.children) : c.WellFormed :=
  fun m hm => h m (mem_nodes_of_child hc hm)

end WellFormed

/-! ## Fields -/

theorem isLeaf_iff {n : Node} : n.isLeaf = true ↔ n.children = [] := List.isEmpty_iff

theorem find?_field_of_mem {field : Field} {c : Node} {ns : List Node}
    (hnodup : (ns.filterMap Node.field).Nodup) (hc : c ∈ ns) (hfield : c.field = some field) :
    ns.find? (·.field = some field) = some c := by
  induction ns with
  | nil => cases hc
  | cons m ms ih =>
    rcases mem_cons.mp hc with rfl | hc
    · exact find?_cons_of_pos (by simp [hfield])
    · have hmem : field ∈ ms.filterMap Node.field := mem_filterMap.mpr ⟨c, hc, hfield⟩
      cases hm : m.field with
      | none =>
        rw [filterMap_cons_none hm] at hnodup
        rw [find?_cons_of_neg (by simp [hm]), ih hnodup hc]
      | some other =>
        rw [filterMap_cons_some hm, nodup_cons] at hnodup
        have hne : other ≠ field := fun heq => hnodup.1 (heq ▸ hmem)
        rw [find?_cons_of_neg (by simp [hm, hne]), ih hnodup.2 hc]

theorem isSome_field?_of_mem {n : Node} {field : Field}
    (h : field ∈ n.children.filterMap Node.field) : (n.field? field).isSome = true := by
  obtain ⟨c, hc, hfield⟩ := mem_filterMap.mp h
  exact find?_isSome.mpr ⟨c, hc, by simpa using hfield⟩

namespace Conforms

variable {n c : Node}

/-- Below a node that is read by two fields, all but the nodes in these are leaves. -/
theorem isLeaf_or_field? {f g : Field} (h : n.Conforms) (hslots : n.kind.slots = [f, g])
    (hc : c ∈ n.children) : c.isLeaf = true ∨ n.field? f = some c ∨ n.field? g = some c := by
  have hnodup := h.once (by simp [hslots])
  have hadmits := h.children c hc
  have hcases : c.isLeaf = true ∨ c.field = some f ∨ c.field = some g := by
    cases hkind : n.kind <;> simp [hkind, Kind.slots] at hslots <;>
      simp [hkind, Kind.admits, Kind.slots, or_assoc] at hadmits <;> grind
  rcases hcases with hleaf | hfield | hfield
  · exact .inl hleaf
  · exact .inr (.inl (find?_field_of_mem hnodup hc hfield))
  · exact .inr (.inr (find?_field_of_mem hnodup hc hfield))

theorem isLeaf_or_block (h : n.Conforms) (hkind : n.kind.isFunctionLiteral = true)
    (hc : n.field? .body = some c) : c.isLeaf = true ∨ c.kind = .statementBlock := by
  have hfield : c.field = some .body := by simpa using find?_some hc
  have hadmits := h.children c (mem_children_of_field? hc)
  unfold Kind.isFunctionLiteral at hkind
  split at hkind <;> simp_all [Kind.admits]

theorem isSome_assignmentSides? (h : n.Conforms) (hkind : n.kind = .assignmentExpression) :
    n.assignmentSides?.isSome = true := by
  have hsides := h.sides hkind
  rw [hkind] at hsides
  obtain ⟨left, hleft⟩ :=
    Option.isSome_iff_exists.mp (isSome_field?_of_mem (hsides .left mem_cons_self))
  obtain ⟨right, hright⟩ :=
    Option.isSome_iff_exists.mp
      (isSome_field?_of_mem (hsides .right (mem_cons_of_mem _ mem_cons_self)))
  simp [assignmentSides?, hkind, hleft, hright]

/-- Names and comments are leaves. -/
theorem isLeaf_of_refuses (h : n.Conforms) (hrefuses : ∀ c, n.kind.admits c = false) :
    n.isLeaf = true := by
  rw [isLeaf_iff, eq_nil_iff_forall_not_mem]
  intro c hc
  have hadmits := h.children c hc
  rw [hrefuses c] at hadmits
  cases hadmits

theorem kind_ne_assignment_of_isLeaf (h : n.Conforms) (hleaf : n.isLeaf = true) :
    n.kind ≠ .assignmentExpression := by
  intro hkind
  have hleft := h.sides hkind .left (by simp [hkind, Kind.slots])
  rw [isLeaf_iff.mp hleaf] at hleft
  cases hleft

end Conforms

/-! ## Numbering -/

section

variable (next : Nat) (n : Node)

@[simp]
theorem kind_numbered : (n.numbered next).kind = n.kind := by
  cases n
  rw [numbered]

@[simp]
theorem named_numbered : (n.numbered next).named = n.named := by
  cases n
  rw [numbered]

@[simp]
theorem field_numbered : (n.numbered next).field = n.field := by
  cases n
  rw [numbered]

theorem children_numbered :
    (n.numbered next).children = numberedAll (next + 1) n.children := by
  cases n
  rw [numbered]

@[simp]
theorem isLeaf_numbered : (n.numbered next).isLeaf = n.isLeaf := by
  rw [isLeaf, isLeaf, children_numbered]
  cases n.children <;> rfl

end

theorem mem_numberedAll {next : Nat} {ns : List Node} {m : Node} (h : m ∈ numberedAll next ns) :
    ∃ n ∈ ns, ∃ k, m = n.numbered k := by
  induction ns generalizing next with
  | nil => cases h
  | cons n ns ih =>
    rw [numberedAll] at h
    rcases mem_cons.mp h with rfl | h
    · exact ⟨n, mem_cons_self, next, rfl⟩
    · obtain ⟨m', hm', hnumbered⟩ := ih h
      exact ⟨m', mem_cons_of_mem _ hm', hnumbered⟩

theorem admits_numbered (kind : Kind) (next : Nat) (c : Node) :
    kind.admits (c.numbered next) = kind.admits c := by
  simp only [Kind.admits, isLeaf_numbered, field_numbered, kind_numbered]

theorem fields_numbered (next : Nat) (n : Node) :
    (n.numbered next).children.filterMap Node.field = n.children.filterMap Node.field := by
  rw [children_numbered]
  generalize next + 1 = k
  induction n.children generalizing k with
  | nil => rfl
  | cons c cs ih => rw [numberedAll, filterMap_cons, filterMap_cons, field_numbered, ih]

theorem Conforms.numbered {n : Node} (h : n.Conforms) (next : Nat) :
    (n.numbered next).Conforms where
  token := by simpa using h.token
  children := by
    intro c hc
    rw [children_numbered] at hc
    obtain ⟨c', hc', k, rfl⟩ := mem_numberedAll hc
    rw [kind_numbered, admits_numbered]
    exact h.children c' hc'
  once := by simpa [fields_numbered] using h.once
  sides := by simpa [fields_numbered] using h.sides

/-- The recursion is on the size, as a child of the numbered tree is known only to be some child of
the tree with some numbers. -/
theorem WellFormed.numbered {n : Node} (h : n.WellFormed) (next : Nat) :
    (n.numbered next).WellFormed := by
  intro m hm
  rw [nodes_eq] at hm
  rcases mem_cons.mp hm with rfl | hm
  · exact h.conforms.numbered next
  · obtain ⟨c, hc, hm⟩ := mem_flatMap.mp hm
    rw [children_numbered] at hc
    obtain ⟨c', hc', k, rfl⟩ := mem_numberedAll hc
    have := size_lt_of_mem hc'
    exact (h.child hc').numbered k m hm
termination_by n.size

end Node

/-- The tree of a source is that of a whole program. -/
structure SourceTree.WellFormed (source : SourceTree) : Prop where
  program : source.root.kind = .other "program"
  nodes : source.root.WellFormed

instance (source : SourceTree) : Decidable source.WellFormed :=
  decidable_of_iff (source.root.kind = .other "program" ∧ source.root.WellFormed)
    ⟨fun ⟨program, nodes⟩ => ⟨program, nodes⟩, fun h => ⟨h.program, h.nodes⟩⟩

theorem SourceTree.wellFormed_numbered {first : Nat} {sources : List SourceTree}
    (h : ∀ source ∈ sources, source.WellFormed) :
    ∀ source ∈ numbered first sources, source.WellFormed := by
  induction sources generalizing first with
  | nil => exact h
  | cons source rest ih =>
    obtain ⟨hsource, hrest⟩ := forall_mem_cons.mp h
    refine forall_mem_cons.mpr ⟨⟨?_, hsource.nodes.numbered first⟩, ih hrest⟩
    rw [Node.kind_numbered]
    exact hsource.program

end OverrideElision.Syntax
