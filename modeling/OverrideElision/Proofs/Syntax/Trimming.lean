import OverrideElision.Proofs.Renaming.Trees
import OverrideElision.Proofs.Syntax.Positions

/-! # Trees without some of their comments

Comments inside expressions can be left out of a syntax tree, and its nodes can get other
identities: what is read is the same, under the other identities. -/

namespace OverrideElision.Syntax

open List

mutual

/-- The tree without the nodes below its root whose identity is in `gone`, nor what is below them.
The others get other identities. -/
def Node.trimmed (gone : Nat → Bool) (f : Nat → Nat) : Node → Node
  | ⟨kind, named, field, start, stop, id, children⟩ =>
    ⟨kind, named, field, start, stop, f id, Node.trimmedAll gone f children⟩

/-- Those of the trees whose identity is not in `gone`, without the nodes in them for which it
is. -/
def Node.trimmedAll (gone : Nat → Bool) (f : Nat → Nat) : List Node → List Node
  | [] => []
  | n :: ns =>
    if gone n.id then Node.trimmedAll gone f ns
    else n.trimmed gone f :: Node.trimmedAll gone f ns

end

/-- What is left out below the node are comments that document nothing: leaves without a field, none
of them among the statements of a function or in the place of the keyword of a declaration. -/
structure Node.Loose (gone : Nat → Bool) (n : Node) : Prop where
  comments : ∀ m ∈ n.descendants, gone m.id = true →
    m.kind = .comment ∧ m.children = [] ∧ m.field = none
  bodies : ∀ m ∈ n.nodes, m.kind.isFunctionLiteral = true →
    ∀ body ∈ m.field? .body, ∀ c ∈ body.children, gone c.id = false
  keywords : ∀ m ∈ n.nodes, m.kind = .variableDeclaration ∨ m.kind = .lexicalDeclaration →
    ∀ c ∈ m.children.head?, gone c.id = false

instance (gone : Nat → Bool) (n : Node) : Decidable (n.Loose gone) :=
  decidable_of_iff
    ((∀ m ∈ n.descendants, gone m.id = true →
        m.kind = .comment ∧ m.children = [] ∧ m.field = none) ∧
      (∀ m ∈ n.nodes, m.kind.isFunctionLiteral = true →
        ∀ body ∈ m.field? .body, ∀ c ∈ body.children, gone c.id = false) ∧
      ∀ m ∈ n.nodes, m.kind = .variableDeclaration ∨ m.kind = .lexicalDeclaration →
        ∀ c ∈ m.children.head?, gone c.id = false)
    ⟨fun ⟨comments, bodies, keywords⟩ => ⟨comments, bodies, keywords⟩,
      fun h => ⟨h.comments, h.bodies, h.keywords⟩⟩

namespace Node

variable {gone : Nat → Bool} {n : Node}

theorem Loose.of_mem (h : n.Loose gone) {m : Node} (hm : m ∈ n.nodes) : m.Loose gone where
  comments x hx := by
    refine h.comments x ?_
    rw [nodes_eq_cons] at hm
    rcases mem_cons.mp hm with rfl | hm
    · exact hx
    · obtain ⟨c, hc, hm⟩ := mem_flatMap.mp hm
      exact mem_descendants_of_child hc (mem_nodes_trans hm (mem_nodes_of_mem_descendants hx))
  bodies x hx := h.bodies x (mem_nodes_trans hm hx)
  keywords x hx := h.keywords x (mem_nodes_trans hm hx)

theorem Loose.of_child (h : n.Loose gone) {c : Node} (hc : c ∈ n.children) : c.Loose gone :=
  h.of_mem (mem_nodes_of_child hc c.self_mem_nodes)

theorem Loose.comment (h : n.Loose gone) {c : Node} (hc : c ∈ n.children)
    (hgone : gone c.id = true) :
    c.kind = .comment ∧ c.children = [] ∧ c.field = none :=
  h.comments c (child_mem_descendants hc) hgone

theorem loose_false (n : Node) : n.Loose fun _ => false where
  comments _ _ := nofun
  bodies _ _ _ _ _ _ _ := rfl
  keywords _ _ _ _ _ := rfl

/-! ## Single nodes -/

section

variable (gone) (f : Nat → Nat) (n)

@[simp]
theorem kind_trimmed : (n.trimmed gone f).kind = n.kind := by
  cases n
  rfl

@[simp]
theorem named_trimmed : (n.trimmed gone f).named = n.named := by
  cases n
  rfl

@[simp]
theorem field_trimmed : (n.trimmed gone f).field = n.field := by
  cases n
  rfl

@[simp]
theorem start_trimmed : (n.trimmed gone f).start = n.start := by
  cases n
  rfl

@[simp]
theorem stop_trimmed : (n.trimmed gone f).stop = n.stop := by
  cases n
  rfl

@[simp]
theorem id_trimmed : (n.trimmed gone f).id = f n.id := by
  cases n
  rfl

@[simp]
theorem text_trimmed (source : ByteArray) : (n.trimmed gone f).text source = n.text source := by
  rw [text, text, start_trimmed, stop_trimmed]

theorem trimmedAll_eq (ns : List Node) :
    trimmedAll gone f ns = (ns.filter (!gone ·.id)).map (trimmed gone f) := by
  induction ns with
  | nil => rfl
  | cons n ns ih =>
    rw [trimmedAll, ih]
    cases hn : gone n.id <;> simp [hn]

theorem children_trimmed :
    (n.trimmed gone f).children = (n.children.filter (!gone ·.id)).map (trimmed gone f) := by
  cases n
  exact trimmedAll_eq ..

end

/-! ## Looking things up -/

section

variable (f : Nat → Nat) {p : Node → Bool}

theorem filter_children_trimmed (hp : ∀ c ∈ n.children, p (c.trimmed gone f) = p c)
    (hgone : ∀ c ∈ n.children, gone c.id = true → p c = false) :
    (n.trimmed gone f).children.filter p = (n.children.filter p).map (trimmed gone f) := by
  rw [children_trimmed, filter_map, filter_filter]
  congr 1
  refine filter_congr fun c hc => ?_
  simp only [Function.comp_apply, hp c hc]
  cases hid : gone c.id with
  | false => simp
  | true => simp [hgone c hc hid]

theorem find?_children_trimmed (hp : ∀ c ∈ n.children, p (c.trimmed gone f) = p c)
    (hgone : ∀ c ∈ n.children, gone c.id = true → p c = false) :
    (n.trimmed gone f).children.find? p = (n.children.find? p).map (trimmed gone f) := by
  rw [← head?_filter, filter_children_trimmed f hp hgone, head?_map, head?_filter]

theorem any_children_trimmed (hp : ∀ c ∈ n.children, p (c.trimmed gone f) = p c)
    (hgone : ∀ c ∈ n.children, gone c.id = true → p c = false) :
    (n.trimmed gone f).children.any p = n.children.any p := by
  rw [← isSome_find?, find?_children_trimmed f hp hgone, Option.isSome_map, isSome_find?]

variable (h : n.Loose gone)
include h

theorem parts_trimmed : (n.trimmed gone f).parts = n.parts.map (trimmed gone f) := by
  rw [parts, parts, namedChildren, namedChildren, filter_filter, filter_filter]
  refine filter_children_trimmed f (fun c _ => by simp) fun c hc hgone => ?_
  simp [(h.comment hc hgone).1]

theorem field?_trimmed (field : Field) :
    (n.trimmed gone f).field? field = (n.field? field).map (trimmed gone f) := by
  refine find?_children_trimmed f (fun c _ => by simp) fun c hc hgone => ?_
  simp [(h.comment hc hgone).2.2]

theorem isOptionalChain_trimmed : (n.trimmed gone f).isOptionalChain = n.isOptionalChain := by
  refine any_children_trimmed f (fun c _ => by simp) fun c hc hgone => ?_
  simp [(h.comment hc hgone).1]

theorem isPlainFunction_trimmed : (n.trimmed gone f).isPlainFunction = n.isPlainFunction := by
  have hasync : (n.trimmed gone f).children.any (·.kind = .asyncWord) =
      n.children.any (·.kind = .asyncWord) := by
    refine any_children_trimmed f (fun c _ => by simp) fun c hc hgone => ?_
    simp [(h.comment hc hgone).1]
  rw [isPlainFunction, isPlainFunction, hasync, kind_trimmed]

theorem plainMember?_trimmed :
    (n.trimmed gone f).plainMember? =
      n.plainMember?.map (Prod.map (trimmed gone f) (trimmed gone f)) := by
  rw [plainMember?, plainMember?, kind_trimmed, isOptionalChain_trimmed f h, field?_trimmed f h,
    field?_trimmed f h]
  split
  · cases n.field? .object <;> cases n.field? .property <;> try rfl
    simp only [Option.map_some, kind_trimmed]
    split <;> rfl
  · rfl

theorem plainCall?_trimmed :
    (n.trimmed gone f).plainCall? =
      n.plainCall?.map (Prod.map (trimmed gone f) (trimmed gone f)) := by
  rw [plainCall?, plainCall?, kind_trimmed, isOptionalChain_trimmed f h, field?_trimmed f h,
    field?_trimmed f h]
  split
  · cases n.field? .function <;> cases n.field? .arguments <;> try rfl
    simp only [Option.map_some, kind_trimmed]
    split <;> rfl
  · rfl

theorem assignmentSides?_trimmed :
    (n.trimmed gone f).assignmentSides? =
      n.assignmentSides?.map (Prod.map (trimmed gone f) (trimmed gone f)) := by
  rw [assignmentSides?, assignmentSides?, kind_trimmed, field?_trimmed f h, field?_trimmed f h]
  split
  · cases n.field? .left <;> cases n.field? .right <;> rfl
  · rfl

theorem singleDeclaration?_trimmed :
    (n.trimmed gone f).singleDeclaration? =
      n.singleDeclaration?.map fun (name, value, keyword) =>
        (name.trimmed gone f, value.map (trimmed gone f), keyword.trimmed gone f) := by
  by_cases hkind : n.kind = .variableDeclaration ∨ n.kind = .lexicalDeclaration
  · have hdeclarators : (n.trimmed gone f).namedChildren.filter (·.kind = .variableDeclarator) =
        (n.namedChildren.filter (·.kind = .variableDeclarator)).map (trimmed gone f) := by
      rw [namedChildren, namedChildren, filter_filter, filter_filter]
      refine filter_children_trimmed f (fun c _ => by simp) fun c hc hgone => ?_
      simp [(h.comment hc hgone).1]
    rw [singleDeclaration?, singleDeclaration?, kind_trimmed, if_pos hkind, if_pos hkind,
      hdeclarators, children_trimmed]
    cases hchildren : n.children with
    | nil => simp [namedChildren, hchildren]
    | cons keyword rest =>
      have hkeyword : gone keyword.id = false :=
        h.keywords n n.self_mem_nodes hkind keyword (by simp [hchildren])
      rw [filter_cons_of_pos (by simp [hkeyword]), map_cons]
      cases hsingle : n.namedChildren.filter (·.kind = .variableDeclarator) with
      | nil => rfl
      | cons declarator more =>
        have hmem : declarator ∈ n.namedChildren.filter (·.kind = .variableDeclarator) :=
          hsingle ▸ mem_cons_self
        have hdeclarator : declarator.Loose gone :=
          h.of_child (mem_filter.mp (mem_filter.mp hmem).1).1
        cases more with
        | nil =>
          simp only [map_cons, map_nil, field?_trimmed f hdeclarator]
          cases declarator.field? .name with
          | none => rfl
          | some name =>
            simp only [Option.map_some, kind_trimmed]
            split <;> rfl
        | cons => rfl
  · rw [singleDeclaration?, singleDeclaration?, kind_trimmed, if_neg hkind, if_neg hkind]
    rfl

theorem unwrapped_trimmed : (n.trimmed gone f).unwrapped = n.unwrapped.trimmed gone f := by
  fun_induction unwrapped n with
  | case1 n hkind inner hparts _ ih =>
    have hinner : inner.Loose gone :=
      h.of_child (mem_children_of_mem_parts (hparts ▸ mem_cons_self))
    have hparts' : (n.trimmed gone f).parts = [inner.trimmed gone f] := by
      rw [parts_trimmed f h, hparts, map_singleton]
    rw [unwrapped, kind_trimmed, if_pos hkind]
    split
    · rename_i heq
      cases hparts'.symm.trans heq
      exact ih hinner
    · rename_i hne
      exact absurd hparts' (hne _)
  | case2 n hkind hparts =>
    rw [unwrapped, kind_trimmed, if_pos hkind]
    split
    · rename_i heq
      rw [parts_trimmed f h, map_eq_singleton_iff] at heq
      obtain ⟨inner, heq, -⟩ := heq
      exact absurd heq (hparts inner)
    · rfl
  | case3 n hkind => exact unwrapped_of_kind (by rwa [kind_trimmed])

theorem param_trimmed (source : ByteArray) (info : Doc.Info) :
    (n.trimmed gone f).param source info = n.param source info := by
  rw [param, param, kind_trimmed, text_trimmed, parts_trimmed f h, field?_trimmed f h]
  split
  · rfl
  · cases n.field? .left <;> simp
  · obtain _ | ⟨inner, _ | _⟩ := n.parts <;> simp
  · rfl

end

theorem returns_of_comment {c : Node} (hkind : c.kind = .comment) (hchildren : c.children = []) :
    c.returns = false := by
  rw [returns_eq, hkind, hchildren]
  rfl

theorem returns_trimmed (f : Nat → Nat) {n : Node} (h : n.Loose gone) :
    (n.trimmed gone f).returns = n.returns := by
  have hvalue : (n.trimmed gone f).children.any
      (fun child => child.named && decide (child.kind ≠ .comment)) =
        n.children.any fun child => child.named && decide (child.kind ≠ .comment) :=
    any_children_trimmed f (fun c _ => by simp) fun c hc hgone => by
      simp [(h.comment hc hgone).1]
  have hreturns : (n.trimmed gone f).children.any returns = n.children.any returns := by
    refine any_children_trimmed f (fun c hc => ?_) fun c hc hgone => ?_
    · have := size_lt_of_mem hc
      exact returns_trimmed f (h.of_child hc)
    · obtain ⟨hkind, hchildren, -⟩ := h.comment hc hgone
      exact returns_of_comment hkind hchildren
  rw [returns_eq, returns_eq n, kind_trimmed, hvalue, hreturns]
termination_by n.size

theorem anyReturns_trimmed (f : Nat → Nat) (h : n.Loose gone) :
    anyReturns (n.trimmed gone f).children = anyReturns n.children := by
  rw [anyReturns_eq_any, anyReturns_eq_any]
  refine any_children_trimmed f (fun c hc => returns_trimmed f (h.of_child hc))
    fun c hc hgone => ?_
  obtain ⟨hkind, hchildren, -⟩ := h.comment hc hgone
  exact returns_of_comment hkind hchildren

end Node

/-! ## Groups -/

namespace Group

variable (source : ByteArray) (gone : Nat → Bool) (f : Nat → Nat)

/-- The group with its nodes trimmed. -/
def trimmed : Group → Group
  | .remarks first more => .remarks (first.trimmed gone f) (more.map (Node.trimmed gone f))
  | .code comments node => .code (comments.map (Node.trimmed gone f)) (node.trimmed gone f)

theorem ofPending_trimmed (pending : List Node) :
    ofPending (pending.map (Node.trimmed gone f)) = (ofPending pending).map (trimmed gone f) := by
  cases pending <;> rfl

theorem ofNodesAfter_trimmed (pending nodes : List Node) :
    ofNodesAfter source (pending.map (Node.trimmed gone f)) (nodes.map (Node.trimmed gone f)) =
      (ofNodesAfter source pending nodes).map (trimmed gone f) := by
  induction nodes generalizing pending with
  | nil => exact ofPending_trimmed gone f pending
  | cons n rest ih =>
    have hpending : pending.map (Node.trimmed gone f) ++ [n.trimmed gone f] =
        (pending ++ [n]).map (Node.trimmed gone f) := by simp
    have hafter : ofNodesAfter source [] (rest.map (Node.trimmed gone f)) =
        (ofNodesAfter source [] rest).map (trimmed gone f) := ih []
    rw [map_cons, ofNodesAfter, ofNodesAfter, Node.kind_trimmed, Node.named_trimmed,
      Node.text_trimmed, hpending, ofPending_trimmed, ih, ih, hafter]
    split
    · split
      · rw [map_append]
      · rfl
    · split <;> rfl

theorem ofNodes_trimmed (nodes : List Node) :
    ofNodes source (nodes.map (Node.trimmed gone f)) =
      (ofNodes source nodes).map (trimmed gone f) :=
  ofNodesAfter_trimmed source gone f [] nodes

theorem info_trimmed (group : Group) : (group.trimmed gone f).info source = group.info source := by
  have hcomments : (group.trimmed gone f).comments =
      group.comments.map (Node.trimmed gone f) := by cases group <;> rfl
  rw [info, info, hcomments, map_map]
  simp only [Function.comp_def, Node.text_trimmed]

theorem text_trimmed (group : Group) : (group.trimmed gone f).text source = group.text source := by
  have hfirst : (group.trimmed gone f).first = group.first.trimmed gone f := by
    cases group with
    | remarks => rfl
    | code comments node => cases comments <;> rfl
  have hlast : (group.trimmed gone f).last = group.last.trimmed gone f := by
    cases group with
    | remarks first more => simp [trimmed, last, getLastD_eq_getLast?, getLast?_map]
    | code => rfl
  rw [text, text, hfirst, hlast, Node.textThrough, Node.textThrough, Node.start_trimmed,
    Node.stop_trimmed]

theorem id_trimmed (group : Group) : (group.trimmed gone f).id = f group.id := by
  cases group <;> exact Node.id_trimmed ..

end Group

/-! ## Readings -/

namespace Documented

variable {α : Type}

@[ext]
theorem ext {a b : Documented α} (hvalue : a.value = b.value) (hdocs : a.docs = b.docs) :
    a = b := by
  cases a
  cases b
  simp_all

/-- The result with other identities: in its value as `rename` says, and in the documentation. -/
def renamed (f : Nat → Nat) (rename : α → α) (result : Documented α) : Documented α :=
  ⟨rename result.value, result.docs.map (Prod.map f id)⟩

theorem renamed_id {rename : α → α} (h : ∀ value, rename value = value) (result : Documented α) :
    result.renamed id rename = result := by
  ext1
  · exact h result.value
  · simp [renamed]

/-- What is made of a result has the other identities that the result has. -/
theorem renamed_return {β : Type} {f : Nat → Nat} {rename : α → α} {renameAll : β → β}
    {make : α → β} (h : ∀ value, make (rename value) = renameAll (make value))
    (result : Documented α) :
    (do return make (← result.renamed f rename)) =
      (do return make (← result) : Documented β).renamed f renameAll := by
  ext1
  · simp [renamed, h]
  · simp [renamed]

end Documented

/-- The readers of an expression in their order, without the proofs that the parts are smaller. -/
theorem readBare_eq_cases (source : ByteArray) (info : Doc.Info) (n : Node) :
    readBare source info n =
      if n.kind = .identifier then return .name (n.text source)
      else if n.kind = .this then return .this
      else match n.plainMember? with
        | some (object, property) => do
          return .member (← readExpr source {} object) (property.text source)
        | none => match n.plainCall? with
          | some (callee, args) => do
            let callee ← readExpr source {} callee
            return .call callee (← readArguments source args.parts)
          | none => match n.assignmentSides? with
            | some (left, right) => do
              let target ← readExpr source {} left
              return .assign ⟨n.id, target, ← readExpr source info right⟩
            | none =>
              if n.isPlainFunction then return .function (← readFunction source info n)
              else return .other (n.text source) (← readNested source n.children) := by
  rw [readBare]
  grind

theorem next_shape_eq_cases (n : Node) :
    n.shape.next =
      if n.kind = .identifier then []
      else if n.kind = .this then []
      else match n.plainMember? with
        | some (object, _) => [.expression object]
        | none => match n.plainCall? with
          | some (callee, args) => .expression callee :: args.parts.map .argument
          | none => match n.assignmentSides? with
            | some (left, right) => [.expression left, .expression right]
            | none =>
              if n.isPlainFunction then n.bodyParts.map .statement
              else n.children.map .search := by
  unfold Node.shape
  grind [Shape.next]

theorem next_statementShape_eq_cases (n : Node) :
    n.statementShape.next =
      if n.kind = .expressionStatement then
        match n.parts with
        | [e] => [.expression e]
        | _ => n.children.map .search
      else if n.kind = .returnStatement then
        match n.parts with
        | [] => []
        | [e] => [.expression e]
        | _ => n.children.map .search
      else match n.singleDeclaration? with
        | some (_, some value, _) => [.expression value]
        | some (_, none, _) => []
        | none => n.children.map .search := by
  unfold Node.statementShape
  grind [StatementShape.next]

/-! ## Reading trimmed trees -/

section

variable {source : ByteArray} {gone : Nat → Bool} {f : Nat → Nat}

/-- What is read at a position is read in the trimmed tree too, under the other identities. -/
def Position.Keeps (source : ByteArray) (gone : Nat → Bool) (f : Nat → Nat) : Position → Prop
  | .expression n => ∀ info, readExpr source info (n.trimmed gone f) =
      (readExpr source info n).renamed f (Expr.renamed f)
  | .argument n => readArgument source (n.trimmed gone f) =
      (readArgument source n).renamed f (Expr.renamed f)
  | .search n => searchNode source (n.trimmed gone f) =
      (searchNode source n).renamed f (Assignment.renamedAll f)
  | .statement n => ∀ info, readForm source info (n.trimmed gone f) =
      (readForm source info n).renamed f (Form.renamed f)

theorem readArguments_trimmed {ns : List Node}
    (h : ∀ n ∈ ns, (Position.argument n).Keeps source gone f) :
    readArguments source (ns.map (Node.trimmed gone f)) =
      (readArguments source ns).renamed f (Expr.renamedAll f) := by
  induction ns with
  | nil =>
    rw [map_nil, readArguments]
    rfl
  | cons n rest ih =>
    obtain ⟨hn, hrest⟩ := forall_mem_cons.mp h
    have hn : readArgument source (n.trimmed gone f) = _ := hn
    rw [map_cons]
    ext1
    · rw [(readArguments_cons ..).1, hn, ih hrest]
      simp only [Documented.renamed, (readArguments_cons ..).1, Expr.renamedAll]
    · rw [(readArguments_cons ..).2, hn, ih hrest]
      simp only [Documented.renamed, (readArguments_cons ..).2, map_append]

theorem searchNode_of_comment {c : Node} (hkind : c.kind = .comment) (hchildren : c.children = []) :
    searchNode source c = pure [] := by
  rw [searchNode, if_neg (by simp [hkind]), hchildren, readNested]

/-- Searching the children finds nothing in the comments that are left out. -/
theorem readNested_trimmed {n : Node} (hloose : n.Loose gone)
    (h : ∀ c ∈ n.children, (Position.search c).Keeps source gone f) :
    readNested source (n.trimmed gone f).children =
      (readNested source n.children).renamed f (Assignment.renamedAll f) := by
  have hcomments : ∀ c ∈ n.children, gone c.id = true → searchNode source c = pure [] := by
    intro c hc hgone
    obtain ⟨hkind, hchildren, -⟩ := hloose.comment hc hgone
    exact searchNode_of_comment hkind hchildren
  rw [Node.children_trimmed]
  generalize n.children = ns at h hcomments
  induction ns with
  | nil =>
    rw [filter_nil, map_nil, readNested]
    rfl
  | cons c rest ih =>
    obtain ⟨hc, hrest⟩ := forall_mem_cons.mp h
    obtain ⟨hcomment, hcomments⟩ := forall_mem_cons.mp hcomments
    have hc : searchNode source (c.trimmed gone f) = _ := hc
    cases hgone : gone c.id with
    | true =>
      have hnone := hcomment hgone
      rw [filter_cons_of_neg (by simp [hgone]), ih hrest hcomments]
      ext1
      · simp [Documented.renamed, (readNested_cons ..).1, hnone]
      · simp [Documented.renamed, (readNested_cons ..).2, hnone]
    | false =>
      rw [filter_cons_of_pos (by simp [hgone]), map_cons]
      ext1
      · rw [(readNested_cons ..).1, hc, ih hrest hcomments]
        simp [Documented.renamed, (readNested_cons ..).1, Assignment.renamedAll_eq_map]
      · rw [(readNested_cons ..).2, hc, ih hrest hcomments]
        simp [Documented.renamed, (readNested_cons ..).2]

theorem Group.form_trimmed {group : Group}
    (h : ∀ c ∈ group.code?, (Position.statement c).Keeps source gone f) :
    (group.trimmed gone f).form source = (group.form source).renamed f := by
  cases group with
  | remarks => rfl
  | code comments n =>
    have hinfo := info_trimmed source gone f (.code comments n)
    have hform := h n rfl ((Group.code comments n).info source)
    rw [trimmed] at hinfo
    rw [trimmed, form, hinfo, hform]
    rfl

theorem Group.statement_trimmed {group : Group}
    (h : ∀ c ∈ group.code?, (Position.statement c).Keeps source gone f) :
    (group.trimmed gone f).statement source = (group.statement source).renamed f := by
  rw [statement, statement, id_trimmed, text_trimmed, form_trimmed h, Statement.renamed]

theorem docs_trimmed {group : Group}
    (h : ∀ c ∈ group.code?, (Position.statement c).Keeps source gone f) :
    (group.trimmed gone f).docs source = (group.docs source).map (Prod.map f id) := by
  cases group with
  | remarks => rfl
  | code comments n =>
    have hinfo := Group.info_trimmed source gone f (.code comments n)
    have hform := h n rfl ((Group.code comments n).info source)
    rw [Group.trimmed] at hinfo
    simp only [Group.trimmed, Group.docs, hinfo, hform, isEmpty_map, Node.id_trimmed,
      Documented.renamed, map_append]
    split <;> rfl

/-- The statements of a block none of whose own nodes is left out. -/
theorem readBlock_trimmed {n : Node} (hkept : ∀ c ∈ n.children, gone c.id = false)
    (h : ∀ c ∈ n.parts, (Position.statement c).Keeps source gone f) :
    readStatements source (n.trimmed gone f).children =
      (readStatements source n.children).renamed f (Statement.renamedAll f) := by
  have hchildren : (n.trimmed gone f).children = n.children.map (Node.trimmed gone f) := by
    rw [Node.children_trimmed, filter_eq_self.mpr fun c hc => by simp [hkept c hc]]
  have hcode : ∀ group ∈ Group.ofNodes source n.children, ∀ c ∈ group.code?,
      (Position.statement c).Keeps source gone f := by
    intro group hgroup c hc
    refine h c ?_
    rw [Node.parts, Node.namedChildren, ← Group.filterMap_code?_ofNodesAfter source []]
    exact mem_filterMap.mpr ⟨group, hgroup, hc⟩
  rw [readStatements, readStatements, hchildren, Group.ofNodes_trimmed]
  ext1
  · rw [value_readGroups, Documented.renamed, value_readGroups, Statement.renamedAll_eq_map,
      map_map, map_map]
    exact map_congr_left fun group hgroup => Group.statement_trimmed (hcode group hgroup)
  · rw [docs_readGroups, Documented.renamed, docs_readGroups, flatMap_map, map_flatMap]
    exact flatMap_congr fun group hgroup => docs_trimmed (hcode group hgroup)

theorem Node.parameters_trimmed {n : Node} (hloose : n.Loose gone) (info : Doc.Info) :
    (n.trimmed gone f).parameters.map (Node.param source info) =
      n.parameters.map (Node.param source info) := by
  rw [parameters, parameters, field?_trimmed f hloose]
  cases hlist : n.field? .parameters with
  | none => rfl
  | some list =>
    have hlist : list.Loose gone := hloose.of_child (mem_children_of_field? hlist)
    simp only [Option.map_some, parts_trimmed f hlist, map_map]
    refine map_congr_left fun c hc => ?_
    exact param_trimmed f (hlist.of_child (mem_children_of_mem_parts hc)) source info

theorem readFunction_trimmed {n : Node} (hloose : n.Loose gone)
    (hkind : n.kind.isFunctionLiteral = true)
    (h : ∀ c ∈ n.bodyParts, (Position.statement c).Keeps source gone f) (info : Doc.Info) :
    readFunction source info (n.trimmed gone f) =
      (readFunction source info n).renamed f (FunctionLiteral.renamed f) := by
  have hname : ((n.trimmed gone f).field? .name).map (Node.text source) =
      (n.field? .name).map (Node.text source) := by
    rw [Node.field?_trimmed f hloose, Option.map_map]
    simp only [Function.comp_def, Node.text_trimmed]
  rw [readFunction_eq, readFunction_eq, Node.field?_trimmed f hloose, hname,
    Node.parameters_trimmed hloose]
  cases hbody : n.field? .body with
  | none => rfl
  | some body =>
    have hparts : n.bodyParts = body.parts := by rw [Node.bodyParts, hbody]
    have hstatements := readBlock_trimmed
      (hloose.bodies n n.self_mem_nodes hkind body hbody) (hparts ▸ h)
    have hreturns := Node.anyReturns_trimmed f
      (hloose.of_child (Node.mem_children_of_field? hbody))
    simp only [Option.map_some, hstatements, hreturns]
    ext1
    · simp [Documented.renamed, FunctionLiteral.renamed]
    · simp [Documented.renamed]

/-- What is kept as text is searched. -/
theorem readOther_trimmed {n : Node} (hloose : n.Loose gone)
    (h : ∀ q ∈ n.children.map Position.search, q.Keeps source gone f) (text : String) :
    (do return Expr.other text (← readNested source (n.trimmed gone f).children)) =
      (do return Expr.other text (← readNested source n.children) : Documented Expr).renamed f
        (Expr.renamed f) := by
  rw [readNested_trimmed hloose (forall_mem_map.mp h)]
  exact Documented.renamed_return (fun _ => by rw [Expr.renamed]) _

theorem readBare_trimmed {n : Node} (hloose : n.Loose gone)
    (h : ∀ q ∈ n.shape.next, q.Keeps source gone f) (info : Doc.Info) :
    readBare source info (n.trimmed gone f) =
      (readBare source info n).renamed f (Expr.renamed f) := by
  rw [next_shape_eq_cases] at h
  rw [readBare_eq_cases, readBare_eq_cases, Node.kind_trimmed, Node.text_trimmed,
    Node.plainMember?_trimmed f hloose, Node.plainCall?_trimmed f hloose,
    Node.assignmentSides?_trimmed f hloose, Node.isPlainFunction_trimmed f hloose]
  split
  · rfl
  rename_i hname
  rw [if_neg hname] at h
  split
  · rfl
  rename_i hthis
  rw [if_neg hthis] at h
  match hmember : n.plainMember?, hcall : n.plainCall?, hsides : n.assignmentSides? with
  | some (object, property), _, _ =>
    rw [hmember] at h
    have hobject : readExpr source {} (object.trimmed gone f) = _ := h _ mem_cons_self {}
    simp only [Option.map_some, Prod.map, hobject, Node.text_trimmed]
    exact Documented.renamed_return (fun _ => by rw [Expr.renamed]) _
  | none, some (callee, args), _ =>
    rw [hmember, hcall] at h
    obtain ⟨hcallee, harguments⟩ := forall_mem_cons.mp h
    have hcallee : readExpr source {} (callee.trimmed gone f) = _ := hcallee {}
    have hargs : args.Loose gone :=
      hloose.of_child (Node.mem_children_of_field? (Node.plainCall?_eq_some hcall).2.2.1)
    have harguments := readArguments_trimmed (forall_mem_map.mp harguments)
    simp only [Option.map_none, Option.map_some, Prod.map, Node.parts_trimmed f hargs, hcallee,
      harguments]
    ext1
    · simp [Documented.renamed, Expr.renamed]
    · simp [Documented.renamed]
  | none, none, some (left, right) =>
    rw [hmember, hcall, hsides] at h
    obtain ⟨hleft, hright⟩ := forall_mem_cons.mp h
    have hleft : readExpr source {} (left.trimmed gone f) = _ := hleft {}
    have hright : readExpr source info (right.trimmed gone f) = _ :=
      forall_mem_singleton.mp hright info
    simp only [Option.map_none, Option.map_some, Prod.map, hleft, hright, Node.id_trimmed]
    ext1
    · simp [Documented.renamed, Expr.renamed, Assignment.renamed]
    · simp [Documented.renamed]
  | none, none, none =>
    rw [hmember, hcall, hsides] at h
    simp only [Option.map_none] at h ⊢
    split
    · rename_i hplain
      rw [if_pos hplain] at h
      rw [readFunction_trimmed hloose (Node.isPlainFunction_kind hplain) (forall_mem_map.mp h)]
      exact Documented.renamed_return (fun _ => by rw [Expr.renamed]) _
    · rename_i hplain
      rw [if_neg hplain] at h
      exact readOther_trimmed hloose h _

theorem readExpr_trimmed {n : Node} (hloose : n.Loose gone)
    (h : ∀ q ∈ (Position.expression n).next, q.Keeps source gone f) (info : Doc.Info) :
    readExpr source info (n.trimmed gone f) =
      (readExpr source info n).renamed f (Expr.renamed f) := by
  rw [readExpr_eq, readExpr_eq, Node.unwrapped_trimmed f hloose]
  exact readBare_trimmed (hloose.of_mem n.unwrapped_mem_nodes) h info

theorem readArgument_trimmed {n : Node} (hloose : n.Loose gone)
    (h : ∀ q ∈ (Position.argument n).next, q.Keeps source gone f) :
    readArgument source (n.trimmed gone f) =
      (readArgument source n).renamed f (Expr.renamed f) := by
  rw [Position.next] at h
  rw [readArgument, readArgument, Node.kind_trimmed, Node.text_trimmed, Node.parts_trimmed f hloose]
  split
  · rename_i hkind
    rw [if_pos hkind] at h
    rcases hparts : n.parts with _ | ⟨inner, _ | ⟨second, rest⟩⟩ <;> rw [hparts] at h
    · exact readOther_trimmed hloose h _
    · have hinner : readExpr source {} (inner.trimmed gone f) = _ := forall_mem_singleton.mp h {}
      simp only [map_singleton, hinner]
      exact Documented.renamed_return (fun _ => by rw [Expr.renamed]) _
    · exact readOther_trimmed hloose h _
  · rename_i hkind
    rw [if_neg hkind] at h
    exact forall_mem_singleton.mp h {}

theorem searchNode_trimmed {n : Node} (hloose : n.Loose gone)
    (h : ∀ q ∈ (Position.search n).next, q.Keeps source gone f) :
    searchNode source (n.trimmed gone f) =
      (searchNode source n).renamed f (Assignment.renamedAll f) := by
  rw [Position.next] at h
  rw [searchNode, searchNode, Node.kind_trimmed]
  split
  · rename_i hkind
    rw [if_pos hkind] at h
    have hexpr : readExpr source {} (n.trimmed gone f) = _ := forall_mem_singleton.mp h {}
    rw [hexpr]
    ext1
    · simp only [Documented.value_bind, Documented.renamed]
      cases (readExpr source {} n).value <;> rfl
    · simp only [Documented.docs_bind, Documented.renamed, map_append]
      cases (readExpr source {} n).value <;> rfl
  · rename_i hkind
    rw [if_neg hkind] at h
    exact readNested_trimmed hloose (forall_mem_map.mp h)

theorem readForm_trimmed {n : Node} (hloose : n.Loose gone)
    (h : ∀ q ∈ (Position.statement n).next, q.Keeps source gone f) (info : Doc.Info) :
    readForm source info (n.trimmed gone f) =
      (readForm source info n).renamed f (Form.renamed f) := by
  rw [Position.next, next_statementShape_eq_cases] at h
  have hother : (∀ q ∈ n.children.map Position.search, q.Keeps source gone f) →
      (do return Form.other (← readNested source (n.trimmed gone f).children)) =
        (do return Form.other (← readNested source n.children) : Documented Form).renamed f
          (Form.renamed f) := by
    intro hall
    rw [readNested_trimmed hloose (forall_mem_map.mp hall)]
    exact Documented.renamed_return (fun _ => by rw [Form.renamed]) _
  rw [readForm_eq_cases, readForm_eq_cases, Node.kind_trimmed, Node.parts_trimmed f hloose,
    Node.singleDeclaration?_trimmed f hloose]
  split
  · rename_i hkind
    rw [if_pos hkind] at h
    rcases hparts : n.parts with _ | ⟨e, _ | ⟨second, rest⟩⟩ <;> rw [hparts] at h
    · exact hother h
    · have he : readExpr source info (e.trimmed gone f) = _ := forall_mem_singleton.mp h info
      simp only [map_singleton, he]
      exact Documented.renamed_return (fun _ => by rw [Form.renamed]) _
    · exact hother h
  rename_i hexpression
  rw [if_neg hexpression] at h
  split
  · rename_i hkind
    rw [if_pos hkind] at h
    rcases hparts : n.parts with _ | ⟨e, _ | ⟨second, rest⟩⟩ <;> rw [hparts] at h
    · rfl
    · have he : readExpr source info (e.trimmed gone f) = _ := forall_mem_singleton.mp h info
      simp only [map_singleton, he]
      exact Documented.renamed_return (fun _ => by rw [Form.renamed]) _
    · exact hother h
  rename_i hreturn
  rw [if_neg hreturn] at h
  rcases hdeclaration : n.singleDeclaration? with _ | ⟨name, _ | value, keyword⟩ <;>
    rw [hdeclaration] at h
  · exact hother h
  · simp only [Option.map_some, Option.map_none, Node.text_trimmed]
    rfl
  · have hvalue : readExpr source info (value.trimmed gone f) = _ := forall_mem_singleton.mp h info
    simp only [Option.map_some, Node.text_trimmed, hvalue]
    exact Documented.renamed_return (fun _ => by rw [Form.renamed]) _

/-- Reading goes on to nodes that have only such comments below them, too. -/
theorem Position.keeps (p : Position) (h : p.node.Loose gone) : p.Keeps source gone f := by
  induction p using Position.induction with
  | step p ih =>
    have hnext : ∀ q ∈ p.next, q.Keeps source gone f := fun q hq =>
      ih q hq (h.of_mem (p.nodes_subset _ (next_spec hq).1))
    cases p with
    | expression n => exact readExpr_trimmed h hnext
    | argument n => exact readArgument_trimmed h hnext
    | search n => exact searchNode_trimmed h hnext
    | statement n => exact readForm_trimmed h hnext

/-- The statements of a tree none of whose top-level nodes is left out. -/
theorem readStatements_trimmed {n : Node} (hloose : n.Loose gone)
    (hkept : ∀ c ∈ n.children, gone c.id = false) (source : ByteArray) :
    readStatements source (n.trimmed gone f).children =
      (readStatements source n.children).renamed f (Statement.renamedAll f) :=
  readBlock_trimmed hkept fun c hc =>
    Position.keeps (.statement c) (hloose.of_child (Node.mem_children_of_mem_parts hc))

end

end OverrideElision.Syntax
