import OverrideElision.Proofs.Syntax.Procedures

/-! # Reading comes to its end

However damaged a tree is, reading it by procedures ends, without a fault, with the statements that
the readers give. The calls that it makes go down the tree: the ones about the same node go through
the procedures in one order, and a procedure that is called again is called about nodes below. -/

namespace OverrideElision.Syntax

open List

variable (source : ByteArray)

/-! ## Right answers -/

/-- The right answer to a call. -/
def Call.reading : (c : Call) → Documented c.Answer
  | .statements nodes => readStatements source nodes
  | .statement n info => readForm source info n
  | .expression n info => readExpr source (info.getD {}) n
  | .nested n => readNested source n.children
  | .arguments n => readArguments source n.parts
  | .function n info => readFunction source (info.getD {}) n

namespace Steps

variable {α β : Type}

/-- The value that steps come to when their calls are answered rightly. -/
def answered (s : Steps α) : Noting α := s.eval fun c => (c.reading source).told

@[simp]
theorem answered_pure (value : α) : (pure value : Steps α).answered source = pure value := rfl

@[simp]
theorem answered_bind (s : Steps α) (next : α → Steps β) :
    (s >>= next).answered source =
      s.answered source >>= fun value => (next value).answered source :=
  eval_bind _ s next

@[simp]
theorem answered_map (f : α → β) (s : Steps α) :
    (f <$> s).answered source = f <$> s.answered source := by
  rw [map_eq_pure_bind, map_eq_pure_bind, answered_bind]
  rfl

@[simp]
theorem answered_callStatements (nodes : List Node) :
    (callStatements nodes).answered source = (readStatements source nodes).told := rfl

@[simp]
theorem answered_callExpression (n : Node) (info : Option Doc.Info) :
    (callExpression n info).answered source = (readExpr source (info.getD {}) n).told := rfl

@[simp]
theorem answered_callNested (n : Node) :
    (callNested n).answered source = (readNested source n.children).told := rfl

@[simp]
theorem answered_callArguments (n : Node) :
    (callArguments n).answered source = (readArguments source n.parts).told := rfl

@[simp]
theorem answered_callFunction (n : Node) (info : Option Doc.Info) :
    (callFunction n info).answered source = (readFunction source (info.getD {}) n).told := rfl

end Steps

open Steps

theorem Shape.answered_steps (info : Option Doc.Info) {n : Node} (shape : Shape n) :
    (shape.steps source info).answered source = (shape.read source (info.getD {})).told := by
  cases shape <;> simp [steps, read]

theorem StatementShape.answered_steps (info : Doc.Info) {n : Node} (shape : StatementShape n) :
    (shape.steps source info).answered source = (shape.read source info).told := by
  cases shape <;> simp [steps, read]

theorem Group.answered_steps (group : Group) :
    (group.steps source).answered source =
      Documented.told ⟨group.statement source, group.docs source⟩ := by
  funext noted
  cases group with
  | remarks first more =>
    rw [Documented.told, docs, append_nil]
    rfl
  | code comments n =>
    cases comments with
    | nil =>
      rw [Documented.told, docs, isEmpty_nil, if_pos rfl, append_nil]
      rfl
    | cons comment comments =>
      rw [Documented.told, docs, isEmpty_cons, if_neg Bool.false_ne_true, ← append_assoc]
      rfl

theorem answered_groups (groups : List Group) :
    (groups.mapM (Group.steps source)).answered source = (readGroups source groups).told := by
  induction groups with
  | nil =>
    rw [readGroups, mapM_nil, Documented.told_pure]
    rfl
  | cons group rest ih =>
    let read : Documented Statement := ⟨group.statement source, group.docs source⟩
    have hvalue : (readGroups source (group :: rest)).value =
        read.value :: (readGroups source rest).value := by
      rw [value_readGroups, value_readGroups, map_cons]
    have hdocs : (readGroups source (group :: rest)).docs =
        read.docs ++ (readGroups source rest).docs := by
      rw [docs_readGroups, docs_readGroups, flatMap_cons]
    rw [mapM_cons, Documented.told_eq hvalue hdocs]
    simp only [answered_bind, ih, Group.answered_steps, answered_pure, read]

theorem answered_argument (n : Node) :
    (Procedure.argument source n).answered source = (readArgument source n).told := by
  unfold Procedure.argument readArgument
  split
  · match n.parts with
    | [] | [_] | _ :: _ :: _ => simp
  · rfl

theorem answered_arguments (nodes : List Node) :
    (nodes.mapM (Procedure.argument source)).answered source =
      (readArguments source nodes).told := by
  induction nodes with
  | nil =>
    rw [readArguments, mapM_nil, Documented.told_pure]
    rfl
  | cons n rest ih =>
    obtain ⟨hvalue, hdocs⟩ := readArguments_cons source n rest
    rw [mapM_cons, Documented.told_eq hvalue hdocs]
    simp only [answered_bind, ih, answered_argument, answered_pure]

/-! ### Searching -/

theorem told_readNested_cons (n : Node) (rest : List Node) :
    (readNested source (n :: rest)).told = do
      return (← (searchNode source n).told) ++ (← (readNested source rest).told) :=
  have ⟨hvalue, hdocs⟩ := readNested_cons source n rest
  Documented.told_eq hvalue hdocs

theorem told_readNested_append (nodes more : List Node) :
    (readNested source (nodes ++ more)).told = do
      return (← (readNested source nodes).told) ++ (← (readNested source more).told) := by
  induction nodes with
  | nil =>
    rw [readNested, Documented.told_pure]
    simp
  | cons n rest ih =>
    rw [cons_append, told_readNested_cons, told_readNested_cons, ih]
    simp only [bind_assoc, pure_bind, append_assoc]

/-- What has the kind of an assignment is read as an assignment or is kept as text. -/
theorem value_readExpr_of_assignment (info : Doc.Info) {n : Node}
    (h : n.kind = .assignmentExpression) :
    (∃ a, (readExpr source info n).value = .assign a) ∨
      ∃ text assignments, (readExpr source info n).value = .other text assignments := by
  rw [readExpr_eq_shape, Node.unwrapped_of_kind (by simp [h])]
  cases n.shape with
  | name hkind | this hkind => cases h.symm.trans hkind
  | member _ _ hmember => cases h.symm.trans (Node.plainMember?_eq_some hmember).1
  | call _ _ hcall => cases h.symm.trans (Node.plainCall?_eq_some hcall).1
  | function hplain =>
    have hliteral := Node.isPlainFunction_kind hplain
    rw [h] at hliteral
    cases hliteral
  | assign => exact .inl ⟨_, rfl⟩
  | other => exact .inr ⟨_, _, rfl⟩

/-- The search with a stack finds what the search down the tree finds. -/
theorem answered_nestedFrom (stack : List Node) :
    (Procedure.nestedFrom stack).answered source = (readNested source stack).told := by
  fun_induction Procedure.nestedFrom stack with
  | case1 =>
    rw [readNested, Documented.told_pure]
    rfl
  | case2 n stack hkind ih =>
    rw [told_readNested_cons, searchNode, if_pos hkind]
    simp only [answered_bind, answered_callExpression, Documented.told_bind, bind_assoc]
    refine Documented.told_bind_congr ?_
    rcases value_readExpr_of_assignment source {} hkind with ⟨a, hvalue⟩ | ⟨text, as, hvalue⟩
    · rw [Option.getD_none, hvalue]
      simp [ih]
    · rw [Option.getD_none, hvalue]
      simp [ih, assignmentsIn]
  | case3 n stack hkind ih =>
    rw [ih, told_readNested_append, told_readNested_cons, searchNode, if_neg hkind]

/-- With right answers to the calls that it makes, a call is answered rightly. -/
theorem Call.answered_steps (c : Call) :
    (c.steps source).answered source = (c.reading source).told := by
  cases c with
  | statements nodes =>
    rw [steps, Procedure.statementsAfter_eq, answered_groups]
    rfl
  | statement n info =>
    rw [steps, Procedure.statement_eq, StatementShape.answered_steps, ← readForm_eq]
    rfl
  | expression n info =>
    rw [steps, Procedure.expression_eq, Shape.answered_steps, ← readExpr_eq_shape]
    rfl
  | nested n => exact answered_nestedFrom source n.children
  | arguments n => exact answered_arguments source n.parts
  | function n info =>
    rw [steps, Procedure.function_eq, reading, readFunction_eq]
    cases n.field? .body <;> simp

/-! ## Calls go down -/

namespace Node

variable {n m x : Node}

theorem mem_descendants_of_mem_nodes (hm : m ∈ n.descendants) (hx : x ∈ m.nodes) :
    x ∈ n.descendants := by
  obtain ⟨c, hc, hm⟩ := mem_flatMap.mp hm
  exact mem_descendants_of_child hc (mem_nodes_trans hm hx)

theorem mem_descendants_of_mem_descendants (hm : m ∈ n.nodes) (hx : x ∈ m.descendants) :
    x ∈ n.descendants := by
  rw [nodes_eq_cons] at hm
  rcases mem_cons.mp hm with rfl | hm
  · exact hx
  · exact mem_descendants_of_mem_nodes hm (mem_nodes_of_mem_descendants hx)

end Node

namespace Callee

/-- Calls about one and the same node go from a higher rank to a lower one. -/
def rank : Callee → Nat
  | .statements => 3
  | .statement => 2
  | .expression => 1
  | .nested | .arguments | .function => 0

theorem rank_le (callee : Callee) : callee.rank ≤ 3 := by
  cases callee <;> decide

end Callee

namespace Call

/-- All nodes of the call `d` are nodes of the call `c` or below them. -/
def Inside (d c : Call) : Prop := ∀ m ∈ d.nodes, ∃ n ∈ c.nodes, m ∈ n.nodes

/-- All nodes of the call `d` are below nodes of the call `c`. -/
def Below (d c : Call) : Prop := ∀ m ∈ d.nodes, ∃ n ∈ c.nodes, m ∈ n.descendants

/-- From a call it goes down to one of a lower rank about the same node or an inner one, to a call
about a node below, or to one about the children of a node below. -/
inductive GoesTo (c : Call) : Call → Prop where
  | same {d : Call} {n m : Node} : d.nodes = [m] → n ∈ c.nodes → m ∈ n.nodes →
      d.callee.rank < c.callee.rank → GoesTo c d
  | below {d : Call} {n m : Node} : d.nodes = [m] → n ∈ c.nodes → m ∈ n.descendants → GoesTo c d
  | block {n body : Node} : n ∈ c.nodes → body ∈ n.descendants →
      GoesTo c (.statements body.children)

variable {c d e : Call}

theorem Below.inside (h : d.Below c) : d.Inside c := by
  intro m hm
  obtain ⟨n, hn, hm⟩ := h m hm
  exact ⟨n, hn, Node.mem_nodes_of_mem_descendants hm⟩

theorem Inside.trans (h : e.Inside d) (hd : d.Inside c) : e.Inside c := by
  intro x hx
  obtain ⟨m, hm, hx⟩ := h x hx
  obtain ⟨n, hn, hm⟩ := hd m hm
  exact ⟨n, hn, Node.mem_nodes_trans hm hx⟩

theorem Inside.trans_below (h : e.Inside d) (hd : d.Below c) : e.Below c := by
  intro x hx
  obtain ⟨m, hm, hx⟩ := h x hx
  obtain ⟨n, hn, hm⟩ := hd m hm
  exact ⟨n, hn, Node.mem_descendants_of_mem_nodes hm hx⟩

theorem Below.trans_inside (h : e.Below d) (hd : d.Inside c) : e.Below c := by
  intro x hx
  obtain ⟨m, hm, hx⟩ := h x hx
  obtain ⟨n, hn, hm⟩ := hd m hm
  exact ⟨n, hn, Node.mem_descendants_of_mem_descendants hm hx⟩

theorem GoesTo.below_or (h : c.GoesTo d) :
    d.Below c ∨ d.Inside c ∧ d.callee.rank < c.callee.rank := by
  cases h with
  | @same _ n m hnodes hn hm hrank =>
    refine .inr ⟨fun x hx => ?_, hrank⟩
    rw [hnodes, mem_singleton] at hx
    exact ⟨n, hn, hx ▸ hm⟩
  | @below _ n m hnodes hn hm =>
    refine .inl fun x hx => ?_
    rw [hnodes, mem_singleton] at hx
    exact ⟨n, hn, hx ▸ hm⟩
  | @block n body hn hbody =>
    exact .inl fun x hx => ⟨n, hn, Node.mem_descendants_of_mem_nodes hbody
      (Node.mem_nodes_of_child hx x.self_mem_nodes)⟩

/-- Along a chain of calls that never goes below, the rank has gone down at every call. -/
theorem below_or_of_transGen (h : Relation.TransGen GoesTo c d) :
    d.Below c ∨ d.Inside c ∧ d.callee.rank < c.callee.rank := by
  induction h with
  | single h => exact h.below_or
  | tail _ h ih =>
    rcases ih with hd | ⟨hd, hrank⟩ <;> rcases h.below_or with he | ⟨he, hrank'⟩
    · exact .inl (he.inside.trans_below hd)
    · exact .inl (he.trans_below hd)
    · exact .inl (he.trans_inside hd)
    · exact .inr ⟨he.trans hd, hrank'.trans hrank⟩

/-- Fewer calls than this are open below the call at any time. -/
def rank (c : Call) : Nat := 4 * Node.sizeAll c.nodes + c.callee.rank

theorem GoesTo.rank_lt (h : c.GoesTo d) : d.rank < c.rank := by
  have hrank := d.callee.rank_le
  cases h with
  | same hnodes hn hm =>
    have := Node.size_le_of_mem_nodes hm
    have := Node.size_le_sizeAll hn
    rw [rank, rank, hnodes, Node.sizeAll, Node.sizeAll]
    omega
  | below hnodes hn hm =>
    have := Node.size_lt_of_mem_descendants hm
    have := Node.size_le_sizeAll hn
    rw [rank, rank, hnodes, Node.sizeAll, Node.sizeAll]
    omega
  | @block n body hn hbody =>
    have := Node.size_lt_of_mem_descendants hbody
    have := Node.size_le_sizeAll hn
    have := body.size_eq
    rw [rank, rank, nodes]
    omega

end Call

/-! ## Calls that are made -/

variable {source}

theorem Procedure.callsOnly_nestedFrom {P : Call → Prop} {stack : List Node}
    (h : ∀ n ∈ stack.flatMap Node.nodes, P (.expression n none)) :
    (nestedFrom stack).CallsOnly P := by
  fun_induction nestedFrom stack with
  | case1 => exact .pure []
  | case2 n stack hkind ih =>
    rw [flatMap_cons, forall_mem_append] at h
    refine .bind (.call (h.1 n n.self_mem_nodes)) fun converted => ?_
    cases converted with
    | assign a => exact .bind (.pure _) fun _ => (ih h.2).map
    | _ => exact .bind (.assignmentsIn _) fun _ => (ih h.2).map
  | case3 n stack hkind ih =>
    refine ih fun m hm => h m ?_
    rw [flatMap_append] at hm
    rw [flatMap_cons, Node.nodes_eq, cons_append]
    exact mem_cons_of_mem _ hm

theorem Procedure.callsOnly_argument {P : Call → Prop} {n : Node}
    (hexpression : ∀ e ∈ n.nodes, P (.expression e none)) (hnested : P (.nested n)) :
    (argument source n).CallsOnly P := by
  unfold argument
  split
  · match hparts : n.parts with
    | [] | _ :: _ :: _ => exact .map (.call hnested)
    | [inner] =>
      have hinner := Node.mem_children_of_mem_parts (hparts ▸ mem_singleton_self inner)
      have hmem := Node.mem_nodes_of_child hinner inner.self_mem_nodes
      exact .map (.call (hexpression inner hmem))
  · exact .call (hexpression n n.self_mem_nodes)

/-- An expression is read by calls about its children, or handed on as it is without parentheses. -/
theorem Shape.callsOnly_steps {n p : Node} {info : Option Doc.Info} (shape : Shape p)
    (hp : p ∈ n.nodes) :
    (shape.steps source info).CallsOnly (Call.expression n info).GoesTo := by
  have hchild : ∀ {d : Call} {m : Node}, d.nodes = [m] → m ∈ p.children →
      (Call.expression n info).GoesTo d := fun hnodes hm =>
    .below hnodes mem_cons_self
      (Node.mem_descendants_of_mem_descendants hp (Node.child_mem_descendants hm))
  cases shape with
  | name | this => exact .pure _
  | member object property hmember =>
    obtain ⟨_, hobject, _⟩ := Node.plainMember?_eq_some hmember
    exact .map (.call (hchild rfl (Node.mem_children_of_field? hobject)))
  | call callee args hcall =>
    obtain ⟨_, hcallee, hargs, _⟩ := Node.plainCall?_eq_some hcall
    exact .bind (.call (hchild rfl (Node.mem_children_of_field? hcallee))) fun _ =>
      .map (.call (hchild rfl (Node.mem_children_of_field? hargs)))
  | assign left right hsides =>
    obtain ⟨_, hleft, hright⟩ := Node.assignmentSides?_eq_some_iff.mp hsides
    exact .bind (.call (hchild rfl (Node.mem_children_of_field? hleft))) fun _ =>
      .map (.call (hchild rfl (Node.mem_children_of_field? hright)))
  | function | other => exact .map (.call (.same rfl mem_cons_self hp Nat.one_pos))

theorem StatementShape.callsOnly_steps {n : Node} {info : Doc.Info} (shape : StatementShape n) :
    (shape.steps source info).CallsOnly (Call.statement n info).GoesTo := by
  have hbelow : ∀ e ∈ n.descendants,
      (Call.statement n info).GoesTo (.expression e (some info)) := fun e he =>
    .below rfl mem_cons_self he
  cases shape with
  | ret | declBare => exact .pure _
  | expr e _ hparts | retValue e hparts =>
    have he := Node.mem_children_of_mem_parts (hparts ▸ mem_singleton_self e)
    exact .map (.call (hbelow e (Node.child_mem_descendants he)))
  | decl name value keyword hdeclaration =>
    have hvalue := Node.mem_descendants_of_singleDeclaration? hdeclaration
    exact .map (.call (hbelow value hvalue))
  | other => exact .map (.call (.same rfl mem_cons_self n.self_mem_nodes Nat.two_pos))

theorem Group.callsOnly_steps {nodes : List Node} {group : Group}
    (h : ∀ n, group.code? = some n → n ∈ nodes) :
    (group.steps source).CallsOnly (Call.statements nodes).GoesTo := by
  cases group with
  | remarks first more => exact .pure _
  | code comments n =>
    refine .bind (.call (.same rfl (h n rfl) n.self_mem_nodes (Nat.lt_succ_self 2))) fun _ => ?_
    cases comments with
    | nil => exact .pure _
    | cons comment comments => exact .map (.note _ _)

/-- Every call that is made goes down. -/
theorem Call.callsOnly_steps (c : Call) : (c.steps source).CallsOnly c.GoesTo := by
  cases c with
  | statements nodes =>
    rw [steps, Procedure.statementsAfter_eq]
    refine .mapM fun group hgroup => Group.callsOnly_steps fun n hn => ?_
    cases group with
    | remarks => cases hn
    | code comments m =>
      cases hn
      exact Group.mem_of_code_mem_ofNodesAfter hgroup
  | statement n info =>
    rw [steps, Procedure.statement_eq]
    exact n.statementShape.callsOnly_steps
  | expression n info =>
    rw [steps, Procedure.expression_eq]
    exact n.unwrapped.shape.callsOnly_steps n.unwrapped_mem_nodes
  | nested n => exact Procedure.callsOnly_nestedFrom fun m hm => .below rfl mem_cons_self hm
  | arguments n =>
    refine .mapM fun arg harg => ?_
    have harg := Node.mem_children_of_mem_parts harg
    exact Procedure.callsOnly_argument
      (fun e he => .below rfl mem_cons_self (Node.mem_descendants_of_child harg he))
      (.below rfl mem_cons_self (Node.child_mem_descendants harg))
  | function n info =>
    rw [steps, Procedure.function_eq]
    cases hbody : n.field? .body with
    | none => exact .pure _
    | some body =>
      have hbelow := Node.child_mem_descendants (Node.mem_children_of_field? hbody)
      exact .map (.call (.block mem_cons_self hbelow))

/-! ## Runs -/

/-- A run that may have enough calls open answers the call rightly. -/
theorem Call.run_eq {c : Call} {limit : Nat} (h : c.rank < limit) :
    c.run source limit = (c.reading source).told := by
  induction limit generalizing c with
  | zero => cases h
  | succ limit ih =>
    rw [run, ← answered_steps, answered]
    refine eval_congr fun d hd => ih ?_
    exact Nat.lt_of_lt_of_le (c.callsOnly_steps d hd).rank_lt (Nat.le_of_lt_succ h)

/-- Reading comes to its end whatever the trees are. The statements at nodes are read without a
fault when four calls can be open for each node and four more. Calls about one node go from a higher
rank to a lower one, and a procedure that is called again is called about nodes below. What has the
kind of an assignment keeps assignments when it is not read as one. -/
structure ReadsAnyTree (source : ByteArray) : Prop where
  ends : ∀ nodes limit noted, 4 * (Node.sizeAll nodes + 1) ≤ limit →
    ((Call.statements nodes).run source limit).run noted =
      .ok ((readStatements source nodes).value, noted ++ (readStatements source nodes).docs)
  goesDown : ∀ c d : Call, c.Makes source d →
    d.Below c ∨ d.Inside c ∧ d.callee.rank < c.callee.rank
  recursesBelow : ∀ c d : Call, Relation.TransGen (Call.Makes source) c d →
    d.callee = c.callee → d.Below c
  keepsAssignments : ∀ n info, n.kind = .assignmentExpression →
    (∃ a, (readExpr source info n).value = .assign a) ∨
      ∃ text assignments, (readExpr source info n).value = .other text assignments

/-- No tree is too damaged to be read. -/
theorem reads_any_tree (source : ByteArray) : ReadsAnyTree source := by
  have hgoes : Call.Makes source ≤ Call.GoesTo := fun c d h => c.callsOnly_steps d h
  constructor
  case ends =>
    intro nodes limit noted hlimit
    have hrank : (Call.statements nodes).rank < limit := by
      rw [Call.rank, Call.nodes, Call.callee, Callee.rank]
      omega
    exact congrFun (Call.run_eq hrank) noted
  case goesDown => exact fun c d h => (hgoes c d h).below_or
  case recursesBelow =>
    intro c d h hcallee
    rcases Call.below_or_of_transGen (Relation.TransGen.mono hgoes c d h) with h | ⟨_, hrank⟩
    · exact h
    · rw [hcallee] at hrank
      exact absurd hrank (Nat.lt_irrefl _)
  case keepsAssignments => exact fun n info hkind => value_readExpr_of_assignment source info hkind

end OverrideElision.Syntax
