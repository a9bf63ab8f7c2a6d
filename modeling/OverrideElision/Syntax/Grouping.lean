import OverrideElision.Doc.Comment
import OverrideElision.Syntax.Node
import OverrideElision.Text.Utf8

/-! # Comments and the code they precede

Among the children of a block, comments belong to the next code. A comment that describes its file
ends its group without code, and so do the comments after the last code. Tokens, such as the braces
of the block, belong to no group. -/

namespace OverrideElision.Syntax

/-- The source text of a node. -/
def Node.text (source : ByteArray) (n : Node) : String :=
  Text.sliceUtf8 source n.start n.stop

/-- The source text from the start of one node to the end of another. -/
def Node.textThrough (source : ByteArray) (first last : Node) : String :=
  Text.sliceUtf8 source first.start last.stop

/-- Comments without code, or code with the comments in front of it. -/
inductive Group where
  | remarks (first : Node) (more : List Node)
  | code (comments : List Node) (node : Node)

namespace Group

/-- The comments of a group. -/
def comments : Group → List Node
  | .remarks first more => first :: more
  | .code comments _ => comments

/-- The node that a group starts with. -/
def first : Group → Node
  | .remarks first _ => first
  | .code comments node => comments.headD node

/-- The node that a group ends with. -/
def last : Group → Node
  | .remarks first more => more.getLastD first
  | .code _ node => node

/-- The nodes of a group in their order. -/
def nodes : Group → List Node
  | .remarks first more => first :: more
  | .code comments node => comments ++ [node]

/-- The comments `pending` as a group, unless there are none. -/
def ofPending : List Node → List Group
  | [] => []
  | first :: more => [.remarks first more]

/-- The groups of a list of nodes after the comments `pending`. -/
def ofNodesAfter (source : ByteArray) (pending : List Node) : List Node → List Group
  | [] => ofPending pending
  | n :: rest =>
    if n.kind = .comment then
      if Doc.isFileLevel (n.text source) then
        ofPending (pending ++ [n]) ++ ofNodesAfter source [] rest
      else ofNodesAfter source (pending ++ [n]) rest
    else if n.named then .code pending n :: ofNodesAfter source [] rest
    else ofNodesAfter source pending rest

/-- The groups of the children of a block. -/
def ofNodes (source : ByteArray) (nodes : List Node) : List Group :=
  ofNodesAfter source [] nodes

/-- What the comments of a group say about its code. -/
def info (source : ByteArray) (group : Group) : Doc.Info :=
  .ofComments (group.comments.map (Node.text source))

/-- The source text of a group, from its first node to its last. -/
def text (source : ByteArray) (group : Group) : String :=
  group.first.textThrough source group.last

/-- The identity of the statement that a group is: that of its code, or of its first comment. -/
def id : Group → Nat
  | .remarks first _ => first.id
  | .code _ node => node.id

/-- The number of nodes in a list of groups. -/
def sizeAll : List Group → Nat
  | [] => 0
  | group :: rest => Node.sizeAll group.nodes + sizeAll rest

theorem sizeAll_nodes_append (ns ms : List Node) :
    Node.sizeAll (ns ++ ms) = Node.sizeAll ns + Node.sizeAll ms := by
  induction ns with
  | nil => simp [Node.sizeAll]
  | cons n ns ih => simp [Node.sizeAll, ih, Nat.add_assoc]

theorem sizeAll_ofPending (pending : List Node) :
    sizeAll (ofPending pending) = Node.sizeAll pending := by
  cases pending <;> rfl

theorem sizeAll_append (as bs : List Group) : sizeAll (as ++ bs) = sizeAll as + sizeAll bs := by
  induction as with
  | nil => simp [sizeAll]
  | cons a as ih => simp [sizeAll, ih, Nat.add_assoc]

theorem sizeAll_ofNodesAfter_le (source : ByteArray) (pending nodes : List Node) :
    sizeAll (ofNodesAfter source pending nodes) ≤ Node.sizeAll pending + Node.sizeAll nodes := by
  induction nodes generalizing pending with
  | nil =>
    rw [ofNodesAfter, sizeAll_ofPending]
    exact Nat.le_add_right _ _
  | cons n rest ih =>
    have hn : Node.sizeAll [n] = n.size := by simp [Node.sizeAll]
    rw [ofNodesAfter, Node.sizeAll_cons]
    split
    · split
      · have := ih []
        rw [sizeAll_append, sizeAll_ofPending, sizeAll_nodes_append]
        simp only [Node.sizeAll] at *
        omega
      · have := ih (pending ++ [n])
        rw [sizeAll_nodes_append] at this
        omega
    · split
      · have := ih []
        simp only [sizeAll, nodes, sizeAll_nodes_append, Node.sizeAll] at *
        omega
      · have := ih pending
        omega

theorem sizeAll_ofNodes_le (source : ByteArray) (nodes : List Node) :
    sizeAll (ofNodes source nodes) ≤ Node.sizeAll nodes := by
  simpa [ofNodes, Node.sizeAll] using sizeAll_ofNodesAfter_le source [] nodes

theorem sizeAll_nodes_pos (group : Group) : 0 < Node.sizeAll group.nodes := by
  cases group with
  | remarks first more =>
    have := first.size_pos
    simp only [nodes, Node.sizeAll]
    omega
  | code comments node =>
    have := node.size_pos
    simp only [nodes, sizeAll_nodes_append, Node.sizeAll]
    omega

end Group

end OverrideElision.Syntax
