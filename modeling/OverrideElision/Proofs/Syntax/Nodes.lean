import Mathlib.Data.List.Basic
import Mathlib.Data.List.Flatten
import Mathlib.Data.List.Nodup
import Mathlib.Data.List.Range
import OverrideElision.Syntax.Reading

/-! # The nodes of syntax trees

All nodes of a tree, a node before those below it. Numbering gives each of them a number of its own,
over all the trees of a list of sources. -/

namespace OverrideElision.Syntax

open List

mutual

/-- The node and all nodes below it. -/
def Node.nodes : Node → List Node
  | ⟨kind, named, field, start, stop, id, children⟩ =>
    ⟨kind, named, field, start, stop, id, children⟩ :: Node.nodesAll children

/-- The nodes of several trees, one tree after the other. -/
def Node.nodesAll : List Node → List Node
  | [] => []
  | n :: ns => n.nodes ++ Node.nodesAll ns

end

namespace Node

theorem nodesAll_eq_flatMap (ns : List Node) : nodesAll ns = ns.flatMap nodes := by
  induction ns with
  | nil => rfl
  | cons n ns ih => rw [nodesAll, ih, flatMap_cons]

theorem nodes_eq (n : Node) : n.nodes = n :: n.children.flatMap nodes := by
  cases n
  rw [nodes, nodesAll_eq_flatMap]

theorem self_mem_nodes (n : Node) : n ∈ n.nodes := by
  rw [nodes_eq]
  exact mem_cons_self

theorem mem_nodes_of_child {n c m : Node} (hc : c ∈ n.children) (hm : m ∈ c.nodes) :
    m ∈ n.nodes := by
  rw [nodes_eq]
  exact mem_cons_of_mem _ (mem_flatMap.mpr ⟨c, hc, hm⟩)

theorem mem_nodes_trans {n m x : Node} (hm : m ∈ n.nodes) (hx : x ∈ m.nodes) : x ∈ n.nodes := by
  rw [nodes_eq] at hm
  rcases mem_cons.mp hm with rfl | hm
  · exact hx
  · obtain ⟨c, hc, hm⟩ := mem_flatMap.mp hm
    have := size_lt_of_mem hc
    exact mem_nodes_of_child hc (mem_nodes_trans hm hx)
termination_by n.size

theorem size_le_of_mem_nodes {n m : Node} (h : m ∈ n.nodes) : m.size ≤ n.size := by
  rw [nodes_eq] at h
  rcases mem_cons.mp h with rfl | h
  · exact Nat.le_refl _
  · obtain ⟨c, hc, hm⟩ := mem_flatMap.mp h
    have := size_lt_of_mem hc
    exact Nat.le_trans (size_le_of_mem_nodes hm) (Nat.le_of_lt this)
termination_by n.size

theorem unwrapped_mem_nodes (n : Node) : n.unwrapped ∈ n.nodes := by
  fun_induction unwrapped n with
  | case1 n _ inner hparts _ ih =>
    exact mem_nodes_of_child (mem_children_of_mem_parts (hparts ▸ mem_cons_self)) ih
  | case2 n => exact n.self_mem_nodes
  | case3 n => exact n.self_mem_nodes

/-- The nodes below the node. -/
def descendants (n : Node) : List Node := n.children.flatMap nodes

theorem nodes_eq_cons (n : Node) : n.nodes = n :: n.descendants := n.nodes_eq

theorem mem_descendants_of_child {n c m : Node} (hc : c ∈ n.children) (hm : m ∈ c.nodes) :
    m ∈ n.descendants :=
  mem_flatMap.mpr ⟨c, hc, hm⟩

theorem child_mem_descendants {n c : Node} (hc : c ∈ n.children) : c ∈ n.descendants :=
  mem_descendants_of_child hc c.self_mem_nodes

theorem mem_nodes_of_mem_descendants {n m : Node} (h : m ∈ n.descendants) : m ∈ n.nodes := by
  rw [nodes_eq_cons]
  exact mem_cons_of_mem _ h

theorem size_lt_of_mem_descendants {n m : Node} (h : m ∈ n.descendants) : m.size < n.size := by
  obtain ⟨c, hc, hm⟩ := mem_flatMap.mp h
  exact Nat.lt_of_le_of_lt (size_le_of_mem_nodes hm) (size_lt_of_mem hc)

theorem id_ne_of_mem_descendants {n m : Node} (hids : (n.nodes.map Node.id).Nodup)
    (hm : m ∈ n.descendants) : m.id ≠ n.id := by
  rw [n.nodes_eq_cons, map_cons, nodup_cons] at hids
  intro hid
  exact hids.1 (hid ▸ mem_map_of_mem hm)

/-! ## Returns -/

theorem returns_eq (n : Node) :
    n.returns =
      if n.kind.opensReturnScope then false
      else if n.kind = .returnStatement then
        n.children.any fun child => child.named && decide (child.kind ≠ .comment)
      else n.children.any returns := by
  cases n
  rw [returns, anyReturns_eq_any]

/-! ## Numbering -/

mutual

/-- Nodes are numbered in their order, without a gap. -/
theorem ids_numbered (next : Nat) :
    (n : Node) → (n.numbered next).nodes.map Node.id = List.range' next n.size
  | ⟨_, _, _, _, _, _, children⟩ => by
    rw [numbered, nodes, map_cons, ids_numberedAll (next + 1) children, size, range'_succ]

theorem ids_numberedAll (next : Nat) :
    (ns : List Node) → (nodesAll (numberedAll next ns)).map Node.id = List.range' next (sizeAll ns)
  | [] => rfl
  | n :: ns => by
    rw [numberedAll, nodesAll, map_append, ids_numbered next n, ids_numberedAll _ ns, sizeAll,
      range'_append_1]

end

end Node

/-! ## Sources -/

namespace SourceTree

/-- The text of a source as bytes, by which its nodes are placed. -/
def bytes (source : SourceTree) : ByteArray := source.text.toUTF8

/-- The sources with the nodes of their trees numbered from `next` on. -/
def numbered (next : Nat) : List SourceTree → List SourceTree
  | [] => []
  | source :: rest =>
    { source with root := source.root.numbered next } :: numbered (next + source.root.size) rest

/-- The nodes of the trees of several sources. -/
def nodesAll (sources : List SourceTree) : List Node :=
  sources.flatMap fun source => source.root.nodes

theorem ids_numbered (next : Nat) (sources : List SourceTree) :
    (nodesAll (numbered next sources)).map Node.id = List.range' next (sizeAll sources) := by
  induction sources generalizing next with
  | nil => rfl
  | cons source rest ih =>
    have hrest := ih (next + source.root.size)
    rw [nodesAll] at hrest
    rw [numbered, nodesAll, flatMap_cons, map_append, Node.ids_numbered, hrest, range'_append_1]
    rfl

/-- No two nodes have one number. -/
theorem nodup_ids_numbered (next : Nat) (sources : List SourceTree) :
    ((nodesAll (numbered next sources)).map Node.id).Nodup := by
  rw [ids_numbered]
  exact nodup_range'

/-- The statements at the top level of a numbered source. -/
def statements (source : SourceTree) : List Statement :=
  (readStatements source.bytes source.root.children).value

theorem statements_readScripts (nextScript next : Nat) (sources : List SourceTree) :
    (readScripts nextScript next sources).value.map Script.statements =
      (numbered next sources).map statements := by
  induction sources generalizing nextScript next with
  | nil => rfl
  | cons source rest ih =>
    have hrest := ih (nextScript + 1) (next + source.root.size)
    rw [readScripts, numbered, map_cons, ← hrest]
    rfl

end SourceTree

end OverrideElision.Syntax
