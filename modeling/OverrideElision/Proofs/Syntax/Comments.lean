import Mathlib.Data.Nat.Nth
import OverrideElision.Proofs.Renaming.Runs
import OverrideElision.Proofs.Syntax.Drafts
import OverrideElision.Proofs.Syntax.Trimming

/-! # Comments inside expressions

Comments inside expressions make no difference to a run: without them the sources are read as the
same statements with the same documentation, and the run tells the same. -/

namespace OverrideElision

open List

namespace Syntax

/-! ## Numbering what is left -/

namespace Node

mutual

theorem length_nodes : (n : Node) → n.nodes.length = n.size
  | ⟨_, _, _, _, _, _, children⟩ => by
    rw [nodes, length_cons, length_nodesAll children, size]

theorem length_nodesAll : (ns : List Node) → (nodesAll ns).length = sizeAll ns
  | [] => rfl
  | n :: ns => by rw [nodesAll, length_append, length_nodes n, length_nodesAll ns, sizeAll]

end

mutual

/-- A tree is made out by its shape and the identities of its nodes in their order. -/
theorem trimmed_numbered {f : Nat → Nat} (next : Nat) :
    (n : Node) → n.nodes.map Node.id = (range' next n.size).map f →
      (n.numbered next).trimmed (fun _ => false) f = n
  | ⟨_, _, _, _, _, _, children⟩, h => by
    rw [nodes, size, range'_succ, map_cons, map_cons, cons.injEq] at h
    rw [numbered, trimmed, trimmedAll_numberedAll (next + 1) children h.2, ← h.1]

theorem trimmedAll_numberedAll {f : Nat → Nat} (next : Nat) :
    (ns : List Node) → (nodesAll ns).map Node.id = (range' next (sizeAll ns)).map f →
      trimmedAll (fun _ => false) f (numberedAll next ns) = ns
  | [], _ => rfl
  | n :: ns, h => by
    rw [nodesAll, sizeAll, ← range'_append_1, map_append, map_append] at h
    obtain ⟨hn, hns⟩ := append_inj h (by simp [length_nodes])
    rw [numberedAll, trimmedAll, if_neg (by simp), trimmed_numbered next n hn,
      trimmedAll_numberedAll _ ns hns]

end

mutual

/-- Leaving out leaves, the identities of the others stay in their order. -/
theorem ids_trimmed (gone : Nat → Bool) (f : Nat → Nat) :
    (n : Node) → (∀ m ∈ n.nodes, gone m.id = true → m.children = []) → gone n.id = false →
      (n.trimmed gone f).nodes.map Node.id = ((n.nodes.map Node.id).filter (!gone ·)).map f
  | ⟨_, _, _, _, _, _, children⟩, hleaves, hroot => by
    rw [nodes] at hleaves
    have hids := ids_trimmedAll gone f children fun m hm => hleaves m (mem_cons_of_mem _ hm)
    rw [trimmed, nodes, nodes, map_cons, map_cons, filter_cons_of_pos (by simpa using hroot),
      map_cons, hids]

theorem ids_trimmedAll (gone : Nat → Bool) (f : Nat → Nat) :
    (ns : List Node) → (∀ m ∈ nodesAll ns, gone m.id = true → m.children = []) →
      (nodesAll (trimmedAll gone f ns)).map Node.id =
        (((nodesAll ns).map Node.id).filter (!gone ·)).map f
  | [], _ => rfl
  | n :: ns, hleaves => by
    rw [nodesAll] at hleaves
    obtain ⟨hn, hns⟩ := forall_mem_append.mp hleaves
    rw [trimmedAll, nodesAll, map_append, filter_append, map_append]
    cases hgone : gone n.id with
    | true =>
      have hleaf : n.nodes = [n] := by rw [nodes_eq, hn n n.self_mem_nodes hgone, flatMap_nil]
      rw [if_pos rfl, hleaf, ids_trimmedAll gone f ns hns]
      simp [hgone]
    | false =>
      rw [if_neg (by simp), nodesAll, map_append, ids_trimmed gone f n hn hgone,
        ids_trimmedAll gone f ns hns]

end

end Node

section

variable (gone : Finset Nat)

/-- The numbers that are not in a finite set, by their place among themselves. -/
noncomputable def kept : Nat ↪ Nat where
  toFun := Nat.nth (· ∉ gone)
  inj' := Nat.nth_injective gone.finite_toSet.infinite_compl

/-- How many numbers below this one are not in the set. -/
def place (id : Nat) : Nat := Nat.count (· ∉ gone) id

theorem place_succ_of_mem {id : Nat} (h : id ∈ gone) : place gone (id + 1) = place gone id :=
  Nat.count_succ_eq_count_iff.mpr (not_not_intro h)

theorem place_succ_of_not_mem {id : Nat} (h : id ∉ gone) :
    place gone (id + 1) = place gone id + 1 :=
  Nat.count_succ_eq_succ_count_iff.mpr h

theorem kept_place {id : Nat} (h : id ∉ gone) : kept gone (place gone id) = id :=
  Nat.nth_count h

theorem place_eq_self {first : Nat} (h : ∀ id ∈ gone, first ≤ id) : place gone first = first :=
  Nat.count_of_forall fun id hid hmem => absurd (h id hmem) (Nat.not_le.mpr hid)

/-- Of consecutive numbers, those that are not in the set have consecutive places. -/
theorem exists_filter_range'_eq_map_kept (next size : Nat) :
    ∃ left, (range' next size).filter (fun id => !decide (id ∈ gone)) =
        (range' (place gone next) left).map (kept gone) ∧
      place gone next + left = place gone (next + size) := by
  induction size with
  | zero => exact ⟨0, rfl, rfl⟩
  | succ size ih =>
    obtain ⟨left, hnumbers, hplace⟩ := ih
    rw [range'_1_concat, filter_append, hnumbers, ← add_assoc]
    by_cases hlast : next + size ∈ gone
    · exact ⟨left, by simp [hlast], by rw [place_succ_of_mem gone hlast, hplace]⟩
    · refine ⟨left + 1, ?_, by rw [place_succ_of_not_mem gone hlast, ← hplace, add_assoc]⟩
      rw [range'_1_concat, map_append, hplace, map_singleton, kept_place gone hlast]
      simp [hlast]

end

/-! ## Sources -/

namespace SourceTree

/-- The source with other identities for the nodes of its tree. -/
def renamed (f : Nat → Nat) (source : SourceTree) : SourceTree :=
  { source with root := source.root.trimmed (fun _ => false) f }

/-- The source without the nodes of its tree whose identity is in the set. The text and all other
nodes are as they were. -/
def without (gone : Finset Nat) (source : SourceTree) : SourceTree :=
  { source with root := source.root.trimmed (· ∈ gone) id }

/-- The set picks out nodes of the sources, each a comment inside an expression: a leaf without a
field that is no child of the root or of the body of a function literal, and not the first child of
a declaration. -/
structure PicksComments (sources : List SourceTree) (gone : Finset Nat) : Prop where
  nodes : ∀ id ∈ gone, ∃ n ∈ nodesAll sources, n.id = id
  loose : ∀ source ∈ sources, source.root.Loose (· ∈ gone)
  topLevel : ∀ source ∈ sources, ∀ n ∈ source.root :: source.root.children, n.id ∉ gone

instance (sources : List SourceTree) (gone : Finset Nat) : Decidable (PicksComments sources gone) :=
  decidable_of_iff
    ((∀ id ∈ gone, ∃ n ∈ nodesAll sources, n.id = id) ∧
      (∀ source ∈ sources, source.root.Loose (· ∈ gone)) ∧
      ∀ source ∈ sources, ∀ n ∈ source.root :: source.root.children, n.id ∉ gone)
    ⟨fun ⟨nodes, loose, topLevel⟩ => ⟨nodes, loose, topLevel⟩,
      fun h => ⟨h.nodes, h.loose, h.topLevel⟩⟩

theorem length_nodesAll (sources : List SourceTree) :
    (nodesAll sources).length = sizeAll sources := by
  rw [sizeAll, ← Node.length_nodesAll, Node.nodesAll_eq_flatMap, flatMap_map]
  rfl

theorem map_renamed_numbered {f : Nat → Nat} {next : Nat} {sources : List SourceTree}
    (h : (nodesAll sources).map Node.id = (range' next (sizeAll sources)).map f) :
    (numbered next sources).map (renamed f) = sources := by
  induction sources generalizing next with
  | nil => rfl
  | cons source rest ih =>
    have hsize : sizeAll (source :: rest) = source.root.size + sizeAll rest := rfl
    rw [nodesAll, flatMap_cons, map_append, hsize, ← range'_append_1, map_append] at h
    obtain ⟨hroot, hrest⟩ := append_inj h (by simp [Node.length_nodes])
    rw [numbered, map_cons, ih hrest, renamed, Node.trimmed_numbered next source.root hroot]

namespace PicksComments

variable {gone : Finset Nat} {sources : List SourceTree} {first : Nat}

theorem ids_without (h : PicksComments sources gone) :
    (nodesAll (sources.map (without gone))).map Node.id =
      ((nodesAll sources).map Node.id).filter (fun id => !decide (id ∈ gone)) := by
  have hids : ∀ source ∈ sources, (source.without gone).root.nodes.map Node.id =
      (source.root.nodes.map Node.id).filter (fun id => !decide (id ∈ gone)) := by
    intro source hsource
    have hroot : source.root.id ∉ gone := h.topLevel source hsource _ mem_cons_self
    have hleaves : ∀ m ∈ source.root.nodes, decide (m.id ∈ gone) = true → m.children = [] := by
      intro m hm hgone
      rw [Node.nodes_eq_cons] at hm
      rcases mem_cons.mp hm with rfl | hm
      · exact absurd (of_decide_eq_true hgone) hroot
      · exact ((h.loose source hsource).comments m hm hgone).2.1
    have hroot := Node.ids_trimmed (· ∈ gone) id source.root hleaves (decide_eq_false hroot)
    rwa [map_id] at hroot
  rw [nodesAll, nodesAll, flatMap_map, map_flatMap, map_flatMap, filter_flatMap]
  exact flatMap_congr hids

/-- When the sources that are left are numbered anew, a node's number is its place among the numbers
that are left. -/
theorem map_renamed_numbered_without (h : PicksComments (numbered first sources) gone) :
    (numbered first ((numbered first sources).map (without gone))).map (renamed (kept gone)) =
      (numbered first sources).map (without gone) := by
  have hfirst : ∀ id ∈ gone, first ≤ id := by
    intro id hid
    obtain ⟨n, hn, hid⟩ := h.nodes id hid
    have hmem : id ∈ (nodesAll (numbered first sources)).map Node.id := hid ▸ mem_map_of_mem hn
    rw [ids_numbered] at hmem
    exact (mem_range'_1.mp hmem).1
  obtain ⟨left, hnumbers, -⟩ := exists_filter_range'_eq_map_kept gone first (sizeAll sources)
  rw [← ids_numbered, ← h.ids_without, place_eq_self gone hfirst] at hnumbers
  have hlength := congrArg length hnumbers
  rw [length_map, length_map, length_range', length_nodesAll] at hlength
  rw [← hlength] at hnumbers
  exact map_renamed_numbered hnumbers

end PicksComments

end SourceTree

/-! ## Reading what is left -/

/-- The scripts of sources whose nodes have identities, and the documentation in them. -/
def readTrees (nextScript : Nat) : List SourceTree → Documented (List Script)
  | [] => return []
  | source :: rest => do
    let statements ← readStatements source.bytes source.root.children
    return ⟨nextScript, source.name, statements⟩ :: (← readTrees (nextScript + 1) rest)

theorem readScripts_eq (nextScript next : Nat) (sources : List SourceTree) :
    readScripts nextScript next sources =
      readTrees nextScript (SourceTree.numbered next sources) := by
  induction sources generalizing nextScript next with
  | nil => rfl
  | cons source rest ih =>
    rw [readScripts, SourceTree.numbered, readTrees, ih]
    rfl

/-- Without such comments, a source is read as before. -/
theorem SourceTree.PicksComments.readStatements_without {gone : Finset Nat}
    {sources : List SourceTree} (h : SourceTree.PicksComments sources gone) :
    ∀ source ∈ sources, readStatements source.bytes (source.without gone).root.children =
      readStatements source.bytes source.root.children := by
  intro source hsource
  have htop : ∀ n ∈ source.root.children, decide (n.id ∈ gone) = false := fun n hn =>
    decide_eq_false (h.topLevel source hsource n (mem_cons_of_mem _ hn))
  have hread := readStatements_trimmed (f := id) (h.loose source hsource) htop source.bytes
  rw [SourceTree.without, hread, Documented.renamed_id Statement.renamedAll_id]

theorem readTrees_without {gone : Finset Nat} {sources : List SourceTree}
    (h : ∀ source ∈ sources, readStatements source.bytes (source.without gone).root.children =
      readStatements source.bytes source.root.children) (nextScript : Nat) :
    readTrees nextScript (sources.map (SourceTree.without gone)) =
      readTrees nextScript sources := by
  induction sources generalizing nextScript with
  | nil => rfl
  | cons source rest ih =>
    obtain ⟨hsource, hrest⟩ := forall_mem_cons.mp h
    have hbytes : (source.without gone).bytes = source.bytes := rfl
    rw [map_cons, readTrees, readTrees, ih hrest, hbytes, hsource]
    rfl

theorem readTrees_renamed (f : Nat ↪ Nat) (nextScript : Nat) (sources : List SourceTree) :
    readTrees nextScript (sources.map (SourceTree.renamed f)) =
      (readTrees nextScript sources).renamed f (map (Script.renamed f)) := by
  induction sources generalizing nextScript with
  | nil => rfl
  | cons source rest ih =>
    have hstatements := readStatements_trimmed (f := f) (Node.loose_false source.root)
      (fun _ _ => rfl) source.bytes
    have hbytes : (source.renamed f).bytes = source.bytes := rfl
    have hroot : (source.renamed f).root = source.root.trimmed (fun _ => false) f := rfl
    rw [map_cons, readTrees, readTrees, ih, hbytes, hroot, hstatements]
    ext1
    · simp [Documented.renamed, Script.renamed, Statement.renamedAll_eq_map, SourceTree.renamed]
    · simp [Documented.renamed]

end Syntax

/-! ## Running over what is left -/

namespace Program

open Syntax

variable {first : Nat} {sources : List SourceTree} {gone : Finset Nat}

/-- The program that the numbered sources make up without such comments is the one that they make up
with them, but for the identities. -/
theorem ofSources_without
    (h : SourceTree.PicksComments (SourceTree.numbered first sources) gone) :
    (ofSources first ((SourceTree.numbered first sources).map (SourceTree.without gone))).renamed
        (kept gone) = ofSources first sources := by
  have hread := readTrees_renamed (kept gone) 0
    (SourceTree.numbered first
      ((SourceTree.numbered first sources).map (SourceTree.without gone)))
  rw [h.map_renamed_numbered_without, readTrees_without h.readStatements_without,
    ← readScripts_eq, ← readScripts_eq] at hread
  rw [ofSources, ofSources, hread, renamed, Annotations.renamed, ← Table.ofList_map]
  rfl

/-- Comments inside expressions make no difference: without them, every source is read as the same
statements with the same documentation, and a run over the sources leaves and tells the same. -/
theorem process_without
    (h : SourceTree.PicksComments (SourceTree.numbered first sources) gone) (options : Options) :
    (∀ source ∈ SourceTree.numbered first sources,
      readStatements source.bytes (source.without gone).root.children =
        readStatements source.bytes source.root.children) ∧
      let left := ofSources first
        ((SourceTree.numbered first sources).map (SourceTree.without gone))
      let whole := ofSources first sources
      (({ options } : Context).process whole whole.annotations).ShowsAs
        (({ options } : Context).process left left.annotations) := by
  refine ⟨h.readStatements_without, ?_⟩
  intro left whole
  have hwhole : left.renamed (kept gone) = whole := ofSources_without h
  have hrun := Context.process_renamed (kept gone) { options } left left.annotations
  have hfresh : ({ options } : Context).renamed (kept gone) = { options } := rfl
  rw [hfresh, hwhole] at hrun
  have hannotations : left.annotations.renamed (kept gone) = whole.annotations := by
    rw [← hwhole]
    rfl
  rw [hannotations] at hrun
  rw [hrun]
  exact Outcome.renamed_showsAs (kept gone) _

end Program

namespace Override

open Syntax Syntax.Draft

/-- A token with a comment behind it, and what follows. -/
def remark (token : String) (rest : List Draft) : List Draft :=
  Draft.token token :: comment "/** @override */" :: rest

/-- The class `B` extends `A` and overrides its method `m` by a call of that method. There are
comments in a declaration, a returned value, an assignment, parentheses and arguments. -/
def remarked : List SourceTree := [
  source "a.js"
    [comment "/** @extends {A} */",
      .node none .variableDeclaration (remark "var "
        [.node none .variableDeclarator [(identifier "B").inField .name], token ";"]),
      statement (assignment (member (identifier "B") "superClass_")
        (member (identifier "A") "prototype")),
      statement (assignment (classMember "A" "m") (function [identifier "x"]
        [.node none .returnStatement (remark "return " [identifier "x", token ";"])]))],
  source "b.js"
    [comment "/** @override */",
      statement (.node none .assignmentExpression
        ((classMember "B" "m").inField .left :: remark "=" [
          (function [identifier "x"] [.node none .returnStatement [token "return ",
            .node none .callExpression [
              .node (some .function) .parenthesizedExpression
                (remark "(" [member (classMember "A" "m") "call", token ")"]),
              .node (some .arguments) .arguments
                (token "(" :: this :: remark "," [identifier "x", token ")"])],
            token ";"]]).inField .right]))]]

/-- The numbers of these comments, those in front of statements apart. -/
def remarks : Finset Nat := {4, 40, 57, 71, 87}

theorem remarked_process_without :
    SourceTree.PicksComments (SourceTree.numbered 0 remarked) remarks ∧
      (removed remarked).map MethodDefinition.member = [⟨"B", "m"⟩] ∧
        (∀ source ∈ SourceTree.numbered 0 remarked,
          readStatements source.bytes (source.without remarks).root.children =
            readStatements source.bytes source.root.children) ∧
          let left := Program.ofSources 0
            ((SourceTree.numbered 0 remarked).map (SourceTree.without remarks))
          let whole := Program.ofSources 0 remarked
          (({} : Context).process whole whole.annotations).ShowsAs
            (({} : Context).process left left.annotations) := by
  have h : SourceTree.PicksComments (SourceTree.numbered 0 remarked) remarks := by decide +kernel
  exact ⟨h, by decide +kernel, Program.process_without h {}⟩

end Override

end OverrideElision
