import OverrideElision.Proofs.Statements
import OverrideElision.Proofs.Syntax.Drafts
import OverrideElision.Proofs.Syntax.Positions
import OverrideElision.Proofs.Text.Slices

/-! # Statements and their comments

The children of a block make up its statements. Every child but tokens belongs to one statement,
and every comment documents at most the statement that it precedes. -/

namespace OverrideElision

open List

namespace Table

variable {κ α : Type} [DecidableEq κ] {entries : List (κ × α)} {key : κ}

theorem get?_ofList_concat (entries : List (κ × α)) (entry : κ × α) (key : κ) :
    (ofList (entries ++ [entry])).get? key =
      if key = entry.1 then some entry.2 else (ofList entries).get? key := by
  rw [ofList, foldl_append]
  exact get?_insert ..

theorem get?_ofList_eq_none (h : ∀ entry ∈ entries, entry.1 ≠ key) :
    (ofList entries).get? key = none := by
  induction entries using reverseRecOn with
  | nil => rfl
  | append_singleton entries entry ih =>
    rw [get?_ofList_concat, if_neg (h entry (by simp)).symm]
    exact ih fun other hother => h other (mem_append_left _ hother)

theorem get?_ofList_eq_some {value : α} (h : ∀ entry ∈ entries, entry.1 = key → entry.2 = value)
    (hmem : ∃ entry ∈ entries, entry.1 = key) : (ofList entries).get? key = some value := by
  induction entries using reverseRecOn with
  | nil => simp at hmem
  | append_singleton entries entry ih =>
    rw [get?_ofList_concat]
    split
    · rename_i hkey
      rw [h entry (by simp) hkey.symm]
    · rename_i hkey
      refine ih (fun other hother => h other (mem_append_left _ hother)) ?_
      obtain ⟨other, hother, hother'⟩ := hmem
      rcases mem_append.mp hother with hother | hother
      · exact ⟨other, hother, hother'⟩
      · exact absurd (mem_singleton.mp hother ▸ hother').symm hkey

end Table

namespace Syntax

/-! ## What is read from a group of nodes -/

namespace Node

/-- The node is more than a token: a comment, or code. -/
def isKept (n : Node) : Bool := n.named || decide (n.kind = .comment)

/-- The node is a comment on what follows it. -/
structure IsRemark (source : ByteArray) (n : Node) : Prop where
  isComment : n.kind = .comment
  notFileLevel : Doc.isFileLevel (n.text source) = false

/-- What comments say together. -/
def documentation (source : ByteArray) (comments : List Node) : Doc.Info :=
  .ofComments (comments.map (Node.text source))

end Node

/-- The statement is read from consecutive nodes of a block: from comments on their own, or from
code with the comments in front of it. -/
inductive ReadFrom (source : ByteArray) (annotations : Annotations) (s : Statement) :
    List Node → Prop where
  | remarks {front : List Node} {last : Node} :
      (∀ c ∈ front, c.IsRemark source) → last.kind = .comment →
        s.text = (front.headD last).textThrough source last → s.form = .other [] →
          annotations.get? s.id = none → ReadFrom source annotations s (front ++ [last])
  | code {front : List Node} {last : Node} :
      (∀ c ∈ front, c.IsRemark source) → last.kind ≠ .comment →
        s.text = (front.headD last).textThrough source last →
          s.form = (readForm source (Node.documentation source front) last).value →
            annotations.get? s.id =
                (if front = [] then none else some (Node.documentation source front)) →
              ReadFrom source annotations s (front ++ [last])

/-! ## Grouping -/

namespace Group

variable {source : ByteArray} {pending nodes : List Node}

theorem nodes_ofPending (pending : List Node) :
    (ofPending pending).flatMap Group.nodes = pending := by
  cases pending <;> simp [ofPending, Group.nodes]

/-- Every node that is more than a token is in one group, in order. -/
theorem nodes_ofNodesAfter (source : ByteArray) (pending nodes : List Node) :
    (ofNodesAfter source pending nodes).flatMap Group.nodes =
      pending ++ nodes.filter Node.isKept := by
  induction nodes generalizing pending with
  | nil => rw [ofNodesAfter, nodes_ofPending, filter_nil, append_nil]
  | cons n rest ih =>
    rw [ofNodesAfter]
    split
    · rename_i hkind
      rw [filter_cons_of_pos (by simp [Node.isKept, hkind])]
      split
      · rw [flatMap_append, nodes_ofPending, ih, nil_append, append_assoc, singleton_append]
      · rw [ih, append_assoc, singleton_append]
    · rename_i hkind
      split
      · rename_i hnamed
        rw [filter_cons_of_pos (by simp [Node.isKept, hnamed]), flatMap_cons, ih, Group.nodes]
        simp
      · rename_i hnamed
        rw [filter_cons_of_neg (by simp [Node.isKept, hnamed, hkind]), ih]

/-- Comments of which only the last can describe its file, or code after such comments. -/
inductive Tidy (source : ByteArray) : Group → Prop where
  | remarks {front : List Node} {first last : Node} {more : List Node} :
      first :: more = front ++ [last] → (∀ c ∈ front, c.IsRemark source) →
        last.kind = .comment → Tidy source (.remarks first more)
  | code {comments : List Node} {n : Node} :
      (∀ c ∈ comments, c.IsRemark source) → n.kind ≠ .comment → Tidy source (.code comments n)

theorem last_eq_of_remarks {front more : List Node} {first last : Node}
    (h : first :: more = front ++ [last]) : Group.last (.remarks first more) = last := by
  have hlast := congrArg getLast? h
  rw [getLast?_concat, getLast?_cons] at hlast
  rw [Group.last, getLastD_eq_getLast?]
  exact Option.some.inj hlast

theorem first_eq_of_remarks {front more : List Node} {first last : Node}
    (h : first :: more = front ++ [last]) : first = front.headD last := by
  cases front <;> simpa using congrArg head? h

theorem exists_ofPending_concat (front : List Node) (last : Node) :
    ∃ first more, first :: more = front ++ [last] ∧
      ofPending (front ++ [last]) = [.remarks first more] := by
  cases h : front ++ [last] with
  | nil => simp at h
  | cons first more => exact ⟨first, more, rfl, rfl⟩

theorem tidy_of_mem_ofNodesAfter (hpending : ∀ c ∈ pending, c.IsRemark source) :
    ∀ group ∈ ofNodesAfter source pending nodes, Tidy source group := by
  have hremarks : ∀ {front : List Node} {last : Node}, (∀ c ∈ front, c.IsRemark source) →
      last.kind = .comment → ∀ group ∈ ofPending (front ++ [last]), Tidy source group := by
    intro front last hfront hlast
    obtain ⟨first, more, heq, hgroups⟩ := exists_ofPending_concat front last
    rw [hgroups]
    exact forall_mem_singleton.mpr (.remarks heq hfront hlast)
  induction nodes generalizing pending with
  | nil =>
    rw [ofNodesAfter]
    cases pending using reverseRecOn with
    | nil => exact forall_mem_nil _
    | append_singleton front last =>
      obtain ⟨hfront, hlast⟩ := forall_mem_append.mp hpending
      exact hremarks hfront (hlast last mem_cons_self).isComment
  | cons n rest ih =>
    rw [ofNodesAfter]
    split
    · rename_i hkind
      split
      · exact forall_mem_append.mpr ⟨hremarks hpending hkind, ih (forall_mem_nil _)⟩
      · rename_i hlevel
        refine ih (forall_mem_append.mpr ⟨hpending, forall_mem_singleton.mpr ⟨hkind, ?_⟩⟩)
        exact eq_false_of_ne_true hlevel
    · rename_i hkind
      split
      · exact forall_mem_cons.mpr ⟨.code hpending hkind, ih (forall_mem_nil _)⟩
      · exact ih hpending

/-- Comments on their own end with one that describes its file, should they be followed by more. -/
def EndsFile (source : ByteArray) (group : Group) : Prop :=
  group.last.kind = .comment → Doc.isFileLevel (group.last.text source) = true

theorem endsFile_of_mem_dropLast (source : ByteArray) (pending nodes : List Node) :
    ∀ group ∈ (ofNodesAfter source pending nodes).dropLast, group.EndsFile source := by
  have hcons : ∀ {group : Group} {groups : List Group}, group.EndsFile source →
      (∀ other ∈ groups.dropLast, other.EndsFile source) →
        ∀ other ∈ (group :: groups).dropLast, other.EndsFile source := by
    intro group groups hgroup hgroups
    cases groups with
    | nil => exact forall_mem_nil _
    | cons next groups => exact forall_mem_cons.mpr ⟨hgroup, hgroups⟩
  induction nodes generalizing pending with
  | nil => cases pending <;> exact forall_mem_nil _
  | cons n rest ih =>
    rw [ofNodesAfter]
    split
    · split
      · rename_i hlevel
        obtain ⟨first, more, heq, hgroups⟩ := exists_ofPending_concat pending n
        rw [hgroups, singleton_append]
        refine hcons (fun _ => ?_) (ih [])
        rwa [last_eq_of_remarks heq]
      · exact ih _
    · rename_i hkind
      split
      · exact hcons (fun hcomment => absurd hcomment hkind) (ih [])
      · exact ih pending

/-! ## Documentation -/

/-- What is noted about the code of a group or about what is below it. -/
theorem note_of_mem_docs {group : Group} {note : Nat × Doc.Info}
    (h : note ∈ group.docs source) :
    ∃ comments n, group = .code comments n ∧
      ((∃ m ∈ n.descendants, m.id = note.1) ∨
        comments ≠ [] ∧ note = (n.id, Node.documentation source comments)) := by
  cases group with
  | remarks => cases h
  | code comments n =>
    refine ⟨comments, n, rfl, ?_⟩
    rcases mem_append.mp h with h | h
    · have hyields : Yields source (.statement n) _ _ _ :=
        .statement (info source (.code comments n)) default n
      exact .inl (hyields.notes note h)
    · right
      split at h
      · cases h
      · rename_i hcomments
        exact ⟨by simpa using hcomments, mem_singleton.mp h⟩

theorem nodes_sublist (ns : List Node) : ns.Sublist (ns.flatMap Node.nodes) := by
  induction ns with
  | nil => exact .slnil
  | cons n ns ih =>
    rw [flatMap_cons, n.nodes_eq]
    exact (ih.trans (sublist_append_right _ _)).cons_cons n

theorem mem_nodes_of_group {group : Group} (hgroup : group ∈ ofNodes source nodes) {n : Node}
    (hn : n ∈ group.nodes) : n ∈ nodes := by
  have hmem : n ∈ (ofNodes source nodes).flatMap Group.nodes := mem_flatMap.mpr ⟨group, hgroup, hn⟩
  rw [ofNodes, nodes_ofNodesAfter] at hmem
  exact (mem_filter.mp hmem).1

section

variable (hids : ((nodes.flatMap Node.nodes).map Node.id).Nodup)
include hids

theorem nodup_groups : (((ofNodes source nodes).flatMap Group.nodes).map Node.id).Nodup := by
  rw [ofNodes, nodes_ofNodesAfter, nil_append]
  exact ((filter_sublist.trans (nodes_sublist nodes)).map Node.id).nodup hids

/-- A note about a node of a group is one about the code of the group. -/
theorem note_of_id {group : Group} (hgroup : group ∈ ofNodes source nodes) {n : Node}
    (hn : n ∈ group.nodes) {note : Nat × Doc.Info}
    (hnote : note ∈ (ofNodes source nodes).flatMap (Group.docs source)) (hid : note.1 = n.id) :
    ∃ comments, comments ≠ [] ∧ group = .code comments n ∧
      note.2 = Node.documentation source comments := by
  obtain ⟨other, hother, hnote⟩ := mem_flatMap.mp hnote
  obtain ⟨comments, m, rfl, hwhere⟩ := note_of_mem_docs hnote
  have hm : m ∈ Group.nodes (.code comments m) := mem_append_right _ mem_cons_self
  have hnodes := mem_nodes_of_group hgroup hn
  have hnodes' := mem_nodes_of_group hother hm
  rcases hwhere with ⟨x, hx, hxid⟩ | ⟨hcomments, rfl⟩
  · -- A node below `m` does not share its identity with a node beside `m`, nor with `m`.
    have hsame : m = n := Program.eq_of_nodup_flatMap hids hnodes' hnodes
      (m.mem_nodes_of_mem_descendants hx) n.self_mem_nodes (hxid.trans hid)
    rw [map_flatMap, nodup_flatMap] at hids
    exact absurd (hxid.trans (hid.trans (congrArg Node.id hsame.symm)))
      (Node.id_ne_of_mem_descendants (hids.1 m hnodes') hx)
  · have hsame : m = n := Program.eq_of_nodup_flatMap hids hnodes' hnodes
      m.self_mem_nodes n.self_mem_nodes hid
    subst hsame
    exact ⟨comments, hcomments,
      Program.eq_of_nodup_flatMap (nodup_groups hids) hgroup hother hn hm rfl, rfl⟩

/-- The statement that a group is is read from its nodes. -/
theorem readFrom_of_mem {group : Group} (hgroup : group ∈ ofNodes source nodes) :
    ReadFrom source (Table.ofList ((ofNodes source nodes).flatMap (Group.docs source)))
      (group.statement source) group.nodes := by
  have htidy : Tidy source group := tidy_of_mem_ofNodesAfter (forall_mem_nil _) group hgroup
  cases htidy with
  | @remarks front first last more heq hfront hlast =>
    have hnone : (Table.ofList ((ofNodes source nodes).flatMap (Group.docs source))).get? first.id =
        none := by
      refine Table.get?_ofList_eq_none fun note hnote hid => ?_
      obtain ⟨_, _, hcode, _⟩ := note_of_id hids hgroup mem_cons_self hnote hid
      cases hcode
    rw [Group.nodes, heq]
    refine .remarks hfront hlast ?_ rfl hnone
    rw [← first_eq_of_remarks heq, ← last_eq_of_remarks heq]
    rfl
  | @code comments n hcomments hkind =>
    refine .code hcomments hkind rfl rfl ?_
    have hn : n ∈ Group.nodes (.code comments n) := mem_append_right _ mem_cons_self
    split
    · rename_i hempty
      refine Table.get?_ofList_eq_none fun note hnote hid => ?_
      obtain ⟨_, hother, heq, _⟩ := note_of_id hids hgroup hn hnote hid
      cases heq
      exact hother hempty
    · rename_i hsome
      refine Table.get?_ofList_eq_some (fun note hnote hid => ?_) ?_
      · obtain ⟨_, _, heq, hvalue⟩ := note_of_id hids hgroup hn hnote hid
        cases heq
        exact hvalue
      · refine ⟨(n.id, Node.documentation source comments),
          mem_flatMap.mpr ⟨_, hgroup, mem_append_right _ ?_⟩, rfl⟩
        rw [if_neg (by simpa using hsome)]
        exact mem_cons_self

end

end Group

/-! ## Printing -/

/-- The nodes stand one after the other in the text, and each between two characters of it. -/
structure InOrder (text : String) (ns : List Node) : Prop where
  boundaries : ∀ n ∈ ns, Text.IsBoundary text n.start ∧ Text.IsBoundary text n.stop
  nonempty : ∀ n ∈ ns, n.start < n.stop
  apart : ns.Pairwise fun first second => first.stop ≤ second.start

namespace InOrder

variable {text : String} {ns : List Node}

theorem isSpan (h : InOrder text ns) {n : Node} (hn : n ∈ ns) :
    Text.IsSpan text (n.start, n.stop) :=
  ⟨(h.boundaries n hn).1, (h.boundaries n hn).2, (h.nonempty n hn).le⟩

theorem of_sublist {ms : List Node} (h : InOrder text ns) (hsub : ms.Sublist ns) :
    InOrder text ms where
  boundaries n hn := h.boundaries n (hsub.mem hn)
  nonempty n hn := h.nonempty n (hsub.mem hn)
  apart := h.apart.sublist hsub

theorem of_mem_flatMap {α : Type} {f : α → List Node} {xs : List α}
    (h : InOrder text (xs.flatMap f)) {x : α} (hx : x ∈ xs) : InOrder text (f x) := by
  rw [flatMap_def] at h
  exact h.of_sublist (sublist_flatten_of_mem (mem_map_of_mem hx))

/-- The first of the nodes starts where they do, and the last of them ends where they do. -/
theorem inside {front : List Node} {last : Node} (h : InOrder text (front ++ [last])) :
    ∀ n ∈ front ++ [last], (front.headD last).start ≤ n.start ∧ n.stop ≤ last.stop := by
  have hstop : ∀ n ∈ front ++ [last], n.stop ≤ last.stop := by
    intro n hn
    rcases mem_append.mp hn with hn | hn
    · have hbefore := (pairwise_append.mp h.apart).2.2 n hn last mem_cons_self
      exact hbefore.trans (h.nonempty last (by simp)).le
    · rw [mem_singleton.mp hn]
  have hstart : ∀ n ∈ front ++ [last], (front.headD last).start ≤ n.start := by
    cases front with
    | nil =>
      intro n hn
      rw [mem_singleton.mp hn]
      rfl
    | cons first rest =>
      intro n hn
      rcases mem_cons.mp hn with rfl | hn
      · exact Nat.le_refl _
      · have hbefore := (pairwise_cons.mp h.apart).1 n hn
        exact (h.nonempty first mem_cons_self).le.trans hbefore
  exact fun n hn => ⟨hstart n hn, hstop n hn⟩

end InOrder

namespace Group

variable {text : String}

theorem nodes_eq_concat (group : Group) :
    ∃ front, group.nodes = front ++ [group.last] ∧ group.first = front.headD group.last := by
  cases group with
  | remarks first more =>
    obtain ⟨front, last, heq⟩ := (eq_nil_or_concat (first :: more)).resolve_left (cons_ne_nil _ _)
    rw [concat_eq_append] at heq
    refine ⟨front, ?_, ?_⟩
    · rw [last_eq_of_remarks heq]
      exact heq
    · rw [last_eq_of_remarks heq]
      exact first_eq_of_remarks heq
  | code comments n => exact ⟨comments, rfl, rfl⟩

theorem first_mem_nodes (group : Group) : group.first ∈ group.nodes := by
  cases group with
  | remarks first more => exact mem_cons_self
  | code comments n => cases comments <;> simp [Group.first, Group.nodes]

theorem last_mem_nodes (group : Group) : group.last ∈ group.nodes := by
  obtain ⟨front, hnodes, _⟩ := group.nodes_eq_concat
  rw [hnodes]
  exact mem_append_right _ mem_cons_self

/-- Where the text of a group stands. -/
def span (group : Group) : Nat × Nat := (group.first.start, group.last.stop)

theorem inside_span {group : Group} (h : InOrder text group.nodes) :
    ∀ n ∈ group.nodes, group.span.1 ≤ n.start ∧ n.stop ≤ group.span.2 := by
  obtain ⟨front, hnodes, hfirst⟩ := group.nodes_eq_concat
  rw [hnodes] at h ⊢
  rw [span, hfirst]
  exact h.inside

theorem span_lt {group : Group} (h : InOrder text group.nodes) : group.span.1 < group.span.2 := by
  have hfirst := group.first_mem_nodes
  exact (h.nonempty group.first hfirst).trans_le (inside_span h group.first hfirst).2

theorem isSpan_span {group : Group} (h : InOrder text group.nodes) :
    Text.IsSpan text group.span where
  start := (h.boundaries group.first group.first_mem_nodes).1
  stop := (h.boundaries group.last group.last_mem_nodes).2
  le := (span_lt h).le

/-- The text of a group holds those of its nodes. -/
theorem interspersed_nodes {group : Group} (h : InOrder text group.nodes) :
    Text.Interspersed (group.nodes.map (Node.text text.toUTF8)) (group.text text.toUTF8) := by
  have hspans : Text.Interspersed ((group.nodes.map fun n => (n.start, n.stop)).map
      fun span => Text.sliceUtf8 text.toUTF8 span.1 span.2) (group.text text.toUTF8) :=
    .of_spans (isSpan_span h) (forall_mem_map.mpr fun n hn => h.isSpan hn)
      (forall_mem_map.mpr fun n hn => inside_span h n hn) (pairwise_map.mpr h.apart)
  rwa [map_map] at hspans

/-- A text holds those of its groups. -/
theorem interspersed_groups {groups : List Group}
    (h : InOrder text (groups.flatMap Group.nodes)) :
    Text.Interspersed (groups.map (Group.text text.toUTF8)) text := by
  have hgroup : ∀ group ∈ groups, InOrder text group.nodes := fun group => h.of_mem_flatMap
  have hapart : groups.Pairwise fun first second => first.span.2 ≤ second.span.1 :=
    (pairwise_flatMap.mp h.apart).2.imp fun hpair =>
      hpair _ (last_mem_nodes _) _ (first_mem_nodes _)
  have hspans : Text.Interspersed ((groups.map Group.span).map
      fun span => Text.sliceUtf8 text.toUTF8 span.1 span.2) text := by
    have hwhole := Text.isSpan_whole text
    have hpieces := Text.Interspersed.of_spans hwhole
      (forall_mem_map.mpr fun group hmem => isSpan_span (hgroup group hmem))
      (forall_mem_map.mpr fun group hmem =>
        ⟨Nat.zero_le _, (isSpan_span (hgroup group hmem)).stop.le⟩)
      (pairwise_map.mpr hapart)
    rwa [Text.sliceUtf8_whole] at hpieces
  rwa [map_map] at hspans

theorem source_statement {group : Group} (h : InOrder text group.nodes) :
    (group.statement text.toUTF8).source = group.text text.toUTF8 := by
  have hspan := isSpan_span h
  exact Statement.source_of_text (Text.sliceUtf8_ne_empty hspan.start hspan.stop (span_lt h))

end Group

/-! ## Blocks -/

/-- The groups of nodes that the statements of a block are read from. Where the nodes stand one
after the other in a text, nothing of them is lost when the statements are printed. -/
structure ReadsBlock (source : ByteArray) (nodes : List Node) (block : Documented (List Statement))
    (groups : List (List Node)) : Prop where
  partition : groups.flatten = nodes.filter Node.isKept
  statements : Forall₂ (ReadFrom source (Table.ofList block.docs)) block.value groups
  ends : ∀ group ∈ groups.dropLast, ∀ last ∈ group.getLast?, last.kind = .comment →
    Doc.isFileLevel (last.text source) = true
  printed : ∀ text : String, source = text.toUTF8 → InOrder text (nodes.filter Node.isKept) →
    Text.Interspersed (block.value.map Statement.source) text ∧
      Forall₂ (fun s group => Text.Interspersed (group.map (Node.text source)) s.source)
        block.value groups

theorem readsBlock_of_nodup {source : ByteArray} {nodes : List Node}
    (hids : ((nodes.flatMap Node.nodes).map Node.id).Nodup) :
    ReadsBlock source nodes (readStatements source nodes)
      ((Group.ofNodes source nodes).map Group.nodes) := by
  have hkept : (Group.ofNodes source nodes).flatMap Group.nodes = nodes.filter Node.isKept :=
    Group.nodes_ofNodesAfter source [] nodes
  have hvalue : (readStatements source nodes).value =
      (Group.ofNodes source nodes).map (Group.statement source) :=
    value_readGroups source _
  have hdocs : (readStatements source nodes).docs =
      (Group.ofNodes source nodes).flatMap (Group.docs source) := docs_readGroups source _
  have hpairs : ∀ R : Statement → List Node → Prop,
      (∀ group ∈ Group.ofNodes source nodes, R (group.statement source) group.nodes) →
        Forall₂ R (readStatements source nodes).value
          ((Group.ofNodes source nodes).map Group.nodes) := by
    intro R h
    rw [hvalue, forall₂_map_left_iff, forall₂_map_right_iff, forall₂_same]
    exact h
  refine ⟨by rw [← hkept, flatMap_def], hpairs _ fun group hgroup => ?_, ?_, ?_⟩
  · rw [hdocs]
    exact Group.readFrom_of_mem hids hgroup
  · rw [← map_dropLast]
    refine forall_mem_map.mpr fun group hgroup last hlast => ?_
    obtain ⟨front, hnodes, _⟩ := group.nodes_eq_concat
    rw [hnodes, getLast?_concat] at hlast
    obtain rfl := Option.some.inj hlast
    exact Group.endsFile_of_mem_dropLast source [] nodes group hgroup
  · rintro text rfl horder
    rw [← hkept] at horder
    have hgroup : ∀ group ∈ Group.ofNodes text.toUTF8 nodes, InOrder text group.nodes :=
      fun group => horder.of_mem_flatMap
    refine ⟨?_, hpairs _ fun group hmem => ?_⟩
    · rw [hvalue, map_map]
      have hsources : (Group.ofNodes text.toUTF8 nodes).map
          (Statement.source ∘ Group.statement text.toUTF8) =
            (Group.ofNodes text.toUTF8 nodes).map (Group.text text.toUTF8) :=
        map_congr_left fun group hmem => Group.source_statement (hgroup group hmem)
      rw [hsources]
      exact Group.interspersed_groups horder
    · rw [Group.source_statement (hgroup group hmem)]
      exact Group.interspersed_nodes (hgroup group hmem)

/-- Reading a block loses no statement and no comment. -/
theorem readStatements_readsBlock (source : ByteArray) (next : Nat) (nodes : List Node) :
    ∃ groups, ReadsBlock source (Node.numberedAll next nodes)
      (readStatements source (Node.numberedAll next nodes)) groups := by
  have hids : (((Node.numberedAll next nodes).flatMap Node.nodes).map Node.id).Nodup := by
    rw [← Node.nodesAll_eq_flatMap, Node.ids_numberedAll]
    exact nodup_range'
  exact ⟨_, readsBlock_of_nodup hids⟩

/-- A statement with a comment of its own, one about its file before it, and one after it. -/
def commented : SourceTree :=
  Draft.source "a.js" [.comment "/** @license */", .comment "/** @override */",
    .statement (.identifier "x"), .token ";", .comment "// end"]

theorem commented_printed :
    InOrder commented.text ((Node.numberedAll 0 commented.root.children).filter Node.isKept) ∧
      Text.Interspersed ["/** @license */", "/** @override */x;", "// end"] commented.text := by
  have horder : InOrder commented.text
      ((Node.numberedAll 0 commented.root.children).filter Node.isKept) :=
    ⟨by decide +kernel, by decide +kernel, by decide +kernel⟩
  obtain ⟨groups, hblock⟩ :=
    readStatements_readsBlock commented.text.toUTF8 0 commented.root.children
  have hsources : (readStatements commented.text.toUTF8
      (Node.numberedAll 0 commented.root.children)).value.map Statement.source =
        ["/** @license */", "/** @override */x;", "// end"] := by decide +kernel
  have hprinted := (hblock.printed _ rfl horder).1
  rw [hsources] at hprinted
  exact ⟨horder, hprinted⟩

end Syntax

end OverrideElision
