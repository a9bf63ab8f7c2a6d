import OverrideElision.Doc.Comment

/-! # Documentation over several comments

Comments in front of a statement can be cut in two at any place: what they say together is what the
two parts say, combined. One case stands apart. A single documentation comment speaks for itself,
and its superclass type may be empty; any further documentation comment, also one that says nothing,
makes it leave such a type out. -/

namespace OverrideElision

open List

@[simp]
theorem NameSet.union_empty (names : NameSet) : names.union ∅ = names := by
  ext name
  simp

@[simp]
theorem NameSet.empty_union (names : NameSet) : NameSet.union ∅ names = names := by
  ext name
  simp

theorem NameSet.mem_foldl_union {α : Type} {f : α → NameSet} {items : List α} {names : NameSet}
    {x : String} :
    x ∈ items.foldl (fun names item => names.union (f item)) names ↔
      x ∈ names ∨ ∃ item ∈ items, x ∈ f item := by
  induction items generalizing names with
  | nil => simp
  | cons item items ih => simp [ih, or_assoc]

namespace Doc

namespace Info

/-! ## Combining records -/

/-- What two records say together. Of two superclass types that are named the second counts. -/
def combine (first second : Info) : Info where
  isOverride := first.isOverride || second.isOverride
  isConstructor := first.isConstructor || second.isConstructor
  superType := second.namedSuperType.or first.namedSuperType
  suppressions := first.suppressions.union second.suppressions
  markers := first.markers.union second.markers
  params := first.params ++ second.params
  hasReturn := first.hasReturn || second.hasReturn

/-- The record without a superclass type that is empty. -/
def named (info : Info) : Info := { info with superType := info.namedSuperType }

theorem namedSuperType_eq_self_iff {info : Info} :
    info.namedSuperType = info.superType ↔ info.superType ≠ some "" := by
  rw [namedSuperType]
  cases info.superType <;> simp [Option.filter]

theorem named_eq_self_iff {info : Info} : info.named = info ↔ info.superType ≠ some "" := by
  rw [← namedSuperType_eq_self_iff]
  cases info
  simp [named]

/-- Combining asks for named superclass types only. -/
theorem combine_named (first second : Info) :
    first.named.combine second.named = first.combine second := by
  simp [combine, named, namedSuperType]

theorem gather_singleton (info : Info) : gather [info] = info.named := by
  cases hsuper : info.namedSuperType <;> simp [gather, named, hsuper]

theorem superType_gather_ne (infos : List Info) : (gather infos).superType ≠ some "" := by
  intro h
  obtain ⟨info, -, hinfo⟩ := mem_filterMap.mp (mem_of_getLast? h)
  simp [namedSuperType, Option.filter_eq_some_iff] at hinfo

theorem named_gather (infos : List Info) : (gather infos).named = gather infos :=
  named_eq_self_iff.mpr (superType_gather_ne infos)

theorem gather_append (first second : List Info) :
    gather (first ++ second) = (gather first).combine (gather second) := by
  have hnamed : ∀ infos, (gather infos).namedSuperType = (gather infos).superType := fun infos =>
    namedSuperType_eq_self_iff.mpr (superType_gather_ne infos)
  have hunion : ∀ f : Info → NameSet,
      (first ++ second).foldl (fun names info => names.union (f info)) ∅ =
        NameSet.union (first.foldl (fun names info => names.union (f info)) ∅)
          (second.foldl (fun names info => names.union (f info)) ∅) := by
    intro f
    ext name
    simp only [NameSet.mem_union, NameSet.mem_foldl_union, NameSet.not_mem_empty, false_or,
      mem_append, or_and_right, exists_or]
  rw [combine, hnamed, hnamed]
  simp [gather, hunion]

/-- A record that says nothing adds nothing to others. -/
theorem gather_insert_empty (first second : List Info) :
    gather (first ++ {} :: second) = gather (first ++ second) := by
  simp [gather, namedSuperType]

/-! ## Comments cut in two -/

/-- The comments hold one documentation comment, and its superclass type is empty. -/
def NamesNothing (comments : List String) : Prop :=
  ∃ c, comments.filter isDocComment = [c] ∧ (ofComment c).superType = some ""

/-- Empty superclass types apart, comments are read by one rule, however many they are. -/
theorem named_ofComments (comments : List String) :
    (ofComments comments).named = gather ((comments.filter isDocComment).map ofComment) := by
  rw [ofComments]
  split
  · rename_i info hinfo
    rw [hinfo, gather_singleton]
  · exact named_gather _

theorem superType_ofComments_eq_iff {comments : List String} :
    (ofComments comments).superType = some "" ↔ NamesNothing comments := by
  rw [ofComments]
  split
  · rename_i info hinfo
    obtain ⟨c, hc, rfl⟩ := map_eq_singleton_iff.mp hinfo
    simp [NamesNothing, hc]
  · rename_i infos hlone
    refine ⟨fun h => absurd h (superType_gather_ne _), ?_⟩
    rintro ⟨c, hc, -⟩
    exact absurd (by rw [hc]; rfl) (hlone (ofComment c))

theorem named_ofComments_append (before after : List String) :
    (ofComments (before ++ after)).named = (ofComments before).combine (ofComments after) := by
  rw [← combine_named (ofComments before), named_ofComments, named_ofComments, named_ofComments,
    filter_append, map_append, gather_append]

theorem ofComments_of_not_isDocComment {comment : String} (h : isDocComment comment = false)
    (before after : List String) :
    ofComments (before ++ comment :: after) = ofComments (before ++ after) := by
  simp [ofComments, h]

/-- A documentation comment without tags, such as the empty one. -/
def IsSilent (comment : String) : Prop :=
  isDocComment comment = true ∧ tags (content comment) = []

/-- A silent comment changes nothing, but it makes a lone other one leave out an empty superclass
type. -/
theorem ofComments_of_isSilent {comment : String} (h : IsSilent comment)
    (before after : List String) :
    ofComments (before ++ comment :: after) = (ofComments (before ++ after)).named := by
  obtain ⟨hdoc, htags⟩ := h
  have hinfo : ofComment comment = {} := by rw [ofComment, htags]; rfl
  have hnamed : (ofComments (before ++ comment :: after)).named =
      ofComments (before ++ comment :: after) := by
    rw [named_eq_self_iff, ne_eq, superType_ofComments_eq_iff]
    rintro ⟨c, hc, hempty⟩
    have hmem : comment ∈ (before ++ comment :: after).filter isDocComment := by simp [hdoc]
    rw [hc, mem_singleton] at hmem
    subst hmem
    simp [hinfo] at hempty
  rw [← hnamed, named_ofComments, named_ofComments, filter_append, filter_cons_of_pos hdoc,
    map_append, map_cons, hinfo, gather_insert_empty, ← map_append, ← filter_append]

/-- The comments of a statement, cut in two: what each part says makes up what all of them say.
Other comments, and documentation comments without tags, add nothing. Only the empty superclass type
of a lone documentation comment is lost beside another one. -/
structure ReadsInParts (before after : List String) : Prop where
  combined : (ofComments (before ++ after)).named = (ofComments before).combine (ofComments after)
  whole_iff : ofComments (before ++ after) = (ofComments before).combine (ofComments after) ↔
    ¬ NamesNothing (before ++ after)
  remark : ∀ comment, isDocComment comment = false →
    ofComments (before ++ comment :: after) = ofComments (before ++ after)
  silent : ∀ comment, IsSilent comment →
    ofComments (before ++ comment :: after) = (ofComments (before ++ after)).named
  blank : IsSilent "/** */"

theorem ofComments_readsInParts (before after : List String) : ReadsInParts before after := by
  have hcombined := named_ofComments_append before after
  refine ⟨hcombined, ?_, fun comment h => ofComments_of_not_isDocComment h before after,
    fun comment h => ofComments_of_isSilent h before after, ⟨by decide, by decide +kernel⟩⟩
  rw [← hcombined, eq_comm, named_eq_self_iff, ne_eq, superType_ofComments_eq_iff]

/-- A lone comment with an empty superclass type is not the combination of itself and nothing, and
is read otherwise beside an empty comment. -/
theorem unnamed_not_combined :
    ofComments (["/** @extends \x7b!\x7d */"] ++ []) ≠
        (ofComments ["/** @extends \x7b!\x7d */"]).combine (ofComments []) ∧
      ofComments ["/** @extends \x7b!\x7d */", "/** */"] ≠
        ofComments ["/** @extends \x7b!\x7d */"] := by
  decide +kernel

end Info

end Doc

end OverrideElision
