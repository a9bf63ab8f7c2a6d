import OverrideElision.Tree.Reference

/-! # What references spell

The dotted name of an expression as a relation on its shape, beside the functions that read it. -/

namespace OverrideElision

namespace Expr

/-- A chain of property reads that starts at a name spells its names, joined by dots. -/
inductive Spells : Expr → String → Prop where
  | name (text : String) : Spells (.name text) text
  | member {object : Expr} {path : String} (property : String) :
      Spells object path → Spells (.member object property) (path ++ "." ++ property)

theorem path?_ne_nil {e : Expr} {names : List String} (h : e.path? = some names) :
    names ≠ [] := by
  cases e with
  | name text =>
    obtain rfl := Option.some.inj h
    simp
  | member object property =>
    obtain ⟨front, _, rfl⟩ := Option.map_eq_some_iff.mp h
    simp
  | _ => cases h

theorem intercalate_append_name {names : List String} (h : names ≠ []) (name : String) :
    ".".intercalate (names ++ [name]) = ".".intercalate names ++ "." ++ name := by
  rw [String.intercalate_append_of_ne_nil h (by simp), String.intercalate_singleton]

theorem Spells.qualifiedName? {e : Expr} {path : String} (h : e.Spells path) :
    e.qualifiedName? = some path := by
  induction h with
  | name text => simp [Expr.qualifiedName?, Expr.path?]
  | @member object path property _ ih =>
    obtain ⟨names, hnames, rfl⟩ := Option.map_eq_some_iff.mp ih
    have hjoin := intercalate_append_name (path?_ne_nil hnames) property
    simp [Expr.qualifiedName?, Expr.path?, hnames, hjoin]

theorem spells_of_path? {e : Expr} {names : List String} (h : e.path? = some names) :
    e.Spells (".".intercalate names) := by
  match e, h with
  | .name text, h =>
    obtain rfl := Option.some.inj h
    rw [String.intercalate_singleton]
    exact .name text
  | .member object property, h =>
    obtain ⟨front, hfront, rfl⟩ := Option.map_eq_some_iff.mp h
    rw [intercalate_append_name (path?_ne_nil hfront)]
    exact .member property (spells_of_path? hfront)

theorem spells_iff {e : Expr} {path : String} : e.Spells path ↔ e.qualifiedName? = some path := by
  constructor
  · exact Spells.qualifiedName?
  · intro h
    obtain ⟨names, hnames, rfl⟩ := Option.map_eq_some_iff.mp h
    exact spells_of_path? hnames

/-- The expression is `Owner.prototype.name`, its owner written as a dotted name. -/
def IsMember (e : Expr) (member : Member) : Prop :=
  ∃ owner : Expr, owner.Spells member.owner ∧
    e = .member (.member owner "prototype") member.name

theorem isMember_iff {e : Expr} {member : Member} :
    e.IsMember member ↔ e.member? = some member := by
  constructor
  · intro h
    rcases h with ⟨owner, howner, rfl⟩
    simp [member?, spells_iff.mp howner]
  · intro h
    match e, h with
    | .member (.member owner property) method, h =>
      simp only [member?] at h
      split at h
      · rename_i hproperty
        obtain ⟨path, hpath, rfl⟩ := Option.map_eq_some_iff.mp h
        exact ⟨owner, spells_iff.mpr hpath, by rw [hproperty]⟩
      · cases h

instance (e : Expr) (member : Member) : Decidable (e.IsMember member) :=
  decidable_of_iff _ isMember_iff.symm

theorem IsMember.unique {e : Expr} {m m' : Member} (h : e.IsMember m) (h' : e.IsMember m') :
    m = m' :=
  Option.some.inj ((isMember_iff.mp h).symm.trans (isMember_iff.mp h'))

theorem superReference?_eq_some_iff {e : Expr} {reference : SuperReference} :
    e.superReference? = some reference ↔
      ∃ receiver : Expr, receiver.Spells reference.receiver ∧
        e = .member receiver (if reference.viaSuperClass then "superClass_" else "prototype") := by
  constructor
  · intro h
    match e, h with
    | .member object property, h =>
      simp only [superReference?] at h
      split at h
      · rename_i hproperty
        obtain ⟨path, hpath, rfl⟩ := Option.map_eq_some_iff.mp h
        refine ⟨object, spells_iff.mpr hpath, ?_⟩
        rcases hproperty with rfl | rfl <;> simp
      · cases h
  · intro h
    rcases h with ⟨receiver, hreceiver, rfl⟩
    obtain ⟨path, via⟩ := reference
    cases via <;> simp [superReference?, spells_iff.mp hreceiver]

theorem ownerOf?_eq_some_iff {property : String} {e : Expr} {name : String} :
    e.ownerOf? property = some name ↔
      ∃ object : Expr, object.Spells name ∧ e = .member object property := by
  constructor
  · intro h
    match e, h with
    | .member object read, h =>
      simp only [ownerOf?] at h
      split at h
      · rename_i hread
        exact ⟨object, spells_iff.mpr h, by rw [hread]⟩
      · cases h
  · intro h
    rcases h with ⟨object, hobject, rfl⟩
    simp [ownerOf?, spells_iff.mp hobject]

end Expr

end OverrideElision
