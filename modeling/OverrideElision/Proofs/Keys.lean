import Mathlib.Data.List.Induction
import OverrideElision.Proofs.Reference

/-! # Keys of references

Classes, members and superclass references are compared by their dotted names, as strings. Names
without a dot can be read back from the string they are joined to, so that no two different chains
of property reads have one key, whatever names stand in them. -/

namespace OverrideElision

open List

/-! ## Joined names -/

/-- Names without a dot are the parts between the dots of the string they are joined to. -/
theorem splitOn_intercalate_dot {names : List String} (hne : names ≠ [])
    (hnames : ∀ name ∈ names, '.' ∉ name.toList) :
    (".".intercalate names).toList.splitOn '.' = names.map String.toList := by
  have hparts : ∀ part ∈ names.map String.toList, '.' ∉ part := by
    intro part hpart
    obtain ⟨name, hname, rfl⟩ := mem_map.mp hpart
    exact hnames name hname
  rw [String.toList_intercalate]
  exact splitOn_intercalate '.' hparts (by simpa using hne)

theorem eq_of_intercalate_dot_eq {names names' : List String} (hne : names ≠ [])
    (hne' : names' ≠ []) (hnames : ∀ name ∈ names, '.' ∉ name.toList)
    (hnames' : ∀ name ∈ names', '.' ∉ name.toList)
    (h : ".".intercalate names = ".".intercalate names') : names = names' := by
  have hparts : names.map String.toList = names'.map String.toList := by
    rw [← splitOn_intercalate_dot hne hnames, h, splitOn_intercalate_dot hne' hnames']
  exact (map_inj_right fun _ _ => String.toList_inj.mp).mp hparts

namespace Expr

/-! ## Chains of property reads -/

/-- The name `first` and the properties `rest` that are read of it, one after the other. -/
def chain (first : String) (rest : List String) : Expr :=
  rest.foldl .member (.name first)

theorem chain_nil (first : String) : chain first [] = .name first := rfl

theorem chain_concat (first : String) (rest : List String) (property : String) :
    chain first (rest ++ [property]) = .member (chain first rest) property := by
  simp only [chain, foldl_append, foldl_cons, foldl_nil]

/-- The names of a chain are read back as they were given. -/
theorem path?_chain (first : String) (rest : List String) :
    (chain first rest).path? = some (first :: rest) := by
  induction rest using reverseRecOn with
  | nil => rfl
  | append_singleton rest property ih => simp [chain_concat, path?, ih]

theorem path?_eq_some_iff {e : Expr} {names : List String} :
    e.path? = some names ↔ ∃ first rest, e = chain first rest ∧ names = first :: rest := by
  constructor
  · intro h
    match e, h with
    | .name text, h =>
      obtain rfl := Option.some.inj h
      exact ⟨text, [], rfl, rfl⟩
    | .member object property, h =>
      obtain ⟨front, hfront, rfl⟩ := Option.map_eq_some_iff.mp h
      obtain ⟨first, rest, rfl, rfl⟩ := path?_eq_some_iff.mp hfront
      exact ⟨first, rest ++ [property], (chain_concat ..).symm, rfl⟩
  · rintro ⟨first, rest, rfl, rfl⟩
    exact path?_chain first rest

theorem chain_injective {first first' : String} {rest rest' : List String}
    (h : chain first rest = chain first' rest') : first = first' ∧ rest = rest' := by
  have hpath := congrArg path? h
  rw [path?_chain, path?_chain, Option.some.injEq, cons.injEq] at hpath
  exact hpath

theorem qualifiedName?_chain (first : String) (rest : List String) :
    (chain first rest).qualifiedName? = some (".".intercalate (first :: rest)) := by
  rw [qualifiedName?, path?_chain, Option.map_some]

theorem qualifiedName?_eq_some_iff {e : Expr} {key : String} :
    e.qualifiedName? = some key ↔
      ∃ first rest, e = chain first rest ∧ key = ".".intercalate (first :: rest) := by
  constructor
  · intro h
    obtain ⟨names, hnames, rfl⟩ := Option.map_eq_some_iff.mp h
    obtain ⟨first, rest, rfl, rfl⟩ := path?_eq_some_iff.mp hnames
    exact ⟨first, rest, rfl, rfl⟩
  · rintro ⟨first, rest, rfl, rfl⟩
    exact qualifiedName?_chain first rest

/-! ## Names without dots -/

/-- No name that the expression reads, as long as it is a chain of property reads, holds a dot. -/
def Dotless : Expr → Prop
  | .name text => '.' ∉ text.toList
  | .member object property => object.Dotless ∧ '.' ∉ property.toList
  | _ => True

theorem dotless_chain_iff {first : String} {rest : List String} :
    (chain first rest).Dotless ↔ ∀ name ∈ first :: rest, '.' ∉ name.toList := by
  induction rest using reverseRecOn with
  | nil => simp [chain_nil, Dotless]
  | append_singleton rest property ih =>
    rw [chain_concat, Dotless, ih, ← cons_append, forall_mem_append, forall_mem_singleton]

/-- Two chains without dots in their names have one dotted name only if they are the same. -/
theorem Dotless.eq_of_qualifiedName? {e e' : Expr} {key : String} (he : e.Dotless)
    (he' : e'.Dotless) (h : e.qualifiedName? = some key) (h' : e'.qualifiedName? = some key) :
    e = e' := by
  obtain ⟨first, rest, rfl, rfl⟩ := qualifiedName?_eq_some_iff.mp h
  obtain ⟨first', rest', rfl, hkey⟩ := qualifiedName?_eq_some_iff.mp h'
  have hnames := eq_of_intercalate_dot_eq (cons_ne_nil _ _) (cons_ne_nil _ _)
    (dotless_chain_iff.mp he) (dotless_chain_iff.mp he') hkey
  obtain ⟨rfl, rfl⟩ := cons.inj hnames
  rfl

/-! ## Keys of members and of superclass references -/

theorem chain_append_member (first : String) (rest : List String) (name : String) :
    chain first (rest ++ ["prototype", name]) =
      .member (.member (chain first rest) "prototype") name := by
  rw [← chain_concat, ← chain_concat, append_assoc]
  rfl

theorem member?_eq_some_iff {target : Expr} {key : Member} :
    target.member? = some key ↔ ∃ first rest,
      target = chain first (rest ++ ["prototype", key.name]) ∧
        key.owner = ".".intercalate (first :: rest) := by
  simp only [← isMember_iff, IsMember, spells_iff, qualifiedName?_eq_some_iff, chain_append_member]
  constructor
  · rintro ⟨owner, ⟨first, rest, rfl, hkey⟩, rfl⟩
    exact ⟨first, rest, rfl, hkey⟩
  · rintro ⟨first, rest, rfl, hkey⟩
    exact ⟨chain first rest, ⟨first, rest, rfl, hkey⟩, rfl⟩

theorem member?_chain (first : String) (rest : List String) (name : String) :
    (chain first (rest ++ ["prototype", name])).member? =
      some ⟨".".intercalate (first :: rest), name⟩ :=
  member?_eq_some_iff.mpr ⟨first, rest, rfl, rfl⟩

theorem exists_chain_of_superReference? {e : Expr} {reference : SuperReference}
    (h : e.superReference? = some reference) :
    ∃ first rest property, e = chain first (rest ++ [property]) ∧
      reference.receiver = ".".intercalate (first :: rest) := by
  obtain ⟨receiver, hreceiver, rfl⟩ := superReference?_eq_some_iff.mp h
  obtain ⟨first, rest, rfl, hkey⟩ := qualifiedName?_eq_some_iff.mp (spells_iff.mp hreceiver)
  exact ⟨first, rest, _, (chain_concat ..).symm, hkey⟩

/-- Two members without dots in their names have one key only if they are the same chain. -/
theorem Dotless.eq_of_member? {e e' : Expr} {key : Member} (he : e.Dotless) (he' : e'.Dotless)
    (h : e.member? = some key) (h' : e'.member? = some key) : e = e' := by
  obtain ⟨first, rest, rfl, howner⟩ := member?_eq_some_iff.mp h
  obtain ⟨first', rest', rfl, howner'⟩ := member?_eq_some_iff.mp h'
  rw [chain_append_member] at he he' ⊢
  rw [chain_append_member]
  have hsame : chain first rest = chain first' rest' :=
    he.1.1.eq_of_qualifiedName? he'.1.1 (howner ▸ qualifiedName?_chain first rest)
      (howner' ▸ qualifiedName?_chain first' rest')
  rw [hsame]

/-- What the keys of two expressions say of the expressions. Every part is about chains of property
reads of any length; `prototype` and `superClass_` may be among their names. -/
structure FaithfulKeys (e e' : Expr) : Prop where
  /-- Two expressions have the same dotted name when they are the same chain. -/
  qualifiedName? : (∃ key, e.qualifiedName? = some key ∧ e'.qualifiedName? = some key) ↔
    ∃ first rest, e = chain first rest ∧ e' = chain first rest
  /-- The dotted name of a chain is made of all its names. -/
  names : ∀ first rest, e = chain first rest →
    e.qualifiedName? = some (".".intercalate (first :: rest))
  /-- Two targets have the key of one member when they are the same chain to it. -/
  member? : (∃ key, e.member? = some key ∧ e'.member? = some key) ↔
    ∃ first rest name, e = chain first (rest ++ ["prototype", name]) ∧
      e' = chain first (rest ++ ["prototype", name])
  /-- A superclass reference is read of the owner of a member when both start with the same
  chain. -/
  receiver : ∀ reference key, e.superReference? = some reference → e'.member? = some key →
    (reference.receiver = key.owner ↔
      ∃ first rest property, e = chain first (rest ++ [property]) ∧
        e' = chain first (rest ++ ["prototype", key.name]))

/-- Keys tell references apart whose names hold no dot. -/
theorem Dotless.faithfulKeys {e e' : Expr} (he : e.Dotless) (he' : e'.Dotless) :
    e.FaithfulKeys e' where
  qualifiedName? := by
    constructor
    · rintro ⟨key, h, h'⟩
      obtain ⟨first, rest, rfl, _⟩ := qualifiedName?_eq_some_iff.mp h
      exact ⟨first, rest, rfl, (he.eq_of_qualifiedName? he' h h').symm⟩
    · rintro ⟨first, rest, rfl, rfl⟩
      exact ⟨_, qualifiedName?_chain first rest, qualifiedName?_chain first rest⟩
  names := by
    rintro first rest rfl
    exact qualifiedName?_chain first rest
  member? := by
    constructor
    · rintro ⟨key, h, h'⟩
      obtain ⟨first, rest, rfl, _⟩ := member?_eq_some_iff.mp h
      exact ⟨first, rest, key.name, rfl, (he.eq_of_member? he' h h').symm⟩
    · rintro ⟨first, rest, name, rfl, rfl⟩
      exact ⟨_, member?_chain first rest name, member?_chain first rest name⟩
  receiver := by
    intro reference key h h'
    obtain ⟨first, rest, property, rfl, hreceiver⟩ := exists_chain_of_superReference? h
    obtain ⟨first', rest', rfl, howner⟩ := member?_eq_some_iff.mp h'
    rw [hreceiver, howner]
    constructor
    · intro hkey
      rw [chain_concat] at he
      rw [chain_append_member] at he'
      have hsame : chain first rest = chain first' rest' :=
        he.1.eq_of_qualifiedName? he'.1.1 (qualifiedName?_chain first rest)
          (hkey ▸ qualifiedName?_chain first' rest')
      obtain ⟨rfl, rfl⟩ := chain_injective hsame
      exact ⟨first, rest, property, rfl, rfl⟩
    · rintro ⟨first'', rest'', property', h, h'⟩
      rw [chain_concat, chain_concat] at h
      rw [chain_append_member, chain_append_member] at h'
      obtain ⟨rfl, rfl⟩ := chain_injective (member.inj h).1
      obtain ⟨rfl, rfl⟩ := chain_injective (member.inj (member.inj h').1).1
      rfl

/-- The class `ns.prototype` has a superclass link and a member like any other. -/
theorem faithfulKeys_of_prototype :
    (chain "ns" ["prototype", "superClass_"]).Dotless ∧
      (chain "ns" ["prototype", "prototype", "m"]).Dotless ∧
        (chain "ns" ["prototype", "superClass_"]).FaithfulKeys
          (chain "ns" ["prototype", "prototype", "m"]) := by
  have he : (chain "ns" ["prototype", "superClass_"]).Dotless :=
    dotless_chain_iff.mpr (by decide)
  have he' : (chain "ns" ["prototype", "prototype", "m"]).Dotless :=
    dotless_chain_iff.mpr (by decide)
  exact ⟨he, he', he.faithfulKeys he'⟩

/-- A dot in a name could be taken for one between two names. -/
example : (name "a.b").qualifiedName? = (chain "a" ["b"]).qualifiedName? := by decide

end Expr

end OverrideElision
