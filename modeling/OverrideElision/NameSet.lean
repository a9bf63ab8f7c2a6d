/-! # Sets of names

A finite set of strings, kept as its members in code-point order without repetition, so that two
sets with the same members are equal and every listing is sorted. -/

namespace OverrideElision

/-- Strings in strictly increasing order, compared code point by code point. -/
structure NameSet where
  toList : List String
  sorted : toList.Pairwise (· < ·)
deriving DecidableEq

namespace NameSet

/-- The list with `name` put in its place, unless it is there already. -/
def insertInto (name : String) : List String → List String
  | [] => [name]
  | first :: rest =>
    if name < first then name :: first :: rest
    else if name = first then first :: rest
    else first :: insertInto name rest

theorem mem_insertInto {name x : String} {names : List String} :
    x ∈ insertInto name names ↔ x = name ∨ x ∈ names := by
  induction names with
  | nil => simp [insertInto]
  | cons first rest ih =>
    unfold insertInto
    split
    · simp
    · split
      · subst name; simp
      · simp [ih, or_left_comm]

theorem pairwise_insertInto {name : String} {names : List String}
    (h : names.Pairwise (· < ·)) : (insertInto name names).Pairwise (· < ·) := by
  induction names with
  | nil => simp [insertInto]
  | cons first rest ih =>
    obtain ⟨hfirst, hrest⟩ := List.pairwise_cons.mp h
    unfold insertInto
    split
    · rename_i hlt
      exact List.pairwise_cons.mpr
        ⟨fun x hx => by
          rcases List.mem_cons.mp hx with rfl | hx
          · exact hlt
          · exact String.lt_trans hlt (hfirst x hx), h⟩
    · split
      · exact h
      · rename_i hlt hne
        refine List.pairwise_cons.mpr ⟨fun x hx => ?_, ih hrest⟩
        rcases mem_insertInto.mp hx with rfl | hx
        · exact Std.lt_of_le_of_ne (Std.not_lt.mp hlt) (Ne.symm hne)
        · exact hfirst x hx

/-- The set without members. -/
def empty : NameSet := ⟨[], .nil⟩

instance : EmptyCollection NameSet := ⟨empty⟩

instance : Inhabited NameSet := ⟨empty⟩

instance : Membership String NameSet := ⟨fun names name => name ∈ names.toList⟩

instance (name : String) (names : NameSet) : Decidable (name ∈ names) :=
  inferInstanceAs (Decidable (name ∈ names.toList))

/-- The set with one more member. -/
def insert (names : NameSet) (name : String) : NameSet :=
  ⟨insertInto name names.toList, pairwise_insertInto names.sorted⟩

/-- The set of the members of a list. -/
def ofList (names : List String) : NameSet :=
  names.foldl insert empty

/-- The members of either set. -/
def union (a b : NameSet) : NameSet :=
  b.toList.foldl insert a

/-- The members of both sets. -/
def inter (a b : NameSet) : NameSet :=
  ⟨a.toList.filter (· ∈ b), a.sorted.filter _⟩

/-- Whether the set has no member. -/
def isEmpty (names : NameSet) : Bool := names.toList.isEmpty

theorem mem_toList {name : String} {names : NameSet} : name ∈ names.toList ↔ name ∈ names :=
  Iff.rfl

@[simp]
theorem not_mem_empty {name : String} : ¬ name ∈ (∅ : NameSet) :=
  List.not_mem_nil

@[simp]
theorem mem_insert {name x : String} {names : NameSet} :
    x ∈ names.insert name ↔ x = name ∨ x ∈ names :=
  mem_insertInto

theorem mem_foldl_insert {x : String} {added : List String} {names : NameSet} :
    x ∈ added.foldl insert names ↔ x ∈ names ∨ x ∈ added := by
  induction added generalizing names with
  | nil => simp
  | cons first rest ih => simp [ih, or_assoc, or_left_comm]

@[simp]
theorem mem_ofList {x : String} {names : List String} : x ∈ ofList names ↔ x ∈ names := by
  simp only [ofList, mem_foldl_insert]
  exact ⟨fun h => h.elim (absurd · not_mem_empty) id, Or.inr⟩

@[simp]
theorem mem_union {x : String} {a b : NameSet} : x ∈ a.union b ↔ x ∈ a ∨ x ∈ b :=
  mem_foldl_insert

@[simp]
theorem mem_inter {x : String} {a b : NameSet} : x ∈ a.inter b ↔ x ∈ a ∧ x ∈ b := by
  simp only [← mem_toList, inter, List.mem_filter, decide_eq_true_eq]

theorem isEmpty_iff {names : NameSet} : names.isEmpty = true ↔ ∀ x, ¬ x ∈ names := by
  simp only [isEmpty, List.isEmpty_iff, ← mem_toList, List.eq_nil_iff_forall_not_mem]

/-- Two strictly increasing lists with the same members are the same list. -/
theorem eq_of_pairwise_of_mem_iff {a b : List String} (ha : a.Pairwise (· < ·))
    (hb : b.Pairwise (· < ·)) (h : ∀ x, x ∈ a ↔ x ∈ b) : a = b := by
  induction a generalizing b with
  | nil => exact (List.eq_nil_iff_forall_not_mem.mpr fun x hx => by simpa using (h x).mpr hx).symm
  | cons x a ih =>
    cases b with
    | nil => exact absurd ((h x).mp (by simp)) (by simp)
    | cons y b =>
      obtain ⟨hx, hrest⟩ := List.pairwise_cons.mp ha
      obtain ⟨hy, hrest'⟩ := List.pairwise_cons.mp hb
      have hxy : x = y := by
        rcases List.mem_cons.mp ((h x).mp (by simp)) with h1 | h1
        · exact h1
        · rcases List.mem_cons.mp ((h y).mpr (by simp)) with h2 | h2
          · exact h2.symm
          · exact absurd (String.lt_trans (hy x h1) (hx y h2)) (String.lt_irrefl y)
      subst hxy
      refine congrArg (x :: ·) (ih hrest hrest' fun z => ?_)
      have hz := h z
      simp only [List.mem_cons] at hz
      constructor
      · intro hza
        rcases hz.mp (.inr hza) with rfl | hzb
        · exact absurd (hx z hza) (String.lt_irrefl z)
        · exact hzb
      · intro hzb
        rcases hz.mpr (.inr hzb) with rfl | hza
        · exact absurd (hy z hzb) (String.lt_irrefl z)
        · exact hza

/-- A set is determined by its members. -/
@[ext]
theorem ext {a b : NameSet} (h : ∀ x, x ∈ a ↔ x ∈ b) : a = b := by
  cases a; cases b
  simp only [mk.injEq]
  exact eq_of_pairwise_of_mem_iff ‹_› ‹_› h

end NameSet

end OverrideElision
