import Mathlib.Data.List.Induction
import Mathlib.Data.Set.Subsingleton
import OverrideElision.Hierarchy
import OverrideElision.Proofs.Members

/-! # Confirmed superclasses

The class table is built fact by fact and keeps the first value of either kind. What it confirms is
nevertheless a matter of the set of facts: a superclass that is documented and linked, while nothing
else is documented or linked. -/

namespace OverrideElision

open List

/-! ## The class table -/

namespace ClassFact

/-- The value that a fact gives for the superclass type or the superclass link of a class. -/
def answer? : ClassFact → Conflict → Option String
  | .declares name superType, .superType asked => if name = asked then superType else none
  | .links name base, .superClass asked => if name = asked then some base else none
  | _, _ => none

/-- The class that a fact is about. -/
def name : ClassFact → String
  | .declares name _ => name
  | .links name _ => name

/-- The values that a list of facts gives, in order. -/
def answers (facts : List ClassFact) (asked : Conflict) : List String :=
  facts.filterMap (·.answer? asked)

theorem answers_append_singleton (facts : List ClassFact) (fact : ClassFact) (asked : Conflict) :
    answers (facts ++ [fact]) asked = answers facts asked ++ (fact.answer? asked).toList := by
  cases hanswer : fact.answer? asked <;> simp [answers, hanswer]

end ClassFact

namespace ClassTable

/-- The value that the table holds for the superclass type or the superclass link of a class. -/
def known (table : ClassTable) : Conflict → Option String
  | .superType name => (table.classes.get? name).bind ClassDeclaration.superType
  | .superClass name => (table.classes.get? name).bind ClassDeclaration.superClass

theorem known_add (table : ClassTable) (fact : ClassFact) (asked : Conflict) :
    (table.add fact).known asked = (table.known asked).or (fact.answer? asked) := by
  cases fact with
  | declares name superType =>
    cases asked with
    | superType other =>
      by_cases hname : name = other
      · subst hname
        cases hget : table.classes.get? name <;> simp [add, known, ClassFact.answer?, hget]
      · simp [add, known, ClassFact.answer?, hname, Ne.symm hname]
    | superClass other =>
      by_cases hname : name = other
      · subst hname
        cases hget : table.classes.get? name <;> simp [add, known, ClassFact.answer?, hget]
      · simp [add, known, ClassFact.answer?, Ne.symm hname]
  | links name base =>
    cases asked with
    | superType other =>
      by_cases hname : name = other
      · subst hname
        cases hget : table.classes.get? name <;> simp [add, known, ClassFact.answer?, hget]
      · simp [add, known, ClassFact.answer?, Ne.symm hname]
    | superClass other =>
      by_cases hname : name = other
      · subst hname
        cases hget : table.classes.get? name <;> simp [add, known, ClassFact.answer?, hget]
      · simp [add, known, ClassFact.answer?, hname, Ne.symm hname]

/-- A fact adds a conflict when it gives another value than the one held. -/
theorem mem_conflicts_add (table : ClassTable) (fact : ClassFact) (asked : Conflict) :
    asked ∈ (table.add fact).conflicts ↔
      asked ∈ table.conflicts ∨ ∃ old new, table.known asked = some old ∧
        fact.answer? asked = some new ∧ old ≠ new := by
  cases fact with
  | declares name superType =>
    cases asked with
    | superType other =>
      by_cases hname : name = other
      · subst hname
        cases hold : (table.classes.get? name).bind ClassDeclaration.superType with
        | none => simp [add, known, hold]
        | some old =>
          cases superType with
          | none => simp [add, ClassFact.answer?, hold]
          | some new =>
            by_cases heq : old = new <;> simp [add, known, ClassFact.answer?, hold, heq]
      · simp only [add, ClassFact.answer?, if_neg hname]
        split
        · split <;> simp [Ne.symm hname]
        · simp
    | superClass other =>
      simp only [add, ClassFact.answer?]
      split
      · split <;> simp
      · simp
  | links name base =>
    cases asked with
    | superType other =>
      simp only [add, ClassFact.answer?]
      split
      · split <;> simp
      · simp
    | superClass other =>
      by_cases hname : name = other
      · subst hname
        cases hold : (table.classes.get? name).bind ClassDeclaration.superClass with
        | none => simp [add, known, hold]
        | some old =>
          by_cases heq : old = base <;> simp [add, known, ClassFact.answer?, hold, heq]
      · simp only [add, ClassFact.answer?, if_neg hname]
        split
        · split <;> simp [Ne.symm hname]
        · simp

theorem ofFacts_append_singleton (facts : List ClassFact) (fact : ClassFact) :
    ofFacts (facts ++ [fact]) = (ofFacts facts).add fact := by
  simp only [ofFacts, foldl_append, foldl_cons, foldl_nil]

theorem mem_keys_add (table : ClassTable) (fact : ClassFact) (name : String) :
    name ∈ (table.add fact).classes.keys ↔ name ∈ table.classes.keys ∨ name = fact.name := by
  cases fact <;>
  · simp only [add, ClassFact.name, Table.keys_alter]
    split
    · rename_i hknown
      constructor
      · exact .inl
      · intro h
        rcases h with h | rfl
        · exact h
        · exact hknown
    · simp only [mem_append, mem_singleton]

/-- The classes of the table are those that a fact is about. -/
theorem mem_keys_ofFacts (facts : List ClassFact) (name : String) :
    name ∈ (ofFacts facts).classes.keys ↔ ∃ fact ∈ facts, name = fact.name := by
  induction facts using reverseRecOn with
  | nil => simp [ofFacts, Table.keys, EmptyCollection.emptyCollection, Table.empty]
  | append_singleton facts fact ih =>
    rw [ofFacts_append_singleton, mem_keys_add, ih]
    simp [or_and_right, exists_or]

/-- The table holds the first value that a fact gives. -/
theorem known_ofFacts (facts : List ClassFact) (asked : Conflict) :
    (ofFacts facts).known asked = (ClassFact.answers facts asked).head? := by
  induction facts using reverseRecOn with
  | nil => cases asked <;> rfl
  | append_singleton facts fact ih =>
    rw [ofFacts_append_singleton, known_add, ih, ClassFact.answers_append_singleton, head?_append]
    cases fact.answer? asked <;> rfl

theorem exists_ne_append_singleton {α : Type} (xs : List α) (x : α) :
    (∃ a ∈ xs ++ [x], ∃ b ∈ xs ++ [x], a ≠ b) ↔
      (∃ a ∈ xs, ∃ b ∈ xs, a ≠ b) ∨ ∃ a, xs.head? = some a ∧ a ≠ x := by
  constructor
  · intro h
    rcases h with ⟨a, ha, b, hb, hab⟩
    cases xs with
    | nil =>
      simp only [nil_append, mem_singleton] at ha hb
      exact absurd (ha.trans hb.symm) hab
    | cons y ys =>
      by_contra hnot
      push Not at hnot
      obtain ⟨hsame, hx⟩ := hnot
      have hy : y = x := hx y rfl
      have hall : ∀ c ∈ y :: ys ++ [x], c = y := by
        intro c hc
        rcases mem_append.mp hc with hc | hc
        · exact hsame c hc y mem_cons_self
        · exact (mem_singleton.mp hc).trans hy.symm
      exact hab ((hall a ha).trans (hall b hb).symm)
  · intro h
    rcases h with ⟨a, ha, b, hb, hab⟩ | ⟨a, ha, hax⟩
    · exact ⟨a, mem_append_left _ ha, b, mem_append_left _ hb, hab⟩
    · exact ⟨a, mem_append_left _ (mem_of_mem_head? ha), x, by simp, hax⟩

/-- A class is in conflict when two facts give different values. Only the first value is compared
with later ones, which is enough: of two different values one differs from the first. -/
theorem mem_conflicts_ofFacts (facts : List ClassFact) (asked : Conflict) :
    asked ∈ (ofFacts facts).conflicts ↔
      ∃ x ∈ ClassFact.answers facts asked, ∃ y ∈ ClassFact.answers facts asked, x ≠ y := by
  induction facts using reverseRecOn with
  | nil => simp [ofFacts, ClassFact.answers]
  | append_singleton facts fact ih =>
    rw [ofFacts_append_singleton, mem_conflicts_add, ih, known_ofFacts,
      ClassFact.answers_append_singleton]
    cases fact.answer? asked with
    | none => simp
    | some new =>
      rw [Option.toList_some, exists_ne_append_singleton]
      simp

/-- The table holds an uncontradicted value exactly when this is the only value given. -/
theorem settled_ofFacts (facts : List ClassFact) (asked : Conflict) (value : String) :
    (¬ asked ∈ (ofFacts facts).conflicts ∧ (ofFacts facts).known asked = some value) ↔
      ∀ x, x ∈ ClassFact.answers facts asked ↔ x = value := by
  rw [mem_conflicts_ofFacts, known_ofFacts]
  constructor
  · intro h x
    rcases h with ⟨hsame, hfirst⟩
    have hvalue : value ∈ ClassFact.answers facts asked := mem_of_mem_head? hfirst
    constructor
    · intro hx
      by_contra hne
      exact hsame ⟨x, hx, value, hvalue, hne⟩
    · rintro rfl
      exact hvalue
  · intro h
    refine ⟨?_, ?_⟩
    · intro h
      rcases h with ⟨x, hx, y, hy, hne⟩
      exact hne (((h x).mp hx).trans ((h y).mp hy).symm)
    · cases hanswers : ClassFact.answers facts asked with
      | nil => simpa [hanswers] using h value
      | cons y ys =>
        have hy : y = value := (h y).mp (by simp [hanswers])
        simp [hy]

theorem any_conflicts_iff (table : ClassTable) (name : String) :
    table.conflicts.any (·.name = name) = true ↔
      .superType name ∈ table.conflicts ∨ .superClass name ∈ table.conflicts := by
  simp only [any_eq_true, decide_eq_true_eq]
  constructor
  · intro h
    rcases h with ⟨conflict, hmem, rfl⟩
    cases conflict with
    | superType name => exact .inl hmem
    | superClass name => exact .inr hmem
  · intro h
    rcases h with hmem | hmem
    · exact ⟨_, hmem, rfl⟩
    · exact ⟨_, hmem, rfl⟩

end ClassTable

theorem ClassDeclaration.immediateSuper?_eq_some_iff {declaration : ClassDeclaration}
    {base : String} :
    declaration.immediateSuper? = some base ↔
      base ≠ "" ∧ declaration.superType = some base ∧ declaration.superClass = some base := by
  obtain ⟨superType, superClass⟩ := declaration
  cases superType <;> cases superClass <;> simp [immediateSuper?]
  grind

/-- The confirmed superclass is the one value of either kind that the facts give. -/
theorem Hierarchy.immediateSuper?_ofFacts {hierarchy : Hierarchy} {facts : List ClassFact}
    (htable : hierarchy.table = .ofFacts facts) {name base : String} :
    hierarchy.immediateSuper? name = some base ↔
      base ≠ "" ∧ (∀ x, x ∈ ClassFact.answers facts (.superType name) ↔ x = base) ∧
        ∀ x, x ∈ ClassFact.answers facts (.superClass name) ↔ x = base := by
  rw [← ClassTable.settled_ofFacts, ← ClassTable.settled_ofFacts, ← htable]
  unfold immediateSuper?
  split
  · rename_i hconflict
    have hmem := (hierarchy.table.any_conflicts_iff name).mp hconflict
    constructor
    · intro h
      cases h
    · intro h
      rcases h with ⟨_, ⟨htype, _⟩, hclass, _⟩
      exact (hmem.elim htype hclass).elim
  · rename_i hconflict
    rw [ClassTable.any_conflicts_iff, not_or] at hconflict
    obtain ⟨htype, hclass⟩ := hconflict
    cases hget : hierarchy.table.classes.get? name with
    | none => simp [ClassTable.known, hget]
    | some declaration =>
      simp [ClassTable.known, hget, htype, hclass, ClassDeclaration.immediateSuper?_eq_some_iff]

/-! ## What statements say about classes -/

/-- The statement declares a variable, or assigns to a dotted name without defining a method. -/
inductive Statement.Introduces (s : Statement) : String → Prop where
  | declaration {keyword name : String} {value : Option Expr} :
      s.form = .decl keyword name value → s.Introduces name
  | assignment {a : Assignment} {name : String} : s.form = .expr (.assign a) →
      a.target.Spells name → (¬ ∃ member literal, s.Defines member a literal) → s.Introduces name

namespace Annotations

/-- The documentation of the statement marks a constructor or names a superclass. -/
def MarksClass (annotations : Annotations) (s : Statement) : Prop :=
  (annotations.info s).isConstructor = true ∨
    ∃ superType, (annotations.info s).superType = some superType ∧ superType ≠ ""

/-- The statement declares a class and gives it this superclass type, if any. -/
structure Declares (annotations : Annotations) (s : Statement) (name : String)
    (superType : Option String) : Prop where
  introduces : s.Introduces name
  marked : annotations.MarksClass s
  superType_eq : (annotations.info s).superType = superType

/-- The statement is `Sub.superClass_ = Base.prototype` and declares no class. -/
structure Links (annotations : Annotations) (s : Statement) (name base : String) : Prop where
  form_eq : ∃ id, ∃ sub object : Expr, sub.Spells name ∧ object.Spells base ∧
    s.form = .expr (.assign ⟨id, .member sub "superClass_", .member object "prototype"⟩)
  unmarked : ¬ annotations.MarksClass s

theorem declaresClass_iff {annotations : Annotations} {s : Statement} :
    (annotations.info s).declaresClass = true ↔ annotations.MarksClass s := by
  cases hsuper : (annotations.info s).superType with
  | none => simp [Doc.Info.declaresClass, Doc.Info.namedSuperType, MarksClass, hsuper]
  | some superType =>
    by_cases hempty : superType = "" <;>
      simp [Doc.Info.declaresClass, Doc.Info.namedSuperType, MarksClass, hsuper, hempty]

theorem method?_isSome_iff {s : Statement} {a : Assignment} (hform : s.form = .expr (.assign a)) :
    s.method?.isSome = true ↔ ∃ member literal, s.Defines member a literal := by
  constructor
  · intro h
    obtain ⟨⟨member, literal⟩, hmethod⟩ := Option.isSome_iff_exists.mp h
    obtain ⟨a', ha'⟩ := Statement.method?_eq_some_iff.mp hmethod
    obtain rfl : a = a' := by simpa using hform.symm.trans ha'.form_eq
    exact ⟨member, literal, ha'⟩
  · intro h
    rcases h with ⟨member, literal, ha⟩
    rw [Statement.method?_eq_some_iff.mpr ⟨a, ha⟩]
    rfl

/-- A marked assignment to a dotted name declares it. -/
theorem classFact?_of_marked {annotations : Annotations} {s : Statement} {a : Assignment}
    (hmarked : annotations.MarksClass s) :
    a.classFact? (annotations.info s) =
      a.target.qualifiedName?.map (.declares · (annotations.info s).superType) := by
  have hdeclares := declaresClass_iff.mpr hmarked
  cases hname : a.target.qualifiedName? <;> simp [Assignment.classFact?, hname, hdeclares]

/-- An assignment that is not marked is read as a link. -/
theorem classFact?_of_unmarked {annotations : Annotations} {s : Statement} {a : Assignment}
    (hunmarked : ¬ annotations.MarksClass s) {fact : ClassFact} :
    a.classFact? (annotations.info s) = some fact ↔
      ∃ sub base, a.target.linkOf? = some sub ∧ a.value.prototypeOf? = some base ∧
        fact = .links sub base := by
  have hdeclares : (annotations.info s).declaresClass = false :=
    Bool.eq_false_iff.mpr (declaresClass_iff.not.mpr hunmarked)
  constructor
  · intro h
    unfold Assignment.classFact? at h
    split at h
    · cases h
    · rw [hdeclares, if_neg Bool.false_ne_true] at h
      split at h
      · rename_i sub base hsub hbase
        exact ⟨sub, base, hsub, hbase, (Option.some.inj h).symm⟩
      · cases h
  · intro h
    rcases h with ⟨sub, base, hsub, hbase, rfl⟩
    obtain ⟨object, hobject, htarget⟩ := Expr.ownerOf?_eq_some_iff.mp hsub
    have hname : a.target.qualifiedName? = some (sub ++ "." ++ "superClass_") :=
      Expr.spells_iff.mp (htarget ▸ hobject.member "superClass_")
    simp [Assignment.classFact?, hname, hdeclares, hsub, hbase]

theorem classFact?_eq_declares_iff {annotations : Annotations} {s : Statement} {name : String}
    {superType : Option String} :
    annotations.classFact? s = some (.declares name superType) ↔
      annotations.Declares s name superType := by
  constructor
  · intro h
    unfold classFact? at h
    split at h
    · rename_i keyword declared value hform
      dsimp only at h
      split at h
      · rename_i hdeclares
        cases h
        exact ⟨.declaration hform, declaresClass_iff.mp hdeclares, rfl⟩
      · cases h
    · rename_i a hform
      split at h
      · cases h
      · rename_i hmethod
        by_cases hmarked : annotations.MarksClass s
        · rw [classFact?_of_marked hmarked] at h
          obtain ⟨path, hpath, heq⟩ := Option.map_eq_some_iff.mp h
          cases heq
          refine ⟨.assignment hform (Expr.spells_iff.mpr hpath) ?_, hmarked, rfl⟩
          rwa [← method?_isSome_iff hform]
        · obtain ⟨_, _, _, _, heq⟩ := (classFact?_of_unmarked hmarked).mp h
          cases heq
    · cases h
  · intro h
    rcases h with ⟨hintroduces, hmarked, rfl⟩
    cases hintroduces with
    | declaration hform => simp [classFact?, hform, declaresClass_iff.mpr hmarked]
    | @assignment a _ hform hspells hmethod =>
      rw [← method?_isSome_iff hform] at hmethod
      simp [classFact?, hform, hmethod, classFact?_of_marked hmarked, Expr.spells_iff.mp hspells]

theorem classFact?_eq_links_iff {annotations : Annotations} {s : Statement} {name base : String} :
    annotations.classFact? s = some (.links name base) ↔ annotations.Links s name base := by
  constructor
  · intro h
    unfold classFact? at h
    split at h
    · dsimp only at h
      split at h <;> cases h
    · rename_i a hform
      split at h
      · cases h
      · by_cases hmarked : annotations.MarksClass s
        · rw [classFact?_of_marked hmarked] at h
          obtain ⟨_, _, heq⟩ := Option.map_eq_some_iff.mp h
          cases heq
        · obtain ⟨_, _, hsub, hbase, heq⟩ := (classFact?_of_unmarked hmarked).mp h
          cases heq
          obtain ⟨id, target, value⟩ := a
          obtain ⟨sub, hsub', rfl⟩ := Expr.ownerOf?_eq_some_iff.mp hsub
          obtain ⟨object, hobject, rfl⟩ := Expr.ownerOf?_eq_some_iff.mp hbase
          exact ⟨⟨id, sub, object, hsub', hobject, hform⟩, hmarked⟩
    · cases h
  · intro h
    rcases h with ⟨⟨id, sub, object, hsub, hobject, hform⟩, hunmarked⟩
    have hmethod : ¬ s.method?.isSome = true := by
      rw [method?_isSome_iff hform]
      intro h
      rcases h with ⟨_, _, ha⟩
      cases ha.value_eq
    have hfact : Assignment.classFact? (annotations.info s)
        ⟨id, .member sub "superClass_", .member object "prototype"⟩ = some (.links name base) :=
      (classFact?_of_unmarked hunmarked).mpr
        ⟨name, base, Expr.ownerOf?_eq_some_iff.mpr ⟨sub, hsub, rfl⟩,
          Expr.ownerOf?_eq_some_iff.mpr ⟨object, hobject, rfl⟩, rfl⟩
    simp [classFact?, hform, hmethod, hfact]

/-- A method definition says nothing about classes. -/
theorem classFact?_of_defines {annotations : Annotations} {s : Statement} {member : Member}
    {a : Assignment} {literal : FunctionLiteral} (h : s.Defines member a literal) :
    annotations.classFact? s = none := by
  have hmethod := Statement.method?_eq_some_iff.mpr ⟨a, h⟩
  simp [classFact?, h.form_eq, hmethod]

end Annotations

/-! ## Confirmed superclasses of a program -/

namespace Program

theorem classFacts_eq_collect (program : Program) (annotations : Annotations) :
    program.classFacts annotations =
      program.collect fun _ s => (annotations.classFact? s).toList := by
  simp only [classFacts, collect, filterMap_eq_flatMap_toList]

theorem mem_classFacts {program : Program} {annotations : Annotations} {fact : ClassFact} :
    fact ∈ program.classFacts annotations ↔
      ∃ s ∈ program.statements, annotations.classFact? s = some fact := by
  simp only [classFacts_eq_collect, mem_collect, mem_statements, Option.mem_toList]
  constructor
  · intro h
    rcases h with ⟨script, hscript, s, hs, hfact⟩
    exact ⟨s, ⟨script, hscript, hs⟩, hfact⟩
  · intro h
    rcases h with ⟨s, ⟨script, hscript, hs⟩, hfact⟩
    exact ⟨script, hscript, s, hs, hfact⟩

/-- Some statement documents the superclass and some statement links it, and no statement documents
or links another one. -/
structure Confirms (program : Program) (annotations : Annotations) (name base : String) : Prop where
  ne_empty : base ≠ ""
  documented : ∃ s ∈ program.statements, annotations.Declares s name (some base)
  documented_unique : ∀ s ∈ program.statements, ∀ other,
    annotations.Declares s name (some other) → other = base
  linked : ∃ s ∈ program.statements, annotations.Links s name base
  linked_unique : ∀ s ∈ program.statements, ∀ other, annotations.Links s name other → other = base

theorem mem_answers_superType {program : Program} {annotations : Annotations} {name x : String} :
    x ∈ ClassFact.answers (program.classFacts annotations) (.superType name) ↔
      ∃ s ∈ program.statements, annotations.Declares s name (some x) := by
  simp only [ClassFact.answers, mem_filterMap, ← Annotations.classFact?_eq_declares_iff,
    ← mem_classFacts]
  constructor
  · intro h
    rcases h with ⟨fact, hfact, hanswer⟩
    cases fact with
    | declares declared superType =>
      simp only [ClassFact.answer?] at hanswer
      split at hanswer
      · rename_i hname
        exact hname ▸ hanswer ▸ hfact
      · cases hanswer
    | links _ _ => cases hanswer
  · intro hfact
    exact ⟨_, hfact, by simp [ClassFact.answer?]⟩

theorem mem_answers_superClass {program : Program} {annotations : Annotations} {name x : String} :
    x ∈ ClassFact.answers (program.classFacts annotations) (.superClass name) ↔
      ∃ s ∈ program.statements, annotations.Links s name x := by
  simp only [ClassFact.answers, mem_filterMap, ← Annotations.classFact?_eq_links_iff,
    ← mem_classFacts]
  constructor
  · intro h
    rcases h with ⟨fact, hfact, hanswer⟩
    cases fact with
    | declares _ _ => cases hanswer
    | links linked base =>
      simp only [ClassFact.answer?] at hanswer
      split at hanswer
      · rename_i hname
        cases hanswer
        exact hname ▸ hfact
      · cases hanswer
  · intro hfact
    exact ⟨_, hfact, by simp [ClassFact.answer?]⟩

/-- The class table confirms what the statements of the program confirm. -/
theorem immediateSuper?_iff_confirms {program : Program} {annotations : Annotations}
    {name base : String} :
    (program.hierarchy annotations).immediateSuper? name = some base ↔
      program.Confirms annotations name base := by
  rw [Hierarchy.immediateSuper?_ofFacts rfl]
  simp only [mem_answers_superType, mem_answers_superClass]
  constructor
  · intro h
    rcases h with ⟨hempty, htype, hclass⟩
    exact ⟨hempty, (htype base).mpr rfl, fun s hs other h => (htype other).mp ⟨s, hs, h⟩,
      (hclass base).mpr rfl, fun s hs other h => (hclass other).mp ⟨s, hs, h⟩⟩
  · intro h
    rcases h with ⟨hempty, hdocumented, hdocumented', hlinked, hlinked'⟩
    refine ⟨hempty, fun x => ⟨?_, ?_⟩, fun x => ⟨?_, ?_⟩⟩
    · intro h
      rcases h with ⟨s, hs, h⟩
      exact hdocumented' s hs x h
    · rintro rfl
      exact hdocumented
    · intro h
      rcases h with ⟨s, hs, h⟩
      exact hlinked' s hs x h
    · rintro rfl
      exact hlinked

/-! ## The answers as sets -/

/-- The superclass types that the statements declaring a class document. -/
def documentedTypes (program : Program) (annotations : Annotations) (name : String) :
    Set String :=
  {superType | ∃ s ∈ program.statements, annotations.Declares s name (some superType)}

/-- The classes that the superclass links of a class lead to. -/
def linkedBases (program : Program) (annotations : Annotations) (name : String) : Set String :=
  {base | ∃ s ∈ program.statements, annotations.Links s name base}

theorem confirms_iff {program : Program} {annotations : Annotations} {name base : String} :
    program.Confirms annotations name base ↔
      base ≠ "" ∧ program.documentedTypes annotations name = {base} ∧
        program.linkedBases annotations name = {base} := by
  rw [Set.eq_singleton_iff_unique_mem, Set.eq_singleton_iff_unique_mem]
  constructor
  · intro h
    rcases h with ⟨hempty, hdocumented, hdocumented', hlinked, hlinked'⟩
    refine ⟨hempty, ⟨hdocumented, ?_⟩, hlinked, ?_⟩
    · rintro x ⟨s, hs, hx⟩
      exact hdocumented' s hs x hx
    · rintro x ⟨s, hs, hx⟩
      exact hlinked' s hs x hx
  · intro h
    rcases h with ⟨hempty, ⟨hdocumented, hdocumented'⟩, hlinked, hlinked'⟩
    refine ⟨hempty, hdocumented, ?_, hlinked, ?_⟩
    · intro s hs x hx
      exact hdocumented' x ⟨s, hs, hx⟩
    · intro s hs x hx
      exact hlinked' x ⟨s, hs, hx⟩

/-- A class that is given two superclass types or two links stays unconfirmed, whatever else the
program says about it, how often and in which order. -/
theorem immediateSuper?_eq_none_of_nontrivial {program : Program} {annotations : Annotations}
    {name : String} (h : (program.documentedTypes annotations name).Nontrivial ∨
      (program.linkedBases annotations name).Nontrivial) :
    (program.hierarchy annotations).immediateSuper? name = none := by
  cases hsuper : (program.hierarchy annotations).immediateSuper? name with
  | none => rfl
  | some base =>
    obtain ⟨_, hdocumented, hlinked⟩ := confirms_iff.mp (immediateSuper?_iff_confirms.mp hsuper)
    rw [hdocumented, hlinked, or_self] at h
    exact absurd h Set.not_nontrivial_singleton

/-- The confirmed superclass of a class is the only type that its declarations document and the only
class that its links lead to. Without such a class there is none, so that two types or two links are
never confirmed. -/
theorem immediateSuper?_iff_only_answer (program : Program) (annotations : Annotations)
    (name : String) :
    (∀ base, (program.hierarchy annotations).immediateSuper? name = some base ↔
      base ≠ "" ∧ program.documentedTypes annotations name = {base} ∧
        program.linkedBases annotations name = {base}) ∧
    ((program.hierarchy annotations).immediateSuper? name = none ↔
      ¬ ∃ base, base ≠ "" ∧ program.documentedTypes annotations name = {base} ∧
        program.linkedBases annotations name = {base}) ∧
    ((program.documentedTypes annotations name).Nontrivial ∨
        (program.linkedBases annotations name).Nontrivial →
      (program.hierarchy annotations).immediateSuper? name = none) := by
  have hsome : ∀ base, (program.hierarchy annotations).immediateSuper? name = some base ↔
      base ≠ "" ∧ program.documentedTypes annotations name = {base} ∧
        program.linkedBases annotations name = {base} :=
    fun base => immediateSuper?_iff_confirms.trans confirms_iff
  refine ⟨hsome, ?_, immediateSuper?_eq_none_of_nontrivial⟩
  rw [Option.eq_none_iff_forall_ne_some, not_exists]
  exact forall_congr' fun base => not_congr (hsome base)

end Program

end OverrideElision
