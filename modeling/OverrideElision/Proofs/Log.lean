import OverrideElision.Proofs.Deletion

/-! # What a run tells

The log of a run is put together from what its parts tell: the class table about each fact that
contradicts what it holds, the checks about each candidate that is kept, and the deletions about
each definition that goes. When no statement is shared, every candidate is told of once, as kept or
as removed. -/

namespace OverrideElision

open List

/-! ## Contradictions -/

namespace ClassFact

/-- What a fact is about: the superclass type or the superclass link of its class. -/
def subject : ClassFact → Conflict
  | .declares name _ => .superType name
  | .links name _ => .superClass name

/-- What a fact contradicts when `held` is the value that is held for its subject. -/
def conflict? (held : Option String) (fact : ClassFact) : Option Conflict :=
  match held, fact.answer? fact.subject with
  | some old, some new => if old = new then none else some fact.subject
  | _, _ => none

/-- The contradictions in a list of facts, one for each fact whose value differs from the first one
that the facts before it give. -/
def contradictions (facts : List ClassFact) : List Conflict :=
  facts.zipIdx.filterMap fun (fact, i) =>
    fact.conflict? (answers (facts.take i) fact.subject).head?

theorem contradictions_append_singleton (facts : List ClassFact) (fact : ClassFact) :
    contradictions (facts ++ [fact]) =
      contradictions facts ++ (fact.conflict? (answers facts fact.subject).head?).toList := by
  have hbefore : ∀ pair ∈ facts.zipIdx, (facts ++ [fact]).take pair.2 = facts.take pair.2 := by
    intro pair hpair
    have hlt := snd_lt_of_mem_zipIdx hpair
    exact take_append_of_le_length (by omega)
  simp only [contradictions, zipIdx_append, filterMap_append]
  congr 1
  · refine filterMap_congr fun pair hpair => ?_
    simp only [hbefore pair hpair]
  · cases h : fact.conflict? (answers facts fact.subject).head? <;> simp [h]

end ClassFact

theorem ClassTable.conflicts_add (table : ClassTable) (fact : ClassFact) :
    (table.add fact).conflicts =
      table.conflicts ++ (fact.conflict? (table.known fact.subject)).toList := by
  cases fact with
  | declares name superType =>
    simp only [add, ClassFact.subject, ClassFact.conflict?, ClassFact.answer?, known, if_pos]
    cases (table.classes.get? name).bind ClassDeclaration.superType with
    | none => simp
    | some old =>
      cases superType with
      | none => simp
      | some new => by_cases h : old = new <;> simp [h]
  | links name base =>
    simp only [add, ClassFact.subject, ClassFact.conflict?, ClassFact.answer?, known, if_pos]
    cases (table.classes.get? name).bind ClassDeclaration.superClass with
    | none => simp
    | some old => by_cases h : old = base <;> simp [h]

/-- The table notes each contradiction once, in the order of the facts. -/
theorem ClassTable.conflicts_ofFacts (facts : List ClassFact) :
    (ofFacts facts).conflicts = ClassFact.contradictions facts := by
  induction facts using reverseRecOn with
  | nil => rfl
  | append_singleton facts fact ih =>
    rw [ofFacts_append_singleton, conflicts_add, ih, known_ofFacts,
      ClassFact.contradictions_append_singleton]

/-! ## Deletions -/

namespace Program

/-- The script of the definition still has its statement. -/
def Has (program : Program) (d : MethodDefinition) : Prop :=
  ∃ script ∈ program.scripts, script.id = d.script ∧ script.holds d.statement = true

theorem Has.isSome_delete? {program : Program} {d : MethodDefinition} (h : program.Has d) :
    (program.delete? d).isSome = true := by
  obtain ⟨script, hscript, hid, hholds⟩ := h
  have hdelete : (script.delete? d.statement).isSome = true := by
    rw [Script.delete?, ← Script.holds, if_pos hholds]
    rfl
  have hany : program.scripts.any (fun script =>
      script.id = d.script ∧ (script.delete? d.statement).isSome) = true :=
    any_eq_true.mpr ⟨script, hscript, by simp [hid, hdelete]⟩
  rw [delete?, if_pos hany]
  rfl

/-- Deleting one definition leaves the statement of another one where it is. -/
theorem Has.of_delete? {program smaller : Program} {d e : MethodDefinition} (h : program.Has e)
    (hdelete : program.delete? d = some smaller) (hne : e.statement.id ≠ d.statement.id) :
    smaller.Has e := by
  obtain ⟨script, hscript, hid, hholds⟩ := h
  have hsmaller := program.delete?_getD d
  rw [hdelete, Option.getD_some] at hsmaller
  obtain ⟨s, hs, hsid⟩ := Script.holds_iff.mp hholds
  have hkept : s ∈ (script.erase d).statements := by
    unfold Script.erase
    split
    · exact (mem_eraseP_of_neg (by simpa [hsid] using hne)).mpr hs
    · exact hs
  refine ⟨script.erase d, ?_, (Script.id_erase script d).trans hid,
    Script.holds_iff.mpr ⟨s, hkept, hsid⟩⟩
  rw [hsmaller]
  exact mem_map_of_mem hscript

/-- When all statements are there and no two are the same, each deletion is told of. -/
theorem deleteAll_snd {program : Program} {ds : List MethodDefinition}
    (hhas : ∀ d ∈ ds, program.Has d) (hnodup : (ds.map (·.statement.id)).Nodup) :
    (program.deleteAll ds).2 = ds.map fun d => .removed d.member d.scriptName := by
  induction ds generalizing program with
  | nil => rfl
  | cons d ds ih =>
    obtain ⟨hd, hds⟩ := forall_mem_cons.mp hhas
    obtain ⟨hnot, hnodup⟩ := nodup_cons.mp hnodup
    obtain ⟨smaller, hdelete⟩ := Option.isSome_iff_exists.mp hd.isSome_delete?
    have hrest : ∀ e ∈ ds, smaller.Has e := by
      intro e he
      refine (hds e he).of_delete? hdelete fun hid => hnot ?_
      exact mem_map.mpr ⟨e, he, hid⟩
    rw [deleteAll, hdelete, map_cons, ← ih hrest hnodup]

end Program

/-! ## Candidates -/

namespace MethodDefinition

/-- The event tells that the definition is kept and why. -/
def KeptFor (d : MethodDefinition) (reason : KeepReason) (event : Event) : Prop :=
  event = .kept d.member reason ∧ ∀ milliseconds, event.line milliseconds =
    "DEBUG [RemoveSuperMethods] Keeping " ++ d.member.owner ++ ".prototype." ++ d.member.name ++
      ": " ++ reason.message

/-- The event tells that the definition is removed and from which script. -/
def RemovedFrom (d : MethodDefinition) (script : String) (event : Event) : Prop :=
  event = .removed d.member script ∧ ∀ milliseconds, event.line milliseconds =
    "INFO [RemoveSuperMethods] Removed " ++ d.member.owner ++ ".prototype." ++ d.member.name ++
      " (" ++ script ++ ")"

theorem keptFor (d : MethodDefinition) (reason : KeepReason) :
    d.KeptFor reason (.kept d.member reason) := by
  refine ⟨rfl, fun milliseconds => ?_⟩
  have hline : (Event.kept d.member reason).line milliseconds =
      "DEBUG" ++ " " ++ ("[RemoveSuperMethods] " ++
        ("Keeping " ++ (d.member.owner ++ ".prototype." ++ d.member.name) ++ ": " ++
          reason.message)) := by
    rw [Event.line]
    rfl
  have hstart : "DEBUG [RemoveSuperMethods] Keeping " =
      "DEBUG" ++ " " ++ "[RemoveSuperMethods] " ++ "Keeping " := by decide
  rw [hline, hstart]
  ac_rfl

theorem removedFrom (d : MethodDefinition) (script : String) :
    d.RemovedFrom script (.removed d.member script) := by
  refine ⟨rfl, fun milliseconds => ?_⟩
  have hline : (Event.removed d.member script).line milliseconds =
      "INFO" ++ " " ++ ("[RemoveSuperMethods] " ++
        ("Removed " ++ (d.member.owner ++ ".prototype." ++ d.member.name) ++ " (" ++ script ++
          ")")) := by
    rw [Event.line]
    rfl
  have hstart : "INFO [RemoveSuperMethods] Removed " =
      "INFO" ++ " " ++ "[RemoveSuperMethods] " ++ "Removed " := by decide
  rw [hline, hstart]
  ac_rfl

end MethodDefinition

namespace Program

variable {program : Program} {annotations : Annotations} {context : Context}

/-- The definitions that only forward, in the order of their statements. -/
def forwarders (program : Program) (annotations : Annotations) : List MethodDefinition :=
  program.definitions.filter fun d => (d.override? (annotations.info d.statement)).isSome

/-- What is told about a definition that only forwards, unless it is removed. -/
def objection? (program : Program) (annotations : Annotations) (context : Context)
    (d : MethodDefinition) : Option KeepReason :=
  (d.override? (annotations.info d.statement)).bind fun call =>
    (program.hierarchy annotations).keepReason? annotations (program.noted annotations context)
      d call

theorem definitions_sublist (program : Program) :
    program.definitions.map (·.statement) <+ program.statements := by
  rw [definitions_eq_collect, statements_eq_collect, map_collect]
  refine collect_sublist fun script _ s _ => ?_
  cases hd : script.definition? s with
  | none => exact nil_sublist _
  | some d =>
    obtain ⟨_, hs, _, _⟩ := Script.definition?_eq_some_iff.mp hd
    rw [Option.toList_some, map_singleton, hs]

/-- A definition that only forwards is removed, or something is told against that. -/
theorem isSome_objection? (d : MethodDefinition) :
    (program.objection? annotations context d).isSome =
      ((d.override? (annotations.info d.statement)).isSome &&
        !program.elides annotations context d) := by
  unfold objection? elides
  cases d.override? (annotations.info d.statement) with
  | none => rfl
  | some call =>
    rw [Option.bind_some, Option.any_some]
    cases (program.hierarchy annotations).keepReason? annotations
      (program.noted annotations context) d call <;> rfl

/-- A definition that goes is one that only forwards. -/
theorem isSome_override?_of_elides {d : MethodDefinition}
    (h : program.elides annotations context d = true) :
    (d.override? (annotations.info d.statement)).isSome = true := by
  obtain ⟨call, hcall, _⟩ := elides_iff.mp h
  rw [hcall, Option.isSome_some]

section

variable (h : (program.statements.map Statement.id).Nodup)
include h

theorem candidates_eq_of_nodup :
    program.candidates (program.hierarchy annotations) annotations =
      program.definitions.filterMap fun d =>
        (d.override? (annotations.info d.statement)).map fun call => ⟨d, call⟩ := by
  rw [candidates_eq, decided_eq_of_nodup h]

theorem removed_eq_of_nodup :
    (context.process program annotations).report.removed =
      program.definitions.filter (program.elides annotations context) := by
  rw [removed_eq, decided_eq_of_nodup h]

theorem nodup_ids_definitions : (program.definitions.map (·.statement.id)).Nodup := by
  have hsub := program.definitions_sublist.map Statement.id
  rw [map_map] at hsub
  exact hsub.nodup h

theorem length_candidates :
    (context.process program annotations).report.candidates =
      (program.forwarders annotations).length := by
  change (program.candidates (program.hierarchy annotations) annotations).length = _
  rw [candidates_eq_of_nodup h, forwarders]
  induction program.definitions with
  | nil => rfl
  | cons d ds ih =>
    cases hcall : d.override? (annotations.info d.statement) <;> simp [hcall, ih]

/-- A definition is among the removed ones when a run decides that it goes. -/
theorem mem_ids_removed_iff {d : MethodDefinition} (hd : d ∈ program.definitions) :
    d.statement.id ∈
        (context.process program annotations).report.removed.map (·.statement.id) ↔
      program.elides annotations context d = true := by
  rw [removed_eq_of_nodup h]
  constructor
  · intro hid
    obtain ⟨e, he, hid⟩ := mem_map.mp hid
    obtain ⟨he, helides⟩ := mem_filter.mp he
    rwa [← inj_on_of_nodup_map (nodup_ids_definitions h) he hd hid]
  · exact fun helides => mem_map.mpr ⟨d, mem_filter.mpr ⟨hd, helides⟩, rfl⟩

end

/-! ## The log -/

/-- What a function gives for the items of a list goes with the items that it gives something
for. -/
theorem forall₂_filterMap {α β : Type} (f : α → Option β) (xs : List α) :
    Forall₂ (fun x y => f x = some y) (xs.filter fun x => (f x).isSome) (xs.filterMap f) := by
  induction xs with
  | nil => exact .nil
  | cons x xs ih =>
    cases hx : f x with
    | none => simpa [hx] using ih
    | some y => simpa [hx] using ih

/-- What is told about the definitions that are kept. -/
def keptEvents (program : Program) (annotations : Annotations) (context : Context) : List Event :=
  program.definitions.filterMap fun d =>
    (program.objection? annotations context d).map (.kept d.member)

section

variable (h : (program.statements.map Statement.id).Nodup)
include h

theorem forall₂_keptEvents :
    Forall₂ (fun d event => ∃ reason, program.objection? annotations context d = some reason ∧
        d.KeptFor reason event)
      ((program.forwarders annotations).filter fun d => ¬ d.statement.id ∈
        (context.process program annotations).report.removed.map (·.statement.id))
      (program.keptEvents annotations context) := by
  have hfilter : (program.forwarders annotations).filter (fun d => ¬ d.statement.id ∈
        (context.process program annotations).report.removed.map (·.statement.id)) =
      program.definitions.filter fun d =>
        ((program.objection? annotations context d).map (Event.kept d.member)).isSome := by
    rw [forwarders, filter_filter]
    refine filter_congr fun d hd => ?_
    rw [Option.isSome_map, isSome_objection?, Bool.and_comm, decide_not]
    congr 2
    rw [Bool.eq_iff_iff, decide_eq_true_eq]
    exact mem_ids_removed_iff h hd
  rw [hfilter, keptEvents]
  refine (forall₂_filterMap _ program.definitions).imp fun d event hevent => ?_
  obtain ⟨reason, hreason, rfl⟩ := Option.map_eq_some_iff.mp hevent
  exact ⟨reason, hreason, d.keptFor reason⟩

/-- The kept and the removed definitions are those that only forward. -/
theorem length_keptEvents :
    (program.keptEvents annotations context).length +
        (context.process program annotations).report.removed.length =
      (program.forwarders annotations).length := by
  have hremoved : (context.process program annotations).report.removed =
      (program.forwarders annotations).filter (program.elides annotations context) := by
    rw [removed_eq_of_nodup h, forwarders, filter_filter]
    refine filter_congr fun d _ => ?_
    rw [Bool.eq_iff_iff, Bool.and_eq_true]
    exact (and_iff_left_of_imp isSome_override?_of_elides).symm
  have hkept : (program.keptEvents annotations context).length =
      ((program.forwarders annotations).filter fun d =>
        !program.elides annotations context d).length := by
    rw [keptEvents, length_filterMap_eq_countP, countP_eq_length_filter, forwarders, filter_filter]
    congr 1
    refine filter_congr fun d _ => ?_
    rw [Option.isSome_map, isSome_objection?, Bool.and_comm]
  have hsplit := length_eq_countP_add_countP (program.elides annotations context)
    (l := program.forwarders annotations)
  rw [hkept, hremoved, ← countP_eq_length_filter, ← countP_eq_length_filter, Nat.add_comm]
  simpa using hsplit.symm

theorem has_of_removed {d : MethodDefinition}
    (hd : d ∈ (context.process program annotations).report.removed) : program.Has d := by
  rw [removed_eq_of_nodup h] at hd
  obtain ⟨script, hscript, s, hs, hd⟩ := mem_definitions.mp (mem_filter.mp hd).1
  obtain ⟨_, rfl, hid, _⟩ := Script.definition?_eq_some_iff.mp hd
  exact ⟨script, hscript, hid.symm, Script.holds_iff.mpr ⟨_, hs, rfl⟩⟩

theorem log_eq :
    (context.process program annotations).log =
      .started program.scripts.length ::
        (ClassFact.contradictions (program.classFacts annotations)).map .conflict ++
        program.keptEvents annotations context ++
        (context.process program annotations).report.removed.map
          (fun d => .removed d.member d.scriptName) ++
        [.finished (context.process program annotations).report.removed.length
          (context.process program annotations).report.candidates] := by
  have hkept : (program.candidates (program.hierarchy annotations) annotations).filterMap
      (fun candidate => ((program.hierarchy annotations).keepReason? annotations
        (program.noted annotations context) candidate.definition candidate.call).map
          (.kept candidate.definition.member ·)) = program.keptEvents annotations context := by
    rw [candidates_eq_of_nodup h, filterMap_filterMap, keptEvents]
    refine filterMap_congr fun d _ => ?_
    unfold objection?
    cases d.override? (annotations.info d.statement) <;> rfl
  have hids :
      ((context.process program annotations).report.removed.map (·.statement.id)).Nodup := by
    rw [removed_eq_of_nodup h]
    exact (filter_sublist.map _).nodup (nodup_ids_definitions h)
  rw [← hkept, ← deleteAll_snd (fun d hd => has_of_removed h hd) hids,
    ← ClassTable.conflicts_ofFacts]
  rfl

end

end Program

/-- A script of the program had the statement of the definition, and what the outcome has in its
place, under the name that the definition gives, has it no longer. -/
def Outcome.Lost (outcome : Outcome) (program : Program) (d : MethodDefinition) : Prop :=
  ∃ before after, (before, after) ∈ program.scripts.zip outcome.program.scripts ∧
    before.name = d.scriptName ∧ after.name = d.scriptName ∧
    d.statement ∈ before.statements ∧ ¬ d.statement ∈ after.statements

/-- A removed definition is one that its script has lost. -/
theorem Program.lost_of_removed {program : Program} {annotations : Annotations} {context : Context}
    (h : (program.statements.map Statement.id).Nodup) {d : MethodDefinition}
    (hd : d ∈ (context.process program annotations).report.removed) :
    (context.process program annotations).Lost program d := by
  obtain ⟨script, hscript, s, hs, hdefinition⟩ := mem_definitions.mp (mem_definitions_of_removed hd)
  obtain ⟨_, rfl, _, hname⟩ := Script.definition?_eq_some_iff.mp hdefinition
  have hdrops : program.drops (context.process program annotations).report.removed script
      d.statement = true := by
    rw [drops_eq_of_nodup h _ hscript hs, decide_eq_true_eq]
    exact mem_map.mpr ⟨d, hd, rfl⟩
  let after (script : Script) : Script :=
    { script with
      statements := script.statements.filter fun s =>
        !program.drops (context.process program annotations).report.removed script s }
  have hzip : program.scripts.zip (program.scripts.map after) =
      program.scripts.map fun script => (script, after script) := by
    rw [← zip_map', map_id']
  refine ⟨script, after script, ?_, hname.symm, hname.symm, hs, ?_⟩
  · rw [(coherent_of_nodup h).process_program, hzip]
    exact mem_map_of_mem hscript
  · simp [after, hdrops]

/-- What the log of a run consists of: the start, the contradictions in the order of the facts, what
is kept and why in the order of the program, what is removed in the order of the report, and the
end. -/
structure Outcome.Tells (outcome : Outcome) (program : Program) (annotations : Annotations)
    (context : Context) (kept removals : List Event) : Prop where
  log : outcome.log =
    .started program.scripts.length ::
      (ClassFact.contradictions (program.classFacts annotations)).map .conflict ++ kept ++
      removals ++ [.finished outcome.report.removed.length outcome.report.candidates]
  tellsKept : Forall₂
    (fun d event => ∃ reason, program.objection? annotations context d = some reason ∧
      d.KeptFor reason event)
    ((program.forwarders annotations).filter fun d =>
      ¬ d.statement.id ∈ outcome.report.removed.map (·.statement.id)) kept
  tellsRemoved : Forall₂
    (fun d event => d.RemovedFrom d.scriptName event ∧ outcome.Lost program d)
    outcome.report.removed removals
  candidates : outcome.report.candidates = (program.forwarders annotations).length
  total : kept.length + removals.length = outcome.report.candidates

/-- When no statement is shared, the log of a run accounts for every candidate. -/
theorem Program.exists_process_tells {program : Program}
    (h : (program.statements.map Statement.id).Nodup) (annotations : Annotations)
    (context : Context) :
    ∃ kept removals, (context.process program annotations).Tells program annotations context kept
      removals := by
  have hlength : (context.process program annotations).report.candidates =
      (program.forwarders annotations).length := length_candidates h
  refine ⟨program.keptEvents annotations context,
    (context.process program annotations).report.removed.map
      (fun d => .removed d.member d.scriptName), log_eq h, forall₂_keptEvents h, ?_, hlength, ?_⟩
  · rw [forall₂_map_right_iff, forall₂_same]
    exact fun d hd => ⟨d.removedFrom d.scriptName, lost_of_removed h hd⟩
  · rw [length_map, hlength, length_keptEvents h]

namespace Chain

/-- The chain with a second superclass for the third class, so that its override stays. -/
def contradicted : Program :=
  { program with scripts := program.scripts ++ [⟨2, "c.js", [link 11 "C" "A"]⟩] }

theorem contradicted_tells :
    (contradicted.statements.map Statement.id).Nodup ∧
      (∃ kept removals, (({} : Context).process contradicted contradicted.annotations).Tells
        contradicted contradicted.annotations {} kept removals) ∧
      (({} : Context).process contradicted contradicted.annotations).log =
        [.started 3, .conflict (.superClass "C"), .kept ⟨"C", "m"⟩ .noSuperclass,
          .removed ⟨"B", "m"⟩ "a.js", .finished 1 2] := by
  have hnodup : (contradicted.statements.map Statement.id).Nodup := by decide
  refine ⟨hnodup, Program.exists_process_tells hnodup _ _, ?_⟩
  decide +kernel

end Chain

end OverrideElision
