import Mathlib.Data.List.Count
import OverrideElision.Proofs.Removal

/-! # What deletion leaves

Definitions are deleted one at a time, each time the first occurrence of a statement in one script.
A statement that stands in several places is decided about once for each of them, which is at least
as often as it stands in the script that it is deleted from. -/

namespace OverrideElision

open List

/-! ## Deleting entries by their keys -/

section Keys

variable {α κ : Type} [DecidableEq κ]

theorem filter_eraseP {p q : α → Bool} (h : ∀ x, q x = true → p x = false) (xs : List α) :
    (xs.eraseP q).filter p = xs.filter p := by
  induction xs with
  | nil => rfl
  | cons x xs ih =>
    cases hq : q x with
    | true => simp [hq, h x hq]
    | false =>
      rw [eraseP_cons_of_neg (by simp [hq]), filter_cons, filter_cons, ih]

theorem count_map_filter {key : α → κ} {p : α → Bool} {k : κ} {xs : List α}
    (h : ∀ x ∈ xs, key x = k → p x = true) :
    ((xs.filter p).map key).count k = (xs.map key).count k := by
  rw [count_eq_countP, count_eq_countP, countP_map, countP_map, countP_filter]
  refine countP_congr fun x hx => ?_
  simp only [Function.comp_apply, beq_iff_eq, Bool.and_eq_true, and_iff_left_iff_imp]
  exact h x hx

/-- When every key is erased as often as it occurs, nothing of it is left. -/
theorem foldl_eraseP {key : α → κ} {ks : List κ} {xs : List α}
    (h : ∀ k ∈ ks, (xs.map key).count k ≤ ks.count k) :
    ks.foldl (fun xs k => xs.eraseP (key · = k)) xs = xs.filter (¬ key · ∈ ks) := by
  induction ks generalizing xs with
  | nil => simp
  | cons k ks ih =>
    have hkeys : (xs.eraseP (key · = k)).map key = (xs.map key).erase k := by
      rw [erase_eq_eraseP, eraseP_map]
      congr 2
      funext x
      rw [Bool.eq_iff_iff, Function.comp_apply, beq_iff_eq, decide_eq_true_eq]
      exact eq_comm
    have hrest : ∀ j ∈ ks, ((xs.eraseP (key · = k)).map key).count j ≤ ks.count j := by
      intro j hj
      have hcount := h j (mem_cons_of_mem k hj)
      rw [count_cons] at hcount
      rw [hkeys, count_erase]
      omega
    -- An entry with the erased key that is still there is erased again later.
    have hlater : ∀ x ∈ xs.eraseP (key · = k), key x = k → k ∈ ks := by
      intro x hx hk
      by_contra hnot
      have hleft : 0 < ((xs.eraseP (key · = k)).map key).count k :=
        count_pos_iff.mpr (mem_map.mpr ⟨x, hx, hk⟩)
      have hcount := h k mem_cons_self
      rw [count_cons_self, count_eq_zero_of_not_mem hnot] at hcount
      rw [hkeys, count_erase_self] at hleft
      omega
    have hdropped : ∀ x, decide (key x = k) = true → decide (¬ key x ∈ k :: ks) = false := by
      intro x hx
      simp [of_decide_eq_true hx]
    rw [foldl_cons, ih hrest, ← filter_eraseP hdropped xs]
    refine filter_congr fun x hx => ?_
    have hiff : key x ∈ k :: ks ↔ key x ∈ ks := by
      refine ⟨?_, mem_cons_of_mem k⟩
      intro hmem
      rcases mem_cons.mp hmem with hk | hmem
      · exact hk ▸ hlater x hx hk
      · exact hmem
    simp only [hiff]

end Keys

/-! ## One definition after the other -/

/-- The script after the deletion of a definition: one occurrence of the statement less, if the
definition is one of this script. -/
def Script.erase (script : Script) (d : MethodDefinition) : Script :=
  if script.id = d.script then
    { script with statements := script.statements.eraseP (·.id = d.statement.id) }
  else script

theorem Script.id_erase (script : Script) (d : MethodDefinition) :
    (script.erase d).id = script.id := by
  unfold erase
  split <;> rfl

theorem Script.getD_delete? (script : Script) (s : Statement) :
    (script.delete? s).getD script =
      { script with statements := script.statements.eraseP (·.id = s.id) } := by
  unfold delete?
  split
  · rfl
  · rename_i hnot
    have hnone : ∀ t ∈ script.statements, ¬ decide (t.id = s.id) = true := by
      intro t ht hid
      exact hnot (any_eq_true.mpr ⟨t, ht, hid⟩)
    rw [Option.getD_none, eraseP_of_forall_not hnone]

namespace Program

/-- Whether or not the script still has the statement, it is erased there. -/
theorem delete?_getD (program : Program) (d : MethodDefinition) :
    (program.delete? d).getD program =
      { program with scripts := program.scripts.map (·.erase d) } := by
  unfold delete?
  split
  · simp only [Option.getD_some, Script.getD_delete?]
    rfl
  · rename_i hnot
    have hsame : ∀ script ∈ program.scripts, script.erase d = script := by
      intro script hscript
      unfold Script.erase
      split
      · rename_i hid
        rw [← Script.getD_delete?]
        cases hdelete : script.delete? d.statement with
        | none => rfl
        | some smaller =>
          exact absurd (any_eq_true.mpr ⟨script, hscript, by simp [hid, hdelete]⟩) hnot
      · rfl
    rw [Option.getD_none, map_congr_left hsame, map_id']

theorem deleteAll_cons_fst (program : Program) (d : MethodDefinition)
    (ds : List MethodDefinition) :
    (program.deleteAll (d :: ds)).1 = (((program.delete? d).getD program).deleteAll ds).1 := by
  rw [deleteAll]
  cases program.delete? d <;> rfl

theorem deleteAll_fst (program : Program) (ds : List MethodDefinition) :
    (program.deleteAll ds).1 =
      { program with
        scripts := program.scripts.map fun script => ds.foldl Script.erase script } := by
  induction ds generalizing program with
  | nil => simp [deleteAll]
  | cons d ds ih =>
    rw [deleteAll_cons_fst, ih, delete?_getD]
    simp only [map_map, foldl_cons]
    rfl

end Program

/-- Of the definitions that are deleted only those of the script concern it. -/
theorem Script.foldl_erase (script : Script) (ds : List MethodDefinition) :
    ds.foldl Script.erase script =
      { script with
        statements := ((ds.filter (·.script = script.id)).map (·.statement.id)).foldl
          (fun ss i => ss.eraseP (·.id = i)) script.statements } := by
  induction ds generalizing script with
  | nil => rfl
  | cons d ds ih =>
    rw [foldl_cons, ih, id_erase, filter_cons]
    by_cases hid : script.id = d.script
    · simp [erase, hid]
    · simp [erase, hid, Ne.symm hid]

/-! ## The definitions that a run decides about -/

namespace Program

variable {program : Program} {annotations : Annotations}

theorem Coherent.mem_decided (h : program.Coherent) {d : MethodDefinition} :
    d ∈ program.decided annotations ↔
      d.statement ∈ program.statements ∧
        (program.hierarchy annotations).definitionOf? d.statement = some d := by
  unfold decided
  rw [mem_filterMap]
  refine ⟨?_, fun hd => ⟨d.statement, hd⟩⟩
  intro hd
  obtain ⟨s, hs, hd⟩ := hd
  obtain rfl : d.statement = s := by
    rw [h.definitionOf?_eq hs] at hd
    obtain ⟨script, _, hd⟩ := Option.bind_eq_some_iff.mp hd
    exact (Script.definition?_eq_some_iff.mp hd).2.1
  exact ⟨hs, hd⟩

/-- However often a statement is decided about, it is about one definition. -/
theorem Coherent.decided_unique (h : program.Coherent) {d e : MethodDefinition}
    (hd : d ∈ program.decided annotations) (he : e ∈ program.decided annotations)
    (hid : d.statement.id = e.statement.id) : d = e := by
  obtain ⟨hs, hd⟩ := h.mem_decided.mp hd
  obtain ⟨ht, he⟩ := h.mem_decided.mp he
  rw [h _ hs _ ht hid, he] at hd
  exact (Option.some.inj hd).symm

theorem Coherent.script_of_decided (h : program.Coherent) {d : MethodDefinition}
    (hd : d ∈ program.decided annotations) :
    (program.lastScript? d.statement).map Script.id = some d.script := by
  obtain ⟨hs, hd⟩ := h.mem_decided.mp hd
  rw [h.definitionOf?_eq hs] at hd
  obtain ⟨script, hscript, hd⟩ := Option.bind_eq_some_iff.mp hd
  obtain ⟨_, _, hid, _⟩ := Script.definition?_eq_some_iff.mp hd
  rw [hscript, Option.map_some, hid]

/-- The identity of a statement is among the chosen ones when its definition is. -/
theorem Coherent.mem_chosen_iff (h : program.Coherent) {s : Statement}
    (hs : s ∈ program.statements) (p : MethodDefinition → Bool) :
    s.id ∈ ((program.decided annotations).filter p).map (·.statement.id) ↔
      ∃ d, (program.hierarchy annotations).definitionOf? s = some d ∧ p d = true := by
  refine ⟨?_, ?_⟩
  · intro hid
    obtain ⟨d, hd, hid⟩ := mem_map.mp hid
    obtain ⟨hd, hp⟩ := mem_filter.mp hd
    obtain ⟨hstatement, hd⟩ := h.mem_decided.mp hd
    rw [h _ hstatement _ hs hid] at hd
    exact ⟨d, hd, hp⟩
  · intro hd
    obtain ⟨d, hd, hp⟩ := hd
    exact mem_map.mpr ⟨d, mem_filter.mpr ⟨mem_filterMap.mpr ⟨s, hs, hd⟩, hp⟩,
      statement_id_of_definitionOf? hd⟩

/-- A statement is chosen in all its places or in none. -/
theorem Coherent.statements_of_decided (h : program.Coherent) (p : MethodDefinition → Bool) :
    ((program.decided annotations).filter p).map (·.statement) =
      program.statements.filter
        (·.id ∈ ((program.decided annotations).filter p).map (·.statement.id)) := by
  conv_lhs => rw [decided, filter_filterMap, map_filterMap]
  rw [← filterMap_eq_filter]
  refine filterMap_congr fun s hs => ?_
  have hs' : s.id ∈ ((program.decided annotations).filter p).map (·.statement.id) ↔ _ :=
    h.mem_chosen_iff hs p
  cases hd : (program.hierarchy annotations).definitionOf? s with
  | none =>
    have hnot : ¬ s.id ∈ ((program.decided annotations).filter p).map (·.statement.id) := by
      simp [hs', hd]
    simp [Option.guard, hnot]
  | some d =>
    have hstatement : d.statement = s := by
      have hmem := h.mem_decided.mp (mem_filterMap.mpr ⟨s, hs, hd⟩)
      exact h _ hmem.1 _ hs (statement_id_of_definitionOf? hd)
    cases hp : p d with
    | true =>
      have hin : s.id ∈ ((program.decided annotations).filter p).map (·.statement.id) :=
        hs'.mpr ⟨d, hd, hp⟩
      simp only [Option.filter_some, hp, if_true, Option.map_some, hstatement, Option.guard,
        decide_eq_true hin]
    | false =>
      have hnot : ¬ s.id ∈ ((program.decided annotations).filter p).map (·.statement.id) := by
        simp [hs', hd, hp]
      simp [hp, Option.guard, hnot]

/-- A statement that is deleted from a script is deleted there at least as often as it stands
there. -/
theorem Coherent.count_le (h : program.Coherent) {script : Script}
    (hscript : script ∈ program.scripts) (p : MethodDefinition → Bool) {i : Nat}
    (hi : i ∈ (((program.decided annotations).filter p).filter (·.script = script.id)).map
      (·.statement.id)) :
    (script.statements.map Statement.id).count i ≤
      ((((program.decided annotations).filter p).filter (·.script = script.id)).map
        (·.statement.id)).count i := by
  obtain ⟨d, hd, rfl⟩ := mem_map.mp hi
  obtain ⟨hd, hdscript⟩ := mem_filter.mp hd
  have hmem : d.statement.id ∈ ((program.decided annotations).filter p).map (·.statement.id) :=
    mem_map_of_mem hd
  have hreported := congrArg (map Statement.id)
    (h.statements_of_decided p : ((program.decided annotations).filter p).map (·.statement) = _)
  rw [map_map] at hreported
  calc (script.statements.map Statement.id).count d.statement.id
      ≤ (program.statements.map Statement.id).count d.statement.id :=
        ((statements_sublist hscript).map Statement.id).count_le _
    _ = (((program.decided annotations).filter p).map (·.statement.id)).count d.statement.id := by
        refine (count_map_filter fun s _ hid => ?_).symm.trans (congrArg _ hreported.symm)
        exact decide_eq_true (hid ▸ hmem)
    _ = _ := by
        refine (count_map_filter fun e he hid => ?_).symm
        rw [h.decided_unique (mem_of_mem_filter he) (mem_of_mem_filter hd) hid]
        exact hdscript

/-- The statement is one of those removed, and the script is the last that holds it. -/
def drops (program : Program) (removed : List MethodDefinition) (script : Script)
    (s : Statement) : Bool :=
  decide (s.id ∈ removed.map (·.statement.id)) &&
    decide ((program.lastScript? s).map Script.id = some script.id)

theorem Coherent.mem_erased_iff (h : program.Coherent) {script : Script}
    (hscript : script ∈ program.scripts) {s : Statement} (hs : s ∈ script.statements)
    (p : MethodDefinition → Bool) :
    s.id ∈ (((program.decided annotations).filter p).filter (·.script = script.id)).map
        (·.statement.id) ↔
      program.drops ((program.decided annotations).filter p) script s = true := by
  have hs : s ∈ program.statements := mem_statements.mpr ⟨script, hscript, hs⟩
  unfold drops
  rw [Bool.and_eq_true, decide_eq_true_eq, decide_eq_true_eq]
  have hlast : ∀ d ∈ (program.decided annotations).filter p, d.statement.id = s.id →
      (program.lastScript? s).map Script.id = some d.script := by
    intro d hd hid
    have hd := mem_of_mem_filter hd
    rw [← h _ (h.mem_decided.mp hd).1 _ hs hid]
    exact h.script_of_decided hd
  refine ⟨?_, ?_⟩
  · intro hmem
    obtain ⟨d, hd, hid⟩ := mem_map.mp hmem
    obtain ⟨hd, hdscript⟩ := mem_filter.mp hd
    refine ⟨mem_map.mpr ⟨d, hd, hid⟩, ?_⟩
    rw [hlast d hd hid, of_decide_eq_true hdscript]
  · intro hmem
    obtain ⟨hmem, hscript⟩ := hmem
    obtain ⟨d, hd, hid⟩ := mem_map.mp hmem
    rw [hlast d hd hid, Option.some.injEq] at hscript
    exact mem_map.mpr ⟨d, mem_filter.mpr ⟨hd, decide_eq_true hscript⟩, hid⟩

theorem process_program (program : Program) (annotations : Annotations) (context : Context) :
    (context.process program annotations).program =
      (program.deleteAll (context.process program annotations).report.removed).1 :=
  rfl

/-- A run takes out of each script the statements that it removes and that no later script
holds. -/
theorem Coherent.process_program (h : program.Coherent) (annotations : Annotations)
    (context : Context) :
    (context.process program annotations).program =
      { program with
        scripts := program.scripts.map fun script =>
          { script with
            statements := script.statements.filter fun s =>
              !program.drops (context.process program annotations).report.removed script s } } := by
  rw [Program.process_program, deleteAll_fst, removed_eq]
  congr 1
  refine map_congr_left fun script hscript => ?_
  rw [Script.foldl_erase, foldl_eraseP fun i => h.count_le hscript _]
  congr 1
  refine filter_congr fun s hs => ?_
  rw [Bool.eq_iff_iff, decide_eq_true_eq, h.mem_erased_iff hscript hs, Bool.not_eq_true',
    Bool.not_eq_true]

/-- The report names what it removes once for each place, in order. -/
theorem Coherent.reported (h : program.Coherent) (annotations : Annotations) (context : Context) :
    (context.process program annotations).report.removed.map (·.statement) =
      program.statements.filter
        (·.id ∈ (context.process program annotations).report.removed.map (·.statement.id)) := by
  rw [removed_eq]
  exact h.statements_of_decided _

/-- When no statement is shared, all that a run removes is dropped where it stands. -/
theorem drops_eq_of_nodup (h : (program.statements.map Statement.id).Nodup)
    (removed : List MethodDefinition) {script : Script} (hscript : script ∈ program.scripts)
    {s : Statement} (hs : s ∈ script.statements) :
    program.drops removed script s = decide (s.id ∈ removed.map (·.statement.id)) := by
  rw [drops, lastScript?_eq h hscript hs, Option.map_some, decide_eq_true rfl, Bool.and_true]

theorem Coherent.statements_process (h : program.Coherent)
    (hnodup : (program.statements.map Statement.id).Nodup) (annotations : Annotations)
    (context : Context) :
    (context.process program annotations).program.statements = program.statements.filter
      (¬ ·.id ∈ (context.process program annotations).report.removed.map (·.statement.id)) := by
  rw [h.process_program]
  unfold statements
  rw [flatMap_map, filter_flatMap]
  refine flatMap_congr fun script hscript => filter_congr fun s hs => ?_
  rw [drops_eq_of_nodup hnodup _ hscript hs, decide_not]

end Program

/-! ## A shared statement -/

/-- The chain with one more script, which holds the override of the second class twice. -/
def Chain.shared : Program :=
  { program with
    scripts := program.scripts ++
      [⟨2, "c.js", [method 5 "B" (forwarding "B"), declaration 7 "C",
        method 5 "B" (forwarding "B")]⟩] }

theorem Chain.coherent_shared : shared.Coherent := by
  have hsub : ∀ s ∈ shared.statements, s ∈ program.statements := by
    simp [shared, program, Program.statements]
  intro s hs t ht hid
  exact distinct.coherent s (hsub s hs) t (hsub t ht) hid

/-! ## Pure deletion -/

/-- The outcome is the program but for statements that are left out: in each script those that the
report names and that no later script holds. The report names them in all their places. -/
structure Outcome.OnlyDeletes (outcome : Outcome) (program : Program) : Prop where
  annotations_eq : outcome.program.annotations = program.annotations
  scripts_eq : outcome.program.scripts = program.scripts.map fun script =>
    { script with
      statements := script.statements.filter fun s =>
        !program.drops outcome.report.removed script s }
  sources_eq : outcome.program.scripts.map Script.source = program.scripts.map fun script =>
    "\n".intercalate ((script.statements.filter fun s =>
      !program.drops outcome.report.removed script s).map Statement.source)
  reported : outcome.report.removed.map (·.statement) =
    program.statements.filter (·.id ∈ outcome.report.removed.map (·.statement.id))
  unshared : (program.statements.map Statement.id).Nodup →
    (outcome.report.removed.map (·.statement.id)).Nodup ∧
      outcome.program.statements =
        program.statements.filter (¬ ·.id ∈ outcome.report.removed.map (·.statement.id))

/-- A run only deletes, also when statements stand in several places. -/
theorem Program.Coherent.process_onlyDeletes {program : Program} (h : program.Coherent)
    (annotations : Annotations) (context : Context) :
    (context.process program annotations).OnlyDeletes program := by
  have hprogram := h.process_program annotations context
  have hreported := h.reported annotations context
  refine ⟨?_, ?_, ?_, hreported, ?_⟩
  · rw [hprogram]
  · rw [hprogram]
  · rw [hprogram, map_map]
    rfl
  · intro hnodup
    refine ⟨?_, h.statements_process hnodup annotations context⟩
    have hids := congrArg (map Statement.id) hreported
    rw [map_map] at hids
    exact hids ▸ (filter_sublist.map Statement.id).nodup hnodup

theorem Chain.shared_onlyDeletes :
    shared.Coherent ∧ (({} : Context).process shared shared.annotations).OnlyDeletes shared ∧
      (({} : Context).process shared shared.annotations).program.scripts.map
        (·.statements.map Statement.id) = [[0, 1, 3, 4, 5], [7, 8, 9], [7]] := by
  refine ⟨coherent_shared, coherent_shared.process_onlyDeletes _ _, ?_⟩
  decide +kernel

end OverrideElision
