import Mathlib.Data.List.Forall2
import OverrideElision.Proofs.Rearrangement
import OverrideElision.Proofs.Walk.Stack

/-! # Where a walk finds assignments

A walk comes once to every place at which an assignment stands in a statement, in a fixed order of
these places. What encloses the assignment is the last statement on the way there. -/

namespace OverrideElision

open List

/-! ## Lists in step -/

section

variable {α β γ : Type} {R : α → β → Prop} {xs : List α} {ys : List β}

theorem forall₂_flatMap {f : γ → List α} {g : γ → List β} {zs : List γ}
    (h : ∀ z ∈ zs, Forall₂ R (f z) (g z)) : Forall₂ R (zs.flatMap f) (zs.flatMap g) := by
  induction zs with
  | nil => exact .nil
  | cons z zs ih =>
    rw [flatMap_cons, flatMap_cons]
    exact rel_append (h z mem_cons_self) (ih fun y hy => h y (mem_cons_of_mem z hy))

theorem exists_of_mem_left (h : Forall₂ R xs ys) {x : α} (hx : x ∈ xs) : ∃ y ∈ ys, R x y := by
  induction h with
  | nil => cases hx
  | @cons x' y' _ _ hxy _ ih =>
    rcases mem_cons.mp hx with rfl | hx
    · exact ⟨y', mem_cons_self, hxy⟩
    · obtain ⟨y, hy, hxy⟩ := ih hx
      exact ⟨y, mem_cons_of_mem _ hy, hxy⟩

theorem exists_of_mem_right (h : Forall₂ R xs ys) {y : β} (hy : y ∈ ys) : ∃ x ∈ xs, R x y :=
  exists_of_mem_left h.flip hy

/-- A property that tells one of distinct items on the left singles out its partner. -/
theorem filter_eq_singleton_of_forall₂ (h : Forall₂ R xs ys) (hxs : xs.Nodup) {x : α}
    (hx : x ∈ xs) {p : β → Bool} (hp : ∀ x' y, R x' y → (p y = true ↔ x' = x)) :
    ∃ y, R x y ∧ ys.filter p = [y] := by
  induction h with
  | nil => cases hx
  | @cons x' y' xs' ys' hxy hrest ih =>
    obtain ⟨hfresh, hxs'⟩ := nodup_cons.mp hxs
    by_cases hsame : x' = x
    · subst hsame
      have hnone : ys'.filter p = [] := by
        refine filter_eq_nil_iff.mpr fun y hy hpy => ?_
        obtain ⟨x, hx, hxy⟩ := exists_of_mem_right hrest hy
        exact hfresh ((hp x y hxy).mp hpy ▸ hx)
      exact ⟨y', hxy, by rw [filter_cons_of_pos ((hp _ _ hxy).mpr rfl), hnone]⟩
    · obtain ⟨y, hy, hfilter⟩ := ih hxs' ((mem_cons.mp hx).resolve_left (Ne.symm hsame))
      refine ⟨y, hy, ?_⟩
      rw [filter_cons_of_neg (fun hpy => hsame ((hp _ _ hxy).mp hpy)), hfilter]

/-- Items in step with distinct keys stand beside the same item only once. -/
theorem eq_of_nodup_keys {γ : Type} {key : β → γ} (h : Forall₂ R xs ys)
    (hunique : Relator.RightUnique R) (hkeys : (ys.map key).Nodup) {x x' : α} {y y' : β}
    (hx : x ∈ xs) (hx' : x' ∈ xs) (hxy : R x y) (hxy' : R x' y') (hkey : key y = key y') :
    x = x' := by
  induction h with
  | nil => cases hx
  | @cons x₀ y₀ xs₀ ys₀ hhead htail ih =>
    obtain ⟨hfresh, hkeys⟩ := nodup_cons.mp hkeys
    have hnew : ∀ z ∈ xs₀, ∀ w, R z w → key w ≠ key y₀ := by
      intro z hz w hzw heq
      obtain ⟨w', hw', hzw'⟩ := exists_of_mem_left htail hz
      obtain rfl := hunique hzw hzw'
      exact hfresh (mem_map.mpr ⟨w, hw', heq⟩)
    rcases mem_cons.mp hx with rfl | hrest <;> rcases mem_cons.mp hx' with rfl | hrest'
    · rfl
    · obtain rfl := hunique hxy hhead
      exact absurd hkey.symm (hnew x' hrest' y' hxy')
    · obtain rfl := hunique hxy' hhead
      exact absurd hkey (hnew x hrest y hxy)
    · exact ih hkeys hrest hrest'

theorem nodup_keys_of_forall₂ {γ : Type} {key : β → γ} (h : Forall₂ R xs ys) (hxs : xs.Nodup)
    (hkeys : ∀ x x' y y', R x y → R x' y' → key y = key y' → x = x') : (ys.map key).Nodup := by
  induction h with
  | nil => exact nodup_nil
  | @cons x y xs ys hxy hrest ih =>
    obtain ⟨hfresh, hxs⟩ := nodup_cons.mp hxs
    rw [map_cons, nodup_cons]
    refine ⟨fun hmem => ?_, ih hxs⟩
    obtain ⟨y', hy', hkey⟩ := mem_map.mp hmem
    obtain ⟨x', hx', hxy'⟩ := exists_of_mem_right hrest hy'
    exact hfresh (hkeys x x' y y' hxy hxy' hkey.symm ▸ hx')

end

/-! ## Addresses -/

/-- The way from a part to one below it: which of the parts directly below to go to, step by
step. -/
abbrev Address := List Nat

/-- The order in which a walk comes to addresses. -/
inductive Address.Before : Address → Address → Prop where
  /-- A part comes before what is below it. -/
  | above (i : Nat) (address : Address) : Before [] (i :: address)
  /-- Of two parts side by side the later one comes first. -/
  | beside {i j : Nat} (address address' : Address) : j < i → Before (i :: address) (j :: address')
  | inside (i : Nat) {address address' : Address} :
      Before address address' → Before (i :: address) (i :: address')

theorem Address.Before.irrefl {address : Address} : ¬ address.Before address := by
  intro h
  induction address with
  | nil => cases h
  | cons i address ih =>
    cases h with
    | beside _ _ hlt => exact Nat.lt_irrefl i hlt
    | inside _ h => exact ih h

namespace Part

/-- The parts that one passes on the way to an address, both ends included, if it leads anywhere. -/
def way? (part : Part) : Address → Option (List Part)
  | [] => some [part]
  | i :: address =>
    part.children[i]?.bind fun child => (child.way? address).map (part :: ·)

/-- The assignment that the part is. -/
def assignment? : Part → Option Assignment
  | .expr (.assign a) => some a
  | _ => none

/-- The statement that the part is. -/
def statement? : Part → Option Statement
  | .statement s => some s
  | .expr _ => none

/-- The function literal that the part is. -/
def function? : Part → Option FunctionLiteral
  | .expr (.function literal) => some literal
  | _ => none

theorem assignment?_eq_some_iff {part : Part} {a : Assignment} :
    part.assignment? = some a ↔ part = .expr (.assign a) := by
  constructor
  · intro h
    match part, h with
    | .expr (.assign a), h => rw [← Option.some.inj h]
  · rintro rfl
    rfl

theorem way?_cons {part : Part} {i : Nat} {address : Address} {way : List Part} :
    part.way? (i :: address) = some way ↔ ∃ child below,
      part.children[i]? = some child ∧ child.way? address = some below ∧ way = part :: below := by
  simp only [way?, Option.bind_eq_some_iff, Option.map_eq_some_iff]
  constructor
  · rintro ⟨child, hchild, below, hbelow, rfl⟩
    exact ⟨child, below, hchild, hbelow, rfl⟩
  · rintro ⟨child, below, hchild, hbelow, rfl⟩
    exact ⟨child, hchild, below, hbelow, rfl⟩

theorem exists_way_eq_cons {part : Part} {address : Address} {way : List Part}
    (h : part.way? address = some way) : ∃ below, way = part :: below := by
  cases address with
  | nil => exact ⟨[], (Option.some.inj h).symm⟩
  | cons i address =>
    obtain ⟨_, below, _, _, rfl⟩ := way?_cons.mp h
    exact ⟨below, rfl⟩

/-- The part stands above an assignment, or is one: this way leads there. -/
def LeadsTo (part : Part) (address : Address) (way : List Part) (a : Assignment) : Prop :=
  part.way? address = some way ∧ way.getLast? = some (.expr (.assign a))

theorem leadsTo_nil_iff {part : Part} {way : List Part} {a : Assignment} :
    part.LeadsTo [] way a ↔ way = [part] ∧ part.assignment? = some a := by
  rw [assignment?_eq_some_iff]
  constructor
  · rintro ⟨hway, hlast⟩
    obtain rfl := Option.some.inj hway
    exact ⟨rfl, Option.some.inj hlast⟩
  · rintro ⟨rfl, rfl⟩
    exact ⟨rfl, rfl⟩

theorem leadsTo_cons_iff {part : Part} {i : Nat} {address : Address} {way : List Part}
    {a : Assignment} :
    part.LeadsTo (i :: address) way a ↔ ∃ child below,
      part.children[i]? = some child ∧ child.LeadsTo address below a ∧ way = part :: below := by
  unfold LeadsTo
  rw [way?_cons]
  constructor
  · rintro ⟨⟨child, below, hchild, hbelow, rfl⟩, hlast⟩
    obtain ⟨rest, rfl⟩ := exists_way_eq_cons hbelow
    exact ⟨child, _, hchild, ⟨hbelow, hlast⟩, rfl⟩
  · rintro ⟨child, below, hchild, ⟨hbelow, hlast⟩, rfl⟩
    obtain ⟨rest, rfl⟩ := exists_way_eq_cons hbelow
    exact ⟨⟨child, _, hchild, hbelow, rfl⟩, hlast⟩

theorem size_lt_of_mem_children {part child : Part} (h : child ∈ part.children) :
    child.size < part.size := by
  let visit : Visit := (⟨part, default⟩ : Visit).enter part
  have hnext : visit.enter child ∈ visit.next := by
    rw [(Visit.isProper_enter _ part).next_eq]
    exact mem_map_of_mem h
  exact Nat.lt_of_le_of_lt (Visit.size_le_sizeAll hnext) visit.sizeAll_next_lt

/-- Statements stand directly below function literals only. -/
theorem function?_of_statement_mem {part : Part} {t : Statement}
    (h : .statement t ∈ part.children) : ∃ literal, part.function? = some literal ∧
      t ∈ literal.body := by
  cases part with
  | statement s =>
    simp only [children] at h
    split at h <;> simp at h
  | expr e => cases e <;> simp_all [children, function?]

theorem function?_of_expr_mem {part : Part} {e : Expr} (h : .expr e ∈ part.children) :
    part.function? = none := by
  cases part with
  | statement s => rfl
  | expr e => cases e <;> simp_all [children, function?]

/-- The addresses of the assignments at or below a part, in the order of a walk. -/
def addresses (part : Part) : List Address :=
  (part.assignment?.toList.map fun _ => []) ++
    part.children.attach.zipIdx.reverse.flatMap fun (child, i) =>
      child.1.addresses.map (i :: ·)
termination_by part.size
decreasing_by exact size_lt_of_mem_children child.2

theorem addresses_eq (part : Part) :
    part.addresses = (part.assignment?.toList.map fun _ => []) ++
      part.children.zipIdx.reverse.flatMap fun (child, i) => child.addresses.map (i :: ·) := by
  have hchildren : part.children.zipIdx =
      part.children.attach.zipIdx.map (Prod.map Subtype.val id) := by
    rw [← zipIdx_map, attach_map_subtype_val]
  rw [addresses, hchildren, ← map_reverse, flatMap_map]
  rfl

theorem mem_addresses_iff {part : Part} {address : Address} :
    address ∈ part.addresses ↔ ∃ way a, part.LeadsTo address way a := by
  induction address generalizing part with
  | nil =>
    rw [addresses_eq]
    simpa [leadsTo_nil_iff] using Option.ne_none_iff_exists'
  | cons i address ih =>
    have hmem : i :: address ∈ part.addresses ↔
        ∃ child, part.children[i]? = some child ∧ address ∈ child.addresses := by
      rw [addresses_eq]
      simp [mem_zipIdx_iff_getElem?]
    simp only [hmem, ih, leadsTo_cons_iff]
    constructor
    · rintro ⟨child, hchild, way, a, hway⟩
      exact ⟨part :: way, a, child, way, hchild, hway, rfl⟩
    · rintro ⟨_, a, child, way, hchild, hway, rfl⟩
      exact ⟨child, hchild, way, a, hway⟩

/-- The addresses come in the order of a walk. -/
theorem pairwise_addresses (part : Part) : part.addresses.Pairwise Address.Before := by
  induction hsize : part.size using Nat.strongRecOn generalizing part with
  | ind size ih =>
    subst hsize
    have hindex : part.children.zipIdx.Pairwise fun x y => x.2 < y.2 := by
      rw [← pairwise_map (f := Prod.snd) (R := (· < ·)), zipIdx_map_snd]
      exact pairwise_lt_range' 1
    rw [addresses_eq, pairwise_append, pairwise_flatMap, pairwise_reverse]
    refine ⟨?_, ⟨?_, ?_⟩, ?_⟩
    · cases part.assignment? <;> simp
    · rintro ⟨child, i⟩ hchild
      have hmem : child ∈ part.children :=
        mem_of_getElem? (mem_zipIdx_iff_getElem?.mp (mem_reverse.mp hchild))
      rw [pairwise_map]
      exact (ih _ (size_lt_of_mem_children hmem) child rfl).imp (.inside i)
    · refine hindex.imp fun hlt address haddress address' haddress' => ?_
      obtain ⟨rest, _, rfl⟩ := mem_map.mp haddress
      obtain ⟨rest', _, rfl⟩ := mem_map.mp haddress'
      exact .beside rest rest' hlt
    · intro address haddress address' haddress'
      obtain ⟨_, _, rfl⟩ := mem_map.mp haddress
      obtain ⟨⟨child, i⟩, _, haddress'⟩ := mem_flatMap.mp haddress'
      obtain ⟨rest, _, rfl⟩ := mem_map.mp haddress'
      exact .above i rest

theorem nodup_addresses (part : Part) : part.addresses.Nodup := by
  refine part.pairwise_addresses.imp fun h => ?_
  rintro rfl
  exact h.irrefl

end Part

/-! ## What encloses an assignment -/

/-- The last statement on a way. -/
def innermost? (way : List Part) : Option Statement :=
  (way.filterMap Part.statement?).getLast?

/-- The last function literal on a way. -/
def nearestFunction? (way : List Part) : Option FunctionLiteral :=
  (way.filterMap Part.function?).getLast?

theorem getLast?_filterMap_cons {α β : Type} (f : α → Option β) (x : α) (xs : List α) :
    ((x :: xs).filterMap f).getLast? = ((xs.filterMap f).getLast?).or (f x) := by
  cases hx : f x with
  | none => simp [hx]
  | some y => cases hlast : (xs.filterMap f).getLast? <;> simp [hx, getLast?_cons, hlast]

namespace Visit

/-- The visit comes to an occurrence at this address, on this way. -/
structure ComesTo (visit : Visit) (address : Address) (way : List Part) (o : Occurrence) :
    Prop where
  leads : visit.part.LeadsTo address way o.assignment
  enclosing : o.enclosing = (innermost? way).getD visit.enclosing

/-- A part that is no statement leaves the enclosing statement as it is; a statement encloses what
is below it. -/
theorem IsProper.enclosing_eq {visit : Visit} (h : visit.IsProper) :
    visit.part.statement?.getD visit.enclosing = visit.enclosing := by
  obtain ⟨part, enclosing⟩ := visit
  cases part with
  | statement s => exact (h s rfl).symm
  | expr e => rfl

theorem found_eq (visit : Visit) :
    visit.found = visit.part.assignment?.toList.map (⟨·, visit.enclosing⟩) := by
  obtain ⟨part, enclosing⟩ := visit
  cases part with
  | statement s => rfl
  | expr e => cases e <;> rfl

/-- What encloses an occurrence is the same from one part further up. -/
theorem IsProper.innermost?_cons {visit : Visit} (h : visit.IsProper) {child : Part}
    {address : Address} {below : List Part} (hbelow : child.way? address = some below) :
    (innermost? (visit.part :: below)).getD visit.enclosing =
      (innermost? below).getD (visit.enter child).enclosing := by
  rw [innermost?, innermost?, getLast?_filterMap_cons]
  cases hlast : (below.filterMap Part.statement?).getLast? with
  | some t => rfl
  | none =>
    -- no statement is passed from `child` on, so that `child` is none either
    obtain ⟨rest, rfl⟩ := Part.exists_way_eq_cons hbelow
    cases child with
    | statement t => simp [Part.statement?] at hlast
    | expr e => exact h.enclosing_eq

theorem IsProper.comesTo_cons_iff {visit : Visit} (h : visit.IsProper) {i : Nat}
    {address : Address} {way : List Part} {o : Occurrence} :
    visit.ComesTo (i :: address) way o ↔ ∃ child below, visit.part.children[i]? = some child ∧
      (visit.enter child).ComesTo address below o ∧ way = visit.part :: below := by
  constructor
  · rintro ⟨hleads, henclosing⟩
    obtain ⟨child, below, hchild, hbelow, rfl⟩ := Part.leadsTo_cons_iff.mp hleads
    refine ⟨child, below, hchild, ⟨hbelow, ?_⟩, rfl⟩
    exact henclosing.trans (h.innermost?_cons hbelow.1)
  · rintro ⟨child, below, hchild, ⟨hbelow, henclosing⟩, rfl⟩
    refine ⟨Part.leadsTo_cons_iff.mpr ⟨child, below, hchild, hbelow, rfl⟩, ?_⟩
    exact henclosing.trans (h.innermost?_cons hbelow.1).symm

/-- What encloses an occurrence is a statement in the body of the nearest function around it, or
what encloses the whole visit. -/
theorem IsProper.nearestFunction {visit : Visit} (h : visit.IsProper) {address : Address}
    {way : List Part} {o : Occurrence} (hcomes : visit.ComesTo address way o) :
    (nearestFunction? way = none ∧ o.enclosing = visit.enclosing) ∨
      ∃ literal, nearestFunction? way = some literal ∧ o.enclosing ∈ literal.body := by
  induction address generalizing visit way with
  | nil =>
    obtain ⟨hleads, henclosing⟩ := hcomes
    obtain ⟨rfl, hpart⟩ := Part.leadsTo_nil_iff.mp hleads
    rw [Part.assignment?_eq_some_iff] at hpart
    rw [henclosing, hpart]
    exact .inl ⟨rfl, rfl⟩
  | cons i address ih =>
    obtain ⟨child, below, hchild, hbelow, rfl⟩ := h.comesTo_cons_iff.mp hcomes
    have hmem : child ∈ visit.part.children := mem_of_getElem? hchild
    rw [nearestFunction?, getLast?_filterMap_cons]
    rcases ih (visit.isProper_enter child) hbelow with ⟨hnone, henclosing⟩ | ⟨literal, hsome, hbody⟩
    · rw [nearestFunction?] at hnone
      rw [hnone, henclosing, Option.none_or]
      cases child with
      | statement t =>
        obtain ⟨literal, hliteral, ht⟩ := Part.function?_of_statement_mem hmem
        exact .inr ⟨literal, hliteral, ht⟩
      | expr e => exact .inl ⟨Part.function?_of_expr_mem hmem, rfl⟩
    · rw [nearestFunction?] at hsome
      rw [hsome]
      exact .inr ⟨literal, rfl, hbody⟩

/-- The occurrences of a visit stand at the addresses of its part, one at each and in this order. -/
theorem IsProper.forall₂_comesTo {visit : Visit} (h : visit.IsProper) :
    Forall₂ (fun address o => ∃ way, visit.ComesTo address way o) visit.part.addresses
      visit.occurrences := by
  induction hsize : visit.part.size using Nat.strongRecOn generalizing visit with
  | ind size ih =>
    subst hsize
    have hchildren : visit.part.children.reverse =
        visit.part.children.zipIdx.reverse.map Prod.fst := by
      rw [map_reverse, zipIdx_map_fst]
    rw [Part.addresses_eq, h.occurrences_eq, hchildren, flatMap_map]
    refine rel_append ?_ (forall₂_flatMap ?_)
    · rw [found_eq, forall₂_map_left_iff, forall₂_map_right_iff, forall₂_same]
      intro a ha
      refine ⟨[visit.part], Part.leadsTo_nil_iff.mpr ⟨rfl, Option.mem_toList.mp ha⟩, ?_⟩
      rw [innermost?, getLast?_filterMap_cons]
      exact h.enclosing_eq.symm
    · rintro ⟨child, i⟩ hmem
      have hchild := mem_zipIdx_iff_getElem?.mp (mem_reverse.mp hmem)
      rw [forall₂_map_left_iff]
      refine (ih _ (Part.size_lt_of_mem_children (mem_of_getElem? hchild))
        (visit.isProper_enter child) rfl).imp ?_
      rintro address o ⟨way, hway⟩
      exact ⟨_, h.comesTo_cons_iff.mpr ⟨child, way, hchild, hway, rfl⟩⟩

end Visit

/-! ## The walk through a statement -/

/-- `s` holds the assignment at this address, and `t` is the last statement on the way there. -/
structure Statement.HoldsAt (s : Statement) (address : Address) (way : List Part)
    (a : Assignment) (t : Statement) : Prop where
  leads : (Part.statement s).LeadsTo address way a
  innermost : innermost? way = some t

theorem Statement.holdsAt_iff {s t : Statement} {address : Address} {way : List Part}
    {a : Assignment} :
    s.HoldsAt address way a t ↔ (⟨.statement s, s⟩ : Visit).ComesTo address way ⟨a, t⟩ := by
  constructor
  · rintro ⟨hleads, hinnermost⟩
    exact ⟨hleads, by rw [hinnermost]; rfl⟩
  · rintro ⟨hleads, henclosing⟩
    refine ⟨hleads, ?_⟩
    obtain ⟨rest, rfl⟩ := Part.exists_way_eq_cons hleads.1
    rw [innermost?, getLast?_filterMap_cons] at henclosing ⊢
    obtain rfl : t = _ := henclosing
    cases (rest.filterMap Part.statement?).getLast? <;> rfl

namespace Statement

variable {s t : Statement} {address : Address} {way : List Part} {a : Assignment}

/-- The occurrence is found at this address of the statement. -/
def FoundAt (s : Statement) (address : Address) (o : Occurrence) : Prop :=
  ∃ way, s.HoldsAt address way o.assignment o.enclosing

theorem forall₂_foundAt (s : Statement) :
    Forall₂ s.FoundAt (Part.statement s).addresses s.occurrences := by
  have hproper : (⟨.statement s, s⟩ : Visit).IsProper := Visit.isProper_enter ⟨.statement s, s⟩ _
  refine hproper.forall₂_comesTo.imp ?_
  rintro address o ⟨way, hcomes⟩
  exact ⟨way, holdsAt_iff.mpr hcomes⟩

theorem exists_holdsAt (h : (Part.statement s).LeadsTo address way a) :
    ∃ t, s.HoldsAt address way a t :=
  ⟨_, holdsAt_iff.mpr ⟨h, rfl⟩⟩

/-- An address leads one way, to one assignment, past one last statement. -/
theorem HoldsAt.unique {way' : List Part} {a' : Assignment} {t' : Statement}
    (h : s.HoldsAt address way a t) (h' : s.HoldsAt address way' a' t') : a = a' ∧ t = t' := by
  obtain ⟨⟨hway, hlast⟩, hinnermost⟩ := h
  obtain ⟨⟨hway', hlast'⟩, hinnermost'⟩ := h'
  obtain rfl := Option.some.inj (hway.symm.trans hway')
  refine ⟨?_, Option.some.inj (hinnermost.symm.trans hinnermost')⟩
  simpa using hlast.symm.trans hlast'

theorem foundAt_rightUnique : Relator.RightUnique s.FoundAt := by
  rintro address ⟨a, t⟩ ⟨a', t'⟩ ⟨way, hholds⟩ ⟨way', hholds'⟩
  obtain ⟨rfl, rfl⟩ := hholds.unique hholds'
  rfl

theorem mem_occurrences_iff {o : Occurrence} :
    o ∈ s.occurrences ↔ ∃ address, s.FoundAt address o := by
  constructor
  · intro ho
    obtain ⟨address, _, hfound⟩ := exists_of_mem_right s.forall₂_foundAt ho
    exact ⟨address, hfound⟩
  · rintro ⟨address, hfound⟩
    obtain ⟨way, hholds⟩ := hfound
    have haddress := Part.mem_addresses_iff.mpr ⟨way, _, hholds.leads⟩
    obtain ⟨o', ho', hfound'⟩ := exists_of_mem_left s.forall₂_foundAt haddress
    obtain rfl : o = o' := foundAt_rightUnique ⟨way, hholds⟩ hfound'
    exact ho'

/-- No assignment stands in the statement at two addresses. -/
def Unshared (s : Statement) : Prop :=
  ∀ ⦃address address' way way' a a' t t'⦄, s.HoldsAt address way a t →
    s.HoldsAt address' way' a' t' → a.id = a'.id → address = address'

/-- An assignment is shared when it is found twice. -/
theorem unshared_iff : s.Unshared ↔ (s.occurrences.map (·.assignment.id)).Nodup := by
  constructor
  · intro h
    refine nodup_keys_of_forall₂ s.forall₂_foundAt (Part.nodup_addresses _) ?_
    rintro address address' o o' ⟨way, hholds⟩ ⟨way', hholds'⟩ hid
    exact h hholds hholds' hid
  · intro h address address' way way' a a' t t' hholds hholds' hid
    have hfound : s.FoundAt address ⟨a, t⟩ := ⟨way, hholds⟩
    have hfound' : s.FoundAt address' ⟨a', t'⟩ := ⟨way', hholds'⟩
    exact eq_of_nodup_keys s.forall₂_foundAt foundAt_rightUnique h
      (Part.mem_addresses_iff.mpr ⟨way, a, hholds.leads⟩)
      (Part.mem_addresses_iff.mpr ⟨way', a', hholds'.leads⟩) hfound hfound' hid

example : Unshared ⟨1, "", .expr (.assign ⟨2, .name "f",
    .function ⟨[], [⟨3, "", .expr (.assign ⟨4, .name "x", .this⟩)⟩], none, false⟩⟩)⟩ :=
  unshared_iff.mpr (by decide +kernel)

/-- What is found in a statement are its assignments, each once and in order, with what encloses
them. -/
structure CompleteWalk (s : Statement) (found : List Occurrence) : Prop where
  /-- It is found by recursion too, the last part of every part first. -/
  recursive : found = s.occurrences
  /-- One occurrence is found at each address of an assignment, in the order of the addresses. -/
  addresses : ∃ addresses : List Address, addresses.Pairwise Address.Before ∧
    (∀ address way a, (Part.statement s).LeadsTo address way a → address ∈ addresses) ∧
      Forall₂ s.FoundAt addresses found
  /-- Where no assignment is shared, each is found once, with the last statement above it. -/
  once : s.Unshared → ∀ address way a, (Part.statement s).LeadsTo address way a →
    ∃ t, s.HoldsAt address way a t ∧ found.filter (·.assignment.id = a.id) = [⟨a, t⟩]
  /-- This statement is the one given, or stands in the body of the nearest function. -/
  nearest : ∀ address way a t, s.HoldsAt address way a t →
    (nearestFunction? way = none ∧ t = s) ∨
      ∃ literal, nearestFunction? way = some literal ∧ t ∈ literal.body

theorem walk_complete (s : Statement) : s.CompleteWalk s.walk where
  recursive := s.walk_eq_occurrences
  addresses := by
    rw [walk_eq_occurrences]
    refine ⟨_, Part.pairwise_addresses _, ?_, s.forall₂_foundAt⟩
    intro address way a hleads
    exact Part.mem_addresses_iff.mpr ⟨way, a, hleads⟩
  once := by
    intro hunshared address way a hleads
    obtain ⟨t, hholds⟩ := exists_holdsAt hleads
    have haddress := Part.mem_addresses_iff.mpr ⟨way, a, hleads⟩
    have hid : ∀ address' o, s.FoundAt address' o →
        (decide (o.assignment.id = a.id) = true ↔ address' = address) := by
      rintro address' o ⟨way', hholds'⟩
      rw [decide_eq_true_eq]
      constructor
      · intro hid
        exact hunshared hholds' hholds hid
      · rintro rfl
        rw [(hholds'.unique hholds).1]
    obtain ⟨o, ⟨way', hholds'⟩, hfilter⟩ := filter_eq_singleton_of_forall₂ s.forall₂_foundAt
      (Part.nodup_addresses _) haddress hid
    obtain ⟨rfl, rfl⟩ := hholds.unique hholds'
    exact ⟨_, hholds, by rw [walk_eq_occurrences, hfilter]⟩
  nearest := by
    intro address way a t hholds
    have hproper : (⟨.statement s, s⟩ : Visit).IsProper :=
      Visit.isProper_enter ⟨.statement s, s⟩ _
    exact hproper.nearestFunction (holdsAt_iff.mp hholds)

end Statement

/-- Walks through all statements of a program are complete, and what they find marks a member as an
intended duplicate by the documentation of the innermost statement. -/
theorem Program.walks_complete (program : Program) (annotations : Annotations)
    (context : Context) :
    (∀ s : Statement, s.CompleteWalk s.walk) ∧ ∀ member,
      ((context.process program annotations).context.record member).suppressed = true ↔
        (context.record member).suppressed = true ∨
          ∃ s ∈ program.statements, ∃ address way a t, s.HoldsAt address way a t ∧
            a.target.IsMember member ∧
              context.options.duplicateSuppression ∈ (annotations.info t).suppressions := by
  refine ⟨Statement.walk_complete, fun member => ?_⟩
  change ((program.noted annotations context).record member).suppressed = true ↔ _
  rw [suppressed_noted]
  refine or_congr_right ?_
  constructor
  · rintro ⟨o, ho, htarget, hmark⟩
    obtain ⟨s, hs, ho⟩ := mem_occurrences.mp ho
    obtain ⟨address, way, hholds⟩ := Statement.mem_occurrences_iff.mp ho
    exact ⟨s, hs, address, way, _, _, hholds, htarget, hmark⟩
  · rintro ⟨s, hs, address, way, a, t, hholds, htarget, hmark⟩
    have ho : (⟨a, t⟩ : Occurrence) ∈ s.occurrences :=
      Statement.mem_occurrences_iff.mpr ⟨address, way, hholds⟩
    exact ⟨_, mem_occurrences.mpr ⟨s, hs, ho⟩, htarget, hmark⟩

end OverrideElision
