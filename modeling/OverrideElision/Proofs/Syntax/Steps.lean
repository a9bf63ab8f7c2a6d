import OverrideElision.Syntax.Procedures
import OverrideElision.Proofs.Syntax.Positions

/-! # What steps come to

The value of steps depends only on the answers to the calls that they make, and is put together from
the values of their parts. -/

namespace OverrideElision.Syntax

open List

namespace Steps

variable {α β : Type}

instance : LawfulMonad Steps := by
  refine LawfulMonad.mk' Steps ?id_map (fun _ _ => rfl) ?bind_assoc
  case id_map =>
    intro α s
    induction s with
    | done value => rfl
    | fail fault => rfl
    | note id info rest ih => exact congrArg (note id info) ih
    | call c rest ih => exact congrArg (call c) (funext ih)
  case bind_assoc =>
    intro α β γ s f g
    induction s with
    | done value => rfl
    | fail fault => rfl
    | note id info rest ih => exact congrArg (note id info) ih
    | call c rest ih => exact congrArg (call c) (funext ih)

/-! ## Operations that apply -/

@[simp]
theorem first_cons (x : α) (xs : List α) : first (x :: xs) = pure x := rfl

@[simp]
theorem last_cons (x : α) (xs : List α) : last (x :: xs) = pure (xs.getLastD x) := by
  rw [last, getLast?_cons, getLastD_eq_getLast?]

@[simp]
theorem only_singleton (x : α) : only [x] = pure x := rfl

@[simp]
theorem present_some (x : α) : present (some x) = pure x := rfl

/-! ## Values -/

theorem eval_bind (answer : (c : Call) → Noting c.Answer) (s : Steps α) (next : α → Steps β) :
    (s >>= next).eval answer = s.eval answer >>= fun value => (next value).eval answer := by
  induction s with
  | done value =>
    rw [eval, pure_bind]
    rfl
  | fail fault => rfl
  | note id info rest ih =>
    change (do modify (· ++ [(id, info)]); (rest >>= next).eval answer) = _
    rw [ih, eval, bind_assoc]
  | call c rest ih =>
    change (answer c >>= fun reply => (rest reply >>= next).eval answer) = _
    rw [eval, bind_assoc]
    exact bind_congr ih

/-- Only the answers to calls that are made count. -/
theorem eval_congr {s : Steps α} {answer answer' : (c : Call) → Noting c.Answer}
    (h : ∀ c, s.Makes c → answer c = answer' c) : s.eval answer = s.eval answer' := by
  induction s with
  | done value => rfl
  | fail fault => rfl
  | note id info rest ih => rw [eval, eval, ih h]
  | call c rest ih =>
    rw [eval, eval, h c (.inl rfl)]
    exact bind_congr fun reply => ih reply fun d hd => h d (.inr ⟨reply, hd⟩)

/-! ## Calls -/

/-- Every call that the steps make is as `P` says. -/
def CallsOnly (P : Call → Prop) (s : Steps α) : Prop := ∀ c, s.Makes c → P c

namespace CallsOnly

variable {P : Call → Prop}

theorem pure (value : α) : (Pure.pure value : Steps α).CallsOnly P := fun _ h => h.elim

theorem fail (fault : Fault) : (Steps.fail fault : Steps α).CallsOnly P := fun _ h => h.elim

theorem note (id : Nat) (info : Doc.Info) : (Steps.note id info (Pure.pure ())).CallsOnly P :=
  fun _ h => h.elim

theorem call {c : Call} (h : P c) : (Steps.call c done).CallsOnly P := by
  rintro d (rfl | ⟨_, h⟩)
  · exact h
  · exact h.elim

theorem bind {s : Steps α} {next : α → Steps β} (hs : s.CallsOnly P)
    (hnext : ∀ value, (next value).CallsOnly P) : (s >>= next).CallsOnly P := by
  induction s with
  | done value => exact hnext value
  | fail fault => exact fail fault
  | note id info rest ih => exact ih hs
  | call c rest ih =>
    rintro d (rfl | ⟨reply, h⟩)
    · exact hs _ (.inl rfl)
    · exact ih reply (fun d hd => hs d (.inr ⟨reply, hd⟩)) d h

theorem map {f : α → β} {s : Steps α} (hs : s.CallsOnly P) :
    (do return f (← s)).CallsOnly P :=
  hs.bind fun value => pure (f value)

theorem mapM {f : α → Steps β} {xs : List α} (h : ∀ x ∈ xs, (f x).CallsOnly P) :
    (xs.mapM f).CallsOnly P := by
  induction xs with
  | nil => exact pure []
  | cons x xs ih =>
    obtain ⟨hx, hxs⟩ := forall_mem_cons.mp h
    rw [mapM_cons]
    exact hx.bind fun _ => (ih hxs).map

theorem assignmentsIn (e : Expr) : (Steps.assignmentsIn e).CallsOnly P := by
  cases e with
  | other text assignments => exact pure assignments
  | _ => exact fail _

end CallsOnly

end Steps

/-! ## Results that are told -/

namespace Documented

variable {α β γ : Type}

/-- The value, once the documentation is noted. -/
def told (result : Documented α) : Steps.Noting α :=
  fun noted => .ok (result.value, noted ++ result.docs)

@[simp]
theorem told_pure (value : α) :
    (Pure.pure value : Documented α).told = Pure.pure value := by
  funext noted
  rw [told, docs_pure, append_nil]
  rfl

@[simp]
theorem told_bind (result : Documented α) (next : α → Documented β) :
    (result >>= next).told = result.told >>= fun value => (next value).told := by
  funext noted
  rw [told, docs_bind, ← append_assoc]
  rfl

/-- How to go on is a question of the value alone. -/
theorem told_bind_congr {result : Documented α} {next next' : α → Steps.Noting β}
    (h : next result.value = next' result.value) : result.told >>= next = result.told >>= next' :=
  funext fun noted => congrFun h (noted ++ result.docs)

/-- A result that is put together from two others is told by telling them. -/
theorem told_eq {first : Documented α} {second : Documented β} {whole : Documented γ}
    {join : α → β → γ} (hvalue : whole.value = join first.value second.value)
    (hdocs : whole.docs = first.docs ++ second.docs) :
    whole.told = do return join (← first.told) (← second.told) := by
  funext noted
  rw [told, hvalue, hdocs, ← append_assoc]
  rfl

end Documented

end OverrideElision.Syntax
