import OverrideElision.Doc.Info

/-! # Results with documentation

Reading a tree yields values, and on the way the documentation of the statements in them. -/

namespace OverrideElision.Syntax

/-- A value, and the documentation of statements in it by their identity. -/
structure Documented (α : Type) where
  value : α
  docs : List (Nat × Doc.Info)

namespace Documented

variable {α β : Type}

/-- A value without documented statements. -/
def pure (value : α) : Documented α := ⟨value, []⟩

/-- The second result gathers after the first. -/
def bind (first : Documented α) (next : α → Documented β) : Documented β :=
  let second := next first.value
  ⟨second.value, first.docs ++ second.docs⟩

instance : Monad Documented where
  pure := pure
  bind := bind

/-- Notes the documentation of a statement. -/
def note (id : Nat) (info : Doc.Info) : Documented Unit := ⟨(), [(id, info)]⟩

@[simp]
theorem value_pure (value : α) : (Pure.pure value : Documented α).value = value := rfl

@[simp]
theorem docs_pure (value : α) : (Pure.pure value : Documented α).docs = [] := rfl

@[simp]
theorem value_bind (first : Documented α) (next : α → Documented β) :
    (first >>= next).value = (next first.value).value := rfl

@[simp]
theorem docs_bind (first : Documented α) (next : α → Documented β) :
    (first >>= next).docs = first.docs ++ (next first.value).docs := rfl

end Documented

end OverrideElision.Syntax
