/-!
Values of a function that were worked out before. Looking a value up is the same as working it out
again, so a table saves time and changes no result.
-/

namespace LockDiscipline

variable {α β : Type} {f : α → β}

/-- Values of `f` at some arguments. -/
structure FunctionTable (f : α → β) where
  entries : List (α × β)
  value_eq : ∀ entry ∈ entries, entry.2 = f entry.1

namespace FunctionTable

/-- The table without entries. -/
def empty : FunctionTable f := ⟨[], fun _ h => nomatch h⟩

instance : EmptyCollection (FunctionTable f) := ⟨empty⟩

variable [DecidableEq α]

/-- The value of `f` at `a`, taken from the table if it is there. -/
def get (t : FunctionTable f) (a : α) : β :=
  match t.entries.find? fun entry => entry.1 = a with
  | some entry => entry.2
  | none => f a

@[simp] theorem get_eq (t : FunctionTable f) (a : α) : t.get a = f a := by
  unfold get
  split
  · next entry h =>
    have heq : entry.1 = a := by simpa using List.find?_some h
    rw [t.value_eq entry (List.mem_of_find?_eq_some h), heq]
  · rfl

/-- The table with the value of `f` at `a`. -/
def add (t : FunctionTable f) (a : α) : FunctionTable f :=
  if t.entries.any fun entry => entry.1 = a then t
  else ⟨(a, f a) :: t.entries, List.forall_mem_cons.2 ⟨rfl, t.value_eq⟩⟩

/-- The table of the values of `f` at the members of a list. -/
def ofList (as : List α) : FunctionTable f := as.foldl add ∅

end FunctionTable

end LockDiscipline
