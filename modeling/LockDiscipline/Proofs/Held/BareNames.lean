import LockDiscipline.Proofs.Held.Rounds

/-! What a statement leaves behind in the scope around it. Blocks, `for` and `foreach` loops, the
sections of a `switch` and the clauses of a `try` are left with the locals that they were entered
with; a declaration that stands bare, or as the unbraced part of another statement, stays. -/

namespace LockDiscipline

/-- The names that a statement declares in the block around it. -/
def Stmt.bareNames : Stmt → List String
  | .declare name _ _ => [name]
  | .ite _ thenArm elseArm => thenArm.bareNames ++ elseArm.bareNames
  | .whileLoop _ body | .doLoop body _ | .lock _ body => body.bareNames
  | _ => []

namespace Locals

variable {names names' : List String} {l l' l'' : Locals} {name : String}

/-- Locals with just the given names, each of them at least once, are added to the innermost
block. -/
def Adds (names : List String) (l l' : Locals) : Prop :=
  ∃ new : List Local, l' = { l with current := new ++ l.current } ∧
    ∀ name, name ∈ names ↔ ∃ x ∈ new, x.name = name

theorem Adds.of_eq (h : l' = l) : Adds [] l l' := ⟨[], h, by simp⟩

theorem Adds.trans (h : Adds names l l') (h' : Adds names' l' l'') :
    Adds (names ++ names') l l'' := by
  obtain ⟨new, rfl, hnew⟩ := h
  obtain ⟨new', rfl, hnew'⟩ := h'
  refine ⟨new' ++ new, by simp, fun name => ?_⟩
  simp only [List.mem_append, hnew, hnew', or_and_right, exists_or]
  exact or_comm

/-- Adding the same names once more adds no other ones. -/
theorem Adds.again (h : Adds names l l') (h' : Adds names l' l'') : Adds names l l'' := by
  obtain ⟨new, hl, hnew⟩ := h.trans h'
  exact ⟨new, hl, fun name => by rw [← hnew, List.mem_append, or_self]⟩

theorem Adds.enclosing (h : Adds names l l') : l'.enclosing = l.enclosing := by
  obtain ⟨new, rfl, -⟩ := h
  rfl

/-- The locals are as they were exactly if no name is added. -/
theorem Adds.eq_iff (h : Adds names l l') : l' = l ↔ names = [] := by
  obtain ⟨new, rfl, hnew⟩ := h
  constructor
  · intro heq
    have hlength := congrArg (fun l : Locals => l.current.length) heq
    simp only [List.length_append] at hlength
    obtain rfl : new = [] := List.length_eq_zero_iff.1 (by omega)
    exact List.eq_nil_iff_forall_not_mem.2 fun name hname => by simpa using (hnew name).1 hname
  · rintro rfl
    obtain rfl : new = [] :=
      List.eq_nil_iff_forall_not_mem.2 fun x hx => nomatch (hnew x.name).2 ⟨x, hx, rfl⟩
    rfl

/-- Any other name means what it meant. -/
theorem Adds.find?_of_not_mem (h : Adds names l l') (hname : name ∉ names) :
    l'.find? name = l.find? name := by
  obtain ⟨new, rfl, hnew⟩ := h
  have hnone : new.find? (fun x => x.name = name) = none :=
    List.find?_eq_none.2 fun x hx heq => hname ((hnew name).2 ⟨x, hx, by simpa using heq⟩)
  rw [find?, find?, List.append_assoc, List.find?_append, hnone, Option.none_or]

theorem Adds.isSome_find? (h : Adds names l l') (hname : name ∈ names) :
    (l'.find? name).isSome = true := by
  obtain ⟨new, rfl, hnew⟩ := h
  obtain ⟨x, hx, heq⟩ := (hnew name).1 hname
  rw [find?, List.find?_isSome]
  exact ⟨x, by simp [hx], by simpa using heq⟩

end Locals

namespace LoopPass

variable {pass : Locals → HeldSet → LoopPass} {names : List String}

/-- However often a loop goes round, it adds the names that one pass adds. -/
theorem adds_run (h : ∀ l head, Locals.Adds names l (pass l head).locals) (l : Locals)
    (head : HeldSet) : Locals.Adds names l (run pass l head).locals := by
  induction hn : head.size using Nat.strongRecOn generalizing l head with
  | ind n ih =>
    by_cases hs : (pass l head).nextHead head = head
    · rw [run_of_stable pass hs]
      exact (h l head).again (h _ head)
    · rw [run_of_unstable pass hs]
      exact (h l head).again (ih _ (hn ▸ size_nextHead_lt hs) _ _ rfl)

end LoopPass

namespace WalkContext

variable (w : WalkContext) {σ : BodyScope} {held : HeldSet}

/-- A pass through a loop adds what the body adds. -/
private theorem adds_pass_of {loop : Loop}
    (h : ∀ held, σ.locals.Adds loop.body.bareNames (w.stmt σ loop.body held).locals)
    (head : HeldSet) : σ.locals.Adds loop.body.bareNames (w.pass σ loop head).locals := by
  cases loop with
  | whileLoop | doLoop | forLoop | foreachLoop => exact h _

private theorem adds_rounds_of (loop : Loop)
    (h : ∀ (σ : BodyScope) held, σ.locals.Adds loop.body.bareNames (w.stmt σ loop.body held).locals)
    (σ : BodyScope) (held : HeldSet) :
    σ.locals.Adds loop.body.bareNames (w.rounds σ loop held).locals :=
  LoopPass.adds_run (fun l head => w.adds_pass_of (h (σ.withLocals l)) head) σ.locals held

mutual

/-- A statement adds the names that it declares bare, and changes nothing else. -/
theorem adds_stmt : ∀ (s : Stmt) (σ : BodyScope) (held : HeldSet),
    σ.locals.Adds s.bareNames (w.stmt σ s held).locals
  | .block body, σ, held => by
    rw [stmt]
    exact .of_eq (pop_of_enclosing (enclosing_stmts body σ.push held))
  | .empty, σ, held => .of_eq rfl
  | .declare name type init, σ, held => ⟨[_], rfl, by simp [Stmt.bareNames, eq_comm]⟩
  | .expr _, σ, held => .of_eq rfl
  | .ret _, σ, held => .of_eq rfl
  | .raise _, σ, held => .of_eq rfl
  | .breakOut, σ, held => .of_eq rfl
  | .continueLoop, σ, held => .of_eq rfl
  | .ite condition thenArm elseArm, σ, held => by
    have hthen := adds_stmt thenArm σ (w.expr σ condition held).held
    rw [stmt]
    exact hthen.trans (adds_stmt elseArm (σ.withLocals _) _)
  | .whileLoop condition body, σ, held => by
    rw [stmt_whileLoop]
    exact w.adds_rounds_of (.whileLoop condition body) (adds_stmt body) σ held
  | .doLoop body condition, σ, held => by
    rw [stmt_doLoop]
    exact w.adds_rounds_of (.doLoop body condition) (adds_stmt body) σ held
  | .forLoop init condition step body, σ, held => by
    have hinit := enclosing_stmts init σ.push held
    rw [stmt_forLoop]
    dsimp only
    cases hexit : (w.stmts σ.push init held).exit with
    | none => exact .of_eq (pop_of_enclosing hinit)
    | some entry =>
      have hrounds := (w.adds_rounds_of (.forLoop condition step body) (adds_stmt body)
        (σ.push.withLocals (w.stmts σ.push init held).locals) entry).enclosing
      exact .of_eq (pop_of_enclosing (hrounds.trans hinit))
  | .foreachLoop name type iterable body, σ, held => by
    have hrounds := (w.adds_rounds_of (.foreachLoop name body) (adds_stmt body)
      (σ.push.declare name type none) (w.expr σ iterable held).held).enclosing
    rw [stmt_foreachLoop]
    exact .of_eq (pop_of_enclosing hrounds)
  | .switch scrutinee sections, σ, held => by
    rw [stmt]
    exact .of_eq (locals_sections_eq sections σ _)
  | .tryCatch body catches finalizer, σ, held => by
    rw [stmt]
    exact .of_eq (locals_catches_eq catches σ _ _
      (pop_of_enclosing (enclosing_stmts body σ.push held)))
  | .lock target body, σ, held => by
    have hbody (held : HeldSet) := adds_stmt body σ held
    rw [stmt]
    cases (σ.place target).path with
    | none => exact hbody _
    | some path =>
      dsimp only
      split
      · exact hbody _
      · exact hbody _

/-- The statements of a block leave the blocks around it as they are. -/
theorem enclosing_stmts : ∀ (body : List Stmt) (σ : BodyScope) (held : HeldSet),
    (w.stmts σ body held).locals.enclosing = σ.locals.enclosing
  | [], σ, held => rfl
  | s :: rest, σ, held => by
    have hs := (adds_stmt s σ held).enclosing
    rw [stmts]
    cases hexit : (w.stmt σ s held).exit with
    | none => exact hs
    | some held' => exact (enclosing_stmts rest (σ.withLocals _) held').trans hs

theorem locals_sections_eq : ∀ (sections : List Section) (σ : BodyScope) (held : HeldSet),
    (w.sections σ sections held).locals = σ.locals
  | [], σ, held => rfl
  | .mk _ body :: rest, σ, held => by
    have hbody : (w.stmts σ.push body held).locals.pop = σ.locals :=
      pop_of_enclosing (enclosing_stmts body σ.push held)
    rw [sections]
    exact (locals_sections_eq rest (σ.withLocals _) held).trans hbody

theorem locals_catches_eq : ∀ (catches : List Catch) (σ : BodyScope) (before : Outcome)
    (entry : HeldSet), before.locals = σ.locals →
      (w.catches σ before catches entry).locals = σ.locals
  | [], σ, before, entry, hbefore => hbefore
  | .mk type none body :: rest, σ, before, entry, hbefore => by
    have hbody := pop_of_enclosing (enclosing_stmts body σ.push.push entry)
    rw [catches]
    refine locals_catches_eq rest σ _ entry ?_
    rw [hbefore]
    exact congrArg Locals.pop hbody
  | .mk type (some name) body :: rest, σ, before, entry, hbefore => by
    have hbody := pop_of_enclosing (enclosing_stmts body (σ.push.declare name type none).push
      (Evaluated.rebind (.var name) entry).held)
    rw [catches]
    refine locals_catches_eq rest σ _ entry ?_
    rw [hbefore]
    exact congrArg Locals.pop hbody

end

/-- A pass through a loop adds the names that its body declares bare. -/
theorem adds_pass (loop : Loop) (head : HeldSet) :
    σ.locals.Adds loop.body.bareNames (w.pass σ loop head).locals :=
  w.adds_pass_of (w.adds_stmt loop.body σ) head

/-- So do the passes before the last one, however many they are. -/
theorem adds_lastStart (loop : Loop) (l : Locals) (head : HeldSet) :
    l.Adds loop.body.bareNames (LoopPass.lastStart (w.passIn σ loop) l head).1 := by
  induction hn : head.size using Nat.strongRecOn generalizing l head with
  | ind n ih =>
    have hpass : l.Adds loop.body.bareNames (w.passIn σ loop l head).locals :=
      w.adds_pass (σ := σ.withLocals l) loop head
    rw [LoopPass.lastStart]
    split
    · exact hpass
    · next hs => exact hpass.again (ih _ (hn ▸ LoopPass.size_nextHead_lt hs) _ _ rfl)

end WalkContext

end LockDiscipline
