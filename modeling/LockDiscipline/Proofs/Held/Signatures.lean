import LockDiscipline.Proofs.Names.LockPlace
import LockDiscipline.Proofs.Names.Signature

/-! A body is walked by signatures. What a name in a body means is looked up in declarations, which
carry attributes and bodies of their own; a walk depends on none of these. -/

namespace LockDiscipline

/-- The same site with its declaration seen through `g`. -/
def MemberSite.map {α β : Type} (g : α → β) (site : MemberSite α) : MemberSite β :=
  ⟨site.owner, g site.decl, site.receiver⟩

namespace BodyScope

/-- The scope over the signatures of the table's types only. -/
def signatures (σ : BodyScope) : BodyScope := { σ with table := σ.table.signatures }

variable {σ : BodyScope}

@[simp] theorem signatures_push : σ.signatures.push = σ.push.signatures := rfl

@[simp] theorem signatures_withLocals (l : Locals) :
    σ.signatures.withLocals l = (σ.withLocals l).signatures := rfl

@[simp] theorem signatures_locals : σ.signatures.locals = σ.locals := rfl

theorem bareField_signatures (id : String) :
    σ.signatures.bareField id = (σ.bareField id).map (.map (·.signature)) := by
  have hlocal : σ.signatures.isLocal id = σ.isLocal id := rfl
  rw [bareField, bareField, hlocal]
  split
  · rfl
  · rw [signatures, TypeTable.findFieldInScope_signatures, Option.map_map, Option.map_map]
    rfl

theorem fieldOf_signatures (base : Place) (id : String) :
    σ.signatures.fieldOf base id = (σ.fieldOf base id).map (.map (·.signature)) := by
  rw [fieldOf, fieldOf]
  cases base.type with
  | none => rfl
  | some type =>
    simp only [signatures, TypeTable.findField_signatures, Option.bind_eq_bind, Option.bind_some]
    cases σ.table.findField type id <;> rfl

theorem bareMethod_signatures (id : String) (arity : Nat) :
    σ.signatures.bareMethod id arity = (σ.bareMethod id arity).map (.map (·.signature)) := by
  rw [bareMethod, bareMethod, signatures, TypeTable.findMethodInScope_signatures, Option.map_map,
    Option.map_map]
  rfl

theorem methodOf_signatures (base : Place) (id : String) (arity : Nat) :
    σ.signatures.methodOf base id arity =
      (σ.methodOf base id arity).map (.map (·.signature)) := by
  rw [methodOf, methodOf]
  cases base.type with
  | none => rfl
  | some type =>
    simp only [signatures, TypeTable.findMethod_signatures, Option.bind_eq_bind, Option.bind_some]
    cases σ.table.findMethod type id arity <;> rfl

theorem fieldPlace_signature (id : String) (site : Option (MemberSite FieldDecl)) :
    fieldPlace id (site.map (.map (·.signature))) = fieldPlace id site := by
  cases site <;> rfl

theorem callPlace_signature (id : String) (arity : Nat) (site : Option (MemberSite MethodDecl)) :
    callPlace id arity (site.map (.map (·.signature))) = callPlace id arity site := by
  cases site <;> rfl

theorem namePlace_signatures (id : String) : σ.signatures.namePlace id = σ.namePlace id := by
  have hlocal : σ.signatures.local? id = σ.local? id := rfl
  have hcontains : σ.signatures.table.contains id = σ.table.contains id :=
    TypeTable.contains_signatures id
  rw [namePlace, namePlace, hlocal, bareField_signatures, hcontains]
  cases σ.local? id with
  | some l => rfl
  | none => cases σ.bareField id <;> rfl

@[simp] theorem place_signatures (e : Expr) : σ.signatures.place e = σ.place e := by
  fun_induction σ.place e with
  | case1 => rfl
  | case2 id => exact namePlace_signatures id
  | case3 base id _ ih => rw [place, ih, fieldOf_signatures, fieldPlace_signature]
  | case4 => rw [place, bareMethod_signatures, callPlace_signature]
  | case5 base id _ args _ ih => rw [place, ih, methodOf_signatures, callPlace_signature]
  | case6 => rfl
  | case7 _ value ih => rw [place, ih]
  | case8 e h₁ h₂ h₃ h₄ h₅ h₆ h₇ =>
    rw [place] <;> assumption

@[simp] theorem declare_signatures (name : String) (type : Option String) (init : Option Expr) :
    σ.signatures.declare name type init = (σ.declare name type init).signatures := by
  simp only [declare, place_signatures]
  rfl

end BodyScope

namespace WalkContext

open BodyScope

variable (w : WalkContext)

theorem fieldTrace_signature (id : String) (span : Option Span) (held : HeldSet)
    (site : Option (MemberSite FieldDecl)) :
    fieldTrace id span held (site.map (.map (·.signature))) = fieldTrace id span held site := by
  cases site <;> rfl

theorem callSite_signature (args : List (Option LockPath)) (span : Option Span) (held : HeldSet)
    (site : Option (MemberSite MethodDecl)) :
    w.callSite args span held (site.map (.map (·.signature))) = w.callSite args span held site := by
  cases site <;> rfl

/-- A call of what is no name and no member evaluates the callee, then the arguments. -/
theorem expr_call {σ : BodyScope} {callee : Expr} {args : List Expr} {span : Option Span}
    {held : HeldSet} (hname : ∀ id span, callee = .name id span → False)
    (hmember : ∀ base id span, callee = .member base id span → False) :
    w.expr σ (.call callee args span) held =
      (w.exprs σ args (w.expr σ callee held).held).after (w.expr σ callee held).trace := by
  rw [expr] <;> assumption

mutual

@[simp] theorem expr_signatures (σ : BodyScope) :
    ∀ (e : Expr) (held : HeldSet), w.expr σ.signatures e held = w.expr σ e held
  | .literal _, _ | .this, _ => rfl
  | .name id span, held => by
    simp only [expr, bareField_signatures, fieldTrace_signature]
  | .member base id span, held => by
    simp only [expr, expr_signatures σ base, place_signatures, fieldOf_signatures,
      fieldTrace_signature]
  | .call (.name id _) args span, held => by
    simp only [expr, exprs_signatures σ args, place_signatures, bareMethod_signatures,
      callSite_signature]
  | .call (.member base id _) args span, held => by
    simp only [expr, expr_signatures σ base, exprs_signatures σ args, place_signatures,
      methodOf_signatures, callSite_signature]
  | .call (.literal _) args _, held | .call .this args _, held | .call (.call ..) args _, held
  | .call (.assign ..) args _, held | .call (.unary ..) args _, held
  | .call (.binary ..) args _, held | .call (.conditional ..) args _, held
  | .call (.new ..) args _, held => by
    rw [expr, expr_signatures σ _, exprs_signatures σ args]
    · exact (w.expr_call (by nofun) (by nofun)).symm
    all_goals nofun
  | .assign target value, held => by
    simp only [expr, expr_signatures σ target, expr_signatures σ value, place_signatures]
  | .unary _ operand, held => by simp only [expr, expr_signatures σ operand]
  | .binary op left right, held => by
    simp only [expr, expr_signatures σ left, expr_signatures σ right]
  | .conditional condition thenArm elseArm, held => by
    simp only [expr, expr_signatures σ condition, expr_signatures σ thenArm,
      expr_signatures σ elseArm]
  | .new _ args, held => by simp only [expr, exprs_signatures σ args]

@[simp] theorem exprs_signatures (σ : BodyScope) :
    ∀ (es : List Expr) (held : HeldSet), w.exprs σ.signatures es held = w.exprs σ es held
  | [], _ => rfl
  | e :: rest, held => by simp only [exprs, expr_signatures σ e, exprs_signatures σ rest]

end

@[simp] theorem optExpr_signatures (σ : BodyScope) (e : Option Expr) (held : HeldSet) :
    w.optExpr σ.signatures e held = w.optExpr σ e held := by
  cases e with
  | none => rfl
  | some e => exact w.expr_signatures σ e held

mutual

theorem stmt_signatures : ∀ (s : Stmt) (σ : BodyScope) (held : HeldSet),
    w.stmt σ.signatures s held = w.stmt σ s held
  | .block body, σ, held => by
    simp only [stmt, signatures_push, stmts_signatures body]
  | .empty, _, _ | .breakOut, _, _ | .continueLoop, _, _ => rfl
  | .declare .., σ, held => by
    simp only [stmt, optExpr_signatures, declare_signatures]
    rfl
  | .expr _, σ, held => by
    simp only [stmt, expr_signatures]
    rfl
  | .ret _, σ, held | .raise _, σ, held => by
    simp only [stmt, optExpr_signatures]
    rfl
  | .ite _ thenArm elseArm, σ, held => by
    simp only [stmt, expr_signatures, signatures_withLocals, stmt_signatures thenArm,
      stmt_signatures elseArm]
  | .whileLoop _ body, σ, held => by
    simp only [stmt, expr_signatures, signatures_withLocals, signatures_locals,
      stmt_signatures body]
  | .doLoop body condition, σ, held => by
    have htail (σ : BodyScope) : w.expr σ.signatures condition = w.expr σ condition :=
      funext (w.expr_signatures σ condition)
    simp only [stmt, signatures_withLocals, signatures_locals, stmt_signatures body, htail]
  | .forLoop init _ step body, σ, held => by
    have htail (σ : BodyScope) : w.exprs σ.signatures step = w.exprs σ step :=
      funext (w.exprs_signatures σ step)
    simp only [stmt, optExpr_signatures, signatures_withLocals, signatures_push,
      stmts_signatures init, stmt_signatures body, htail]
  | .foreachLoop _ _ _ body, σ, held => by
    simp only [stmt, expr_signatures, signatures_withLocals, signatures_push, declare_signatures,
      signatures_locals, stmt_signatures body]
  | .switch _ sections', σ, held => by
    simp only [stmt, expr_signatures, sections_signatures sections']
  | .tryCatch body clauses finalizer, σ, held => by
    simp only [stmt, signatures_push, signatures_withLocals, stmts_signatures body,
      stmts_signatures finalizer, catches_signatures clauses]
  | .lock _ body, σ, held => by
    simp only [stmt, expr_signatures, place_signatures, stmt_signatures body]

theorem stmts_signatures : ∀ (body : List Stmt) (σ : BodyScope) (held : HeldSet),
    w.stmts σ.signatures body held = w.stmts σ body held
  | [], _, _ => rfl
  | s :: rest, σ, held => by
    simp only [stmts, signatures_withLocals, stmt_signatures s, stmts_signatures rest]

theorem sections_signatures : ∀ (l : List Section) (σ : BodyScope) (held : HeldSet),
    w.sections σ.signatures l held = w.sections σ l held
  | [], _, _ => rfl
  | .mk _ body :: rest, σ, held => by
    simp only [sections, signatures_push, signatures_withLocals, stmts_signatures body,
      sections_signatures rest]

theorem catches_signatures : ∀ (l : List Catch) (σ : BodyScope) (before : Outcome)
    (entry : HeldSet), w.catches σ.signatures before l entry = w.catches σ before l entry
  | [], _, _, _ => rfl
  | .mk _ none body :: rest, σ, before, entry => by
    simp only [catches, signatures_push, signatures_withLocals, stmts_signatures body,
      catches_signatures rest]
  | .mk _ (some _) body :: rest, σ, before, entry => by
    simp only [catches, signatures_push, signatures_withLocals, declare_signatures,
      stmts_signatures body, catches_signatures rest]

end

/-- A body is walked in the same way over the signatures of the table's types. -/
theorem walk_signatures (σ : BodyScope) (body : List Stmt) (held : HeldSet) :
    w.walk σ.signatures body held = w.walk σ body held := by
  rw [walk, walk, signatures_push, stmts_signatures]

end WalkContext

end LockDiscipline
