import LockDiscipline.Lint.GuardedBy
import LockDiscipline.Proofs.Guards.Findings

/-! Suppressions. A finding names the member that it arose at, and the member is looked up again by
that name; so a finding is silenced by the attributes of the member that the name finds, and by
those of the types around it. -/

namespace LockDiscipline

open Relation

/-- What an attribute can silence. -/
inductive Suppression where
  | everything
  | rule (name : String)
  | category (category : Category)

namespace Allowance

/-- Whether the allowance lists a suppression. -/
def Lists (a : Allowance) : Suppression → Prop
  | .everything => a.everything = true
  | .rule name => name ∈ a.rules
  | .category category => category ∈ a.categories

variable {a b : Allowance} {s : Suppression}

@[simp] theorem not_lists_empty : ¬ ({} : Allowance).Lists s := by
  cases s <;> simp [Lists]

@[simp] theorem lists_merge : (a.merge b).Lists s ↔ a.Lists s ∨ b.Lists s := by
  cases s <;> simp [Lists, merge]

theorem lists_foldl_merge {α : Type} {l : List α} {f : α → Allowance} :
    ((l.map f).foldl merge a).Lists s ↔ a.Lists s ∨ ∃ c ∈ l, (f c).Lists s := by
  induction l generalizing a with
  | nil => simp
  | cons c rest ih => simp [ih, or_assoc]

end Allowance

namespace TypeTable

/-- `t.OnTypes d s`: the type `d`, or one that it is declared in, suppresses `s`. -/
def OnTypes (t : TypeTable) (d : TypeDecl) (s : Suppression) : Prop :=
  (Allowance.ofAttributes d.attributes).Lists s ∨
    ∃ outer d', TransGen t.Within d.name outer ∧ t.typeDecl? outer = some d' ∧
      (Allowance.ofAttributes d'.attributes).Lists s

end TypeTable

namespace GuardedBy

open Allowance TypeTable

variable {t : TypeTable} {d : TypeDecl} {x : Finding} {name : String} {s : Suppression}

/-- What silences a finding is on its type, on a type around that, or on the member that the name in
the finding finds. -/
theorem lists_allowanceFor (hd : t.typeDecl? d.name = some d) (howner : x.owner = d.name)
    (hmember : x.member = some name) : (allowanceFor t x).Lists s ↔
      t.OnTypes d s ∨ (Allowance.ofAttributes (memberAttributes d name)).Lists s := by
  have houter : (∃ d' ∈ (t.outerTypes d.name).filterMap t.typeDecl?,
      (Allowance.ofAttributes d'.attributes).Lists s) ↔
        ∃ outer d', TransGen t.Within d.name outer ∧ t.typeDecl? outer = some d' ∧
          (Allowance.ofAttributes d'.attributes).Lists s := by
    constructor
    · rintro ⟨d', hd', hlists⟩
      obtain ⟨outer, hmem, houter⟩ := List.mem_filterMap.1 hd'
      exact ⟨outer, d', (mem_outerTypes_iff houter).1 hmem, houter, hlists⟩
    · rintro ⟨outer, d', hwithin, houter, hlists⟩
      have hmem : outer ∈ t.outerTypes d.name := (mem_outerTypes_iff houter).2 hwithin
      exact ⟨d', List.mem_filterMap.2 ⟨outer, hmem, houter⟩, hlists⟩
  simp only [allowanceFor, howner, hmember, hd, lists_merge, lists_foldl_merge, not_lists_empty,
    false_or, List.mem_cons, or_and_right, exists_or, exists_eq_left, houter, OnTypes]

/-- Every finding arises at a member, and it is silenced by what the types around it suppress. From
members it is silenced by the one that its name finds, which is as good as the member it arose at
exactly when the two suppress the same, apart from what the types suppress anyway. -/
theorem allowanceFor_own_iff (u : CompilationUnit) (api : LockApi) :
    (∀ x, x ∈ (ofUnit u).check api ↔
      ∃ d ∈ (ofUnit u).types, ∃ member, (ofUnit u).ArisesAt api d member x) ∧
    ∀ d ∈ (ofUnit u).types, ∀ member x, (ofUnit u).ArisesAt api d member x →
      ((∀ s, (allowanceFor (ofUnit u) x).Lists s ↔
          (ofUnit u).OnTypes d s ∨ (ofAttributes member.attributes).Lists s) ↔
        ∀ s, (ofUnit u).OnTypes d s ∨
          ((ofAttributes (memberAttributes d member.name)).Lists s ↔
            (ofAttributes member.attributes).Lists s)) := by
  refine ⟨fun x => mem_check_iff, fun d hd member x hx => forall_congr' fun s => ?_⟩
  obtain ⟨howner, hmember⟩ := hx.owner_member
  rw [lists_allowanceFor (typeDecl?_of_mem_types hd) howner hmember]
  by_cases hs : (ofUnit u).OnTypes d s <;> simp [hs]

end GuardedBy

namespace Counter

/-- `@allow("static_guard_mismatch") int m;` -/
def namesakeField : FieldDecl :=
  ⟨"m", "int", false, [⟨"allow", ["static_guard_mismatch"], none⟩], none⟩

/-- `@allow("guarded_by") void m() { x; }` -/
def namesakeMethod : MethodDecl :=
  { name := "m", isConstructor := false, parameters := [], returnType := none, isStatic := false
    attributes := [⟨"allow", ["guarded_by"], none⟩], body := some [.expr (.name "x" none)]
    span := none }

/-- `@allow("guarded_by") void n() { x; }` -/
def loneMethod : MethodDecl := { namesakeMethod with name := "n" }

/-- A class with these members, a field `Lock a` and a field `@GuardedBy("a") int x`. -/
def namesakes : TypeDecl :=
  { name := "Test", base := none
    fields := [⟨"a", "Lock", false, [], none⟩,
      ⟨"x", "int", false, [⟨"GuardedBy", ["a"], none⟩], none⟩, namesakeField]
    methods := [namesakeMethod, loneMethod], nested := [], attributes := [] }

def namesakeUnit : CompilationUnit := { path := "", types := [namesakes] }

/-- The finding for the access of `x` in a method of the class. -/
def unlockedRead (method : String) : Finding :=
  { kind := .violation, message := "Test.x is guarded by 'a' but no matching lock is held"
    span := none, owner := "Test", member := some method
    note := some "expected `this.a` to be held" }

theorem types_namesakeUnit : (TypeTable.ofUnit namesakeUnit).types = [namesakes] := by cbv

end Counter

open Counter TypeTable

theorem GuardedBy.allowanceFor_own_loneMethod :
    unlockedRead "n" ∈ (ofUnit namesakeUnit).check {} ∧
      ∀ s, (allowanceFor (ofUnit namesakeUnit) (unlockedRead "n")).Lists s ↔
        (ofUnit namesakeUnit).OnTypes namesakes s ∨
          (Allowance.ofAttributes loneMethod.attributes).Lists s := by
  obtain ⟨hfindings, hallowance⟩ := allowanceFor_own_iff namesakeUnit {}
  have htype : namesakes ∈ (ofUnit namesakeUnit).types := by simp [types_namesakeUnit]
  have harises : (ofUnit namesakeUnit).ArisesAt {} namesakes (.method loneMethod)
      (unlockedRead "n") := .access (.tail _ (.head _)) (by decide +kernel)
  exact ⟨(hfindings _).2 ⟨_, htype, _, harises⟩,
    (hallowance _ htype _ _ harises).2 fun s => .inr .rfl⟩

namespace Counter

/-- A finding in a method is silenced by what the field of the same name suppresses, and not by what
the method itself suppresses. -/
theorem allowanceFor_namesakeMethod :
    namesakes ∈ (ofUnit namesakeUnit).types ∧
      (ofUnit namesakeUnit).ArisesAt {} namesakes (.method namesakeMethod) (unlockedRead "m") ∧
      (Allowance.ofAttributes namesakeMethod.attributes).Lists (.rule "guarded_by") ∧
      GuardedBy.allowanceFor (ofUnit namesakeUnit) (unlockedRead "m") =
        .ofAttributes namesakeField.attributes ∧
      ¬ (Allowance.ofAttributes namesakeField.attributes).Lists (.rule "guarded_by") := by
  have hown : Allowance.ofAttributes namesakeMethod.attributes = .ofRule "guarded_by" := by
    decide +kernel
  have hfield : Allowance.ofAttributes namesakeField.attributes =
      .ofRule "static_guard_mismatch" := by decide +kernel
  refine ⟨by simp [types_namesakeUnit], .access (.head _) (by decide +kernel), ?_,
    by decide +kernel, ?_⟩
  · rw [hown]
    exact .head _
  · rw [hfield]
    simp [Allowance.Lists, Allowance.ofRule]

end Counter

end LockDiscipline
