import LockDiscipline.Proofs.Checks.Choice
import LockDiscipline.Proofs.Guards.Intraprocedural
import LockDiscipline.Proofs.Guards.Suppressed

/-! Suppressions and levels are filters. A suppression that is added takes findings out of a scan
and leaves the others as they are; the level of a rule decides whether the rule's findings are in
the scan and how they are marked, and nothing else. -/

namespace LockDiscipline

theorem Allowance.allows_of_lists {a b : Allowance} (h : ∀ s, a.Lists s → b.Lists s)
    {category : Category} {name : String} (ha : a.allows category name = true) :
    b.allows category name = true := by
  simp only [allows, Bool.or_eq_true, List.contains_eq_mem, decide_eq_true_eq] at ha ⊢
  exact ha.imp (Or.imp (h .everything) (h (.rule _))) (h (.category _))

/-- The level that settings give a rule where nothing is suppressed. -/
def LintConfig.levelOf (c : LintConfig) (r : Rule) : Level :=
  c.levelFor r.name r.category r.defaultLevel

theorem LintConfig.levelOf_setRuleLevel (c : LintConfig) (r : Rule) (level : Level) :
    (c.setRuleLevel r.name level).levelOf r = level := by
  simp only [levelOf, levelFor, setRuleLevel, OrderedMap.get?_insert, if_true]

/-- The diagnostic with its rule reported at the given level; a diagnostic of another rule stays as
it is. -/
def LintDiagnostic.atLevel (r : Rule) (level : Level) (d : LintDiagnostic) :
    Option LintDiagnostic :=
  if d.rule = r then if level = .allow then none else some { d with level } else some d

namespace GuardedBy

variable {u u' : CompilationUnit} {c c' : LintConfig} {t : TypeTable} {x : Finding} {r : Rule}

/-- A finding at the level of its rule. -/
def report (path : String) (c : LintConfig) (x : Finding) : LintDiagnostic :=
  { rule := ruleOf x.kind, level := c.levelOf (ruleOf x.kind), message := x.message, file := path
    span := x.span, notes := x.note.toList, suggestions := advice x }

/-- A finding is reported unless it is suppressed or its rule is off. -/
theorem diagnose?_eq : diagnose? ⟨u, c⟩ t x =
    if (allowanceFor t x).allows (ruleOf x.kind).category (ruleOf x.kind).name = true ∨
      c.levelOf (ruleOf x.kind) = .allow then none else some (report u.path c x) := by
  rw [diagnose?, LintContext.emit?]
  by_cases hallows : (allowanceFor t x).allows (ruleOf x.kind).category (ruleOf x.kind).name = true
  · rw [LintContext.level, if_pos hallows, if_pos (.inl hallows)]
  · have hlevel : LintContext.level ⟨u, c⟩ (ruleOf x.kind) (allowanceFor t x) =
        c.levelOf (ruleOf x.kind) := if_neg hallows
    rw [hlevel, report]
    cases c.levelOf (ruleOf x.kind) <;> simp [hallows]

/-- What is suppressed in a unit is so with more suppressions, and what is still reported is
reported as before. -/
theorem diagnose?_of_moreSuppressed (h : u.MoreSuppressed u') (c : LintConfig) (x : Finding) :
    diagnose? ⟨u', c⟩ (.ofUnit u') x = none ∨
      diagnose? ⟨u', c⟩ (.ofUnit u') x = diagnose? ⟨u, c⟩ (.ofUnit u) x := by
  have hlists (s : Suppression) := (TypeTable.moreSuppressed_ofUnit h).lists_allowanceFor
    (x := x) (s := s)
  rw [diagnose?_eq, diagnose?_eq, ← h.1]
  by_cases hnone : (allowanceFor (.ofUnit u') x).allows (ruleOf x.kind).category
      (ruleOf x.kind).name = true ∨ c.levelOf (ruleOf x.kind) = .allow
  · exact .inl (if_pos hnone)
  · refine .inr ?_
    rw [if_neg hnone, if_neg fun hsome => hnone (hsome.imp_left (Allowance.allows_of_lists hlists))]

/-- A check reports less on a unit with more suppressions. -/
theorem run_sublist (h : u.MoreSuppressed u') (api : LockApi) (c : LintConfig) :
    ((check api).run ⟨u', c⟩).Sublist ((check api).run ⟨u, c⟩) := by
  simp only [check, (TypeTable.moreSuppressed_ofUnit h).check]
  induction (TypeTable.ofUnit u).check api with
  | nil => exact .slnil
  | cons x rest ih =>
    rcases diagnose?_of_moreSuppressed h c x with hnone | hsame
    · rw [List.filterMap_cons_none hnone, List.filterMap_cons]
      split
      · exact ih
      · exact ih.cons _
    · rw [List.filterMap_cons, hsame, List.filterMap_cons]
      split
      · exact ih
      · exact ih.cons_cons _

theorem ruleOf_mem_all (kind : FindingKind) : ruleOf kind ∈ Rule.all := by
  cases kind <;> decide

/-- The level of a rule is put in after the fact. -/
theorem diagnose?_atLevel (hr : c.levelOf r = .error)
    (hothers : ∀ r' ∈ Rule.all, r' ≠ r → c'.levelOf r' = c.levelOf r') :
    diagnose? ⟨u, c'⟩ t x = (diagnose? ⟨u, c⟩ t x).bind (·.atLevel r (c'.levelOf r)) := by
  rw [diagnose?_eq, diagnose?_eq]
  by_cases hrule : ruleOf x.kind = r
  · subst hrule
    have hlevel : ¬ (Level.error = .allow) := by decide
    by_cases hallows : (allowanceFor t x).allows (ruleOf x.kind).category
        (ruleOf x.kind).name = true
    · rw [if_pos (.inl hallows), if_pos (.inl hallows), Option.bind_none]
    · have hreport : (report u.path c x).atLevel (ruleOf x.kind) (c'.levelOf (ruleOf x.kind)) =
          if c'.levelOf (ruleOf x.kind) = .allow then none else some (report u.path c' x) :=
        if_pos rfl
      rw [hr, if_neg (not_or.2 ⟨hallows, hlevel⟩), Option.bind_some, hreport]
      simp only [hallows, Bool.false_eq_true, false_or]
  · have hsame : c'.levelOf (ruleOf x.kind) = c.levelOf (ruleOf x.kind) :=
      hothers _ (ruleOf_mem_all x.kind) hrule
    have hreport : (report u.path c x).atLevel r (c'.levelOf r) = some (report u.path c' x) := by
      rw [LintDiagnostic.atLevel, if_neg (show ¬ (report u.path c x).rule = r from hrule), report,
        report, hsame]
    rw [hsame, ← hreport]
    split <;> rfl

theorem run_atLevel (u : CompilationUnit) (api : LockApi) (hr : c.levelOf r = .error)
    (hothers : ∀ r' ∈ Rule.all, r' ≠ r → c'.levelOf r' = c.levelOf r') :
    (check api).run ⟨u, c'⟩ =
      ((check api).run ⟨u, c⟩).filterMap (·.atLevel r (c'.levelOf r)) := by
  simp only [check, List.filterMap_filterMap]
  congr 1
  funext x
  exact diagnose?_atLevel hr hothers

end GuardedBy

/-- A diagnostic of another rule is not concerned. -/
theorem LintDiagnostic.filter_atLevel (l : List LintDiagnostic) (r : Rule) (level : Level) :
    (l.filterMap (·.atLevel r level)).filter (·.rule ≠ r) = l.filter (·.rule ≠ r) := by
  induction l with
  | nil => rfl
  | cons d rest ih =>
    by_cases hrule : d.rule = r
    · by_cases hlevel : level = .allow <;> simp_all [atLevel]
    · simp_all [atLevel]

namespace ScannerConfig

variable {c c' : ScannerConfig}

/-- `c.AgreeBut r c'`: the choices are the same, but for the level that is set for the rule `r`, if
one is set at all. -/
def AgreeBut (r : Rule) (c c' : ScannerConfig) : Prop :=
  ∃ rules : OrderedMap String Level, c' = { c with levels := { c.levels with rules } } ∧
    ∀ name, name ≠ r.name → rules.get? name = c.levels.rules.get? name

theorem AgreeBut.validate {r : Rule} (h : c.AgreeBut r c') (hr : r ∈ Rule.all)
    (hc : c.validate .builtin = .ok ()) : c'.validate .builtin = .ok () := by
  obtain ⟨rules, rfl, hrules⟩ := h
  obtain ⟨hdisabled, hflags, hlevels⟩ := validate_eq_ok_iff.1 hc
  refine validate_eq_ok_iff.2 ⟨hdisabled, hflags, fun name hname => ?_⟩
  by_cases hr' : name = r.name
  · have hknown : ∀ r ∈ Rule.all, CheckRegistry.builtin.knowsRule r.name = true := by
      decide +kernel
    exact hr' ▸ hknown r hr
  · have hsome : (rules.get? name).isSome := OrderedMap.mem_keys_iff.1 hname
    rw [hrules name hr'] at hsome
    exact hlevels name (OrderedMap.mem_keys_iff.2 hsome)

theorem AgreeBut.levelOf {r r' : Rule} (h : c.AgreeBut r c') (hr : r ∈ Rule.all)
    (hr' : r' ∈ Rule.all) (hne : r' ≠ r) : c'.levels.levelOf r' = c.levels.levelOf r' := by
  obtain ⟨rules, rfl, hrules⟩ := h
  have hnames : ∀ r ∈ Rule.all, ∀ r' ∈ Rule.all, r' ≠ r → canonicalName r'.name ≠ r.name := by
    decide +kernel
  rw [LintConfig.levelOf, LintConfig.levelFor, hrules _ (hnames r hr r' hr' hne),
    LintConfig.levelOf, LintConfig.levelFor]

/-- A level can be changed to any other one. -/
theorem agreeBut_setRuleLevel {r : Rule} (hr : r ∈ Rule.all) (level : Level) :
    c.AgreeBut r { c with levels := c.levels.setRuleLevel r.name level } := by
  refine ⟨_, rfl, fun name hne => ?_⟩
  rw [OrderedMap.get?_insert, if_neg fun heq => hne (heq.trans (Rule.canonicalName_name hr))]

end ScannerConfig

namespace Scanner

open GuardedBy

variable {c : ScannerConfig}

/-- The scanner of the registered check. -/
theorem ofConfig_builtin (hc : c.validate .builtin = .ok ()) :
    ofConfig .builtin c =
      .ok ⟨if c.isEnabled GuardedBy.id then [check (lockApi c.flags)] else [], c⟩ := by
  have hentries : CheckRegistry.builtin.entries.toList = [(GuardedBy.id, registration)] := rfl
  rw [ofConfig, hc, hentries]
  cases henabled : c.isEnabled GuardedBy.id with
  | true =>
    simp only [List.filter_cons, henabled, if_true]
    rfl
  | false =>
    simp only [List.filter_cons, henabled]
    rfl

/-- Suppressions and levels are filters. What a scan reports of a unit with more suppressions is a
part of what it reports of the unit itself, each diagnostic as it was. What scans report whose
choices agree but for the level of one rule is, apart from that rule, the same; and both scans
report the same findings of that rule in the same order, each scan at its own level, or none of
them where that level is to allow them. -/
theorem scan_filters (hc : c.validate .builtin = .ok ()) :
    ∃ s, ofConfig .builtin c = .ok s ∧
      (∀ u u' : CompilationUnit, u.MoreSuppressed u' → (s.scan u').Sublist (s.scan u)) ∧
      ∀ r ∈ Rule.all, ∀ c', c.AgreeBut r c' → ∃ s', ofConfig .builtin c' = .ok s' ∧
        ∀ u, (s'.scan u).filter (·.rule ≠ r) = (s.scan u).filter (·.rule ≠ r) ∧
          ∃ reports : List LintDiagnostic,
            s.scan u = reports.filterMap (·.atLevel r (c.levels.levelOf r)) ∧
            s'.scan u = reports.filterMap (·.atLevel r (c'.levels.levelOf r)) := by
  refine ⟨_, ofConfig_builtin hc, fun u u' h => ?_, fun r hr c' h =>
    ⟨_, ofConfig_builtin (h.validate hr hc), fun u => ?_⟩⟩
  · simp only [scan]
    split
    · simpa using run_sublist h _ _
    · exact .slnil
  · -- the reports with the rule at one level, from which both scans take theirs
    let base := c.levels.setRuleLevel r.name .error
    have hbase : base.levelOf r = .error := c.levels.levelOf_setRuleLevel r .error
    have hothers (r' : Rule) (hr' : r' ∈ Rule.all) (hne : r' ≠ r) :=
      (c.agreeBut_setRuleLevel hr .error).levelOf hr hr' hne
    have hscan {levels : LintConfig}
        (hlevels : ∀ r' ∈ Rule.all, r' ≠ r → levels.levelOf r' = c.levels.levelOf r') :
        ((if c.isEnabled GuardedBy.id then [check (lockApi c.flags)] else []).flatMap
            fun check => check.run ⟨u, levels⟩) =
          ((if c.isEnabled GuardedBy.id then [check (lockApi c.flags)] else []).flatMap
            fun check => check.run ⟨u, base⟩).filterMap (·.atLevel r (levels.levelOf r)) := by
      split
      · rw [List.flatMap_singleton, List.flatMap_singleton]
        exact run_atLevel u _ hbase fun r' hr' hne =>
          (hlevels r' hr' hne).trans (hothers r' hr' hne).symm
      · rfl
    have hs := hscan fun _ _ _ => rfl
    have hs' := hscan fun r' hr' hne => h.levelOf hr hr' hne
    obtain ⟨rules, rfl, -⟩ := h
    refine ⟨?_, _, hs, hs'⟩
    exact (congrArg _ hs').trans ((LintDiagnostic.filter_atLevel _ r _).trans
      ((LintDiagnostic.filter_atLevel _ r _).symm.trans (congrArg _ hs).symm))

end Scanner

namespace Sample

/-- Two readers, the second one with `@SuppressWarnings("GuardedBy")`. -/
def oneSuppressed : TypeDecl :=
  { twoReaders with
    methods := [readsX, { readsX with
      name := "readAgain", attributes := [⟨"SuppressWarnings", ["GuardedBy"], none⟩] }] }

/-- The class is nested in another one. -/
def nestedOneSuppressed : CompilationUnit :=
  { path := ""
    types := [{ name := "Outer", base := none, fields := [], methods := []
                nested := [oneSuppressed], attributes := [] }] }

theorem moreSuppressed_nestedReaders : nestedReaders.MoreSuppressed nestedOneSuppressed := by
  have hfields : twoReaders.fields.Forall₂ FieldDecl.MoreSuppressed oneSuppressed.fields :=
    .cons ⟨_, .nil, rfl⟩ (.cons ⟨_, .keep _ .nil, rfl⟩ .nil)
  have hmethods : twoReaders.methods.Forall₂ MethodDecl.MoreSuppressed oneSuppressed.methods :=
    .cons ⟨_, .nil, rfl⟩ (.cons ⟨_, .add (by decide +kernel) .nil, rfl⟩ .nil)
  exact ⟨rfl, .cons (.mk .nil .nil (.cons (.mk hfields hmethods .nil .nil) .nil) .nil) .nil⟩

/-- The default choice with unguarded accesses as warnings. -/
def guardedByWarns : ScannerConfig :=
  { ScannerConfig.default with levels := LintConfig.default.setRuleLevel "guarded_by" .warn }

end Sample

open Sample

/-- Of two findings one is suppressed; with the level changed both are reported as warnings. -/
theorem Scanner.scan_filters_nestedReaders : ∃ s s', ∃ reports : List LintDiagnostic,
    ofConfig .builtin .default = .ok s ∧ ofConfig .builtin guardedByWarns = .ok s' ∧
      (s.scan nestedOneSuppressed).Sublist (s.scan nestedReaders) ∧
      ((s.scan nestedOneSuppressed).length, (s.scan nestedReaders).length) = (1, 2) ∧
      s.scan nestedReaders = reports.filterMap (·.atLevel .guardedBy .error) ∧
      s'.scan nestedReaders = reports.filterMap (·.atLevel .guardedBy .warn) := by
  obtain ⟨s, hs, hsublist, hlevels⟩ := scan_filters (c := .default) (by decide +kernel)
  obtain ⟨s', hs', hscan⟩ := hlevels .guardedBy (.head _) guardedByWarns
    (ScannerConfig.agreeBut_setRuleLevel (.head _) .warn)
  obtain ⟨-, reports, hscan, hscan'⟩ := hscan nestedReaders
  have hlevel : ScannerConfig.default.levels.levelOf .guardedBy = .error := by decide +kernel
  have hlevel' : guardedByWarns.levels.levelOf .guardedBy = .warn := by decide +kernel
  have hlengths : (ofConfig .builtin .default).toOption.map (fun s =>
      ((s.scan nestedOneSuppressed).length, (s.scan nestedReaders).length)) = some (1, 2) := by
    decide +kernel
  rw [hs] at hlengths
  rw [hlevel] at hscan
  rw [hlevel'] at hscan'
  exact ⟨s, s', reports, hs, hs', hsublist _ _ moreSuppressed_nestedReaders,
    Option.some.inj hlengths, hscan, hscan'⟩

end LockDiscipline
