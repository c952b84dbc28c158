import LockDiscipline.Proofs.Held.Precision

/-! Jumps out of `finally` blocks. An execution takes them to the end or to the head of the loop they
are meant for, and a walk does not follow them there; so what it knows of those points is right
exactly as far as other executions come to them. -/

namespace LockDiscipline

open Exits Relation

namespace Flow

/-- `Within j f h g h'`: walked with `h`, the flow `f` comes to its part `g` with `h'`, and a jump of
the kind `j` out of `g` is one out of `f`, with no `try` and no `lock` on its way. -/
inductive Within (j : Jump) : Flow → HeldSet → Flow → HeldSet → Prop
  | here {f h} : Within j f h f h
  | first {f k h g h'} : Within j f h g h' → Within j (.seq f k) h g h'
  | second {f k h s g h'} :
      (f.walk h).exit = some s → Within j k s g h' → Within j (.seq f k) h g h'
  | left {f k h g h'} : Within j f h g h' → Within j (.either f k) h g h'
  | right {f k h g h'} : Within j k h g h' → Within j (.either f k) h g h'
  | landing {i f h g h'} : i ≠ j → Within j f h g h' → Within j (.landing i f) h g h'
  | forever {f h g h'} :
      Within j f (stableHead f.walk h) g h' → Within j (.forever f) h g h'

/-- `Targets j f h g h' r`: as `Within`, but a jump of the kind `j` out of `g` lands in `f`, and
before the end of `f` there is still `r` to do. -/
inductive Targets (j : Jump) : Flow → HeldSet → Flow → HeldSet → Flow → Prop
  | landing {f h g h'} : Within j f h g h' → Targets j (.landing j f) h g h' .nothing
  | first {f k h g h' r} : Targets j f h g h' r → Targets j (.seq f k) h g h' (.seq r k)
  | second {f k h s g h' r} :
      (f.walk h).exit = some s → Targets j k s g h' r → Targets j (.seq f k) h g h' r

/-- `EntersLoop f h body head`: walked with `h`, the flow `f` comes to a loop with `head`, and it
ends with the loop. -/
inductive EntersLoop : Flow → HeldSet → Flow → HeldSet → Prop
  | here {body h} : EntersLoop (.landing .breakOut (.forever body)) h body h
  | after {f g h s body head} :
      (f.walk h).exit = some s → EntersLoop g s body head → EntersLoop (.seq f g) h body head

/-- The states with which jumps leave a finalizer that is walked after `f`, entered with `held`. -/
def finalizerJumps (f finalizer : Flow) (held : HeldSet) : Jump → List HeldSet :=
  (finalizer.walk ((f.walk held).finalizerEntry held)).jumps

variable {f g k r body : Flow} {h h' c head s s' : HeldSet} {p : LockPath} {j : Jump}

private theorem exit_seq : ((seq f g).walk h).exit = some s' ↔
    ∃ s, (f.walk h).exit = some s ∧ (g.walk s).exit = some s' := by
  simp only [walk, andThen]
  cases hx : (f.walk h).exit with
  | none => simp [hx]
  | some s => simp

/-- Executions come to a part of a flow with none but the locks with which a walk does, and take its
jumps out of the flow. -/
private theorem Within.exists_path (hw : Within j f h g h') (hc : p ∈ c → p ∈ h) :
    ∃ c', (p ∈ c' → p ∈ h') ∧ ∀ u d, Path true g c' u (.jump j) d →
      ∃ t, Path true f c (t ++ u) (.jump j) d := by
  induction hw generalizing c with
  | here => exact ⟨c, hc, fun u d hu => ⟨[], hu⟩⟩
  | first _ ih =>
    obtain ⟨c', hc', hjump⟩ := ih hc
    refine ⟨c', hc', fun u d hu => ?_⟩
    obtain ⟨t, ht⟩ := hjump u d hu
    exact ⟨t, .seqLeft ht nofun⟩
  | @second f k h s _ _ hx _ ih =>
    obtain ⟨t₀, b, hr, hb⟩ := (f.walk_sharp h c hc).exit s hx
    obtain ⟨c', hc', hjump⟩ := ih hb
    refine ⟨c', hc', fun u d hu => ?_⟩
    obtain ⟨t, ht⟩ := hjump u d hu
    exact ⟨t₀ ++ t, by rw [List.append_assoc]; exact .seq hr.allow ht⟩
  | left _ ih =>
    obtain ⟨c', hc', hjump⟩ := ih hc
    refine ⟨c', hc', fun u d hu => ?_⟩
    obtain ⟨t, ht⟩ := hjump u d hu
    exact ⟨t, .left ht⟩
  | right _ ih =>
    obtain ⟨c', hc', hjump⟩ := ih hc
    refine ⟨c', hc', fun u d hu => ?_⟩
    obtain ⟨t, ht⟩ := hjump u d hu
    exact ⟨t, .right ht⟩
  | landing hne _ ih =>
    obtain ⟨c', hc', hjump⟩ := ih hc
    refine ⟨c', hc', fun u d hu => ?_⟩
    obtain ⟨t, ht⟩ := hjump u d hu
    exact ⟨t, .passesBy ht fun he => hne (Ending.jump.inj he).symm⟩
  | @forever f h _ _ _ ih =>
    obtain ⟨b, hrounds, hb⟩ := exists_rounds (fun a ha => f.walk_sharp a c ha) hc
    obtain ⟨c', hc', hjump⟩ := ih hb
    refine ⟨c', hc', fun u d hu => ?_⟩
    obtain ⟨t, ht⟩ := hjump u d hu
    obtain ⟨t', ht'⟩ := Path.after_rounds (allow_rounds hrounds) (.foreverLeft ht nofun)
    exact ⟨t' ++ t, by rw [List.append_assoc]; exact ht'⟩

/-- A jump out of a `finally` block is taken by an execution with none but its locks. -/
private theorem exists_finalizerJump (hs : s ∈ finalizerJumps f g h j) (hc : p ∈ c → p ∈ h) :
    ∃ t d, Path true (finalized f g) c t (.jump j) d ∧ (p ∈ d → p ∈ s) := by
  obtain ⟨t, e, b, hr, hb⟩ := (f.walk_sharp h c hc).finalizerEntry hc .raiseFirst
  obtain ⟨u, d, hu, hd⟩ := (g.walk_sharp _ b hb).jumps j s hs
  exact ⟨t ++ u, d, .overridden hr.allow hu.allow nofun fun _ _ => rfl, hd⟩

/-- An execution takes a jump out of a `finally` block to where it lands, and goes on from there. -/
private theorem Targets.exists_path (ht : Targets j f h (finalized k g) h' r)
    (hs : s ∈ finalizerJumps k g h' j) (hr : (r.walk s).exit = some s') (hc : p ∈ c → p ∈ h) :
    ∃ t d, Path true f c t .done d ∧ (p ∈ d → p ∈ s') := by
  generalize hfin : finalized k g = fin at ht
  induction ht generalizing c s' with
  | landing hw =>
    subst hfin
    obtain rfl := Option.some.inj hr
    obtain ⟨c', hc', hjump⟩ := hw.exists_path hc
    obtain ⟨u, d, hu, hd⟩ := exists_finalizerJump hs hc'
    obtain ⟨t, ht⟩ := hjump u d hu
    exact ⟨t ++ u, d, .lands ht, hd⟩
  | @first f k _ _ _ r _ ih =>
    obtain ⟨a, ha, hk⟩ := exit_seq.1 hr
    obtain ⟨t, b, ht, hb⟩ := ih hs ha hc hfin
    obtain ⟨u, d, hu, hd⟩ := (k.walk_sharp a b hb).exit s' hk
    exact ⟨t ++ u, d, .seq ht hu.allow, hd⟩
  | @second f k h a _ _ _ hx _ ih =>
    obtain ⟨t, b, ht, hb⟩ := (f.walk_sharp h c hc).exit a hx
    obtain ⟨u, d, hu, hd⟩ := ih hs hr hb hfin
    exact ⟨t ++ u, d, .seq ht.allow hu, hd⟩

/-- What a loop reports at last is what the pass from its stable head reports. -/
private theorem EntersLoop.accesses (hl : EntersLoop f h body head) : ∃ before,
    (f.walk h).trace.accesses = before ++ (body.walk (stableHead body.walk head)).trace.accesses := by
  induction hl with
  | @here body h => exact ⟨[], by simp [walk, Exits.landing, Exits.forever, accesses_passes]⟩
  | @after f g h s _ _ hx _ ih =>
    obtain ⟨before, ih⟩ := ih
    refine ⟨(f.walk h).trace.accesses ++ before, ?_⟩
    rw [List.append_assoc, ← ih]
    simp only [walk, andThen, hx, Trace.accesses_append]

end Flow

namespace WalkContext

open LockDiscipline.Flow

/-- A jump out of a `finally` block that stands right in a loop or a `switch`, left with the locks
`s`: executions take it to the end of the loop, and the walk agrees that there are locks of `s` only
there, exactly when executions that take no such jump come to the end, and come there without each
lock that `s` lacks. A `continue` is taken to the head, which in the pass that reports has only locks
of the state it leads to exactly when rounds without such jumps lose each of the others. -/
theorem finallyJump_iff (w : WalkContext) {σ : BodyScope} {loop : Stmt} {held : HeldSet}
    (hloop : loop.loopsClosed = true) :
    (∀ {f finalizer : Flow} {h s : HeldSet},
      Targets .breakOut (w.stmtFlow σ loop) held (.finalized f finalizer) h .nothing →
      s ∈ finalizerJumps f finalizer h .breakOut →
        (∀ p, ∃ t d, (w.stmtFlow σ loop).Path true held t .done d ∧ (p ∈ d → p ∈ s)) ∧
        ((∃ a, (w.stmt σ loop held).exit = some a ∧ a ⊆ s) ↔
          (∃ t d, (w.stmtFlow σ loop).Path false held t .done d) ∧
            ∀ p, p ∉ s → ∃ t d, (w.stmtFlow σ loop).Path false held t .done d ∧ p ∉ d)) ∧
    (∀ {body f finalizer rest : Flow} {head h s s' : HeldSet},
      EntersLoop (w.stmtFlow σ loop) held body head →
      Targets .continueLoop body (stableHead body.walk head) (.finalized f finalizer) h rest →
      s ∈ finalizerJumps f finalizer h .continueLoop → (rest.walk s).exit = some s' →
        (∃ before, (w.stmt σ loop held).trace.accesses =
          before ++ (body.walk (stableHead body.walk head)).trace.accesses) ∧
        (∀ p, ∃ b, ReflTransGen (Round true body) head b ∧ (p ∈ b → p ∈ s')) ∧
        (stableHead body.walk head ⊆ s' ↔
          ∀ p, p ∉ s' → ∃ b, ReflTransGen (Round false body) head b ∧ p ∉ b)) := by
  have hwalk := w.walk_stmtFlow loop σ held hloop
  have hexit : (w.stmt σ loop held).exit = ((w.stmtFlow σ loop).walk held).exit :=
    congrArg Exits.exit hwalk
  have htrace : (w.stmt σ loop held).trace = ((w.stmtFlow σ loop).walk held).trace :=
    congrArg Exits.trace hwalk
  rw [hexit, htrace]
  constructor
  · intro f finalizer h s ht hs
    exact ⟨fun p => ht.exists_path hs rfl id, exists_exit_subset_iff⟩
  · intro body f finalizer rest head h s s' hl ht hs hr
    refine ⟨hl.accesses, fun p => ?_, stableHead_subset_iff⟩
    obtain ⟨b, hrounds, hb⟩ := exists_rounds (fun a ha => body.walk_sharp a head ha) (p := p) id
    obtain ⟨t, d, hround, hd⟩ := ht.exists_path hs hr hb
    exact ⟨d, (allow_rounds hrounds).tail ⟨t, hround⟩, hd⟩

end WalkContext

namespace Counter

open LockDiscipline.Flow

/-- `try { } finally { break; }` -/
def tryBreak : Flow :=
  finalized (catching nothing never) (seq (leave (.jump .breakOut)) nothing)

/-- `while (c) { try { } finally { break; } }` -/
def mayLeaveByFinally : Stmt :=
  .whileLoop (.name "c" none) (.block [.tryCatch [] [] [.breakOut]])

private theorem stmtFlow_mayLeaveByFinally : context.stmtFlow scope mayLeaveByFinally =
    landing .breakOut (forever (seq nothing (seq mayBreak
      (landing .continueLoop (seq tryBreak nothing))))) := by cbv

private theorem targets_mayLeaveByFinally :
    Targets .breakOut (context.stmtFlow scope mayLeaveByFinally) ∅ tryBreak ∅ nothing := by
  have hjump : Jump.continueLoop ≠ .breakOut := nofun
  rw [stmtFlow_mayLeaveByFinally]
  have hhead : stableHead (seq nothing (seq mayBreak
      (landing .continueLoop (seq tryBreak nothing)))).walk ∅ = ∅ := by cbv
  refine .landing (.forever ?_)
  rw [hhead]
  exact .second rfl (.second rfl (.landing hjump (.first .here)))

theorem finallyJump_iff_mayLeaveByFinally :
    ∃ a, (context.stmt scope mayLeaveByFinally ∅).exit = some a ∧ a ⊆ ∅ := by
  have hpath : (context.stmtFlow scope mayLeaveByFinally).Path false ∅ [] .done ∅ := by
    rw [stmtFlow_mayLeaveByFinally]
    exact .lands (.foreverLeft (.seq (t := []) .leave (.seqLeft (.left .leave) nofun)) nofun)
  exact ((context.finallyJump_iff (by decide)).1 targets_mayLeaveByFinally (.head _)).2.2
    ⟨⟨[], ∅, hpath⟩, fun p hp => ⟨[], ∅, hpath, hp⟩⟩

/-- `while (true) { try { } finally { break; } }` -/
def leaveByFinally : Stmt :=
  .whileLoop (.literal "true") (.block [.tryCatch [] [] [.breakOut]])

/-- A loop that is left by a jump out of a `finally` block only is not left by the walk. -/
theorem finallyJump_lost :
    Targets .breakOut (context.stmtFlow scope leaveByFinally) ∅ tryBreak ∅ nothing ∧
      ∅ ∈ finalizerJumps (catching nothing never) (seq (leave (.jump .breakOut)) nothing) ∅ .breakOut ∧
      (context.stmt scope leaveByFinally ∅).exit = none := by
  have hjump : Jump.continueLoop ≠ .breakOut := nofun
  have hflow : context.stmtFlow scope leaveByFinally =
      landing .breakOut (forever (seq nothing (seq nothing
        (landing .continueLoop (seq tryBreak nothing))))) := by cbv
  have hhead : stableHead (seq nothing (seq nothing
      (landing .continueLoop (seq tryBreak nothing)))).walk ∅ = ∅ := by cbv
  refine ⟨?_, .head _, by cbv⟩
  rw [hflow]
  refine .landing (.forever ?_)
  rw [hhead]
  exact .second rfl (.second rfl (.landing hjump (.first .here)))

end Counter

end LockDiscipline
