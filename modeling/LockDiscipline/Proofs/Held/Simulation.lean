import LockDiscipline.Proofs.Held.Grounded
import LockDiscipline.Proofs.Related

/-! Two walks side by side, of two flows of one shape. A relation between paths says where the second
walk looks for the locks of the first: if each lock that it relates is held in the second walk at the
start, it is at each access and on every way out. The walks may take different ways into a `lock` and
go round a loop a different number of times. -/

namespace LockDiscipline

variable {T U V : LockPath → LockPath → Prop} {A : Access × HeldSet → Access × HeldSet → Prop}

/-- Whether for each lock in `a` the paths that `T` relates to it are in `b`. -/
def HeldSet.TrackedBy (T : LockPath → LockPath → Prop) (a b : HeldSet) : Prop :=
  ∀ p q, T p q → p ∈ a → q ∈ b

namespace HeldSet

variable {a b a' b' : HeldSet} {path path' place place' : LockPath}

theorem trackedBy_eq_iff : TrackedBy Eq a b ↔ a ⊆ b := by
  refine ⟨fun h p hp => h p p rfl hp, fun h p q hpq hp => ?_⟩
  subst hpq
  exact h p hp

theorem trackedBy_eq : TrackedBy Eq = (· ⊆ ·) := by
  funext a b
  exact propext trackedBy_eq_iff

theorem TrackedBy.mono (h : TrackedBy T a b) (hUT : ∀ p q, U p q → T p q) : TrackedBy U a b :=
  fun p q hpq => h p q (hUT p q hpq)

theorem TrackedBy.inter (h : TrackedBy T a b) (h' : TrackedBy T a' b') :
    TrackedBy T (a.inter a') (b.inter b') := by
  intro p q hpq hp
  obtain ⟨ha, ha'⟩ := OrderedSet.mem_inter.1 hp
  exact OrderedSet.mem_inter.2 ⟨h p q hpq ha, h' p q hpq ha'⟩

theorem TrackedBy.insert (hpath : ∀ p q, T p q → (p = path ↔ q = path')) (h : TrackedBy T a b) :
    TrackedBy T (a.insert path) (b.insert path') := by
  intro p q hpq hp
  rcases OrderedSet.mem_insert.1 hp with hp | hp
  · exact OrderedSet.mem_insert.2 (.inl ((hpath p q hpq).1 hp))
  · exact OrderedSet.mem_insert.2 (.inr (h p q hpq hp))

theorem TrackedBy.erase (hpath : ∀ p q, T p q → (p = path ↔ q = path')) (h : TrackedBy T a b) :
    TrackedBy T (a.erase path) (b.erase path') := by
  intro p q hpq hp
  obtain ⟨hp, hne⟩ := OrderedSet.mem_erase.1 hp
  exact OrderedSet.mem_erase.2 ⟨h p q hpq hp, mt (hpath p q hpq).2 hne⟩

theorem TrackedBy.insert_left (hpath : ∀ p q, T p q → p = path → q ∈ b) (h : TrackedBy T a b) :
    TrackedBy T (a.insert path) b := by
  intro p q hpq hp
  rcases OrderedSet.mem_insert.1 hp with hp | hp
  · exact hpath p q hpq hp
  · exact h p q hpq hp

theorem TrackedBy.insert_right (h : TrackedBy T a b) : TrackedBy T a (b.insert path') :=
  fun p q hpq hp => OrderedSet.mem_insert.2 (.inr (h p q hpq hp))

theorem TrackedBy.erase_left (h : TrackedBy T a b) : TrackedBy T (a.erase path) b :=
  fun p q hpq hp => h p q hpq (OrderedSet.mem_erase.1 hp).1

theorem TrackedBy.erase_right (hpath : ∀ p q, T p q → q ≠ path') (h : TrackedBy T a b) :
    TrackedBy T a (b.erase path') :=
  fun p q hpq hp => OrderedSet.mem_erase.2 ⟨h p q hpq hp, hpath p q hpq⟩

theorem TrackedBy.invalidate (hTU : ∀ p q, U p q → p.reachedThrough place = false → T p q)
    (hplace : ∀ p q, T p q → p.reachedThrough place = false → q.reachedThrough place' = false)
    (h : TrackedBy T a b) : TrackedBy U (a.invalidate place) (b.invalidate place') := by
  intro p q hpq hp
  obtain ⟨hp, hr⟩ := mem_invalidate.1 hp
  have hpq := hTU p q hpq hr
  exact mem_invalidate.2 ⟨h p q hpq hp, hplace p q hpq hr⟩

theorem TrackedBy.invalidate_left (h : TrackedBy T a b) : TrackedBy T (a.invalidate place) b :=
  fun p q hpq hp => h p q hpq (mem_invalidate.1 hp).1

end HeldSet

namespace FlowState

/-- Whether two points are reached alike, and the locks of the first are tracked at the second. -/
abbrev TrackedBy (T : LockPath → LockPath → Prop) (s t : FlowState) : Prop :=
  Option.Rel (HeldSet.TrackedBy T) s t

variable {s s' t t' : FlowState} {p q : LockPath}

theorem TrackedBy.holds (h : s.TrackedBy T s') (hpq : T p q) (hp : s.Holds p) : s'.Holds q := by
  cases h with
  | some h => exact h p q hpq hp
  | none => trivial

theorem TrackedBy.join (hs : s.TrackedBy T s') (ht : t.TrackedBy T t') :
    (s.join t).TrackedBy T (s'.join t') := by
  cases hs with
  | none => exact ht
  | some hs =>
    cases ht with
    | none => exact .some hs
    | some ht => exact .some (hs.inter ht)

theorem TrackedBy.joinAll {l l' : List HeldSet} (hs : s.TrackedBy T s')
    (hl : List.Forall₂ (HeldSet.TrackedBy T) l l') :
    (s.joinAll l).TrackedBy T (s'.joinAll l') := by
  induction hl generalizing s s' with
  | nil => exact hs
  | cons hab _ ih => exact ih (hs.join (.some hab))

theorem TrackedBy.bind {k k' : HeldSet → FlowState} (hs : s.TrackedBy T s')
    (hk : ∀ a b, HeldSet.TrackedBy T a b → (k a).TrackedBy U (k' b)) :
    FlowState.TrackedBy U (s.bind k) (s'.bind k') := by
  cases hs with
  | none => exact .none
  | some h => exact hk _ _ h

theorem TrackedBy.map {f g : HeldSet → HeldSet} (hs : s.TrackedBy T s')
    (hfg : ∀ a b, HeldSet.TrackedBy T a b → HeldSet.TrackedBy U (f a) (g b)) :
    FlowState.TrackedBy U (s.map f) (s'.map g) := by
  cases hs with
  | none => exact .none
  | some h => exact .some (hfg _ _ h)

theorem TrackedBy.imp (hs : s.TrackedBy T s')
    (hTU : ∀ a, s = some a → ∀ b, HeldSet.TrackedBy T a b → HeldSet.TrackedBy U a b) :
    s.TrackedBy U s' := by
  cases hs with
  | none => exact .none
  | some h => exact .some (hTU _ rfl _ h)

theorem TrackedBy.toList (hs : s.TrackedBy T s') :
    List.Forall₂ (HeldSet.TrackedBy T) s.toList s'.toList := by
  cases hs with
  | none => exact .nil
  | some h => exact .cons h .nil

end FlowState

namespace Exits

/-- Whether two walks leave in the same ways, with the locks of the first tracked by `U` in the
second, and make accesses that `A` relates; a lock of `held` that the first walk keeps all the time
is kept by the second one where `T` looks for it. -/
structure TrackedBy (T U : LockPath → LockPath → Prop)
    (A : Access × HeldSet → Access × HeldSet → Prop) (held : HeldSet) (o o' : Exits) : Prop where
  exit : o.exit.TrackedBy U o'.exit
  jumps : ∀ j, List.Forall₂ (HeldSet.TrackedBy U) (o.jumps j) (o'.jumps j)
  accesses : List.Forall₂ A o.trace.accesses o'.trace.accesses
  kept : ∀ p q, T p q → p ∈ held → o.trace.Keeps p → o'.trace.Keeps q

variable {held held' : HeldSet} {o o' u u' : Exits} {path path' : LockPath}

theorem TrackedBy.imp (h : o.TrackedBy T U A held o')
    (hUV : ∀ s ∈ o.waysOut, ∀ s', HeldSet.TrackedBy U s s' → HeldSet.TrackedBy V s s') :
    o.TrackedBy T V A held o' where
  exit := h.exit.imp fun s hs => hUV s (mem_waysOut.2 (.inr hs))
  jumps j := forall₂_imp_of_mem (h.jumps j) fun s hs => hUV s (mem_waysOut.2 (.inl ⟨j, hs⟩))
  accesses := h.accesses
  kept := h.kept

theorem TrackedBy.orElse (ho : o.TrackedBy T U A held o') (hu : u.TrackedBy T U A held u') :
    (o.orElse u).TrackedBy T U A held (o'.orElse u') where
  exit := ho.exit.join hu.exit
  jumps j := List.rel_append (ho.jumps j) (hu.jumps j)
  accesses := List.rel_append ho.accesses hu.accesses
  kept p q hpq hp hk := by
    obtain ⟨hko, hku⟩ := Trace.keeps_append.1 hk
    exact Trace.keeps_append.2 ⟨ho.kept p q hpq hp hko, hu.kept p q hpq hp hku⟩

theorem TrackedBy.landing (h : o.TrackedBy T U A held o') (j : Jump) :
    (o.landing j).TrackedBy T U A held (o'.landing j) where
  exit := h.exit.joinAll (h.jumps j)
  jumps k := by
    by_cases hkj : k = j
    · simp only [Exits.landing, hkj, ↓reduceIte]
      exact .nil
    · simp only [Exits.landing, hkj, ↓reduceIte]
      exact h.jumps k
  accesses := h.accesses
  kept := h.kept

theorem TrackedBy.releasing (hpath : ∀ p q, T p q → (p = path ↔ q = path'))
    (h : o.TrackedBy T T A (held.insert path) o') :
    (o.releasing path).TrackedBy T T A held (o'.releasing path') where
  exit := h.exit.map fun _ _ hs => hs.erase hpath
  jumps j := List.rel_map (fun _ _ hs => hs.erase hpath) (h.jumps j)
  accesses := h.accesses
  kept p q hpq hp hk := h.kept p q hpq (OrderedSet.mem_insert.2 (.inr hp)) hk

/-- A walk that took the lock only for this is tracked by one that did not take it. -/
theorem TrackedBy.releasing_left (h : o.TrackedBy T T A (held.insert path) o') :
    (o.releasing path).TrackedBy T T A held o' where
  exit := by
    have hx := h.exit.map (f := (·.erase path)) (g := id) fun _ _ hs => hs.erase_left
    rwa [Option.map_id] at hx
  jumps j := List.forall₂_map_left_iff.2 ((h.jumps j).imp fun _ _ hs => hs.erase_left)
  accesses := h.accesses
  kept p q hpq hp hk := h.kept p q hpq (OrderedSet.mem_insert.2 (.inr hp)) hk

/-- So it is the other way round, if the lock is not tracked. -/
theorem TrackedBy.releasing_right (hpath : ∀ p q, T p q → q ≠ path')
    (h : o.TrackedBy T T A held o') : o.TrackedBy T T A held (o'.releasing path') where
  exit := by
    have hx := h.exit.map (f := id) fun _ _ hs => hs.erase_right hpath
    rwa [Option.map_id] at hx
  jumps j := List.forall₂_map_right_iff.2 ((h.jumps j).imp fun _ _ hs => hs.erase_right hpath)
  accesses := h.accesses
  kept := h.kept

theorem TrackedBy.waysOut (h : o.TrackedBy T U A held o') :
    List.Forall₂ (HeldSet.TrackedBy U) o.waysOut o'.waysOut :=
  List.rel_append (List.rel_append (h.jumps .breakOut) (h.jumps .continueLoop)) h.exit.toList

theorem TrackedBy.floor (h : o.TrackedBy T U A held o') (hheld : HeldSet.TrackedBy T held held') :
    HeldSet.TrackedBy T (o.trace.floor held) (o'.trace.floor held') := by
  intro p q hpq hp
  obtain ⟨hin, hk⟩ := Trace.mem_floor.1 hp
  exact Trace.mem_floor.2 ⟨hheld p q hpq hin, h.kept p q hpq hin hk⟩

theorem TrackedBy.finalizerEntry (h : o.TrackedBy T T A held o')
    (hheld : HeldSet.TrackedBy T held held') :
    HeldSet.TrackedBy T (o.finalizerEntry held) (o'.finalizerEntry held') := by
  intro p q hpq hp
  obtain ⟨hx, hin, hk⟩ := mem_finalizerEntry.1 hp
  exact mem_finalizerEntry.2 ⟨h.exit.holds hpq hx, hheld p q hpq hin, h.kept p q hpq hin hk⟩

end Exits

namespace Flow

open Exits

/-- Whether the walk of `f'` tracks that of `f`: by `U` on every way out, if by `T` at the start. -/
def TrackedBy (T U : LockPath → LockPath → Prop) (A : Access × HeldSet → Access × HeldSet → Prop)
    (f f' : Flow) : Prop :=
  ∀ a b, HeldSet.TrackedBy T a b → (f.walk a).TrackedBy T U A a (f'.walk b)

variable {f f' g g' h : Flow} {path path' place place' : LockPath}

theorem TrackedBy.imp (hf : f.TrackedBy T U A f')
    (hUV : ∀ a, ∀ s ∈ (f.walk a).waysOut, ∀ s',
      HeldSet.TrackedBy U s s' → HeldSet.TrackedBy V s s') : f.TrackedBy T V A f' :=
  fun a b hab => (hf a b hab).imp (hUV a)

theorem TrackedBy.mono (hf : f.TrackedBy T U A f') (hVU : ∀ p q, V p q → U p q) :
    f.TrackedBy T V A f' :=
  hf.imp fun _ _ _ _ hs => hs.mono hVU

/-- More can be tracked from the start if nothing more is kept all the time. -/
theorem TrackedBy.of_unkept (hf : f.TrackedBy U V A f') (hUT : ∀ p q, U p q → T p q)
    (hunkept : ∀ p q, T p q → U p q ∨ ∀ a, p ∈ a → ¬ (f.walk a).trace.Keeps p) :
    f.TrackedBy T V A f' := by
  intro a b hab
  have h := hf a b (hab.mono hUT)
  refine ⟨h.exit, h.jumps, h.accesses, fun p q hpq hp hk => ?_⟩
  rcases hunkept p q hpq with hpq | hno
  · exact h.kept p q hpq hp hk
  · exact absurd hk (hno a hp)

theorem walk_seq_assoc : (seq (seq f g) h).walk = (seq f (seq g h)).walk := by
  funext held
  simp only [walk, Exits.andThen]
  cases hf : (f.walk held).exit with
  | none => simp only [hf]
  | some s =>
    simp only
    cases hg : (g.walk s).exit with
    | none => simp only [hg]
    | some s' =>
      simp only
      ext1
      · rfl
      · funext j
        exact List.append_assoc _ _ _
      · exact Trace.append_assoc

theorem walk_nothing_seq (f : Flow) : (seq nothing f).walk = f.walk := rfl

theorem walk_seq_nothing : (seq f nothing).walk = f.walk := by
  funext held
  simp only [walk, Exits.andThen, Exits.leave]
  cases hf : (f.walk held).exit with
  | none => rfl
  | some s =>
    ext1
    · exact hf.symm
    · funext j
      exact List.append_nil _
    · exact Trace.append_empty

theorem TrackedBy.congr (hf : f.TrackedBy T U A f') (hg : g.walk = f.walk) (hg' : g'.walk = f'.walk) :
    g.TrackedBy T U A g' := by
  intro a b hab
  rw [hg, hg']
  exact hf a b hab

theorem trackedBy_access {x x' : Access}
    (hA : ∀ a b, HeldSet.TrackedBy T a b → A (x, a) (x', b)) :
    (access x).TrackedBy T T A (access x') := by
  intro a b hab
  exact ⟨.some hab, fun _ => .nil, .cons (hA a b hab) .nil, fun _ _ _ _ _ => trivial⟩

theorem trackedBy_change {effect : LockEffect} (hpath : ∀ p q, T p q → (p = path ↔ q = path')) :
    (change effect path).TrackedBy T T A (change effect path') := by
  intro a b hab
  have happly : HeldSet.TrackedBy T (effect.apply path a) (effect.apply path' b) := by
    cases effect with
    | acquire => exact hab.insert hpath
    | release => exact hab.erase hpath
  exact ⟨.some happly, fun _ => .nil, .nil, fun p q hpq _ hk => happly p q hpq hk⟩

theorem trackedBy_rebind (hTU : ∀ p q, U p q → p.reachedThrough place = false → T p q)
    (hplace : ∀ p q, T p q → p.reachedThrough place = false → q.reachedThrough place' = false) :
    (rebind place).TrackedBy T U A (rebind place') := by
  intro a b hab
  refine ⟨?_, fun _ => .nil, ?_, fun p q hpq hp hk => ?_⟩
  · refine .some ?_
    rw [Evaluated.held_rebind, Evaluated.held_rebind]
    exact hab.invalidate hTU hplace
  · simp only [walk, ofEvaluated, Evaluated.accesses_rebind]
    exact .nil
  · obtain ⟨-, hr⟩ := HeldSet.mem_invalidate.1 ((Evaluated.keeps_rebind hp).1 hk)
    have hq := hab p q hpq hp
    exact (Evaluated.keeps_rebind hq).2 (HeldSet.mem_invalidate.2 ⟨hq, hplace p q hpq hr⟩)

theorem trackedBy_leave (e : Ending) : (leave e).TrackedBy T T A (leave e) := by
  intro a b hab
  cases e with
  | done => exact ⟨.some hab, fun _ => .nil, .nil, fun _ _ _ _ _ => trivial⟩
  | jump j =>
    refine ⟨.none, fun k => ?_, .nil, fun _ _ _ _ _ => trivial⟩
    by_cases hkj : k = j
    · simp only [walk, Exits.leave, hkj, ↓reduceIte]
      exact .cons hab .nil
    · simp only [walk, Exits.leave, hkj, ↓reduceIte]
      exact .nil
  | returned | raised => exact ⟨.none, fun _ => .nil, .nil, fun _ _ _ _ _ => trivial⟩

theorem trackedBy_never : never.TrackedBy T U A never :=
  fun _ _ _ => ⟨.none, fun _ => .nil, .nil, fun _ _ _ _ _ => trivial⟩

/-- A lock that is not tracked may be taken or freed in the first walk alone. -/
theorem change_trackedBy_nothing {effect : LockEffect} (hpath : ∀ p q, T p q → p ≠ path) :
    (change effect path).TrackedBy T T A nothing := by
  intro a b hab
  refine ⟨.some ?_, fun _ => .nil, .nil, fun _ _ _ _ _ => trivial⟩
  cases effect with
  | acquire => exact hab.insert_left fun p q hpq hp => absurd hp (hpath p q hpq)
  | release => exact hab.erase_left

theorem rebind_trackedBy_nothing : (rebind place).TrackedBy T T A nothing := by
  intro a b hab
  refine ⟨.some ?_, fun _ => .nil, ?_, fun _ _ _ _ _ => trivial⟩
  · rw [Evaluated.held_rebind]
    exact hab.invalidate_left
  · simp only [walk, ofEvaluated, Evaluated.accesses_rebind]
    exact .nil

theorem TrackedBy.seq (hf : f.TrackedBy T U A f') (hg : g.TrackedBy U V A g')
    (hTU : ∀ p q, T p q → U p q) (hVU : ∀ p q, V p q → U p q) :
    (seq f g).TrackedBy T V A (seq f' g') := by
  intro a b hab
  have hf := hf a b hab
  have hx := hf.exit
  simp only [walk, andThen]
  cases ha : (f.walk a).exit with
  | none =>
    cases hb : (f'.walk b).exit with
    | none => exact hf.imp fun _ _ _ hs => hs.mono hVU
    | some s' =>
      rw [ha, hb] at hx
      cases hx
  | some s =>
    cases hb : (f'.walk b).exit with
    | none =>
      rw [ha, hb] at hx
      cases hx
    | some s' =>
      rw [ha, hb] at hx
      obtain ⟨hs⟩ := hx
      have hg := hg s s' hs
      refine ⟨hg.exit, fun j => List.rel_append ((hf.jumps j).imp fun _ _ h => h.mono hVU) (hg.jumps j),
        List.rel_append hf.accesses hg.accesses, fun p q hpq hp hk => ?_⟩
      obtain ⟨hkf, hkg⟩ := Trace.keeps_append.1 hk
      have hps := (walk_holds f hp hkf).1
      rw [ha] at hps
      exact Trace.keeps_append.2 ⟨hf.kept p q hpq hp hkf, hg.kept p q (hTU p q hpq) hps hkg⟩

/-- One part after the other, tracked by the same relation. -/
theorem TrackedBy.then (hf : f.TrackedBy T T A f') (hg : g.TrackedBy T T A g') :
    (Flow.seq f g).TrackedBy T T A (Flow.seq f' g') :=
  hf.seq hg (fun _ _ => id) fun _ _ => id

theorem TrackedBy.either (hf : f.TrackedBy T U A f') (hg : g.TrackedBy T U A g') :
    (Flow.either f g).TrackedBy T U A (Flow.either f' g') :=
  fun a b hab => (hf a b hab).orElse (hg a b hab)

theorem TrackedBy.landing (hf : f.TrackedBy T U A f') (j : Jump) :
    (Flow.landing j f).TrackedBy T U A (Flow.landing j f') :=
  fun a b hab => (hf a b hab).landing j

/-- The head of the first loop, once it is stable, is tracked at the head of the second one, however
many passes either takes to find it. -/
private theorem trackedBy_stableHead {a b : HeldSet} (hf : f.TrackedBy T T A f')
    (hab : HeldSet.TrackedBy T a b) :
    HeldSet.TrackedBy T (stableHead f.walk a) (stableHead f'.walk b) := by
  refine stableHead_induction (P := HeldSet.TrackedBy T (stableHead f.walk a))
    (fun s hs p q hpq hp => ?_) fun p q hpq hp => ?_
  · exact mem_nextHead.2
      ⟨hs p q hpq hp, (hf _ s hs).exit.holds hpq (holds_exit_stableHead hp)⟩
  · exact hab p q hpq (stableHead_subset f.walk a p hp)

theorem TrackedBy.forever (hf : f.TrackedBy T T A f') :
    (Flow.forever f).TrackedBy T T A (Flow.forever f') := by
  intro a b hab
  have hlast := hf _ _ (trackedBy_stableHead hf hab)
  refine ⟨.none, hlast.jumps, ?_, fun p q hpq hp hk => ?_⟩
  · simp only [walk, Exits.forever, Trace.accesses_append, accesses_passes, List.nil_append]
    exact hlast.accesses
  · obtain ⟨hkp, hkl⟩ := Trace.keeps_append.1 hk
    have hp := mem_stableHead (fun s hs hks => (walk_holds f hs hks).1) hp hkp
    refine Trace.keeps_append.2 ⟨?_, hlast.kept p q hpq hp hkl⟩
    refine keeps_passes (P := HeldSet.TrackedBy T (stableHead f.walk a)) (fun s hs => ?_)
      (fun s hs r r' hr hmem => ?_) fun r r' hr hmem => ?_
    · exact (hf _ s hs).kept p q hpq hp hkl
    · exact mem_nextHead.2
        ⟨hs r r' hr hmem, (hf _ s hs).exit.holds hr (holds_exit_stableHead hmem)⟩
    · exact hab r r' hr (stableHead_subset f.walk a r hmem)

theorem TrackedBy.catching (hf : f.TrackedBy T U A f') (hg : g.TrackedBy T U A g') :
    (Flow.catching f g).TrackedBy T U A (Flow.catching f' g') := by
  intro a b hab
  have hf := hf a b hab
  have hg := hg _ _ (hf.floor hab)
  refine ⟨hf.exit.join hg.exit, fun j => List.rel_append (hf.jumps j) (hg.jumps j),
    List.rel_append hf.accesses hg.accesses, fun p q hpq hp hk => ?_⟩
  obtain ⟨hkf, hkg⟩ := Trace.keeps_append.1 hk
  exact Trace.keeps_append.2
    ⟨hf.kept p q hpq hp hkf, hg.kept p q hpq (Trace.mem_floor.2 ⟨hp, hkf⟩) hkg⟩

theorem TrackedBy.finalized (hf : f.TrackedBy T T A f') (hg : g.TrackedBy T T A g') :
    (Flow.finalized f g).TrackedBy T T A (Flow.finalized f' g') := by
  intro a b hab
  have hf := hf a b hab
  have hentry := hg _ _ (hf.finalizerEntry hab)
  refine ⟨hf.exit.bind fun s s' hs => (hg s s' hs).exit,
    fun j => List.rel_filterMap (fun s s' hs => (hg s s' hs).exit) (hf.jumps j), ?_,
    fun p q hpq hp hk => ?_⟩
  · simp only [walk, finalizing, Trace.accesses_append, accesses_replays, List.append_nil]
    exact List.rel_append hf.accesses hentry.accesses
  · obtain ⟨hkf, hkg⟩ := Trace.keeps_append.1 hk
    obtain ⟨hke, hkr⟩ := Trace.keeps_append.1 hkg
    have hholds := walk_holds f hp hkf
    have hin := mem_finalizerEntry.2 ⟨hholds.1, hp, hkf⟩
    refine Trace.keeps_append.2 ⟨hf.kept p q hpq hp hkf, Trace.keeps_append.2 ⟨?_, ?_⟩⟩
    · exact hentry.kept p q hpq hin hke
    · refine keeps_replays.2 fun s' hs' => ?_
      obtain ⟨s, hs, hss⟩ := exists_mem_left_of_forall₂ hf.waysOut hs'
      exact (hg s s' hss).kept p q hpq (hholds.waysOut s hs) (keeps_replays.1 hkr s hs)

theorem TrackedBy.locked (hpath : ∀ p q, T p q → (p = path ↔ q = path'))
    (hf : f.TrackedBy T T A f') : (Flow.locked path f).TrackedBy T T A (Flow.locked path' f') := by
  intro a b hab
  simp only [walk]
  by_cases ha : path ∈ a
  · by_cases hb : path' ∈ b
    · rw [if_pos ha, if_pos hb]
      exact hf a b hab
    · rw [if_pos ha, if_neg hb]
      -- A tracked lock would be held in the second walk as well.
      have hfree (p q) (hpq : T p q) : q ≠ path' := fun hq =>
        hb (hq ▸ hab p q hpq ((hpath p q hpq).2 hq ▸ ha))
      exact (hf _ _ hab.insert_right).releasing_right hfree
  · by_cases hb : path' ∈ b
    · rw [if_neg ha, if_pos hb]
      exact (hf _ _ (hab.insert_left fun p q hpq hp => (hpath p q hpq).1 hp ▸ hb)).releasing_left
    · rw [if_neg ha, if_neg hb]
      exact (hf _ _ (hab.insert hpath)).releasing hpath

/-- A lock that is not tracked may be held for a part of the first walk alone. -/
theorem TrackedBy.locked_left (hpath : ∀ p q, T p q → p ≠ path) (hf : f.TrackedBy T T A f') :
    (Flow.locked path f).TrackedBy T T A f' := by
  intro a b hab
  simp only [walk]
  split
  · exact hf a b hab
  · exact (hf _ _ (hab.insert_left fun p q hpq hp => absurd hp (hpath p q hpq))).releasing_left

/-- A flow tracks itself. -/
theorem trackedBy_self (hT : ∀ p q, T p q → p = q)
    (hA : ∀ x a b, HeldSet.TrackedBy T a b → A (x, a) (x, b)) (f : Flow) :
    f.TrackedBy T T A f := by
  have hpath (path p q : LockPath) (hpq : T p q) : p = path ↔ q = path := by rw [hT p q hpq]
  induction f with
  | access x => exact trackedBy_access (hA x)
  | change effect path => exact trackedBy_change (hpath path)
  | rebind place => exact trackedBy_rebind (fun _ _ hpq _ => hpq) fun p q hpq hr => hT p q hpq ▸ hr
  | leave e => exact trackedBy_leave e
  | never => exact trackedBy_never
  | seq f g ihf ihg => exact ihf.then ihg
  | either f g ihf ihg => exact ihf.either ihg
  | forever f ih => exact ih.forever
  | landing j f ih => exact ih.landing j
  | catching f g ihf ihg => exact ihf.catching ihg
  | finalized f g ihf ihg => exact ihf.finalized ihg
  | locked path f ih => exact ih.locked (hpath path)

end Flow

end LockDiscipline
