import LockDiscipline.Proofs.Held.Soundness
import Mathlib.Tactic.ByContra

/-! A walk loses no lock without an execution that loses it. The argument follows one lock: an
execution may hold other locks than the walk does, as long as it lacks this one where the walk does. -/

namespace LockDiscipline

namespace Exits

/-- Whether `runs`, executions with their accesses, endings and locks at the end, lack the lock at
`p` wherever `o` does: for each way out of `o` one is left that way, for each access one makes it. -/
structure Sharp (p : LockPath) (runs : List (Access × HeldSet) → Ending → HeldSet → Prop)
    (o : Exits) : Prop where
  exit : ∀ s, o.exit = some s → ∃ t d, runs t .done d ∧ (p ∈ d → p ∈ s)
  jumps : ∀ j, ∀ s ∈ o.jumps j, ∃ t d, runs t (.jump j) d ∧ (p ∈ d → p ∈ s)
  visits : ∀ v ∈ o.trace.accesses, ∃ t d s, runs t .raised d ∧ (v.1, s) ∈ t ∧ (p ∈ s → p ∈ v.2)
  lost : ¬ o.trace.Keeps p → ∃ t d, runs t .raised d ∧ p ∉ d

variable {p : LockPath} {o o' : Exits} {runs runs' : List (Access × HeldSet) → Ending → HeldSet → Prop}

/-- Executions that go on as others end, and with no other lock, are as sharp. -/
private theorem Sharp.imp (h : o.Sharp p runs)
    (himp : ∀ t e d, runs t e d → ∃ u d', runs' (u ++ t) e d' ∧ (p ∈ d' → p ∈ d)) :
    o.Sharp p runs' where
  exit s hs := by
    obtain ⟨t, d, hr, hp⟩ := h.exit s hs
    obtain ⟨u, d', hu, hd⟩ := himp t _ d hr
    exact ⟨u ++ t, d', hu, fun h => hp (hd h)⟩
  jumps j s hs := by
    obtain ⟨t, d, hr, hp⟩ := h.jumps j s hs
    obtain ⟨u, d', hu, hd⟩ := himp t _ d hr
    exact ⟨u ++ t, d', hu, fun h => hp (hd h)⟩
  visits v hv := by
    obtain ⟨t, d, s, hr, hs, hp⟩ := h.visits v hv
    obtain ⟨u, d', hu, _⟩ := himp t _ d hr
    exact ⟨u ++ t, d', s, hu, List.mem_append_right _ hs, hp⟩
  lost hk := by
    obtain ⟨t, d, hr, hp⟩ := h.lost hk
    obtain ⟨u, d', hu, hd⟩ := himp t _ d hr
    exact ⟨u ++ t, d', hu, fun h => hp (hd h)⟩

/-- Executions that free a lock at their end are as sharp as a walk that frees it. -/
private theorem Sharp.releasing {path : LockPath} (h : o.Sharp p runs)
    (himp : ∀ t e d, runs t e d → ∃ d', runs' t e d' ∧ (p ∈ d' → p ∈ d ∧ p ≠ path)) :
    (o.releasing path).Sharp p runs' where
  exit s hs := by
    obtain ⟨a, ha, rfl⟩ := Option.map_eq_some_iff.1 hs
    obtain ⟨t, d, hr, hp⟩ := h.exit a ha
    obtain ⟨d', hu, hd⟩ := himp t _ d hr
    exact ⟨t, d', hu, fun h => OrderedSet.mem_erase.2 ⟨hp (hd h).1, (hd h).2⟩⟩
  jumps j s hs := by
    obtain ⟨a, ha, rfl⟩ := List.mem_map.1 hs
    obtain ⟨t, d, hr, hp⟩ := h.jumps j a ha
    obtain ⟨d', hu, hd⟩ := himp t _ d hr
    exact ⟨t, d', hu, fun h => OrderedSet.mem_erase.2 ⟨hp (hd h).1, (hd h).2⟩⟩
  visits v hv := by
    obtain ⟨t, d, s, hr, hs, hp⟩ := h.visits v hv
    obtain ⟨d', hu, _⟩ := himp t _ d hr
    exact ⟨t, d', s, hu, hs, hp⟩
  lost hk := by
    obtain ⟨t, d, hr, hp⟩ := h.lost hk
    obtain ⟨d', hu, hd⟩ := himp t _ d hr
    exact ⟨t, d', hu, fun h => hp (hd h).1⟩

/-- Without its end, a flow is left by the executions that do not come to it. -/
private theorem Sharp.leaving (h : o.Sharp p runs)
    (himp : ∀ t e d, e ≠ .done → runs t e d → ∃ u, runs' (u ++ t) e d) :
    ({ o with exit := none } : Exits).Sharp p runs' := by
  have h' : ({ o with exit := none } : Exits).Sharp p fun t e d => e ≠ .done ∧ runs t e d := by
    refine ⟨nofun, fun j s hs => ?_, fun v hv => ?_, fun hk => ?_⟩
    · obtain ⟨t, d, hr, hp⟩ := h.jumps j s hs
      exact ⟨t, d, ⟨nofun, hr⟩, hp⟩
    · obtain ⟨t, d, s, hr, hs⟩ := h.visits v hv
      exact ⟨t, d, s, ⟨nofun, hr⟩, hs⟩
    · obtain ⟨t, d, hr, hp⟩ := h.lost hk
      exact ⟨t, d, ⟨nofun, hr⟩, hp⟩
  refine h'.imp fun t e d hr => ?_
  obtain ⟨u, hu⟩ := himp t e d hr.1 hr.2
  exact ⟨u, d, hu, id⟩

/-- Where two arms join, each of them lacks what the join lacks or the other one does. -/
private theorem Sharp.orElse (h : o.Sharp p runs) (h' : o'.Sharp p runs) :
    (o.orElse o').Sharp p runs where
  exit s hs := by
    obtain ⟨a, ha | ha, hp⟩ := FlowState.exists_of_join hs p
    · obtain ⟨t, d, hr, hd⟩ := h.exit a ha
      exact ⟨t, d, hr, fun h => hp (hd h)⟩
    · obtain ⟨t, d, hr, hd⟩ := h'.exit a ha
      exact ⟨t, d, hr, fun h => hp (hd h)⟩
  jumps j s hs := by
    rcases List.mem_append.1 hs with hs | hs
    · exact h.jumps j s hs
    · exact h'.jumps j s hs
  visits v hv := by
    rcases List.mem_append.1 hv with hv | hv
    · exact h.visits v hv
    · exact h'.visits v hv
  lost hk := by
    by_cases hko : o.trace.Keeps p
    · exact h'.lost fun hko' => hk (Trace.keeps_append.2 ⟨hko, hko'⟩)
    · exact h.lost hko

/-- Each way out is left by an execution. -/
theorem Sharp.waysOut (h : o.Sharp p runs) : ∀ s ∈ o.waysOut, ∃ t e d, runs t e d ∧
    (p ∈ d → p ∈ s) := by
  intro s hs
  rcases mem_waysOut.1 hs with ⟨j, hs⟩ | hs
  · obtain ⟨t, d, hr, hp⟩ := h.jumps j s hs
    exact ⟨t, .jump j, d, hr, hp⟩
  · obtain ⟨t, d, hr, hp⟩ := h.exit s hs
    exact ⟨t, .done, d, hr, hp⟩

/-- An exception reaches the handler with none but the locks that were kept. -/
theorem Sharp.floor {held c : HeldSet} (h : o.Sharp p runs) (hc : p ∈ c → p ∈ held)
    (hstart : runs [] .raised c) :
    ∃ t d, runs t .raised d ∧ (p ∈ d → p ∈ o.trace.floor held) := by
  by_cases hk : o.trace.Keeps p
  · exact ⟨[], c, hstart, fun hp => Trace.mem_floor.2 ⟨hc hp, hk⟩⟩
  · obtain ⟨t, d, hr, hp⟩ := h.lost hk
    exact ⟨t, d, hr, fun hd => absurd hd hp⟩

/-- A finalizer is entered with none but the locks that its entry has. -/
theorem Sharp.finalizerEntry {held c : HeldSet} (h : o.Sharp p runs) (hc : p ∈ c → p ∈ held)
    (hstart : runs [] .raised c) :
    ∃ t e d, runs t e d ∧ (p ∈ d → p ∈ o.finalizerEntry held) := by
  obtain ⟨t, d, hr, hfloor⟩ := h.floor hc hstart
  by_cases hx : o.exit.Holds p
  · refine ⟨t, .raised, d, hr, fun hp => ?_⟩
    obtain ⟨hh, hk⟩ := Trace.mem_floor.1 (hfloor hp)
    exact mem_finalizerEntry.2 ⟨hx, hh, hk⟩
  · cases he : o.exit with
    | none =>
      rw [he] at hx
      exact absurd trivial hx
    | some s =>
      rw [he] at hx
      obtain ⟨t, d, hr, hp⟩ := h.exit s he
      exact ⟨t, .done, d, hr, fun hd => absurd (hp hd) hx⟩

end Exits

namespace Flow

variable {f g : Flow} {held c b d : HeldSet} {p : LockPath} {t u : List (Access × HeldSet)}
  {e : Ending}

open Exits Relation

/-- A lock that the stable head lacks is lost in some rounds, if it is held at all. -/
theorem exists_rounds (hf : ∀ s, (p ∈ c → p ∈ s) → (f.walk s).Sharp p (Path false f c))
    (hc : p ∈ c → p ∈ held) :
    ∃ b, ReflTransGen (Round false f) c b ∧ (p ∈ b → p ∈ stableHead f.walk held) := by
  by_cases hround : ∃ b, Round false f c b ∧ p ∉ b
  · -- One round that loses the lock is enough: from there on it is not followed.
    obtain ⟨b, hb, hp⟩ := hround
    exact ⟨b, .single hb, fun hin => absurd hin hp⟩
  · refine ⟨c, .refl, fun hp => stableHead_induction (P := (p ∈ ·)) (fun s hs => ?_) (hc hp)⟩
    refine mem_nextHead.2 ⟨hs, ?_⟩
    cases hx : (f.walk s).exit with
    | none => trivial
    | some back =>
      obtain ⟨t, b, hr, hb⟩ := (hf s fun _ => hs).exit back hx
      by_contra hback
      exact hround ⟨b, ⟨t, hr⟩, fun hin => hback (hb hin)⟩

/-- A lock that the passes through a loop do not keep is lost before an exception leaves it. -/
private theorem lost_passes (hf : ∀ s, (p ∈ c → p ∈ s) → (f.walk s).Sharp p (Path false f c))
    (hc : p ∈ c → p ∈ held) (hk : ¬ (passes f.walk held).Keeps p) :
    ∃ t d, Path false (forever f) c t .raised d ∧ p ∉ d := by
  by_contra hnone
  have hin : p ∈ c := by
    by_contra hout
    exact hnone ⟨[], c, .raiseFirst, hout⟩
  have hkept (s : HeldSet) (hs : p ∈ s) : (f.walk s).trace.Keeps p := by
    by_contra hlost
    obtain ⟨t, d, hr, hd⟩ := (hf s fun _ => hs).lost hlost
    exact hnone ⟨t, d, .foreverLeft hr nofun, hd⟩
  have hback (s : HeldSet) (hs : p ∈ s) : p ∈ nextHead f.walk s := by
    refine mem_nextHead.2 ⟨hs, ?_⟩
    cases hx : (f.walk s).exit with
    | none => trivial
    | some back =>
      obtain ⟨t, d, hr, hd⟩ := (hf s fun _ => hs).exit back hx
      by_contra hback
      exact hnone ⟨t ++ [], d, .again hr .raiseFirst, fun h => hback (hd h)⟩
  exact hk (keeps_passes (P := (p ∈ ·)) hkept hback (hc hin))

private theorem sharp_seq (hf : (f.walk held).Sharp p (Path false f c))
    (hg : ∀ s b, (p ∈ b → p ∈ s) → (g.walk s).Sharp p (Path false g b)) :
    ((seq f g).walk held).Sharp p (Path false (seq f g) c) := by
  have hleft : ({ f.walk held with exit := none } : Exits).Sharp p (Path false (seq f g) c) :=
    hf.leaving fun t e d hne hr => ⟨[], .seqLeft hr hne⟩
  cases hx : (f.walk held).exit with
  | none =>
    rw [← hx] at hleft
    simp only [walk, andThen, hx]
    exact hleft
  | some next =>
    obtain ⟨t, b, hr, hb⟩ := hf.exit next hx
    have hright : (g.walk next).Sharp p (Path false (seq f g) c) :=
      (hg next b hb).imp fun u e d hu => ⟨t, d, .seq hr hu, id⟩
    simp only [walk, andThen, hx]
    exact hleft.orElse hright

private theorem sharp_forever (hf : ∀ s b, (p ∈ b → p ∈ s) → (f.walk s).Sharp p (Path false f b))
    (hc : p ∈ c → p ∈ held) : ((forever f).walk held).Sharp p (Path false (forever f) c) := by
  have hpasses : ({ exit := none, trace := passes f.walk held } : Exits).Sharp p
      (Path false (forever f) c) := by
    refine ⟨fun s hs => (by cases hs), fun j s hs => (by cases hs), fun v hv => ?_, fun hk => ?_⟩
    · rw [accesses_passes] at hv
      cases hv
    · exact lost_passes (fun s hs => hf s c hs) hc hk
  obtain ⟨b, hrounds, hb⟩ := exists_rounds (fun s hs => hf s c hs) hc
  have hlast := (hf _ b hb).leaving fun t e d hne hr =>
    Path.after_rounds hrounds (.foreverLeft hr hne)
  exact hpasses.orElse hlast

private theorem sharp_landing {j : Jump} (hf : (f.walk held).Sharp p (Path false f c)) :
    ((landing j f).walk held).Sharp p (Path false (landing j f) c) where
  exit s hs := by
    obtain ⟨a, ha | ha, hp⟩ := FlowState.exists_of_joinAll hs p
    · obtain ⟨t, d, hr, hd⟩ := hf.exit a ha
      exact ⟨t, d, .passesBy hr nofun, fun h => hp (hd h)⟩
    · obtain ⟨t, d, hr, hd⟩ := hf.jumps j a ha
      exact ⟨t, d, .lands hr, fun h => hp (hd h)⟩
  jumps k s hs := by
    obtain ⟨hkj, hs⟩ := mem_jumps_landing.1 hs
    obtain ⟨t, d, hr, hp⟩ := hf.jumps k s hs
    exact ⟨t, d, .passesBy hr fun he => hkj (Ending.jump.inj he), hp⟩
  visits v hv := by
    obtain ⟨t, d, s, hr, hs, hp⟩ := hf.visits v hv
    exact ⟨t, d, s, .passesBy hr nofun, hs, hp⟩
  lost hk := by
    obtain ⟨t, d, hr, hp⟩ := hf.lost hk
    exact ⟨t, d, .passesBy hr nofun, hp⟩

private theorem Path.raised_finalized {t u : List (Access × HeldSet)} {e : Ending} {b d : HeldSet}
    (hf : Path false f c t e b) (hg : Path false g b u .raised d) :
    Path false (.finalized f g) c (t ++ u) .raised d :=
  .overridden hf hg nofun nofun

private theorem sharp_finalized (hf : (f.walk held).Sharp p (Path false f c))
    (hg : ∀ s b, (p ∈ b → p ∈ s) → (g.walk s).Sharp p (Path false g b))
    (hc : p ∈ c → p ∈ held) :
    ((finalized f g).walk held).Sharp p (Path false (finalized f g) c) where
  exit s hs := by
    obtain ⟨a, ha, hs⟩ := Option.bind_eq_some_iff.1 hs
    obtain ⟨t, b, hr, hb⟩ := hf.exit a ha
    obtain ⟨u, d, hu, hp⟩ := (hg a b hb).exit s hs
    exact ⟨t ++ u, d, .finalized hr hu, hp⟩
  jumps j s hs := by
    obtain ⟨a, ha, hs⟩ := List.mem_filterMap.1 hs
    obtain ⟨t, b, hr, hb⟩ := hf.jumps j a ha
    obtain ⟨u, d, hu, hp⟩ := (hg a b hb).exit s hs
    exact ⟨t ++ u, d, .finalized hr hu, hp⟩
  visits v hv := by
    simp only [walk, finalizing, Trace.accesses_append, List.mem_append, accesses_replays] at hv
    rcases hv with hv | hv | hv
    · obtain ⟨t, b, s, hr, hs, hp⟩ := hf.visits v hv
      exact ⟨t ++ [], b, s, .raised_finalized hr .raiseFirst, List.mem_append_left _ hs, hp⟩
    · obtain ⟨t, e, b, hr, hb⟩ := hf.finalizerEntry hc .raiseFirst
      obtain ⟨u, d, s, hu, hs, hp⟩ := (hg _ b hb).visits v hv
      exact ⟨t ++ u, d, s, .raised_finalized hr hu, List.mem_append_right _ hs, hp⟩
    · cases hv
  lost hk := by
    simp only [walk, finalizing, Trace.keeps_append, keeps_replays, Classical.not_and_iff_not_or_not,
      Classical.not_forall] at hk
    rcases hk with hk | hk | ⟨s, hs, hk⟩
    · obtain ⟨t, b, hr, hb⟩ := hf.lost hk
      exact ⟨t ++ [], b, .raised_finalized hr .raiseFirst, hb⟩
    · obtain ⟨t, e, b, hr, hb⟩ := hf.finalizerEntry hc .raiseFirst
      obtain ⟨u, d, hu, hd⟩ := (hg _ b hb).lost hk
      exact ⟨t ++ u, d, .raised_finalized hr hu, hd⟩
    · obtain ⟨t, e, b, hr, hb⟩ := hf.waysOut s hs
      obtain ⟨u, d, hu, hd⟩ := (hg s b hb).lost hk
      exact ⟨t ++ u, d, .raised_finalized hr hu, hd⟩

private theorem sharp_locked {path : LockPath}
    (hf : ∀ s b, (p ∈ b → p ∈ s) → (f.walk s).Sharp p (Path false f b)) (hc : p ∈ c → p ∈ held) :
    ((locked path f).walk held).Sharp p (Path false (locked path f) c) := by
  have hfree (s : HeldSet) (hs : path ∈ s) (hin : p ∈ held → p ∈ s) : p ∈ c.insert path → p ∈ s := by
    intro hp
    rcases OrderedSet.mem_insert.1 hp with rfl | hp
    · exact hs
    · exact hin (hc hp)
  rw [walk]
  split
  · next hin =>
    by_cases hcp : path ∈ c
    · exact (hf held c hc).imp fun t e d hr => ⟨[], d, .lockedHeld hcp hr, id⟩
    · refine (hf held _ (hfree held hin id)).imp fun t e d hr => ?_
      exact ⟨[], d.erase path, .lockedFree hcp hr, fun hd => (OrderedSet.mem_erase.1 hd).1⟩
  · next hout =>
    have hinsert : p ∈ held → p ∈ held.insert path := fun hp => OrderedSet.mem_insert.2 (.inr hp)
    by_cases hcp : path ∈ c
    · refine (hf _ c fun hp => hinsert (hc hp)).releasing fun t e d hr => ?_
      -- The execution keeps this lock and the walk frees it, so it is not the one that is followed.
      exact ⟨d, .lockedHeld hcp hr, fun hd => ⟨hd, fun he => hout (he ▸ hc (he ▸ hcp))⟩⟩
    · have hstart := hfree _ (OrderedSet.mem_insert.2 (.inl rfl)) hinsert
      refine (hf _ _ hstart).releasing fun t e d hr => ?_
      exact ⟨d.erase path, .lockedFree hcp hr, OrderedSet.mem_erase.1⟩

/-- Where a walk lacks a lock, some execution does that starts without it if the walk does. -/
theorem walk_sharp (f : Flow) : ∀ held c : HeldSet, (p ∈ c → p ∈ held) →
    (f.walk held).Sharp p (Path false f c) := by
  induction f with
  | access a =>
    intro held c hc
    refine ⟨fun s hs => ?_, fun j s hs => (by cases hs), fun v hv => ?_, fun hk => absurd trivial hk⟩
    · obtain rfl := Option.some.inj hs
      exact ⟨[(a, c)], c, .access, hc⟩
    · obtain rfl := List.mem_singleton.1 hv
      exact ⟨[(a, c)], c, c, .raiseLast .access, List.mem_singleton_self _, hc⟩
  | change effect path =>
    intro held c hc
    have happly : p ∈ effect.apply path c → p ∈ effect.apply path held := by
      cases effect with
      | acquire =>
        intro hp
        rcases OrderedSet.mem_insert.1 hp with rfl | hp
        · exact OrderedSet.mem_insert.2 (.inl rfl)
        · exact OrderedSet.mem_insert.2 (.inr (hc hp))
      | release =>
        intro hp
        obtain ⟨hin, hne⟩ := OrderedSet.mem_erase.1 hp
        exact OrderedSet.mem_erase.2 ⟨hc hin, hne⟩
    refine ⟨fun s hs => ?_, fun j s hs => (by cases hs), fun v hv => (by cases hv), fun hk => ?_⟩
    · obtain rfl := Option.some.inj hs
      exact ⟨[], _, .change, happly⟩
    · exact ⟨[], _, .raiseLast .change, fun hp => hk (happly hp)⟩
  | rebind place =>
    intro held c hc
    have hinvalidate : p ∈ c.invalidate place → p ∈ held.invalidate place := by
      intro hp
      obtain ⟨hin, hr⟩ := HeldSet.mem_invalidate.1 hp
      exact HeldSet.mem_invalidate.2 ⟨hc hin, hr⟩
    refine ⟨fun s hs => ?_, fun j s hs => (by cases hs), fun v hv => ?_, fun hk => ?_⟩
    · obtain rfl := Option.some.inj hs
      rw [Evaluated.held_rebind]
      exact ⟨[], _, .rebind, hinvalidate⟩
    · rw [walk, ofEvaluated, Evaluated.accesses_rebind] at hv
      cases hv
    · by_cases hp : p ∈ held
      · exact ⟨[], _, .raiseLast .rebind, fun h => hk ((Evaluated.keeps_rebind hp).2 (hinvalidate h))⟩
      · exact ⟨[], c, .raiseFirst, fun h => hp (hc h)⟩
  | leave e =>
    intro held c hc
    cases e with
    | done =>
      refine ⟨fun s hs => ?_, nofun, nofun, fun hk => absurd trivial hk⟩
      obtain rfl := Option.some.inj hs
      exact ⟨[], c, .leave, hc⟩
    | jump j =>
      refine ⟨nofun, fun k s hs => ?_, nofun, fun hk => absurd trivial hk⟩
      obtain ⟨rfl, rfl⟩ := mem_jumps_leave.1 hs
      exact ⟨[], c, .leave, hc⟩
    | returned => exact ⟨nofun, nofun, nofun, fun hk => absurd trivial hk⟩
    | raised => exact ⟨nofun, nofun, nofun, fun hk => absurd trivial hk⟩
  | never =>
    intro held c hc
    exact ⟨nofun, nofun, nofun, fun hk => absurd trivial hk⟩
  | seq f g ihf ihg =>
    intro held c hc
    exact sharp_seq (ihf held c hc) ihg
  | either f g ihf ihg =>
    intro held c hc
    have hf := (ihf held c hc).imp fun t e d hr => ⟨[], d, Path.left (g := g) hr, id⟩
    have hg := (ihg held c hc).imp fun t e d hr => ⟨[], d, Path.right (f := f) hr, id⟩
    exact hf.orElse hg
  | forever f ih =>
    intro held c hc
    exact sharp_forever ih hc
  | landing j f ih =>
    intro held c hc
    exact sharp_landing (ih held c hc)
  | catching f g ihf ihg =>
    intro held c hc
    have hf := ihf held c hc
    obtain ⟨t, b, hr, hb⟩ := hf.floor hc .raiseFirst
    have hbody := hf.imp fun t e d hr => ⟨[], d, Path.uncaught (g := g) hr, id⟩
    have hhandler := (ihg _ b hb).imp fun u e d hu => ⟨t, d, Path.caught hr hu, id⟩
    exact hbody.orElse hhandler
  | finalized f g ihf ihg =>
    intro held c hc
    exact sharp_finalized (ihf held c hc) ihg hc
  | locked path f ih =>
    intro held c hc
    exact sharp_locked ih hc

/-- The point after a flow is reached with locks of `s` only exactly when some execution comes there,
and one comes there without each lock that `s` lacks. -/
theorem exists_exit_subset_iff {s : HeldSet} :
    (∃ a, (f.walk held).exit = some a ∧ a ⊆ s) ↔
      (∃ t d, Path false f held t .done d) ∧
        ∀ p, p ∉ s → ∃ t d, Path false f held t .done d ∧ p ∉ d := by
  constructor
  · rintro ⟨a, ha, hsub⟩
    have hlack (p : LockPath) := (f.walk_sharp (p := p) held held id).exit a ha
    constructor
    · obtain ⟨t, d, hr, _⟩ := hlack default
      exact ⟨t, d, hr⟩
    · intro p hp
      obtain ⟨t, d, hr, hd⟩ := hlack p
      exact ⟨t, d, hr, fun h => hp (hsub p (hd h))⟩
  · rintro ⟨⟨t, d, hr⟩, hlack⟩
    obtain ⟨a, ha, _⟩ := (hr.covers held (OrderedSet.Subset.refl held)).ends
    refine ⟨a, ha, fun p hp => ?_⟩
    by_contra hs
    obtain ⟨t', d', hr', hd'⟩ := hlack p hs
    obtain ⟨a', ha', hsub⟩ := (hr'.covers held (OrderedSet.Subset.refl held)).ends
    rw [ha] at ha'
    obtain rfl := Option.some.inj ha'
    exact hd' (hsub p hp)

/-- The stable head lies below each head that executions come to. -/
theorem stableHead_subset_of_rounds (hr : ReflTransGen (Round false f) held b) :
    stableHead f.walk held ⊆ b := by
  induction hr with
  | refl => exact stableHead_subset f.walk held
  | tail _ hround ih =>
    obtain ⟨t, hround⟩ := hround
    obtain ⟨a, ha, hsub⟩ := (hround.covers _ ih).ends
    intro p hp
    have hin := holds_exit_stableHead hp
    rw [ha] at hin
    exact hsub p hin

/-- The stable head has locks of `s` only exactly when executions come to the head without each lock
that `s` lacks. -/
theorem stableHead_subset_iff {s : HeldSet} :
    stableHead f.walk held ⊆ s ↔
      ∀ p, p ∉ s → ∃ b, ReflTransGen (Round false f) held b ∧ p ∉ b := by
  constructor
  · intro hsub p hp
    obtain ⟨b, hr, hb⟩ := exists_rounds (fun a ha => f.walk_sharp a held ha) (p := p) id
    exact ⟨b, hr, fun h => hp (hsub p (hb h))⟩
  · intro hlack p hp
    by_contra hs
    obtain ⟨b, hr, hb⟩ := hlack p hs
    exact hb (stableHead_subset_of_rounds hr p hp)

end Flow

namespace WalkContext

/-- Precision of the walk of a body: a lock that it reports as free at an access is free there on an
execution from the same start, one that it lacks at the end is free at the end of an execution, and
where it does not come to the end no execution does. -/
theorem walk_precise (w : WalkContext) {σ : BodyScope} {body : List Stmt} (entry : HeldSet)
    (hbody : Stmt.allLoopsClosed body = true) :
    (∀ v ∈ (w.walk σ body entry).trace.accesses, ∀ p, p ∉ v.2 →
      ∃ t d s, (w.bodyFlow σ body).Path false entry t .raised d ∧ (v.1, s) ∈ t ∧ p ∉ s) ∧
    (∀ s, (w.walk σ body entry).exit = some s → ∀ p, p ∉ s →
      ∃ t d, (w.bodyFlow σ body).Path false entry t .done d ∧ p ∉ d) ∧
    ((w.walk σ body entry).exit = none →
      ∀ t d, ¬ (w.bodyFlow σ body).Path false entry t .done d) := by
  have hwalk := w.walk_bodyFlow entry hbody (σ := σ)
  have hexit : (w.walk σ body entry).exit = ((w.bodyFlow σ body).walk entry).exit :=
    congrArg Exits.exit hwalk
  have htrace : (w.walk σ body entry).trace = ((w.bodyFlow σ body).walk entry).trace :=
    congrArg Exits.trace hwalk
  have hsharp (p : LockPath) := (w.bodyFlow σ body).walk_sharp (p := p) entry entry id
  rw [hexit, htrace]
  refine ⟨fun v hv p hp => ?_, fun s hs p hp => ?_, fun hnone t d hpath => ?_⟩
  · obtain ⟨t, d, s, hr, hin, hs⟩ := (hsharp p).visits v hv
    exact ⟨t, d, s, hr, hin, fun h => hp (hs h)⟩
  · obtain ⟨t, d, hr, hd⟩ := (hsharp p).exit s hs
    exact ⟨t, d, hr, fun h => hp (hd h)⟩
  · obtain ⟨s, hs, _⟩ := (hpath.covers entry (OrderedSet.Subset.refl entry)).ends
    rw [hnone] at hs
    cases hs

theorem walk_precise_lockIf : ∃ t d,
    (Counter.context.bodyFlow Counter.scope Counter.lockIf).Path false ∅ t .done d ∧
      Counter.lock ∉ d :=
  (Counter.context.walk_precise ∅ (by decide)).2.1 ∅ (by cbv) Counter.lock (by decide)

end WalkContext

end LockDiscipline
