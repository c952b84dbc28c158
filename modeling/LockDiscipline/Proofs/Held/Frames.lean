import LockDiscipline.Proofs.Held.BodyWalk

/-! The jumps that wait for the end of a loop or of a `switch`. Each of these is a frame around the
code in it. A jump out of a part of a body is recorded in the frame that it is meant for, behind those
recorded before, and what a construct does on its ways out is done to the jumps recorded since it was
entered. -/

namespace LockDiscipline

/-- The states of jumps of each kind. -/
abbrev Jumps := Jump → List HeldSet

/-- A loop or a `switch` around a point, with the jumps to it. -/
@[ext]
structure JumpFrame where
  isLoop : Bool
  jumps : Jumps

namespace JumpFrame

/-- A `break` leaves the loop or `switch` around it; a `continue` passes a `switch` by. -/
def takes (f : JumpFrame) : Jump → Bool
  | .breakOut => true
  | .continueLoop => f.isLoop

/-- Records the jumps that the frame takes. -/
def add (f : JumpFrame) (jumps : Jumps) : JumpFrame :=
  { f with jumps := fun j => f.jumps j ++ if f.takes j then jumps j else [] }

/-- The jumps that the frame leaves to those around it. -/
def pass (f : JumpFrame) (jumps : Jumps) : Jumps := fun j => if f.takes j then [] else jumps j

/-- How many jumps of each kind are recorded. -/
def mark (f : JumpFrame) (j : Jump) : Nat := (f.jumps j).length

/-- The frame with the first jumps only, as many as the mark says. -/
def upTo (mark : Jump → Nat) (f : JumpFrame) : JumpFrame :=
  { f with jumps := fun j => (f.jumps j).take (mark j) }

/-- The jumps recorded behind the mark. -/
def since (mark : Jump → Nat) (f : JumpFrame) (j : Jump) : List HeldSet :=
  (f.jumps j).drop (mark j)

/-- Passes the jumps recorded behind the mark through `exit`; those that do not come out are gone. -/
def rewriteSince (exit : HeldSet → FlowState) (mark : Jump → Nat) (f : JumpFrame) : JumpFrame :=
  { f with jumps := fun j => (f.jumps j).take (mark j) ++ (f.since mark j).filterMap exit }

variable {f : JumpFrame} {jumps : Jumps} {j : Jump}

theorem takes_add : (f.add jumps).takes j = f.takes j := by
  cases j <;> rfl

theorem upTo_add : (f.add jumps).upTo f.mark = f := by
  ext1
  · rfl
  · funext j
    exact List.take_left

theorem since_add : (f.add jumps).since f.mark j = if f.takes j then jumps j else [] :=
  List.drop_left

theorem rewriteSince_add {exit : HeldSet → FlowState} :
    (f.add jumps).rewriteSince exit f.mark = f.add fun j => (jumps j).filterMap exit := by
  ext1
  · rfl
  · funext j
    have hbefore : ((f.add jumps).jumps j).take (f.mark j) = f.jumps j := List.take_left
    change ((f.add jumps).jumps j).take (f.mark j) ++
      ((f.add jumps).since f.mark j).filterMap exit = f.jumps j ++ _
    rw [hbefore, since_add]
    cases f.takes j <;> rfl

theorem add_append {jumps' : Jumps} :
    f.add (fun j => jumps j ++ jumps' j) = (f.add jumps).add jumps' := by
  ext1
  · rfl
  · funext j
    change f.jumps j ++ _ = (f.jumps j ++ _) ++ ite ((f.add jumps).takes j) _ _
    rw [takes_add, List.append_assoc]
    cases f.takes j <;> rfl

theorem pass_append {jumps' : Jumps} :
    f.pass (fun j => jumps j ++ jumps' j) = fun j => f.pass jumps j ++ f.pass jumps' j := by
  funext j
  simp only [pass]
  cases f.takes j <;> rfl

theorem pass_add {jumps' : Jumps} : (f.add jumps).pass jumps' = f.pass jumps' := by
  funext j
  rw [pass, pass, takes_add]

theorem pass_filterMap {exit : HeldSet → FlowState} :
    f.pass (fun j => (jumps j).filterMap exit) = fun j => (f.pass jumps j).filterMap exit := by
  funext j
  simp only [pass]
  cases f.takes j <;> rfl

theorem add_nothing : f.add (fun _ => []) = f := by
  ext1
  · rfl
  · funext j
    change f.jumps j ++ _ = f.jumps j
    rw [ite_self, List.append_nil]

theorem pass_nothing : f.pass (fun _ => []) = fun _ => [] := by
  funext j
  rw [pass, ite_self]

end JumpFrame

/-- The frames around a point, innermost first. -/
abbrev Frames := List JumpFrame

namespace Frames

/-- Records jumps: each goes to the innermost frame that takes its kind, and nowhere if there is
none. -/
def record (jumps : Jumps) : Frames → Frames
  | [] => []
  | f :: rest => f.add jumps :: record (f.pass jumps) rest

/-- The frames in a loop or a `switch` that is entered. -/
def enter (isLoop : Bool) (frames : Frames) : Frames := ⟨isLoop, fun _ => []⟩ :: frames

/-- The frame that a jump is meant for. -/
def target? (j : Jump) (frames : Frames) : Option JumpFrame := frames.find? (·.takes j)

/-- How many jumps are recorded in each frame. -/
def marks (frames : Frames) : List (Jump → Nat) := frames.map JumpFrame.mark

def upTo (marks : List (Jump → Nat)) (frames : Frames) : Frames :=
  List.zipWith JumpFrame.upTo marks frames

/-- The states of all jumps recorded behind the marks. -/
def since (marks : List (Jump → Nat)) (frames : Frames) : List HeldSet :=
  (List.zipWith (fun mark f => f.since mark .breakOut ++ f.since mark .continueLoop) marks
    frames).flatten

def rewriteSince (exit : HeldSet → FlowState) (marks : List (Jump → Nat)) (frames : Frames) :
    Frames :=
  List.zipWith (JumpFrame.rewriteSince exit) marks frames

variable {jumps jumps' : Jumps} {frames : Frames} {j : Jump}

theorem record_append :
    record (fun j => jumps j ++ jumps' j) frames = record jumps' (record jumps frames) := by
  induction frames generalizing jumps jumps' with
  | nil => rfl
  | cons f rest ih =>
    rw [record, record, record, JumpFrame.add_append, JumpFrame.pass_append, JumpFrame.pass_add, ih]

theorem record_nothing : record (fun _ => []) frames = frames := by
  induction frames with
  | nil => rfl
  | cons f rest ih => rw [record, JumpFrame.add_nothing, JumpFrame.pass_nothing, ih]

theorem record_enter {isLoop : Bool} : record jumps (frames.enter isLoop) =
    let f : JumpFrame := ⟨isLoop, fun _ => []⟩
    ⟨isLoop, fun j => if f.takes j then jumps j else []⟩ :: record (f.pass jumps) frames := rfl

/-- A jump comes to the frame that it is meant for, behind those that were there. -/
theorem target?_record : (target? j (record jumps frames)).map (·.jumps j) =
    (target? j frames).map fun f => f.jumps j ++ jumps j := by
  induction frames generalizing jumps with
  | nil => rfl
  | cons f rest ih =>
    rw [record, target?, target?, List.find?_cons, List.find?_cons, JumpFrame.takes_add]
    cases h : f.takes j with
    | true => simp [JumpFrame.add, h]
    | false => simpa [target?, JumpFrame.pass, h] using @ih (f.pass jumps)

/-- What was recorded before stays as it was. -/
theorem upTo_record : (record jumps frames).upTo frames.marks = frames := by
  induction frames generalizing jumps with
  | nil => rfl
  | cons f rest ih => exact List.cons_eq_cons.2 ⟨JumpFrame.upTo_add, ih⟩

/-- What is done to the jumps recorded since is done to these jumps alone. -/
theorem rewriteSince_record {exit : HeldSet → FlowState} :
    (record jumps frames).rewriteSince exit frames.marks =
      record (fun j => (jumps j).filterMap exit) frames := by
  induction frames generalizing jumps with
  | nil => rfl
  | cons f rest ih =>
    rw [record, record, JumpFrame.pass_filterMap, ← ih]
    exact List.cons_eq_cons.2 ⟨JumpFrame.rewriteSince_add, rfl⟩

/-- The jumps recorded since are the recorded ones. -/
theorem mem_of_mem_since {s : HeldSet} (h : s ∈ (record jumps frames).since frames.marks) :
    ∃ j, s ∈ jumps j := by
  induction frames generalizing jumps with
  | nil => cases h
  | cons f rest ih =>
    have hfirst {j : Jump} (h : s ∈ (f.add jumps).since f.mark j) : s ∈ jumps j := by
      rw [JumpFrame.since_add] at h
      split at h
      · exact h
      · cases h
    rcases List.mem_append.1 h with h | h
    · rcases List.mem_append.1 h with h | h
      · exact ⟨_, hfirst h⟩
      · exact ⟨_, hfirst h⟩
    · obtain ⟨j, hj⟩ := ih h
      refine ⟨j, ?_⟩
      rw [JumpFrame.pass] at hj
      split at hj
      · cases hj
      · exact hj

end Frames

end LockDiscipline
