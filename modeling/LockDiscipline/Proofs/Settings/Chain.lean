import LockDiscipline.Lint.Discovery
import Mathlib.Data.List.Nodup

/-! Chains of documents that extend one another. A chain is read to its end, each document once, and
reading is refused where the chain comes to a place that was visited. -/

namespace LockDiscipline

namespace World

/-- `w.Reads p l found`: the path `p` leads to a file at `l`, and `found` are the settings in it. -/
def Reads (w : World) (p : FilePath) (l : FilePlace) (found : Option LintDocument) : Prop :=
  w.place p = l ∧ ∃ text, w.read p = .ok text ∧ w.document p text = .ok found

/-- `w.Chain p places docs`: the document at `p` and those that it extends, the last one extending
none. A file without settings ends a chain, too. -/
inductive Chain (w : World) : FilePath → List FilePlace → List LintDocument → Prop
  | blank {p l} : w.Reads p l none → Chain w p [l] []
  | last {p l doc} : w.Reads p l (some doc) → doc.base = none → Chain w p [l] [doc]
  | next {p l doc base places docs} :
      w.Reads p l (some doc) → doc.base = some base → Chain w (p.sibling ⟨base⟩) places docs →
        Chain w p (l :: places) (doc :: docs)

/-- `w.Follows p passed q`: from the document at `p` one comes to the path `q` over the documents at
the places `passed`, each of which extends the next. -/
inductive Follows (w : World) : FilePath → List FilePlace → FilePath → Prop
  | here {p} : Follows w p [] p
  | next {p l doc base passed q} :
      w.Reads p l (some doc) → doc.base = some base → Follows w (p.sibling ⟨base⟩) passed q →
        Follows w p (l :: passed) q

/-- No place comes twice or was visited. -/
def New (visited places : List FilePlace) : Prop :=
  places.Nodup ∧ ∀ l ∈ places, l ∉ visited

/-- `w.ComesBack visited p q`: by the path `q`, the chain of the document at `p` comes for the first
time to a place that it passed or that was visited. -/
def ComesBack (w : World) (visited : List FilePlace) (p q : FilePath) : Prop :=
  ∃ passed, w.Follows p passed q ∧ New visited passed ∧
    (w.place q ∈ passed ∨ w.place q ∈ visited)

variable {w : World} {p q : FilePath} {visited places : List FilePlace} {l : FilePlace}
  {r : ReadLayers} {found : Option LintDocument} {docs : List LintDocument}

theorem new_nil : New visited [] := ⟨.nil, by simp⟩

theorem new_cons : New visited (l :: places) ↔ l ∉ visited ∧ New (l :: visited) places := by
  constructor
  · rintro ⟨hnodup, hnew⟩
    obtain ⟨hl, hnodup⟩ := List.nodup_cons.1 hnodup
    refine ⟨hnew l (List.mem_cons_self ..), hnodup, fun l' hmem hvisited => ?_⟩
    rcases List.mem_cons.1 hvisited with rfl | hvisited
    · exact hl hmem
    · exact hnew l' (List.mem_cons_of_mem _ hmem) hvisited
  · rintro ⟨hl, hnodup, hnew⟩
    refine ⟨List.nodup_cons.2 ⟨fun hmem => hnew l hmem (List.mem_cons_self ..), hnodup⟩, ?_⟩
    intro l' hmem hvisited
    rcases List.mem_cons.1 hmem with rfl | hmem
    · exact hl hvisited
    · exact hnew l' hmem (List.mem_cons_of_mem _ hvisited)

theorem new_append {places' : List FilePlace} : New visited (places ++ places') ↔
    New visited places ∧ New (places.reverse ++ visited) places' := by
  induction places generalizing visited with
  | nil => simp [new_nil]
  | cons l places ih =>
    rw [List.cons_append, new_cons, new_cons, ih, and_assoc, List.reverse_cons, List.append_assoc,
      List.singleton_append]

theorem mem_passed_or_visited {l' : FilePlace} :
    l ∈ l' :: places ∨ l ∈ visited ↔ l ∈ places ∨ l ∈ l' :: visited := by
  rw [List.mem_cons, List.mem_cons, or_assoc, or_left_comm]

/-- One step along a chain. -/
theorem readChain_of_reads (h : w.Reads p l found) (hv : l ∉ visited) :
    w.readChain visited p =
      match found with
      | none => .ok ⟨[], l :: visited⟩
      | some doc =>
        match doc.base with
        | none => .ok ⟨[doc.layer], l :: visited⟩
        | some base => (w.readChain (l :: visited) (p.sibling ⟨base⟩)).map fun below =>
          { below with layers := below.layers ++ [doc.layer] } := by
  obtain ⟨rfl, text, hread, hdoc⟩ := h
  rw [readChain, dif_neg hv]
  split
  · next hnone => cases hread.symm.trans hnone
  · next hsome =>
    obtain rfl := Except.ok.inj (hread.symm.trans hsome)
    simp only [hdoc]
    cases found with
    | none => rfl
    | some doc =>
      dsimp only
      cases doc.base with
      | none => rfl
      | some base => cases w.readChain (w.place p :: visited) (p.sibling ⟨base⟩) <;> rfl

theorem readChain_of_visited (hv : w.place p ∈ visited) :
    w.readChain visited p = .error (.cyclic p) := by
  rw [readChain, dif_pos hv]

private theorem chain_of_readChain (h : w.readChain visited p = .ok r) :
    ∃ places docs, w.Chain p places docs ∧ New visited places ∧
      r = ⟨(docs.map (·.layer)).reverse, places.reverse ++ visited⟩ := by
  fun_induction w.readChain visited p generalizing r with
  | case1 => cases h
  | case2 => cases h
  | case3 => cases h
  | case4 visited p hv text hread hdoc =>
    cases h
    exact ⟨[w.place p], [], .blank ⟨rfl, text, hread, hdoc⟩, new_cons.2 ⟨hv, new_nil⟩, rfl⟩
  | case5 visited p hv text hread doc hdoc hbase =>
    cases h
    exact ⟨[w.place p], [doc], .last ⟨rfl, text, hread, hdoc⟩ hbase, new_cons.2 ⟨hv, new_nil⟩, rfl⟩
  | case6 visited p hv text hread doc hdoc base hbase ih =>
    cases hbelow : w.readChain (w.place p :: visited) (p.sibling ⟨base⟩) with
    | error e =>
      rw [hbelow] at h
      cases h
    | ok below =>
      rw [hbelow] at h
      cases h
      obtain ⟨places, docs, hchain, hnew, rfl⟩ := ih hbelow
      exact ⟨w.place p :: places, doc :: docs, .next ⟨rfl, text, hread, hdoc⟩ hbase hchain,
        new_cons.2 ⟨hv, hnew⟩, by simp⟩

private theorem readChain_of_chain (h : w.Chain p places docs) (hnew : New visited places) :
    w.readChain visited p = .ok ⟨(docs.map (·.layer)).reverse, places.reverse ++ visited⟩ := by
  induction h generalizing visited with
  | blank hreads =>
    rw [readChain_of_reads hreads (new_cons.1 hnew).1]
    rfl
  | last hreads hbase =>
    rw [readChain_of_reads hreads (new_cons.1 hnew).1]
    simp only [hbase]
    rfl
  | next hreads hbase _ ih =>
    obtain ⟨hl, hnew⟩ := new_cons.1 hnew
    rw [readChain_of_reads hreads hl]
    simp only [hbase, ih hnew, Except.map]
    simp

/-- A chain is read if it has an end and comes to no place twice, nor to one that was visited. Its
layers lie in the order of the documents, the last one at the bottom. -/
theorem readChain_eq_ok_iff : w.readChain visited p = .ok r ↔
    ∃ places docs, w.Chain p places docs ∧ New visited places ∧
      r = ⟨(docs.map (·.layer)).reverse, places.reverse ++ visited⟩ := by
  constructor
  · exact chain_of_readChain
  · rintro ⟨places, docs, hchain, hnew, rfl⟩
    exact readChain_of_chain hchain hnew

/-- What a text holds does not depend on the path of its file, which is only named where the text
holds no document. -/
theorem document_cases (w : World) (p : FilePath) (text : String) :
    (∃ found, ∀ q, w.document q text = .ok found) ∨
      (∃ cause, w.document p text = .error (.malformed p cause)) ∨
      ∃ cause, w.document p text = .error (.unfit p cause) := by
  unfold document
  split
  · exact .inr (.inl ⟨_, rfl⟩)
  · split
    · exact .inl ⟨_, fun _ => rfl⟩
    · split
      · exact .inr (.inr ⟨_, rfl⟩)
      · exact .inl ⟨_, fun _ => rfl⟩

private theorem document_ne_cyclic (text : String) : w.document p text ≠ .error (.cyclic q) := by
  rcases w.document_cases p text with ⟨_, h⟩ | ⟨_, h⟩ | ⟨_, h⟩ <;> simp [h]

private theorem comesBack_of_readChain (h : w.readChain visited p = .error (.cyclic q)) :
    w.ComesBack visited p q := by
  fun_induction w.readChain visited p with
  | case1 visited p hv =>
    cases h
    exact ⟨[], .here, new_nil, .inr hv⟩
  | case2 => cases h
  | case3 visited p hv text hread e hdoc =>
    cases h
    exact absurd hdoc (document_ne_cyclic text)
  | case4 => cases h
  | case5 => cases h
  | case6 visited p hv text hread doc hdoc base hbase ih =>
    cases hbelow : w.readChain (w.place p :: visited) (p.sibling ⟨base⟩) with
    | ok below =>
      rw [hbelow] at h
      cases h
    | error e =>
      rw [hbelow] at h
      cases h
      obtain ⟨passed, hfollows, hnew, hback⟩ := ih hbelow
      exact ⟨w.place p :: passed, .next ⟨rfl, text, hread, hdoc⟩ hbase hfollows,
        new_cons.2 ⟨hv, hnew⟩, mem_passed_or_visited.2 hback⟩

private theorem readChain_of_follows {passed : List FilePlace} (h : w.Follows p passed q)
    (hnew : New visited passed) (hback : w.place q ∈ passed ∨ w.place q ∈ visited) :
    w.readChain visited p = .error (.cyclic q) := by
  induction h generalizing visited with
  | here => exact readChain_of_visited (hback.resolve_left List.not_mem_nil)
  | next hreads hbase _ ih =>
    obtain ⟨hv, hnew⟩ := new_cons.1 hnew
    have hback' := ih hnew (mem_passed_or_visited.1 hback)
    rw [readChain_of_reads hreads hv]
    simp only [hbase, hback', Except.map]

/-- A chain is refused as cyclic exactly at the path by which it comes back. -/
theorem readChain_eq_cyclic_iff :
    w.readChain visited p = .error (.cyclic q) ↔ w.ComesBack visited p q := by
  constructor
  · exact comesBack_of_readChain
  · rintro ⟨passed, hfollows, hnew, hback⟩
    exact readChain_of_follows hfollows hnew hback

end World

end LockDiscipline
