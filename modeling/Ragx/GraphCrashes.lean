import Ragx.EventRuns
import Ragx.GraphFiles

/-!
# Crashes of a store with a file

The file is cut to nothing and then written, so a crash leaves some first part of the new
content. What cannot be read counts as no file, and the store that is opened on it is empty.
-/
namespace Ragx

/-- A crash comes before the file is touched, or after a number of its units are written. -/
inductive CrashEvent where
  | write (w : GraphWrite)
  | crash (w : GraphWrite) (written : Option ℕ)

/-- `saved` is what the store held after its last operation that returned, or when it was
opened. -/
structure CrashedGraph (B : Type) where
  kbId : String
  file : Option (List B) := none
  store : PlainGraphStore := NetworkXGraphStore.fresh kbId
  saved : PlainGraphStore := NetworkXGraphStore.fresh kbId

namespace CrashedGraph

open NetworkXGraphStore

variable {B : Type} (pickle : Pickle B)

/-- The file that a crash leaves. An operation that raises does not reach it. -/
def fileAfter (s : CrashedGraph B) (w : GraphWrite) : Option ℕ → Option (List B)
  | none => s.file
  | some n =>
    match w.run s.store with
    | (after, none) => some ((after.dump pickle).take n)
    | (_, some _) => s.file

/-- A crash is followed by the opening of a new store. -/
def step (s : CrashedGraph B) : CrashEvent → Option (CrashedGraph B)
  | .write w =>
    match w.run s.store with
    | (after, none) =>
      some { s with file := some (after.dump pickle), store := after, saved := after }
    | (after, some _) => some { s with store := after }
  | .crash w written =>
    let file := s.fileAfter pickle w written
    let opened := load pickle s.kbId file
    some { s with file := file, store := opened, saved := opened }

/-- The new store holds what there was before or after the operation. -/
def BeforeOrAfter (s : CrashedGraph B) : CrashEvent → CrashedGraph B → Prop
  | .write _, _ => True
  | .crash w _, s' => s'.store = s.store ∨ s'.store = (w.run s.store).1

/-- The operation reached the file, and not all of it was written. -/
def CutShort (s : CrashedGraph B) (w : GraphWrite) (written : Option ℕ) : Prop :=
  (w.run s.store).2 = none ∧ ∃ n ∈ written, n < ((w.run s.store).1.dump pickle).length

/-- The new store holds what was saved, what the operation would have saved, or nothing. -/
def Recovers (s : CrashedGraph B) : CrashEvent → CrashedGraph B → Prop
  | .write _, _ => True
  | .crash w written, s' =>
    s'.store = s.saved ∨ (w.run s.store).2 = none ∧ s'.store = (w.run s.store).1 ∨
      s.CutShort pickle w written ∧ s'.store = fresh s.kbId

/-- A store as its constructor and its operations leave it. -/
structure Intact (kbId : String) (s : PlainGraphStore) : Prop where
  kbId : s.kbId = kbId
  closed : Closed s

/-- The file is what was saved. -/
structure Inv (s : CrashedGraph B) : Prop where
  store : Intact s.kbId s.store
  saved : Intact s.kbId s.saved
  file : load pickle s.kbId s.file = s.saved

variable {pickle} {s : CrashedGraph B} {kbId : String}

theorem intact_fresh (kbId : String) : Intact kbId (fresh kbId) := ⟨rfl, closed_fresh kbId⟩

theorem Intact.run {store : PlainGraphStore} (h : Intact kbId store) (w : GraphWrite) :
    Intact kbId (w.run store).1 :=
  ⟨(kbId_run store w).trans h.kbId, closed_run h.closed w⟩

theorem Intact.load_dump {store : PlainGraphStore} (h : Intact kbId store) :
    load pickle kbId (some (store.dump pickle)) = store :=
  NetworkXGraphStore.load_dump h.closed h.kbId

/-- A first part of a file is the whole of it, or counts as no file. -/
theorem Intact.load_take {store : PlainGraphStore} (h : Intact kbId store) (n : ℕ) :
    load pickle kbId (some ((store.dump pickle).take n)) =
      if n < (store.dump pickle).length then fresh kbId else store := by
  split_ifs with hn
  · refine load_cut (List.take_prefix n _) fun heq => ?_
    have hlength := congrArg List.length heq
    rw [List.length_take] at hlength
    omega
  · rw [List.take_of_length_le (Nat.le_of_not_lt hn), h.load_dump]

theorem Inv.start (pickle : Pickle B) (kbId : String) : Inv pickle { kbId := kbId } where
  store := intact_fresh kbId
  saved := intact_fresh kbId
  file := rfl

/-- The three stores that a crash leaves. -/
theorem Inv.opened_cases (hs : Inv pickle s) (w : GraphWrite) (written : Option ℕ) :
    let opened := load pickle s.kbId (s.fileAfter pickle w written)
    opened = s.saved ∨ (w.run s.store).2 = none ∧ opened = (w.run s.store).1 ∨
      s.CutShort pickle w written ∧ opened = fresh s.kbId := by
  have hrun := hs.store.run w
  cases written with
  | none => exact Or.inl hs.file
  | some n =>
    cases hw : w.run s.store with
    | mk after raised =>
      rw [hw] at hrun
      cases raised with
      | some e =>
        refine Or.inl ?_
        simp only [fileAfter, hw]
        exact hs.file
      | none =>
        refine Or.inr ?_
        simp only [fileAfter, CutShort, hw, hrun.load_take]
        by_cases hn : n < (after.dump pickle).length
        · exact Or.inr ⟨⟨trivial, n, rfl, hn⟩, if_pos hn⟩
        · exact Or.inl ⟨trivial, if_neg hn⟩

theorem Inv.step {e : CrashEvent} {s' : CrashedGraph B} (hs : Inv pickle s)
    (hstep : s.step pickle e = some s') : s.Recovers pickle e s' ∧ Inv pickle s' := by
  cases e with
  | write w =>
    have hrun := hs.store.run w
    refine ⟨trivial, ?_⟩
    rw [CrashedGraph.step] at hstep
    cases hw : w.run s.store with
    | mk after raised =>
      rw [hw] at hstep hrun
      cases raised with
      | none =>
        cases hstep
        exact ⟨hrun, hrun, hrun.load_dump⟩
      | some err =>
        cases hstep
        exact ⟨hrun, hs.saved, hs.file⟩
  | crash w written =>
    cases hstep
    have hcases := hs.opened_cases w written
    refine ⟨hcases, ?_⟩
    suffices hopened : Intact s.kbId (load pickle s.kbId (s.fileAfter pickle w written)) from
      ⟨hopened, hopened, rfl⟩
    rcases hcases with hsaved | ⟨_, hafter⟩ | ⟨_, hempty⟩
    · rw [hsaved]
      exact hs.saved
    · rw [hafter]
      exact hs.store.run w
    · rw [hempty]
      exact intact_fresh s.kbId

/-- Over any number of crashes. -/
theorem recovers (pickle : Pickle B) (kbId : String) (events : List CrashEvent) :
    EveryStep (step pickle) (Recovers pickle) { kbId := kbId } events :=
  EveryStep.of_invariant (G := fun _ _ _ => True) (fun _ _ _ hs hstep _ => hs.step hstep)
    (Inv.start pickle kbId) (everyStep_of_forall (fun _ _ _ _ => trivial) _)

section Sample

def savedEntity (entityId kbId : String) : Entity where
  entityId := entityId
  kbId := kbId
  name := entityId
  nameNorm := entityId
  type := "PERSON"
  description := ""
  sourceDocIds := ["doc_1"]
  confidence := 1

/-- The second call has cut the file to nothing when the process dies. -/
def emptied : List CrashEvent :=
  [.write (.upsertEntities [savedEntity "ent_1" "kb"]),
    .crash (.upsertEntities [savedEntity "ent_2" "kb"]) (some 0)]

/-- The second call stores one entity and refuses the next, and nothing is written. -/
def refused : List CrashEvent :=
  [.write (.upsertEntities [savedEntity "ent_1" "kb"]),
    .write (.upsertEntities [savedEntity "ent_2" "kb", savedEntity "ent_3" "other"]),
    .crash (.deleteByDoc "doc_2") none]

def entityIds (s : PlainGraphStore) : List String := s.entities.values.map (·.entityId)

theorem not_beforeOrAfter_crashes :
    ¬ EveryStep (step samplePickle) BeforeOrAfter { kbId := "kb" } emptied ∧
      ¬ EveryStep (step samplePickle) BeforeOrAfter { kbId := "kb" } refused := by
  constructor
  · intro h
    obtain ⟨_, hrest⟩ := (everyStep_cons rfl).mp h
    obtain ⟨hcrash, _⟩ := (everyStep_cons rfl).mp hrest
    rcases hcrash with hbefore | hafter
    · exact absurd (congrArg entityIds hbefore) (by decide +kernel)
    · exact absurd (congrArg entityIds hafter) (by decide +kernel)
  · intro h
    obtain ⟨_, hrest⟩ := (everyStep_cons rfl).mp h
    obtain ⟨_, hrest⟩ := (everyStep_cons rfl).mp hrest
    obtain ⟨hcrash, _⟩ := (everyStep_cons rfl).mp hrest
    rcases hcrash with hbefore | hafter
    · exact absurd (congrArg entityIds hbefore) (by decide +kernel)
    · exact absurd (congrArg entityIds hafter) (by decide +kernel)

end Sample

end CrashedGraph

end Ragx
