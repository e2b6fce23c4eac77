import Ragx.EventRuns
import Ragx.GraphFiles

/-!
# One file for every knowledge base

The registry hands every knowledge base the plugin's configuration and its id, so their stores
share the file. A store that is opened takes what the file holds for its own. Stores are kept
apart as long as none is opened on what another one wrote.
-/
namespace Ragx

/-- A knowledge base whose id the registry puts in the configuration. -/
abbrev ScopedKb := { kbId : String // kbId ≠ "_global" }

/-- The `kb_id` of the merged configuration, as the constructor reads it. -/
def storeKbId (configured : Option String) (kbId : String) : String :=
  (if kbId ≠ "_global" then some kbId else configured).getD "default"

theorem storeKbId_scoped (configured : Option String) (kb : ScopedKb) :
    storeKbId configured kb = kb := by
  rw [storeKbId, if_pos kb.2, Option.getD_some]

/-- `construct` is a first opening or one after a restart. -/
inductive GraphEvent where
  | construct (kb : ScopedKb)
  | write (kb : ScopedKb) (w : GraphWrite)
  | shutdown (kb : ScopedKb)

def GraphEvent.Labelled : GraphEvent → Prop
  | .write _ w => w.Labelled
  | _ => True

/-- `held` is what a store held after its last operation that returned, and `writer` is the last
one to write the file. -/
structure GraphWorld (B : Type) where
  file : Option (List B) := none
  writer : Option ScopedKb := none
  opened : ScopedKb → Option PlainGraphStore := fun _ => none
  held : ScopedKb → Option PlainGraphStore := fun _ => none

namespace GraphWorld

open NetworkXGraphStore

variable {B : Type} (pickle : Pickle B) (configured : Option String)

/-- An operation of `kb` returns, with the store it leaves. -/
def finish (w : GraphWorld B) (kb : ScopedKb) (s : PlainGraphStore) : GraphWorld B where
  file := some (s.dump pickle)
  writer := some kb
  opened := Function.update w.opened kb (some s)
  held := Function.update w.held kb (some s)

/-- An operation that raises leaves the file as it was. -/
def step (w : GraphWorld B) : GraphEvent → Option (GraphWorld B)
  | .construct kb =>
    let s := load pickle (storeKbId configured kb) w.file
    some { w with opened := Function.update w.opened kb (some s) }
  | .write kb op =>
    (w.opened kb).map fun s =>
      match op.run s with
      | (s', none) => w.finish pickle kb s'
      | (s', some _) => { w with opened := Function.update w.opened kb (some s') }
  | .shutdown kb => (w.opened kb).map (w.finish pickle kb)

/-- Every store holds what is of its knowledge base, and one that is opened holds what it did
after its last operation. -/
def Apart (unnamed : Prop) (w : GraphWorld B) (e : GraphEvent) (w' : GraphWorld B) : Prop :=
  (∀ kb s, w'.opened kb = some s → Owned unnamed kb s) ∧
    ∀ kb, e = .construct kb → w'.opened kb = some ((w.held kb).getD (fresh kb))

/-- No store is opened on what another one wrote. -/
def OpensOwn (w : GraphWorld B) : GraphEvent → GraphWorld B → Prop
  | .construct kb, _ => w.writer = none ∨ w.writer = some kb
  | _, _ => True

instance (w : GraphWorld B) : ∀ e w', Decidable (w.OpensOwn e w')
  | .construct kb, _ => inferInstanceAs (Decidable (w.writer = none ∨ w.writer = some kb))
  | .write _ _, _ => inferInstanceAs (Decidable True)
  | .shutdown _, _ => inferInstanceAs (Decidable True)

/-! ## The invariant -/

/-- A store of the knowledge base, as its operations leave it. -/
structure Sound (unnamed : Prop) (kb : ScopedKb) (s : PlainGraphStore) : Prop where
  owned : Owned unnamed kb s
  closed : Closed s

/-- The file is what the last writer held. -/
structure Inv (unnamed : Prop) (w : GraphWorld B) : Prop where
  opened : ∀ kb s, w.opened kb = some s → Sound unnamed kb s
  held : ∀ kb s, w.held kb = some s → Sound unnamed kb s
  unwritten : w.writer = none → w.file = none ∧ ∀ kb, w.held kb = none
  written : ∀ kb, w.writer = some kb → ∃ s, w.held kb = some s ∧ w.file = some (s.dump pickle)

variable {pickle configured} {unnamed : Prop} {w : GraphWorld B} {kb : ScopedKb}
  {s : PlainGraphStore}

theorem sound_fresh (unnamed : Prop) (kb : ScopedKb) : Sound unnamed kb (fresh kb) :=
  ⟨owned_fresh unnamed kb, closed_fresh kb⟩

theorem sound_update {stores : ScopedKb → Option PlainGraphStore}
    (h : ∀ kb s, stores kb = some s → Sound unnamed kb s) (hs : Sound unnamed kb s) :
    ∀ kb' s', Function.update stores kb (some s) kb' = some s' → Sound unnamed kb' s' := by
  intro kb' s' hget
  by_cases hkb : kb' = kb
  · subst hkb
    rw [Function.update_self] at hget
    cases hget
    exact hs
  · rw [Function.update_of_ne hkb] at hget
    exact h kb' s' hget

theorem Inv.empty (unnamed : Prop) : Inv pickle unnamed {} where
  opened _ _ h := by cases h
  held _ _ h := by cases h
  unwritten _ := ⟨rfl, fun _ => rfl⟩
  written _ h := by cases h

theorem Inv.keep (hw : Inv pickle unnamed w) (hs : Sound unnamed kb s) :
    Inv pickle unnamed { w with opened := Function.update w.opened kb (some s) } where
  opened := sound_update hw.opened hs
  held := hw.held
  unwritten := hw.unwritten
  written := hw.written

theorem Inv.finish (hw : Inv pickle unnamed w) (hs : Sound unnamed kb s) :
    Inv pickle unnamed (w.finish pickle kb s) where
  opened := sound_update hw.opened hs
  held := sound_update hw.held hs
  unwritten h := by cases h
  written kb' h := by
    cases h
    exact ⟨s, Function.update_self _ _ _, rfl⟩

/-- A store that is opened on its own file is as it was. -/
theorem Inv.load_eq (hw : Inv pickle unnamed w) (hown : w.writer = none ∨ w.writer = some kb) :
    load pickle (storeKbId configured kb) w.file = (w.held kb).getD (fresh kb) := by
  rw [storeKbId_scoped]
  rcases hown with hnone | hsame
  · obtain ⟨hfile, hheld⟩ := hw.unwritten hnone
    rw [hfile, hheld kb]
    rfl
  · obtain ⟨s, hheld, hfile⟩ := hw.written kb hsame
    have hs := hw.held kb s hheld
    rw [hfile, hheld, load_dump hs.closed hs.owned.kbId]
    rfl

theorem Inv.held_getD (hw : Inv pickle unnamed w) (kb : ScopedKb) :
    Sound unnamed kb ((w.held kb).getD (fresh kb)) := by
  cases hheld : w.held kb with
  | none => exact sound_fresh unnamed kb
  | some s => exact hw.held kb s hheld

theorem Inv.apart (hw : Inv pickle unnamed w) {w₀ : GraphWorld B} {e : GraphEvent}
    (h : ∀ kb, e ≠ .construct kb) : Apart unnamed w₀ e w :=
  ⟨fun kb s hs => (hw.opened kb s hs).owned, fun kb he => absurd he (h kb)⟩

theorem Inv.step {e : GraphEvent} {w' : GraphWorld B} (hw : Inv pickle unnamed w)
    (hstep : w.step pickle configured e = some w') (hown : w.OpensOwn e w')
    (hunnamed : ¬ e.Labelled → unnamed) : Apart unnamed w e w' ∧ Inv pickle unnamed w' := by
  cases e with
  | construct kb =>
    cases hstep
    have hload : load pickle (storeKbId configured kb) w.file = (w.held kb).getD (fresh kb) :=
      hw.load_eq hown
    have hinv := hw.keep (hload ▸ hw.held_getD kb)
    refine ⟨⟨fun kb' s hs => (hinv.opened kb' s hs).owned, fun kb' he => ?_⟩, hinv⟩
    cases he
    rw [← hload]
    exact Function.update_self _ _ _
  | write kb op =>
    suffices hinv : Inv pickle unnamed w' from ⟨hinv.apart fun _ => by rintro ⟨⟩, hinv⟩
    obtain ⟨s, hs, rfl⟩ := Option.map_eq_some_iff.mp hstep
    have hsound := hw.opened kb s hs
    have hrun : Sound unnamed kb (op.run s).1 :=
      ⟨owned_run hsound.owned hunnamed, closed_run hsound.closed op⟩
    cases hop : op.run s with
    | mk s' raised =>
      rw [hop] at hrun
      cases raised with
      | none => exact hw.finish hrun
      | some err => exact hw.keep hrun
  | shutdown kb =>
    suffices hinv : Inv pickle unnamed w' from ⟨hinv.apart fun _ => by rintro ⟨⟩, hinv⟩
    obtain ⟨s, hs, rfl⟩ := Option.map_eq_some_iff.mp hstep
    exact hw.finish (hw.opened kb s hs)

/-- Stores that are only opened on their own files are kept apart. -/
theorem apart_of_opensOwn (pickle : Pickle B) (configured : Option String)
    {events : List GraphEvent} (h : EveryStep (step pickle configured) OpensOwn {} events) :
    EveryStep (step pickle configured) (Apart (∃ e ∈ events, ¬ e.Labelled)) {} events := by
  have hunnamed : ∀ e ∈ events, ¬ e.Labelled → ∃ e ∈ events, ¬ e.Labelled :=
    fun e he hnot => ⟨e, he, hnot⟩
  have hguard := h.and (everyStep_of_forall (fun e he _ _ => hunnamed e he) _)
  exact EveryStep.of_invariant
    (fun w e w' hw hstep hguard => hw.step hstep hguard.1 hguard.2) (Inv.empty _) hguard

section Sample

def sampleKb (kbId : String) (h : kbId ≠ "_global" := by decide) : ScopedKb := ⟨kbId, h⟩

def namedEntity (kbId : String) : Entity where
  entityId := "ent_1"
  kbId := kbId
  name := "Ada"
  nameNorm := "ada"
  type := "PERSON"
  description := ""
  sourceDocIds := ["doc_1"]
  confidence := 1

/-- Two stores, of which one is opened again and then deletes its document. -/
def ownFile : List GraphEvent :=
  [.construct (sampleKb "a"), .construct (sampleKb "b"),
    .write (sampleKb "a") (.upsertEntities [namedEntity "a"]), .construct (sampleKb "a"),
    .write (sampleKb "a") (.deleteByDoc "doc_1"), .shutdown (sampleKb "a")]

theorem apart_ownFile :
    EveryStep (step samplePickle none) (Apart (∃ e ∈ ownFile, ¬ e.Labelled)) {} ownFile :=
  apart_of_opensOwn samplePickle none (by decide +kernel)

/-- The second store is opened after the first one wrote. -/
def sharedFile : List GraphEvent :=
  [.construct (sampleKb "a"), .write (sampleKb "a") (.upsertEntities [namedEntity "a"]),
    .construct (sampleKb "b")]

/-- What the entities of a store say they belong to. -/
def entityKbs (kb : ScopedKb) (w : GraphWorld B) : Option (List String) :=
  (w.opened kb).map fun s => s.entities.values.map (·.kbId)

theorem entityKbs_sharedFile :
    (run (step samplePickle none) {} sharedFile).map (entityKbs (sampleKb "b")) =
      some (some ["a"]) := by
  decide +kernel

theorem not_apart_sharedFile :
    (∀ e ∈ sharedFile, e.Labelled) ∧
      ¬ EveryStep (step samplePickle none) (Apart (∃ e ∈ sharedFile, ¬ e.Labelled)) {}
        sharedFile := by
  have hlabelled : ∀ e ∈ sharedFile, e.Labelled := by
    simp [sharedFile, GraphEvent.Labelled, GraphWrite.Labelled, namedEntity]
  refine ⟨hlabelled, fun h => ?_⟩
  obtain ⟨w, hrun, hkbs⟩ := Option.map_eq_some_iff.mp entityKbs_sharedFile
  obtain ⟨s, hopened, hids⟩ := Option.map_eq_some_iff.mp hkbs
  have howned := run_invariant_of_guarded
    (I := fun w => ∀ (kb : ScopedKb) s, w.opened kb = some s →
      Owned (∃ e ∈ sharedFile, ¬ e.Labelled) kb s)
    (fun _ _ _ _ _ hapart => hapart.1) (fun _ _ h => by cases h) h hrun
  obtain ⟨e, he, hid⟩ := List.mem_map.mp (hids ▸ List.mem_singleton_self "a")
  rcases (howned _ s hopened).entities e he with hkb | ⟨⟨event, hmem, hnot⟩, _⟩
  · have hdiffer : ("a" : String) ≠ "b" := by decide
    exact hdiffer (hid.symm.trans hkb)
  · exact hnot (hlabelled event hmem)

end Sample

end GraphWorld

end Ragx
