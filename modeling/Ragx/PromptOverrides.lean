import Ragx.PromptRegistry

/-!
# Prompt overrides

What the overrides of a knowledge base are to do: an override names the file whose template is
used, and without one it is the highest version. The look-up goes by names of prompts, so this is
what happens as long as an override is neither the stem of a file nor the name of a prompt.
-/
namespace Ragx

open PromptRegistry

/-- The template that a knowledge base is to use: that of the file which its override names, or the
highest version of the prompt. -/
def PromptsDir.Intended (dir : PromptsDir) (overrides : OrderedDict String String) (name : String)
    (p : Prompt) : Prop :=
  match overrides.get? name with
  | some stem => p ∈ dir.files ∧ p.key = stem
  | none => dir.IsLatest name p

/-- The intended template is looked up, a prompt is rendered from it, and there is an error when
it or the value of a placeholder is not there. -/
structure RendersIntended (dir : PromptsDir) (overrides : OrderedDict String String)
    (name : String) : Prop where
  uses : ∀ p, dir.load.get (resolveOverride name overrides) = .ok p ↔
    dir.Intended overrides name p
  raises : ∀ vars, (∃ e, dir.load.renderForKb name (some overrides) vars = .error e ∧
      e.cls = .config ∧ e.code = 9003) ↔
    ¬ ∃ p, dir.Intended overrides name p ∧ vars.Cover p
  texts : ∀ vars system user,
    dir.load.renderForKb name (some overrides) vars = .ok (system, user) →
      ∃ p, dir.Intended overrides name p ∧ Rendered vars p.system system ∧
        Rendered vars p.user user

/-- An override that leads nowhere, neither as the stem of a file nor as the name of a prompt. -/
def PromptsDir.NamesNothing (dir : PromptsDir) (stem : String) : Prop :=
  ∀ p ∈ dir.files, p.key ≠ stem ∧ p.name ≠ stem

section Overrides

variable {dir : PromptsDir} {overrides : OrderedDict String String} {name : String}

/-- A stem is longer than the name in it. -/
theorem Prompt.key_ne_name (p : Prompt) : p.key ≠ p.name := by
  intro h
  have hlength := congrArg String.length h
  unfold key at hlength
  rw [String.length_append, String.length_append] at hlength
  have hpoint : ".v".length = 2 := rfl
  omega

/-- What is rendered is what has been looked up. -/
theorem renderForKb_cases (dir : PromptsDir) (overrides : OrderedDict String String)
    (name : String) (vars : PromptVars) :
    (∃ p system user, dir.IsLatest (resolveOverride name overrides) p ∧ vars.Cover p ∧
      dir.load.renderForKb name (some overrides) vars = .ok (system, user) ∧
      Rendered vars p.system system ∧ Rendered vars p.user user) ∨
    ((∀ p, dir.IsLatest (resolveOverride name overrides) p → ¬ vars.Cover p) ∧
      ∃ message details, dir.load.renderForKb name (some overrides) vars =
        .error (configError message details)) := by
  have hrender : dir.load.renderForKb name (some overrides) vars =
      (dir.load.get (resolveOverride name overrides)).bind fun p => p.render vars := rfl
  obtain ⟨p, hget, hlatest⟩ | ⟨hnone, details, hget⟩ :=
    dir.get_cases (resolveOverride name overrides)
  · rw [hget] at hrender
    obtain ⟨hcover, system, user, hok, hsystem, huser⟩ | ⟨hcover, message, details, herror⟩ :=
      p.render_cases vars
    · exact .inl ⟨p, system, user, hlatest, hcover, hrender.trans hok, hsystem, huser⟩
    · refine .inr ⟨fun q hq => ?_, message, details, hrender.trans herror⟩
      rw [hq.unique hlatest]
      exact hcover
  · rw [hget] at hrender
    exact .inr ⟨fun p hp => absurd hp.2.1 (hnone p hp.1), _, details, hrender⟩

/-- Once the look-up meets the intention, so does the rest. -/
theorem rendersIntended_iff_uses : RendersIntended dir overrides name ↔
    ∀ p, dir.IsLatest (resolveOverride name overrides) p ↔ dir.Intended overrides name p := by
  constructor
  · exact fun h p => PromptsDir.get_eq_ok_iff.symm.trans (h.uses p)
  intro huses
  refine ⟨fun p => PromptsDir.get_eq_ok_iff.trans (huses p), fun vars => ?_, fun vars => ?_⟩
  · obtain ⟨p, system, user, hp, hcover, hok, -, -⟩ | ⟨hcover, message, details, herror⟩ :=
      renderForKb_cases dir overrides name vars
    · rw [hok]
      constructor
      · rintro ⟨e, he, -, -⟩
        exact nomatch he
      · exact fun h => absurd ⟨p, (huses p).mp hp, hcover⟩ h
    · rw [herror]
      constructor
      · rintro - ⟨p, hp, hvalues⟩
        exact hcover p ((huses p).mpr hp) hvalues
      · exact fun _ => ⟨_, rfl, rfl, rfl⟩
  · intro system user h
    obtain ⟨p, system', user', hp, -, hok, hsystem, huser⟩ | ⟨-, message, details, herror⟩ :=
      renderForKb_cases dir overrides name vars
    · obtain ⟨rfl, rfl⟩ := Prod.mk.inj (Except.ok.inj (hok.symm.trans h))
      exact ⟨p, (huses p).mp hp, hsystem, huser⟩
    · rw [herror] at h
      exact nomatch h

theorem resolveOverride_of_none (h : overrides.get? name = none) :
    resolveOverride name overrides = name := by
  rw [resolveOverride, OrderedDict.getD, h]
  rfl

theorem resolveOverride_of_some {stem : String} (h : overrides.get? name = some stem) :
    resolveOverride name overrides = stem := by
  rw [resolveOverride, OrderedDict.getD, h]
  rfl

/-- A file and a prompt of one name are two prompts, of which the look-up finds the second. -/
theorem namesNothing_iff {stem : String} : dir.NamesNothing stem ↔
    ∀ p, dir.IsLatest stem p ↔ p ∈ dir.files ∧ p.key = stem := by
  constructor
  · intro h p
    exact ⟨fun hp => absurd hp.2.1 (h p hp.1).2, fun hp => absurd hp.2 (h p hp.1).1⟩
  · intro h p hp
    constructor
    · intro hkey
      have hlatest := (h p).mpr ⟨hp, hkey⟩
      exact p.key_ne_name (hkey.trans hlatest.2.1.symm)
    · intro hname
      obtain ⟨q, -, hlatest⟩ | ⟨hnone, -⟩ := dir.get_cases stem
      · exact q.key_ne_name (((h q).mp hlatest).2.trans hlatest.2.1.symm)
      · exact hnone p hp hname

theorem rendersIntended_of_none (h : overrides.get? name = none) :
    RendersIntended dir overrides name := by
  rw [rendersIntended_iff_uses, resolveOverride_of_none h]
  intro p
  rw [PromptsDir.Intended, h]

theorem rendersIntended_of_some {stem : String} (h : overrides.get? name = some stem) :
    RendersIntended dir overrides name ↔ dir.NamesNothing stem := by
  rw [rendersIntended_iff_uses, resolveOverride_of_some h, namesNothing_iff]
  unfold PromptsDir.Intended
  rw [h]

/-- The intended template is used exactly where no override of the name leads anywhere. -/
theorem rendersIntended_iff (dir : PromptsDir) (overrides : OrderedDict String String)
    (name : String) :
    RendersIntended dir overrides name ↔
      ∀ stem, overrides.get? name = some stem → dir.NamesNothing stem := by
  cases h : overrides.get? name with
  | none => exact ⟨fun _ _ hstem => (nomatch hstem), fun _ => rendersIntended_of_none h⟩
  | some stem =>
    rw [rendersIntended_of_some h]
    exact ⟨fun hnothing _ hstem => Option.some.inj hstem ▸ hnothing, fun hall => hall stem rfl⟩

end Overrides

/-! ## An override in the documented form -/

def medicalDir : PromptsDir where
  files := [
    { name := "extract_entities.medical", version := 1,
      system := "You are a medical-domain entity extractor.",
      user := "Chunk text (medical domain):\n\x7b\x7bchunk_text\x7d\x7d\n" },
    { name := "extract_entities", version := 1,
      system := "你是知识图谱构建专家。", user := "文本：\n\x7b\x7bchunk_text\x7d\x7d\n" }]
  nodup := by decide

def medicalOverrides : OrderedDict String String :=
  .ofList [("extract_entities", "extract_entities.medical.v1")]

/-- The override names the medical file, and the look-up knows no prompt of that name. -/
theorem not_rendersIntended_medical :
    ¬ RendersIntended medicalDir medicalOverrides "extract_entities" ∧
      ∀ vars, ∃ details,
        medicalDir.load.renderForKb "extract_entities" (some medicalOverrides) vars =
          .error (configError "unknown prompt" details) := by
  have hstem : medicalOverrides.get? "extract_entities" = some "extract_entities.medical.v1" := rfl
  have hfile : ∃ p ∈ medicalDir.files, p.key = "extract_entities.medical.v1" := by decide
  have hname : ∀ p ∈ medicalDir.files, p.name ≠ "extract_entities.medical.v1" := by decide
  constructor
  · rw [rendersIntended_of_some hstem]
    intro hnothing
    obtain ⟨p, hp, hkey⟩ := hfile
    exact (hnothing p hp).1 hkey
  · intro vars
    obtain ⟨p, -, hlatest⟩ | ⟨-, details, hget⟩ :=
      medicalDir.get_cases "extract_entities.medical.v1"
    · exact absurd hlatest.2.1 (hname p hlatest.1)
    · refine ⟨details, ?_⟩
      unfold renderForKb PromptRegistry.render
      rw [Option.getD_some, resolveOverride_of_some hstem, hget]
      rfl

end Ragx
