import Ragx.AuthMiddleware
import Ragx.StoreColumns

/-!
# The keys of the database

A key is saved under its id with the hash of its credential, and saved again to change it, to
rotate it or to disable it. Saves and requests come in any order. What holds of a request is what
the saves before it say: the main result is that the table of the keys replies as the history of
its saves would.
-/
namespace Ragx

open JsonTexts

/-! ## The table -/

/-- What `save_api_key` is called with. -/
structure KeySave where
  keyId : String
  keyHash : String
  keyPrefix : String
  kbAcl : List String
  tenantId : String := "default"
  enabled : Bool := true

structure KeyRecord where
  keyHash : String
  keyPrefix : String
  kbAcl : String
  tenantId : String
  enabled : ℤ

inductive KeyCall where
  | save (save : KeySave)
  | resolve (headers : AuthHeaders) (now : ℚ)

inductive KeyReply where
  | saved (result : Except Exc Unit)
  | resolved (result : Except Exc AuthContext)

/-- The hash of a credential is in one row at most. -/
def hashTaken : Exc := .foreign "UNIQUE constraint failed: api_keys.key_hash"

def KeySave.record (fmt : NumberFormat) (save : KeySave) : KeyRecord where
  keyHash := save.keyHash
  keyPrefix := save.keyPrefix
  kbAcl := jsonColumn fmt .dumpsText (textsJson save.kbAcl)
  tenantId := save.tenantId
  enabled := if save.enabled then 1 else 0

/-- The rows of the keys, under their ids. -/
structure ApiKeys where
  rows : OrderedDict String KeyRecord := .empty

namespace ApiKeys

variable (fmt : NumberFormat) (t : ApiKeys)

def saveApiKey (save : KeySave) : Except Exc ApiKeys :=
  if t.rows.entries.any fun e => e.1 ≠ save.keyId && e.2.keyHash = save.keyHash then
    .error hashTaken
  else .ok ⟨t.rows.insert save.keyId (save.record fmt)⟩

def getApiKeyByHash (keyHash : String) : Except Exc (Option ApiKeyRow) :=
  match t.rows.entries.find? fun e => e.2.keyHash = keyHash with
  | none => .ok none
  | some (keyId, row) =>
    match readColumn fmt (orDefault row.kbAcl "[]") with
    | none => .error (.foreign "Expecting value")
    | some kbAcl =>
      .ok (some { keyId, kbAcl, tenantId := row.tenantId, enabled := row.enabled != 0 })

/-- A save that raises changes nothing. -/
def call (lib : AuthLib) (security : AuthSettings) (t : ApiKeys) : KeyCall → ApiKeys × KeyReply
  | .save save =>
    match t.saveApiKey fmt save with
    | .error e => (t, .saved (.error e))
    | .ok t' => (t', .saved (.ok ()))
  | .resolve headers now =>
    (t, .resolved (AuthMiddleware.resolve ⟨security, some (t.getApiKeyByHash fmt)⟩ lib headers now))

end ApiKeys

/-! ## The history -/

/-- The saves that no later one has replaced. -/
def inForce : List KeySave → List KeySave
  | [] => []
  | save :: later =>
    if ∃ s ∈ later, s.keyId = save.keyId then inForce later else save :: inForce later

/-- What is to be known of a key that is in force. -/
def KeySave.row (save : KeySave) : ApiKeyRow where
  keyId := save.keyId
  kbAcl := textsJson save.kbAcl
  tenantId := save.tenantId
  enabled := save.enabled

/-- The saves that have been accepted, the last one at the end. -/
structure KeyHistory where
  saves : List KeySave := []

namespace KeyHistory

variable (history : KeyHistory)

/-- The key in force whose credential has the hash. -/
def standing (keyHash : String) : Option KeySave :=
  (inForce history.saves).find? fun s => s.keyHash = keyHash

/-- A save is refused if another key in force has its hash. Requests are resolved by what is in
force. -/
def call (lib : AuthLib) (security : AuthSettings) (history : KeyHistory) :
    KeyCall → KeyHistory × KeyReply
  | .save save =>
    if (inForce history.saves).any fun s => s.keyId ≠ save.keyId && s.keyHash = save.keyHash then
      (history, .saved (.error hashTaken))
    else (⟨history.saves ++ [save]⟩, .saved (.ok ()))
  | .resolve headers now =>
    (history, .resolved (AuthMiddleware.resolve
      ⟨security, some fun keyHash => .ok ((history.standing keyHash).map KeySave.row)⟩
      lib headers now))

end KeyHistory

theorem mem_inForce_concat {saves : List KeySave} {save s : KeySave} :
    s ∈ inForce (saves ++ [save]) ↔ s = save ∨ (s ∈ inForce saves ∧ s.keyId ≠ save.keyId) := by
  induction saves with
  | nil => simp [inForce]
  | cons first saves ih =>
    rw [List.cons_append, inForce, inForce]
    by_cases hlater : ∃ s ∈ saves, s.keyId = first.keyId
    · have hlast : ∃ s ∈ saves ++ [save], s.keyId = first.keyId :=
        hlater.imp fun s hs => ⟨List.mem_append_left _ hs.1, hs.2⟩
      rw [if_pos hlater, if_pos hlast, ih]
    · rw [if_neg hlater]
      split_ifs with hlast
      · obtain ⟨s', hs', hkey⟩ := hlast
        obtain hs' | hs' := List.mem_append.mp hs'
        · exact absurd ⟨s', hs', hkey⟩ hlater
        · obtain rfl := List.mem_singleton.mp hs'
          rw [ih, List.mem_cons]
          refine or_congr_right (and_congr_left fun hne => (or_iff_right ?_).symm)
          rintro rfl
          exact hne hkey.symm
      · have hne : save.keyId ≠ first.keyId := fun hkey => hlast ⟨save, by simp, hkey⟩
        rw [List.mem_cons, ih, List.mem_cons]
        constructor
        · rintro (rfl | rfl | ⟨hmem, hne⟩)
          · exact .inr ⟨.inl rfl, hne.symm⟩
          · exact .inl rfl
          · exact .inr ⟨.inr hmem, hne⟩
        · rintro (rfl | ⟨rfl | hmem, hne⟩)
          · exact .inr (.inl rfl)
          · exact .inl rfl
          · exact .inr (.inr ⟨hmem, hne⟩)

/-! ## Agreement -/

/-- The rows are those of the saves in force, and these have different hashes. -/
structure ApiKeys.Stands (fmt : NumberFormat) (t : ApiKeys) (history : KeyHistory) : Prop where
  get?_iff : ∀ keyId row, t.rows.get? keyId = some row ↔
    ∃ s ∈ inForce history.saves, s.keyId = keyId ∧ s.record fmt = row
  distinct : ∀ s ∈ inForce history.saves, ∀ s' ∈ inForce history.saves,
    s.keyHash = s'.keyHash → s = s'

namespace ApiKeys.Stands

variable {fmt : NumberFormat} {t : ApiKeys} {history : KeyHistory}

theorem mem_entries_iff (h : t.Stands fmt history) {e : String × KeyRecord} :
    e ∈ t.rows.entries ↔ ∃ s ∈ inForce history.saves, (s.keyId, s.record fmt) = e := by
  rw [← Prod.mk.eta (p := e), OrderedDict.mem_entries, h.get?_iff]
  simp only [Prod.mk.injEq]

/-- A save finds its hash taken in the rows exactly if another key in force has it. -/
theorem any_entries (h : t.Stands fmt history) (save : KeySave) :
    (t.rows.entries.any fun e => e.1 ≠ save.keyId && e.2.keyHash = save.keyHash) =
      (inForce history.saves).any fun s => s.keyId ≠ save.keyId && s.keyHash = save.keyHash := by
  rw [Bool.eq_iff_iff, List.any_eq_true, List.any_eq_true]
  constructor
  · rintro ⟨e, he, htaken⟩
    obtain ⟨s, hs, rfl⟩ := h.mem_entries_iff.mp he
    exact ⟨s, hs, htaken⟩
  · rintro ⟨s, hs, htaken⟩
    exact ⟨_, h.mem_entries_iff.mpr ⟨s, hs, rfl⟩, htaken⟩

/-- The row with a hash is that of the key in force with it. -/
theorem find?_entries (h : t.Stands fmt history) (keyHash : String) :
    (t.rows.entries.find? fun e => e.2.keyHash = keyHash) =
      (history.standing keyHash).map fun s => (s.keyId, s.record fmt) := by
  cases hfound : t.rows.entries.find? fun e => e.2.keyHash = keyHash with
  | none =>
    have hnone : history.standing keyHash = none := by
      rw [List.find?_eq_none] at hfound
      refine List.find?_eq_none.mpr fun s hs => ?_
      exact hfound _ (h.mem_entries_iff.mpr ⟨s, hs, rfl⟩)
    rw [hnone]
    rfl
  | some e =>
    obtain ⟨s, hs, rfl⟩ := h.mem_entries_iff.mp (List.mem_of_find?_eq_some hfound)
    have hhash : (s.record fmt).keyHash = keyHash := by simpa using List.find?_some hfound
    have hsome : ((inForce history.saves).find? fun s => s.keyHash = keyHash).isSome :=
      List.find?_isSome.mpr ⟨s, hs, decide_eq_true hhash⟩
    obtain ⟨s', hs'⟩ := Option.isSome_iff_exists.mp hsome
    have hhash' : s'.keyHash = keyHash := by simpa using List.find?_some hs'
    obtain rfl : s = s' :=
      h.distinct s hs s' (List.mem_of_find?_eq_some hs') (hhash.trans hhash'.symm)
    rw [KeyHistory.standing, hs']
    rfl

theorem getApiKeyByHash_eq (h : t.Stands fmt history) (keyHash : String) :
    t.getApiKeyByHash fmt keyHash = .ok ((history.standing keyHash).map KeySave.row) := by
  rw [getApiKeyByHash, h.find?_entries]
  cases history.standing keyHash with
  | none => rfl
  | some s =>
    have hvalid : Valid fmt (textsJson s.kbAcl) := valid_textsJson s.kbAcl
    have hread : readColumn fmt (orDefault (s.record fmt).kbAcl "[]") =
        some (textsJson s.kbAcl) := by
      rw [KeySave.record, orDefault, if_neg (jsonColumn_ne .dumpsText hvalid),
        readColumn_jsonColumn .dumpsText hvalid]
    simp only [Option.map_some, hread]
    cases henabled : s.enabled with
    | true => simp [KeySave.row, KeySave.record, henabled]
    | false => simp [KeySave.row, KeySave.record, henabled]

theorem insert (h : t.Stands fmt history) {save : KeySave}
    (hfree : ¬ (inForce history.saves).any fun s =>
      s.keyId ≠ save.keyId && s.keyHash = save.keyHash) :
    ApiKeys.Stands fmt ⟨t.rows.insert save.keyId (save.record fmt)⟩ ⟨history.saves ++ [save]⟩ where
  get?_iff keyId row := by
    simp only [OrderedDict.get?_insert, mem_inForce_concat]
    split_ifs with hkey
    · subst hkey
      constructor
      · intro hrow
        exact ⟨save, .inl rfl, rfl, Option.some.inj hrow⟩
      · rintro ⟨s, rfl | ⟨-, hne⟩, hkey, rfl⟩
        · rfl
        · exact absurd hkey hne
    · rw [h.get?_iff]
      constructor
      · rintro ⟨s, hs, rfl, hrow⟩
        exact ⟨s, .inr ⟨hs, Ne.symm hkey⟩, rfl, hrow⟩
      · rintro ⟨s, rfl | ⟨hs, -⟩, hid, hrow⟩
        · exact absurd hid hkey
        · exact ⟨s, hs, hid, hrow⟩
  distinct := by
    have hnot : ∀ s ∈ inForce history.saves, s.keyId ≠ save.keyId → s.keyHash ≠ save.keyHash := by
      intro s hs hne heq
      exact hfree (List.any_eq_true.mpr ⟨s, hs, by simp [hne, heq]⟩)
    simp only [mem_inForce_concat]
    rintro s (rfl | ⟨hs, hne⟩) s' (rfl | ⟨hs', hne'⟩) heq
    · rfl
    · exact absurd heq.symm (hnot s' hs' hne')
    · exact absurd heq (hnot s hs hne)
    · exact h.distinct s hs s' hs' heq

end ApiKeys.Stands

variable {fmt : NumberFormat} {t : ApiKeys} {history : KeyHistory}

theorem ApiKeys.call_eq (lib : AuthLib) (security : AuthSettings) (h : t.Stands fmt history)
    (call : KeyCall) :
    (ApiKeys.call fmt lib security t call).1.Stands fmt
        (KeyHistory.call lib security history call).1 ∧
      (ApiKeys.call fmt lib security t call).2 = (KeyHistory.call lib security history call).2 := by
  cases call with
  | save save =>
    by_cases htaken : (inForce history.saves).any fun s =>
        s.keyId ≠ save.keyId && s.keyHash = save.keyHash
    · have hsave : t.saveApiKey fmt save = .error hashTaken := by
        rw [saveApiKey, h.any_entries, if_pos htaken]
      simp only [ApiKeys.call, hsave, KeyHistory.call, if_pos htaken]
      exact ⟨h, trivial⟩
    · have hsave : t.saveApiKey fmt save =
          .ok ⟨t.rows.insert save.keyId (save.record fmt)⟩ := by
        rw [saveApiKey, h.any_entries, if_neg htaken]
      simp only [ApiKeys.call, hsave, KeyHistory.call, if_neg htaken]
      exact ⟨h.insert htaken, trivial⟩
  | resolve headers now =>
    have hstore : t.getApiKeyByHash fmt =
        fun keyHash => .ok ((history.standing keyHash).map KeySave.row) :=
      funext h.getApiKeyByHash_eq
    rw [ApiKeys.call, hstore]
    exact ⟨h, rfl⟩

/-- In whatever order keys are saved and requests come, a save is refused exactly if another key
in force has its hash, and every request is resolved by the keys in force. -/
theorem ApiKeys.replies_by_history (fmt : NumberFormat) (lib : AuthLib) (security : AuthSettings)
    (calls : List KeyCall) :
    repliesOf (ApiKeys.call fmt lib security) {} calls =
      repliesOf (KeyHistory.call lib security) {} calls := by
  have hstart : ApiKeys.Stands fmt {} {} :=
    ⟨fun keyId row => by simp [inForce], fun s hs => absurd hs List.not_mem_nil⟩
  have hcall : ∀ call ∈ calls, ∀ t history, ApiKeys.Stands fmt t history →
      ApiKeys.Stands fmt (ApiKeys.call fmt lib security t call).1
          (KeyHistory.call lib security history call).1 ∧
        (ApiKeys.call fmt lib security t call).2 = (KeyHistory.call lib security history call).2 :=
    fun call _ _ _ h => ApiKeys.call_eq lib security h call
  exact repliesOf_congr hcall hstart

end Ragx
