import Ragx.SubmitIngest

/-!
# Submissions that fail

One submission runs alone, and a script says which of its awaited steps raise. A step that
raises has no effect of its own, except that the database may roll back the open
transaction.
-/
namespace Ragx

/-- The stores between transactions. -/
def SubmitStores.idle (tables : SubmitTables) (queued : List (String × String)) : SubmitStores where
  tables := tables
  committed := tables
  queued := queued

/-- For each step whether it raises, and then whether the transaction is rolled back. -/
abbrev FailureScript := SubmitAwait → Option Bool

namespace SubmitCall

/-- The awaited step takes place, or raises as the script says. -/
def proceed (fails : FailureScript) : SubmitStores × SubmitCall → SubmitStores × SubmitCall
  | (s, call) =>
    match call.status with
    | .awaiting step =>
      match fails step with
      | some rolledBack => (if rolledBack then s.rollback else s, call.raise)
      | none => call.advance s
    | _ => (s, call)

/-- A call makes six steps at most. -/
def runAlone (fails : FailureScript) (s : SubmitStores) (call : SubmitCall) :
    SubmitStores × SubmitCall :=
  (proceed fails)^[6] (s, call)

/-- If the call raises an error, the tables are as before, and if nothing had the same hash, the
same content is accepted and queued later on. -/
def AllOrNothing (sha256Hex : List UInt8 → String) (fails : FailureScript) (s : SubmitStores)
    (raw : RawDocument) (docId taskId : String) (createdAt : ℚ) : Prop :=
  let call := start sha256Hex raw docId taskId createdAt
  let after := call.runAlone fails s
  ∀ step, after.2.status = .raised step →
    after.1.tables = s.tables ∧
      (call.raw.key ∉ s.tables.documents.map (·.key) →
        ∀ (raw' : RawDocument) (docId' taskId' : String) (createdAt' : ℚ),
          raw'.kbId = raw.kbId → raw'.content = raw.content →
          some docId' ∉ after.1.tables.documents.map (·.docId) →
          let retry := start sha256Hex raw' docId' taskId' createdAt'
          let later := retry.runAlone (fun _ => none) after.1
          later.2.status = .returned retry.task ∧ (raw.kbId, taskId') ∈ later.1.queued)

/-- A document with the hash is found, or the call does not get past its INSERT. -/
def Unstored (fails : FailureScript) (tables : SubmitTables) (call : SubmitCall) : Prop :=
  call.raw.key ∈ tables.documents.map (·.key) ∨
    (fails .findDoc).isSome ∨ (fails .insertDoc).isSome ∨
    call.document.docId ∈ tables.documents.map (·.docId) ∨
    fails .commitDoc = some true

/-- Nothing raises behind the INSERT. -/
def Uninterrupted (fails : FailureScript) : Prop :=
  fails .commitDoc = none ∧ fails .insertTask = none ∧ fails .commitTask = none ∧
    fails .enqueue = none

section Alone

variable {fails : FailureScript} {call : SubmitCall} {s : SubmitStores}

theorem proceed_raise {step : SubmitAwait} {rolledBack : Bool} (h : call.status = .awaiting step)
    (hfails : fails step = some rolledBack) :
    proceed fails (s, call) =
      (if rolledBack then s.rollback else s, { call with status := .raised step }) := by
  rw [proceed, h]
  dsimp only
  rw [hfails]
  dsimp only
  rw [raise, h]

theorem proceed_advance {step : SubmitAwait} (h : call.status = .awaiting step)
    (hfails : fails step = none) : proceed fails (s, call) = call.advance s := by
  rw [proceed, h]
  dsimp only
  rw [hfails]

theorem iterate_settled (h : call.status.isAwaiting = false) (n : ℕ) :
    (proceed fails)^[n] (s, call) = (s, call) := by
  refine Function.iterate_fixed ?_ n
  rw [proceed]
  split
  · rename_i heq
    rw [heq] at h
    cases h
  · rfl

/-- The rest of a call that raises now. -/
theorem iterate_raise {step : SubmitAwait} {rolledBack : Bool} (h : call.status = .awaiting step)
    (hfails : fails step = some rolledBack) (n : ℕ) :
    (proceed fails)^[n + 1] (s, call) =
      (if rolledBack then s.rollback else s, { call with status := .raised step }) := by
  rw [Function.iterate_succ_apply, proceed_raise h hfails]
  exact iterate_settled rfl n

/-- The rest of a call that advances now. -/
theorem iterate_advance {step : SubmitAwait} (h : call.status = .awaiting step)
    (hfails : fails step = none) (n : ℕ) :
    (proceed fails)^[n + 1] (s, call) = (proceed fails)^[n] (call.advance s) := by
  rw [Function.iterate_succ_apply, proceed_advance h hfails]

/-- Behind its INSERT a call that nothing interrupts is accepted. -/
theorem accepted_of_inserted (h : call.status = .awaiting .commitDoc)
    (hfails : Uninterrupted fails) :
    ((proceed fails)^[4] (s, call)).2.status = .returned call.task ∧
      (call.raw.kbId, call.taskId) ∈ ((proceed fails)^[4] (s, call)).1.queued := by
  obtain ⟨raw, docId, taskId, createdAt, seen, status⟩ := call
  obtain ⟨hcommit, htask, hcommit', hqueue⟩ := hfails
  cases h
  rw [iterate_advance rfl hcommit, advance, iterate_advance rfl htask, advance,
    iterate_advance rfl hcommit', advance, iterate_advance rfl hqueue, advance]
  simp [SubmitStores.enqueue, task]

/-- Behind its INSERT a call that raises keeps its document, unless the INSERT is rolled
back. -/
theorem kept_of_inserted (h : call.status = .awaiting .commitDoc)
    (hcommit : fails .commitDoc ≠ some true) (hraises : ¬Uninterrupted fails) :
    (∃ step, ((proceed fails)^[4] (s, call)).2.status = .raised step) ∧
      ((proceed fails)^[4] (s, call)).1.tables.documents = s.tables.documents := by
  obtain ⟨raw, docId, taskId, createdAt, seen, status⟩ := call
  cases h
  cases hc : fails .commitDoc with
  | some rolledBack =>
    obtain rfl : rolledBack = false := by
      cases rolledBack with
      | false => rfl
      | true => exact absurd hc hcommit
    rw [iterate_raise rfl hc]
    exact ⟨⟨_, rfl⟩, rfl⟩
  | none =>
    rw [iterate_advance rfl hc, advance]
    cases ht : fails .insertTask with
    | some rolledBack =>
      rw [iterate_raise rfl ht]
      cases rolledBack <;> exact ⟨⟨_, rfl⟩, rfl⟩
    | none =>
      rw [iterate_advance rfl ht, advance]
      cases hc' : fails .commitTask with
      | some rolledBack =>
        rw [iterate_raise rfl hc']
        cases rolledBack <;> exact ⟨⟨_, rfl⟩, rfl⟩
      | none =>
        rw [iterate_advance rfl hc', advance]
        cases hq : fails .enqueue with
        | some rolledBack =>
          rw [iterate_raise rfl hq]
          cases rolledBack <;> exact ⟨⟨_, rfl⟩, rfl⟩
        | none => exact absurd ⟨hc, ht, hc', hq⟩ hraises

/-- Up to the INSERT: nothing is found, nothing raises, and the id is free. -/
theorem runAlone_of_inserted (h : call.status = .awaiting .findDoc)
    (hnew : call.raw.key ∉ s.tables.documents.map (·.key)) (hfind : fails .findDoc = none)
    (hinsert : fails .insertDoc = none)
    (hfree : call.document.docId ∉ s.tables.documents.map (·.docId)) :
    call.runAlone fails s = (proceed fails)^[4]
      ({ s with tables.documents := s.tables.documents ++ [call.document] },
        { call with seen := s.tables.documents.length, status := .awaiting .commitDoc }) := by
  obtain ⟨raw, docId, taskId, createdAt, seen, status⟩ := call
  cases h
  have hnone : s.findDocByHash raw.kbId raw.docHash = none :=
    SubmitRun.findDocByHash_eq_none.mpr hnew
  rw [runAlone, iterate_advance rfl hfind, advance]
  dsimp only
  rw [hnone]
  dsimp only
  rw [iterate_advance rfl hinsert, advance]
  dsimp only [SubmitStores.insertDoc, document] at hfree ⊢
  rw [if_neg hfree]

/-- A call that finds a document or does not get past its INSERT leaves idle stores alone. -/
theorem runAlone_unstored {tables : SubmitTables} {queued : List (String × String)}
    (h : call.status = .awaiting .findDoc)
    (hstopped : Unstored fails tables call) :
    (call.runAlone fails (.idle tables queued)).1 = .idle tables queued := by
  obtain ⟨raw, docId, taskId, createdAt, seen, status⟩ := call
  cases h
  have hback (rolledBack : Bool) : (if rolledBack = true then
      (SubmitStores.idle tables queued).rollback else .idle tables queued) =
        .idle tables queued := by
    cases rolledBack <;> rfl
  rw [runAlone]
  cases hf : fails .findDoc with
  | some rolledBack => rw [iterate_raise rfl hf, hback]
  | none =>
    rw [iterate_advance rfl hf, advance]
    dsimp only
    cases hfound : (SubmitStores.idle tables queued).findDocByHash raw.kbId raw.docHash with
    | some existing =>
      dsimp only
      cases hg : fails (.getTask existing.docId) with
      | some rolledBack => rw [iterate_raise rfl hg, hback]
      | none =>
        rw [iterate_advance rfl hg, advance]
        dsimp only
        rw [iterate_settled rfl]
    | none =>
      have hnew := SubmitRun.findDocByHash_eq_none.mp hfound
      dsimp only
      cases hi : fails .insertDoc with
      | some rolledBack => rw [iterate_raise rfl hi, hback]
      | none =>
        rw [iterate_advance rfl hi, advance]
        dsimp only [SubmitStores.insertDoc, Unstored, document] at hstopped ⊢
        split_ifs with htaken
        · dsimp only
          rw [iterate_settled rfl]
        · have hc : fails .commitDoc = some true := by
            rw [hf, hi] at hstopped
            rcases hstopped with h | h | h | h | h
            · exact absurd h hnew
            · cases h
            · cases h
            · exact absurd h htaken
            · exact h
          dsimp only
          rw [iterate_raise rfl hc]
          rfl

end Alone

/-- A later call for new content is accepted. -/
theorem accepted_of_new {s : SubmitStores} {call : SubmitCall}
    (h : call.status = .awaiting .findDoc)
    (hnew : call.raw.key ∉ s.tables.documents.map (·.key))
    (hfree : call.document.docId ∉ s.tables.documents.map (·.docId)) :
    (call.runAlone (fun _ => none) s).2.status = .returned call.task ∧
      (call.raw.kbId, call.taskId) ∈ (call.runAlone (fun _ => none) s).1.queued := by
  rw [runAlone_of_inserted h hnew rfl rfl hfree]
  exact accepted_of_inserted rfl ⟨rfl, rfl, rfl, rfl⟩

/-- A submission is all or nothing exactly if its content is already there, it never gets to
store the document, or nothing raises behind the INSERT of the document. -/
theorem allOrNothing_iff (sha256Hex : List UInt8 → String) (fails : FailureScript)
    (tables : SubmitTables) (queued : List (String × String)) (raw : RawDocument)
    (docId taskId : String) (createdAt : ℚ) :
    AllOrNothing sha256Hex fails (.idle tables queued) raw docId taskId createdAt ↔
      Unstored fails tables (start sha256Hex raw docId taskId createdAt) ∨
        Uninterrupted fails := by
  set call := start sha256Hex raw docId taskId createdAt with hcall
  have hstart : call.status = .awaiting .findDoc := rfl
  by_cases hstopped : Unstored fails tables call
  · refine iff_of_true (fun step _ => ?_) (Or.inl hstopped)
    rw [← hcall, runAlone_unstored hstart hstopped]
    refine ⟨rfl, fun hnew raw' docId' taskId' createdAt' hkb hcontent hfree => ?_⟩
    have hkey : (start sha256Hex raw' docId' taskId' createdAt').raw.key = call.raw.key := by
      simp [start, RawDocument.key, hcall, hkb, hcontent]
    rw [← hkb]
    exact accepted_of_new rfl (hkey ▸ hnew) hfree
  · rw [or_iff_right hstopped]
    simp only [Unstored, not_or, Bool.not_eq_true, Option.isSome_eq_false_iff,
      Option.isNone_iff_eq_none] at hstopped
    obtain ⟨hnew, hfind, hinsert, hfree, hcommit⟩ := hstopped
    let stored : SubmitStores × SubmitCall :=
      ({ SubmitStores.idle tables queued with
          tables.documents := tables.documents ++ [call.document] },
        { call with seen := tables.documents.length, status := .awaiting .commitDoc })
    have hstored : stored.2.status = .awaiting .commitDoc := rfl
    have hrun : call.runAlone fails (.idle tables queued) = (proceed fails)^[4] stored :=
      runAlone_of_inserted hstart hnew hfind hinsert hfree
    constructor
    · intro hall
      by_contra hraises
      obtain ⟨⟨step, hraised⟩, hkept⟩ := kept_of_inserted (s := stored.1) hstored hcommit hraises
      rw [← hrun] at hraised hkept
      have hsame := congrArg SubmitTables.documents (hall step hraised).1
      rw [hkept] at hsame
      exact absurd (congrArg List.length hsame) (by simp [stored, SubmitStores.idle])
    · intro huninterrupted step hraised
      have haccepted := (accepted_of_inserted (s := stored.1) hstored huninterrupted).1
      rw [← hrun] at haccepted
      cases haccepted.symm.trans hraised

/-- The queue cannot be reached. -/
def queueDown : FailureScript
  | .enqueue => some false
  | _ => none

/-- The upload fails at the queue, and its document and task stay in the store. -/
theorem failed_upload_stays_stored :
    ¬∀ (sha256Hex : List UInt8 → String) (fails : FailureScript) (tables : SubmitTables)
      (queued : List (String × String)) (raw : RawDocument) (docId taskId : String)
      (createdAt : ℚ),
      AllOrNothing sha256Hex fails (.idle tables queued) raw docId taskId createdAt := by
  intro hall
  have hatomic := hall SubmitRun.plainDigest queueDown {} [] (SubmitRun.sampleUpload "kb" [0x61])
    "doc_1" "task_1" 0
  have hsame := congrArg (·.documents.length) (hatomic .enqueue rfl).1
  exact absurd hsame (by decide +kernel)

end SubmitCall

end Ragx
