import Ragx.EventRuns
import Ragx.QuotaMiddleware

/-!
# The upload quota over a month

A rejected upload stays on the counter, and an upload without a Content-Length is counted as
nothing. So the quota decides as it should only in months in which it never has to reject.
-/
namespace Ragx

/-- An upload. The server only hands on a body of the declared length. -/
structure Upload where
  tenantId : Option String := none
  contentLength : Option String := none
  size : ℕ
  declared : ∀ cl ∈ contentLength, pyInt cl = some (size : ℤ)

def Upload.request (upload : Upload) : HttpRequest where
  method := "POST"
  path := "/v1/documents"
  tenantId := upload.tenantId
  contentLength := upload.contentLength

abbrev Upload.tenant (upload : Upload) : String := upload.request.tenant

/-- The bytes of a tenant's uploads. -/
def uploadedBytes (tenant : String) (uploads : List Upload) : ℕ :=
  ((uploads.filter fun upload => upload.tenant = tenant).map (·.size)).sum

/-- The application behind the middleware. -/
structure QuotaEnv where
  config : SecurityConfig
  clock : QuotaClock
  callNext : HttpRequest → HttpResponse

/-- The counters, and the uploads that were let through so far. -/
structure UploadRun where
  store : QuotaStore
  admitted : List Upload := []

namespace UploadRun

variable (env : QuotaEnv) (tenant : String)

def step (w : UploadRun) (upload : Upload) : Option UploadRun :=
  match env.config.dispatch env.clock env.callNext w.store upload.request with
  | (store, .error _) => some { w with store }
  | (store, .ok _) => some { store, admitted := w.admitted ++ [upload] }

def counter (w : UploadRun) : ℤ := (w.store.usage env.clock.periodStart tenant).uploadBytes

/-- An upload is let through exactly if it fits under the cap, and counts nothing if not. -/
def QuotaExact (w : UploadRun) (upload : Upload) (w' : UploadRun) : Prop :=
  upload.tenant = tenant →
    (w'.admitted = w.admitted ++ [upload] ↔
      uploadedBytes tenant w.admitted + upload.size ≤ env.config.monthlyUploadQuotaBytes) ∧
    (w'.admitted = w.admitted → w'.counter env tenant = w.counter env tenant)

end UploadRun

/-! ## One upload -/

theorem Upload.isUpload_request (upload : Upload) : upload.request.isUpload = true := by
  have hpath : "/v1/documents".toList.isSuffixOf "/v1/documents".toList = true := by decide
  simp only [HttpRequest.isUpload, Upload.request, decide_true, Bool.true_and, hpath]

/-- An upload is counted with its size, or not at all. -/
theorem Upload.declaredSize_request (upload : Upload) :
    upload.request.declaredSize = upload.size ∨ upload.request.declaredSize = 0 := by
  unfold HttpRequest.declaredSize Upload.request
  dsimp only
  cases hlength : upload.contentLength with
  | none => exact Or.inr rfl
  | some cl =>
    dsimp only
    split_ifs with hempty
    · exact Or.inr rfl
    · rw [upload.declared cl hlength]
      exact Or.inl rfl

theorem uploadedBytes_append (tenant : String) (front back : List Upload) :
    uploadedBytes tenant (front ++ back) =
      uploadedBytes tenant front + uploadedBytes tenant back := by
  simp [uploadedBytes]

theorem uploadedBytes_singleton (upload : Upload) :
    uploadedBytes upload.tenant [upload] = upload.size := by
  simp [uploadedBytes]

theorem uploadedBytes_singleton_of_ne {upload : Upload} {tenant : String}
    (h : upload.tenant ≠ tenant) : uploadedBytes tenant [upload] = 0 := by
  simp [uploadedBytes, h]

theorem uploadedBytes_cons (tenant : String) (upload : Upload) (uploads : List Upload) :
    uploadedBytes tenant (upload :: uploads) =
      uploadedBytes tenant [upload] + uploadedBytes tenant uploads :=
  uploadedBytes_append tenant [upload] uploads

namespace UploadRun

variable {env : QuotaEnv} {tenant : String} {w : UploadRun} {upload : Upload}

/-- What the middleware does with an upload: it counts the declared size, and lets the upload
through if the counter stays within the cap. -/
theorem step_spec (hcap : 0 < env.config.monthlyUploadQuotaBytes) (w : UploadRun)
    (upload : Upload) :
    ∃ w', w.step env upload = some w' ∧
      (w'.admitted = if w.counter env upload.tenant + upload.request.declaredSize ≤
          env.config.monthlyUploadQuotaBytes then w.admitted ++ [upload] else w.admitted) ∧
      ∀ other, w'.counter env other = w.counter env other +
        if upload.tenant = other then upload.request.declaredSize else 0 := by
  have hgate : env.config.gateUpload env.clock w.store upload.request =
      ((w.store.addUpload env.clock.periodStart upload.tenant upload.request.declaredSize).1,
        if env.config.monthlyUploadQuotaBytes <
            w.counter env upload.tenant + upload.request.declaredSize then
          .error (env.config.uploadQuotaError env.clock upload.tenant
            (w.counter env upload.tenant + upload.request.declaredSize))
        else .ok ()) :=
    SecurityConfig.gateUpload_eq env.clock w.store hcap upload.isUpload_request
  have hcount (other : String) :
      ((w.store.addUpload env.clock.periodStart upload.request.tenant
        upload.request.declaredSize).1.usage env.clock.periodStart other).uploadBytes =
      w.counter env other + if upload.tenant = other then upload.request.declaredSize else 0 := by
    rw [QuotaStore.addUpload, QuotaStore.usage_add]
    by_cases hother : upload.tenant = other
    · rw [if_pos hother, if_pos hother]
      rfl
    · rw [if_neg hother, if_neg hother, add_zero]
      rfl
  by_cases hfits : w.counter env upload.tenant + upload.request.declaredSize ≤
      env.config.monthlyUploadQuotaBytes
  · rw [if_neg (not_lt.mpr hfits)] at hgate
    simp only [step, SecurityConfig.dispatch, hgate, if_pos hfits, Option.some.injEq]
    refine ⟨_, rfl, rfl, fun other => ?_⟩
    rw [counter, SecurityConfig.uploadBytes_countTokens]
    exact hcount other
  · rw [if_pos (not_le.mp hfits)] at hgate
    simp only [step, SecurityConfig.dispatch, hgate, if_neg hfits, Option.some.injEq]
    exact ⟨_, rfl, rfl, hcount⟩

/-! ## A month of uploads -/

/-- As long as every upload of the tenant fitted, the counter is not above its bytes. -/
structure Metered (env : QuotaEnv) (tenant : String) (w : UploadRun) : Prop where
  le_bytes : w.counter env tenant ≤ uploadedBytes tenant w.admitted
  le_cap : uploadedBytes tenant w.admitted ≤ env.config.monthlyUploadQuotaBytes

theorem quotaExact_step {w' : UploadRun} (hcap : 0 < env.config.monthlyUploadQuotaBytes)
    (hw : Metered env tenant w) (hstep : w.step env upload = some w') :
    (w.QuotaExact env tenant upload w' ↔ uploadedBytes tenant w.admitted +
        uploadedBytes tenant [upload] ≤ env.config.monthlyUploadQuotaBytes) ∧
      (uploadedBytes tenant w.admitted + uploadedBytes tenant [upload] ≤
          env.config.monthlyUploadQuotaBytes →
        Metered env tenant w' ∧ uploadedBytes tenant w'.admitted =
          uploadedBytes tenant w.admitted + uploadedBytes tenant [upload]) := by
  obtain ⟨w'', hw'', hadmitted, hcounter⟩ := step_spec hcap w upload
  obtain rfl : w' = w'' := Option.some.inj (hstep.symm.trans hw'')
  by_cases htenant : upload.tenant = tenant
  · subst htenant
    have hle := hw.le_bytes
    have hmonth := hw.le_cap
    have hsize : upload.request.declaredSize = upload.size ∨ upload.request.declaredSize = 0 :=
      upload.declaredSize_request
    have hcount := hcounter upload.tenant
    rw [if_pos rfl] at hcount
    rw [uploadedBytes_singleton]
    have hne : w.admitted ++ [upload] ≠ w.admitted := by simp
    by_cases hfits : uploadedBytes upload.tenant w.admitted + upload.size ≤
        env.config.monthlyUploadQuotaBytes
    · rw [if_pos (by omega)] at hadmitted
      refine ⟨iff_of_true (fun _ => ⟨iff_of_true hadmitted hfits, fun h => ?_⟩) hfits,
        fun _ => ⟨⟨?_, ?_⟩, ?_⟩⟩
      · exact absurd (hadmitted.symm.trans h) hne
      · rw [hadmitted, uploadedBytes_append, uploadedBytes_singleton, hcount]
        push_cast
        omega
      · rw [hadmitted, uploadedBytes_append, uploadedBytes_singleton]
        exact hfits
      · rw [hadmitted, uploadedBytes_append, uploadedBytes_singleton]
    · refine ⟨iff_of_false (fun hexact => ?_) hfits, fun h => absurd h hfits⟩
      obtain ⟨hiff, hkept⟩ := hexact rfl
      split_ifs at hadmitted with hroom
      · exact hfits (hiff.mp hadmitted)
      · -- a rejected upload has been counted with its size
        have hsame := hkept hadmitted
        omega
  · have hother := hcounter tenant
    rw [if_neg htenant, add_zero] at hother
    have hbytes : uploadedBytes tenant w'.admitted = uploadedBytes tenant w.admitted := by
      rw [hadmitted]
      split_ifs
      · rw [uploadedBytes_append, uploadedBytes_singleton_of_ne htenant, Nat.add_zero]
      · rfl
    rw [uploadedBytes_singleton_of_ne htenant, Nat.add_zero]
    refine ⟨iff_of_true (fun h => absurd h htenant) hw.le_cap, fun _ => ⟨⟨?_, ?_⟩, hbytes⟩⟩
    · rw [hother, hbytes]
      exact hw.le_bytes
    · rw [hbytes]
      exact hw.le_cap

theorem quotaExact_run (hcap : 0 < env.config.monthlyUploadQuotaBytes)
    (hw : Metered env tenant w) (uploads : List Upload) :
    EveryStep (step env) (QuotaExact env tenant) w uploads ↔
      uploadedBytes tenant w.admitted + uploadedBytes tenant uploads ≤
        env.config.monthlyUploadQuotaBytes := by
  induction uploads generalizing w with
  | nil => exact iff_of_true trivial hw.le_cap
  | cons upload uploads ih =>
    obtain ⟨w', hstep, _⟩ := step_spec hcap w upload
    obtain ⟨hexact, hnext⟩ := quotaExact_step hcap hw hstep
    have hcons := uploadedBytes_cons tenant upload uploads
    rw [everyStep_cons hstep, hexact]
    constructor
    · rintro ⟨hfits, hrest⟩
      obtain ⟨hw', hbytes⟩ := hnext hfits
      have htotal := (ih hw').mp hrest
      omega
    · intro htotal
      have hfits : uploadedBytes tenant w.admitted + uploadedBytes tenant [upload] ≤
          env.config.monthlyUploadQuotaBytes := by omega
      obtain ⟨hw', hbytes⟩ := hnext hfits
      exact ⟨hfits, (ih hw').mpr (by omega)⟩

/-- From a counter at zero the quota decides every upload of a tenant as it should exactly if
all its uploads together fit under the cap. -/
theorem uploadQuota_iff (env : QuotaEnv) (tenant : String) (store : QuotaStore)
    (uploads : List Upload) (hcap : 0 < env.config.monthlyUploadQuotaBytes)
    (hstart : (store.usage env.clock.periodStart tenant).uploadBytes = 0) :
    EveryStep (step env) (QuotaExact env tenant) { store } uploads ↔
      uploadedBytes tenant uploads ≤ env.config.monthlyUploadQuotaBytes := by
  have hw : Metered env tenant { store } := ⟨hstart.le, Nat.zero_le _⟩
  rw [quotaExact_run hcap hw, show uploadedBytes tenant [] = 0 from rfl, Nat.zero_add]

/-- A cap of ten bytes in the month of May. -/
def tenBytes : QuotaEnv where
  config := { monthlyUploadQuotaBytes := 10 }
  clock := { periodStart := "2026-05-01T00:00:00+00:00" }
  callNext := fun _ => {}

def declaring (size : ℕ) (text : String) (h : pyInt text = some (size : ℤ)) : Upload where
  size := size
  contentLength := some text
  declared cl hcl := by
    cases hcl
    exact h

theorem uploadQuota_iff_tenBytes :
    EveryStep (step tenBytes) (QuotaExact tenBytes "default") { store := .inMemory .empty }
        [declaring 8 "8" (by decide +kernel)] ↔
      uploadedBytes "default" [declaring 8 "8" (by decide +kernel)] ≤ 10 :=
  uploadQuota_iff tenBytes "default" (.inMemory .empty) _ (by decide) rfl

def undeclared (size : ℕ) : Upload where
  size := size
  declared _ hcl := absurd hcl (Option.not_mem_none _)

/-- Eight bytes go through, five are rejected, and then there is no room for two either; and a
hundred bytes without a Content-Length go through. -/
theorem not_quotaExact_tenBytes :
    ¬ EveryStep (step tenBytes) (QuotaExact tenBytes "default") { store := .inMemory .empty }
        [declaring 8 "8" (by decide +kernel), declaring 5 "5" (by decide +kernel),
          declaring 2 "2" (by decide +kernel)] ∧
      ¬ EveryStep (step tenBytes) (QuotaExact tenBytes "default") { store := .metadata .empty }
        [undeclared 100] := by
  constructor
  · intro h
    exact absurd ((quotaExact_run (by decide) ⟨le_rfl, by decide⟩ _).mp h) (by decide)
  · intro h
    exact absurd ((quotaExact_run (by decide) ⟨le_rfl, by decide⟩ _).mp h) (by decide)

end UploadRun

end Ragx
