import Ragx.RoutedModels

/-!
# Replies that cannot be parsed

The retry loop of one target, with the number of calls it makes and the way it ends. A reply
that cannot be parsed is tried again only if it is the first one, and the loop has one counter
for all kinds of failures.
-/
namespace Ragx

section ParseRetries

variable {α : Type}

/-- The ways out of the loop; the last one is the statement behind it. -/
inductive LoopEnd (α : Type) where
  | answered (a : α)
  | exhausted
  | raised (e : Exc)
  | unreachable

/-- From `attempt = 1024` on, `2 ** attempt * 0.5` is too large for a float. -/
def delayError : Exc := .foreign "int too large to convert to float"

/-- The loop at `attempt` with `left` passes left: the calls to the provider and the end. -/
def retryLoop (maxRetries : ℕ) (outs : ℕ → Except Exc α) (attempt : ℕ) : ℕ → ℕ × LoopEnd α
  | 0 => (attempt, .unreachable)
  | left + 1 =>
    match outs attempt with
    | .ok a => (attempt + 1, .answered a)
    | .error e =>
      if e.cls = .structuredParse then
        if 1 ≤ attempt then (attempt + 1, .raised e)
        else retryLoop maxRetries outs (attempt + 1) left
      else if e.isProviderFailure then
        if e.isLLMError && !e.retryable then (attempt + 1, .raised e)
        else if attempt = maxRetries then (attempt + 1, .exhausted)
        else if 1024 ≤ attempt then (attempt + 1, .raised delayError)
        else retryLoop maxRetries outs (attempt + 1) left
      else (attempt + 1, .raised e)

/-- `_call_with_retry` and `_structured_with_retry`. -/
def targetLoop (maxRetries : ℕ) (outs : ℕ → Except Exc α) : ℕ × LoopEnd α :=
  retryLoop maxRetries outs 0 (maxRetries + 1)

def LoopEnd.result : LoopEnd α → CallResult α
  | .answered a => .answered a
  | .exhausted => .exhausted
  | .raised e => .raised e
  | .unreachable => .exhausted

def IsParseFailure (out : Except Exc α) : Prop := ∃ e, out = .error e ∧ e.cls = .structuredParse

/-- A failure that the loop sleeps after. -/
def IsTransient (out : Except Exc α) : Prop :=
  ∃ e, out = .error e ∧ e.cls ≠ .structuredParse ∧ e.isProviderFailure = true ∧
    (e.isLLMError && !e.retryable) = false

/-- The first reply that cannot be parsed is followed by another call, a second one ends the
target, and the loop never runs out. -/
structure ParseRetriedOnce (maxRetries : ℕ) (outs : ℕ → Except Exc α) : Prop where
  retried : ∀ i < (targetLoop maxRetries outs).1, IsParseFailure (outs i) →
    (∀ j < i, ¬ IsParseFailure (outs j)) → i + 1 < (targetLoop maxRetries outs).1
  final : ∀ i < (targetLoop maxRetries outs).1, IsParseFailure (outs i) →
    ∀ j < i, IsParseFailure (outs j) →
      ∃ e, outs i = .error e ∧ targetLoop maxRetries outs = (i + 1, .raised e)
  reachable : (targetLoop maxRetries outs).2 ≠ .unreachable

/-- The only call is parsed, and no transient failures lead to a reply that cannot be. -/
def ParsesBehindFailures (maxRetries : ℕ) (outs : ℕ → Except Exc α) : Prop :=
  (maxRetries = 0 → ¬ IsParseFailure (outs 0)) ∧
    ∀ i, 0 < i → i ≤ maxRetries → i ≤ 1024 → (∀ j < i, IsTransient (outs j)) →
      ¬ IsParseFailure (outs i)

/-! ## The loop -/

variable {maxRetries attempt left : ℕ} {outs : ℕ → Except Exc α}

theorem IsTransient.not_parse {out : Except Exc α} (h : IsTransient out) :
    ¬ IsParseFailure out := by
  rintro ⟨e, rfl, hparse⟩
  obtain ⟨e', he', hother, -⟩ := h
  cases he'
  exact hother hparse

/-- As long as its delays are numbers, the loop ends as the router's. -/
theorem result_retryLoop (hmax : maxRetries ≤ 1024) (hl : attempt + left = maxRetries + 1) :
    (retryLoop maxRetries outs attempt left).2.result =
      attemptsFrom maxRetries outs attempt left := by
  induction left generalizing attempt with
  | zero => rfl
  | succ left ih =>
    rw [retryLoop, attemptsFrom]
    cases outs attempt with
    | ok a => rfl
    | error e =>
      dsimp only
      have hrest : (retryLoop maxRetries outs (attempt + 1) left).2.result =
          attemptsFrom maxRetries outs (attempt + 1) left := ih (by omega)
      split_ifs with h₁ h₂ h₃ h₄ h₅ h₆
      · rfl
      · exact hrest
      · rfl
      · rfl
      · omega
      · exact hrest
      · rfl

theorem result_targetLoop (hmax : maxRetries ≤ 1024) :
    (targetLoop maxRetries outs).2.result = callWithRetry maxRetries outs :=
  result_retryLoop hmax (by omega)

/-- What one pass does. -/
theorem retryLoop_succ (hl : attempt + (left + 1) = maxRetries + 1) :
    (IsTransient (outs attempt) ∧ attempt < maxRetries ∧ attempt < 1024 ∨
        IsParseFailure (outs attempt) ∧ attempt = 0) ∧
      retryLoop maxRetries outs attempt (left + 1) =
        retryLoop maxRetries outs (attempt + 1) left ∨
    ∃ ended, retryLoop maxRetries outs attempt (left + 1) = (attempt + 1, ended) ∧
      ended ≠ .unreachable ∧
      ∀ e, outs attempt = .error e → e.cls = .structuredParse →
        0 < attempt ∧ ended = .raised e := by
  rw [retryLoop]
  cases hout : outs attempt with
  | ok a => exact Or.inr ⟨_, rfl, nofun, nofun⟩
  | error e =>
    dsimp only
    split_ifs with hparse hlate hfail hfinal hmax hfar
    · refine Or.inr ⟨_, rfl, nofun, ?_⟩
      rintro e' ⟨⟩ -
      exact ⟨hlate, rfl⟩
    · exact Or.inl ⟨Or.inr ⟨⟨e, rfl, hparse⟩, by omega⟩, rfl⟩
    · exact Or.inr ⟨_, rfl, nofun, by rintro e' ⟨⟩ h; exact absurd h hparse⟩
    · exact Or.inr ⟨_, rfl, nofun, by rintro e' ⟨⟩ h; exact absurd h hparse⟩
    · exact Or.inr ⟨_, rfl, nofun, by rintro e' ⟨⟩ h; exact absurd h hparse⟩
    · exact Or.inl ⟨Or.inl ⟨⟨e, rfl, hparse, hfail, Bool.eq_false_iff.mpr hfinal⟩, by omega,
        by omega⟩, rfl⟩
    · exact Or.inr ⟨_, rfl, nofun, by rintro e' ⟨⟩ h; exact absurd h hparse⟩

/-- Behind its first pass the loop goes on over transient failures only, and ends in a pass. -/
theorem retryLoop_late (hpos : 0 < attempt) (hle : attempt ≤ maxRetries)
    (hl : attempt + left = maxRetries + 1) :
    ∃ k ended, retryLoop maxRetries outs attempt left = (k + 1, ended) ∧
      attempt ≤ k ∧ k ≤ maxRetries ∧ ended ≠ .unreachable ∧
      (∀ i, attempt ≤ i → i < k → IsTransient (outs i) ∧ i < 1024) ∧
      ∀ e, outs k = .error e → e.cls = .structuredParse → ended = .raised e := by
  induction left generalizing attempt with
  | zero => omega
  | succ left ih =>
    rcases @retryLoop_succ _ _ _ _ outs hl with ⟨hgoes, heq⟩ | ⟨ended, heq, hends, hparse⟩
    · rw [heq]
      rcases hgoes with ⟨htransient, hlt, hnear⟩ | ⟨-, hzero⟩
      · obtain ⟨k, ended, hloop, hk, hmax, hends, hbefore, hparse⟩ :=
          ih (by omega) hlt (by omega)
        refine ⟨k, ended, hloop, by omega, hmax, hends, fun i hi hik => ?_, hparse⟩
        rcases hi.eq_or_lt with rfl | hi
        · exact ⟨htransient, hnear⟩
        · exact hbefore i hi hik
      · omega
    · rw [heq]
      exact ⟨attempt, ended, rfl, le_rfl, hle, hends, fun i hi hik => by omega,
        fun e he hcls => (hparse e he hcls).2⟩

/-- Transient failures whose delays are numbers lead on to the next attempt. -/
theorem targetLoop_of_transient {k : ℕ} (hle : k ≤ maxRetries) (hnear : k ≤ 1024)
    (h : ∀ j < k, IsTransient (outs j)) :
    targetLoop maxRetries outs = retryLoop maxRetries outs k (maxRetries + 1 - k) := by
  induction k with
  | zero => rfl
  | succ k ih =>
    rw [ih (by omega) (by omega) fun j hj => h j (by omega),
      show maxRetries + 1 - k = maxRetries + 1 - (k + 1) + 1 by omega]
    obtain ⟨e, he, hparse, hfail, hfinal⟩ := h k (by omega)
    rw [retryLoop, he]
    dsimp only
    rw [if_neg hparse, if_pos hfail, if_neg (Bool.eq_false_iff.mp hfinal), if_neg (by omega),
      if_neg (by omega)]

/-- A reply that cannot be parsed is met behind its first chance to be tried again. -/
theorem parsesBehindFailures_of_retriedOnce (h : ParseRetriedOnce maxRetries outs) :
    ParsesBehindFailures maxRetries outs := by
  constructor
  · rintro rfl ⟨e, he, hparse⟩
    have hloop : targetLoop 0 outs = (1, .unreachable) := by
      rw [targetLoop, retryLoop, he]
      dsimp only
      rw [if_pos hparse, if_neg (by omega), retryLoop]
    exact h.reachable (by rw [hloop])
  · rintro i hpos hle hnear hbefore ⟨e, he, hparse⟩
    have hloop : targetLoop maxRetries outs = (i + 1, .raised e) := by
      rw [targetLoop_of_transient hle hnear hbefore,
        show maxRetries + 1 - i = maxRetries - i + 1 by omega, retryLoop, he]
      dsimp only
      rw [if_pos hparse, if_pos (Nat.one_le_iff_ne_zero.mpr hpos.ne')]
    have hmore := h.retried i (by rw [hloop]; omega) ⟨e, he, hparse⟩
      fun j hj => (hbefore j hj).not_parse
    rw [hloop] at hmore
    omega

/-- A loop whose first pass goes on is decided by its last pass. -/
theorem retriedOnce_of_late (hclear : ParsesBehindFailures maxRetries outs)
    (hmax : 0 < maxRetries) (hfirst : IsTransient (outs 0) ∨ IsParseFailure (outs 0))
    (hloop : targetLoop maxRetries outs = retryLoop maxRetries outs 1 maxRetries) :
    ParseRetriedOnce maxRetries outs := by
  obtain ⟨k, ended, hlate, hk, hkmax, hends, hbefore, hparse⟩ :=
    @retryLoop_late _ _ _ _ outs one_pos hmax (Nat.add_comm 1 maxRetries)
  rw [hlate] at hloop
  -- behind the first pass only the last one can meet a reply that cannot be parsed
  have hlast (i : ℕ) (hi : i < k + 1) (hpos : 0 < i) (hfails : IsParseFailure (outs i)) :
      i = k := by
    by_contra hne
    exact (hbefore i hpos (by omega)).1.not_parse hfails
  refine ⟨fun i hi hfails hnew => ?_, fun i hi hfails j hj _ => ?_, ?_⟩
  · rw [hloop] at hi ⊢
    rcases Nat.eq_zero_or_pos i with rfl | hpos
    · exact Nat.succ_lt_succ hk
    · obtain rfl := hlast i hi hpos hfails
      have htransient (j : ℕ) (hj : j < i) : IsTransient (outs j) := by
        rcases Nat.eq_zero_or_pos j with rfl | hjpos
        · exact hfirst.resolve_right (hnew 0 hj)
        · exact (hbefore j hjpos hj).1
      have hnear : i ≤ 1024 := by
        by_contra hfar
        have hdelay := (hbefore (i - 1) (by omega) (by omega)).2
        omega
      exact absurd hfails (hclear.2 i hpos hkmax hnear htransient)
  · rw [hloop] at hi ⊢
    obtain rfl := hlast i hi (by omega) hfails
    obtain ⟨e, he, hcls⟩ := hfails
    exact ⟨e, he, by rw [hparse e he hcls]⟩
  · rw [hloop]
    exact hends

/-- A reply that cannot be parsed is retried exactly once if and only if the only call there is
is parsed, and no transient failures come before the first such reply. -/
theorem parseRetriedOnce_iff (maxRetries : ℕ) (outs : ℕ → Except Exc α) :
    ParseRetriedOnce maxRetries outs ↔ ParsesBehindFailures maxRetries outs := by
  refine ⟨parsesBehindFailures_of_retriedOnce, fun hclear => ?_⟩
  have hfirst := @retryLoop_succ _ _ _ _ outs (Nat.zero_add (maxRetries + 1))
  rw [Nat.zero_add] at hfirst
  rcases hfirst with ⟨⟨htransient, hmax, -⟩ | ⟨hparse, -⟩, hloop⟩ | ⟨ended, hloop, hends, hone⟩
  · exact retriedOnce_of_late hclear hmax (Or.inl htransient) hloop
  · have hmax : 0 < maxRetries := Nat.pos_of_ne_zero fun hzero => hclear.1 hzero hparse
    exact retriedOnce_of_late hclear hmax (Or.inr hparse) hloop
  · -- the first pass is the only one
    have honly : targetLoop maxRetries outs = (1, ended) := hloop
    have hparsed : ¬ IsParseFailure (outs 0) := by
      rintro ⟨e, he, hcls⟩
      exact absurd (hone e he hcls).1 (lt_irrefl 0)
    refine ⟨fun i hi hfails _ => ?_, fun i hi hfails j hj _ => ?_, ?_⟩
    · rw [honly] at hi
      obtain rfl : i = 0 := by omega
      exact absurd hfails hparsed
    · rw [honly] at hi
      omega
    · rw [honly]
      exact hends

/-- A rate limit, and then a reply that cannot be parsed: there is no third call. -/
theorem not_parseRetriedOnce_rateLimited :
    ¬ ParseRetriedOnce (α := Unit) 3 fun i => .error
      (if i = 0 then rateLimited
      else { cls := .structuredParse, code := 6005, message := "cannot be parsed" }) := by
  intro h
  have hmore := h.retried 1 (by decide) ⟨_, rfl, rfl⟩ fun j hj hfails => ?_
  · revert hmore
    decide
  · obtain rfl : j = 0 := by omega
    obtain ⟨e, he, hcls⟩ := hfails
    cases he
    revert hcls
    decide

end ParseRetries

end Ragx
