import Mathlib.Data.List.Basic
import Mathlib.Tactic.SplitIfs

/-!
# Ledgers of calls under a cap

Calls are in flight side by side, and each turns out to have used some of a budget when it is
settled. Once the cap is reached the ledger remembers which calls were in flight then. If no
call is issued from there on, only those can exceed the cap.
-/
namespace Ragx

structure CallLedger (κ : Type*) where
  spent : ℕ := 0
  /-- The calls in flight when the cap was reached, with the one that reached it. -/
  atCap : Option (List κ) := none
  /-- What the settled ones among them have used. -/
  overrun : ℕ := 0

namespace CallLedger

variable {κ : Type*}

/-- A cap of nothing is reached before the first call. -/
def init (cap : ℕ) : CallLedger κ where
  atCap := if cap = 0 then some [] else none

/-- A call among those in flight is settled. -/
def settle [DecidableEq κ] (cap : ℕ) (ledger : CallLedger κ) (inFlight : List κ) (k : κ)
    (usage : ℕ) : CallLedger κ :=
  let spent := ledger.spent + usage
  let atCap := match ledger.atCap with
    | some ks => some ks
    | none => if cap ≤ spent then some inFlight else none
  { spent, atCap
    overrun := if k ∈ atCap.getD [] then ledger.overrun + usage else ledger.overrun }

/-- What is spent is below the cap, or exceeds it by what the calls have used that were in
flight when it was reached, and no others are in flight. -/
def Within (cap : ℕ) (ledger : CallLedger κ) (inFlight : List κ) : Prop :=
  match ledger.atCap with
  | none => ledger.spent < cap
  | some ks => cap ≤ ledger.spent ∧ ledger.spent ≤ cap + ledger.overrun ∧ inFlight ⊆ ks

variable {cap : ℕ} {ledger : CallLedger κ} {inFlight inFlight' : List κ}

theorem within_init (cap : ℕ) : (init cap : CallLedger κ).Within cap [] := by
  unfold Within init
  split_ifs with h
  · exact ⟨by omega, Nat.zero_le _, List.Subset.refl _⟩
  · exact Nat.pos_of_ne_zero h

theorem Within.spent_le (h : ledger.Within cap inFlight) :
    ledger.spent ≤ cap + ledger.overrun := by
  unfold Within at h
  split at h
  · omega
  · exact h.2.1

/-- Calls may be issued below the cap. -/
theorem Within.issue (h : ledger.Within cap inFlight)
    (hlate : cap ≤ ledger.spent → inFlight' ⊆ inFlight) : ledger.Within cap inFlight' := by
  unfold Within at h ⊢
  split at h
  · exact h
  · exact ⟨h.1, h.2.1, List.Subset.trans (hlate h.1) h.2.2⟩

/-- A settled call can only reach the cap, or add to the overrun that it is part of. -/
theorem Within.settle [DecidableEq κ] (h : ledger.Within cap inFlight) {k : κ}
    (hk : k ∈ inFlight) (usage : ℕ) :
    (ledger.settle cap inFlight k usage).Within cap inFlight := by
  unfold Within at h
  cases hcap : ledger.atCap with
  | none =>
    rw [hcap] at h
    dsimp only at h
    by_cases hreach : cap ≤ ledger.spent + usage
    · simp only [Within, CallLedger.settle, hcap, if_pos hreach, Option.getD_some, if_pos hk]
      exact ⟨hreach, by omega, List.Subset.refl _⟩
    · simp only [Within, CallLedger.settle, hcap, if_neg hreach]
      omega
  | some ks =>
    rw [hcap] at h
    obtain ⟨hreached, hle, hsub⟩ := h
    simp only [Within, CallLedger.settle, hcap, Option.getD_some, if_pos (hsub hk)]
    exact ⟨by omega, by omega, hsub⟩

end CallLedger

end Ragx
