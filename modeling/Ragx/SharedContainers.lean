import Mathlib.Data.List.Induction
import Mathlib.Logic.Function.Basic

/-!
# Stores in named containers

A database of containers, and stores that each work on the container of their name. A run of
calls leaves in a container what the calls to it alone leave there, so stores of different names
do not affect each other.
-/
namespace Ragx

/-- What a store may do: its container and what a write makes of it. -/
structure ContainerStore (σ ν ω κ : Type*) where
  name : σ → ν
  write : σ → ω → κ → κ

namespace ContainerStore

variable {σ ν ω κ : Type*} [DecidableEq ν] (S : ContainerStore σ ν ω κ)

/-- A write through the store `s` of a database. -/
def apply (db : ν → κ) (call : σ × ω) : ν → κ :=
  Function.update db (S.name call.1) (S.write call.1 call.2 (db (S.name call.1)))

def run (db : ν → κ) (calls : List (σ × ω)) : ν → κ := calls.foldl S.apply db

theorem apply_of_ne {db : ν → κ} {call : σ × ω} {n : ν} (h : S.name call.1 ≠ n) :
    S.apply db call n = db n :=
  Function.update_of_ne h.symm _ _

@[simp]
theorem apply_self (db : ν → κ) (s : σ) (w : ω) :
    S.apply db (s, w) (S.name s) = S.write s w (db (S.name s)) :=
  Function.update_self _ _ _

theorem run_concat (db : ν → κ) (calls : List (σ × ω)) (call : σ × ω) :
    S.run db (calls ++ [call]) = S.apply (S.run db calls) call := by
  rw [run, run, List.foldl_append]
  rfl

/-- Calls to other containers can be left out. -/
theorem run_filter (db : ν → κ) (n : ν) (calls : List (σ × ω)) :
    S.run db calls n = S.run db (calls.filter fun call => S.name call.1 = n) n := by
  induction calls using List.reverseRecOn with
  | nil => rfl
  | append_singleton calls call ih =>
    rw [run_concat, List.filter_append]
    by_cases h : S.name call.1 = n
    · have hkeep : [call].filter (fun c => S.name c.1 = n) = [call] := by simp [h]
      rw [hkeep, run_concat]
      obtain ⟨s, w⟩ := call
      subst h
      rw [apply_self, apply_self, ih]
    · have hdrop : [call].filter (fun c => S.name c.1 = n) = [] := by simp [h]
      rw [hdrop, List.append_nil, apply_of_ne S h, ih]

/-- What every write of a store to its own container keeps, a run keeps there. -/
theorem run_invariant {P : κ → Prop} {n : ν} {db : ν → κ} (hdb : P (db n))
    {calls : List (σ × ω)}
    (hwrite : ∀ call ∈ calls, S.name call.1 = n → ∀ c, P c → P (S.write call.1 call.2 c)) :
    P (S.run db calls n) := by
  induction calls using List.reverseRecOn with
  | nil => exact hdb
  | append_singleton calls call ih =>
    have hbefore := ih fun c hc => hwrite c (List.mem_append_left _ hc)
    rw [run_concat]
    by_cases h : S.name call.1 = n
    · obtain ⟨s, w⟩ := call
      have hkeep := hwrite (s, w) (by simp) h _ hbefore
      subst h
      rw [apply_self]
      exact hkeep
    · rw [apply_of_ne S h]
      exact hbefore

end ContainerStore

end Ragx
