import Mathlib.Data.List.Perm.Basic
import Mathlib.Data.List.Perm.Lattice
import Mathlib.Tactic.Common

/-!
# External-content indexes

An index over a table that it does not own keeps an entry for each row it was told of. An entry
is taken out by naming the row and exactly what was indexed for it; naming anything else leaves
the index corrupt. So an index stays good only if every change of the table tells it what the
row was before.
-/
namespace Ragx

/-- The entries, or none when the index is corrupt. -/
abbrev ContentIndex (κ τ : Type) := Option (List (κ × τ))

namespace ContentIndex

variable {κ τ : Type}

def add (e : κ × τ) (index : ContentIndex κ τ) : ContentIndex κ τ := index.map (e :: ·)

def remove [DecidableEq κ] [DecidableEq τ] (e : κ × τ) (index : ContentIndex κ τ) :
    ContentIndex κ τ :=
  index.bind fun es => if e ∈ es then some (es.erase e) else none

/-- The index has exactly these entries. -/
def Follows (index : ContentIndex κ τ) (entries : List (κ × τ)) : Prop :=
  ∃ es, index = some es ∧ es.Perm entries

variable {index : ContentIndex κ τ} {entries front back : List (κ × τ)} {e e' : κ × τ}

theorem Follows.add (h : index.Follows entries) (e : κ × τ) :
    (index.add e).Follows (entries ++ [e]) := by
  obtain ⟨es, rfl, hperm⟩ := h
  refine ⟨e :: es, rfl, ?_⟩
  have hlast : (e :: entries).Perm (entries ++ [e]) := (List.perm_append_singleton e entries).symm
  exact (hperm.cons e).trans hlast

variable [DecidableEq κ] [DecidableEq τ]

/-- What was indexed for a row can be taken out again. -/
theorem Follows.remove (h : index.Follows (front ++ e :: back)) :
    (index.remove e).Follows (front ++ back) := by
  obtain ⟨es, rfl, hperm⟩ := h
  have hmem : e ∈ es := hperm.mem_iff.mpr (by simp)
  refine ⟨es.erase e, if_pos hmem, ?_⟩
  have hmiddle : (front ++ e :: back).Perm (e :: (front ++ back)) := List.perm_middle
  have herase : (es.erase e).Perm ((e :: (front ++ back)).erase e) := (hperm.trans hmiddle).erase e
  rwa [List.erase_cons_head] at herase

/-- A changed row gives its old entry for its new one. -/
theorem Follows.replace (h : index.Follows (front ++ e :: back)) (e' : κ × τ) :
    ((index.remove e).add e').Follows (front ++ e' :: back) := by
  obtain ⟨es, hes, hperm⟩ := h.remove.add e'
  refine ⟨es, hes, hperm.trans ?_⟩
  have hhead : (front ++ back ++ [e']).Perm (e' :: (front ++ back)) :=
    List.perm_append_singleton _ _
  exact hhead.trans List.perm_middle.symm

end ContentIndex

end Ragx
