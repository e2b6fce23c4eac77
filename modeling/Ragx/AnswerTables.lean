import Ragx.OrderedDict

/-!
# Tables of answers

A function whose answers are kept, each under a key of its question, and looked up before the
next question is answered. Whatever is asked, the table replies with the answer to the first
question that had its key.
-/
namespace Ragx.AnswerTables

variable {α κ β : Type*} [DecidableEq κ] (key : α → κ) (answer : α → β)

def ask (table : OrderedDict κ β) (a : α) : OrderedDict κ β × β :=
  match table.get? (key a) with
  | some b => (table, b)
  | none => (table.insert (key a) (answer a), answer a)

/-- The table after the questions. -/
def fillTable (table : OrderedDict κ β) (asked : List α) : OrderedDict κ β :=
  asked.foldl (fun t a => (ask key answer t a).1) table

/-- The replies to the questions, one after the other. -/
def replies (table : OrderedDict κ β) : List α → List β
  | [] => []
  | a :: as => (ask key answer table a).2 :: replies (ask key answer table a).1 as

/-- The first question with the key of `a`, or `a` itself. -/
def firstAlike (asked : List α) (a : α) : α := (asked.find? fun b => key b = key a).getD a

theorem fillTable_append (table : OrderedDict κ β) (as bs : List α) :
    fillTable key answer table (as ++ bs) =
      fillTable key answer (fillTable key answer table as) bs :=
  List.foldl_append

theorem get?_ask (table : OrderedDict κ β) (a : α) (k : κ) :
    (ask key answer table a).1.get? k =
      (table.get? k).or (if key a = k then some (answer a) else none) := by
  unfold ask
  split
  · rename_i b h
    split_ifs with hk
    · rw [← hk, h, Option.some_or]
    · rw [Option.or_none]
  · rename_i h
    rw [OrderedDict.get?_insert]
    split_ifs with hk
    · rw [← hk, h, Option.none_or]
    · rw [Option.or_none]

/-- A key keeps the first answer it was given. -/
theorem get?_fillTable (asked : List α) (k : κ) :
    (fillTable key answer .empty asked).get? k =
      (asked.find? fun a => key a = k).map answer := by
  induction asked using List.reverseRecOn with
  | nil => rfl
  | append_singleton asked a ih =>
    have hlast : (fillTable key answer .empty (asked ++ [a])).get? k =
        ((fillTable key answer .empty asked).get? k).or
          (if key a = k then some (answer a) else none) := by
      rw [fillTable_append]
      exact get?_ask key answer _ a k
    rw [hlast, ih, List.find?_append, Option.map_or]
    congr 1
    split_ifs with hk <;> simp [hk]

theorem reply_fillTable (asked : List α) (a : α) :
    (ask key answer (fillTable key answer .empty asked) a).2 = answer (firstAlike key asked a) := by
  have hget := get?_fillTable key answer asked (key a)
  unfold ask firstAlike
  split
  · rename_i b h
    obtain ⟨first, hfirst, rfl⟩ := Option.map_eq_some_iff.mp (hget.symm.trans h)
    rw [hfirst, Option.getD_some]
  · rename_i h
    rw [Option.map_eq_none_iff.mp (hget.symm.trans h), Option.getD_none]

/-- The replies are the answers exactly if every question has the answer of the first one
with its key. -/
theorem replies_eq_map_iff (asked as : List α) :
    replies key answer (fillTable key answer .empty asked) as = as.map answer ↔
      ∀ before a after, as = before ++ a :: after →
        answer (firstAlike key (asked ++ before) a) = answer a := by
  induction as generalizing asked with
  | nil => exact iff_of_true rfl fun before a after h => absurd h (by simp)
  | cons a as ih =>
    have hnext : (ask key answer (fillTable key answer .empty asked) a).1 =
        fillTable key answer .empty (asked ++ [a]) := by
      rw [fillTable_append]
      rfl
    rw [replies, List.map_cons, List.cons.injEq, reply_fillTable, hnext, ih]
    constructor
    · rintro ⟨hfirst, hrest⟩ before b after h
      cases before with
      | nil =>
        obtain ⟨rfl, _⟩ := List.cons.inj h
        simpa using hfirst
      | cons c before =>
        obtain ⟨rfl, rfl⟩ := List.cons.inj h
        simpa using hrest before b after rfl
    · intro h
      refine ⟨by simpa using h [] a as rfl, fun before b after hb => ?_⟩
      subst hb
      simpa using h (a :: before) b after rfl

end Ragx.AnswerTables
