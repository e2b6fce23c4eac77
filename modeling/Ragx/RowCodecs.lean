import Mathlib.Data.List.Forall2
import Mathlib.Data.List.Sort
import Ragx.OrderedDict

/-!
# Tables of encoded rows

A table keeps its values in rows that encode them, and a conflicting insert updates some columns of
the row that is there. If rows decode to what was encoded, and updated rows to what the update makes
of the values, the table stands for the dictionary of the values: every insert and every selection
agrees. Calls that agree one by one, in states that are related, agree in whole runs.
-/
namespace Ragx

/-! ## Runs of calls -/

section Replies

variable {σ τ ε ω : Type*}

/-- The replies to calls that are made one after the other. -/
def repliesOf (call : σ → ε → σ × ω) (s : σ) : List ε → List ω
  | [] => []
  | e :: es => (call s e).2 :: repliesOf call (call s e).1 es

theorem repliesOf_congr {call : σ → ε → σ × ω} {acall : τ → ε → τ × ω} {R : σ → τ → Prop}
    {es : List ε}
    (hcall : ∀ e ∈ es, ∀ s a, R s a →
      R (call s e).1 (acall a e).1 ∧ (call s e).2 = (acall a e).2)
    {s : σ} {a : τ} (hR : R s a) : repliesOf call s es = repliesOf acall a es := by
  induction es generalizing s a with
  | nil => rfl
  | cons e es ih =>
    obtain ⟨hnext, hreply⟩ := hcall e List.mem_cons_self s a hR
    rw [repliesOf, repliesOf, hreply, ih (fun x hx => hcall x (List.mem_cons_of_mem e hx)) hnext]

end Replies

/-! ## Rows -/

/-- How values stand in rows. What cannot be decoded raises. -/
structure RowCodec (ρ α : Type*) where
  encode : α → ρ
  decode : ρ → Option α
  /-- The row that is there, updated from the row that was to be inserted. -/
  onConflict : ρ → ρ → ρ
  merge : α → α → α
  Storable : α → Prop
  decode_encode : ∀ {a}, Storable a → decode (encode a) = some a
  decode_onConflict : ∀ {old a b}, Storable a → decode old = some b →
    decode (onConflict old (encode a)) = some (merge b a)

variable {κ ρ α : Type*}

/-- `INSERT ... ON CONFLICT DO UPDATE` of one row. -/
def upsertWith [DecidableEq κ] (onConflict : ρ → ρ → ρ) (t : OrderedDict κ ρ) (k : κ) (row : ρ) :
    OrderedDict κ ρ :=
  t.insert k (match t.get? k with
    | none => row
    | some old => onConflict old row)

/-- Upserts of the rows of some items, under their keys. -/
def upsertAll [DecidableEq κ] (onConflict : ρ → ρ → ρ) (key : α → κ) (encode : α → ρ)
    (t : OrderedDict κ ρ) (items : List α) : OrderedDict κ ρ :=
  items.foldl (fun t item => upsertWith onConflict t (key item) (encode item)) t

/-- Upserts of the items themselves are a counting loop. -/
theorem upsertAll_id [DecidableEq κ] {f : Option α → α → α} (hnone : ∀ a, f none a = a)
    (key : α → κ) (d : OrderedDict κ α) (items : List α) :
    upsertAll (fun old a => f (some old) a) key id d items = d.accumulate key f items := by
  induction items generalizing d with
  | nil => rfl
  | cons item items ih =>
    have hstep : upsertWith (fun old a => f (some old) a) d (key item) item =
        d.insert (key item) (f (d.get? (key item)) item) := by
      unfold upsertWith
      cases d.get? (key item) with
      | none => rw [hnone]
      | some old => rfl
    exact (congrArg (fun d => upsertAll _ key id d items) hstep).trans (ih _)

/-- The rows that a condition selects, in the order of their keys. -/
def selectRows [LE κ] [DecidableLE κ] (t : OrderedDict κ ρ) (p : ρ → Bool) : List ρ :=
  ((t.entries.filter fun e => p e.2).insertionSort fun e e' => e.1 ≤ e'.1).map Prod.snd

namespace RowCodec

variable (c : RowCodec ρ α)

/-- The entry of the row stands for the entry of the value. -/
def Decodes (e : κ × ρ) (e' : κ × α) : Prop := e.1 = e'.1 ∧ c.decode e.2 = some e'.2

/-- The rows of the table stand for the values of the dictionary, one by one. -/
def Stands (t : OrderedDict κ ρ) (d : OrderedDict κ α) : Prop :=
  List.Forall₂ c.Decodes t.entries d.entries

variable {c} {t : OrderedDict κ ρ} {d : OrderedDict κ α}

theorem stands_empty : c.Stands (.empty : OrderedDict κ ρ) .empty := .nil

section Keys

variable [DecidableEq κ]

theorem decode_lookupIn {es : List (κ × ρ)} {es' : List (κ × α)}
    (h : List.Forall₂ c.Decodes es es') (k : κ) :
    (OrderedDict.lookupIn k es).map c.decode = (OrderedDict.lookupIn k es').map some := by
  induction h with
  | nil => rfl
  | @cons e e' es es' he _ ih =>
    rw [OrderedDict.lookupIn, OrderedDict.lookupIn, he.1]
    split_ifs
    · exact congrArg some he.2
    · exact ih

/-- What is under a key decodes to the value under the key. -/
theorem Stands.get? (h : c.Stands t d) (k : κ) :
    (t.get? k).map c.decode = (d.get? k).map some := decode_lookupIn h k

theorem decodes_writeIn {es : List (κ × ρ)} {es' : List (κ × α)}
    (h : List.Forall₂ c.Decodes es es') {row : ρ} {a : α} (hrow : c.decode row = some a) (k : κ) :
    List.Forall₂ c.Decodes (OrderedDict.writeIn k row es) (OrderedDict.writeIn k a es') := by
  induction h with
  | nil => exact .cons ⟨rfl, hrow⟩ .nil
  | @cons e e' es es' he hes ih =>
    rw [OrderedDict.writeIn, OrderedDict.writeIn, he.1]
    split_ifs
    · exact .cons ⟨rfl, hrow⟩ hes
    · exact .cons he ih

theorem Stands.insert (h : c.Stands t d) {row : ρ} {a : α} (hrow : c.decode row = some a) (k : κ) :
    c.Stands (t.insert k row) (d.insert k a) := decodes_writeIn h hrow k

/-- An upsert of a row is the upsert of its value. -/
theorem Stands.upsert (h : c.Stands t d) {a : α} (ha : c.Storable a) (k : κ) :
    c.Stands (upsertWith c.onConflict t k (c.encode a)) (upsertWith c.merge d k a) := by
  have hget := h.get? k
  refine h.insert ?_ k
  cases ht : t.get? k with
  | none =>
    cases hd : d.get? k with
    | none => exact c.decode_encode ha
    | some b =>
      rw [ht, hd] at hget
      cases hget
  | some old =>
    cases hd : d.get? k with
    | none =>
      rw [ht, hd] at hget
      cases hget
    | some b =>
      rw [ht, hd] at hget
      exact c.decode_onConflict ha (Option.some.inj hget)

theorem Stands.upsertAll (h : c.Stands t d) (key : α → κ) {items : List α}
    (hitems : ∀ item ∈ items, c.Storable item) :
    c.Stands (Ragx.upsertAll c.onConflict key c.encode t items)
      (Ragx.upsertAll c.merge key id d items) := by
  induction items generalizing t d with
  | nil => exact h
  | cons item items ih =>
    obtain ⟨hitem, hitems⟩ := List.forall_mem_cons.mp hitems
    exact ih (h.upsert hitem (key item)) hitems

end Keys

section Selections

theorem decodes_filter {es : List (κ × ρ)} {es' : List (κ × α)}
    (h : List.Forall₂ c.Decodes es es') {p : ρ → Bool} {q : α → Bool}
    (hp : ∀ row a, c.decode row = some a → p row = q a) :
    List.Forall₂ c.Decodes (es.filter fun e => p e.2) (es'.filter fun e => q e.2) := by
  induction h with
  | nil => exact .nil
  | @cons e e' es es' he _ ih =>
    rw [List.filter_cons, List.filter_cons, hp e.2 e'.2 he.2]
    split_ifs
    · exact .cons he ih
    · exact ih

theorem mapM_decode {es : List (κ × ρ)} {es' : List (κ × α)} (h : List.Forall₂ c.Decodes es es') :
    (es.map Prod.snd).mapM c.decode = some (es'.map Prod.snd) := by
  induction h with
  | nil => rfl
  | cons he _ ih => simp [he.2, ih]

theorem decode_find? {es : List (κ × ρ)} {es' : List (κ × α)} (h : List.Forall₂ c.Decodes es es')
    {p : ρ → Bool} {q : α → Bool} (hp : ∀ row a, c.decode row = some a → p row = q a) :
    ((es.map Prod.snd).find? p).map c.decode = ((es'.map Prod.snd).find? q).map some := by
  induction h with
  | nil => rfl
  | @cons e e' es es' he _ ih =>
    rw [List.map_cons, List.map_cons, List.find?_cons, List.find?_cons, hp e.2 e'.2 he.2]
    cases q e'.2 with
    | true => exact congrArg some he.2
    | false => exact ih

/-- The first row that a condition finds decodes to the first value that it finds. -/
theorem Stands.find? (h : c.Stands t d) {p : ρ → Bool} {q : α → Bool}
    (hp : ∀ row a, c.decode row = some a → p row = q a) :
    (t.values.find? p).map c.decode = (d.values.find? q).map some := decode_find? h hp

variable [LE κ] [DecidableLE κ]

theorem decodes_orderedInsert {e : κ × ρ} {e' : κ × α} (he : c.Decodes e e')
    {es : List (κ × ρ)} {es' : List (κ × α)} (h : List.Forall₂ c.Decodes es es') :
    List.Forall₂ c.Decodes (es.orderedInsert (fun x y => x.1 ≤ y.1) e)
      (es'.orderedInsert (fun x y => x.1 ≤ y.1) e') := by
  induction h with
  | nil => exact .cons he .nil
  | @cons f f' es es' hf hes ih =>
    rw [List.orderedInsert, List.orderedInsert, he.1, hf.1]
    split_ifs
    · exact .cons he (.cons hf hes)
    · exact .cons hf ih

theorem decodes_insertionSort {es : List (κ × ρ)} {es' : List (κ × α)}
    (h : List.Forall₂ c.Decodes es es') :
    List.Forall₂ c.Decodes (es.insertionSort fun x y => x.1 ≤ y.1)
      (es'.insertionSort fun x y => x.1 ≤ y.1) := by
  induction h with
  | nil => exact .nil
  | cons he _ ih => exact decodes_orderedInsert he ih

/-- What a condition on the rows selects decodes to what it selects of the values. -/
theorem Stands.select (h : c.Stands t d) {p : ρ → Bool} {q : α → Bool}
    (hp : ∀ row a, c.decode row = some a → p row = q a) :
    (selectRows t p).mapM c.decode = some (selectRows d q) :=
  mapM_decode (decodes_insertionSort (decodes_filter h hp))

end Selections

end RowCodec

end Ragx
