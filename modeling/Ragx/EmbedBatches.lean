import Mathlib.Data.List.Sort
import Ragx.ProviderReplies
import Ragx.Sequencing

/-!
# Batches of embeddings

Texts are sent to an embedding endpoint in batches. The vectors of a batch come in any order, each
with the place of its text, and are put back into the order of the texts. The main result is that
every text gets its own vector, and that nothing else is taken for one.
-/
namespace Ragx

/-! ## Values of a response -/

namespace WireValue

/-- `x.get(key, default)`. -/
def getOr (x : WireValue) (key : String) (default : WireValue) : Except Exc WireValue :=
  match x with
  | .obj members => .ok ((OrderedDict.lookupIn key members).getD default)
  | x => .error (.foreign ("'" ++ x.typeName ++ "' object has no attribute 'get'"))

/-- `len(x)`. -/
def size : WireValue → Except Exc ℕ
  | .str s => .ok s.length
  | .arr xs => .ok xs.length
  | .obj members => .ok members.length
  | x => .error (.foreign ("object of type '" ++ x.typeName ++ "' has no len()"))

/-- `list(x)`. -/
def items : WireValue → Except Exc (List WireValue)
  | .str s => .ok (s.toList.map fun c => .str c.toString)
  | .arr xs => .ok xs
  | .obj members => .ok (members.map fun m => .str m.1)
  | x => .error (.foreign ("'" ++ x.typeName ++ "' object is not iterable"))

/-- `float(x)`, with the reader of numerals given. -/
def toFloat (floatOf : String → Option PyFloat) : WireValue → Except Exc PyFloat
  | .bool b => .ok (.finite (if b then 1 else 0))
  | .int z => .ok (.finite z)
  | .float x => .ok x
  | .str s =>
    match floatOf s with
    | some x => .ok x
    | none => .error (.foreign ("could not convert string to float: '" ++ s ++ "'"))
  | x => .error (.foreign
      ("float() argument must be a string or a real number, not '" ++ x.typeName ++ "'"))

def indexNumber? : WireValue → Option ℚ
  | .bool b => some (if b then 1 else 0)
  | .int z => some z
  | .float (.finite q) => some q
  | _ => none

def indexText? : WireValue → Option String
  | .str s => some s
  | _ => none

/-- Pairs of a key and an item in the order of the keys. -/
def sortOn {β : Type} [LE β] [DecidableLE β] (key : WireValue → β)
    (pairs : List (WireValue × WireValue)) : List WireValue :=
  (pairs.insertionSort fun a b => key a.1 ≤ key b.1).map Prod.snd

/-- `sorted(items, key=lambda d: d.get("index", 0))`: numbers are compared with numbers, and texts
with texts. -/
def sortByIndex (items : List WireValue) : Except Exc (List WireValue) := do
  let keys ← items.mapM fun item => item.getOr "index" (.int 0)
  if keys.all (·.indexNumber?.isSome) then return sortOn (·.indexNumber?.getD 0) (keys.zip items)
  else if keys.all (·.indexText?.isSome) then return sortOn (·.indexText?.getD "") (keys.zip items)
  else if items.length ≤ 1 then return items
  else throw (.foreign "'<' not supported between these instances")

end WireValue

/-! ## The embedder -/

structure OpenAICompatEmbedder where
  model : String
  dimension : ℤ
  maxBatchSize : ℤ
  floatOf : String → Option PyFloat

namespace OpenAICompatEmbedder

def llmError (message : String) (details : List (String × Json)) : Exc where
  cls := .llm
  code := 6000
  message := message
  details := details

def contractError (message : String) (details : List (String × Json)) : Exc where
  cls := .pluginContract
  code := 9004
  message := message
  details := details

variable (e : OpenAICompatEmbedder)

/-- The vector in one item of the response. -/
def readItem (item : WireValue) : Except Exc (List PyFloat) := do
  let embedding ← item.getOr "embedding" .null
  let vec ← (if embedding.truthy then embedding else .arr []).items
  if (vec.length : ℤ) ≠ e.dimension then
    throw (contractError "embedding dimension mismatch"
      [("expected", .num e.dimension), ("got", .num vec.length), ("model", .str e.model)])
  vec.mapM (·.toFloat e.floatOf)

/-- What becomes of one batch. -/
def readBatch (batch : List String) : Exchange → Except Exc (List (List PyFloat))
  | .timedOut error => .error (llmError "embedder endpoint timed out" [("error", .str error)])
  | .failed error => .error (llmError "embedder endpoint unreachable" [("error", .str error)])
  | .replied resp =>
    if resp.statusCode ≠ 200 then
      match resp.text with
      | .error raised => .error (.foreign raised)
      | .ok text => .error (llmError "embedder endpoint returned an error"
          [("status", .num resp.statusCode), ("body", .str (String.ofList (text.toList.take 500)))])
    else match resp.json with
      | .error raised => .error (.foreign raised)
      | .ok payload => do
        let data ← payload.getOr "data" (.arr [])
        let got ← data.size
        if got ≠ batch.length then
          throw (contractError "embedding response length mismatch"
            [("expected", .num batch.length), ("got", .num got)])
        let items ← data.items
        let sorted ← WireValue.sortByIndex items
        sorted.mapM e.readItem

/-- `texts[start : start + size] for start in range(0, len(texts), size)`. -/
def batches (texts : List String) : List (List String) :=
  let size := e.maxBatchSize.toNat
  (List.range ((texts.length + size - 1) / size)).map fun k => (texts.drop (k * size)).take size

/-- The batches that are sent, one after the other, and the vectors. The endpoint is asked for the
`k`-th time. -/
def sendFrom (endpoint : ℕ → List String → Exchange) :
    ℕ → List (List String) → List (List String) × Except Exc (List (List PyFloat))
  | _, [] => ([], .ok [])
  | k, batch :: rest =>
    match e.readBatch batch (endpoint k batch) with
    | .error raised => ([batch], .error raised)
    | .ok vectors =>
      let sent := sendFrom endpoint (k + 1) rest
      (batch :: sent.1, sent.2.map (vectors ++ ·))

/-- What is raised for an exception. -/
def raised (exc : Exc) : Exc :=
  if exc.isLLMError || exc.cls = .pluginContract then exc
  else llmError "embedding failed" [("error", .str exc.message)]

/-- The inputs of the requests that are sent, and the vectors. -/
def embed (endpoint : ℕ → List String → Exchange) (texts : List String) :
    List (List String) × Except Exc (List (List PyFloat)) :=
  if texts = [] then ([], .ok [])
  else if e.maxBatchSize = 0 then
    ([], .error (raised (.foreign "range() arg 3 must not be zero")))
  else
    let sent := e.sendFrom endpoint 0 (e.batches texts)
    (sent.1, sent.2.mapError raised)

/-! ## What comes back -/

section Shape

variable {e}

theorem length_readItem {item : WireValue} {vector : List PyFloat}
    (h : e.readItem item = .ok vector) : (vector.length : ℤ) = e.dimension := by
  obtain ⟨embedding, -, h⟩ := bind_eq_ok_iff.mp h
  obtain ⟨vec, -, h⟩ := bind_eq_ok_iff.mp h
  split_ifs at h with hlength
  · cases h
  · rw [← (mapM_eq_ok_iff.mp h).length_eq]
    exact not_not.mp hlength

theorem length_sortOn {β : Type} [LE β] [DecidableLE β] {key : WireValue → β}
    {keys items : List WireValue} (h : keys.length = items.length) :
    (WireValue.sortOn key (keys.zip items)).length = items.length := by
  rw [WireValue.sortOn, List.length_map, List.length_insertionSort, List.length_zip, h, min_self]

theorem length_sortByIndex {items sorted : List WireValue}
    (h : WireValue.sortByIndex items = .ok sorted) : sorted.length = items.length := by
  obtain ⟨keys, hkeys, h⟩ := bind_eq_ok_iff.mp h
  have hlength := (mapM_eq_ok_iff.mp hkeys).length_eq.symm
  split_ifs at h
  · cases h
    exact length_sortOn hlength
  · cases h
    exact length_sortOn hlength
  · cases h
    rfl

theorem length_items {x : WireValue} {n : ℕ} {items : List WireValue} (hsize : x.size = .ok n)
    (hitems : x.items = .ok items) : items.length = n := by
  cases x with
  | str s =>
    cases hsize
    cases hitems
    rw [List.length_map, String.length_toList]
  | arr xs =>
    cases hsize
    cases hitems
    rfl
  | obj members =>
    cases hsize
    cases hitems
    exact List.length_map _
  | null | bool _ | int _ | float _ => cases hsize

theorem shape_readBatch {batch : List String} {x : Exchange} {vectors : List (List PyFloat)}
    (h : e.readBatch batch x = .ok vectors) :
    vectors.length = batch.length ∧ ∀ vector ∈ vectors, (vector.length : ℤ) = e.dimension := by
  cases x with
  | timedOut error => cases h
  | failed error => cases h
  | replied resp =>
    rw [readBatch] at h
    split_ifs at h with hstatus
    · cases htext : resp.text with
      | error raised =>
        rw [htext] at h
        cases h
      | ok text =>
        rw [htext] at h
        cases h
    · cases hjson : resp.json with
      | error raised =>
        rw [hjson] at h
        cases h
      | ok payload =>
        rw [hjson] at h
        obtain ⟨data, -, h⟩ := bind_eq_ok_iff.mp h
        obtain ⟨got, hgot, h⟩ := bind_eq_ok_iff.mp h
        split_ifs at h with hlength
        · cases h
        obtain ⟨items, hitems, h⟩ := bind_eq_ok_iff.mp h
        obtain ⟨sorted, hsorted, h⟩ := bind_eq_ok_iff.mp h
        have hread := mapM_eq_ok_iff.mp h
        constructor
        · rw [← hread.length_eq, length_sortByIndex hsorted, length_items hgot hitems]
          exact not_not.mp hlength
        · intro vector hvector
          obtain ⟨item, -, hitem⟩ := exists_of_mem_mapM h hvector
          exact length_readItem hitem

theorem shape_sendFrom {endpoint : ℕ → List String → Exchange} {k : ℕ}
    {batches : List (List String)} {vectors : List (List PyFloat)}
    (h : (e.sendFrom endpoint k batches).2 = .ok vectors) :
    vectors.length = batches.flatten.length ∧
      ∀ vector ∈ vectors, (vector.length : ℤ) = e.dimension := by
  induction batches generalizing k vectors with
  | nil =>
    cases h
    exact ⟨rfl, fun _ hv => absurd hv List.not_mem_nil⟩
  | cons batch rest ih =>
    rw [sendFrom] at h
    cases hbatch : e.readBatch batch (endpoint k batch) with
    | error raised =>
      rw [hbatch] at h
      cases h
    | ok first =>
      rw [hbatch] at h
      obtain ⟨others, hothers, rfl⟩ := map_eq_ok_iff.mp h
      obtain ⟨hlength, hdim⟩ := shape_readBatch hbatch
      obtain ⟨hrest, hrestdim⟩ := ih hothers
      rw [List.length_append, List.flatten_cons, List.length_append, hlength, hrest]
      exact ⟨rfl, List.forall_mem_append.mpr ⟨hdim, hrestdim⟩⟩

end Shape

/-! ## Batches -/

theorem flatten_pieces {α : Type} (xs : List α) (size n : ℕ) :
    ((List.range n).map fun k => (xs.drop (k * size)).take size).flatten = xs.take (n * size) := by
  induction n with
  | zero => simp
  | succ n ih =>
    rw [List.range_succ, List.map_append, List.flatten_append, ih, Nat.succ_mul, List.take_add]
    simp

theorem flatten_batches (h : 0 < e.maxBatchSize) (texts : List String) :
    (e.batches texts).flatten = texts := by
  have hsize : 0 < e.maxBatchSize.toNat := by omega
  rw [batches, flatten_pieces]
  refine List.take_of_length_le ?_
  have hceil := Nat.div_add_mod (texts.length + e.maxBatchSize.toNat - 1) e.maxBatchSize.toNat
  have hmod := Nat.mod_lt (texts.length + e.maxBatchSize.toNat - 1) hsize
  rw [Nat.mul_comm]
  omega

/-! ## An endpoint that answers -/

/-- An item with the place of a text and its vector. -/
def IsItem (vector : List PyFloat) (place : ℕ) (item : WireValue) : Prop :=
  item.getOr "index" (.int 0) = .ok (.int place) ∧
    item.getOr "embedding" .null = .ok (.arr (vector.map .float))

/-- The response has one item for each text of the batch, in any order. -/
def Answers (vectorOf : String → List PyFloat) (batch : List String) (x : Exchange) : Prop :=
  ∃ resp payload data items, x = .replied resp ∧ resp.statusCode = 200 ∧ resp.json = .ok payload ∧
    payload.getOr "data" (.arr []) = .ok (.arr data) ∧ data.Perm items ∧
    List.Forall₂ (fun entry item => IsItem (vectorOf entry.1) entry.2 item) batch.zipIdx items

section Order

variable {e} {vectorOf : String → List PyFloat}

theorem readItem_of_isItem {vector : List PyFloat} {place : ℕ} {item : WireValue}
    (hlength : (vector.length : ℤ) = e.dimension) (h : IsItem vector place item) :
    e.readItem item = .ok vector := by
  have hvec : (if (WireValue.arr (vector.map .float)).truthy = true
      then WireValue.arr (vector.map .float) else .arr []) = .arr (vector.map .float) := by
    cases vector <;> rfl
  have hfloats : (vector.map WireValue.float).mapM (·.toFloat e.floatOf) = .ok vector := by
    rw [mapM_eq_ok_iff, List.forall₂_map_left_iff]
    exact List.forall₂_same.mpr fun _ _ => rfl
  rw [readItem, h.2]
  simp only [bind, Except.bind, hvec, WireValue.items, List.length_map]
  rw [if_neg (not_not.mpr hlength)]
  exact hfloats

/-- What an item is sorted by. -/
def indexOf (item : WireValue) : WireValue :=
  match item.getOr "index" (.int 0) with
  | .ok key => key
  | .error _ => .null

theorem indexOf_of_isItem {vector : List PyFloat} {place : ℕ} {item : WireValue}
    (h : IsItem vector place item) : indexOf item = .int place := by
  rw [indexOf, h.1]

/-- Sorting by distinct keys gives the one list in their order. -/
theorem insertionSort_eq_of_perm {α β : Type} [LinearOrder β] {key : α → β} {xs ys : List α}
    (hperm : xs.Perm ys) (hsorted : ys.Pairwise fun a b => key a < key b) :
    (xs.insertionSort fun a b => key a ≤ key b) = ys := by
  have hsort := (xs.perm_insertionSort fun a b => key a ≤ key b).trans hperm
  have hnodup : (ys.map key).Nodup := by
    rw [List.nodup_iff_pairwise_ne, List.pairwise_map]
    exact hsorted.imp fun hlt => hlt.ne
  refine List.Perm.eq_of_pairwise (fun a b ha hb hle hge => ?_)
    (xs.pairwise_insertionSort fun a b => key a ≤ key b) (hsorted.imp le_of_lt) hsort
  exact List.inj_on_of_nodup_map hnodup (hsort.subset ha) hb (le_antisymm hle hge)

/-- The items of a batch are back in the order of its texts. -/
theorem sortByIndex_of_perm {batch : List String} {data items : List WireValue}
    (hperm : data.Perm items)
    (hitems : List.Forall₂ (fun entry item => IsItem (vectorOf entry.1) entry.2 item)
      batch.zipIdx items) : WireValue.sortByIndex data = .ok items := by
  have hplace : ∀ item ∈ data, ∃ place : ℕ, indexOf item = .int place ∧
      item.getOr "index" (.int 0) = .ok (indexOf item) := by
    intro item hmem
    obtain ⟨entry, -, h⟩ := exists_of_mem_right hitems (hperm.subset hmem)
    exact ⟨entry.2, indexOf_of_isItem h, by rw [indexOf_of_isItem h, h.1]⟩
  have hplaces : items.map indexOf = (List.range' 0 batch.length).map fun n => .int n := by
    rw [← List.zipIdx_map_snd 0 batch, List.map_map]
    refine List.forall₂_eq_eq_eq ▸ List.forall₂_map_left_iff.mpr
      (List.forall₂_map_right_iff.mpr (hitems.flip.imp fun item entry h => ?_))
    exact indexOf_of_isItem h
  have hsorted : (items.map fun item => (indexOf item, item)).Pairwise fun a b =>
      a.1.indexNumber?.getD 0 < b.1.indexNumber?.getD 0 := by
    have hkeys : (items.map indexOf).Pairwise fun a b =>
        a.indexNumber?.getD 0 < b.indexNumber?.getD 0 := by
      rw [hplaces, List.pairwise_map]
      refine List.Pairwise.imp ?_ (List.pairwise_lt_range' (s := 0) (n := batch.length))
      exact fun hlt => by simpa [WireValue.indexNumber?] using hlt
    rw [List.pairwise_map] at hkeys ⊢
    exact hkeys
  have hzip : (data.map indexOf).zip data = data.map fun item => (indexOf item, item) := by
    refine (List.zip_of_prod ?_ ?_).symm
    · rw [List.map_map]
      rfl
    · rw [List.map_map]
      exact List.map_id data
  have hnumbers : (data.map indexOf).all (·.indexNumber?.isSome) = true := by
    rw [List.all_eq_true]
    intro key hkey
    obtain ⟨item, hmem, rfl⟩ := List.mem_map.mp hkey
    obtain ⟨place, hindex, -⟩ := hplace item hmem
    rw [hindex]
    rfl
  have hkeys : (data.mapM fun item => item.getOr "index" (.int 0)) = .ok (data.map indexOf) :=
    mapM_eq_ok_map fun item hmem => (hplace item hmem).choose_spec.2
  rw [WireValue.sortByIndex, hkeys]
  simp only [bind, Except.bind, hnumbers, if_true]
  rw [WireValue.sortOn, hzip, insertionSort_eq_of_perm (hperm.map _) hsorted, List.map_map]
  exact congrArg Except.ok (List.map_id items)

theorem readBatch_of_answers (hdim : ∀ text, ((vectorOf text).length : ℤ) = e.dimension)
    {batch : List String} {x : Exchange} (h : Answers vectorOf batch x) :
    e.readBatch batch x = .ok (batch.map vectorOf) := by
  obtain ⟨resp, payload, data, items, rfl, hstatus, hjson, hdata, hperm, hitems⟩ := h
  have hlength : data.length = batch.length := by
    rw [hperm.length_eq, ← hitems.length_eq, List.length_zipIdx]
  have hread : items.mapM e.readItem = .ok (batch.map vectorOf) := by
    have hbatch : batch.map vectorOf = batch.zipIdx.map fun entry => vectorOf entry.1 := by
      conv_lhs => rw [← List.zipIdx_map_fst 0 batch, List.map_map]
      rfl
    rw [mapM_eq_ok_iff, hbatch, List.forall₂_map_right_iff]
    exact hitems.flip.imp fun item entry hitem => readItem_of_isItem (hdim entry.1) hitem
  rw [readBatch, if_neg (not_not.mpr hstatus), hjson]
  simp only [hdata, bind, Except.bind, WireValue.size, hlength, WireValue.items]
  rw [if_neg (not_not.mpr rfl)]
  simp only [sortByIndex_of_perm hperm hitems]
  exact hread

theorem sendFrom_of_answers (hdim : ∀ text, ((vectorOf text).length : ℤ) = e.dimension)
    {endpoint : ℕ → List String → Exchange}
    (h : ∀ k batch, Answers vectorOf batch (endpoint k batch)) (k : ℕ)
    (batches : List (List String)) :
    e.sendFrom endpoint k batches = (batches, .ok (batches.flatten.map vectorOf)) := by
  induction batches generalizing k with
  | nil => rfl
  | cons batch rest ih =>
    rw [sendFrom, readBatch_of_answers hdim (h k batch)]
    dsimp only
    rw [ih, List.flatten_cons, List.map_append]
    rfl

end Order

/-! ## The embedder as a whole -/

theorem caught_raised (exc : Exc) :
    (raised exc).isLLMError = true ∨ (raised exc).cls = .pluginContract := by
  unfold raised
  split_ifs with h
  · simpa using h
  · exact .inl rfl

/-- Whatever the endpoint answers, a result has one vector of the dimension for each text, and an
error is one of the two kinds that callers know. An endpoint that answers each batch with the
vectors of its texts, in any order, gives the vectors in the order of the texts, and the size of
the batches makes no difference. -/
theorem embed_in_order (hsize : 0 < e.maxBatchSize) (endpoint : ℕ → List String → Exchange)
    (texts : List String) :
    (∀ vectors, (e.embed endpoint texts).2 = .ok vectors → vectors.length = texts.length ∧
      ∀ vector ∈ vectors, (vector.length : ℤ) = e.dimension) ∧
    (∀ exc, (e.embed endpoint texts).2 = .error exc →
      exc.isLLMError = true ∨ exc.cls = .pluginContract) ∧
    ∀ vectorOf, (∀ text, ((vectorOf text).length : ℤ) = e.dimension) →
      (∀ k batch, Answers vectorOf batch (endpoint k batch)) →
      e.embed endpoint texts = (e.batches texts, .ok (texts.map vectorOf)) := by
  have hflatten := e.flatten_batches hsize texts
  rw [embed]
  split_ifs with hnil hzero
  · subst hnil
    refine ⟨fun vectors h => ?_, fun _ h => h.elim, fun vectorOf _ _ => ?_⟩
    · cases h
      exact ⟨rfl, fun _ hv => absurd hv List.not_mem_nil⟩
    · have hnone : e.batches [] = [] := by
        rw [batches, Nat.div_eq_of_lt (by simp; omega)]
        rfl
      rw [hnone]
      rfl
  · omega
  · refine ⟨fun vectors h => ?_, fun exc h => ?_, fun vectorOf hdim hanswers => ?_⟩
    · cases hsent : (e.sendFrom endpoint 0 (e.batches texts)).2 with
      | error raised =>
        simp only [hsent] at h
        cases h
      | ok sent =>
        simp only [hsent] at h
        cases h
        have hshape := shape_sendFrom hsent
        rwa [hflatten] at hshape
    · cases hsent : (e.sendFrom endpoint 0 (e.batches texts)).2 with
      | error first =>
        simp only [hsent] at h
        cases h
        exact caught_raised first
      | ok sent =>
        simp only [hsent] at h
        cases h
    · simp only [sendFrom_of_answers hdim hanswers, hflatten]
      rfl

/-! Three texts in two batches, each of which is answered from its end. -/

def lengthVector (text : String) : List PyFloat := [.finite text.length, .finite 1]

def lengthItem (entry : String × ℕ) : WireValue :=
  .obj [("index", .int entry.2), ("embedding", .arr ((lengthVector entry.1).map .float))]

def reversingEndpoint (_ : ℕ) (batch : List String) : Exchange :=
  .replied { statusCode := 200, text := .ok "",
             json := .ok (.obj [("data", .arr (batch.zipIdx.map lengthItem).reverse)]) }

def pairEmbedder : OpenAICompatEmbedder := ⟨"lengths", 2, 2, fun _ => none⟩

theorem embed_in_order_reversed :
    pairEmbedder.embed reversingEndpoint ["a", "bcd", "ef"] =
      ([["a", "bcd"], ["ef"]], .ok [[.finite 1, .finite 1], [.finite 3, .finite 1],
        [.finite 2, .finite 1]]) := by
  have hanswers : ∀ k batch, Answers lengthVector batch (reversingEndpoint k batch) := by
    intro k batch
    refine ⟨_, _, _, batch.zipIdx.map lengthItem, rfl, rfl, rfl, rfl, List.reverse_perm _, ?_⟩
    rw [List.forall₂_map_right_iff]
    exact List.forall₂_same.mpr fun entry _ => ⟨rfl, rfl⟩
  have hdim : ∀ text, ((lengthVector text).length : ℤ) = pairEmbedder.dimension := fun _ => rfl
  exact (embed_in_order pairEmbedder (by decide) reversingEndpoint ["a", "bcd", "ef"]).2.2
    lengthVector hdim hanswers

end OpenAICompatEmbedder

end Ragx
