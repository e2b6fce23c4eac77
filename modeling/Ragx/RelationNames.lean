import Mathlib.Data.List.Forall2
import Ragx.KgIntegrity

/-!
# Relations by the names of their ends

The extraction names the ends of a relation, and the builder looks these names up among the
names that the entities have after the merge. The main result says for which relations this
finds the entity that an end was merged into; the others are dropped or bent.
-/
namespace Ragx

/-- A selection that answers for every item keeps them all, in their order. -/
theorem forall₂_filterMap_iff {α β γ : Type*} {p : α → γ → Prop} {g : β → α} {f : β → Option γ}
    {ys : List β} : List.Forall₂ p (ys.map g) (ys.filterMap f) ↔
      ∀ y ∈ ys, ∃ z, f y = some z ∧ p (g y) z := by
  induction ys with
  | nil => simp
  | cons y ys ih =>
    rw [List.forall_mem_cons, ← ih, List.map_cons]
    cases hy : f y with
    | none =>
      rw [List.filterMap_cons_none hy]
      refine iff_of_false (fun h => ?_) (fun h => absurd h.1 (by simp))
      have hlen := h.length_eq
      rw [List.length_cons, List.length_map] at hlen
      exact absurd (List.length_filterMap_le f ys) (by omega)
    | some z => simp [List.filterMap_cons_some hy]

theorem OrderedDict.get?_ofList {κ α : Type*} [DecidableEq κ] (pairs : List (κ × α)) (k : κ) :
    (OrderedDict.ofList pairs).get? k =
      ((pairs.filter fun e => e.1 = k).getLast?).map Prod.snd := by
  induction pairs using List.reverseRecOn with
  | nil => rfl
  | append_singleton pairs e ih =>
    rw [ofList, update_append, List.filter_append]
    change ((ofList pairs).insert e.1 e.2).get? k = _
    rw [get?_insert, ih]
    by_cases he : e.1 = k
    · simp [he]
    · simp [he]

namespace KgEnv

variable {G : Type} (env : KgEnv)

/-- The name of an extracted entity after the merge. -/
def nameAfterMerge (ext : ExtractedEntity) : Resolution → String
  | .exact existing => if ext.name.length ≤ existing.name.length then existing.name else ext.name
  | .near best => best.name
  | .new _ => ext.name

/-- The id of the entity that an item at its place was merged into. -/
def idAfterMerge (freshId : ℕ → String) (item : (ExtractedEntity × Resolution) × ℕ) : String :=
  match item.1.2.target with
  | some stored => stored.entityId
  | none => freshId item.2

theorem name_mergedEntity (kbId docId freshId : String) (ext : ExtractedEntity) (r : Resolution) :
    (env.mergedEntity kbId docId freshId ext r).name = nameAfterMerge ext r := by
  cases r with
  | exact existing => rfl
  | near best => rfl
  | new vector => rfl

theorem entityId_mergedEntity (kbId docId : String) (freshId : ℕ → String)
    (item : (ExtractedEntity × Resolution) × ℕ) :
    (env.mergedEntity kbId docId (freshId item.2) item.1.1 item.1.2).entityId =
      idAfterMerge freshId item := by
  obtain ⟨⟨ext, r⟩, i⟩ := item
  cases r with
  | exact existing => rfl
  | near best => rfl
  | new vector => rfl

/-- The extracted entity with the name was merged into the entity with the id. -/
def MergedInto (freshId : ℕ → String) (plan : ChunkPlan) (name id : String) : Prop :=
  ∃ item ∈ plan.resolved.zipIdx, item.1.1.name = name ∧ idAfterMerge freshId item = id

/-- The relation has the type and joins the entities of the extracted one. -/
structure Yields (freshId : ℕ → String) (plan : ChunkPlan) (rel : ExtractedRelation)
    (r : Relation) : Prop where
  type : r.type = rel.type
  head : MergedInto freshId plan rel.head r.headId
  tail : MergedInto freshId plan rel.tail r.tailId

/-- The items of the chunk that have the name after the merge. -/
def carriers (plan : ChunkPlan) (name : String) : List ((ExtractedEntity × Resolution) × ℕ) :=
  plan.resolved.zipIdx.filter fun item => nameAfterMerge item.1.1 item.1.2 = name

/-- The last entity of the chunk that carries the name after the merge is the one that the
extracted entity with this name was merged into; if none carries it, this entity is the first
stored one with the name. -/
def FoundByName (s : NetworkXGraphStore G) (freshId : ℕ → String) (plan : ChunkPlan)
    (name : String) : Prop :=
  ∃ item ∈ plan.resolved.zipIdx, item.1.1.name = name ∧
    match (carriers plan name).getLast? with
    | some other => idAfterMerge freshId other = idAfterMerge freshId item
    | none => (s.entities.values.find? fun e => e.name == name).map (·.entityId) =
        some (idAfterMerge freshId item)

theorem nameToId_entitiesOf (s : NetworkXGraphStore G) (freshId : ℕ → String) (plan : ChunkPlan)
    (name : String) : nameToId s (env.entitiesOf freshId plan) name =
      match (carriers plan name).getLast? with
      | some other => some (idAfterMerge freshId other)
      | none => (s.entities.values.find? fun e => e.name == name).map (·.entityId) := by
  have hown : (OrderedDict.ofList ((env.entitiesOf freshId plan).map
      fun e => (e.name, e.entityId))).get? name =
        (carriers plan name).getLast?.map (idAfterMerge freshId) := by
    rw [OrderedDict.get?_ofList, entitiesOf, List.map_map, List.filter_map, List.getLast?_map,
      Option.map_map]
    simp only [Function.comp_def, name_mergedEntity, entityId_mergedEntity]
    rfl
  rw [nameToId, hown]
  cases (carriers plan name).getLast? with
  | some other => rfl
  | none => rfl

theorem foundByName_iff {s : NetworkXGraphStore G} {freshId : ℕ → String} {plan : ChunkPlan}
    {name : String} : FoundByName s freshId plan name ↔
      ∃ id, nameToId s (env.entitiesOf freshId plan) name = some id ∧
        MergedInto freshId plan name id := by
  rw [nameToId_entitiesOf]
  constructor
  · rintro ⟨item, hitem, hname, hfound⟩
    refine ⟨idAfterMerge freshId item, ?_, item, hitem, hname, rfl⟩
    cases hlast : (carriers plan name).getLast? with
    | some other =>
      rw [hlast] at hfound
      exact congrArg some hfound
    | none =>
      rw [hlast] at hfound
      exact hfound
  · rintro ⟨id, hid, item, hitem, hname, rfl⟩
    refine ⟨item, hitem, hname, ?_⟩
    cases hlast : (carriers plan name).getLast? with
    | some other =>
      rw [hlast] at hid
      exact Option.some.inj hid
    | none =>
      rw [hlast] at hid
      exact hid

/-- Every relation of the plan yields its relation exactly when both its ends are found. -/
theorem relationsOf_iff (s : NetworkXGraphStore G) (freshId freshRel : ℕ → String)
    (plan : ChunkPlan) :
    List.Forall₂ (Yields freshId plan) plan.relations
        (relationsOf s (env.entitiesOf freshId plan) freshRel plan) ↔
      ∀ rel ∈ plan.relations,
        FoundByName s freshId plan rel.head ∧ FoundByName s freshId plan rel.tail := by
  have hzip : plan.relations = plan.relations.zipIdx.map Prod.fst :=
    (List.zipIdx_map_fst 0 plan.relations).symm
  have hall : (∀ rel ∈ plan.relations,
      FoundByName s freshId plan rel.head ∧ FoundByName s freshId plan rel.tail) ↔
        ∀ item ∈ plan.relations.zipIdx,
          FoundByName s freshId plan item.1.head ∧ FoundByName s freshId plan item.1.tail := by
    conv_lhs => rw [hzip]
    exact List.forall_mem_map
  rw [hall]
  conv_lhs => rw [hzip]
  rw [relationsOf, forall₂_filterMap_iff]
  refine forall₂_congr fun item _ => ?_
  rw [env.foundByName_iff, env.foundByName_iff]
  constructor
  · rintro ⟨r, hmade, hyields⟩
    obtain ⟨headId, hhead, hmade⟩ := Option.bind_eq_some_iff.mp hmade
    obtain ⟨tailId, htail, hmade⟩ := Option.bind_eq_some_iff.mp hmade
    cases hmade
    exact ⟨⟨headId, hhead, hyields.head⟩, ⟨tailId, htail, hyields.tail⟩⟩
  · rintro ⟨⟨headId, hhead, hheadInto⟩, ⟨tailId, htail, htailInto⟩⟩
    rw [hhead, htail]
    exact ⟨_, rfl, ⟨rfl, hheadInto, htailInto⟩⟩

/-- What the builder makes of the extraction of a chunk that it plans or skips: every relation
that survives the filter yields one between the entities that its ends were merged into. -/
def RelationsKept (s : NetworkXGraphStore G) (freshId freshRel : ℕ → String)
    (result : ExtractionResult) (plan : ChunkPlan) : Prop :=
  List.Forall₂ (Yields freshId plan) (filterLowConfidence result).relations
    (relationsOf s (env.entitiesOf freshId plan) freshRel plan)

theorem plan_cases {s : NetworkXGraphStore G} {chunk : Chunk} {result : ExtractionResult}
    {plan : ChunkPlan} (hresult : env.extractAuto chunk = .ok (some result))
    (hplan : env.planOrSkip s chunk = .ok plan) :
    (plan.relations = (filterLowConfidence result).relations ∧
      env.resolveAll s (filterLowConfidence result).entities = .ok plan.resolved) ∨
    plan = .skipped chunk := by
  rcases env.planOrSkip_cases hplan with hok | ⟨_, hskip⟩
  · obtain ⟨extracted, hextracted, hrest⟩ := bind_eq_ok_iff.mp hok
    rw [hresult] at hextracted
    cases hextracted
    obtain ⟨resolved, hresolved, hmade⟩ := bind_eq_ok_iff.mp hrest
    cases hmade
    exact Or.inl ⟨rfl, hresolved⟩
  · exact Or.inr hskip

theorem relationsKept_iff_foundByName {s : NetworkXGraphStore G} {chunk : Chunk}
    {result : ExtractionResult} {plan : ChunkPlan}
    (hresult : env.extractAuto chunk = .ok (some result))
    (hplan : env.planOrSkip s chunk = .ok plan) (freshId freshRel : ℕ → String) :
    env.RelationsKept s freshId freshRel result plan ↔
      ∀ rel ∈ (filterLowConfidence result).relations,
        FoundByName s freshId plan rel.head ∧ FoundByName s freshId plan rel.tail := by
  rcases env.plan_cases hresult hplan with ⟨hrelations, _⟩ | rfl
  · rw [RelationsKept, ← hrelations]
    exact env.relationsOf_iff s freshId freshRel plan
  · rw [RelationsKept]
    cases (filterLowConfidence result).relations with
    | nil => exact iff_of_true .nil fun _ h => absurd h List.not_mem_nil
    | cons rel rels =>
      refine iff_of_false (fun h => nomatch h) fun h => ?_
      obtain ⟨item, hitem, _⟩ := (h rel List.mem_cons_self).1
      exact absurd hitem List.not_mem_nil

/-! ## Stores whose entities have normalized names of their own -/

/-- Every stored entity stands under the normal form of its name. -/
def NamesNormal (s : NetworkXGraphStore G) : Prop :=
  ∀ e ∈ s.entities.values, env.unicode.normalizeName e.name = e.nameNorm

variable {env} {s : NetworkXGraphStore G}

/-- The name after the merge leads to the entity that was merged into. -/
theorem NamesNormal.get?_nameAfterMerge (hs : env.NamesNormal s) {ext : ExtractedEntity}
    {r : Resolution} (h : env.Resolves s ext r) :
    s.entities.get? (env.unicode.normalizeName (nameAfterMerge ext r)) = r.target := by
  cases r with
  | exact existing =>
    rw [nameAfterMerge]
    split_ifs
    · have hmem := KeyedTable.mem_values_of_get? h
      rw [hs existing hmem]
      exact KeyedTable.mem_values.mp hmem
    · exact h
  | near best =>
    rw [nameAfterMerge, hs best (KeyedTable.mem_values_of_get? h.2)]
    exact h.2
  | new vector => exact h

theorem nameAfterMerge_of_exact {ext : ExtractedEntity} {existing : Entity}
    (h : existing.name = ext.name) : nameAfterMerge ext (.exact existing) = ext.name := by
  rw [nameAfterMerge, h, if_pos le_rfl]

theorem name_of_new {ext : ExtractedEntity} {r : Resolution} (h : r.target = none) :
    nameAfterMerge ext r = ext.name := by
  cases r with
  | exact existing => cases h
  | near best => cases h
  | new vector => rfl

/-- An extracted name that is stored was merged into the entity that is stored under it. -/
theorem exact_of_get? {ext : ExtractedEntity} {r : Resolution} (h : env.Resolves s ext r)
    {t : Entity} (ht : s.entities.get? (env.unicode.normalizeName ext.name) = some t) :
    r = .exact t := by
  cases r with
  | exact existing => exact congrArg Resolution.exact (Option.some.inj (h.symm.trans ht))
  | near best => cases h.1.symm.trans ht
  | new vector => cases h.symm.trans ht

variable {plan : ChunkPlan} {name : String} (hs : env.NamesNormal s)
  (hresolves : ∀ x ∈ plan.resolved, env.Resolves s x.1 x.2)

include hs hresolves in
theorem exists_carrier_of_foundByName {freshId : ℕ → String}
    (h : FoundByName s freshId plan name) :
    ∃ x ∈ plan.resolved, x.1.name = name ∧ nameAfterMerge x.1 x.2 = name := by
  obtain ⟨⟨⟨ext, r⟩, i⟩, hitem, rfl, hfound⟩ := h
  have hr := hresolves _ (List.fst_mem_of_mem_zipIdx hitem)
  cases hlast : (carriers plan ext.name).getLast? with
  | some other =>
    obtain ⟨⟨ext', r'⟩, i'⟩ := other
    obtain ⟨hother, hname⟩ := List.mem_filter.mp (List.mem_of_getLast? hlast)
    have hname := of_decide_eq_true hname
    have hr' := hresolves _ (List.fst_mem_of_mem_zipIdx hother)
    by_cases hcarries : nameAfterMerge ext r = ext.name
    · exact ⟨_, List.fst_mem_of_mem_zipIdx hitem, rfl, hcarries⟩
    · refine ⟨_, List.fst_mem_of_mem_zipIdx hother, ?_, hname⟩
      -- otherwise the other one has the stored name, which is the one that was extracted
      by_contra hne
      have hget := hs.get?_nameAfterMerge hr'
      rw [hname] at hget
      cases r' with
      | new vector => exact hne hname
      | exact t =>
        cases exact_of_get? hr hget
        refine hcarries (nameAfterMerge_of_exact ?_)
        change (if _ then t.name else ext'.name) = ext.name at hname
        split_ifs at hname
        · exact hname
        · exact absurd hname hne
      | near t =>
        cases exact_of_get? hr hget
        exact hcarries (nameAfterMerge_of_exact hname)
  | none =>
    rw [hlast] at hfound
    obtain ⟨e, he, _⟩ := Option.map_eq_some_iff.mp hfound
    have hmem := List.mem_of_find?_eq_some he
    have hname : e.name = ext.name := by simpa using List.find?_some he
    have hget := KeyedTable.mem_values.mp hmem
    rw [← hs e hmem, hname] at hget
    cases exact_of_get? hr hget
    exact ⟨_, List.fst_mem_of_mem_zipIdx hitem, rfl, nameAfterMerge_of_exact hname⟩

include hs hresolves in
theorem foundByName_of_carrier (hnames : (plan.resolved.map fun x => x.1.name).Nodup)
    (freshId : ℕ → String) {x : ExtractedEntity × Resolution} (hx : x ∈ plan.resolved)
    (hext : x.1.name = name) (hname : nameAfterMerge x.1 x.2 = name) :
    FoundByName s freshId plan name := by
  obtain ⟨i, hi⟩ := exists_mem_zipIdx_of_mem hx
  refine ⟨(x, i), hi, hext, ?_⟩
  cases hlast : (carriers plan name).getLast? with
  | none =>
    have hmem : (x, i) ∈ carriers plan name := List.mem_filter.mpr ⟨hi, decide_eq_true hname⟩
    rw [List.getLast?_eq_none_iff.mp hlast] at hmem
    exact absurd hmem List.not_mem_nil
  | some other =>
    obtain ⟨y, j⟩ := other
    obtain ⟨hj, hyname⟩ := List.mem_filter.mp (List.mem_of_getLast? hlast)
    have hyname : nameAfterMerge y.1 y.2 = name := of_decide_eq_true hyname
    have htarget : y.2.target = x.2.target := by
      have hgetx := hs.get?_nameAfterMerge (hresolves x hx)
      have hgety := hs.get?_nameAfterMerge (hresolves y (List.fst_mem_of_mem_zipIdx hj))
      rw [hname] at hgetx
      rw [hyname] at hgety
      exact hgety.symm.trans hgetx
    cases ht : x.2.target with
    | some t => simp only [idAfterMerge, htarget, ht]
    | none =>
      -- two new entities with one name are one
      have hyext : y.1.name = name := (name_of_new (htarget.trans ht)).symm.trans hyname
      have hxat : (plan.resolved.map fun x => x.1.name)[i]? = some name := by
        rw [List.getElem?_map, List.mk_mem_zipIdx_iff_getElem?.mp hi, Option.map_some, hext]
      have hyat : (plan.resolved.map fun x => x.1.name)[j]? = some name := by
        rw [List.getElem?_map, List.mk_mem_zipIdx_iff_getElem?.mp hj, Option.map_some, hyext]
      obtain ⟨hlt, _⟩ := List.getElem?_eq_some_iff.mp hxat
      cases (List.getElem?_inj hlt hnames).mp (hxat.trans hyat.symm)
      simp only [idAfterMerge, htarget, ht]

/-! ## What the chunk's names are -/

theorem map_name_values (es : List ExtractedEntity) :
    (OrderedDict.ofList (es.map fun e => (e.name, e))).values.map (·.name) =
      (OrderedDict.ofList (es.map fun e => (e.name, e))).keys := by
  rw [OrderedDict.values, OrderedDict.keys, List.map_map]
  refine List.map_congr_left fun entry hentry => ?_
  obtain ⟨e, _, rfl⟩ := List.mem_map.mp (OrderedDict.mem_entries_ofList hentry)
  rfl

theorem nodup_names_filterLowConfidence (result : ExtractionResult) :
    ((filterLowConfidence result).entities.map (·.name)).Nodup := by
  rw [filterLowConfidence, map_name_values]
  exact OrderedDict.nodup _

theorem map_fst_resolveAll {extracted : List ExtractedEntity}
    {resolved : List (ExtractedEntity × Resolution)}
    (h : env.resolveAll s extracted = .ok resolved) : resolved.map Prod.fst = extracted := by
  have hall := mapM_eq_ok_iff.mp h
  clear h
  induction hall with
  | nil => rfl
  | cons hext _ ih =>
    obtain ⟨r, _, rfl⟩ := map_eq_ok_iff.mp hext
    rw [List.map_cons, ih]

/-- In such a store a name is found when an extracted entity keeps it: a new one, or one merged
by name into an entity with the same name or a shorter one. A near neighbour never keeps it. -/
theorem foundByName_iff_carrier (hs : env.NamesNormal s) {chunk : Chunk}
    {result : ExtractionResult} {plan : ChunkPlan}
    (hresult : env.extractAuto chunk = .ok (some result))
    (hplan : env.planOrSkip s chunk = .ok plan) (freshId : ℕ → String) (name : String) :
    FoundByName s freshId plan name ↔
      ∃ x ∈ plan.resolved, x.1.name = name ∧ nameAfterMerge x.1 x.2 = name := by
  rcases env.plan_cases hresult hplan with ⟨_, hresolved⟩ | rfl
  · have hresolves : ∀ x ∈ plan.resolved, env.Resolves s x.1 x.2 := by
      intro x hx
      obtain ⟨ext, _, hext⟩ := exists_of_mem_mapM hresolved hx
      obtain ⟨r, hr, rfl⟩ := map_eq_ok_iff.mp hext
      exact env.resolves_of_resolve hr
    have hnames : (plan.resolved.map fun x => x.1.name).Nodup := by
      have h := nodup_names_filterLowConfidence result
      rw [← map_fst_resolveAll hresolved, List.map_map] at h
      exact h
    constructor
    · exact exists_carrier_of_foundByName hs hresolves
    · rintro ⟨x, hx, hext, hname⟩
      exact foundByName_of_carrier hs hresolves hnames freshId hx hext hname
  · constructor
    · rintro ⟨item, hitem, _⟩
      exact absurd hitem List.not_mem_nil
    · rintro ⟨x, hx, _⟩
      exact absurd hx List.not_mem_nil

/-- No surviving relation is lost or bent by the merge exactly when the merge leaves both its
ends to be found by their extracted names; in a store of normalized names, when both ends keep
their names. -/
theorem relationsKept_iff {chunk : Chunk} {result : ExtractionResult} {plan : ChunkPlan}
    (hresult : env.extractAuto chunk = .ok (some result))
    (hplan : env.planOrSkip s chunk = .ok plan) (freshId freshRel : ℕ → String) :
    (env.RelationsKept s freshId freshRel result plan ↔
      ∀ rel ∈ (filterLowConfidence result).relations,
        FoundByName s freshId plan rel.head ∧ FoundByName s freshId plan rel.tail) ∧
    (env.NamesNormal s → (env.RelationsKept s freshId freshRel result plan ↔
      ∀ rel ∈ (filterLowConfidence result).relations, ∀ name ∈ [rel.head, rel.tail],
        ∃ x ∈ plan.resolved, x.1.name = name ∧ nameAfterMerge x.1 x.2 = name)) := by
  have hkept := env.relationsKept_iff_foundByName hresult hplan freshId freshRel
  refine ⟨hkept, fun hs => hkept.trans (forall₂_congr fun rel _ => ?_)⟩
  rw [List.forall_mem_cons, List.forall_mem_singleton,
    foundByName_iff_carrier hs hresult hplan freshId,
    foundByName_iff_carrier hs hresult hplan freshId]

/-! ## Builds keep the names normalized -/

section Builds

variable [MultiDiGraph G Entity Relation]

open NetworkXGraphStore

omit [MultiDiGraph G Entity Relation] in
theorem normalized_mergedEntity (hs : env.NamesNormal s) {ext : ExtractedEntity} {r : Resolution}
    (h : env.Resolves s ext r) (kbId docId freshId : String) :
    env.unicode.normalizeName (env.mergedEntity kbId docId freshId ext r).name =
      (env.mergedEntity kbId docId freshId ext r).nameNorm := by
  cases r with
  | exact existing =>
    rw [name_mergedEntity, nameAfterMerge]
    split_ifs
    · rw [hs existing (KeyedTable.mem_values_of_get? h)]
      exact KeyedTable.key_of_get? h
    · rfl
  | near best => exact hs best (KeyedTable.mem_values_of_get? h.2)
  | new vector => rfl

theorem NamesNormal.upsertEntities {es : List Entity} (hs : env.NamesNormal s)
    (hes : ∀ e ∈ es, env.unicode.normalizeName e.name = e.nameNorm) :
    env.NamesNormal (upsertEntities es s).1 := by
  refine Command.forEach_invariant (I := env.NamesNormal) (fun entity hentity t ht => ?_) hs
  by_cases hkb : t.Accepts entity.kbId
  · intro e he
    rw [entities_upsertEntity hkb] at he
    refine KeyedTable.forall_values_merge mergeEntity_keepsKey ht ?_ e he
    cases hget : t.entities.get? entity.nameNorm with
    | none => exact hes entity hentity
    | some existing => exact ht existing (KeyedTable.mem_values_of_get? hget)
  · have hraised : upsertEntity entity t = (t, some (t.otherKbError entity.kbId)) := if_neg hkb
    rw [hraised]
    exact ht

/-- The graph builder fills a store with normalized names only. -/
theorem NamesNormal.buildForChunks (hs : env.NamesNormal s) (draws : Draws)
    (chunks : List Chunk) : env.NamesNormal (env.buildForChunks draws chunks s).1 := by
  cases hplans : env.plans s chunks with
  | error e =>
    rw [KgEnv.buildForChunks, hplans]
    exact hs
  | ok plans =>
    rw [env.buildForChunks_of_plans hplans]
    have hbatch : ∀ e ∈ env.allEntities draws plans,
        env.unicode.normalizeName e.name = e.nameNorm := by
      intro e he
      obtain ⟨item, hitem, i, j, rfl⟩ := env.exists_item_of_mem_allEntities hplans he
      exact normalized_mergedEntity hs (env.resolves_of_mem_items hitem) _ _ _
    have hentities := hs.upsertEntities hbatch
    refine Command.andThen_invariant (I := env.NamesNormal) hentities fun _ e he => ?_
    rw [entities_upsertRelations] at he
    exact hentities e he

end Builds

/-! ## A name in capitals -/

/-- Names of ASCII letters and blanks. -/
def latinTables : UnicodeTables where
  nfkc := id
  lower s := String.ofList (s.toList.map Char.toLower)
  isSpace c := c == ' '
  isWord c := c.isAlphanum

/-- The chunk says that one company bought the other. -/
def purchase (buyer : String) : ExtractionResult where
  entities := [⟨buyer, "ORG", "a company", 1⟩, ⟨"Initech", "ORG", "another company", 1⟩]
  relations := [⟨buyer, "Initech", "bought", "", 1⟩]

def purchaseEnv (buyer : String) : KgEnv where
  unicode := latinTables
  extractAuto _ := .ok (some (purchase buyer))
  embed texts := .ok (texts.map fun _ => [1])
  cosine _ _ := 0

/-- The buyer is stored already, under the name `Acme`. -/
def acmeStore : PlainGraphStore :=
  (NetworkXGraphStore.upsertEntities
    [{ NetworkXGraphStore.sampleEntity "ent_1" "doc_1" with name := "Acme", nameNorm := "acme" }]
    (NetworkXGraphStore.fresh "kb")).1

def unaryId (n : ℕ) : String := String.ofList (List.replicate n 'i')

theorem acmeStore_namesNormal (buyer : String) : (purchaseEnv buyer).NamesNormal acmeStore := by
  have hall : acmeStore.entities.values.all
      (fun e => latinTables.normalizeName e.name == e.nameNorm) = true := by decide +kernel
  exact fun e he => beq_iff_eq.mp (List.all_eq_true.mp hall e he)

theorem exists_ok_of_any {ε α : Type} {x : Except ε α} {p : α → Bool}
    (h : x.toOption.any p = true) : ∃ a, x = .ok a ∧ p a = true := by
  cases x with
  | error e => cases h
  | ok a => exact ⟨a, rfl, h⟩

/-- Of a chunk that calls the buyer by its stored name the relation is kept. -/
theorem relationsKept_sameName : ∃ plan,
    (purchaseEnv "Acme").planOrSkip acmeStore (adaChunk "chk_2" "doc_2") = .ok plan ∧
      (purchaseEnv "Acme").RelationsKept acmeStore unaryId unaryId (purchase "Acme") plan := by
  have hplan : ((purchaseEnv "Acme").planOrSkip acmeStore
      (adaChunk "chk_2" "doc_2")).toOption.any (fun plan =>
        (filterLowConfidence (purchase "Acme")).relations.all fun rel =>
          [rel.head, rel.tail].all fun name => plan.resolved.any fun x =>
            x.1.name == name && nameAfterMerge x.1 x.2 == name) = true := by
    decide +kernel
  obtain ⟨plan, hok, hall⟩ := exists_ok_of_any hplan
  refine ⟨plan, hok, ((relationsKept_iff rfl hok unaryId unaryId).2
    (acmeStore_namesNormal "Acme")).mpr fun rel hrel name hname => ?_⟩
  have hany := List.all_eq_true.mp (List.all_eq_true.mp hall rel hrel) name hname
  obtain ⟨x, hx, hsame⟩ := List.any_eq_true.mp hany
  rw [Bool.and_eq_true, beq_iff_eq, beq_iff_eq] at hsame
  exact ⟨x, hx, hsame⟩

/-- `ACME` is merged into `Acme`, and no entity has the name in capitals any more. -/
theorem not_relationsKept_capitals : ∃ plan,
    (purchaseEnv "ACME").planOrSkip acmeStore (adaChunk "chk_2" "doc_2") = .ok plan ∧
      (filterLowConfidence (purchase "ACME")).relations.length = 1 ∧
      relationsOf acmeStore ((purchaseEnv "ACME").entitiesOf unaryId plan) unaryId plan = [] ∧
      ¬ (purchaseEnv "ACME").RelationsKept acmeStore unaryId unaryId (purchase "ACME") plan := by
  have hplan : ((purchaseEnv "ACME").planOrSkip acmeStore
      (adaChunk "chk_2" "doc_2")).toOption.any (fun plan => (relationsOf acmeStore
        ((purchaseEnv "ACME").entitiesOf unaryId plan) unaryId plan).isEmpty) = true := by
    decide +kernel
  obtain ⟨plan, hok, hempty⟩ := exists_ok_of_any hplan
  have hnone := List.isEmpty_iff.mp hempty
  refine ⟨plan, hok, by decide +kernel, hnone, fun h => ?_⟩
  rw [RelationsKept, hnone] at h
  have hlen : (filterLowConfidence (purchase "ACME")).relations.length = 0 := h.length_eq
  exact absurd hlen (by decide +kernel)

end KgEnv

end Ragx
