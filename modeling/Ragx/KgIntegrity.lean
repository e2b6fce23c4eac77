import Ragx.KgBuilder

/-!
# Integrity of a graph build

All decisions of a call are made against the store before it, and every new entity has an
id of its own. So a name that is new twice in one call leaves the second of its ids without
a node, and the call raises. The main result says that this, a stored entity without a node
and a foreign knowledge base are all that can go wrong.
-/
namespace Ragx

namespace NetworkXGraphStore

variable {G : Type} [MultiDiGraph G Entity Relation]

open MultiDiGraph

/-- The entity's name is not stored. -/
def isUnknown (s : NetworkXGraphStore G) (e : Entity) : Bool := e.nameNorm ∉ s.entities.keys

omit [MultiDiGraph G Entity Relation] in
theorem isUnknown_eq_true {s : NetworkXGraphStore G} {e : Entity} :
    s.isUnknown e = true ↔ e.nameNorm ∉ s.entities.keys := decide_eq_true_iff

/-- A batch whose known entities carry stored ids and whose unknown ones carry fresh ids goes
through when the stored ids are nodes and no name is unknown twice. -/
theorem addressable_iff_of_fresh {s : NetworkXGraphStore G} {es : List Entity}
    (hstored : ∀ e ∈ es, e.nameNorm ∈ s.entities.keys → s.IsEntityId e.entityId)
    (hfresh : ∀ e ∈ es, e.nameNorm ∉ s.entities.keys →
      ¬ HasNode s.graph e.entityId ∧ ¬ s.IsEntityId e.entityId)
    (hids : ((es.filter s.isUnknown).map (·.entityId)).Nodup) :
    s.Addressable es ↔
      (∀ e ∈ es, e.nameNorm ∈ s.entities.keys → HasNode s.graph e.entityId) ∧
        ((es.filter s.isUnknown).map (·.nameNorm)).Nodup := by
  induction es using List.reverseRecOn with
  | nil =>
    refine iff_of_true (fun before e after h => ?_) ⟨fun _ he => absurd he List.not_mem_nil, ?_⟩
    · exact absurd h.symm (by simp)
    · exact List.nodup_nil
  | append_singleton es e ih =>
    rw [List.forall_mem_append, List.forall_mem_singleton] at hstored hfresh
    rw [List.filter_append, List.map_append] at hids
    have hnewcomer (n : String)
        (hn : n ∈ (KeyedTable.newcomers Entity.nameNorm s.entities.keys es).map (·.entityId)) :
        n ∈ (es.filter s.isUnknown).map (·.entityId) ∧ ¬ s.IsEntityId n := by
      obtain ⟨w, hw, rfl⟩ := List.mem_map.mp hn
      obtain ⟨hmem, hunknown⟩ := KeyedTable.of_mem_newcomers hw
      refine ⟨List.mem_map_of_mem (List.mem_filter.mpr ⟨hmem, ?_⟩), (hfresh.1 w hmem hunknown).2⟩
      exact isUnknown_eq_true.mpr hunknown
    rw [addressable_concat, ih hstored.1 hfresh.1 (List.nodup_append.mp hids).1,
      List.forall_mem_append, List.forall_mem_singleton, List.filter_append]
    by_cases hk : e.nameNorm ∈ s.entities.keys
    · have hempty : [e].filter s.isUnknown = [] := by simp [isUnknown, hk]
      have hnot := fun hn => (hnewcomer e.entityId hn).2 (hstored.2 hk)
      rw [hempty, List.append_nil, and_right_comm]
      refine and_congr_left fun _ => and_congr_right fun _ => ?_
      exact ⟨fun h _ => (h (Or.inl hk)).resolve_right hnot, fun h _ => Or.inl (h hk)⟩
    · have hsingle : [e].filter s.isUnknown = [e] := by simp [isUnknown, hk]
      rw [hsingle, List.map_singleton] at hids
      have hnot (hn : e.entityId ∈
          (KeyedTable.newcomers Entity.nameNorm s.entities.keys es).map (·.entityId)) : False :=
        (List.nodup_append.mp hids).2.2 _ (hnewcomer _ hn).1 _ (List.mem_singleton.mpr rfl) rfl
      have hname : e.nameNorm ∈ (es.filter s.isUnknown).map (·.nameNorm) ↔
          e.nameNorm ∈ es.map (·.nameNorm) := by
        constructor
        · intro h
          obtain ⟨w, hw, hwe⟩ := List.mem_map.mp h
          exact List.mem_map.mpr ⟨w, List.mem_of_mem_filter hw, hwe⟩
        · intro h
          obtain ⟨w, hw, hwe⟩ := List.mem_map.mp h
          exact List.mem_map.mpr
            ⟨w, List.mem_filter.mpr ⟨hw, isUnknown_eq_true.mpr (hwe ▸ hk)⟩, hwe⟩
      have hlast : (e.nameNorm ∈ s.entities.keys ∨ e.nameNorm ∈ es.map (·.nameNorm) →
          HasNode s.graph e.entityId ∨ e.entityId ∈
            (KeyedTable.newcomers Entity.nameNorm s.entities.keys es).map (·.entityId)) ↔
          e.nameNorm ∉ es.map (·.nameNorm) :=
        ⟨fun h hmem => (h (Or.inr hmem)).elim (hfresh.2 hk).1 hnot,
          fun hmem hknown => absurd (hknown.resolve_left hk) hmem⟩
      rw [hsingle, List.map_append, List.map_singleton, List.nodup_append_comm,
        List.singleton_append, List.nodup_cons, hname, hlast, and_assoc,
        and_iff_left (fun h => absurd h hk), and_comm (a := List.Nodup _)]

end NetworkXGraphStore

open NetworkXGraphStore MultiDiGraph

variable {G : Type} [MultiDiGraph G Entity Relation]

/-- New ids: no two are alike, and none is in use. -/
structure Draws.Fresh (draws : Draws) (s : NetworkXGraphStore G) : Prop where
  injective : ∀ i j i' j', draws.entity i j = draws.entity i' j' → i = i' ∧ j = j'
  unused : ∀ i j, ¬ HasNode s.graph (draws.entity i j) ∧ ¬ s.IsEntityId (draws.entity i j)

namespace ResolvedItem

def isNew (item : ResolvedItem) : Bool := item.resolution.target.isNone

/-- Merged into an entity with another name. -/
def isNear (item : ResolvedItem) : Bool :=
  match item.resolution with
  | .near _ => true
  | _ => false

end ResolvedItem

/-- Every stored relation joins stored entities. -/
def NetworkXGraphStore.Joined (s : NetworkXGraphStore G) : Prop :=
  ∀ r ∈ s.relations.values, s.IsEntityId r.headId ∧ s.IsEntityId r.tailId

namespace KgEnv

variable (env : KgEnv)

/-- The call returns and leaves one entity for each name that was not merged into a near
neighbour, and relations between stored entities only. -/
structure BuildIntact (draws : Draws) (chunks : List Chunk) (s : NetworkXGraphStore G) :
    Prop where
  succeeds : (env.buildForChunks draws chunks s).2 = none
  stored : ∀ item ∈ env.resolvedItems s chunks, item.isNear = false →
    ∃! e, e ∈ (env.buildForChunks draws chunks s).1.entities.values ∧
      e.nameNorm = env.unicode.normalizeName item.ext.name
  joined : (env.buildForChunks draws chunks s).1.Joined

/-- The condition: no chunk fails with a graph build error, the store takes the chunks'
knowledge base, whatever an entity is merged into has its node, and no two extracted
entities are new under one name. -/
structure BuildSafe (chunks : List Chunk) (s : NetworkXGraphStore G) : Prop where
  no_build_error : ∀ chunk ∈ chunks, ∀ e, env.chunkPlan s chunk = .error e → e.cls ≠ .graphBuild
  accepted : ∀ item ∈ env.resolvedItems s chunks, s.Accepts item.chunk.kbId
  targets : ∀ item ∈ env.resolvedItems s chunks, ∀ t ∈ item.resolution.target,
    HasNode s.graph t.entityId
  new_names : (((env.resolvedItems s chunks).filter (·.isNew)).map
    fun item => env.unicode.normalizeName item.ext.name).Nodup

section Batch

variable {draws : Draws} {chunks : List Chunk} {s : NetworkXGraphStore G}
  {plans : List ChunkPlan}

omit [MultiDiGraph G Entity Relation] in
theorem mem_keys_placedEntity {item : ResolvedItem} (h : item ∈ env.resolvedItems s chunks)
    (numbers : ℕ × ℕ) :
    (env.placedEntity draws (item, numbers)).nameNorm ∈ s.entities.keys ↔ item.isNew = false := by
  have hres := env.resolves_of_mem_items h
  rw [ResolvedItem.isNew]
  cases ht : item.resolution.target with
  | some t =>
    obtain ⟨hget, hname, _⟩ := env.mergedEntity_of_target hres ht item.chunk.kbId
      item.chunk.docId (draws.entity numbers.1 numbers.2)
    refine iff_of_true ?_ rfl
    rw [placedEntity, hname, ← KeyedTable.isSome_get?, hget]
    rfl
  | none =>
    obtain ⟨hget, hname, _⟩ := env.mergedEntity_of_new hres ht item.chunk.kbId
      item.chunk.docId (draws.entity numbers.1 numbers.2)
    refine iff_of_false ?_ (by simp)
    rw [placedEntity, hname]
    exact KeyedTable.get?_eq_none.mp hget

omit [MultiDiGraph G Entity Relation] in
theorem placedEntity_of_target (draws : Draws) {item : ResolvedItem}
    (h : item ∈ env.resolvedItems s chunks) {t : Entity}
    (ht : item.resolution.target = some t) (numbers : ℕ × ℕ) :
    (env.placedEntity draws (item, numbers)).entityId = t.entityId ∧ t ∈ s.entities.values := by
  obtain ⟨hget, _, hid⟩ := env.mergedEntity_of_target (env.resolves_of_mem_items h) ht
    item.chunk.kbId item.chunk.docId (draws.entity numbers.1 numbers.2)
  exact ⟨hid, KeyedTable.mem_values_of_get? hget⟩

omit [MultiDiGraph G Entity Relation] in
theorem entityId_placedEntity_of_new {item : ResolvedItem}
    (h : item ∈ env.resolvedItems s chunks) (hnew : item.isNew = true) (numbers : ℕ × ℕ) :
    (env.placedEntity draws (item, numbers)).entityId = draws.entity numbers.1 numbers.2 := by
  have ht : item.resolution.target = none := Option.isNone_iff_eq_none.mp hnew
  exact (env.mergedEntity_of_new (env.resolves_of_mem_items h) ht _ _ _).2.2.1

omit [MultiDiGraph G Entity Relation] in
theorem exists_placed_of_item (draws : Draws) (h : env.plans s chunks = .ok plans)
    {item : ResolvedItem} (hitem : item ∈ env.resolvedItems s chunks) :
    ∃ numbers, env.placedEntity draws (item, numbers) ∈ env.allEntities draws plans := by
  rw [← env.flatten_items_of_plans h] at hitem
  obtain ⟨i, j, hx⟩ := exists_mem_placed hitem
  rw [allEntities_eq]
  exact ⟨(i, j), List.mem_map_of_mem hx⟩

omit [MultiDiGraph G Entity Relation] in
theorem exists_target_of_known (h : env.plans s chunks = .ok plans) {e : Entity}
    (he : e ∈ env.allEntities draws plans) (hk : e.nameNorm ∈ s.entities.keys) :
    ∃ item ∈ env.resolvedItems s chunks, ∃ t, item.resolution.target = some t ∧
      e.entityId = t.entityId ∧ t ∈ s.entities.values := by
  obtain ⟨item, hitem, i, j, rfl⟩ := env.exists_item_of_mem_allEntities h he
  have hnew := (env.mem_keys_placedEntity hitem (i, j)).mp hk
  obtain ⟨t, ht⟩ := Option.isSome_iff_exists.mp (Option.isNone_eq_false_iff.mp hnew)
  exact ⟨item, hitem, t, ht, env.placedEntity_of_target draws hitem ht (i, j)⟩

omit [MultiDiGraph G Entity Relation] in
theorem isUnknown_placedEntity (h : env.plans s chunks = .ok plans) (x : ResolvedItem × ℕ × ℕ)
    (hx : x ∈ placed (plans.map ChunkPlan.items)) :
    s.isUnknown (env.placedEntity draws x) = x.1.isNew := by
  obtain ⟨item, numbers⟩ := x
  have hitem := env.flatten_items_of_plans h ▸ mem_flatten_of_mem_placed hx
  rw [Bool.eq_iff_iff, isUnknown_eq_true, env.mem_keys_placedEntity hitem numbers,
    Bool.not_eq_false]

omit [MultiDiGraph G Entity Relation] in
/-- The names that a batch brings are those of the entities that are not merged. -/
theorem map_nameNorm_unknown (draws : Draws) (h : env.plans s chunks = .ok plans) :
    (((env.allEntities draws plans).filter s.isUnknown).map (·.nameNorm)) =
      ((env.resolvedItems s chunks).filter (·.isNew)).map
        fun item => env.unicode.normalizeName item.ext.name := by
  rw [allEntities_eq, ← env.flatten_items_of_plans h]
  refine map_filter_map_placed _ (env.isUnknown_placedEntity h) fun x hx hnew => ?_
  have hres := env.resolves_of_mem_items
    (env.flatten_items_of_plans h ▸ mem_flatten_of_mem_placed hx)
  exact (env.mergedEntity_of_new hres (Option.isNone_iff_eq_none.mp hnew) _ _ _).2.1

/-- When the batch of entities goes through. -/
theorem upsertEntities_allEntities_iff (h : env.plans s chunks = .ok plans)
    (hfresh : draws.Fresh s) :
    (upsertEntities (env.allEntities draws plans) s).2 = none ↔
      (∀ item ∈ env.resolvedItems s chunks, s.Accepts item.chunk.kbId) ∧
      (∀ item ∈ env.resolvedItems s chunks, ∀ t ∈ item.resolution.target,
        HasNode s.graph t.entityId) ∧
      (((env.resolvedItems s chunks).filter (·.isNew)).map
        fun item => env.unicode.normalizeName item.ext.name).Nodup := by
  rw [upsertEntities_raised_eq_none, addressable_iff_of_fresh]
  · refine and_congr ?_ (and_congr ?_ ?_)
    · constructor
      · intro hkb item hitem
        obtain ⟨numbers, he⟩ := env.exists_placed_of_item draws h hitem
        have hkbId := hkb _ he
        rwa [placedEntity, kbId_mergedEntity] at hkbId
      · intro hkb e he
        obtain ⟨item, hitem, i, j, rfl⟩ := env.exists_item_of_mem_allEntities h he
        rw [placedEntity, kbId_mergedEntity]
        exact hkb item hitem
    · constructor
      · intro hnodes item hitem t ht
        obtain ⟨numbers, he⟩ := env.exists_placed_of_item draws h hitem
        obtain ⟨hid, _⟩ := env.placedEntity_of_target draws hitem ht numbers
        rw [← hid]
        refine hnodes _ he ((env.mem_keys_placedEntity hitem numbers).mpr ?_)
        rw [ResolvedItem.isNew, ht]
        rfl
      · intro htargets e he hk
        obtain ⟨item, hitem, t, ht, hid, _⟩ := env.exists_target_of_known h he hk
        rw [hid]
        exact htargets item hitem t ht
    · rw [env.map_nameNorm_unknown draws h]
  · intro e he hk
    obtain ⟨_, _, t, _, hid, ht⟩ := env.exists_target_of_known h he hk
    exact ⟨t, ht, hid.symm⟩
  · intro e he hk
    obtain ⟨item, hitem, i, j, rfl⟩ := env.exists_item_of_mem_allEntities h he
    have hnew : item.isNew = true := by
      rw [← Bool.not_eq_false]
      exact fun hf => hk ((env.mem_keys_placedEntity hitem (i, j)).mpr hf)
    rw [env.entityId_placedEntity_of_new hitem hnew (i, j)]
    exact hfresh.unused i j
  · rw [allEntities_eq]
    refine nodup_map_filter_map_placed (fun numbers => draws.entity numbers.1 numbers.2)
      (fun numbers numbers' he => ?_) fun x hx hunknown => ?_
    · obtain ⟨hgroup, hplace⟩ := hfresh.injective _ _ _ _ he
      exact Prod.ext hgroup hplace
    · rw [env.isUnknown_placedEntity h x hx] at hunknown
      exact env.entityId_placedEntity_of_new
        (env.flatten_items_of_plans h ▸ mem_flatten_of_mem_placed hx) hunknown x.2

/-- After a batch that goes through, every id it carries is the id of a stored entity. -/
theorem isEntityId_of_mem_allEntities (h : env.plans s chunks = .ok plans)
    (hfresh : draws.Fresh s) (hok : (upsertEntities (env.allEntities draws plans) s).2 = none)
    {e : Entity} (he : e ∈ env.allEntities draws plans) :
    (upsertEntities (env.allEntities draws plans) s).1.IsEntityId e.entityId := by
  rw [isEntityId_upsertEntities hok]
  by_cases hk : e.nameNorm ∈ s.entities.keys
  · obtain ⟨_, _, t, _, hid, ht⟩ := env.exists_target_of_known h he hk
    exact Or.inl ⟨t, ht, hid.symm⟩
  · have hnames := ((env.upsertEntities_allEntities_iff h hfresh).mp hok).2.2
    rw [← env.map_nameNorm_unknown draws h] at hnames
    exact Or.inr (List.mem_map_of_mem (KeyedTable.mem_newcomers_of_nodup hnames he hk))

end Batch

omit [MultiDiGraph G Entity Relation] in
/-- A chunk with a relation has an entity, too. -/
theorem exists_item_of_relation {s : NetworkXGraphStore G} {chunks : List Chunk}
    {plans : List ChunkPlan} (h : env.plans s chunks = .ok plans) {plan : ChunkPlan}
    (hplan : plan ∈ plans) {rel : ExtractedRelation} (hrel : rel ∈ plan.relations) :
    ∃ item ∈ env.resolvedItems s chunks, item.chunk = plan.chunk := by
  obtain ⟨chunk, _, hskip⟩ := exists_of_mem_mapM h hplan
  rcases env.planOrSkip_cases hskip with hok | ⟨_, rfl⟩
  · obtain ⟨x, hx, _⟩ := ((env.chunkPlan_spec hok).2.2 rel hrel).1
    have hitem : (⟨plan.chunk, x.1, x.2⟩ : ResolvedItem) ∈ env.resolvedItems s chunks := by
      rw [← env.flatten_items_of_plans h]
      exact List.mem_flatten.mpr ⟨_, List.mem_map_of_mem hplan, List.mem_map_of_mem hx⟩
    exact ⟨_, hitem, rfl⟩
  · exact absurd hrel List.not_mem_nil

/-- The call goes through exactly under the condition. -/
theorem buildForChunks_raised_eq_none {draws : Draws} {chunks : List Chunk}
    {s : NetworkXGraphStore G} (hfresh : draws.Fresh s) :
    (env.buildForChunks draws chunks s).2 = none ↔ env.BuildSafe chunks s := by
  constructor
  · intro hok
    cases hplans : env.plans s chunks with
    | error e =>
      rw [buildForChunks, hplans] at hok
      cases hok
    | ok plans =>
      rw [env.buildForChunks_of_plans hplans, Command.andThen_raised_eq_none] at hok
      obtain ⟨hkb, htargets, hnames⟩ := (env.upsertEntities_allEntities_iff hplans hfresh).mp hok.1
      exact ⟨env.exists_plans_iff.mp ⟨plans, hplans⟩, hkb, htargets, hnames⟩
  · intro hsafe
    obtain ⟨plans, hplans⟩ := env.exists_plans_iff.mpr hsafe.no_build_error
    rw [env.buildForChunks_of_plans hplans, Command.andThen_raised_eq_none]
    refine ⟨(env.upsertEntities_allEntities_iff hplans hfresh).mpr
      ⟨hsafe.accepted, hsafe.targets, hsafe.new_names⟩, ?_⟩
    refine upsertRelations_raised_eq_none.mpr fun r hr => ?_
    obtain ⟨plan, i, hplan, rel, hrel, _, _, _, _, hkb, _⟩ := env.mem_allRelations hr
    obtain ⟨item, hitem, hchunk⟩ :=
      env.exists_item_of_relation hplans (List.fst_mem_of_mem_zipIdx hplan) hrel
    rw [Accepts, kbId_upsertEntities, hkb, ← hchunk]
    exact hsafe.accepted item hitem

theorem joined_buildForChunks {draws : Draws} {chunks : List Chunk} {s : NetworkXGraphStore G}
    (hfresh : draws.Fresh s) (hjoined : s.Joined)
    (hok : (env.buildForChunks draws chunks s).2 = none) :
    (env.buildForChunks draws chunks s).1.Joined := by
  have hsafe := (env.buildForChunks_raised_eq_none hfresh).mp hok
  obtain ⟨plans, hplans⟩ := env.exists_plans_iff.mpr hsafe.no_build_error
  rw [env.buildForChunks_of_plans hplans] at hok ⊢
  obtain ⟨hentities, hrelations⟩ := Command.andThen_raised_eq_none.mp hok
  rw [Command.andThen_of_none hentities]
  set mid := (upsertEntities (env.allEntities draws plans) s).1 with hmid
  have hkept (n : String) (hn : s.IsEntityId n) : mid.IsEntityId n :=
    (isEntityId_upsertEntities hentities).mpr (Or.inl hn)
  have hid (plan : ChunkPlan) (i : ℕ) (hplan : (plan, i) ∈ plans.zipIdx) (name id : String)
      (hname : nameToId s (env.entitiesOf (draws.entity i) plan) name = some id) :
      mid.IsEntityId id := by
    rcases id_of_nameToId hname with ⟨e, he, rfl⟩ | hstored
    · exact env.isEntityId_of_mem_allEntities hplans hfresh hentities
        (List.mem_flatMap.mpr ⟨(plan, i), hplan, he⟩)
    · exact hkept id hstored
  intro r' hr'
  rw [isEntityId_upsertRelations, isEntityId_upsertRelations]
  obtain ⟨r, hr, hkey, _⟩ :=
    (mem_relations_upsertRelations hrelations).mp ⟨r', hr', rfl, rfl⟩
  rw [Relation.key, Relation.key, Prod.mk.injEq, Prod.mk.injEq] at hkey
  obtain ⟨hhead, htail, _⟩ := hkey
  rw [← hhead, ← htail]
  rcases List.mem_append.mp hr with hr | hr
  · rw [hmid, relations_upsertEntities] at hr
    obtain ⟨hheadId, htailId⟩ := hjoined r hr
    exact ⟨hkept _ hheadId, hkept _ htailId⟩
  · obtain ⟨plan, i, hplan, rel, _, hheadId, htailId, _⟩ :=
      env.mem_allRelations (KeyedTable.of_mem_newcomers hr).1
    exact ⟨hid plan i hplan _ _ hheadId, hid plan i hplan _ _ htailId⟩

/-- An item that is not merged into a near neighbour is placed under its own name. -/
theorem nameNorm_of_not_near (draws : Draws) {item : ResolvedItem} (hnear : item.isNear = false)
    (numbers : ℕ × ℕ) : (env.placedEntity draws (item, numbers)).nameNorm =
      env.unicode.normalizeName item.ext.name := by
  obtain ⟨chunk, ext, r⟩ := item
  cases r with
  | exact existing => rfl
  | near best => cases hnear
  | new vector => rfl

/-- A name that is not merged into a near neighbour has one entry after the call. -/
theorem existsUnique_buildForChunks {draws : Draws} {chunks : List Chunk}
    {s : NetworkXGraphStore G} (hok : (env.buildForChunks draws chunks s).2 = none)
    {item : ResolvedItem} (hitem : item ∈ env.resolvedItems s chunks)
    (hnear : item.isNear = false) :
    ∃! e, e ∈ (env.buildForChunks draws chunks s).1.entities.values ∧
      e.nameNorm = env.unicode.normalizeName item.ext.name := by
  cases hplans : env.plans s chunks with
  | error e =>
    rw [buildForChunks, hplans] at hok
    cases hok
  | ok plans =>
    rw [env.buildForChunks_of_plans hplans] at hok ⊢
    obtain ⟨hentities, _⟩ := Command.andThen_raised_eq_none.mp hok
    rw [Command.andThen_of_none hentities, entities_upsertRelations]
    obtain ⟨numbers, hmem⟩ := env.exists_placed_of_item draws hplans hitem
    have hname := env.nameNorm_of_not_near draws hnear numbers
    have hkey : env.unicode.normalizeName item.ext.name ∈
        (upsertEntities (env.allEntities draws plans) s).1.entities.keys :=
      (mem_keys_upsertEntities hentities).mpr (Or.inr (hname ▸ List.mem_map_of_mem hmem))
    obtain ⟨e, he⟩ := Option.isSome_iff_exists.mp (KeyedTable.isSome_get?.mpr hkey)
    refine ⟨e, ⟨KeyedTable.mem_values_of_get? he, KeyedTable.key_of_get? he⟩, ?_⟩
    rintro e' ⟨he', hname'⟩
    exact KeyedTable.eq_of_mem_values he' (KeyedTable.mem_values_of_get? he)
      (hname'.trans (KeyedTable.key_of_get? he).symm)

/-- Lower-case ASCII names. -/
def asciiTables : UnicodeTables where
  nfkc := id
  lower := id
  isSpace c := c == ' '
  isWord c := c.isAlpha

/-- Every chunk mentions the same person, and all texts have one vector. -/
def oneNameEnv : KgEnv where
  unicode := asciiTables
  extractAuto _ := .ok (some { entities := [⟨"ada", "PERSON", "a person", 1⟩] })
  embed texts := .ok (texts.map fun _ => [1])
  cosine _ _ := 1

/-- A unary notation for the numbers, behind a mark. -/
def unaryDraws (mark : Char) : Draws where
  entity i j := String.ofList (mark :: (List.replicate i 'i' ++ 'j' :: List.replicate j 'i'))
  relation i j := String.ofList (mark :: (List.replicate i 'i' ++ 'r' :: List.replicate j 'i'))

theorem unaryDraws_injective (mark : Char) (i j i' j' : ℕ)
    (h : (unaryDraws mark).entity i j = (unaryDraws mark).entity i' j') : i = i' ∧ j = j' := by
  have hlist : List.replicate i 'i' ++ 'j' :: List.replicate j 'i' =
      List.replicate i' 'i' ++ 'j' :: List.replicate j' 'i' :=
    List.tail_eq_of_cons_eq (String.ofList_injective h)
  clear h
  induction i generalizing i' with
  | zero =>
    cases i' with
    | zero => simpa using hlist
    | succ i' => simp [List.replicate_succ] at hlist
  | succ i ih =>
    cases i' with
    | zero => simp [List.replicate_succ] at hlist
    | succ i' =>
      rw [List.replicate_succ, List.replicate_succ, List.cons_append, List.cons_append,
        List.cons.injEq] at hlist
      obtain ⟨hi, hj⟩ := ih i' hlist.2
      exact ⟨congrArg Nat.succ hi, hj⟩

/-- The ids are new where no id has the mark. -/
theorem unaryDraws_fresh {s : PlainGraphStore} (mark : Char)
    (hnodes : s.graph.nodes.keys.all (fun n => n.toList.head? != some mark) = true)
    (hids : s.entities.values.all (fun e => e.entityId.toList.head? != some mark) = true) :
    (unaryDraws mark).Fresh s where
  injective := unaryDraws_injective mark
  unused := by
    intro i j
    have hmark : ((unaryDraws mark).entity i j).toList.head? = some mark := by
      rw [unaryDraws, String.toList_ofList]
      rfl
    constructor
    · intro hnode
      obtain ⟨a, ha⟩ := Option.isSome_iff_exists.mp hnode
      have hkey := List.mem_map_of_mem (f := Prod.fst) (OrderedDict.mem_entries.mpr ha)
      have hno := List.all_eq_true.mp hnodes _ hkey
      rw [hmark] at hno
      simp at hno
    · rintro ⟨e, he, hid⟩
      have hno := List.all_eq_true.mp hids e he
      rw [hid, hmark] at hno
      simp at hno

theorem joined_fresh (kbId : String) : (fresh kbId : PlainGraphStore).Joined :=
  fun _ hr => absurd hr List.not_mem_nil

def adaChunk (chunkId docId : String) : Chunk where
  chunkId := chunkId
  docId := docId
  kbId := "kb"
  atomIds := []
  text := "ada"
  tokenCount := 1

end KgEnv

end Ragx
