import Mathlib.Data.Set.Card
import Ragx.GraphNeighbors

/-!
# Which neighbours are found

A caller of `neighbors` expects the stored seeds, every entity within the hops as long as the
limit has room for them, and the nearest ones otherwise. The main result says when it gets them:
a seed that the walk comes back to uses up a place.
-/
namespace Ragx

/-- Looking names up and naming what was found leaves the names that are known. -/
theorem map_filterMap_of_named {α : Type} {f : String → Option α} {name : α → String}
    (h : ∀ n e, f n = some e → name e = n) (ns : List String) :
    (ns.filterMap f).map name = ns.filter fun n => (f n).isSome := by
  induction ns with
  | nil => rfl
  | cons n ns ih =>
    cases hn : f n with
    | none =>
      rw [List.filterMap_cons_none hn, List.filter_cons_of_neg (by simp [hn]), ih]
    | some e =>
      rw [List.filterMap_cons_some hn, List.filter_cons_of_pos (by simp [hn]), List.map_cons,
        h n e hn, ih]

namespace NetworkXGraphStore

open MultiDiGraph BreadthFirst

variable {G : Type} [MultiDiGraph G Entity Relation]

/-- A stored relation joins the two, whichever way it points. -/
def Touches (s : NetworkXGraphStore G) (a b : String) : Prop :=
  ∃ r ∈ s.relations.values, (r.headId = a ∧ r.tailId = b) ∨ (r.headId = b ∧ r.tailId = a)

/-- The entities, other than the seeds, that lie within the hops. -/
def nearby (s : NetworkXGraphStore G) (seeds : List String) (hops : ℤ) : Set String :=
  {n | s.IsEntityId n ∧ n ∉ seeds ∧ WithinSteps s.Touches seeds hops.toNat n}

end NetworkXGraphStore

/-- What the subgraph has besides the seeds. -/
def SubGraph.found (sub : SubGraph) (seeds : List String) : Set String :=
  {n | n ∈ sub.entityIds ∧ n ∉ seeds}

namespace NetworkXGraphStore

variable {G : Type} [MultiDiGraph G Entity Relation]

/-- The subgraph around the seeds, with all entities within the hops or with the nearest ones
that the limit has room for. -/
structure NearestSubGraph (s : NetworkXGraphStore G) (seeds : List String) (hops limit : ℤ)
    (sub : SubGraph) : Prop where
  stored : ∀ e ∈ sub.entities, e ∈ s.entities.values
  once : sub.entityIds.Nodup
  relations : ∀ r, r ∈ sub.relations ↔
    r ∈ s.relations.values ∧ r.headId ∈ sub.entityIds ∧ r.tailId ∈ sub.entityIds
  starts : ∀ n ∈ seeds, n ∈ sub.entityIds ↔ s.IsEntityId n
  all : ((s.nearby seeds hops).ncard : ℤ) ≤ limit → sub.found seeds = s.nearby seeds hops
  limited : limit < (s.nearby seeds hops).ncard → sub.found seeds ⊆ s.nearby seeds hops ∧
    ((sub.found seeds).ncard : ℤ) = limit ∧
    ∀ n ∈ sub.found seeds, ∀ m ∈ s.nearby seeds hops, m ∉ sub.found seeds →
      ∀ d, WithinSteps s.Touches seeds d m → WithinSteps s.Touches seeds d n

open MultiDiGraph UndirectedView BreadthFirst

variable [UndirectedView G Entity Relation]

/-- The nodes in the order in which a walk from the seeds comes to them, with every seed that
it comes back to. -/
def walk (s : NetworkXGraphStore G) (seeds : List String) (hops : ℤ) : List String :=
  order (adjacent s.graph) seeds hops.toNat

/-- No seed that the walk comes back to takes a place before an entity that finds none. -/
def SeedsTakeNoPlace (s : NetworkXGraphStore G) (seeds : List String) (hops limit : ℤ) : Prop :=
  (∀ n ∈ (s.walk seeds hops).take limit.toNat, n ∉ seeds) ∨
    ∀ n ∈ (s.walk seeds hops).drop limit.toNat, n ∈ seeds

instance (s : NetworkXGraphStore G) (seeds : List String) (hops limit : ℤ) :
    Decidable (s.SeedsTakeNoPlace seeds hops limit) :=
  inferInstanceAs (Decidable ((∀ n ∈ _, n ∉ seeds) ∨ ∀ n ∈ _, n ∈ seeds))

/-! ## The graph of a store that agrees -/

variable {s : NetworkXGraphStore G}

theorem mem_adjacent (hs : s.Agrees) (hclosed : MultiDiGraph.Closed s.graph) (a b : String) :
    b ∈ adjacent s.graph a ↔ s.Touches a b := by
  have hedge (u v : String) : (∃ k, (edge? s.graph u v k).isSome = true) ↔
      ∃ r ∈ s.relations.values, r.headId = u ∧ r.tailId = v := by
    constructor
    · rintro ⟨k, hk⟩
      obtain ⟨b, hb⟩ := Option.isSome_iff_exists.mp hk
      obtain ⟨r, hr⟩ := (hs.edges u v b.type).mp ⟨k, b, hb, rfl⟩
      have hkey := Prod.ext_iff.mp (KeyedTable.key_of_get? hr)
      exact ⟨r, KeyedTable.mem_values_of_get? hr, hkey.1, (Prod.ext_iff.mp hkey.2).1⟩
    · rintro ⟨r, hr, rfl, rfl⟩
      obtain ⟨k, b, hb, _⟩ :=
        (hs.edges r.headId r.tailId r.type).mpr ⟨r, KeyedTable.mem_values.mp hr⟩
      exact ⟨k, by rw [hb]; rfl⟩
  have htouch : s.Touches a b ↔ ∃ k, (edge? s.graph a b k).isSome = true ∨
      (edge? s.graph b a k).isSome = true := by
    rw [exists_or, hedge, hedge, Touches, ← exists_or]
    refine exists_congr fun r => ?_
    rw [← and_or_left]
  rw [htouch, adjacent]
  split_ifs with hnode
  · exact mem_neighbors s.graph a b hnode
  · refine iff_of_false List.not_mem_nil ?_
    rintro ⟨k, hk | hk⟩
    · exact hnode (hclosed a b k hk).1
    · exact hnode (hclosed b a k hk).2

omit [UndirectedView G Entity Relation] in
theorem hasNode_of_touches (hs : s.Agrees) (hclosed : MultiDiGraph.Closed s.graph) {a b : String}
    (h : s.Touches a b) : HasNode s.graph b := by
  obtain ⟨r, hr, hends⟩ := h
  obtain ⟨k, b', hb, _⟩ := (hs.edges r.headId r.tailId r.type).mpr ⟨r, KeyedTable.mem_values.mp hr⟩
  have hnodes := hclosed r.headId r.tailId k (by rw [hb]; rfl)
  rcases hends with ⟨_, rfl⟩ | ⟨rfl, _⟩
  · exact hnodes.2
  · exact hnodes.1

theorem hasNode_of_mem_adjacent (hs : s.Agrees) (hclosed : MultiDiGraph.Closed s.graph)
    (a b : String) (h : b ∈ adjacent s.graph a) : HasNode s.graph b :=
  hasNode_of_touches hs hclosed ((mem_adjacent hs hclosed a b).mp h)

/-- Outside the seeds the walk goes exactly through the entities within the hops. -/
theorem mem_walk (hs : s.Agrees) (hclosed : MultiDiGraph.Closed s.graph)
    {seeds : List String} {hops : ℤ} {n : String} (hn : n ∉ seeds) :
    n ∈ s.walk seeds hops ↔ n ∈ s.nearby seeds hops := by
  constructor
  · intro hwalk
    have hwithin := within_of_mem_order (mem_adjacent hs hclosed) hwalk
    obtain ⟨_, a, _, _, htouch⟩ := hwithin.exists_step hn
    exact ⟨(hs.nodes n).mp (hasNode_of_touches hs hclosed htouch), hn, hwithin⟩
  · rintro ⟨_, _, hwithin⟩
    exact mem_order_of_within (mem_adjacent hs hclosed) hwithin hn

/-! ## What is returned -/

omit [MultiDiGraph G Entity Relation] [UndirectedView G Entity Relation] in
theorem idToEntity_eq_some {n : String} {e : Entity} (h : s.idToEntity.get? n = some e) :
    e ∈ s.entities.values ∧ e.entityId = n := by
  obtain ⟨e', he', heq⟩ := List.mem_map.mp
    (OrderedDict.mem_entries_ofList (OrderedDict.mem_entries.mpr h))
  cases heq
  exact ⟨he', rfl⟩

omit [MultiDiGraph G Entity Relation] [UndirectedView G Entity Relation] in
theorem isSome_idToEntity {n : String} : (s.idToEntity.get? n).isSome = true ↔ s.IsEntityId n := by
  rw [Option.isSome_iff_exists]
  constructor
  · rintro ⟨e, he⟩
    exact ⟨e, idToEntity_eq_some he⟩
  · rintro ⟨e, he, rfl⟩
    have hmem : e.entityId ∈ (s.entities.values.map fun e => (e.entityId, e)).map Prod.fst := by
      rw [List.map_map]
      exact List.mem_map_of_mem he
    obtain ⟨v, _, hv⟩ := OrderedDict.exists_get?_update_of_mem .empty hmem
    exact ⟨v, hv⟩

theorem visitQueue_eq_walk (hs : s.Agrees) (hclosed : MultiDiGraph.Closed s.graph)
    (seeds : List String) {hops limit : ℤ} (hhops : 0 ≤ hops) (hlimit : 1 ≤ limit) :
    visitQueue s.graph hops limit (seeds.map (·, 0)) [] =
      (s.walk seeds hops).take limit.toNat := by
  obtain ⟨h, rfl⟩ := Int.eq_ofNat_of_zero_le hhops
  obtain ⟨l, rfl⟩ := Int.eq_ofNat_of_zero_le (zero_le_one.trans hlimit)
  exact visitQueue_eq_take (hasNode_of_mem_adjacent hs hclosed) h (by omega) seeds

theorem entityIds_neighbors (seeds : List String) (hops limit : ℤ) :
    (s.neighbors seeds hops limit).entityIds =
      (firstSeen (seeds ++ visitQueue s.graph hops limit (seeds.map (·, 0)) [])).filter
        fun n => (s.idToEntity.get? n).isSome :=
  map_filterMap_of_named (fun _ _ he => (idToEntity_eq_some he).2) _

theorem mem_entityIds_neighbors {seeds : List String} {hops limit : ℤ} {n : String} :
    n ∈ (s.neighbors seeds hops limit).entityIds ↔ s.IsEntityId n ∧
      (n ∈ seeds ∨ n ∈ visitQueue s.graph hops limit (seeds.map (·, 0)) []) := by
  rw [entityIds_neighbors, List.mem_filter, isSome_idToEntity, mem_firstSeen, List.mem_append,
    and_comm]

/-- A stored relation between two names is one between two stored entities. -/
theorem mem_relations_neighbors (hs : s.Agrees) (hclosed : MultiDiGraph.Closed s.graph)
    {seeds : List String} {hops limit : ℤ} {r : Relation} :
    r ∈ (s.neighbors seeds hops limit).relations ↔
      r ∈ s.relations.values ∧ r.headId ∈ (s.neighbors seeds hops limit).entityIds ∧
        r.tailId ∈ (s.neighbors seeds hops limit).entityIds := by
  have hrel : r ∈ (s.neighbors seeds hops limit).relations ↔ r ∈ s.relations.values ∧
      (r.headId ∈ seeds ∨ r.headId ∈ visitQueue s.graph hops limit (seeds.map (·, 0)) []) ∧
      (r.tailId ∈ seeds ∨ r.tailId ∈ visitQueue s.graph hops limit (seeds.map (·, 0)) []) := by
    rw [neighbors, List.mem_filter, decide_eq_true_iff, mem_firstSeen, mem_firstSeen,
      List.mem_append, List.mem_append]
  rw [hrel, mem_entityIds_neighbors, mem_entityIds_neighbors]
  refine and_congr_right fun hr => ?_
  have hhead : s.IsEntityId r.headId := (hs.nodes _).mp
    (hasNode_of_touches hs hclosed ⟨r, hr, Or.inr ⟨rfl, rfl⟩⟩)
  have htail : s.IsEntityId r.tailId := (hs.nodes _).mp
    (hasNode_of_touches hs hclosed ⟨r, hr, Or.inl ⟨rfl, rfl⟩⟩)
  rw [and_iff_right hhead, and_iff_right htail]

/-! ## When the nearest are found -/

section Counting

variable {seeds : List String} {hops limit : ℤ}

theorem ncard_others {xs : List String} (hn : xs.Nodup) (seeds : List String) :
    {n | n ∈ xs ∧ n ∉ seeds}.ncard = (xs.filter (· ∉ seeds)).length := by
  have heq : {n | n ∈ xs ∧ n ∉ seeds} = ↑(xs.filter (· ∉ seeds)).toFinset := by
    ext n
    simp
  rw [heq, Set.ncard_coe_finset, List.toFinset_card_of_nodup (hn.filter _)]

theorem found_neighbors (hs : s.Agrees) (hclosed : MultiDiGraph.Closed s.graph) (hhops : 0 ≤ hops)
    (hlimit : 1 ≤ limit) : (s.neighbors seeds hops limit).found seeds =
      {n | n ∈ (s.walk seeds hops).take limit.toNat ∧ n ∉ seeds} := by
  ext n
  change n ∈ (s.neighbors seeds hops limit).entityIds ∧ n ∉ seeds ↔ _
  rw [mem_entityIds_neighbors, visitQueue_eq_walk hs hclosed seeds hhops hlimit]
  constructor
  · rintro ⟨⟨_, hseed | hmem⟩, hn⟩
    · exact absurd hseed hn
    · exact ⟨hmem, hn⟩
  · rintro ⟨hmem, hn⟩
    exact ⟨⟨((mem_walk hs hclosed hn).mp (List.mem_of_mem_take hmem)).1, Or.inr hmem⟩, hn⟩

theorem nearby_eq (hs : s.Agrees) (hclosed : MultiDiGraph.Closed s.graph) :
    s.nearby seeds hops = {n | n ∈ s.walk seeds hops ∧ n ∉ seeds} := by
  ext n
  constructor
  · intro hn
    exact ⟨(mem_walk hs hclosed hn.2.1).mpr hn, hn.2.1⟩
  · rintro ⟨hmem, hn⟩
    exact (mem_walk hs hclosed hn).mp hmem

theorem walk_nodup (hs : s.Agrees) (hclosed : MultiDiGraph.Closed s.graph) :
    (s.walk seeds hops).Nodup :=
  order_nodup (mem_adjacent hs hclosed) _

variable (seeds hops) in
/-- The entities within the hops: those that found a place and those behind the limit. -/
theorem ncard_nearby (hs : s.Agrees) (hclosed : MultiDiGraph.Closed s.graph) (places : ℕ) :
    (s.nearby seeds hops).ncard =
      (((s.walk seeds hops).take places).filter (· ∉ seeds)).length +
        (((s.walk seeds hops).drop places).filter (· ∉ seeds)).length := by
  rw [nearby_eq hs hclosed, ncard_others (walk_nodup hs hclosed), ← List.length_append,
    ← List.filter_append, List.take_append_drop]

variable (seeds) in
theorem ncard_found (hs : s.Agrees) (hclosed : MultiDiGraph.Closed s.graph) (hhops : 0 ≤ hops)
    (hlimit : 1 ≤ limit) : ((s.neighbors seeds hops limit).found seeds).ncard =
      (((s.walk seeds hops).take limit.toNat).filter (· ∉ seeds)).length := by
  rw [found_neighbors hs hclosed hhops hlimit,
    ncard_others ((walk_nodup hs hclosed).sublist (List.take_sublist _ _))]

theorem found_subset (hs : s.Agrees) (hclosed : MultiDiGraph.Closed s.graph) (hhops : 0 ≤ hops)
    (hlimit : 1 ≤ limit) :
    (s.neighbors seeds hops limit).found seeds ⊆ s.nearby seeds hops := by
  rw [found_neighbors hs hclosed hhops hlimit, nearby_eq hs hclosed]
  exact fun n hn => ⟨List.mem_of_mem_take hn.1, hn.2⟩

/-- What was found stands before what was not, and so it is not farther away. -/
theorem nearest_of_found (hs : s.Agrees) (hclosed : MultiDiGraph.Closed s.graph) (hhops : 0 ≤ hops)
    (hlimit : 1 ≤ limit) {n m : String} (hn : n ∈ (s.neighbors seeds hops limit).found seeds)
    (hm : m ∈ s.nearby seeds hops) (hout : m ∉ (s.neighbors seeds hops limit).found seeds) {d : ℕ}
    (hwithin : WithinSteps s.Touches seeds d m) : WithinSteps s.Touches seeds d n := by
  rw [found_neighbors hs hclosed hhops hlimit] at hn hout
  rw [nearby_eq hs hclosed] at hm
  have hdrop : m ∈ (s.walk seeds hops).drop limit.toNat := by
    have hmem := hm.1
    rw [← List.take_append_drop limit.toNat (s.walk seeds hops), List.mem_append] at hmem
    exact hmem.resolve_left fun h => hout ⟨h, hm.2⟩
  have hsorted := order_nearer_first seeds (mem_adjacent hs hclosed) hops.toNat
  rw [← List.take_append_drop limit.toNat (order _ _ _)] at hsorted
  exact (List.pairwise_append.mp hsorted).2.2 n hn.1 m hdrop hm.2 d hwithin

omit [UndirectedView G Entity Relation] [MultiDiGraph G Entity Relation] in
theorem all_seeds_iff {ns : List String} :
    (∀ n ∈ ns, n ∈ seeds) ↔ (ns.filter (· ∉ seeds)).length = 0 := by
  simp [List.filter_eq_nil_iff]

theorem found_eq_nearby_iff (hs : s.Agrees) (hclosed : MultiDiGraph.Closed s.graph)
    (hhops : 0 ≤ hops) (hlimit : 1 ≤ limit) :
    (s.neighbors seeds hops limit).found seeds = s.nearby seeds hops ↔
      ∀ n ∈ (s.walk seeds hops).drop limit.toNat, n ∈ seeds := by
  have hnearby := ncard_nearby seeds hops hs hclosed limit.toNat
  have hfound := ncard_found seeds hs hclosed hhops hlimit
  have hfinite : (s.nearby seeds hops).Finite := by
    rw [nearby_eq hs hclosed]
    exact (s.walk seeds hops).finite_toSet.subset fun n hn => hn.1
  rw [all_seeds_iff]
  constructor
  · intro heq
    rw [heq] at hfound
    omega
  · intro hzero
    exact Set.eq_of_subset_of_ncard_le (found_subset hs hclosed hhops hlimit) (by omega) hfinite

end Counting

section Exact

variable {hops limit : ℤ} (hs : s.Agrees) (hclosed : MultiDiGraph.Closed s.graph)
  (seeds : List String) (hhops : 0 ≤ hops) (hlimit : 1 ≤ limit)

include hs hclosed hhops hlimit

theorem seedsTakeNoPlace_of_nearest
    (h : s.NearestSubGraph seeds hops limit (s.neighbors seeds hops limit)) :
    s.SeedsTakeNoPlace seeds hops limit := by
  by_cases hroom : ((s.nearby seeds hops).ncard : ℤ) ≤ limit
  · exact Or.inr ((found_eq_nearby_iff hs hclosed hhops hlimit).mp (h.all hroom))
  · -- as many entities were found as there are places
    refine Or.inl fun n hn => ?_
    have hcard := (h.limited (not_le.mp hroom)).2.1
    have hfound := ncard_found seeds hs hclosed hhops hlimit
    have hplaces := List.length_take_le limit.toNat (s.walk seeds hops)
    have htaken := List.length_filter_le (fun n => decide (n ∉ seeds))
      ((s.walk seeds hops).take limit.toNat)
    have hlen : (((s.walk seeds hops).take limit.toNat).filter (· ∉ seeds)).length =
        ((s.walk seeds hops).take limit.toNat).length := by
      omega
    simpa using List.length_filter_eq_length_iff.mp hlen n hn

theorem nearest_of_seedsTakeNoPlace (h : s.SeedsTakeNoPlace seeds hops limit) :
    s.NearestSubGraph seeds hops limit (s.neighbors seeds hops limit) := by
  have hnearby := ncard_nearby seeds hops hs hclosed limit.toNat
  have hfound := ncard_found seeds hs hclosed hhops hlimit
  have htake : ((s.walk seeds hops).take limit.toNat).length =
      min limit.toNat (s.walk seeds hops).length := List.length_take
  have hdrop : ((s.walk seeds hops).drop limit.toNat).length =
      (s.walk seeds hops).length - limit.toNat := List.length_drop
  have hbehind := List.length_filter_le (fun n => decide (n ∉ seeds))
    ((s.walk seeds hops).drop limit.toNat)
  have htaken := List.length_filter_le (fun n => decide (n ∉ seeds))
    ((s.walk seeds hops).take limit.toNat)
  have hcount : (((s.walk seeds hops).drop limit.toNat).filter (· ∉ seeds)).length = 0 ∨
      (((s.walk seeds hops).take limit.toNat).filter (· ∉ seeds)).length =
        ((s.walk seeds hops).take limit.toNat).length := by
    refine h.symm.imp all_seeds_iff.mp fun hothers => ?_
    rw [List.filter_eq_self.mpr fun n hn => decide_eq_true (hothers n hn)]
  refine ⟨fun e he => ?_, ?_, fun r => mem_relations_neighbors hs hclosed, fun n hn => ?_, ?_, ?_⟩
  · obtain ⟨n, _, hget⟩ := List.mem_filterMap.mp he
    exact (idToEntity_eq_some hget).1
  · rw [entityIds_neighbors]
    exact (firstSeen_nodup _).filter _
  · rw [mem_entityIds_neighbors, and_iff_left (Or.inl hn)]
  · intro hroom
    refine (found_eq_nearby_iff hs hclosed hhops hlimit).mpr (all_seeds_iff.mpr ?_)
    rcases hcount with hcount | hcount
    · exact hcount
    · omega
  · intro hlimited
    refine ⟨found_subset hs hclosed hhops hlimit, ?_, fun n hn m hm hout d => ?_⟩
    · rcases hcount with hcount | hcount
      · omega
      · omega
    · exact nearest_of_found hs hclosed hhops hlimit hn hm hout

/-- From a store whose graph agrees with its dictionaries, the subgraph is the one that the
caller expects exactly when no seed that the walk comes back to takes a place before an entity
that finds none. -/
theorem nearestSubGraph_iff :
    s.NearestSubGraph seeds hops limit (s.neighbors seeds hops limit) ↔
      s.SeedsTakeNoPlace seeds hops limit :=
  ⟨seedsTakeNoPlace_of_nearest hs hclosed seeds hhops hlimit,
    nearest_of_seedsTakeNoPlace hs hclosed seeds hhops hlimit⟩

end Exact

def chainEntity (entityId : String) : Entity where
  entityId := entityId
  kbId := "kb"
  name := entityId
  nameNorm := entityId
  type := "ORG"
  description := ""
  sourceDocIds := ["doc_1"]
  confidence := 1

def chainRelation (headId tailId : String) : Relation where
  relationId := headId ++ tailId
  kbId := "kb"
  headId := headId
  tailId := tailId
  type := "uses"
  description := ""

/-- Three entities in a row. -/
def chain : PlainGraphStore :=
  (upsertRelations [chainRelation "a" "b", chainRelation "b" "c"]
    (upsertEntities [chainEntity "a", chainEntity "b", chainEntity "c"] (fresh "kb")).1).1

theorem chain_agrees : chain.Agrees := by
  have hentities : ((upsertEntities [chainEntity "a", chainEntity "b", chainEntity "c"]
      (fresh "kb" : PlainGraphStore)).1).Linked := (linked_fresh "kb").upsertEntities rfl
  have hids (n : String) (hn : n ∈ ["a", "b", "c"]) :
      (upsertEntities [chainEntity "a", chainEntity "b", chainEntity "c"]
        (fresh "kb" : PlainGraphStore)).1.IsEntityId n := by
    have hmem : n ∈ [chainEntity "a", chainEntity "b", chainEntity "c"].map (·.entityId) := hn
    exact List.mem_map.mp hmem
  refine (hentities.upsertRelations rfl ⟨fun r hr => ?_, by decide⟩).agrees
  have hends : r.headId ∈ ["a", "b", "c"] ∧ r.tailId ∈ ["a", "b", "c"] := by
    revert r
    decide
  exact ⟨hids _ hends.1, hids _ hends.2⟩

theorem chain_closed : MultiDiGraph.Closed chain.graph :=
  closed_run (closed_run (closed_fresh "kb") (.upsertEntities _)) (.upsertRelations _)

theorem nearestSubGraph_oneSeed :
    chain.NearestSubGraph ["a"] 2 1 (chain.neighbors ["a"] 2 1) :=
  (nearestSubGraph_iff chain_agrees chain_closed ["a"] (by decide) (by decide)).mpr (by decide)

/-- The walk from two seeds that are neighbours comes back to one of them first, and the only
place is taken. -/
theorem not_nearestSubGraph_twoSeeds :
    (chain.neighbors ["a", "b"] 1 1).entityIds = ["a", "b"] ∧ "c" ∈ chain.nearby ["a", "b"] 1 ∧
      chain.Agrees ∧ MultiDiGraph.Closed chain.graph ∧
      ¬ chain.NearestSubGraph ["a", "b"] 1 1 (chain.neighbors ["a", "b"] 1 1) := by
  refine ⟨?_, ?_, chain_agrees, chain_closed, fun h => ?_⟩
  · rw [entityIds_neighbors, visitQueue_eq_walk chain_agrees chain_closed _ (by decide) (by decide)]
    decide
  · exact (mem_walk chain_agrees chain_closed (by decide)).mp (by decide)
  · exact absurd (seedsTakeNoPlace_of_nearest chain_agrees chain_closed _ (by decide) (by decide) h)
      (by decide)

end NetworkXGraphStore

end Ragx
