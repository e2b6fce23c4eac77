import Mathlib.Data.Set.Card
import Ragx.BreadthFirst
import Ragx.GraphAgreement
import Ragx.GraphFiles

/-!
# Neighbours in the in-memory graph

`neighbors` walks the graph breadth first from the seeds, whichever way the edges point, and
stops when it has marked `limit` nodes. A seed that is met again is marked like any other node.
-/
namespace Ragx

/-- The view of a multigraph without directions: who shares an edge with a node, in no
particular order. -/
class UndirectedView (G : Type) (α β : outParam Type) [MultiDiGraph G α β] where
  neighbors : G → String → List String
  mem_neighbors : ∀ g n m, MultiDiGraph.HasNode g n → (m ∈ neighbors g n ↔
    ∃ k, (MultiDiGraph.edge? g n m k).isSome = true ∨ (MultiDiGraph.edge? g m n k).isSome = true)

namespace EdgeTable

variable {α β : Type}

def otherEnd (n : String) (e : String × String × String) : List String :=
  (if e.1 = n then [e.2.1] else []) ++ if e.2.1 = n then [e.1] else []

theorem mem_otherEnd {n m : String} {e : String × String × String} :
    m ∈ otherEnd n e ↔ (e.1 = n ∧ e.2.1 = m) ∨ (e.1 = m ∧ e.2.1 = n) := by
  unfold otherEnd
  split_ifs with h h' <;> simp_all [eq_comm]

instance : UndirectedView (EdgeTable α β) α β where
  neighbors g n := firstSeen (g.edges.keys.flatMap (otherEnd n))
  mem_neighbors g n m _ := by
    have hkey (e : String × String × String) :
        e ∈ g.edges.keys ↔ (MultiDiGraph.edge? g e.1 e.2.1 e.2.2).isSome = true := by
      rw [Option.isSome_iff_exists]
      constructor
      · intro he
        obtain ⟨⟨_, b⟩, hentry, rfl⟩ := List.mem_map.mp he
        exact ⟨b, OrderedDict.mem_entries.mp hentry⟩
      · rintro ⟨b, hb⟩
        exact List.mem_map.mpr ⟨(e, b), OrderedDict.mem_entries.mpr hb, rfl⟩
    rw [mem_firstSeen, List.mem_flatMap]
    constructor
    · rintro ⟨⟨u, v, k⟩, he, hm⟩
      rcases mem_otherEnd.mp hm with ⟨rfl, rfl⟩ | ⟨rfl, rfl⟩
      · exact ⟨k, Or.inl ((hkey _).mp he)⟩
      · exact ⟨k, Or.inr ((hkey _).mp he)⟩
    · rintro ⟨k, hedge | hedge⟩
      · exact ⟨(n, m, k), (hkey _).mpr hedge, mem_otherEnd.mpr (Or.inl ⟨rfl, rfl⟩)⟩
      · exact ⟨(m, n, k), (hkey _).mpr hedge, mem_otherEnd.mpr (Or.inr ⟨rfl, rfl⟩)⟩

end EdgeTable

def SubGraph.entityIds (sub : SubGraph) : List String := sub.entities.map (·.entityId)

namespace NetworkXGraphStore

open MultiDiGraph UndirectedView BreadthFirst

variable {G : Type} [MultiDiGraph G Entity Relation] [UndirectedView G Entity Relation]

/-- What a queue may still grow to; nothing is put behind a node of the last depth. -/
def queueSize (g : G) (hops : ℤ) (queue : List (String × ℕ)) : ℕ :=
  (queue.map fun e => treeSize (UndirectedView.neighbors g) (hops.toNat - e.2) e.1).sum

theorem queueSize_tail_lt (g : G) (hops : ℤ) (e : String × ℕ) (queue : List (String × ℕ)) :
    queueSize g hops queue < queueSize g hops (e :: queue) :=
  Nat.lt_add_of_pos_left (treeSize_pos _ _ _)

/-- Below the last depth the neighbours that are not marked yet join the queue. -/
def enqueue (g : G) (hops : ℤ) (node : String) (depth : ℕ) (visited : List String)
    (queue : List (String × ℕ)) : List (String × ℕ) :=
  if (depth : ℤ) < hops then
    queue ++ ((UndirectedView.neighbors g node).filter (· ∉ visited)).map (·, depth + 1)
  else queue

theorem queueSize_enqueue_lt (g : G) (hops : ℤ) (node : String) (depth : ℕ)
    (visited : List String) (queue : List (String × ℕ)) :
    queueSize g hops (enqueue g hops node depth visited queue) <
      queueSize g hops ((node, depth) :: queue) := by
  unfold enqueue
  split_ifs with h
  · obtain ⟨k, hk⟩ : ∃ k, hops.toNat - depth = k + 1 := ⟨hops.toNat - depth - 1, by omega⟩
    have hk' : hops.toNat - (depth + 1) = k := by omega
    rw [queueSize, queueSize, List.map_append, List.sum_append, List.map_cons, List.sum_cons,
      List.map_map, Nat.add_comm, Nat.add_lt_add_iff_right]
    simp only [Function.comp_def, hk, hk']
    exact sum_treeSize_lt _ k node List.filter_sublist
  · exact queueSize_tail_lt g hops _ queue

/-- The queue loop of `neighbors`. Of `visited` it only matters which nodes are there. -/
def visitQueue (g : G) (hops limit : ℤ) : List (String × ℕ) → List String → List String
  | [], visited => visited
  | (node, depth) :: queue, visited =>
    if 0 < depth ∧ node ∈ visited then visitQueue g hops limit queue visited
    else
      let visited := if 0 < depth then visited ++ [node] else visited
      if ¬ HasNode g node then visitQueue g hops limit queue visited
      else if limit ≤ visited.length then visited
      else visitQueue g hops limit (enqueue g hops node depth visited queue) visited
termination_by queue => queueSize g hops queue
decreasing_by
  · exact queueSize_tail_lt g hops _ _
  · exact queueSize_tail_lt g hops _ _
  · exact queueSize_enqueue_lt g hops _ _ _ _

/-- `id_to_entity`: of two entities with one id the one that was stored later. -/
def idToEntity (s : NetworkXGraphStore G) : OrderedDict String Entity :=
  .ofList (s.entities.values.map fun e => (e.entityId, e))

def neighbors (s : NetworkXGraphStore G) (entityIds : List String) (hops limit : ℤ) : SubGraph :=
  let visited := visitQueue s.graph hops limit (entityIds.map (·, 0)) []
  let ids := firstSeen (entityIds ++ visited)
  { entities := ids.filterMap s.idToEntity.get?
    relations := s.relations.values.filter fun r => r.headId ∈ ids ∧ r.tailId ∈ ids }

/-! ## The loop by levels -/

/-- The neighbours of a node; another name has none. -/
def adjacent (g : G) (n : String) : List String :=
  if HasNode g n then UndirectedView.neighbors g n else []

theorem visitQueue_skip (g : G) (hops limit : ℤ) {node : String} {depth : ℕ} (hdepth : 0 < depth)
    {visited : List String} (hnode : node ∈ visited) (queue : List (String × ℕ)) :
    visitQueue g hops limit ((node, depth) :: queue) visited =
      visitQueue g hops limit queue visited := by
  rw [visitQueue, if_pos ⟨hdepth, hnode⟩]

/-- A node that is met for the first time is marked, and its neighbours join the queue. -/
theorem visitQueue_visit {g : G} {hops limit : ℕ} {node : String} {depth : ℕ} (hdepth : 0 < depth)
    (hnode : HasNode g node) {visited : List String} (hnew : node ∉ visited)
    (queue : List (String × ℕ)) :
    visitQueue g hops limit ((node, depth) :: queue) visited =
      if limit ≤ visited.length + 1 then visited ++ [node]
      else visitQueue g hops limit
        (enqueue g hops node depth (visited ++ [node]) queue) (visited ++ [node]) := by
  rw [visitQueue, if_neg fun h => hnew h.2]
  simp only [if_pos hdepth, if_neg (not_not.mpr hnode), List.length_append, List.length_singleton,
    Nat.cast_le]

theorem enqueue_eq {g : G} {node : String} (hnode : HasNode g node) (hops depth : ℕ)
    (visited : List String) (queue : List (String × ℕ)) :
    enqueue g hops node depth visited queue = queue ++
      (if depth < hops then (adjacent g node).filter (· ∉ visited) else []).map (·, depth + 1) := by
  simp only [enqueue, adjacent, if_pos hnode, Nat.cast_lt]
  split_ifs with h
  · rfl
  · rw [List.map_nil, List.append_nil]

theorem visitQueue_seed {g : G} {hops limit : ℕ} (hlimit : 0 < limit) (node : String)
    (queue : List (String × ℕ)) :
    visitQueue g hops limit ((node, 0) :: queue) [] =
      visitQueue g hops limit
        (queue ++ (if 0 < hops then adjacent g node else []).map (·, 1)) [] := by
  rw [visitQueue, if_neg fun h => absurd h.1 (lt_irrefl 0)]
  simp only [if_neg (lt_irrefl 0), List.length_nil]
  by_cases hnode : HasNode g node
  · rw [if_neg (not_not.mpr hnode), if_neg (by omega), enqueue_eq hnode]
    simp
  · rw [if_pos hnode, adjacent, if_neg hnode, ite_self, List.map_nil, List.append_nil]

theorem visitQueue_seeds (g : G) (hops : ℕ) {limit : ℕ} (hlimit : 0 < limit)
    (seeds next : List String) :
    visitQueue g hops limit (seeds.map (·, 0) ++ next.map (·, 1)) [] =
      visitQueue g hops limit
        ((next ++ if 0 < hops then seeds.flatMap (adjacent g) else []).map (·, 1)) [] := by
  induction seeds generalizing next with
  | nil => simp
  | cons seed seeds ih =>
    rw [List.map_cons, List.cons_append, visitQueue_seed hlimit, List.append_assoc,
      ← List.map_append, ih, List.append_assoc]
    split_ifs
    · rw [List.flatMap_cons]
    · rfl

/-- The rest of a level is visited before what stands behind it in the queue. -/
theorem visitQueue_sweep {g : G} (hclosed : ∀ n, ∀ m ∈ adjacent g n, HasNode g m)
    {hops limit k depth : ℕ} (hdepth : 0 < depth) (hk : depth + k = hops)
    (hend : ∀ next visited : List String, visited.length < limit → (∀ n ∈ next, HasNode g n) →
      (k = 0 → next = []) → visitQueue g hops limit (next.map (·, depth + 1)) visited =
        (resume (adjacent g) k visited [] next).take limit)
    {level next visited : List String} (hlen : visited.length < limit)
    (hlevel : ∀ n ∈ level, HasNode g n) (hnext : ∀ n ∈ next, HasNode g n)
    (hlast : k = 0 → next = []) :
    visitQueue g hops limit (level.map (·, depth) ++ next.map (·, depth + 1)) visited =
      (resume (adjacent g) k visited level next).take limit := by
  induction level generalizing next visited with
  | nil => exact hend next visited hlen hnext hlast
  | cons a level ih =>
    have hrest : ∀ n ∈ level, HasNode g n := fun n hn => hlevel n (List.mem_cons_of_mem a hn)
    rw [List.map_cons, List.cons_append]
    by_cases ha : a ∈ visited
    · rw [visitQueue_skip g hops limit hdepth ha, resume_skip _ k ha]
      exact ih hlen hrest hnext hlast
    have hnode := hlevel a List.mem_cons_self
    have hone : (visited ++ [a]).length = visited.length + 1 := List.length_append
    have hroom : depth < hops ↔ 0 < k := by omega
    rw [visitQueue_visit hdepth hnode ha, resume_visit _ k ha, enqueue_eq hnode, List.append_assoc,
      ← List.map_append, if_congr hroom rfl rfl]
    by_cases hfull : limit ≤ visited.length + 1
    · obtain ⟨rest, hprefix⟩ := prefix_resume (adjacent g) k (visited ++ [a]) level
        (next ++ if 0 < k then (adjacent g a).filter (· ∉ visited ++ [a]) else [])
      rw [if_pos hfull, ← hprefix, List.take_left' (by omega)]
    · rw [if_neg hfull]
      refine ih (by omega) hrest (fun n hn => ?_) fun hzero => ?_
      · rcases List.mem_append.mp hn with hn | hn
        · exact hnext n hn
        · split_ifs at hn
          · exact hclosed a n (List.mem_filter.mp hn).1
          · exact absurd hn List.not_mem_nil
      · rw [hlast hzero, if_neg (by omega), List.append_nil]

/-- Level by level the loop marks what the breadth-first order lists, up to the limit. -/
theorem visitQueue_level {g : G} (hclosed : ∀ n, ∀ m ∈ adjacent g n, HasNode g m) {hops limit : ℕ}
    {k depth : ℕ} (hdepth : 0 < depth) (hk : depth + k = hops) {level next visited : List String}
    (hlen : visited.length < limit) (hlevel : ∀ n ∈ level, HasNode g n)
    (hnext : ∀ n ∈ next, HasNode g n) (hlast : k = 0 → next = []) :
    visitQueue g hops limit (level.map (·, depth) ++ next.map (·, depth + 1)) visited =
      (resume (adjacent g) k visited level next).take limit := by
  induction k generalizing depth level next visited with
  | zero =>
    refine visitQueue_sweep hclosed hdepth hk (fun next visited hlen _ hlast => ?_) hlen hlevel
      hnext hlast
    cases hlast rfl
    rw [List.map_nil, visitQueue]
    change visited = (visited ++ []).take limit
    rw [List.append_nil, List.take_of_length_le hlen.le]
  | succ k ih =>
    refine visitQueue_sweep hclosed hdepth hk (fun next visited hlen hnext _ => ?_) hlen hlevel
      hnext hlast
    have h := @ih (depth + 1) (Nat.succ_pos depth) (by omega) next [] visited hlen hnext
      (fun _ h => absurd h List.not_mem_nil) fun _ => rfl
    rwa [List.map_nil, List.append_nil, ← resume_end] at h

/-- The marked nodes are the first ones of the breadth-first order. -/
theorem visitQueue_eq_take {g : G} (hclosed : ∀ n, ∀ m ∈ adjacent g n, HasNode g m)
    (hops : ℕ) {limit : ℕ} (hlimit : 0 < limit) (seeds : List String) :
    visitQueue g hops limit (seeds.map (·, 0)) [] =
      (order (adjacent g) seeds hops).take limit := by
  have hseeds := visitQueue_seeds g hops hlimit seeds []
  rw [List.map_nil, List.append_nil, List.nil_append] at hseeds
  rw [hseeds]
  cases hops with
  | zero =>
    rw [if_neg (lt_irrefl 0), List.map_nil, visitQueue, order, List.take_nil]
  | succ k =>
    have hnodes : ∀ m ∈ seeds.flatMap (adjacent g), HasNode g m := by
      intro m hm
      obtain ⟨n, _, hn⟩ := List.mem_flatMap.mp hm
      exact hclosed n m hn
    have h := @visitQueue_level G _ _ g hclosed (k + 1) limit k 1 Nat.one_pos (Nat.add_comm 1 k)
      (seeds.flatMap (adjacent g)) [] [] hlimit hnodes (fun _ h => absurd h List.not_mem_nil)
      fun _ => rfl
    rw [List.map_nil, List.append_nil, resume_start] at h
    rw [if_pos (Nat.succ_pos k), h, order]

end NetworkXGraphStore

end Ragx
