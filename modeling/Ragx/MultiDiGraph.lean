import Ragx.OrderedDict

/-!
# Directed multigraphs

What the documentation of a directed multigraph library promises of nodes and of edges with
keys: an edge brings its missing endpoints along, an edge with the key of another one
between the same nodes replaces its data, and a node takes its edges with it. Data of type
`α` stands at a node and of type `β` at an edge; a node that only an edge introduced has no
data. `EdgeTable` is the plain implementation by two dictionaries.
-/
namespace Ragx

class MultiDiGraph (G : Type) (α β : outParam Type) where
  empty : G
  node? : G → String → Option (Option α)
  edge? : G → String → String → String → Option β
  addNode : G → String → α → G
  addEdge : G → String → String → String → β → G
  removeNode : G → String → G
  node?_empty : ∀ n, node? empty n = none
  edge?_empty : ∀ u v k, edge? empty u v k = none
  node?_addNode : ∀ g n a m, node? (addNode g n a) m = if n = m then some (some a) else node? g m
  edge?_addNode : ∀ g n a u v k, edge? (addNode g n a) u v k = edge? g u v k
  node?_addEdge : ∀ g u v k b m,
    node? (addEdge g u v k b) m = if u = m ∨ v = m then some (node? g m).join else node? g m
  edge?_addEdge : ∀ g u v k b u' v' k',
    edge? (addEdge g u v k b) u' v' k' =
      if (u, v, k) = (u', v', k') then some b else edge? g u' v' k'
  node?_removeNode : ∀ g n m, (node? g n).isSome = true →
    node? (removeNode g n) m = if n = m then none else node? g m
  edge?_removeNode : ∀ g n u v k, (node? g n).isSome = true →
    edge? (removeNode g n) u v k = if n = u ∨ n = v then none else edge? g u v k

namespace MultiDiGraph

variable {G α β : Type} [MultiDiGraph G α β]

def HasNode (g : G) (n : String) : Prop := (node? g n).isSome = true

instance (g : G) (n : String) : Decidable (HasNode g n) :=
  inferInstanceAs (Decidable (_ = true))

@[simp]
theorem not_hasNode_empty (n : String) : ¬ HasNode (empty : G) n := by
  rw [HasNode, node?_empty]
  exact Bool.false_ne_true

theorem hasNode_addNode {g : G} {n m : String} {a : α} :
    HasNode (addNode g n a) m ↔ m = n ∨ HasNode g m := by
  rw [HasNode, node?_addNode]
  by_cases h : n = m
  · simp [h]
  · simp [h, Ne.symm h, HasNode]

theorem hasNode_addEdge {g : G} {u v k m : String} {b : β} :
    HasNode (addEdge g u v k b) m ↔ m = u ∨ m = v ∨ HasNode g m := by
  rw [HasNode, node?_addEdge]
  by_cases h : u = m ∨ v = m
  · have h' : m = u ∨ m = v := h.imp Eq.symm Eq.symm
    simp [h, ← or_assoc, h']
  · obtain ⟨hu, hv⟩ := not_or.mp h
    simp [hu, hv, Ne.symm hu, Ne.symm hv, HasNode]

/-- `if graph.has_node(node): graph.remove_node(node)`. -/
def discardNode (g : G) (n : String) : G := if HasNode g n then removeNode g n else g

theorem hasNode_discardNode {g : G} {n m : String} :
    HasNode (discardNode g n) m ↔ m ≠ n ∧ HasNode g m := by
  unfold discardNode
  split_ifs with hn
  · rw [HasNode, node?_removeNode g n m hn]
    by_cases h : n = m
    · simp [h]
    · simp [h, Ne.symm h, HasNode]
  · constructor
    · intro hm
      exact ⟨fun he => hn (he ▸ hm), hm⟩
    · exact And.right

theorem edge?_discardNode {g : G} {n u v k : String} (hn : HasNode g n) :
    edge? (discardNode g n) u v k = if n = u ∨ n = v then none else edge? g u v k := by
  rw [discardNode, if_pos hn, edge?_removeNode g n u v k hn]

theorem hasNode_foldl_discardNode {g : G} {ns : List String} {m : String} :
    HasNode (ns.foldl discardNode g) m ↔ m ∉ ns ∧ HasNode g m := by
  induction ns generalizing g with
  | nil => simp
  | cons n ns ih =>
    rw [List.foldl_cons, ih, hasNode_discardNode, List.mem_cons, not_or, ← and_assoc,
      and_comm (a := m ∉ ns)]

/-- Removing nodes that are all there takes exactly the edges that touch one of them. -/
theorem edge?_foldl_discardNode {g : G} {ns : List String} (hn : ns.Nodup)
    (hall : ∀ n ∈ ns, HasNode g n) (u v k : String) :
    edge? (ns.foldl discardNode g) u v k = if u ∈ ns ∨ v ∈ ns then none else edge? g u v k := by
  induction ns generalizing g with
  | nil => simp
  | cons n ns ih =>
    obtain ⟨hnot, hrest⟩ := List.nodup_cons.mp hn
    have hkeep (m : String) (hm : m ∈ ns) : HasNode (discardNode g n) m :=
      hasNode_discardNode.mpr ⟨fun he => hnot (he ▸ hm), hall m (List.mem_cons_of_mem n hm)⟩
    rw [List.foldl_cons, ih hrest hkeep, edge?_discardNode (hall n List.mem_cons_self)]
    by_cases hu : u = n
    · simp [hu]
    · by_cases hv : v = n
      · simp [hv]
      · simp [hu, hv, Ne.symm hu, Ne.symm hv]

/-! ## Edges between nodes -/

/-- Both ends of every edge are nodes. -/
def Closed (g : G) : Prop :=
  ∀ u v k, (edge? g u v k).isSome = true → HasNode g u ∧ HasNode g v

theorem closed_empty : Closed (empty : G) := by
  intro u v k h
  rw [edge?_empty] at h
  cases h

theorem Closed.addNode {g : G} (h : Closed g) (n : String) (a : α) : Closed (addNode g n a) := by
  intro u v k hedge
  rw [edge?_addNode] at hedge
  obtain ⟨hu, hv⟩ := h u v k hedge
  exact ⟨hasNode_addNode.mpr (Or.inr hu), hasNode_addNode.mpr (Or.inr hv)⟩

theorem Closed.addEdge {g : G} (h : Closed g) (u v k : String) (b : β) :
    Closed (addEdge g u v k b) := by
  intro u' v' k' hedge
  rw [edge?_addEdge] at hedge
  rw [hasNode_addEdge, hasNode_addEdge]
  split_ifs at hedge with hnew
  · cases hnew
    exact ⟨Or.inl rfl, Or.inr (Or.inl rfl)⟩
  · obtain ⟨hu, hv⟩ := h u' v' k' hedge
    exact ⟨Or.inr (Or.inr hu), Or.inr (Or.inr hv)⟩

theorem Closed.discardNode {g : G} (h : Closed g) (n : String) : Closed (discardNode g n) := by
  by_cases hn : HasNode g n
  · intro u v k hedge
    rw [edge?_discardNode hn] at hedge
    split_ifs at hedge with hends
    · cases hedge
    · obtain ⟨hu, hv⟩ := h u v k hedge
      obtain ⟨hnu, hnv⟩ := not_or.mp hends
      exact ⟨hasNode_discardNode.mpr ⟨Ne.symm hnu, hu⟩, hasNode_discardNode.mpr ⟨Ne.symm hnv, hv⟩⟩
  · rwa [MultiDiGraph.discardNode, if_neg hn]

theorem Closed.foldl_discardNode {g : G} (h : Closed g) (ns : List String) :
    Closed (ns.foldl MultiDiGraph.discardNode g) := by
  induction ns generalizing g with
  | nil => exact h
  | cons n ns ih => exact ih (h.discardNode n)

/-! ## Adding a batch of edges -/

section Edges

variable {γ : Type} (ends : γ → String × String × String) (data : γ → β)

def addEdges (g : G) (xs : List γ) : G :=
  xs.foldl (fun g x => addEdge g (ends x).1 (ends x).2.1 (ends x).2.2 (data x)) g

theorem addEdges_concat (g : G) (xs : List γ) (x : γ) :
    addEdges ends data g (xs ++ [x]) =
      addEdge (addEdges ends data g xs) (ends x).1 (ends x).2.1 (ends x).2.2 (data x) := by
  rw [addEdges, List.foldl_append]
  rfl

theorem hasNode_addEdges {g : G} {xs : List γ} {m : String} :
    HasNode (addEdges ends data g xs) m ↔
      HasNode g m ∨ ∃ x ∈ xs, m = (ends x).1 ∨ m = (ends x).2.1 := by
  induction xs generalizing g with
  | nil => simp [addEdges]
  | cons x xs ih =>
    refine (ih (g := addEdge g _ _ _ _)).trans ?_
    rw [hasNode_addEdge]
    constructor
    · rintro ((h | h | h) | ⟨y, hy, h⟩)
      · exact Or.inr ⟨x, List.mem_cons_self, Or.inl h⟩
      · exact Or.inr ⟨x, List.mem_cons_self, Or.inr h⟩
      · exact Or.inl h
      · exact Or.inr ⟨y, List.mem_cons_of_mem x hy, h⟩
    · rintro (h | ⟨y, hy, h⟩)
      · exact Or.inl (Or.inr (Or.inr h))
      · rcases List.mem_cons.mp hy with rfl | hy
        · exact Or.inl (h.imp_right Or.inl)
        · exact Or.inr ⟨y, hy, h⟩

/-- An edge afterwards was there before, or it is one of the batch. -/
theorem edge?_addEdges_cases {g : G} {xs : List γ} {u v k : String} {b : β}
    (h : edge? (addEdges ends data g xs) u v k = some b) :
    (edge? g u v k = some b ∧ ∀ x ∈ xs, ends x ≠ (u, v, k)) ∨
      ∃ x ∈ xs, ends x = (u, v, k) ∧ data x = b := by
  induction xs generalizing g with
  | nil => exact Or.inl ⟨h, fun _ hx => absurd hx List.not_mem_nil⟩
  | cons x xs ih =>
    rcases ih h with ⟨hbefore, hnone⟩ | ⟨y, hy, hends, hdata⟩
    · rw [edge?_addEdge] at hbefore
      split_ifs at hbefore with hx
      · exact Or.inr ⟨x, List.mem_cons_self, hx, Option.some.inj hbefore⟩
      · refine Or.inl ⟨hbefore, fun y hy => ?_⟩
        rcases List.mem_cons.mp hy with rfl | hy
        · exact hx
        · exact hnone y hy
    · exact Or.inr ⟨y, List.mem_cons_of_mem x hy, hends, hdata⟩

theorem isSome_edge?_addEdges {g : G} {xs : List γ} {u v k : String}
    (h : (edge? g u v k).isSome = true ∨ ∃ x ∈ xs, ends x = (u, v, k)) :
    (edge? (addEdges ends data g xs) u v k).isSome = true := by
  induction xs generalizing g with
  | nil =>
    rcases h with h | ⟨x, hx, _⟩
    · exact h
    · exact absurd hx List.not_mem_nil
  | cons x xs ih =>
    refine ih (g := addEdge g _ _ _ _) ?_
    rw [edge?_addEdge]
    by_cases hx : ends x = (u, v, k)
    · exact Or.inl (by rw [hx, if_pos rfl]; rfl)
    · rw [if_neg hx]
      refine h.imp_right ?_
      rintro ⟨y, hy, hends⟩
      rcases List.mem_cons.mp hy with rfl | hy
      · exact absurd hends hx
      · exact ⟨y, hy, hends⟩

end Edges

end MultiDiGraph

/-! ## The plain implementation -/

structure EdgeTable (α β : Type) where
  nodes : OrderedDict String (Option α)
  edges : OrderedDict (String × String × String) β

namespace EdgeTable

variable {α β : Type}

def touch (nodes : OrderedDict String (Option α)) (n : String) : OrderedDict String (Option α) :=
  nodes.insert n (nodes.get? n).join

theorem get?_touch (nodes : OrderedDict String (Option α)) (n m : String) :
    (touch nodes n).get? m = if n = m then some (nodes.get? m).join else nodes.get? m := by
  rw [touch, OrderedDict.get?_insert]
  split_ifs with h
  · rw [h]
  · rfl

instance : MultiDiGraph (EdgeTable α β) α β where
  empty := ⟨.empty, .empty⟩
  node? g n := g.nodes.get? n
  edge? g u v k := g.edges.get? (u, v, k)
  addNode g n a := { g with nodes := g.nodes.insert n (some a) }
  addEdge g u v k b := ⟨touch (touch g.nodes u) v, g.edges.insert (u, v, k) b⟩
  removeNode g n := ⟨g.nodes.erase n, g.edges.filterKeys fun e => e.1 ≠ n ∧ e.2.1 ≠ n⟩
  node?_empty _ := rfl
  edge?_empty _ _ _ := rfl
  node?_addNode g n a m := OrderedDict.get?_insert g.nodes n m (some a)
  edge?_addNode _ _ _ _ _ _ := rfl
  node?_addEdge g u v k b m := by
    rw [get?_touch, get?_touch]
    by_cases hu : u = m
    · by_cases hv : v = m
      · simp [hu, hv]
      · simp [hu, hv]
    · by_cases hv : v = m
      · simp [hu, hv]
      · simp [hu, hv]
  edge?_addEdge g u v k b u' v' k' := OrderedDict.get?_insert g.edges (u, v, k) (u', v', k') b
  node?_removeNode g n m _ := by
    refine (OrderedDict.get?_filterKeys _ g.nodes m).trans ?_
    by_cases h : n = m
    · simp [h]
    · simp [h, Ne.symm h]
  edge?_removeNode g n u v k _ := by
    refine (OrderedDict.get?_filterKeys _ g.edges (u, v, k)).trans ?_
    by_cases hu : n = u
    · simp [hu]
    · by_cases hv : n = v
      · simp [hv]
      · simp [hu, hv, Ne.symm hu, Ne.symm hv]

open MultiDiGraph in
/-- Without nodes there are no edges. -/
theorem eq_empty_of_closed {g : EdgeTable α β} (h : Closed g) (hnodes : g.nodes.entries = []) :
    g = MultiDiGraph.empty := by
  have hnone (n : String) : ¬ HasNode g n := by
    intro hn
    obtain ⟨a, ha⟩ := Option.isSome_iff_exists.mp hn
    have hmem : (n, a) ∈ g.nodes.entries := OrderedDict.mem_entries.mpr ha
    simp [hnodes] at hmem
  have hedges : g.edges.entries = [] := by
    refine List.eq_nil_iff_forall_not_mem.mpr fun e he => ?_
    have hget : edge? g e.1.1 e.1.2.1 e.1.2.2 = some e.2 := OrderedDict.mem_entries.mp he
    exact hnone _ (h _ _ _ (Option.isSome_iff_exists.mpr ⟨_, hget⟩)).1
  obtain ⟨⟨nodes, hn⟩, ⟨edges, he⟩⟩ := g
  cases hnodes
  cases hedges
  rfl

end EdgeTable

end Ragx
