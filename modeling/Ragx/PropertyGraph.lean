import Ragx.KeyedTable

/-!
# Property graphs

What the documentation of a graph database promises of nodes with a unique property and of
the relationships between them. A relationship cannot be without its two nodes, and a node
that is detached takes its relationships with it. A statement that matches is carried out
for everything that it matches.
-/
namespace Ragx

/-- Nodes of type `α` with the unique property `key`, and relationships of type `β`. -/
structure PropertyGraph {κ α β : Type*} [DecidableEq κ] (key : α → κ) (start stop : β → κ) where
  nodes : KeyedTable key
  relationships : List β
  attached : ∀ r ∈ relationships, start r ∈ nodes.keys ∧ stop r ∈ nodes.keys

namespace PropertyGraph

variable {κ α β : Type*} [DecidableEq κ] {key : α → κ} {start stop : β → κ}

def empty : PropertyGraph key start stop where
  nodes := .empty
  relationships := []
  attached := fun _ h => absurd h List.not_mem_nil

/-! ## Nodes -/

/-- `CREATE (e)`, which the constraint refuses if another node has the key. -/
def createNode (a : α) (g : PropertyGraph key start stop) :
    Option (PropertyGraph key start stop) :=
  if key a ∈ g.nodes.keys then none
  else some {
    nodes := g.nodes.put a
    relationships := g.relationships
    attached := by
      have hgrow : ∀ k ∈ g.nodes.keys, k ∈ (g.nodes.put a).keys := by
        intro k hk
        rw [← KeyedTable.isSome_get?, KeyedTable.get?_put]
        split_ifs
        · rfl
        · exact KeyedTable.isSome_get?.mpr hk
      intro r hr
      obtain ⟨hstart, hstop⟩ := g.attached r hr
      exact ⟨hgrow _ hstart, hgrow _ hstop⟩ }

/-- `MATCH (e) SET …`; what does not match is left as it is. -/
def setNodes (f : α → α) (hf : ∀ a, key (f a) = key a) (g : PropertyGraph key start stop) :
    PropertyGraph key start stop where
  nodes := g.nodes.sweep fun a => some (f a)
  relationships := g.relationships
  attached := by
    have hkeep : ∀ k ∈ g.nodes.keys, k ∈ (g.nodes.sweep fun a => some (f a)).keys := by
      intro k hk
      obtain ⟨v, hv⟩ := Option.isSome_iff_exists.mp (KeyedTable.isSome_get?.mpr hk)
      exact (KeyedTable.mem_keys_sweep (by simp [hf])).mpr ⟨v, hv, rfl⟩
    intro r hr
    obtain ⟨hstart, hstop⟩ := g.attached r hr
    exact ⟨hkeep _ hstart, hkeep _ hstop⟩

/-- The node with this key matches. -/
def Matches (p : α → Bool) (g : PropertyGraph key start stop) (k : κ) : Prop :=
  ∃ a ∈ g.nodes.get? k, p a = true

instance (p : α → Bool) (g : PropertyGraph key start stop) (k : κ) : Decidable (g.Matches p k) :=
  decidable_of_iff ((g.nodes.get? k).any p = true) (by simp [Matches, Option.any_eq_true])

/-- `MATCH (e) WHERE … DETACH DELETE e`. -/
def detachDelete (p : α → Bool) (g : PropertyGraph key start stop) :
    PropertyGraph key start stop where
  nodes := g.nodes.sweep fun a => if p a then none else some a
  relationships := g.relationships.filter fun r =>
    ¬ g.Matches p (start r) ∧ ¬ g.Matches p (stop r)
  attached := by
    have hkeep : ∀ k ∈ g.nodes.keys, ¬ g.Matches p k →
        k ∈ (g.nodes.sweep fun a => if p a then none else some a).keys := by
      intro k hk hnot
      obtain ⟨v, hv⟩ := Option.isSome_iff_exists.mp (KeyedTable.isSome_get?.mpr hk)
      refine (KeyedTable.mem_keys_sweep (by simp)).mpr ⟨v, hv, ?_⟩
      have hp : ¬ p v = true := fun hp => hnot ⟨v, hv, hp⟩
      simp [hp]
    intro r hr
    obtain ⟨hmem, hends⟩ := List.mem_filter.mp hr
    obtain ⟨hstart, hstop⟩ := of_decide_eq_true hends
    exact ⟨hkeep _ (g.attached r hmem).1 hstart, hkeep _ (g.attached r hmem).2 hstop⟩

/-! ## Relationships -/

/-- `MATCH (h), (t) CREATE (h)-[r]->(t)`, which does nothing unless both nodes are there. -/
def createRelationship (r : β) (g : PropertyGraph key start stop) :
    PropertyGraph key start stop :=
  if h : start r ∈ g.nodes.keys ∧ stop r ∈ g.nodes.keys then
    { nodes := g.nodes
      relationships := g.relationships ++ [r]
      attached := by
        intro r' hr'
        rcases List.mem_append.mp hr' with hold | hnew
        · exact g.attached r' hold
        · rw [List.mem_singleton.mp hnew]
          exact h }
  else g

/-- `MATCH ()-[r]->() SET …`. -/
def setRelationships (f : β → β) (hf : ∀ r, start (f r) = start r ∧ stop (f r) = stop r)
    (g : PropertyGraph key start stop) : PropertyGraph key start stop where
  nodes := g.nodes
  relationships := g.relationships.map f
  attached := by
    intro r hr
    obtain ⟨r₀, hr₀, rfl⟩ := List.mem_map.mp hr
    rw [(hf r₀).1, (hf r₀).2]
    exact g.attached r₀ hr₀

/-- `MATCH ()-[r]->() WHERE … DELETE r`. -/
def deleteRelationships (p : β → Bool) (g : PropertyGraph key start stop) :
    PropertyGraph key start stop where
  nodes := g.nodes
  relationships := g.relationships.filter fun r => !p r
  attached := fun r hr => g.attached r (List.mem_of_mem_filter hr)

/-! ## What is there afterwards -/

theorem createNode_eq_some {a : α} {g g' : PropertyGraph key start stop}
    (h : g.createNode a = some g') :
    key a ∉ g.nodes.keys ∧ g'.nodes = g.nodes.put a ∧ g'.relationships = g.relationships := by
  unfold createNode at h
  split_ifs at h with hk
  cases h
  exact ⟨hk, rfl, rfl⟩

theorem values_setNodes (f : α → α) (hf : ∀ a, key (f a) = key a)
    (g : PropertyGraph key start stop) :
    (g.setNodes f hf).nodes.values.Perm (g.nodes.values.map f) := by
  have hswept := KeyedTable.values_sweep_perm (f := fun a => some (f a)) (by simp [hf]) g.nodes
  rwa [List.filterMap_eq_map'] at hswept

theorem values_detachDelete (p : α → Bool) (g : PropertyGraph key start stop) :
    (g.detachDelete p).nodes.values.Perm (g.nodes.values.filter fun a => !p a) := by
  have hswept := KeyedTable.values_sweep_perm
    (f := fun a => if p a then none else some a) (by simp) g.nodes
  refine hswept.trans (List.Perm.of_eq ?_)
  rw [← List.filterMap_eq_filter]
  refine List.filterMap_congr fun a _ => ?_
  by_cases hp : p a = true
  · simp [Option.guard, hp]
  · simp [Option.guard, hp]

@[simp]
theorem nodes_createRelationship (r : β) (g : PropertyGraph key start stop) :
    (g.createRelationship r).nodes = g.nodes := by
  unfold createRelationship
  split_ifs <;> rfl

theorem relationships_createRelationship (r : β) (g : PropertyGraph key start stop) :
    (g.createRelationship r).relationships =
      if start r ∈ g.nodes.keys ∧ stop r ∈ g.nodes.keys then g.relationships ++ [r]
      else g.relationships := by
  unfold createRelationship
  split_ifs <;> rfl

theorem matches_iff {p : α → Bool} {g : PropertyGraph key start stop} {k : κ} :
    g.Matches p k ↔ ∃ a ∈ g.nodes.values, key a = k ∧ p a = true := by
  constructor
  · rintro ⟨a, ha, hp⟩
    exact ⟨a, KeyedTable.mem_values_of_get? ha, KeyedTable.key_of_get? ha, hp⟩
  · rintro ⟨a, ha, rfl, hp⟩
    exact ⟨a, KeyedTable.mem_values.mp ha, hp⟩

theorem matches_setNodes {f : α → α} {hf : ∀ a, key (f a) = key a} {p : α → Bool}
    {g : PropertyGraph key start stop} {k : κ} :
    (g.setNodes f hf).Matches p k ↔ g.Matches (fun a => p (f a)) k := by
  have hget : (g.setNodes f hf).nodes.get? k = (g.nodes.get? k).bind fun a => some (f a) :=
    KeyedTable.get?_sweep (by simp [hf]) g.nodes k
  rw [Matches, Matches, hget]
  cases g.nodes.get? k with
  | none => simp
  | some a => simp

end PropertyGraph

end Ragx
