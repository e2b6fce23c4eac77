import Mathlib.Data.List.Nodup
import Mathlib.Data.List.Perm.Basic
import Mathlib.Tactic.Positivity
import Ragx.Fusion

/-!
# Reciprocal-rank fusion

The score of a chunk is the normalised sum of its shares, one for each route that finds it. The
sum does not care for the order of the routes, and normalising keeps the order of the sums. A
chunk that moves up in a route gains there and no other chunk does, so none overtakes it.
-/
namespace Ragx

def routeIds (hits : List ScoredChunk) : List String := hits.map fun sc => sc.chunk.chunkId

/-- Weight over `rrfK` plus the rank, if the route finds the chunk. -/
def routeShare (cfg : RetrievalConfig) (cid : String) (route : String × List ScoredChunk) : ℚ :=
  if cid ∈ routeIds route.2 then
    cfg.rrfWeights.getD route.1 0 / (cfg.rrfK + ((routeIds route.2).idxOf cid + 1) : ℕ)
  else 0

/-- The raw sum of a chunk. -/
def rrfSum (cfg : RetrievalConfig) (raw : RouteResults) (cid : String) : ℚ :=
  (raw.entries.map (routeShare cfg cid)).sum

/-- Some route finds the chunk. -/
def Recalled (raw : RouteResults) (cid : String) : Prop :=
  ∃ route ∈ raw.entries, cid ∈ routeIds route.2

instance (raw : RouteResults) (cid : String) : Decidable (Recalled raw cid) :=
  inferInstanceAs (Decidable (∃ route ∈ raw.entries, cid ∈ routeIds route.2))

/-- No route finds a chunk twice. -/
def RanksOnce (raw : RouteResults) : Prop := ∀ route ∈ raw.entries, (routeIds route.2).Nodup

instance (raw : RouteResults) : Decidable (RanksOnce raw) :=
  inferInstanceAs (Decidable (∀ route ∈ raw.entries, (routeIds route.2).Nodup))

def NonnegWeights (cfg : RetrievalConfig) (raw : RouteResults) : Prop :=
  ∀ route ∈ raw.keys, 0 ≤ cfg.rrfWeights.getD route 0

instance (cfg : RetrievalConfig) (raw : RouteResults) : Decidable (NonnegWeights cfg raw) :=
  inferInstanceAs (Decidable (∀ route ∈ raw.keys, _))

/-- The map from chunk ids to scores that the fused hits are. -/
def scoreOf (hits : List RetrievalHit) (cid : String) : Option ℚ :=
  (hits.find? fun h => decide (h.chunk.chunkId = cid)).map (·.rrfScore)

/-- The routes after a chunk has moved up in one of them, past the hits in `passed`. -/
structure MovesUp (cid : String) (raw raw' : RouteResults) where
  route : String
  front : List ScoredChunk
  passed : List ScoredChunk
  hit : ScoredChunk
  back : List ScoredChunk
  chunkId_eq : hit.chunk.chunkId = cid
  before : raw.get? route = some (front ++ passed ++ hit :: back)
  after : raw' = raw.insert route (front ++ hit :: passed ++ back)

/-- What is asked of the fusion. -/
structure FusesFairly (cfg : RetrievalConfig) (raw : RouteResults) : Prop where
  once : ((rrfFuse cfg raw).map (·.chunk.chunkId)).Nodup
  union : ∀ cid, cid ∈ (rrfFuse cfg raw).map (·.chunk.chunkId) ↔ Recalled raw cid
  unordered : ∀ raw' : RouteResults, raw'.entries.Perm raw.entries →
    ∀ cid, scoreOf (rrfFuse cfg raw') cid = scoreOf (rrfFuse cfg raw) cid
  unit : ∀ h ∈ rrfFuse cfg raw, 0 ≤ h.rrfScore ∧ h.rrfScore ≤ 1
  ordered : ∀ h ∈ rrfFuse cfg raw, ∀ h' ∈ rrfFuse cfg raw,
    (h.rrfScore ≤ h'.rrfScore ↔
      rrfSum cfg raw h.chunk.chunkId ≤ rrfSum cfg raw h'.chunk.chunkId)
  monotone : ∀ cid other raw', Nonempty (MovesUp cid raw raw') → other ≠ cid →
    ∀ s t s' t', scoreOf (rrfFuse cfg raw) other = some s → scoreOf (rrfFuse cfg raw) cid = some t →
      scoreOf (rrfFuse cfg raw') other = some s' → scoreOf (rrfFuse cfg raw') cid = some t' →
        s ≤ t → s' ≤ t'

/-! ## Extremes -/

section Extremes

variable {op : ℚ → ℚ → ℚ} {R : ℚ → ℚ → Prop}

theorem foldl_mem_of_choice (hop : ∀ a b, op a b = a ∨ op a b = b) (vs : List ℚ) (v : ℚ) :
    vs.foldl op v ∈ v :: vs := by
  induction vs generalizing v with
  | nil => exact List.mem_cons_self
  | cons w vs ih =>
    rw [List.foldl_cons]
    rcases hop v w with hv | hw
    · rw [hv]
      rcases List.mem_cons.mp (ih v) with h | h
      · rw [h]
        exact List.mem_cons_self
      · exact List.mem_cons_of_mem v (List.mem_cons_of_mem w h)
    · rw [hw]
      exact List.mem_cons_of_mem v (ih w)

/-- A fold that keeps to one side of both arguments keeps to that side of all of them. -/
theorem foldl_rel_of_mem (htrans : ∀ a b c, R a b → R b c → R a c) (hrefl : ∀ a, R a a)
    (hleft : ∀ a b, R (op a b) a) (hright : ∀ a b, R (op a b) b) {vs : List ℚ} {v w : ℚ}
    (hw : w ∈ v :: vs) : R (vs.foldl op v) w := by
  induction vs generalizing v w with
  | nil => exact List.mem_singleton.mp hw ▸ hrefl v
  | cons x vs ih =>
    have hhead : R ((x :: vs).foldl op v) (op v x) := ih List.mem_cons_self
    rcases List.mem_cons.mp hw with rfl | hw
    · exact htrans _ _ _ hhead (hleft w x)
    · rcases List.mem_cons.mp hw with rfl | hw
      · exact htrans _ _ _ hhead (hright v w)
      · exact ih (List.mem_cons_of_mem _ hw)

theorem minOf_mem {vals : List ℚ} (h : vals ≠ []) : minOf vals ∈ vals := by
  cases vals with
  | nil => exact absurd rfl h
  | cons v vals => exact foldl_mem_of_choice min_choice vals v

theorem maxOf_mem {vals : List ℚ} (h : vals ≠ []) : maxOf vals ∈ vals := by
  cases vals with
  | nil => exact absurd rfl h
  | cons v vals => exact foldl_mem_of_choice max_choice vals v

theorem minOf_le {vals : List ℚ} {v : ℚ} (hv : v ∈ vals) : minOf vals ≤ v := by
  cases vals with
  | nil => cases hv
  | cons w vals =>
    exact foldl_rel_of_mem (R := (· ≤ ·)) (fun _ _ _ => le_trans) le_refl min_le_left
      min_le_right hv

theorem le_maxOf {vals : List ℚ} {v : ℚ} (hv : v ∈ vals) : v ≤ maxOf vals := by
  cases vals with
  | nil => cases hv
  | cons w vals =>
    exact foldl_rel_of_mem (R := (· ≥ ·)) (fun _ _ _ => ge_trans) le_refl le_max_left
      le_max_right hv

/-- Lists with the same members are normalised alike. -/
theorem normalise_congr {vals vals' : List ℚ} (h : ∀ v, v ∈ vals ↔ v ∈ vals') :
    normalise vals = normalise vals' := by
  by_cases hnil : vals = []
  · have hnil' : vals' = [] :=
      List.eq_nil_iff_forall_not_mem.mpr fun v hv => absurd ((h v).mpr hv) (by simp [hnil])
    rw [hnil, hnil']
  · have hnil' : vals' ≠ [] := List.ne_nil_of_mem ((h _).mp (minOf_mem hnil))
    have hmin : minOf vals = minOf vals' :=
      le_antisymm (minOf_le ((h _).mpr (minOf_mem hnil'))) (minOf_le ((h _).mp (minOf_mem hnil)))
    have hmax : maxOf vals = maxOf vals' :=
      le_antisymm (le_maxOf ((h _).mp (maxOf_mem hnil))) (le_maxOf ((h _).mpr (maxOf_mem hnil')))
    funext v
    rw [normalise, normalise, rangeOf, rangeOf, hmin, hmax]

/-- A normalised member lies in the unit interval. -/
theorem normalise_mem_unit {vals : List ℚ} {v : ℚ} (hv : v ∈ vals) :
    0 ≤ normalise vals v ∧ normalise vals v ≤ 1 := by
  have hlow := minOf_le hv
  have hhigh := le_maxOf hv
  refine ⟨div_nonneg (sub_nonneg.mpr hlow) (rangeOf_pos vals).le, ?_⟩
  rw [normalise, div_le_one (rangeOf_pos vals)]
  unfold rangeOf
  split_ifs with hzero
  · linarith
  · linarith

end Extremes

/-! ## Raw sums -/

theorem totalOf_append (xs ys : List Contribution) (cid : String) :
    totalOf (xs ++ ys) cid = totalOf xs cid + totalOf ys cid := by
  simp [totalOf]

theorem totalOf_flatMap {α : Type*} (f : α → List Contribution) (xs : List α) (cid : String) :
    totalOf (xs.flatMap f) cid = (xs.map fun x => totalOf (f x) cid).sum := by
  induction xs with
  | nil => rfl
  | cons x xs ih => rw [List.flatMap_cons, totalOf_append, ih, List.map_cons, List.sum_cons]

/-- A route that finds a chunk once gives it the share of its rank. -/
theorem totalOf_route (weight : ℚ) (k n : ℕ) {hits : List ScoredChunk} (hn : (routeIds hits).Nodup)
    (cid : String) :
    totalOf ((hits.zipIdx n).map fun sc => ⟨sc.1, weight / ((k + sc.2 : ℕ) : ℚ)⟩) cid =
      if cid ∈ routeIds hits then weight / (k + ((routeIds hits).idxOf cid + n) : ℕ) else 0 := by
  induction hits generalizing n with
  | nil => rfl
  | cons sc hits ih =>
    obtain ⟨hnot, hrest⟩ := List.nodup_cons.mp hn
    have hfirst : totalOf [⟨sc, weight / ((k + n : ℕ) : ℚ)⟩] cid =
        if sc.chunk.chunkId = cid then weight / ((k + n : ℕ) : ℚ) else 0 := by
      by_cases hc : sc.chunk.chunkId = cid <;> simp [totalOf, Contribution.chunkId, hc]
    have hids : routeIds (sc :: hits) = sc.chunk.chunkId :: routeIds hits := rfl
    rw [List.zipIdx_cons, List.map_cons, ← List.singleton_append, totalOf_append, ih (n + 1) hrest,
      hfirst, hids]
    by_cases hc : sc.chunk.chunkId = cid
    · subst hc
      have hnone : sc.chunk.chunkId ∉ routeIds hits := hnot
      rw [if_pos rfl, if_neg hnone, if_pos List.mem_cons_self, List.idxOf_cons_self, add_zero,
        Nat.zero_add]
    · have hmem : cid ∈ sc.chunk.chunkId :: routeIds hits ↔ cid ∈ routeIds hits := by
        simp [Ne.symm hc]
      rw [if_neg hc, zero_add, List.idxOf_cons_ne _ hc]
      simp only [hmem, Nat.succ_add_eq_add_succ]

section Fused

variable {cfg : RetrievalConfig} {raw : RouteResults}

theorem totalOf_rrfContributions (hn : RanksOnce raw) (cid : String) :
    totalOf (rrfContributions cfg raw) cid = rrfSum cfg raw cid := by
  rw [rrfContributions, totalOf_flatMap, rrfSum]
  exact congrArg List.sum (List.map_congr_left fun route hroute =>
    totalOf_route (cfg.rrfWeights.getD route.1 0) cfg.rrfK 1 (hn route hroute) cid)

theorem mem_rrfContributions_ids {cid : String} :
    cid ∈ (rrfContributions cfg raw).map Contribution.chunkId ↔ Recalled raw cid := by
  simp only [rrfContributions, List.map_flatMap, List.mem_flatMap, Recalled]
  refine exists_congr fun route => and_congr_right fun _ => ?_
  have hids : ((route.2.zipIdx 1).map fun sc => (⟨sc.1,
      cfg.rrfWeights.getD route.1 0 / ((cfg.rrfK + sc.2 : ℕ) : ℚ)⟩ : Contribution)).map
        Contribution.chunkId = routeIds route.2 := by
    rw [List.map_map, routeIds]
    have hfst := List.zipIdx_map_fst 1 route.2
    calc (route.2.zipIdx 1).map _
        = ((route.2.zipIdx 1).map Prod.fst).map fun sc => sc.chunk.chunkId := by
          rw [List.map_map]
          rfl
      _ = route.2.map fun sc => sc.chunk.chunkId := by rw [hfst]
  rw [hids]

theorem chunkId_of_mem_fusedDict {cs : List Contribution} {e : String × FusedEntry}
    (he : e ∈ (fusedDict cs).entries) : e.2.chunk.chunkId = e.1 := by
  have hfold := OrderedDict.entry_of_accumulate Contribution.chunkId addContribution he
  rcases chunk_foldl_addContribution hfold with habs | ⟨c, hc, hchunk⟩
  · exact absurd habs (Option.some_ne_none _)
  · rw [hchunk]
    exact of_decide_eq_true (List.mem_filter.mp hc).2

/-- The hits stand for the entries of the dictionary, one for one. -/
theorem ids_rrfFuse : (rrfFuse cfg raw).map (·.chunk.chunkId) =
    (fusedDict (rrfContributions cfg raw)).keys := by
  rw [rrfFuse, fusedHits, OrderedDict.values, List.map_map, List.map_map, OrderedDict.keys]
  exact List.map_congr_left fun e he => chunkId_of_mem_fusedDict he

theorem mem_ids_rrfFuse {cid : String} :
    cid ∈ (rrfFuse cfg raw).map (·.chunk.chunkId) ↔ Recalled raw cid := by
  have hkeys : (fusedDict (rrfContributions cfg raw)).keys =
      firstSeen ((rrfContributions cfg raw).map Contribution.chunkId) :=
    OrderedDict.keys_accumulate_empty _ _ _
  rw [ids_rrfFuse, hkeys, mem_firstSeen, mem_rrfContributions_ids]

/-- The raw sums of all chunks, in the order of the dictionary. -/
def rrfSums (cfg : RetrievalConfig) (raw : RouteResults) : List ℚ :=
  ((rrfFuse cfg raw).map (·.chunk.chunkId)).map (rrfSum cfg raw)

theorem mem_rrfSums {s : ℚ} :
    s ∈ rrfSums cfg raw ↔ ∃ cid, Recalled raw cid ∧ rrfSum cfg raw cid = s := by
  simp only [rrfSums, List.mem_map (f := rrfSum cfg raw), mem_ids_rrfFuse]

theorem rrfScore_of_mem (hn : RanksOnce raw) {h : RetrievalHit} (hh : h ∈ rrfFuse cfg raw) :
    h.rrfScore = normalise (rrfSums cfg raw) (rrfSum cfg raw h.chunk.chunkId) := by
  have hscore : ∀ e ∈ (fusedDict (rrfContributions cfg raw)).entries,
      e.2.score = rrfSum cfg raw e.2.chunk.chunkId := by
    intro e he
    rw [chunkId_of_mem_fusedDict he, score_fusedDict he, totalOf_rrfContributions hn]
  have hsums : (fusedDict (rrfContributions cfg raw)).values.map (·.score) = rrfSums cfg raw := by
    rw [rrfSums, rrfFuse, fusedHits, OrderedDict.values, List.map_map, List.map_map, List.map_map,
      List.map_map]
    exact List.map_congr_left hscore
  obtain ⟨entry, hentry, rfl⟩ := List.mem_map.mp hh
  obtain ⟨e, he, rfl⟩ := List.mem_map.mp hentry
  show normalise _ e.2.score = _
  rw [hsums, hscore e he]

theorem scoreOf_eq_some (hn : RanksOnce raw) {cid : String} {s : ℚ} :
    scoreOf (rrfFuse cfg raw) cid = some s ↔
      Recalled raw cid ∧ normalise (rrfSums cfg raw) (rrfSum cfg raw cid) = s := by
  rw [scoreOf, Option.map_eq_some_iff]
  constructor
  · rintro ⟨h, hfind, rfl⟩
    have hmem := List.mem_of_find?_eq_some hfind
    obtain rfl : h.chunk.chunkId = cid := of_decide_eq_true (List.find?_some hfind :)
    exact ⟨mem_ids_rrfFuse.mp (List.mem_map_of_mem hmem), (rrfScore_of_mem hn hmem).symm⟩
  · rintro ⟨hcid, rfl⟩
    have hlisted : cid ∈ (rrfFuse cfg raw).map (·.chunk.chunkId) := mem_ids_rrfFuse.mpr hcid
    obtain ⟨h, hmem, hid⟩ := List.mem_map.mp hlisted
    cases hfind : (rrfFuse cfg raw).find? fun h => decide (h.chunk.chunkId = cid) with
    | none => exact absurd (decide_eq_true hid) (List.find?_eq_none.mp hfind h hmem)
    | some found =>
      obtain rfl : found.chunk.chunkId = cid := of_decide_eq_true (List.find?_some hfind :)
      exact ⟨found, rfl, rrfScore_of_mem hn (List.mem_of_find?_eq_some hfind)⟩

theorem scoreOf_congr {raw' : RouteResults} (hn : RanksOnce raw) (hn' : RanksOnce raw')
    (hrecalled : ∀ cid, Recalled raw cid ↔ Recalled raw' cid)
    (hsum : ∀ cid, rrfSum cfg raw cid = rrfSum cfg raw' cid) (cid : String) :
    scoreOf (rrfFuse cfg raw) cid = scoreOf (rrfFuse cfg raw') cid := by
  have hsums : normalise (rrfSums cfg raw) = normalise (rrfSums cfg raw') :=
    normalise_congr fun v => by simp only [mem_rrfSums, hrecalled, hsum]
  refine Option.ext fun s => ?_
  rw [scoreOf_eq_some hn, scoreOf_eq_some hn', hrecalled, hsum, hsums]

end Fused

/-! ## Moving up -/

section Moving

variable {front passed back : List String} {cid other : String}

theorem idxOf_mover_le :
    (front ++ cid :: passed ++ back).idxOf cid ≤ (front ++ passed ++ cid :: back).idxOf cid := by
  rw [List.append_assoc, List.append_assoc]
  by_cases hfront : cid ∈ front
  · rw [List.idxOf_append_of_mem hfront, List.idxOf_append_of_mem hfront]
  · rw [List.idxOf_append_of_notMem hfront, List.idxOf_append_of_notMem hfront, List.cons_append,
      List.idxOf_cons_self]
    exact Nat.le_add_right _ _

theorem idxOf_other_le (h : other ≠ cid) :
    (front ++ passed ++ cid :: back).idxOf other ≤
      (front ++ cid :: passed ++ back).idxOf other := by
  rw [List.append_assoc, List.append_assoc]
  by_cases hfront : other ∈ front
  · rw [List.idxOf_append_of_mem hfront, List.idxOf_append_of_mem hfront]
  · rw [List.idxOf_append_of_notMem hfront, List.idxOf_append_of_notMem hfront, List.cons_append,
      List.idxOf_cons_ne _ (Ne.symm h)]
    by_cases hpassed : other ∈ passed
    · rw [List.idxOf_append_of_mem hpassed, List.idxOf_append_of_mem hpassed]
      exact Nat.add_le_add_left (Nat.le_succ _) _
    · rw [List.idxOf_append_of_notMem hpassed, List.idxOf_append_of_notMem hpassed,
        List.idxOf_cons_ne _ (Ne.symm h)]
      exact le_rfl

variable {cfg : RetrievalConfig}

/-- A chunk that stays in a route gets less there the further down it is. -/
theorem routeShare_le {route : String} {hits hits' : List ScoredChunk} {cid : String}
    (hweight : 0 ≤ cfg.rrfWeights.getD route 0) (hids : cid ∈ routeIds hits ↔ cid ∈ routeIds hits')
    (hdown : (routeIds hits).idxOf cid ≤ (routeIds hits').idxOf cid) :
    routeShare cfg cid (route, hits') ≤ routeShare cfg cid (route, hits) := by
  unfold routeShare
  by_cases hmem : cid ∈ routeIds hits
  · rw [if_pos (hids.mp hmem), if_pos hmem]
    refine div_le_div_of_nonneg_left hweight ?_ ?_
    · exact_mod_cast Nat.add_pos_right _ (Nat.succ_pos _)
    · exact_mod_cast Nat.add_le_add_left (Nat.succ_le_succ hdown) _
  · rw [if_neg (mt hids.mpr hmem), if_neg hmem]

namespace MovesUp

variable {raw raw' : RouteResults}

/-- Only the one route changes. -/
theorem entries_eq (m : MovesUp cid raw raw') : ∃ before after,
    raw.entries = before ++ (m.route, m.front ++ m.passed ++ m.hit :: m.back) :: after ∧
      raw'.entries = before ++ (m.route, m.front ++ m.hit :: m.passed ++ m.back) :: after := by
  obtain ⟨before, after, hbefore, hafter⟩ :=
    OrderedDict.writeIn_of_lookupIn (v := m.front ++ m.hit :: m.passed ++ m.back) m.before
  exact ⟨before, after, hbefore, (congrArg OrderedDict.entries m.after).trans hafter⟩

theorem routeIds_before (m : MovesUp cid raw raw') :
    routeIds (m.front ++ m.passed ++ m.hit :: m.back) =
      routeIds m.front ++ routeIds m.passed ++ cid :: routeIds m.back := by
  simp [routeIds, m.chunkId_eq]

theorem routeIds_after (m : MovesUp cid raw raw') :
    routeIds (m.front ++ m.hit :: m.passed ++ m.back) =
      routeIds m.front ++ cid :: routeIds m.passed ++ routeIds m.back := by
  simp [routeIds, m.chunkId_eq]

theorem perm_routeIds (m : MovesUp cid raw raw') :
    (routeIds (m.front ++ m.hit :: m.passed ++ m.back)).Perm
      (routeIds (m.front ++ m.passed ++ m.hit :: m.back)) := by
  rw [m.routeIds_before, m.routeIds_after, List.append_assoc, List.append_assoc]
  exact (List.perm_middle.symm).append_left _

theorem ranksOnce (m : MovesUp cid raw raw') (hn : RanksOnce raw) : RanksOnce raw' := by
  obtain ⟨before, after, hbefore, hafter⟩ := m.entries_eq
  intro route hroute
  rw [hafter, List.mem_append, List.mem_cons] at hroute
  rcases hroute with hmem | rfl | hmem
  · exact hn route (hbefore ▸ List.mem_append_left _ hmem)
  · exact m.perm_routeIds.nodup_iff.mpr
      (hn _ (hbefore ▸ List.mem_append_right _ List.mem_cons_self))
  · exact hn route (hbefore ▸ List.mem_append_right _ (List.mem_cons_of_mem _ hmem))

/-- The raw sums move as the shares of the one route do. -/
theorem rrfSum_le (m : MovesUp cid raw raw') {x : String} {R : ℚ → ℚ → Prop}
    (hadd : ∀ a b c, R b c → R (a + b) (a + c))
    (hadd' : ∀ a b c, R a b → R (a + c) (b + c))
    (hshare : R (routeShare cfg x (m.route, m.front ++ m.hit :: m.passed ++ m.back))
      (routeShare cfg x (m.route, m.front ++ m.passed ++ m.hit :: m.back))) :
    R (rrfSum cfg raw' x) (rrfSum cfg raw x) := by
  obtain ⟨before, after, hbefore, hafter⟩ := m.entries_eq
  rw [rrfSum, rrfSum, hbefore, hafter, List.map_append, List.map_append, List.map_cons,
    List.map_cons, List.sum_append, List.sum_append, List.sum_cons, List.sum_cons]
  exact hadd _ _ _ (hadd' _ _ _ hshare)

theorem weight_nonneg (m : MovesUp cid raw raw') (hw : NonnegWeights cfg raw) :
    0 ≤ cfg.rrfWeights.getD m.route 0 := by
  obtain ⟨before, after, hbefore, _⟩ := m.entries_eq
  refine hw m.route ?_
  rw [OrderedDict.keys, hbefore]
  simp

theorem rrfSum_mover (m : MovesUp cid raw raw') (hw : NonnegWeights cfg raw) :
    rrfSum cfg raw cid ≤ rrfSum cfg raw' cid := by
  refine m.rrfSum_le (R := (· ≥ ·)) (fun a _ _ h => add_le_add_right h a)
    (fun _ _ c h => add_le_add_left h c) ?_
  refine routeShare_le (m.weight_nonneg hw) m.perm_routeIds.mem_iff ?_
  rw [m.routeIds_before, m.routeIds_after]
  exact idxOf_mover_le

theorem rrfSum_other (m : MovesUp cid raw raw') (hw : NonnegWeights cfg raw) (h : other ≠ cid) :
    rrfSum cfg raw' other ≤ rrfSum cfg raw other := by
  refine m.rrfSum_le (R := (· ≤ ·)) (fun a _ _ h => add_le_add_right h a)
    (fun _ _ c h => add_le_add_left h c) ?_
  refine routeShare_le (m.weight_nonneg hw) m.perm_routeIds.mem_iff.symm ?_
  rw [m.routeIds_before, m.routeIds_after]
  exact idxOf_other_le h

end MovesUp

end Moving

/-- Fusion by reciprocal ranks is fair. -/
theorem fusesFairly (cfg : RetrievalConfig) (raw : RouteResults) (hw : NonnegWeights cfg raw)
    (hn : RanksOnce raw) : FusesFairly cfg raw where
  once := by
    rw [ids_rrfFuse]
    exact (fusedDict (rrfContributions cfg raw)).nodup
  union _ := mem_ids_rrfFuse
  unordered raw' hperm := by
    have hn' : RanksOnce raw' := fun route hroute => hn route (hperm.mem_iff.mp hroute)
    have hrecalled (cid : String) : Recalled raw' cid ↔ Recalled raw cid := by
      simp only [Recalled, hperm.mem_iff]
    have hsum (cid : String) : rrfSum cfg raw' cid = rrfSum cfg raw cid :=
      (hperm.map (routeShare cfg cid)).sum_eq
    exact scoreOf_congr hn' hn hrecalled hsum
  unit h hh := by
    rw [rrfScore_of_mem hn hh]
    refine normalise_mem_unit (mem_rrfSums.mpr ⟨_, ?_, rfl⟩)
    exact mem_ids_rrfFuse.mp (List.mem_map_of_mem hh)
  ordered h hh h' hh' := by
    rw [rrfScore_of_mem hn hh, rrfScore_of_mem hn hh']
    exact (normalise_strictMono _).le_iff_le
  monotone cid other raw' hmove hother s t s' t' hs ht hs' ht' hle := by
    obtain ⟨m⟩ := hmove
    have hn' := m.ranksOnce hn
    obtain ⟨_, rfl⟩ := (scoreOf_eq_some hn).mp hs
    obtain ⟨_, rfl⟩ := (scoreOf_eq_some hn).mp ht
    obtain ⟨_, rfl⟩ := (scoreOf_eq_some hn').mp hs'
    obtain ⟨_, rfl⟩ := (scoreOf_eq_some hn').mp ht'
    have hbefore : rrfSum cfg raw other ≤ rrfSum cfg raw cid :=
      (normalise_strictMono _).le_iff_le.mp hle
    refine (normalise_strictMono _).monotone ?_
    calc rrfSum cfg raw' other
        ≤ rrfSum cfg raw other := m.rrfSum_other hw hother
      _ ≤ rrfSum cfg raw cid := hbefore
      _ ≤ rrfSum cfg raw' cid := m.rrfSum_mover hw

theorem fusesFairly_overlappingRoutes : FusesFairly {} overlappingRoutes :=
  fusesFairly {} overlappingRoutes (by decide +kernel) (by decide +kernel)

end Ragx
