import Ragx.ExactCache

/-!
# Knowledge bases that share a cache

Joined keys are cut at colons, and an id may have colons in it. A knowledge base leaves
another one alone as long as no key of the other one starts like its own keys.
-/
namespace Ragx

/-- No full key of `kbB` starts with the prefix that belongs to `kbA`. -/
def KbApart (kbA kbB : String) : Prop :=
  ¬(kbA ++ ":").toList <+: kbB.toList ∧
    ∀ epoch : ℕ, ¬(kbB ++ ":" ++ epoch.repr ++ ":").toList <+: (kbA ++ ":").toList

/-- Whatever is cached, invalidating `kbA` and writing under it change nothing that `kbB`
reads. -/
def Framed (nspace : String) (ttlS : ℤ) (kbA kbB : String) : Prop :=
  ∀ cache, InMemoryExactCache.Reachable nspace ttlS cache → ∀ (key : String) (epoch : ℕ) (now : ℚ),
    ((cache.invalidateKb kbA).get now key kbB epoch).1 = (cache.get now key kbB epoch).1 ∧
    (cache.invalidateKb kbA).getEpoch kbB = cache.getEpoch kbB ∧
    ∀ (now' : ℚ) (key' value : String) (epoch' : ℕ) (ttl : Option ℤ),
      ((cache.set now' key' value kbA epoch' ttl).get now key kbB epoch).1 =
        (cache.get now key kbB epoch).1

namespace InMemoryExactCache

theorem startsWithText_iff {start text : String} :
    startsWithText start text = true ↔ start.toList <+: text.toList :=
  List.isPrefixOf_iff_prefix

/-- An epoch followed by a colon has no shorter prefix that ends in a colon. -/
theorem prefix_epoch_colon {epoch : ℕ} {front : List Char}
    (h : front ++ [':'] <+: epoch.repr.toList ++ [':']) : front = epoch.repr.toList := by
  rcases List.prefix_concat_iff.mp h with heq | hin
  · exact List.append_cancel_right heq
  · have hcolon : ':' ∈ front ++ [':'] := by simp
    exact absurd (hin.subset hcolon) (colon_notMem_repr epoch)

theorem not_prefix_fullKey {cache : InMemoryExactCache} {kbA kbB key : String} {epoch : ℕ}
    (hne : kbA ≠ kbB) (h : KbApart kbA kbB) :
    ¬(cache.nspace ++ ":" ++ kbA ++ ":").toList <+: (cache.fullKey kbB epoch key).toList := by
  intro hpre
  have hchars : kbA.toList ++ [':'] <+:
      ((kbB.toList ++ [':']) ++ (epoch.repr.toList ++ [':'])) ++ key.toList := by
    rw [← List.prefix_append_right_inj (cache.nspace.toList ++ [':'])]
    simpa [fullKey] using hpre
  have hbeyond :
      ¬(kbB.toList ++ [':']) ++ (epoch.repr.toList ++ [':']) <+: kbA.toList ++ [':'] := by
    simpa using h.2 epoch
  -- the prefix ends within the epoch at the latest
  have hshort : kbA.toList ++ [':'] <+: (kbB.toList ++ [':']) ++ (epoch.repr.toList ++ [':']) := by
    rcases List.prefix_or_prefix_of_prefix hchars (List.prefix_append _ _) with hp | hp
    · exact hp
    · exact absurd hp hbeyond
  rcases List.prefix_or_prefix_of_prefix hshort (List.prefix_append _ _) with hp | hp
  · rcases List.prefix_concat_iff.mp hp with heq | hin
    · exact hne (String.toList_inj.mp (List.append_cancel_right heq))
    · exact h.1 (by simpa using hin)
  · obtain ⟨front, hfront⟩ := hp
    rcases List.eq_nil_or_concat' front with rfl | ⟨front, last, rfl⟩
    · rw [List.append_nil] at hfront
      exact hne (String.toList_inj.mp (List.append_cancel_right hfront).symm)
    · rw [← List.append_assoc] at hfront
      obtain ⟨hA, hlast⟩ := List.append_inj' hfront rfl
      cases hlast
      rw [← hfront, List.append_assoc, List.prefix_append_right_inj] at hshort
      rw [prefix_epoch_colon hshort, List.append_assoc] at hfront
      exact hbeyond (hfront ▸ List.prefix_rfl)

/-- An invalidation keeps what does not start like the knowledge base, or starts like its new
epoch. -/
theorem get_invalidateKb {cache : InMemoryExactCache} {kbA kbB key : String} {epoch : ℕ} {now : ℚ}
    (h : (cache.nspace ++ ":" ++ kbA ++ ":").toList <+: (cache.fullKey kbB epoch key).toList →
      (cache.nspace ++ ":" ++ kbA ++ ":" ++ (cache.getEpoch kbA + 1).repr ++ ":").toList <+:
        (cache.fullKey kbB epoch key).toList) :
    ((cache.invalidateKb kbA).get now key kbB epoch).1 = (cache.get now key kbB epoch).1 := by
  refine get_congr rfl ?_
  rw [← startsWithText_iff, ← startsWithText_iff] at h
  rw [invalidateKb, OrderedDict.get?_filterKeys, if_pos]
  simpa [or_iff_not_imp_left] using h

theorem get_set {cache : InMemoryExactCache} {kbA kbB key key' value : String} {epoch epoch' : ℕ}
    {now now' : ℚ} {ttl : Option ℤ}
    (h : cache.fullKey kbA epoch' key' ≠ cache.fullKey kbB epoch key) :
    ((cache.set now' key' value kbA epoch' ttl).get now key kbB epoch).1 =
      (cache.get now key kbB epoch).1 := by
  refine get_congr rfl ?_
  rw [set, OrderedDict.get?_insert, if_neg h]

/-- What is written is read back at once, by any arguments that make the same full key. -/
theorem get_set_self {cache : InMemoryExactCache} {kbA kbB key key' value : String}
    {epoch epoch' : ℕ} {now : ℚ}
    (h : cache.fullKey kbA epoch' key' = cache.fullKey kbB epoch key) :
    ((cache.set now key' value kbA epoch' (some 0)).get now key kbB epoch).1 = some value := by
  have hentry : (cache.set now key' value kbA epoch' (some 0)).entries.get?
      (cache.fullKey kbB epoch key) = some (now, value) := by
    rw [set, OrderedDict.get?_insert, if_pos h]
    simp
  rw [← show (cache.set now key' value kbA epoch' (some 0)).fullKey kbB epoch key =
    cache.fullKey kbB epoch key from rfl] at hentry
  unfold get
  rw [hentry]
  simp

/-- An entry of a colliding id is gone after one invalidation, unless its key starts like the
new epoch. -/
theorem get_invalidateKb_eq_none {cache : InMemoryExactCache} {kbA kbB key : String} {epoch : ℕ}
    {now : ℚ}
    (hstart : (cache.nspace ++ ":" ++ kbA ++ ":").toList <+: (cache.fullKey kbB epoch key).toList)
    (hcurrent : ¬(cache.nspace ++ ":" ++ kbA ++ ":" ++ (cache.getEpoch kbA + 1).repr ++ ":").toList
      <+: (cache.fullKey kbB epoch key).toList) :
    ((cache.invalidateKb kbA).get now key kbB epoch).1 = none := by
  have hentry : (cache.invalidateKb kbA).entries.get? (cache.fullKey kbB epoch key) = none := by
    rw [invalidateKb, OrderedDict.get?_filterKeys, if_neg]
    rw [startsWithText_iff.mpr hstart, Bool.eq_false_iff.mpr (mt startsWithText_iff.mp hcurrent)]
    decide
  rw [← show (cache.invalidateKb kbA).fullKey kbB epoch key = cache.fullKey kbB epoch key
    from rfl] at hentry
  unfold get
  rw [hentry]

theorem reachable_empty (nspace : String) (ttlS : ℤ) :
    Reachable nspace ttlS { nspace, ttlS } := ⟨[], rfl⟩

theorem Reachable.call {nspace : String} {ttlS : ℤ} {cache : InMemoryExactCache}
    (h : Reachable nspace ttlS cache) (now : ℚ) (c : CacheCall) :
    Reachable nspace ttlS (cache.call now c).2 := by
  obtain ⟨calls, rfl⟩ := h
  exact ⟨calls ++ [(now, c)], by rw [List.foldl_append]; rfl⟩

end InMemoryExactCache

open InMemoryExactCache

theorem framed_of_kbApart {nspace : String} {ttlS : ℤ} {kbA kbB : String} (hne : kbA ≠ kbB)
    (h : KbApart kbA kbB) : Framed nspace ttlS kbA kbB := by
  intro cache _ key epoch now
  have hpre :
      ¬(cache.nspace ++ ":" ++ kbA ++ ":").toList <+: (cache.fullKey kbB epoch key).toList :=
    not_prefix_fullKey hne h
  refine ⟨get_invalidateKb fun hin => absurd hin hpre, ?_,
    fun now' key' value epoch' ttl => get_set ?_⟩
  · rw [getEpoch_invalidateKb, if_neg hne]
  · intro heq
    refine hpre ⟨epoch'.repr.toList ++ ':' :: key'.toList, ?_⟩
    rw [← heq]
    simp [fullKey]

/-- Keys of `kbB` that start like those of `kbA` are dropped with them. -/
theorem not_framed_of_prefix {nspace : String} {ttlS : ℤ} {kbA kbB : String}
    (h : (kbA ++ ":").toList <+: kbB.toList) : ¬Framed nspace ttlS kbA kbB := by
  intro hframed
  obtain ⟨rest, hrest⟩ := h
  -- the entry is kept only if its key starts with the number of the new epoch
  have hkept (newEpoch : String) {cache : InMemoryExactCache}
      (hcache : Reachable nspace ttlS cache) (hnew : (cache.getEpoch kbA + 1).repr = newEpoch) :
      newEpoch.toList ++ [':'] <+: rest ++ ":1:".toList := by
    by_contra hcurrent
    let written := cache.set 0 "" "" kbB 1 (some 0)
    have hkey : (written.fullKey kbB 1 "").toList =
        (written.nspace ++ ":" ++ kbA ++ ":").toList ++ (rest ++ ":1:".toList) := by
      rw [toList_fullKey, ← hrest, show (1 : ℕ).repr = "1" from rfl]
      simp
    have hbefore : (written.get 0 "" kbB 1).1 = some "" := get_set_self rfl
    have hafter : ((written.invalidateKb kbA).get 0 "" kbB 1).1 = none := by
      refine get_invalidateKb_eq_none ?_ fun hin => hcurrent ?_
      · exact hkey ▸ List.prefix_append _ _
      · rw [← hnew, ← List.prefix_append_right_inj (written.nspace ++ ":" ++ kbA ++ ":").toList,
          ← hkey]
        simpa [written] using hin
    have hsame := (hframed written (hcache.call 0 (.set "" "" kbB 1 (some 0))) "" 1 0).1
    rw [hbefore, hafter] at hsame
    cases hsame
  have hempty := reachable_empty nspace ttlS
  have hfirst : getEpoch { nspace, ttlS } kbA = 1 := rfl
  have hnext : (call 0 { nspace, ttlS } (.invalidateKb kbA)).2.getEpoch kbA = 2 := by
    rw [call, getEpoch_invalidateKb, if_pos rfl, hfirst]
  have hboth := List.prefix_or_prefix_of_prefix 
    (hkept "2" hempty (by rw [hfirst]; rfl))
    (hkept "3" (hempty.call 0 (.invalidateKb kbA)) (by rw [hnext]; rfl))
  revert hboth
  decide

/-- A key of `kbA` can be written so that it is a full key of `kbB`. -/
theorem not_framed_of_epoch_prefix {nspace : String} {ttlS : ℤ} {kbA kbB : String} {epoch : ℕ}
    (h : (kbB ++ ":" ++ epoch.repr ++ ":").toList <+: (kbA ++ ":").toList) :
    ¬Framed nspace ttlS kbA kbB := by
  intro hframed
  obtain ⟨rest, hrest⟩ := h
  let cache : InMemoryExactCache := { nspace, ttlS }
  let key := String.ofList (rest ++ "1:".toList)
  have hcollide : cache.fullKey kbA 1 "" = cache.fullKey kbB epoch key := by
    apply String.toList_inj.mp
    calc (cache.fullKey kbA 1 "").toList
        = nspace.toList ++ ':' :: ((kbA ++ ":").toList ++ "1:".toList) := by
          rw [toList_fullKey, show (1 : ℕ).repr = "1" from rfl]
          simp [cache]
      _ = (cache.fullKey kbB epoch key).toList := by
          rw [toList_fullKey, ← hrest]
          simp [cache, key]
  have hsame := (hframed cache (reachable_empty nspace ttlS) key epoch 0).2.2 0 "" "" 1 (some 0)
  rw [get_set_self hcollide] at hsame
  cases hsame

/-- Two knowledge bases leave each other's reads alone exactly if no key of the second one
starts like the keys of the first one. -/
theorem framed_iff (nspace : String) (ttlS : ℤ) {kbA kbB : String} (hne : kbA ≠ kbB) :
    Framed nspace ttlS kbA kbB ↔ KbApart kbA kbB := by
  refine ⟨fun hframed => ⟨fun h => ?_, fun epoch h => ?_⟩, framed_of_kbApart hne⟩
  · exact not_framed_of_prefix h hframed
  · exact not_framed_of_epoch_prefix h hframed

theorem framed_iff_team :
    "team" ≠ "team:eu" ∧ (Framed "cache" 60 "team" "team:eu" ↔ KbApart "team" "team:eu") :=
  ⟨by decide, framed_iff "cache" 60 (by decide)⟩

/-- Invalidating one knowledge base drops an entry of another one whose id continues its id
over a colon. -/
theorem subordinate_kb_is_invalidated : ¬∀ (nspace : String) (ttlS : ℤ) (kbA kbB : String),
    kbA ≠ kbB → Framed nspace ttlS kbA kbB := by
  intro hall
  have hframed := hall "cache" 60 "team" "team:eu" (by decide)
  have hcache := (reachable_empty "cache" 60).call 0 (.set "question" "answer" "team:eu" 1 none)
  have hsame := (hframed _ hcache "question" 1 1).1
  exact absurd hsame (by decide +kernel)

end Ragx
