import Ragx.LocalObjectStore
import Ragx.Sequencing

/-!
# Where object keys lead

A call on the store should only touch files strictly below the root, and fail otherwise. The
check on texts lets the root itself and its lookalikes pass, and listing is not checked at
all, so the calls that stay inside are exactly those that lead to no such place, or that the
operating system refuses.
-/
namespace Ragx

inductive ObjectCall where
  | put (key : String) (data : Bytes)
  | get (key : String)
  | delete (key : String)
  | listPrefix (keys : String)

def raisedBy {α : Type} : Except Exc α → Option Exc
  | .ok _ => none
  | .error e => some e

namespace ObjectCall

variable (store : LocalFSObjectStore) (fs : FileSystem)

/-- The files that the call reads, writes, removes or lists. -/
def files : ObjectCall → List FilePath
  | .put key _ => [store.target key]
  | .get key => [store.target key]
  | .delete key => [store.target key]
  | .listPrefix keys => fs.filesUnder (store.target keys)

def after : ObjectCall → FileSystem
  | .put key data => (store.put key data fs).1
  | .get _ => fs
  | .delete key => (store.delete key fs).1
  | .listPrefix _ => fs

def raised : ObjectCall → Option Exc
  | .put key data => raisedBy (store.put key data fs).2
  | .get key => raisedBy (store.get key fs)
  | .delete key => raisedBy (store.delete key fs).2
  | .listPrefix keys => raisedBy (store.listPrefix keys fs)

/-- The call fails as an unavailable store, and nothing has changed. -/
def Unavailable (call : ObjectCall) : Prop :=
  ∃ e, call.raised store fs = some e ∧ e.cls = .storeUnavailable ∧ call.after store fs = fs

/-- Every file that the call touches lies strictly below the root, or the call fails. -/
def Confined (call : ObjectCall) : Prop :=
  (∀ p ∈ call.files store fs, FilePath.StrictlyBelow store.base p) ∨ call.Unavailable store fs

/-- The key does not lead to the root or a lookalike of it, unless the operating system refuses
the path; a prefix leads below the root, or finds no file elsewhere. -/
def Inside : ObjectCall → Prop
  | .put key _ =>
    ¬ FilePath.Lookalike store.base (store.target key) ∨
      LocalFSObjectStore.Refused fs (store.target key)
  | .get key =>
    ¬ FilePath.Lookalike store.base (store.target key) ∨ fs.IsDir (store.target key)
  | .delete key => ¬ FilePath.Lookalike store.base (store.target key)
  | .listPrefix keys =>
    store.base <+: store.target keys ∨
      ∀ p, (fs.file? p).isSome = true → FilePath.StrictlyBelow (store.target keys) p →
        FilePath.StrictlyBelow store.base p

variable {store fs} {key : String}

/-- A call on a key that passes the check and leads outside must be refused later. -/
theorem confined_key_iff {call : ObjectCall} (hfiles : call.files store fs = [store.target key])
    (hpath : ¬ store.Accepts (store.target key) → call.Unavailable store fs) {refused : Prop}
    (hcall : store.Accepts (store.target key) → (call.Unavailable store fs ↔ refused)) :
    call.Confined store fs ↔
      ¬ FilePath.Lookalike store.base (store.target key) ∨ refused := by
  rw [Confined, hfiles, List.forall_mem_singleton]
  by_cases ha : store.Accepts (store.target key)
  · rw [hcall ha]
    refine or_congr_left ⟨fun hbelow hlook => ?_, fun hlook => ?_⟩
    · exact FilePath.not_strictlyBelow_of_lookalike hlook hbelow
    · exact (LocalFSObjectStore.accepts_iff.mp ha).resolve_right hlook
  · have hlook : ¬ FilePath.Lookalike store.base (store.target key) :=
      fun h => ha (LocalFSObjectStore.accepts_iff.mpr (Or.inr h))
    exact iff_of_true (Or.inr (hpath ha)) (Or.inl hlook)

theorem confined_put (data : Bytes) :
    (ObjectCall.put key data).Confined store fs ↔ (ObjectCall.put key data).Inside store fs := by
  refine confined_key_iff rfl (fun ha => ?_) fun ha => ⟨fun h => ?_, fun h => ?_⟩
  · have hpath := LocalFSObjectStore.path_of_not_accepts ha
    simp [Unavailable, raised, after, LocalFSObjectStore.put, hpath, raisedBy,
      LocalFSObjectStore.storeUnavailable]
  · by_contra hnot
    obtain ⟨e, he, _, _⟩ := h
    have hput := LocalFSObjectStore.put_of_not_refused data ha hnot
    simp [raised, hput, raisedBy] at he
  · obtain ⟨e, he⟩ := LocalFSObjectStore.put_of_refused data ha h
    simp [Unavailable, raised, after, he, raisedBy, LocalFSObjectStore.osFailure,
      LocalFSObjectStore.storeUnavailable]

theorem confined_get :
    (ObjectCall.get key).Confined store fs ↔ (ObjectCall.get key).Inside store fs := by
  refine confined_key_iff rfl (fun ha => ?_) fun ha => ⟨fun h => ?_, fun h => ?_⟩
  · have hpath := LocalFSObjectStore.path_of_not_accepts ha
    simp [Unavailable, raised, after, LocalFSObjectStore.get, hpath, raisedBy,
      LocalFSObjectStore.storeUnavailable]
  · by_contra hnot
    obtain ⟨e, he, _, _⟩ := h
    have hget := LocalFSObjectStore.get_of_not_isDir ha hnot
    simp [raised, hget, raisedBy] at he
  · have hget := LocalFSObjectStore.get_of_isDir ha h
    simp [Unavailable, raised, after, hget, raisedBy, LocalFSObjectStore.osFailure,
      LocalFSObjectStore.storeUnavailable]

/-- What the operating system says to a removal is passed on as it is. -/
theorem confined_delete :
    (ObjectCall.delete key).Confined store fs ↔ (ObjectCall.delete key).Inside store fs := by
  suffices h : (ObjectCall.delete key).Confined store fs ↔
      ¬ FilePath.Lookalike store.base (store.target key) ∨ False by
    simpa [Inside] using h
  refine confined_key_iff rfl (fun ha => ?_) fun ha => ⟨fun h => ?_, False.elim⟩
  · have hpath := LocalFSObjectStore.path_of_not_accepts ha
    simp [Unavailable, raised, after, LocalFSObjectStore.delete, hpath, raisedBy,
      LocalFSObjectStore.storeUnavailable]
  · obtain ⟨e, he, hcls, _⟩ := h
    simp only [raised, LocalFSObjectStore.delete, LocalFSObjectStore.path_of_accepts ha] at he
    cases hun : fs.unlink (store.target key) with
    | ok fs' => simp [hun, raisedBy] at he
    | error os =>
      simp only [hun, raisedBy, Option.some.injEq] at he
      rw [← he] at hcls
      simp [Exc.foreign] at hcls

theorem mem_filesUnder {found p : FilePath} :
    p ∈ fs.filesUnder found ↔ (fs.file? p).isSome = true ∧ FilePath.StrictlyBelow found p := by
  have hfile (hne : p ≠ []) : (fs.file? p).isSome = true ↔
      ∃ node, fs.nodes.get? p = some node ∧ node ≠ .dir := by
    unfold FileSystem.file? FileSystem.node?
    rw [if_neg hne]
    cases fs.nodes.get? p with
    | none => simp
    | some node => cases node <;> simp
  have hmem : p ∈ fs.filesUnder found ↔ FilePath.StrictlyBelow found p ∧
      ∃ node, fs.nodes.get? p = some node ∧ node ≠ .dir := by
    simp only [FileSystem.filesUnder, List.mem_map, List.mem_filter, Prod.exists,
      exists_and_right, exists_eq_right, OrderedDict.mem_entries, Bool.and_eq_true,
      decide_eq_true_eq, bne_iff_ne, ne_eq]
    constructor
    · rintro ⟨node, hget, hbelow, hnode⟩
      exact ⟨hbelow, node, hget, hnode⟩
    · rintro ⟨hbelow, node, hget, hnode⟩
      exact ⟨node, hget, hbelow, hnode⟩
  rw [hmem, and_comm]
  refine and_congr_left fun hbelow => (hfile ?_).symm
  intro hnil
  subst hnil
  exact hbelow.2 (List.prefix_nil.mp hbelow.1).symm

/-- Listing never fails as an unavailable store does. -/
theorem not_unavailable_listPrefix (keys : String) :
    ¬ (ObjectCall.listPrefix keys).Unavailable store fs := by
  rintro ⟨e, he, hcls, _⟩
  simp only [raised, LocalFSObjectStore.listPrefix] at he
  split_ifs at he
  · cases hall : (fs.filesUnder (store.target keys)).mapM (relativeTo store.base) with
    | ok names => simp [hall, Except.map, raisedBy] at he
    | error e' =>
      simp only [hall, Except.map, raisedBy, Option.some.injEq] at he
      obtain ⟨p, _, hp⟩ := exists_of_mapM_eq_error hall
      unfold relativeTo at hp
      split_ifs at hp
      rw [← he, ← Except.error.inj hp] at hcls
      simp [Exc.foreign] at hcls
  · simp [raisedBy] at he

theorem confined_listPrefix (keys : String) :
    (ObjectCall.listPrefix keys).Confined store fs ↔
      (ObjectCall.listPrefix keys).Inside store fs := by
  rw [Confined, or_iff_left (not_unavailable_listPrefix keys)]
  constructor
  · intro h
    exact Or.inr fun p hfile hbelow => h p (mem_filesUnder.mpr ⟨hfile, hbelow⟩)
  · rintro (hroot | h) p hp
    · obtain ⟨_, hbelow, hne⟩ := mem_filesUnder.mp hp
      have hlong := List.prefix_iff_eq_take.mp hbelow
      refine ⟨hroot.trans hbelow, fun heq => hne ?_⟩
      subst heq
      exact List.IsPrefix.eq_of_length hroot (le_antisymm hroot.length_le hbelow.length_le)
    · obtain ⟨hfile, hbelow⟩ := mem_filesUnder.mp hp
      exact h p hfile hbelow

/-- The calls that touch nothing outside the root, or fail, are those that stay inside. -/
theorem confined_iff_inside (store : LocalFSObjectStore) (fs : FileSystem) (call : ObjectCall) :
    call.Confined store fs ↔ call.Inside store fs := by
  cases call with
  | put key data => exact confined_put data
  | get key => exact confined_get
  | delete key => exact confined_delete
  | listPrefix keys => exact confined_listPrefix keys

/-- A key that climbs to a neighbour with a longer name writes there. -/
theorem not_confined_neighbour :
    let store := LocalFSObjectStore.ofConfig [] (some "/data/objects") none
    ¬ (ObjectCall.put "../objects2/x" [1]).Confined store ⟨.empty⟩ := by
  intro store
  have hbase : store.base = [⟨"data", by decide⟩, ⟨"objects", by decide⟩] := by decide
  have htarget : store.target "../objects2/x" =
      [⟨"data", by decide⟩, ⟨"objects2", by decide⟩, ⟨"x", by decide⟩] := by decide
  rw [confined_put]
  rintro (hlook | hrefused)
  · refine hlook (Or.inr ⟨[⟨"data", by decide⟩], ⟨"objects", by decide⟩, ⟨"objects2", by decide⟩,
      [⟨"x", by decide⟩], hbase, htarget, by decide, by decide⟩)
  · rw [LocalFSObjectStore.Refused, htarget] at hrefused
    revert hrefused
    decide

end ObjectCall

end Ragx
