import Ragx.EventRuns
import Ragx.LocalObjectStore

/-!
# The object store as a map

Objects are put, read and deleted under the keys of their knowledge base, document and atom.
The store is the map of these triples as long as no two stored triples lead to one file and no
path needs a directory where another one has its file.
-/
namespace Ragx

structure ObjectId where
  kbId : String
  docId : String
  atomId : String
deriving DecidableEq

def ObjectId.key (id : ObjectId) : String := keyFor id.kbId id.docId id.atomId

inductive ObjectEvent where
  | put (id : ObjectId) (data : Bytes)
  | delete (id : ObjectId)
  | get (id : ObjectId)

def ObjectEvent.id : ObjectEvent → ObjectId
  | .put id _ | .delete id | .get id => id

/-- The file system, and what the triples should hold. -/
structure HeldObjects where
  fs : FileSystem
  held : OrderedDict ObjectId Bytes

namespace FileSystem

theorem file?_touchDir (nodes : OrderedDict FilePath FileNode) (q p : FilePath) :
    (FileSystem.mk (touchDir nodes q)).file? p = (FileSystem.mk nodes).file? p := by
  unfold touchDir
  split_ifs with hq
  · rfl
  · obtain ⟨_, hnone⟩ := not_or.mp hq
    by_cases hp : p = []
    · simp [file?, node?, hp]
    · by_cases hqp : q = p
      · have hget : nodes.get? p = none := by simpa [← hqp] using hnone
        simp [file?, node?, hp, OrderedDict.get?_insert, hqp, hget]
      · simp [file?, node?, hp, OrderedDict.get?_insert, hqp]

/-- Making directories puts no file and removes none. -/
theorem file?_foldl_touchDir (nodes : OrderedDict FilePath FileNode) (paths : List FilePath)
    (p : FilePath) :
    (FileSystem.mk (paths.foldl touchDir nodes)).file? p = (FileSystem.mk nodes).file? p := by
  induction paths generalizing nodes with
  | nil => rfl
  | cons q paths ih => rw [List.foldl_cons, ih, file?_touchDir]

theorem ne_nil_of_not_isDir {fs : FileSystem} {path : FilePath} (h : ¬ fs.IsDir path) :
    path ≠ [] := by
  intro hnil
  exact h (if_pos hnil)

theorem file?_written {fs : FileSystem} {path : FilePath} (data : Bytes) (hpath : path ≠ [])
    (p : FilePath) :
    (LocalFSObjectStore.written path data fs).file? p =
      if path = p then some data else fs.file? p := by
  rw [LocalFSObjectStore.written]
  split_ifs with hp
  · subst hp
    simp [file?, node?, hpath, OrderedDict.get?_insert]
  · rw [← file?_foldl_touchDir fs.nodes path.dropLast.inits p]
    simp [file?, node?, OrderedDict.get?_insert, hp]

theorem file?_unlink {fs : FileSystem} {path : FilePath} (hdir : ¬ fs.IsDir path) :
    ∃ fs', fs.unlink path = .ok fs' ∧
      ∀ p, fs'.file? p = if path = p then none else fs.file? p := by
  have hpath := ne_nil_of_not_isDir hdir
  unfold unlink
  cases hnode : fs.node? path with
  | none =>
    refine ⟨fs, rfl, fun p => ?_⟩
    split_ifs with hp
    · simp [file?, ← hp, hnode]
    · rfl
  | some node =>
    cases node with
    | dir => exact absurd hnode hdir
    | file data =>
      refine ⟨_, rfl, fun p => ?_⟩
      have herase : (fs.nodes.erase path).get? p =
          if path = p then none else fs.nodes.get? p := by
        rw [OrderedDict.erase, OrderedDict.get?_filterKeys]
        by_cases hp : path = p
        · simp [hp]
        · simp [hp, Ne.symm hp]
      split_ifs with hp
      · subst hp
        have hgone : (fs.nodes.erase path).get? path = none := herase.trans (if_pos rfl)
        simp [file?, node?, hpath, hgone]
      · simp [file?, node?, herase, hp]

end FileSystem

namespace HeldObjects

variable (store : LocalFSObjectStore)

def path (id : ObjectId) : FilePath := store.target id.key

/-- A key that the check refuses is no part of a run. -/
def step (s : HeldObjects) (e : ObjectEvent) : Option HeldObjects :=
  if store.Accepts (path store e.id) then
    match e with
    | .put id data => some ⟨(store.put id.key data s.fs).1, s.held.insert id data⟩
    | .delete id => some ⟨(store.delete id.key s.fs).1, s.held.erase id⟩
    | .get _ => some s
  else none

/-- What was put last and not deleted since is what the store has. -/
def Readable (s : HeldObjects) : Prop :=
  ∀ id data, s.held.get? id = some data → store.get id.key s.fs = .ok (some data)

/-- What the caller is told is what the map says. -/
def Answers (s : HeldObjects) : ObjectEvent → Prop
  | .put id data => (store.put id.key data s.fs).2 = .ok id.key
  | .delete id => (store.delete id.key s.fs).2 = .ok ()
  | .get id => store.get id.key s.fs = .ok (s.held.get? id)

/-- The call does on the store what it does on the map. -/
def Faithful (s : HeldObjects) (e : ObjectEvent) (s' : HeldObjects) : Prop :=
  Answers store s e ∧ Readable store s'

/-- No file stands where a directory is needed for the object. -/
def Fits (fs : FileSystem) : ObjectEvent → Prop
  | .put id _ => ¬ fs.FileAbove (path store id).dropLast
  | .delete _ | .get _ => True

/-- No other stored triple leads to the same file, and the file system takes the path. -/
def Clear (s : HeldObjects) (e : ObjectEvent) (_ : HeldObjects) : Prop :=
  (∀ id ∈ s.held.keys, path store id = path store e.id → id = e.id) ∧
    ¬ s.fs.IsDir (path store e.id) ∧ Fits store s.fs e

instance (fs : FileSystem) : ∀ e : ObjectEvent, Decidable (Fits store fs e)
  | .put _ _ => inferInstanceAs (Decidable (¬ _))
  | .delete _ | .get _ => inferInstanceAs (Decidable True)

instance (s : HeldObjects) (e : ObjectEvent) (s' : HeldObjects) : Decidable (Clear store s e s') :=
  inferInstanceAs (Decidable (_ ∧ _ ∧ _))

/-- Every held triple has its file, and every file that a key can reach is held. -/
structure Stored (s : HeldObjects) : Prop where
  file : ∀ id data, s.held.get? id = some data →
    store.Accepts (path store id) ∧ s.fs.file? (path store id) = some data
  held : ∀ p data, store.Accepts p → s.fs.file? p = some data →
    ∃ id ∈ s.held.keys, path store id = p

variable {store} {s s' : HeldObjects}

theorem mem_held_keys {id : ObjectId} :
    id ∈ s.held.keys ↔ ∃ data, s.held.get? id = some data := by
  simp [OrderedDict.keys, ← OrderedDict.mem_entries]

theorem Stored.readable (hs : Stored store s) : Readable store s := by
  intro id data hget
  obtain ⟨ha, hfile⟩ := hs.file id data hget
  have hdir : ¬ s.fs.IsDir (path store id) := by
    intro hdir
    rw [FileSystem.IsDir] at hdir
    simp [FileSystem.file?, hdir] at hfile
  rw [LocalFSObjectStore.get_of_not_isDir ha hdir]
  exact congrArg Except.ok hfile

/-- Under a clear path stands the file of the triple itself, or none. -/
theorem Stored.file?_of_clear (hs : Stored store s) {id : ObjectId}
    (ha : store.Accepts (path store id))
    (hclear : ∀ id' ∈ s.held.keys, path store id' = path store id → id' = id) :
    s.fs.file? (path store id) = s.held.get? id := by
  cases hget : s.held.get? id with
  | some data => exact (hs.file id data hget).2
  | none =>
    rw [Option.eq_none_iff_forall_ne_some]
    intro data hfile
    obtain ⟨id', hmem, hpath⟩ := hs.held _ data ha hfile
    have hid := hclear id' hmem hpath
    subst hid
    obtain ⟨_, hsome⟩ := mem_held_keys.mp hmem
    simp [hget] at hsome

/-- Putting or removing one file moves the map at one triple. -/
theorem Stored.update (hs : Stored store s) (id : ObjectId) (value : Option Bytes)
    (ha : store.Accepts (path store id))
    (hclear : ∀ id' ∈ s.held.keys, path store id' = path store id → id' = id)
    (hheld : ∀ id', s'.held.get? id' = if id = id' then value else s.held.get? id')
    (hfiles : ∀ p, s'.fs.file? p = if path store id = p then value else s.fs.file? p) :
    Stored store s' := by
  constructor
  · intro id' data hget
    rw [hheld] at hget
    rw [hfiles]
    split_ifs at hget with hid
    · subst hid
      exact ⟨ha, (if_pos rfl).trans hget⟩
    · obtain ⟨ha', hfile⟩ := hs.file id' data hget
      have hne : path store id ≠ path store id' := fun h =>
        hid (hclear id' (mem_held_keys.mpr ⟨data, hget⟩) h.symm).symm
      exact ⟨ha', (if_neg hne).trans hfile⟩
  · intro p data hap hfile
    rw [hfiles] at hfile
    split_ifs at hfile with hp
    · exact ⟨id, mem_held_keys.mpr ⟨data, by rw [hheld, if_pos rfl, hfile]⟩, hp⟩
    · obtain ⟨id', hmem, hpath⟩ := hs.held p data hap hfile
      have hne : id ≠ id' := fun h => hp (h ▸ hpath)
      obtain ⟨data', hsome⟩ := mem_held_keys.mp hmem
      exact ⟨id', mem_held_keys.mpr ⟨data', by rw [hheld, if_neg hne, hsome]⟩, hpath⟩

theorem faithful_put {id : ObjectId} {data : Bytes} (hs : Stored store s)
    (hstep : step store s (.put id data) = some s') (hclear : Clear store s (.put id data) s') :
    Faithful store s (.put id data) s' ∧ Stored store s' := by
  unfold step at hstep
  split_ifs at hstep with ha
  obtain ⟨hpaths, hdir, hfits⟩ := hclear
  have hput : store.put id.key data s.fs =
      (LocalFSObjectStore.written (path store id) data s.fs, .ok id.key) :=
    LocalFSObjectStore.put_of_not_refused data ha (not_or.mpr ⟨hdir, hfits⟩)
  have hstored : Stored store s' := by
    refine hs.update id (some data) ha hpaths ?_ ?_
    · intro id'
      rw [← Option.some.inj hstep]
      exact OrderedDict.get?_insert s.held id id' data
    · intro p
      rw [← Option.some.inj hstep, hput]
      exact FileSystem.file?_written data (FileSystem.ne_nil_of_not_isDir hdir) p
  exact ⟨⟨congrArg Prod.snd hput, hstored.readable⟩, hstored⟩

theorem faithful_delete {id : ObjectId} (hs : Stored store s)
    (hstep : step store s (.delete id) = some s') (hclear : Clear store s (.delete id) s') :
    Faithful store s (.delete id) s' ∧ Stored store s' := by
  unfold step at hstep
  split_ifs at hstep with ha
  obtain ⟨hpaths, hdir, _⟩ := hclear
  obtain ⟨fs', hunlink, hfiles⟩ := FileSystem.file?_unlink hdir
  have hdelete : store.delete id.key s.fs = (fs', .ok ()) := by
    have hpath : store.path id.key = .ok (path store id) := LocalFSObjectStore.path_of_accepts ha
    simp only [ObjectEvent.id] at hunlink
    simp only [LocalFSObjectStore.delete, hpath, hunlink]
  have hstored : Stored store s' := by
    refine hs.update id none ha hpaths ?_ ?_
    · intro id'
      rw [← Option.some.inj hstep, OrderedDict.erase, OrderedDict.get?_filterKeys]
      by_cases hid : id = id'
      · simp [hid]
      · simp [hid, Ne.symm hid]
    · intro p
      rw [← Option.some.inj hstep, hdelete]
      exact hfiles p
  exact ⟨⟨congrArg Prod.snd hdelete, hstored.readable⟩, hstored⟩

theorem faithful_get {id : ObjectId} (hs : Stored store s)
    (hstep : step store s (.get id) = some s') (hclear : Clear store s (.get id) s') :
    Faithful store s (.get id) s' ∧ Stored store s' := by
  unfold step at hstep
  split_ifs at hstep with ha
  obtain ⟨hpaths, hdir, _⟩ := hclear
  have hget : store.get id.key s.fs = .ok (s.fs.file? (path store id)) :=
    LocalFSObjectStore.get_of_not_isDir ha hdir
  have hstored : Stored store s' := Option.some.inj hstep ▸ hs
  refine ⟨⟨?_, hstored.readable⟩, hstored⟩
  rw [Answers, hget]
  exact congrArg Except.ok (hs.file?_of_clear ha hpaths)

/-- No file stands where a key of the store can lead. -/
def Vacant (store : LocalFSObjectStore) (fs : FileSystem) : Prop :=
  ∀ p, store.Accepts p → fs.file? p = none

/-- A run in which every path is clear is a run of the map. -/
theorem run_faithful (store : LocalFSObjectStore) (fs : FileSystem) (es : List ObjectEvent)
    (hfs : Vacant store fs) (hclear : EveryStep (step store) (Clear store) ⟨fs, .empty⟩ es) :
    EveryStep (step store) (Faithful store) ⟨fs, .empty⟩ es := by
  have hempty : Stored store ⟨fs, .empty⟩ := by
    constructor
    · intro id data hget
      simp at hget
    · intro p data ha hfile
      simp [hfs p ha] at hfile
  refine EveryStep.of_invariant (fun s e s' hs hstep hclear => ?_) hempty hclear
  cases e with
  | put id data => exact faithful_put hs hstep hclear
  | delete id => exact faithful_delete hs hstep hclear
  | get id => exact faithful_get hs hstep hclear

theorem get_of_faithful {id : ObjectId}
    (h : EveryStep (step store) (Faithful store) s [.get id])
    (ha : store.Accepts (path store id)) :
    (store.get id.key s.fs).toOption = some (s.held.get? id) := by
  have hstep : step store s (.get id) = some s := if_pos ha
  have hanswer : store.get id.key s.fs = .ok (s.held.get? id) := ((everyStep_cons hstep).mp h).1.1
  rw [hanswer]
  rfl

section Clash

/-- The store of the examples below. -/
def objects : LocalFSObjectStore := .ofConfig [] (some "/data/objects") none

def spaced : ObjectId := ⟨"kb a", "d", "x"⟩

def underscored : ObjectId := ⟨"kb_a", "d", "x"⟩

theorem run_faithful_single :
    EveryStep (step objects) (Faithful objects) ⟨⟨.empty⟩, .empty⟩
      [.put spaced [1], .get spaced, .delete spaced, .get spaced] := by
  refine run_faithful objects ⟨.empty⟩ _ (fun p _ => ?_) (by decide)
  unfold FileSystem.file? FileSystem.node?
  split_ifs <;> rfl

/-- Two triples whose names differ in one unsafe character share a file. -/
def clash : List ObjectEvent := [.put spaced [1], .put underscored [2]]

theorem isSome_run_clash : (run (step objects) ⟨⟨.empty⟩, .empty⟩ clash).isSome := by decide

def clashed : HeldObjects := (run (step objects) ⟨⟨.empty⟩, .empty⟩ clash).get isSome_run_clash

theorem not_faithful_clash :
    ¬ EveryStep (step objects) (Faithful objects) ⟨⟨.empty⟩, .empty⟩
      (clash ++ [.get spaced]) := by
  intro h
  have hrun : run (step objects) ⟨⟨.empty⟩, .empty⟩ clash = some clashed :=
    (Option.some_get _).symm
  have hanswer := get_of_faithful (h.of_append hrun) (by decide)
  revert hanswer
  decide +kernel

end Clash

end HeldObjects

end Ragx
