import Ragx.ObjectKeys
import Ragx.ObjectMap
import Ragx.PathPrefixes
import Ragx.Sequencing

/-!
# The two object stores

The local store keeps objects in a directory tree, MinIO under flat keys. Putting, reading and
removing do the same on both. Listing does not: the local store reads the prefix as a directory
and MinIO as the beginning of a text, so a prefix that ends inside or at the end of a name finds
keys in MinIO that the local store does not list.
-/
namespace Ragx

def plainChar (c : Char) : Bool := c.isAlphanum || c == '_' || c == '-'

/-- An id of letters, digits, underscores and hyphens. -/
abbrev PlainName := { name : String // name ≠ "" ∧ name.toList.all plainChar = true }

structure PlainId where
  kbId : PlainName
  docId : PlainName
  atomId : PlainName

def PlainId.key (id : PlainId) : String := keyFor id.kbId.val id.docId.val id.atomId.val

/-- A text that some key begins with. -/
abbrev KeyPrefix := { keys : String // ∃ id : PlainId, keys.toList <+: id.key.toList }

inductive TwinCall where
  | put (id : PlainId) (data : Bytes)
  | get (id : PlainId)
  | delete (id : PlainId)
  | exists (id : PlainId)
  | listPrefix (keys : KeyPrefix)

/-- What a call returns. -/
inductive ObjectReply where
  | key (key : String)
  | data (data : Option Bytes)
  | done
  | found (found : Bool)
  | keys (keys : List String)
deriving DecidableEq

def LocalFSObjectStore.call (store : LocalFSObjectStore) (fs : FileSystem) :
    TwinCall → FileSystem × Except Exc ObjectReply
  | .put id data => ((store.put id.key data fs).1, (store.put id.key data fs).2.map .key)
  | .get id => (fs, (store.get id.key fs).map .data)
  | .delete id => ((store.delete id.key fs).1, (store.delete id.key fs).2.map fun _ => .done)
  | .exists id => (fs, (store.exists? id.key fs).map .found)
  | .listPrefix keys => (fs, (store.listPrefix keys.val fs).map .keys)

/-- The bucket: objects under flat keys. -/
structure MinIOObjectStore where
  objects : OrderedDict String Bytes

namespace MinIOObjectStore

variable (store : MinIOObjectStore)

def put (key : String) (data : Bytes) : MinIOObjectStore × String :=
  (⟨store.objects.insert key data⟩, key)

def get (key : String) : Option Bytes := store.objects.get? key

/-- A key that is not there is removed without an error. -/
def delete (key : String) : MinIOObjectStore := ⟨store.objects.erase key⟩

def exists? (key : String) : Bool := (store.objects.get? key).isSome

/-- The keys of all pages, sorted. -/
def listPrefix (keys : String) : List String :=
  (store.objects.keys.filter fun key => keys.toList.isPrefixOf key.toList).insertionSort (· ≤ ·)

def call : TwinCall → MinIOObjectStore × ObjectReply
  | .put id data => ((store.put id.key data).1, .key (store.put id.key data).2)
  | .get id => (store, .data (store.get id.key))
  | .delete id => (store.delete id.key, .done)
  | .exists id => (store, .found (store.exists? id.key))
  | .listPrefix keys => (store, .keys (store.listPrefix keys.val))

end MinIOObjectStore

/-! ## Plain ids as paths -/

theorem plainChar_keyChar {c : Char} (h : plainChar c = true) :
    LocalFSObjectStore.keyChar c = true := by
  simp only [plainChar, LocalFSObjectStore.keyChar, Bool.or_eq_true, beq_iff_eq,
    decide_eq_true_eq, List.mem_cons] at h ⊢
  tauto

namespace PlainName

variable (name : PlainName)

theorem plain {c : Char} (h : c ∈ name.val.toList) : plainChar c = true :=
  List.all_eq_true.mp name.property.2 c h

theorem slash_notMem : '/' ∉ name.val.toList := fun h => absurd (plain name h) (by decide)

theorem head_ne_dot (rest : List Char) : (name.val.toList ++ rest).head? ≠ some '.' := by
  have hne : name.val.toList ≠ [] := fun h => name.property.1 (String.toList_eq_nil_iff.mp h)
  obtain ⟨c, cs, hcs⟩ := List.exists_cons_of_ne_nil hne
  have hplain : plainChar c = true := plain name (hcs ▸ List.mem_cons_self)
  rw [hcs]
  intro h
  obtain rfl : c = '.' := by simpa using h
  exact absurd hplain (by decide)

theorem toList_ne_nil : name.val.toList ≠ [] := fun h =>
  name.property.1 (String.toList_eq_nil_iff.mp h)

end PlainName

namespace PlainId

variable (id : PlainId)

theorem toList_key : id.key.toList =
    id.kbId.val.toList ++ '/' :: (id.docId.val.toList ++
      '/' :: (id.atomId.val.toList ++ ".bin".toList)) := by
  simp [key, keyFor]

theorem keyChar_key {c : Char} (h : c ∈ id.key.toList) : LocalFSObjectStore.keyChar c = true := by
  have hplain (name : PlainName) (h : c ∈ name.val.toList) :
      LocalFSObjectStore.keyChar c = true := plainChar_keyChar (PlainName.plain name h)
  have hslash : LocalFSObjectStore.keyChar '/' = true := by decide
  have hbin : ".bin".toList.all LocalFSObjectStore.keyChar = true := by decide
  rw [toList_key] at h
  rcases List.mem_append.mp h with h | h
  · exact hplain id.kbId h
  rcases List.mem_cons.mp h with rfl | h
  · exact hslash
  rcases List.mem_append.mp h with h | h
  · exact hplain id.docId h
  rcases List.mem_cons.mp h with rfl | h
  · exact hslash
  rcases List.mem_append.mp h with h | h
  · exact hplain id.atomId h
  · exact List.all_eq_true.mp hbin c h

/-- The names of a key's path: three, and none of them begins with a dot. -/
theorem exists_names : ∃ kb doc atom : FileName,
    (PurePath.ofString id.key).parts = [kb, doc, atom] ∧ kb.val = id.kbId.val ∧
      doc.val = id.docId.val ∧ atom.val = id.atomId.val ++ ".bin" := by
  have hatom : '/' ∉ id.atomId.val.toList ++ ".bin".toList := by
    rw [List.mem_append, not_or]
    exact ⟨PlainName.slash_notMem id.atomId, by decide⟩
  obtain ⟨kb, hkb, hkbval⟩ := PurePath.name?_of_head (PlainName.toList_ne_nil id.kbId)
    (PlainName.slash_notMem id.kbId) (by simpa using PlainName.head_ne_dot id.kbId [])
  obtain ⟨doc, hdoc, hdocval⟩ := PurePath.name?_of_head (PlainName.toList_ne_nil id.docId)
    (PlainName.slash_notMem id.docId) (by simpa using PlainName.head_ne_dot id.docId [])
  obtain ⟨atom, hname, hatomval⟩ := PurePath.name?_of_head (by simp) hatom
    (PlainName.head_ne_dot id.atomId _)
  refine ⟨kb, doc, atom, ?_, String.toList_inj.mp hkbval, String.toList_inj.mp hdocval,
    String.toList_inj.mp (by simpa using hatomval)⟩
  have hkey : id.key = String.ofList id.key.toList := String.ofList_toList.symm
  rw [hkey, toList_key, PurePath.parts_append_slash (PlainName.slash_notMem id.kbId),
    PurePath.parts_append_slash (PlainName.slash_notMem id.docId), PurePath.parts_single hatom,
    hkb, hdoc, hname]
  rfl

def names : FilePath := (PurePath.ofString id.key).parts

theorem length_names : id.names.length = 3 := by
  obtain ⟨kb, doc, atom, hparts, _⟩ := id.exists_names
  rw [names, hparts]
  rfl

theorem chars_names : FilePath.chars id.names = '/' :: id.key.toList := by
  obtain ⟨kb, doc, atom, hparts, hkb, hdoc, hatom⟩ := id.exists_names
  rw [names, hparts, toList_key]
  simp [FilePath.chars, hkb, hdoc, hatom]

theorem undotted_names : Undotted id.names := by
  obtain ⟨kb, doc, atom, hparts, hkb, hdoc, hatom⟩ := id.exists_names
  rw [names, hparts]
  intro n hn
  simp only [List.mem_cons, List.not_mem_nil, or_false] at hn
  rcases hn with rfl | rfl | rfl
  · rw [hkb]
    simpa using PlainName.head_ne_dot id.kbId []
  · rw [hdoc]
    simpa using PlainName.head_ne_dot id.docId []
  · rw [hatom, String.toList_append]
    exact PlainName.head_ne_dot id.atomId _

theorem key_inj {id id' : PlainId} (h : id.names = id'.names) : id.key = id'.key := by
  have hchars := congrArg FilePath.chars h
  rw [chars_names, chars_names] at hchars
  exact String.toList_inj.mp (List.cons.inj hchars).2

/-- The text of the path below the root is the key. -/
theorem relativeTo_names (base : FilePath) : relativeTo base (base ++ id.names) = .ok id.key := by
  obtain ⟨kb, doc, atom, hparts, hkb, hdoc, hatom⟩ := id.exists_names
  rw [relativeTo, if_pos (List.prefix_append _ _), List.drop_left, names, hparts]
  simp only [List.cons_ne_nil, if_false, List.map_cons, List.map_nil, hkb, hdoc, hatom]
  refine congrArg Except.ok (String.toList_inj.mp ?_)
  simp [key, keyFor]

end PlainId

/-- The key begins with the prefix, and goes on with a slash if the prefix is not empty and does
not end with one. -/
def GoesOn (keys key : List Char) : Prop :=
  keys <+: key ∧ (EndsWhole keys ∨ keys ++ ['/'] <+: key)

/-! ## Where calls lead -/

namespace LocalFSObjectStore

theorem safeKey_of_keyChars {key : String} (h : ∀ c ∈ key.toList, keyChar c = true) :
    safeKey key = key := by
  have hmap : (key.toList.map fun c => if keyChar c then c else '_') = key.toList := by
    rw [List.map_congr_left fun c hc => if_pos (h c hc), List.map_id']
  rw [safeKey, hmap, String.ofList_toList]

variable (store : LocalFSObjectStore)

/-- A prefix of a key leads below the root, to where its names lead. -/
theorem target_keyPrefix (keys : KeyPrefix) :
    store.target keys.val = store.base ++ (PurePath.ofString keys.val).parts := by
  obtain ⟨keys, id, hkeys⟩ := keys
  have hslash : '/' :: keys.toList <+: FilePath.chars id.names := by
    rw [PlainId.chars_names, List.cons_prefix_cons]
    exact ⟨rfl, hkeys⟩
  have hparts := PurePath.parts_of_prefix id.undotted_names hslash
  rw [String.ofList_toList] at hparts
  rw [target, safeKey_of_keyChars fun c hc => id.keyChar_key (hkeys.subset hc)]
  refine PurePath.resolve_join ?_ hparts.1
  intro hhead
  -- a key does not begin with a slash
  obtain ⟨c, cs, hcs⟩ := List.exists_cons_of_ne_nil (PlainName.toList_ne_nil id.kbId)
  have hkb : c ∈ id.kbId.val.toList := hcs ▸ List.mem_cons_self
  obtain ⟨rest, hrest⟩ := hkeys
  have hfirst : id.key.toList.head? = some c := by
    rw [PlainId.toList_key, hcs]
    rfl
  rw [← hrest, List.head?_append, hhead] at hfirst
  obtain rfl : '/' = c := by simpa using hfirst
  exact PlainName.slash_notMem id.kbId hkb

theorem target_key (id : PlainId) : store.target id.key = store.base ++ id.names :=
  store.target_keyPrefix ⟨id.key, id, List.prefix_refl _⟩

theorem accepts_key (id : PlainId) : store.Accepts (store.target id.key) := by
  rw [target_key]
  refine accepts_iff.mpr (Or.inl ⟨List.prefix_append _ _, ?_⟩)
  intro h
  have hlength := congrArg List.length h
  rw [List.length_append, id.length_names] at hlength
  omega

/-- The text of a path below the root. -/
def nameBelow (p : FilePath) : String :=
  String.ofList (FilePath.chars (p.drop store.base.length)).tail

theorem nameBelow_names (id : PlainId) : store.nameBelow (store.base ++ id.names) = id.key := by
  rw [nameBelow, List.drop_left, PlainId.chars_names, List.tail_cons, String.ofList_toList]

theorem strictlyBelow_target_iff (keys : KeyPrefix) (id : PlainId) :
    FilePath.StrictlyBelow (store.target keys.val) (store.base ++ id.names) ↔
      GoesOn keys.val.toList id.key.toList := by
  rw [store.target_keyPrefix keys]
  obtain ⟨text, owner, htext⟩ := keys
  have hslash : '/' :: text.toList <+: FilePath.chars owner.names := by
    rw [PlainId.chars_names, List.cons_prefix_cons]
    exact ⟨rfl, htext⟩
  rw [GoesOn, ← PurePath.strictlyBelow_parts_iff owner.undotted_names hslash id.chars_names,
    String.ofList_toList]
  simp only [FilePath.StrictlyBelow, List.prefix_append_right_inj, ne_eq,
    List.append_cancel_left_eq]

end LocalFSObjectStore

namespace FileSystem

/-- Making directories makes those that are not there. -/
theorem isDir_foldl_touchDir {nodes : OrderedDict FilePath FileNode} {paths : List FilePath}
    {q : FilePath} : FileSystem.IsDir ⟨paths.foldl touchDir nodes⟩ q ↔
      FileSystem.IsDir ⟨nodes⟩ q ∨ q ∈ paths ∧ (FileSystem.mk nodes).file? q = none := by
  induction paths generalizing nodes with
  | nil => simp
  | cons path paths ih =>
    have hdir : FileSystem.IsDir ⟨touchDir nodes path⟩ q ↔ FileSystem.IsDir ⟨nodes⟩ q ∨
        q = path ∧ (FileSystem.mk nodes).file? q = none := by
      unfold touchDir
      split_ifs with hthere
      · refine ⟨Or.inl, ?_⟩
        rintro (h | ⟨rfl, hfile⟩)
        · exact h
        · rcases hthere with rfl | hsome
          · exact if_pos rfl
          · obtain ⟨node, hnode⟩ := Option.isSome_iff_exists.mp hsome
            unfold IsDir file? node? at *
            split_ifs at * with hnil
            · rfl
            · cases node with
              | dir => exact hnode
              | file data => simp [hnode] at hfile
      · obtain ⟨hnil, hnone⟩ := not_or.mp hthere
        rw [Option.not_isSome_iff_eq_none] at hnone
        by_cases hq : path = q
        · subst hq
          simp [IsDir, file?, node?, hnil, hnone, OrderedDict.get?_insert]
        · simp [IsDir, node?, hq, Ne.symm hq, OrderedDict.get?_insert]
    rw [List.foldl_cons, ih, hdir, file?_touchDir, List.mem_cons]
    tauto

theorem isDir_written {fs : FileSystem} {path : FilePath} {data : Bytes} (hpath : path ≠ [])
    {q : FilePath} : (LocalFSObjectStore.written path data fs).IsDir q ↔
      q ≠ path ∧ (fs.IsDir q ∨ q <+: path.dropLast ∧ fs.file? q = none) := by
  rw [← List.mem_inits, ← isDir_foldl_touchDir]
  by_cases hq : path = q
  · subst hq
    simp [LocalFSObjectStore.written, IsDir, node?, hpath, OrderedDict.get?_insert]
  · simp [LocalFSObjectStore.written, IsDir, node?, hq, Ne.symm hq, OrderedDict.get?_insert]

/-- Removing a file leaves the directories. -/
theorem isDir_of_unlink {fs fs' : FileSystem} {path : FilePath} (h : fs.unlink path = .ok fs')
    {q : FilePath} : fs'.IsDir q ↔ fs.IsDir q := by
  unfold unlink at h
  cases hnode : fs.node? path with
  | none =>
    simp only [hnode, Except.ok.injEq] at h
    rw [h]
  | some node =>
    cases node with
    | dir => simp [hnode] at h
    | file data =>
      simp only [hnode, Except.ok.injEq] at h
      have hpath : path ≠ [] := by
        rintro rfl
        simp [node?] at hnode
      rw [node?, if_neg hpath] at hnode
      rw [← h]
      by_cases hq : path = q
      · subst hq
        simp [IsDir, node?, hpath, hnode, OrderedDict.erase, OrderedDict.get?_filterKeys]
      · simp [IsDir, node?, OrderedDict.erase, OrderedDict.get?_filterKeys, Ne.symm hq]

end FileSystem

/-! ## Runs on both stores -/

/-- The two stores, called alike. -/
structure ObjectTwins where
  fs : FileSystem
  minio : MinIOObjectStore

namespace ObjectTwins

variable (store : LocalFSObjectStore)

def step (s : ObjectTwins) (call : TwinCall) : Option ObjectTwins :=
  some ⟨(store.call s.fs call).1, (s.minio.call call).1⟩

/-- Both stores return the same. -/
def Agree (s : ObjectTwins) (call : TwinCall) (_ : ObjectTwins) : Prop :=
  (store.call s.fs call).2 = .ok (s.minio.call call).2

/-- A key that begins with a listed prefix goes on with a slash, if the prefix is not empty and
does not end with one. -/
def ListsWhole (s : ObjectTwins) (call : TwinCall) (_ : ObjectTwins) : Prop :=
  match call with
  | .listPrefix keys =>
    ∀ key ∈ s.minio.objects.keys, keys.val.toList <+: key.toList →
      EndsWhole keys.val.toList ∨ keys.val.toList ++ ['/'] <+: key.toList
  | _ => True

instance (s : ObjectTwins) : ∀ (call : TwinCall) (s' : ObjectTwins),
    Decidable (ListsWhole s call s')
  | .listPrefix keys, _ =>
    inferInstanceAs (Decidable (∀ key ∈ s.minio.objects.keys, keys.val.toList <+: key.toList →
      EndsWhole keys.val.toList ∨ keys.val.toList ++ ['/'] <+: key.toList))
  | .put _ _, _ | .get _, _ | .delete _, _ | .exists _, _ => inferInstanceAs (Decidable True)

/-- Nothing stands below the root yet, and no file in its way. -/
structure Fresh (fs : FileSystem) : Prop where
  above : ∀ p, p <+: store.base → fs.file? p = none
  below : ∀ p, FilePath.StrictlyBelow store.base p → fs.node? p = none

/-- The files below the root are the objects of the bucket, each in a directory that is there. -/
structure Mirrors (s : ObjectTwins) : Prop where
  above : ∀ p, p <+: store.base → s.fs.file? p = none
  file : ∀ id : PlainId, s.fs.file? (store.base ++ id.names) = s.minio.objects.get? id.key
  named : ∀ p, FilePath.StrictlyBelow store.base p → (s.fs.file? p).isSome = true →
    ∃ id : PlainId, p = store.base ++ id.names
  key : ∀ key data, s.minio.objects.get? key = some data → ∃ id : PlainId, id.key = key
  parents : ∀ id : PlainId, (s.fs.file? (store.base ++ id.names)).isSome = true →
    ∀ q, q <+: (store.base ++ id.names).dropLast → s.fs.IsDir q
  shallow : ∀ p, store.base <+: p → s.fs.IsDir p → p.length < store.base.length + 3

variable {store} {s s' : ObjectTwins}

theorem length_path (id : PlainId) :
    (store.base ++ id.names).length = store.base.length + 3 := by
  rw [List.length_append, id.length_names]

theorem path_inj_iff {id id' : PlainId} :
    store.base ++ id.names = store.base ++ id'.names ↔ id.key = id'.key := by
  rw [List.append_cancel_left_eq]
  exact ⟨PlainId.key_inj, fun h => congrArg (fun key => (PurePath.ofString key).parts) h⟩

theorem mirrors_fresh {fs : FileSystem} (h : Fresh store fs) :
    Mirrors store ⟨fs, ⟨.empty⟩⟩ := by
  have hnone (p : FilePath) (hp : FilePath.StrictlyBelow store.base p) : fs.file? p = none := by
    simp [FileSystem.file?, h.below p hp]
  have hbelow (id : PlainId) : FilePath.StrictlyBelow store.base (store.base ++ id.names) := by
    refine ⟨List.prefix_append _ _, fun heq => ?_⟩
    have hlength := congrArg List.length heq
    rw [length_path] at hlength
    omega
  constructor
  · exact h.above
  · exact fun id => hnone _ (hbelow id)
  · intro p hp hfile
    simp [hnone p hp] at hfile
  · intro key data hget
    simp at hget
  · intro id hfile
    simp [hnone _ (hbelow id)] at hfile
  · intro p hp hdir
    by_cases hbase : p = store.base
    · rw [hbase]
      omega
    · have hgone := h.below p ⟨hp, hbase⟩
      rw [FileSystem.IsDir, hgone] at hdir
      cases hdir

namespace Mirrors

variable (hs : Mirrors store s)

include hs

theorem not_isDir (id : PlainId) : ¬ s.fs.IsDir (store.base ++ id.names) := by
  intro hdir
  have hlength := hs.shallow _ (List.prefix_append _ _) hdir
  rw [length_path] at hlength
  omega

theorem not_fileAbove (id : PlainId) : ¬ s.fs.FileAbove (store.base ++ id.names).dropLast := by
  rintro ⟨p, hp, hfile⟩
  have hprefix := (List.mem_inits _ _).mp hp
  have hlength := hprefix.length_le
  rw [List.length_dropLast, length_path] at hlength
  have hpath : p <+: store.base ++ id.names := hprefix.trans (List.dropLast_prefix _)
  rcases List.prefix_or_prefix_of_prefix hpath (List.prefix_append _ _) with habove | hbelow
  · simp [hs.above p habove] at hfile
  · by_cases hbase : p = store.base
    · simp [hs.above p (hbase ▸ List.prefix_refl _)] at hfile
    · obtain ⟨id', rfl⟩ := hs.named p ⟨hbelow, hbase⟩ hfile
      rw [length_path] at hlength
      omega

/-- One file and one object are set or removed. -/
theorem update (id : PlainId) (value : Option Bytes)
    (hfiles : ∀ p, s'.fs.file? p =
      if store.base ++ id.names = p then value else s.fs.file? p)
    (hobjects : ∀ key, s'.minio.objects.get? key =
      if id.key = key then value else s.minio.objects.get? key)
    (hkept : ∀ q, s.fs.IsDir q → q ≠ store.base ++ id.names → s'.fs.IsDir q)
    (hmade : ∀ q, s'.fs.IsDir q → s.fs.IsDir q ∨ q <+: (store.base ++ id.names).dropLast)
    (hparents : value.isSome = true → ∀ q, q <+: (store.base ++ id.names).dropLast →
      s'.fs.IsDir q) : Mirrors store s' := by
  have hshort (id' : PlainId) {q : FilePath} (hq : q <+: (store.base ++ id'.names).dropLast) :
      q.length < store.base.length + 3 := by
    have hle := hq.length_le
    rw [List.length_dropLast, length_path] at hle
    omega
  constructor
  · intro p hp
    rw [hfiles, if_neg, hs.above p hp]
    rintro rfl
    have hle := hp.length_le
    rw [length_path] at hle
    omega
  · intro id'
    rw [hfiles, hobjects, hs.file]
    exact if_congr path_inj_iff rfl rfl
  · intro p hp hfile
    rw [hfiles] at hfile
    split_ifs at hfile with hpath
    · exact ⟨id, hpath.symm⟩
    · exact hs.named p hp hfile
  · intro key data hget
    rw [hobjects] at hget
    split_ifs at hget with hkey
    · exact ⟨id, hkey⟩
    · exact hs.key key data hget
  · intro id' hfile q hq
    rw [hfiles] at hfile
    split_ifs at hfile with hpath
    · exact hparents hfile q (hpath ▸ hq)
    · refine hkept q (hs.parents id' hfile q hq) ?_
      rintro rfl
      have hlt := hshort id' hq
      rw [length_path] at hlt
      omega
  · intro p hp hdir
    rcases hmade p hdir with hold | hnew
    · exact hs.shallow p hp hold
    · exact hshort id hnew

theorem put (id : PlainId) (data : Bytes) :
    Agree store s (.put id data) s' ∧
      (step store s (.put id data) = some s' → Mirrors store s') := by
  have hpath : store.base ++ id.names ≠ [] := FileSystem.ne_nil_of_not_isDir (hs.not_isDir id)
  have hput : store.put id.key data s.fs =
      (LocalFSObjectStore.written (store.base ++ id.names) data s.fs, .ok id.key) := by
    rw [← store.target_key]
    refine LocalFSObjectStore.put_of_not_refused data (store.accepts_key id) ?_
    rw [store.target_key]
    exact not_or.mpr ⟨hs.not_isDir id, hs.not_fileAbove id⟩
  refine ⟨?_, fun hstep => ?_⟩
  · rw [Agree, LocalFSObjectStore.call, hput]
    rfl
  · have hfs : s'.fs = LocalFSObjectStore.written (store.base ++ id.names) data s.fs := by
      rw [← Option.some.inj hstep, LocalFSObjectStore.call, hput]
    have hobjects : s'.minio.objects = s.minio.objects.insert id.key data := by
      rw [← Option.some.inj hstep]
      rfl
    refine hs.update id (some data) ?_ ?_ ?_ ?_ ?_
    · intro p
      rw [hfs]
      exact FileSystem.file?_written data hpath p
    · intro key
      rw [hobjects, OrderedDict.get?_insert]
    · intro q hdir hne
      rw [hfs, FileSystem.isDir_written hpath]
      exact ⟨hne, Or.inl hdir⟩
    · intro q hdir
      rw [hfs, FileSystem.isDir_written hpath] at hdir
      exact hdir.2.imp_right And.left
    · intro _ q hq
      have hnone : s.fs.file? q = none := by
        rw [← Option.not_isSome_iff_eq_none]
        exact fun hfile => hs.not_fileAbove id ⟨q, (List.mem_inits _ _).mpr hq, hfile⟩
      rw [hfs, FileSystem.isDir_written hpath]
      refine ⟨?_, Or.inr ⟨hq, hnone⟩⟩
      rintro rfl
      have hle := hq.length_le
      rw [List.length_dropLast, length_path] at hle
      omega

theorem delete (id : PlainId) :
    Agree store s (.delete id) s' ∧
      (step store s (.delete id) = some s' → Mirrors store s') := by
  obtain ⟨fs', hunlink, hfiles⟩ := FileSystem.file?_unlink (hs.not_isDir id)
  have hdelete : store.delete id.key s.fs = (fs', .ok ()) := by
    rw [LocalFSObjectStore.delete, LocalFSObjectStore.path_of_accepts (store.accepts_key id),
      store.target_key]
    simp only [hunlink]
  refine ⟨?_, fun hstep => ?_⟩
  · rw [Agree, LocalFSObjectStore.call, hdelete]
    rfl
  · have hfs : s'.fs = fs' := by
      rw [← Option.some.inj hstep, LocalFSObjectStore.call, hdelete]
    have hobjects : s'.minio.objects = s.minio.objects.erase id.key := by
      rw [← Option.some.inj hstep]
      rfl
    refine hs.update id none ?_ ?_ ?_ ?_ ?_
    · intro p
      rw [hfs]
      exact hfiles p
    · intro key
      rw [hobjects, OrderedDict.erase, OrderedDict.get?_filterKeys]
      by_cases hkey : id.key = key
      · simp [hkey]
      · simp [hkey, Ne.symm hkey]
    · intro q hdir _
      rw [hfs]
      exact (FileSystem.isDir_of_unlink hunlink).mpr hdir
    · intro q hdir
      rw [hfs] at hdir
      exact Or.inl ((FileSystem.isDir_of_unlink hunlink).mp hdir)
    · intro h
      cases h

theorem get_eq (id : PlainId) : store.get id.key s.fs = .ok (s.minio.get id.key) := by
  have hdir : ¬ s.fs.IsDir (store.target id.key) := by
    rw [store.target_key]
    exact hs.not_isDir id
  rw [LocalFSObjectStore.get_of_not_isDir (store.accepts_key id) hdir, store.target_key, hs.file]
  rfl

theorem exists_eq (id : PlainId) : store.exists? id.key s.fs = .ok (s.minio.exists? id.key) := by
  rw [LocalFSObjectStore.exists?, hs.get_eq]
  rfl

/-- The files below a listed directory are objects. -/
theorem named_filesUnder (keys : KeyPrefix) {p : FilePath}
    (hp : p ∈ s.fs.filesUnder (store.target keys.val)) :
    ∃ id : PlainId, p = store.base ++ id.names := by
  obtain ⟨hfile, hstrict⟩ := ObjectCall.mem_filesUnder.mp hp
  have hroot : store.base <+: p := by
    rw [store.target_keyPrefix keys] at hstrict
    exact (List.prefix_append _ _).trans hstrict.1
  refine hs.named p ⟨hroot, ?_⟩ hfile
  intro hbase
  rw [hbase, hs.above store.base (List.prefix_refl _)] at hfile
  cases hfile

/-- Without the directory there is no file below it. -/
theorem filesUnder_of_none (keys : KeyPrefix) (h : s.fs.node? (store.target keys.val) = none) :
    s.fs.filesUnder (store.target keys.val) = [] := by
  refine List.eq_nil_iff_forall_not_mem.mpr fun p hp => ?_
  obtain ⟨id, rfl⟩ := hs.named_filesUnder keys hp
  obtain ⟨hfile, hstrict⟩ := ObjectCall.mem_filesUnder.mp hp
  have hdir := hs.parents id hfile _ (FilePath.prefix_dropLast_of_strictlyBelow hstrict)
  rw [FileSystem.IsDir, h] at hdir
  cases hdir

/-- The keys that the local store finds are those that go on behind the prefix. -/
theorem mem_names_iff (keys : KeyPrefix) (key : String) :
    key ∈ (s.fs.filesUnder (store.target keys.val)).map store.nameBelow ↔
      key ∈ s.minio.objects.keys ∧ GoesOn keys.val.toList key.toList := by
  have hheld : key ∈ s.minio.objects.keys ↔ ∃ data, s.minio.objects.get? key = some data := by
    simp [OrderedDict.keys, ← OrderedDict.mem_entries]
  rw [List.mem_map, hheld]
  constructor
  · rintro ⟨p, hp, rfl⟩
    obtain ⟨id, rfl⟩ := hs.named_filesUnder keys hp
    obtain ⟨hfile, hstrict⟩ := ObjectCall.mem_filesUnder.mp hp
    rw [hs.file] at hfile
    rw [store.nameBelow_names]
    exact ⟨Option.isSome_iff_exists.mp hfile, (store.strictlyBelow_target_iff keys id).mp hstrict⟩
  · rintro ⟨⟨data, hget⟩, hgoes⟩
    obtain ⟨id, rfl⟩ := hs.key key data hget
    refine ⟨store.base ++ id.names, ObjectCall.mem_filesUnder.mpr ⟨?_, ?_⟩,
      store.nameBelow_names id⟩
    · rw [hs.file, hget]
      rfl
    · exact (store.strictlyBelow_target_iff keys id).mpr hgoes

/-- What the local store lists: sorted, each key once. -/
theorem listPrefix_eq (keys : KeyPrefix) : ∃ names, store.listPrefix keys.val s.fs = .ok names ∧
    names.Pairwise (· ≤ ·) ∧ names.Nodup ∧ ∀ key, key ∈ names ↔
      key ∈ s.minio.objects.keys ∧ GoesOn keys.val.toList key.toList := by
  let names := (s.fs.filesUnder (store.target keys.val)).map store.nameBelow
  have hmapM : (s.fs.filesUnder (store.target keys.val)).mapM (relativeTo store.base) =
      .ok names := by
    refine mapM_eq_ok_map fun p hp => ?_
    obtain ⟨id, rfl⟩ := hs.named_filesUnder keys hp
    rw [PlainId.relativeTo_names, store.nameBelow_names]
  have hnodup : names.Nodup := by
    refine List.Nodup.map_on ?_ ((List.filter_sublist.map Prod.fst).nodup s.fs.nodes.nodup)
    intro p hp q hq h
    obtain ⟨id, rfl⟩ := hs.named_filesUnder keys hp
    obtain ⟨id', rfl⟩ := hs.named_filesUnder keys hq
    rw [store.nameBelow_names, store.nameBelow_names] at h
    exact path_inj_iff.mpr h
  have hperm := names.perm_insertionSort (· ≤ ·)
  refine ⟨names.insertionSort (· ≤ ·), ?_, names.pairwise_insertionSort (· ≤ ·),
    hperm.symm.nodup hnodup, fun key => hperm.mem_iff.trans (hs.mem_names_iff keys key)⟩
  show (if (s.fs.node? (store.target keys.val)).isSome = true then _ else _) = _
  split_ifs with hthere
  · rw [hmapM]
    rfl
  · have hnil := hs.filesUnder_of_none keys (Option.not_isSome_iff_eq_none.mp hthere)
    simp [names, hnil]

theorem agree_listPrefix_iff (keys : KeyPrefix) :
    Agree store s (.listPrefix keys) s' ↔ ListsWhole s (.listPrefix keys) s' := by
  obtain ⟨names, hnames, hsorted, hnodup, hmem⟩ := hs.listPrefix_eq keys
  have hminio (key : String) : key ∈ s.minio.listPrefix keys.val ↔
      key ∈ s.minio.objects.keys ∧ keys.val.toList <+: key.toList := by
    rw [MinIOObjectStore.listPrefix, List.mem_insertionSort, List.mem_filter,
      List.isPrefixOf_iff_prefix]
  have hagree : Agree store s (.listPrefix keys) s' ↔ names = s.minio.listPrefix keys.val := by
    simp only [Agree, LocalFSObjectStore.call, MinIOObjectStore.call, hnames, Except.map,
      Except.ok.injEq, ObjectReply.keys.injEq]
  rw [hagree]
  constructor
  · intro heq key hkey hprefix
    exact ((hmem key).mp (heq ▸ (hminio key).mpr ⟨hkey, hprefix⟩)).2.2
  · intro hwhole
    have hperm : names.Perm (s.minio.listPrefix keys.val) := by
      have hkept := s.minio.objects.nodup.filter fun key =>
        keys.val.toList.isPrefixOf key.toList
      have hsort := (s.minio.objects.keys.filter fun key =>
        keys.val.toList.isPrefixOf key.toList).perm_insertionSort (· ≤ ·)
      refine (List.perm_ext_iff_of_nodup hnodup (hsort.symm.nodup hkept)).mpr fun key => ?_
      rw [hmem key]
      refine Iff.trans ?_ (hminio key).symm
      exact ⟨fun h => ⟨h.1, h.2.1⟩, fun h => ⟨h.1, h.2, hwhole key h.1 h.2⟩⟩
    exact hperm.eq_of_pairwise' hsorted (List.pairwise_insertionSort _ _)

end Mirrors

/-- Over any calls with plain ids, both stores return the same exactly if no listed prefix stops
inside or at the end of a name of an object. -/
theorem interchangeable_iff (store : LocalFSObjectStore) (fs : FileSystem)
    (hfresh : Fresh store fs) (calls : List TwinCall) :
    EveryStep (step store) (Agree store) ⟨fs, ⟨.empty⟩⟩ calls ↔
      EveryStep (step store) ListsWhole ⟨fs, ⟨.empty⟩⟩ calls := by
  refine everyStep_congr (I := Mirrors store) (fun s call s' hs hstep => ?_)
    (mirrors_fresh hfresh)
  cases call with
  | put id data =>
    obtain ⟨hagree, hnext⟩ : Agree store s (.put id data) s' ∧ _ := hs.put id data
    exact ⟨iff_of_true hagree trivial, fun _ => hnext hstep⟩
  | delete id =>
    obtain ⟨hagree, hnext⟩ : Agree store s (.delete id) s' ∧ _ := hs.delete id
    exact ⟨iff_of_true hagree trivial, fun _ => hnext hstep⟩
  | get id =>
    refine ⟨iff_of_true ?_ trivial, fun _ => Option.some.inj hstep ▸ hs⟩
    rw [Agree, LocalFSObjectStore.call, hs.get_eq]
    rfl
  | «exists» id =>
    refine ⟨iff_of_true ?_ trivial, fun _ => Option.some.inj hstep ▸ hs⟩
    rw [Agree, LocalFSObjectStore.call, hs.exists_eq]
    rfl
  | listPrefix keys =>
    exact ⟨hs.agree_listPrefix_iff keys, fun _ => Option.some.inj hstep ▸ hs⟩

section Sample

open HeldObjects (objects)

def imageId : PlainId where
  kbId := ⟨"kb", by decide⟩
  docId := ⟨"d-1", by decide⟩
  atomId := ⟨"x_1", by decide⟩

theorem fresh_objects : Fresh objects ⟨.empty⟩ := by
  constructor
  · intro p _
    unfold FileSystem.file? FileSystem.node?
    split_ifs <;> rfl
  · rintro p ⟨hbelow, hne⟩
    refine if_neg ?_
    rintro rfl
    exact hne (List.prefix_nil.mp hbelow).symm

/-- A prefix that ends with its slash, before and behind a removal. -/
def wholePrefixes : List TwinCall :=
  [.put imageId [1], .listPrefix ⟨"kb/", imageId, by decide⟩, .get imageId, .delete imageId,
    .exists imageId, .listPrefix ⟨"kb", imageId, by decide⟩]

theorem interchangeable_wholePrefixes :
    EveryStep (step objects) (Agree objects) ⟨⟨.empty⟩, ⟨.empty⟩⟩ wholePrefixes :=
  (interchangeable_iff objects ⟨.empty⟩ fresh_objects wholePrefixes).mpr (by decide +kernel)

/-- The prefix stops inside a name. -/
def cutPrefix : KeyPrefix := ⟨"kb/d", imageId, by decide⟩

theorem not_interchangeable_cutPrefix :
    ¬ EveryStep (step objects) (Agree objects) ⟨⟨.empty⟩, ⟨.empty⟩⟩
      [.put imageId [1], .listPrefix cutPrefix] := by
  intro h
  have hlisted := congrArg Except.toOption h.2.1
  revert hlisted
  decide +kernel

end Sample

end ObjectTwins

end Ragx
