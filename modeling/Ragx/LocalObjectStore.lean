import Mathlib.Data.List.Sort
import Ragx.FilePaths
import Ragx.Models

/-!
# The local object store

Objects are files under a root directory. A key is made safe character by character, joined to
the root and resolved, and the call is refused when the text of the result does not begin with
the text of the resolved root. Listing resolves its prefix in the same way but checks nothing.
-/
namespace Ragx

abbrev Bytes := List UInt8

inductive FileNode where
  | file (data : Bytes)
  | dir
deriving DecidableEq

inductive OSError where
  | isADirectory (path : FilePath)
  | notADirectory (path : FilePath)
  | fileExists (path : FilePath)

def OSError.text : OSError → String
  | .isADirectory path => "[Errno 21] Is a directory: '" ++ FilePath.text path ++ "'"
  | .notADirectory path => "[Errno 20] Not a directory: '" ++ FilePath.text path ++ "'"
  | .fileExists path => "[Errno 17] File exists: '" ++ FilePath.text path ++ "'"

/-- The files and directories below the top, which is always there. -/
structure FileSystem where
  nodes : OrderedDict FilePath FileNode

namespace FileSystem

def node? (fs : FileSystem) (path : FilePath) : Option FileNode :=
  if path = [] then some .dir else fs.nodes.get? path

def IsDir (fs : FileSystem) (path : FilePath) : Prop := fs.node? path = some .dir

instance (fs : FileSystem) (path : FilePath) : Decidable (fs.IsDir path) :=
  inferInstanceAs (Decidable (_ = _))

def file? (fs : FileSystem) (path : FilePath) : Option Bytes :=
  match fs.node? path with
  | some (.file data) => some data
  | _ => none

/-- A file stands where the path needs a directory. -/
def FileAbove (fs : FileSystem) (path : FilePath) : Prop :=
  ∃ p ∈ path.inits, (fs.file? p).isSome = true

instance (fs : FileSystem) (path : FilePath) : Decidable (fs.FileAbove path) :=
  inferInstanceAs (Decidable (∃ p ∈ path.inits, (fs.file? p).isSome = true))

def touchDir (nodes : OrderedDict FilePath FileNode) (path : FilePath) :
    OrderedDict FilePath FileNode :=
  if path = [] ∨ (nodes.get? path).isSome then nodes else nodes.insert path .dir

/-- `path.mkdir(parents=True, exist_ok=True)`. -/
def mkdir (path : FilePath) (fs : FileSystem) : Except OSError FileSystem :=
  if (fs.file? path).isSome then .error (.fileExists path)
  else if fs.FileAbove path then .error (.notADirectory path)
  else .ok ⟨path.inits.foldl touchDir fs.nodes⟩

def writeBytes (path : FilePath) (data : Bytes) (fs : FileSystem) : Except OSError FileSystem :=
  if fs.IsDir path then .error (.isADirectory path)
  else .ok ⟨fs.nodes.insert path (.file data)⟩

/-- `path.read_bytes() if path.exists() else None`. -/
def readBytes (path : FilePath) (fs : FileSystem) : Except OSError (Option Bytes) :=
  match fs.node? path with
  | none => .ok none
  | some (.file data) => .ok (some data)
  | some .dir => .error (.isADirectory path)

/-- `if path.exists(): path.unlink()`. -/
def unlink (path : FilePath) (fs : FileSystem) : Except OSError FileSystem :=
  match fs.node? path with
  | none => .ok fs
  | some (.file _) => .ok ⟨fs.nodes.erase path⟩
  | some .dir => .error (.isADirectory path)

/-- The files that `base.rglob("*")` finds. -/
def filesUnder (base : FilePath) (fs : FileSystem) : List FilePath :=
  (fs.nodes.entries.filter fun e =>
    decide (FilePath.StrictlyBelow base e.1) && e.2 != FileNode.dir).map Prod.fst

end FileSystem

/-- `path.relative_to(root).as_posix()`. -/
def relativeTo (root path : FilePath) : Except Exc String :=
  if root <+: path then
    let names := path.drop root.length
    .ok (if names = [] then "." else "/".intercalate (names.map (·.val)))
  else .error (.foreign ("'" ++ FilePath.text path ++ "' is not in the subpath of '" ++
    FilePath.text root ++ "'"))

/-- Stable object key shared by all object stores. -/
def keyFor (kbId docId atomId : String) : String := kbId ++ "/" ++ docId ++ "/" ++ atomId ++ ".bin"

/-- The store's root as it was configured, seen from the working directory. -/
structure LocalFSObjectStore where
  cwd : FilePath
  root : PurePath

namespace LocalFSObjectStore

/-- The `root` of the configuration, or its `path`, or the default. -/
def ofConfig (cwd : FilePath) (root path : Option String) : LocalFSObjectStore where
  cwd := cwd
  root := PurePath.ofString <|
    ((root.filter (· ≠ "")).orElse fun _ => path.filter (· ≠ "")).getD "./data/objects"

def base (store : LocalFSObjectStore) : FilePath := store.root.resolve store.cwd

def keyChar (c : Char) : Bool := c.isAlphanum || c ∈ ['_', '.', '/', '#', '-']

def safeKey (key : String) : String :=
  String.ofList (key.toList.map fun c => if keyChar c then c else '_')

/-- Where a key leads. -/
def target (store : LocalFSObjectStore) (key : String) : FilePath :=
  (store.root.join (PurePath.ofString (safeKey key))).resolve store.cwd

/-- The check that the text of a path begins with the text of the root. -/
def Accepts (store : LocalFSObjectStore) (path : FilePath) : Prop :=
  (FilePath.text store.base).toList <+: (FilePath.text path).toList

instance (store : LocalFSObjectStore) (path : FilePath) : Decidable (store.Accepts path) :=
  inferInstanceAs (Decidable (_ <+: _))

def storeUnavailable (message : String) (details : List (String × Json)) : Exc where
  cls := .storeUnavailable
  code := 9001
  message := message
  details := details

def osFailure (message key : String) (e : OSError) : Exc :=
  storeUnavailable message [("key", .str key), ("error", .str e.text)]

def path (store : LocalFSObjectStore) (key : String) : Except Exc FilePath :=
  if store.Accepts (store.target key) then .ok (store.target key)
  else .error (storeUnavailable "object key escapes the object store root" [("key", .str key)])

def put (store : LocalFSObjectStore) (key : String) (data : Bytes) (fs : FileSystem) :
    FileSystem × Except Exc String :=
  match store.path key with
  | .error e => (fs, .error e)
  | .ok path =>
    match (fs.mkdir path.dropLast).bind (FileSystem.writeBytes path data) with
    | .error e => (fs, .error (osFailure "object write failed" key e))
    | .ok fs' => (fs', .ok key)

def get (store : LocalFSObjectStore) (key : String) (fs : FileSystem) :
    Except Exc (Option Bytes) :=
  match store.path key with
  | .error e => .error e
  | .ok path => (fs.readBytes path).mapError (osFailure "object read failed" key)

/-- An error of the operating system is not translated here. -/
def delete (store : LocalFSObjectStore) (key : String) (fs : FileSystem) :
    FileSystem × Except Exc Unit :=
  match store.path key with
  | .error e => (fs, .error e)
  | .ok path =>
    match fs.unlink path with
    | .error e => (fs, .error (.foreign e.text))
    | .ok fs' => (fs', .ok ())

def exists? (store : LocalFSObjectStore) (key : String) (fs : FileSystem) : Except Exc Bool :=
  (store.get key fs).map Option.isSome

def listPrefix (store : LocalFSObjectStore) (keys : String) (fs : FileSystem) :
    Except Exc (List String) :=
  let found := store.target keys
  if (fs.node? found).isSome then
    ((fs.filesUnder found).mapM (relativeTo store.base)).map fun names =>
      names.insertionSort (· ≤ ·)
  else .ok []

variable {store : LocalFSObjectStore} {key : String}

theorem accepts_iff {path : FilePath} :
    store.Accepts path ↔
      FilePath.StrictlyBelow store.base path ∨ FilePath.Lookalike store.base path :=
  FilePath.text_prefix_iff

theorem path_of_accepts (h : store.Accepts (store.target key)) :
    store.path key = .ok (store.target key) := if_pos h

/-! ## What the operating system makes of an accepted call -/

/-- A directory stands at the path, or a file where its directory should be. -/
def Refused (fs : FileSystem) (path : FilePath) : Prop :=
  fs.IsDir path ∨ fs.FileAbove path.dropLast

theorem node?_foldl_touchDir {nodes : OrderedDict FilePath FileNode} {paths : List FilePath}
    {p : FilePath} (hp : (nodes.get? p).isSome = true ∨ p ∉ paths) :
    (paths.foldl FileSystem.touchDir nodes).get? p = nodes.get? p := by
  induction paths generalizing nodes with
  | nil => rfl
  | cons q paths ih =>
    have hstep : (FileSystem.touchDir nodes q).get? p = nodes.get? p := by
      unfold FileSystem.touchDir
      split_ifs with hq
      · rfl
      · rw [OrderedDict.get?_insert]
        refine if_neg fun hqp => ?_
        rcases hp with hp | hp
        · exact hq (Or.inr (hqp ▸ hp))
        · exact hp (hqp ▸ List.mem_cons_self)
    rw [List.foldl_cons, ih, hstep]
    rw [hstep]
    exact hp.imp_right fun h hm => h (List.mem_cons_of_mem q hm)

theorem not_mem_inits_dropLast {p : FilePath} (hp : p ≠ []) : p ∉ p.dropLast.inits := by
  intro h
  have hle := ((List.mem_inits _ _).mp h).length_le
  have hpos := List.length_pos_iff.mpr hp
  rw [List.length_dropLast] at hle
  omega

/-- The file system with the file at the path, and the directories above it. -/
def written (path : FilePath) (data : Bytes) (fs : FileSystem) : FileSystem :=
  ⟨(path.dropLast.inits.foldl FileSystem.touchDir fs.nodes).insert path (.file data)⟩

theorem mkdir_eq_ok_iff {fs fs' : FileSystem} {dir : FilePath} :
    fs.mkdir dir = .ok fs' ↔
      ¬ fs.FileAbove dir ∧ fs' = ⟨dir.inits.foldl FileSystem.touchDir fs.nodes⟩ := by
  unfold FileSystem.mkdir
  split_ifs with hfile habove
  · have habove : fs.FileAbove dir := ⟨dir, (List.mem_inits _ _).mpr (List.prefix_refl _), hfile⟩
    simp [habove]
  · simp [habove]
  · simp [habove, eq_comm]

theorem isDir_mkdir {fs : FileSystem} {path : FilePath} :
    FileSystem.IsDir ⟨path.dropLast.inits.foldl FileSystem.touchDir fs.nodes⟩ path ↔
      fs.IsDir path := by
  by_cases hpath : path = []
  · simp [FileSystem.IsDir, FileSystem.node?, hpath]
  · have hkeep : (path.dropLast.inits.foldl FileSystem.touchDir fs.nodes).get? path =
        fs.nodes.get? path := node?_foldl_touchDir (Or.inr (not_mem_inits_dropLast hpath))
    simp [FileSystem.IsDir, FileSystem.node?, hpath, hkeep]

theorem put_of_refused {fs : FileSystem} (data : Bytes) (ha : store.Accepts (store.target key))
    (h : Refused fs (store.target key)) :
    ∃ e, store.put key data fs = (fs, .error (osFailure "object write failed" key e)) := by
  cases hmk : fs.mkdir (store.target key).dropLast with
  | error e =>
    refine ⟨e, ?_⟩
    simp only [put, path_of_accepts ha, hmk, Except.bind]
  | ok fs' =>
    obtain ⟨habove, rfl⟩ := mkdir_eq_ok_iff.mp hmk
    have hdir := isDir_mkdir.mpr (h.resolve_right habove)
    refine ⟨.isADirectory (store.target key), ?_⟩
    simp only [put, path_of_accepts ha, hmk, Except.bind, FileSystem.writeBytes, if_pos hdir]

theorem put_of_not_refused {fs : FileSystem} (data : Bytes)
    (ha : store.Accepts (store.target key)) (h : ¬ Refused fs (store.target key)) :
    store.put key data fs = (written (store.target key) data fs, .ok key) := by
  obtain ⟨hdir, habove⟩ := not_or.mp h
  have hmk := mkdir_eq_ok_iff.mpr ⟨habove, rfl⟩
  have hdir' := mt isDir_mkdir.mp hdir
  simp only [put, path_of_accepts ha, hmk, Except.bind, FileSystem.writeBytes, if_neg hdir',
    written]

theorem get_of_isDir {fs : FileSystem} (ha : store.Accepts (store.target key))
    (h : fs.IsDir (store.target key)) :
    store.get key fs =
      .error (osFailure "object read failed" key (.isADirectory (store.target key))) := by
  rw [get, path_of_accepts ha]
  simp only [FileSystem.readBytes, show fs.node? (store.target key) = some .dir from h]
  rfl

theorem get_of_not_isDir {fs : FileSystem} (ha : store.Accepts (store.target key))
    (h : ¬ fs.IsDir (store.target key)) : store.get key fs = .ok (fs.file? (store.target key)) := by
  rw [get, path_of_accepts ha]
  unfold FileSystem.IsDir at h
  cases hnode : fs.node? (store.target key) with
  | none => simp [FileSystem.readBytes, FileSystem.file?, hnode, Except.mapError]
  | some node =>
    cases node with
    | file data => simp [FileSystem.readBytes, FileSystem.file?, hnode, Except.mapError]
    | dir => exact absurd hnode h

/-- Nothing but an accepted path is looked at. -/
theorem path_of_not_accepts (h : ¬ store.Accepts (store.target key)) :
    store.path key =
      .error (storeUnavailable "object key escapes the object store root" [("key", .str key)]) :=
  if_neg h

end LocalFSObjectStore

end Ragx
