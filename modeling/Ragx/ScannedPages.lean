import Mathlib.Data.List.Nodup
import Mathlib.Data.List.Range
import Ragx.AtomGroups
import Ragx.PdfParsers
import Ragx.Sequencing

/-!
# Scanned pages

Both parsers go over the pages with a running atom number. A page that is not read takes the
fingerprint of the document's bytes, which raises for every document that is not empty, and is
the same for all pages of an empty one.
-/
namespace Ragx

/-! ## Numbers of atoms -/

theorem zeroPad_injective (width : ℕ) : Function.Injective (zeroPad width) := by
  intro m n h
  have hvalue (k : ℕ) : Nat.ofDigitChars 10 (zeroPad width k) 0 = k := by
    rw [zeroPad, Nat.ofDigitChars_append, Nat.ofDigitChars_replicate_zero, Nat.mul_zero,
      Nat.ofDigitChars_ten_toDigits]
  rw [← hvalue m, h, hvalue]

theorem atomId_injective (doc : RawDocument) : Function.Injective doc.atomId := by
  intro m n h
  have hdigits := congrArg String.toList h
  simp only [RawDocument.atomId, sequenceId, String.toList_append, String.toList_ofList,
    List.append_cancel_left_eq] at hdigits
  exact zeroPad_injective 4 hdigits

/-! ## One page after the other -/

/-- The fingerprints of the images. -/
def imageHashes (atoms : List Atom) : List String :=
  (atoms.filter fun atom => atom.type = .image).map (·.contentHash)

theorem imageHashes_append (atoms atoms' : List Atom) :
    imageHashes (atoms ++ atoms') = imageHashes atoms ++ imageHashes atoms' := by
  rw [imageHashes, List.filter_append, List.map_append]
  rfl

/-- What a parser makes of a page, from an atom number on, and whether it reads the page. -/
structure PageScanner (P : Type) where
  reads : P → Bool
  pageAtoms : ℕ → P → Except Exc (List Atom)

section Scanner

variable {P : Type} (sha256Hex : List UInt8 → String) (doc : RawDocument)

/-- Atoms numbered from `seq` on, without an image. -/
structure TextPart (seq : ℕ) (part : List Atom) : Prop where
  ids : part.map (·.atomId) = (List.range' seq part.length).map doc.atomId
  text : ∀ atom ∈ part, atom.type ≠ .image

/-- The placeholder of a page that is not read, in a document without bytes. -/
structure Placeholder (seq : ℕ) (atom : Atom) : Prop where
  atomId : atom.atomId = doc.atomId seq
  type : atom.type = .image
  contentHash : atom.contentHash = sha256Hex []

namespace PageScanner

variable (scanner : PageScanner P)

/-- Pages that are read become text; the others raise unless the document is empty. -/
structure Scans : Prop where
  text : ∀ seq page, scanner.reads page = true →
    ∃ part, scanner.pageAtoms seq page = .ok part ∧ TextPart doc seq part
  image : doc.content.raw = [] → ∀ seq page, scanner.reads page = false →
    ∃ atom, scanner.pageAtoms seq page = .ok [atom] ∧ Placeholder sha256Hex doc seq atom
  fails : doc.content.raw ≠ [] → ∀ seq page, scanner.reads page = false →
    ∃ e, scanner.pageAtoms seq page = .error e

/-- The atoms of the pages, page by page. -/
def scan (seq : ℕ) : List P → Except Exc (List (List Atom))
  | [] => .ok []
  | page :: pages => do
    let part ← scanner.pageAtoms seq page
    let rest ← scan (seq + part.length) pages
    return part :: rest

variable {sha256Hex doc scanner}

theorem scan_cons_eq_ok_iff {seq : ℕ} {page : P} {pages : List P} {parts : List (List Atom)} :
    scanner.scan seq (page :: pages) = .ok parts ↔
      ∃ part rest, scanner.pageAtoms seq page = .ok part ∧
        scanner.scan (seq + part.length) pages = .ok rest ∧ parts = part :: rest := by
  rw [scan, bind_eq_ok_iff]
  constructor
  · rintro ⟨part, hpart, hrest⟩
    obtain ⟨rest, hscan, hparts⟩ := bind_eq_ok_iff.mp hrest
    cases hparts
    exact ⟨part, rest, hpart, hscan, rfl⟩
  · rintro ⟨part, rest, hpart, hscan, rfl⟩
    exact ⟨part, hpart, bind_eq_ok_iff.mpr ⟨rest, hscan, rfl⟩⟩

/-- Nothing is raised exactly if the document is empty or every page is read. -/
theorem exists_scan_eq_ok_iff (h : scanner.Scans sha256Hex doc) (seq : ℕ) (pages : List P) :
    (∃ parts, scanner.scan seq pages = .ok parts) ↔
      doc.content.raw = [] ∨ ∀ page ∈ pages, scanner.reads page = true := by
  induction pages generalizing seq with
  | nil => exact iff_of_true ⟨[], rfl⟩ (Or.inr fun page hpage => absurd hpage List.not_mem_nil)
  | cons page pages ih =>
    simp only [scan_cons_eq_ok_iff]
    constructor
    · rintro ⟨_, part, rest, hpart, hscan, rfl⟩
      by_cases hempty : doc.content.raw = []
      · exact Or.inl hempty
      · have hread : scanner.reads page = true := by
          by_contra hunread
          obtain ⟨e, he⟩ := h.fails hempty seq page (Bool.eq_false_iff.mpr hunread)
          rw [he] at hpart
          cases hpart
        have hrest := ((ih (seq + part.length)).mp ⟨rest, hscan⟩).resolve_left hempty
        exact Or.inr (List.forall_mem_cons.mpr ⟨hread, hrest⟩)
    · intro hall
      have hpart : ∃ part, scanner.pageAtoms seq page = .ok part := by
        cases hread : scanner.reads page with
        | true =>
          obtain ⟨part, hpart, _⟩ := h.text seq page hread
          exact ⟨part, hpart⟩
        | false =>
          have hempty : doc.content.raw = [] := hall.resolve_right fun hreads => by
            rw [hreads page List.mem_cons_self] at hread
            cases hread
          obtain ⟨atom, hpart, _⟩ := h.image hempty seq page hread
          exact ⟨[atom], hpart⟩
      obtain ⟨part, hpart⟩ := hpart
      obtain ⟨rest, hrest⟩ := (ih (seq + part.length)).mpr
        (hall.imp_right fun hreads page' hpage' => hreads page' (List.mem_cons_of_mem page hpage'))
      exact ⟨part :: rest, part, rest, hpart, hrest, rfl⟩

/-- How many pages are not read. -/
def unread (scanner : PageScanner P) (pages : List P) : ℕ :=
  pages.countP fun page => !scanner.reads page

/-- One part: its numbers, and one image with the fingerprint of no bytes if the page is not
read. -/
theorem part_spec (h : scanner.Scans sha256Hex doc) {seq : ℕ} {page : P} {part : List Atom}
    (hpart : scanner.pageAtoms seq page = .ok part) :
    part.map (·.atomId) = (List.range' seq part.length).map doc.atomId ∧
      imageHashes part = List.replicate (scanner.unread [page]) (sha256Hex []) := by
  cases hread : scanner.reads page with
  | true =>
    obtain ⟨part', hpart', htext⟩ := h.text seq page hread
    rw [hpart'] at hpart
    cases hpart
    refine ⟨htext.ids, ?_⟩
    have hnone : (part.filter fun atom => atom.type = .image) = [] :=
      List.filter_eq_nil_iff.mpr fun atom hatom => by simpa using htext.text atom hatom
    rw [imageHashes, hnone, unread, List.countP_singleton, hread]
    rfl
  | false =>
    have hempty : doc.content.raw = [] := by
      by_contra hraw
      obtain ⟨e, he⟩ := h.fails hraw seq page hread
      rw [he] at hpart
      cases hpart
    obtain ⟨atom, hpart', hplace⟩ := h.image hempty seq page hread
    rw [hpart'] at hpart
    cases hpart
    refine ⟨by simp [hplace.atomId], ?_⟩
    rw [imageHashes, unread, List.countP_singleton, hread]
    simp [hplace.type, hplace.contentHash]

theorem scan_spec (h : scanner.Scans sha256Hex doc) {seq : ℕ} {pages : List P}
    {parts : List (List Atom)} (hscan : scanner.scan seq pages = .ok parts) :
    parts.flatten.map (·.atomId) = (List.range' seq parts.flatten.length).map doc.atomId ∧
      imageHashes parts.flatten = List.replicate (scanner.unread pages) (sha256Hex []) ∧
      List.Forall₂ (fun page part => ∃ seq, scanner.pageAtoms seq page = .ok part) pages parts := by
  induction pages generalizing seq parts with
  | nil =>
    cases hscan
    exact ⟨rfl, rfl, .nil⟩
  | cons page pages ih =>
    obtain ⟨part, rest, hpart, hrest, rfl⟩ := scan_cons_eq_ok_iff.mp hscan
    obtain ⟨hids, hhashes⟩ := part_spec h hpart
    obtain ⟨hids', hhashes', hparts⟩ := ih hrest
    refine ⟨?_, ?_, .cons ⟨seq, hpart⟩ hparts⟩
    · rw [List.flatten_cons, List.map_append, hids, hids', List.length_append,
        ← List.map_append, List.range'_append_1]
    · have hcount : scanner.unread (page :: pages) =
          scanner.unread [page] + scanner.unread pages :=
        @List.countP_append _ (fun page => !scanner.reads page) [page] pages
      rw [List.flatten_cons, imageHashes_append, hhashes, hhashes', hcount, List.replicate_add]

end PageScanner

/-- A result without an exception: the atoms of the pages in order, with ids of their own, and
images with fingerprints of their own. -/
def KeepsPages (holds : P → List Atom → Prop) (pages : List P) (parsed : Except Exc ParseResult) :
    Prop :=
  ∃ res parts, parsed = .ok res ∧ res.atoms = parts.flatten ∧ List.Forall₂ holds pages parts ∧
    (res.atoms.map (·.atomId)).Nodup ∧ (imageHashes res.atoms).Nodup

/-- There is no page to be kept as an image, or a single one in a document without bytes. -/
def ImagesAllowed (unread : ℕ) : Prop := unread = 0 ∨ unread = 1 ∧ doc.content.raw = []

instance (unread : ℕ) : Decidable (ImagesAllowed doc unread) :=
  inferInstanceAs (Decidable (_ ∨ _ ∧ _))

variable {sha256Hex doc}

/-- The parser returns the atoms of the scan. -/
def ReturnsScan (scanner : PageScanner P) (pages : List P) (parsed : Except Exc ParseResult) :
    Prop :=
  ∀ atoms, (∃ res, parsed = .ok res ∧ res.atoms = atoms) ↔
    ∃ parts, scanner.scan 0 pages = .ok parts ∧ parts.flatten = atoms

theorem keepsPages_iff {scanner : PageScanner P} (h : scanner.Scans sha256Hex doc)
    {pages : List P} {parsed : Except Exc ParseResult} (hparsed : ReturnsScan scanner pages parsed)
    {holds : P → List Atom → Prop} (good : P → Prop)
    (hholds : ∀ seq, ∀ page ∈ pages, ∀ part,
      scanner.pageAtoms seq page = .ok part → good page → holds page part)
    (hgood : ∀ parts parts', scanner.scan 0 pages = .ok parts → parts'.flatten = parts.flatten →
      List.Forall₂ holds pages parts' → ∀ page ∈ pages, good page) :
    KeepsPages holds pages parsed ↔
      (∀ page ∈ pages, good page) ∧ ImagesAllowed doc (scanner.unread pages) := by
  have hunread : scanner.unread pages = 0 ↔ ∀ page ∈ pages, scanner.reads page = true := by
    rw [PageScanner.unread, List.countP_eq_zero]
    simp
  constructor
  · rintro ⟨res, parts', hres, hatoms, hforall, _, hhashes⟩
    obtain ⟨parts, hscan, hflatten⟩ := (hparsed res.atoms).mp ⟨res, hres, rfl⟩
    obtain ⟨_, himages, _⟩ := PageScanner.scan_spec h hscan
    refine ⟨hgood parts parts' hscan (hatoms.symm.trans hflatten.symm) hforall, ?_⟩
    rw [← hflatten, himages, List.nodup_replicate] at hhashes
    rcases (PageScanner.exists_scan_eq_ok_iff h 0 pages).mp ⟨parts, hscan⟩ with hempty | hreads
    · rcases Nat.le_one_iff_eq_zero_or_eq_one.mp hhashes with hzero | hone
      · exact Or.inl hzero
      · exact Or.inr ⟨hone, hempty⟩
    · exact Or.inl (hunread.mpr hreads)
  · rintro ⟨hall, hallowed⟩
    obtain ⟨parts, hscan⟩ := (PageScanner.exists_scan_eq_ok_iff h 0 pages).mpr
      (hallowed.symm.imp And.right hunread.mp)
    obtain ⟨res, hres, hatoms⟩ := (hparsed parts.flatten).mpr ⟨parts, hscan, rfl⟩
    obtain ⟨hids, himages, hparts⟩ := PageScanner.scan_spec h hscan
    refine ⟨res, parts, hres, hatoms, ?_, ?_, ?_⟩
    · have hboth : List.Forall₂ (fun page part => (page ∈ pages ∧ good page) ∧
          ∃ seq, scanner.pageAtoms seq page = .ok part) pages parts :=
        (List.forall₂_and_left pages parts).mpr ⟨fun page hpage => ⟨hpage, hall page hpage⟩, hparts⟩
      exact hboth.imp fun page part hpart => hholds hpart.2.choose page hpart.1.1 part
        hpart.2.choose_spec hpart.1.2
    · rw [hatoms, hids]
      exact (List.nodup_range' ..).map (atomId_injective doc)
    · rw [hatoms, himages, List.nodup_replicate]
      rcases hallowed with hzero | ⟨hone, _⟩
      · omega
      · omega

end Scanner

/-! ## What a document raises -/

section Documents

variable {sha256Hex : List UInt8 → String} {doc : RawDocument}

theorem parseScan_eq_ok_iff {name : String} {parsePdf parseImage : Except Exc ParseResult}
    {res : ParseResult} (hpdf : doc.mimetype = "application/pdf") :
    parseScan name doc parsePdf parseImage = .ok res ↔ parsePdf = .ok res := by
  have hknown : doc.mimetype ∈ scanMimetypes := hpdf ▸ List.mem_cons_self
  rw [parseScan, if_neg (not_not.mpr hknown), if_pos hpdf]
  cases parsePdf <;> simp [Except.mapError]

theorem computeAtomContentHash_empty (h : doc.content.raw = []) :
    computeAtomContentHash sha256Hex (some (.bytes doc.content.raw)) none = .ok (sha256Hex []) := by
  rw [h]
  rfl

theorem computeAtomContentHash_bytes {data : List UInt8} (h : data ≠ []) :
    ∃ e, computeAtomContentHash sha256Hex (some (.bytes data)) none = .error e := by
  cases data with
  | nil => exact absurd rfl h
  | cons byte data => exact ⟨_, rfl⟩

/-! ## DeepDoc -/

namespace DeepDocParser

variable (parser : DeepDocParser) (recognize : PdfPage → Option String)

/-- The page counts as digital, or the recognition yields text. -/
def reads (page : PdfPage) : Bool :=
  (page.isDigital && !isBlankText page.text) ||
    (parser.ocrReady && !isBlankText (parser.ocrPage recognize page))

/-- The one atom of a page. -/
def OneAtom (page : PdfPage) (part : List Atom) : Prop :=
  ∃ atom, part = [atom] ∧ atom.page = some page.pageNo ∧
    atom.type = if parser.reads recognize page then .text else .image

def scanner (sha256Hex : List UInt8 → String) (doc : RawDocument) : PageScanner PdfPage where
  reads := parser.reads recognize
  pageAtoms seq page := (parser.pageAtom sha256Hex doc recognize seq page).map ([·])

theorem pageAtom_cases (sha256Hex : List UInt8 → String) (doc : RawDocument) (seq : ℕ)
    (page : PdfPage) :
    (parser.reads recognize page = true ∧ ∃ text extraMeta,
      parser.pageAtom sha256Hex doc recognize seq page =
        makeTextAtom sha256Hex doc seq text page.pageNo page.heading extraMeta) ∨
    (parser.reads recognize page = false ∧ parser.pageAtom sha256Hex doc recognize seq page =
      makeImageAtom sha256Hex doc seq (some page.pageNo)) := by
  unfold pageAtom reads
  dsimp only
  split_ifs with hdigital hready htext
  · exact Or.inl ⟨by rw [hdigital, Bool.true_or], _, _, rfl⟩
  · exact Or.inl ⟨by rw [hready, htext, Bool.true_and, Bool.or_true], _, _, rfl⟩
  · exact Or.inr ⟨by simp_all, rfl⟩
  · exact Or.inr ⟨by simp_all, rfl⟩

variable {parser recognize}

theorem exists_makeTextAtom (seq : ℕ) (text : String) (pageNo : ℤ) (heading : String)
    (extraMeta : List (String × Json)) :
    ∃ atom, makeTextAtom sha256Hex doc seq text pageNo heading extraMeta = .ok atom ∧
      atom.atomId = doc.atomId seq ∧ atom.type = .text ∧ atom.page = some pageNo :=
  ⟨_, rfl, rfl, rfl, rfl⟩

theorem exists_makeImageAtom (h : doc.content.raw = []) (seq : ℕ) (pageNo : Option ℤ) :
    ∃ atom, makeImageAtom sha256Hex doc seq pageNo = .ok atom ∧
      Placeholder sha256Hex doc seq atom ∧ atom.page = pageNo := by
  unfold makeImageAtom
  rw [computeAtomContentHash_empty h]
  exact ⟨_, rfl, ⟨rfl, rfl, rfl⟩, rfl⟩

theorem makeImageAtom_eq_error (h : doc.content.raw ≠ []) (seq : ℕ) (pageNo : Option ℤ) :
    ∃ e, makeImageAtom sha256Hex doc seq pageNo = .error e := by
  obtain ⟨e, he⟩ := @computeAtomContentHash_bytes sha256Hex _ h
  unfold makeImageAtom
  rw [he]
  exact ⟨e, rfl⟩

/-- The parts of one atom are what the pages become. -/
theorem scanner_pageAtoms_eq_ok_iff {seq : ℕ} {page : PdfPage} {part : List Atom} :
    (parser.scanner recognize sha256Hex doc).pageAtoms seq page = .ok part ↔
      ∃ atom, parser.pageAtom sha256Hex doc recognize seq page = .ok atom ∧ part = [atom] := by
  rw [scanner]
  dsimp only
  cases parser.pageAtom sha256Hex doc recognize seq page <;> simp [Except.map, eq_comm]

theorem scans : (parser.scanner recognize sha256Hex doc).Scans sha256Hex doc where
  text seq page hread := by
    rcases pageAtom_cases parser recognize sha256Hex doc seq page with
      ⟨_, text, extraMeta, hatom⟩ | ⟨hunread, _⟩
    · obtain ⟨atom, hok, hid, htype, _⟩ :=
        exists_makeTextAtom seq text page.pageNo page.heading extraMeta
      refine ⟨[atom], scanner_pageAtoms_eq_ok_iff.mpr ⟨atom, hatom.trans hok, rfl⟩, ?_, ?_⟩
      · simp [hid]
      · simp [htype]
    · exact absurd (hunread.symm.trans hread) Bool.false_ne_true
  image h seq page hread := by
    rcases pageAtom_cases parser recognize sha256Hex doc seq page with ⟨htext, _⟩ | ⟨_, hatom⟩
    · exact absurd (hread.symm.trans htext) Bool.false_ne_true
    · obtain ⟨atom, hok, hplace, _⟩ := exists_makeImageAtom h seq (some page.pageNo)
      exact ⟨atom, scanner_pageAtoms_eq_ok_iff.mpr ⟨atom, hatom.trans hok, rfl⟩, hplace⟩
  fails h seq page hread := by
    rcases pageAtom_cases parser recognize sha256Hex doc seq page with ⟨htext, _⟩ | ⟨_, hatom⟩
    · exact absurd (hread.symm.trans htext) Bool.false_ne_true
    · obtain ⟨e, he⟩ := makeImageAtom_eq_error h seq (some page.pageNo)
      refine ⟨e, ?_⟩
      change (parser.pageAtom sha256Hex doc recognize seq page).map ([·]) = .error e
      rw [hatom, he]
      rfl

theorem oneAtom_of_pageAtoms {seq : ℕ} {page : PdfPage} {part : List Atom}
    (hpart : (parser.scanner recognize sha256Hex doc).pageAtoms seq page = .ok part) :
    parser.OneAtom recognize page part := by
  obtain ⟨atom, hatom, rfl⟩ := scanner_pageAtoms_eq_ok_iff.mp hpart
  rcases pageAtom_cases parser recognize sha256Hex doc seq page with
    ⟨hread, text, extraMeta, heq⟩ | ⟨hunread, heq⟩
  · obtain ⟨atom', hok, _, htype, hpage⟩ :=
      @exists_makeTextAtom sha256Hex doc seq text page.pageNo page.heading extraMeta
    obtain rfl : atom = atom' := Except.ok.inj (hatom.symm.trans (heq.trans hok))
    exact ⟨atom, rfl, hpage, by rw [htype, if_pos hread]⟩
  · have hempty : doc.content.raw = [] := by
      by_contra hraw
      obtain ⟨e, he⟩ := makeImageAtom_eq_error hraw seq (some page.pageNo)
      rw [heq, he] at hatom
      cases hatom
    obtain ⟨atom', hok, hplace, hpage⟩ := exists_makeImageAtom hempty seq (some page.pageNo)
    obtain rfl : atom = atom' := Except.ok.inj (hatom.symm.trans (heq.trans hok))
    exact ⟨atom, rfl, hpage, by rw [hplace.type, hunread]; rfl⟩

theorem mapM_zipIdx_eq_ok_iff (pages : List PdfPage) (seq : ℕ) (atoms : List Atom) :
    (pages.zipIdx seq).mapM
        (fun entry => parser.pageAtom sha256Hex doc recognize entry.2 entry.1) = .ok atoms ↔
      ∃ parts, (parser.scanner recognize sha256Hex doc).scan seq pages = .ok parts ∧
        parts.flatten = atoms := by
  induction pages generalizing seq atoms with
  | nil =>
    constructor
    · rintro ⟨⟩
      exact ⟨[], rfl, rfl⟩
    · rintro ⟨_, ⟨⟩, rfl⟩
      rfl
  | cons page pages ih =>
    rw [List.zipIdx_cons, List.mapM_cons, bind_eq_ok_iff]
    constructor
    · rintro ⟨atom, hatom, hbind⟩
      obtain ⟨rest, hrest, hatoms⟩ := bind_eq_ok_iff.mp hbind
      cases hatoms
      obtain ⟨parts, hscan, rfl⟩ := (ih (seq + 1) rest).mp hrest
      exact ⟨[atom] :: parts, PageScanner.scan_cons_eq_ok_iff.mpr
        ⟨[atom], parts, scanner_pageAtoms_eq_ok_iff.mpr ⟨atom, hatom, rfl⟩, hscan, rfl⟩, rfl⟩
    · rintro ⟨_, hscan, rfl⟩
      obtain ⟨_, parts, hpart, hrest, rfl⟩ := PageScanner.scan_cons_eq_ok_iff.mp hscan
      obtain ⟨atom, hatom, rfl⟩ := scanner_pageAtoms_eq_ok_iff.mp hpart
      exact ⟨atom, hatom, bind_eq_ok_iff.mpr
        ⟨parts.flatten, (ih (seq + 1) parts.flatten).mpr ⟨parts, hrest, rfl⟩, rfl⟩⟩

theorem returnsScan (hpdf : doc.mimetype = "application/pdf") (pages : List PdfPage)
    (recognized : Option String) : ReturnsScan (parser.scanner recognize sha256Hex doc) pages
      (parser.parse sha256Hex doc recognize pages recognized) := by
  intro atoms
  rw [← mapM_zipIdx_eq_ok_iff pages 0 atoms]
  simp only [parse, parseScan_eq_ok_iff hpdf, parsePdf, bind_eq_ok_iff]
  constructor
  · rintro ⟨res, ⟨atoms', hatoms, hres⟩, rfl⟩
    cases hres
    exact hatoms
  · exact fun hatoms => ⟨_, ⟨atoms, hatoms, rfl⟩, rfl⟩

end DeepDocParser

/-! ## MinerU -/

namespace MinerUParser

variable (parser : MinerUParser)

/-- The atoms of a page, with its number. -/
structure SomeAtoms (entry : MinerUPage × ℕ) (part : List Atom) : Prop where
  ne_nil : part ≠ []
  page : ∀ atom ∈ part, atom.page = some (entry.2 : ℤ)
  image : ∀ atom ∈ part, atom.type = .image ↔ parser.scannedLooking entry.1 = true

def scanner (sha256Hex : List UInt8 → String) (doc : RawDocument) :
    PageScanner (MinerUPage × ℕ) where
  reads entry := !parser.scannedLooking entry.1
  pageAtoms seq entry := parser.pageAtoms sha256Hex doc seq entry.2 entry.1

/-- A page that does not look scanned has a table or text. -/
def HasContent (page : MinerUPage) : Prop :=
  parser.scannedLooking page = false →
    (detectTable page).isSome = true ∨ isBlankText page.text = false

instance (page : MinerUPage) : Decidable (parser.HasContent page) :=
  inferInstanceAs (Decidable (_ → _ ∨ _))

variable {parser}

theorem isWhitespace_of_isLineBreak {c : Char} (h : isLineBreak c = true) :
    isWhitespace c = true := by
  simp only [isLineBreak, isWhitespace, Bool.or_eq_true, Bool.and_eq_true, decide_eq_true_eq,
    beq_iff_eq] at h ⊢
  omega

/-- Cutting into lines takes nothing but white space. -/
theorem visibleChars_splitlinesFrom (line text : List Char) :
    (splitlinesFrom line text).flatMap visibleChars = visibleChars line ++ visibleChars text := by
  induction text generalizing line with
  | nil => cases line <;> simp [splitlinesFrom, visibleChars]
  | cons c text ih =>
    rw [splitlinesFrom]
    split_ifs with hpair hbreak
    · have hc : isWhitespace c = true := hpair.1 ▸ rfl
      rw [ih, visibleChars_cons_of_isWhitespace hc]
    · have hc : isWhitespace c = true := isWhitespace_of_isLineBreak hbreak
      rw [List.flatMap_cons, ih, visibleChars_cons_of_isWhitespace hc]
      rfl
    · rw [ih, visibleChars_append, List.append_assoc, ← visibleChars_append]
      rfl

theorem pageTexts_eq_nil_iff (page : MinerUPage) :
    parser.pageTexts page = [] ↔ detectTable page = none ∧ isBlankText page.text = true := by
  have hlines : ((splitlines page.text.toList).map strip).filter (!·.isEmpty) = [] ↔
      isBlankText page.text = true := by
    have hvisible := visibleChars_splitlinesFrom [] page.text.toList
    rw [isBlankText, isEmpty_strip, ← visibleChars_eq_nil_iff]
    change _ ↔ visibleChars [] ++ visibleChars page.text.toList = []
    rw [← hvisible, List.flatMap_eq_nil_iff, List.filter_eq_nil_iff, List.forall_mem_map]
    refine forall₂_congr fun line _ => ?_
    rw [visibleChars_eq_nil_iff, ← isEmpty_strip]
    simp
  rw [pageTexts, List.append_eq_nil_iff, List.map_eq_nil_iff, List.map_eq_nil_iff, hlines,
    Option.toList_eq_nil_iff]

theorem ne_image_of_mem_pageTexts {page : MinerUPage} {entry : AtomType × String}
    (h : entry ∈ parser.pageTexts page) : entry.1 ≠ .image := by
  rcases List.mem_append.mp h with h | h
  · obtain ⟨md, _, rfl⟩ := List.mem_map.mp h
    simp
  · obtain ⟨line, _, rfl⟩ := List.mem_map.mp h
    split_ifs <;> simp

/-- The atom of a text of a page. -/
def textAtom (sha256Hex : List UInt8 → String) (doc : RawDocument) (seq pageNo : ℕ)
    (entry : (AtomType × String) × ℕ) : Atom where
  atomId := doc.atomId (seq + entry.2)
  docId := doc.docId.getD ""
  type := entry.1.1
  text := some entry.1.2
  contentHash := sha256Hex (encodeUtf8 (strip entry.1.2.toList))
  page := some (pageNo : ℤ)
  metadata := .ofList [("parser", .str "mineru")]

/-- A page that does not look scanned becomes its texts. -/
theorem pageAtoms_of_text {seq pageNo : ℕ} {page : MinerUPage}
    (h : parser.scannedLooking page = false) :
    parser.pageAtoms sha256Hex doc seq pageNo page =
      .ok ((parser.pageTexts page).zipIdx.map (textAtom sha256Hex doc seq pageNo)) := by
  rw [pageAtoms, h]
  exact mapM_eq_ok_map fun entry _ => rfl

theorem exists_imageAtom (h : doc.content.raw = []) (seq pageNo : ℕ) :
    ∃ atom, imageAtom sha256Hex doc seq (some pageNo) = .ok atom ∧
      Placeholder sha256Hex doc seq atom ∧ atom.page = some (pageNo : ℤ) := by
  unfold imageAtom
  rw [computeAtomContentHash_empty h]
  exact ⟨_, rfl, ⟨rfl, rfl, rfl⟩, rfl⟩

theorem imageAtom_eq_error (h : doc.content.raw ≠ []) (seq pageNo : ℕ) :
    ∃ e, imageAtom sha256Hex doc seq (some pageNo) = .error e := by
  obtain ⟨e, he⟩ := @computeAtomContentHash_bytes sha256Hex _ h
  unfold imageAtom
  rw [he]
  exact ⟨e, rfl⟩

theorem pageAtoms_of_scanned {seq pageNo : ℕ} {page : MinerUPage}
    (h : parser.scannedLooking page = true) :
    parser.pageAtoms sha256Hex doc seq pageNo page =
      (imageAtom sha256Hex doc seq (some pageNo)).map ([·]) := by
  rw [pageAtoms, if_pos h]

theorem scans : (parser.scanner sha256Hex doc).Scans sha256Hex doc where
  text seq entry hread := by
    have htext : parser.scannedLooking entry.1 = false := by simpa [scanner] using hread
    refine ⟨_, pageAtoms_of_text htext, ?_, ?_⟩
    · have hids : (parser.pageTexts entry.1).zipIdx.map
            (fun numbered => doc.atomId (seq + numbered.2)) =
          ((parser.pageTexts entry.1).zipIdx.map Prod.snd).map fun i => doc.atomId (seq + i) := by
        rw [List.map_map]
        rfl
      have hrange : List.range' seq (parser.pageTexts entry.1).length =
          (List.range' 0 (parser.pageTexts entry.1).length).map (seq + ·) := by
        rw [List.map_add_range', Nat.add_zero]
      rw [List.map_map, List.length_map, List.length_zipIdx, hrange, List.map_map]
      exact hids.trans (by rw [List.zipIdx_map_snd]; rfl)
    · intro atom hatom
      obtain ⟨numbered, hnumbered, rfl⟩ := List.mem_map.mp hatom
      exact ne_image_of_mem_pageTexts (List.fst_mem_of_mem_zipIdx hnumbered)
  image h seq entry hread := by
    have hscanned : parser.scannedLooking entry.1 = true := by simpa [scanner] using hread
    obtain ⟨atom, hatom, hplace, _⟩ := exists_imageAtom h seq entry.2
    refine ⟨atom, (pageAtoms_of_scanned hscanned).trans ?_, hplace⟩
    rw [hatom]
    rfl
  fails h seq entry hread := by
    have hscanned : parser.scannedLooking entry.1 = true := by simpa [scanner] using hread
    obtain ⟨e, he⟩ := imageAtom_eq_error h seq entry.2
    refine ⟨e, (pageAtoms_of_scanned hscanned).trans ?_⟩
    rw [he]
    rfl

/-- The atoms of a page carry its number, and are images if it looks scanned. There are some
exactly if it looks scanned or has content. -/
theorem pageAtoms_spec {seq : ℕ} {entry : MinerUPage × ℕ} {part : List Atom}
    (hpart : (parser.scanner sha256Hex doc).pageAtoms seq entry = .ok part) :
    (∀ atom ∈ part, atom.page = some (entry.2 : ℤ) ∧
      (atom.type = .image ↔ parser.scannedLooking entry.1 = true)) ∧
    (part ≠ [] ↔ parser.HasContent entry.1) := by
  change parser.pageAtoms sha256Hex doc seq entry.2 entry.1 = .ok part at hpart
  cases hscanned : parser.scannedLooking entry.1 with
  | false =>
    rw [pageAtoms_of_text hscanned] at hpart
    cases hpart
    constructor
    · intro atom hatom
      obtain ⟨numbered, hnumbered, rfl⟩ := List.mem_map.mp hatom
      exact ⟨rfl, iff_of_false
        (ne_image_of_mem_pageTexts (List.fst_mem_of_mem_zipIdx hnumbered)) Bool.false_ne_true⟩
    · rw [ne_eq, List.map_eq_nil_iff, List.zipIdx_eq_nil_iff, pageTexts_eq_nil_iff, HasContent]
      cases detectTable entry.1 <;> simp [hscanned]
  | true =>
    rw [pageAtoms_of_scanned hscanned] at hpart
    by_cases hempty : doc.content.raw = []
    · obtain ⟨atom, hatom, hplace, hpage⟩ := @exists_imageAtom sha256Hex doc hempty seq entry.2
      rw [hatom] at hpart
      cases hpart
      exact ⟨by simp [hpage, hplace.type], by simp [HasContent, hscanned]⟩
    · obtain ⟨e, he⟩ := @imageAtom_eq_error sha256Hex doc hempty seq entry.2
      rw [he] at hpart
      cases hpart

theorem someAtoms_of_pageAtoms {seq : ℕ} {entry : MinerUPage × ℕ} {part : List Atom}
    (hpart : (parser.scanner sha256Hex doc).pageAtoms seq entry = .ok part)
    (hcontent : parser.HasContent entry.1) : parser.SomeAtoms entry part where
  ne_nil := (pageAtoms_spec hpart).2.mpr hcontent
  page atom hatom := ((pageAtoms_spec hpart).1 atom hatom).1
  image atom hatom := ((pageAtoms_spec hpart).1 atom hatom).2

theorem eq_of_mem_zipIdx {pages : List MinerUPage} {k : ℕ} {entry entry' : MinerUPage × ℕ}
    (h : entry ∈ pages.zipIdx k) (h' : entry' ∈ pages.zipIdx k) (heq : entry.2 = entry'.2) :
    entry = entry' := by
  have hget := (List.mem_zipIdx_iff_le_and_getElem?_sub.mp h).2
  have hget' := (List.mem_zipIdx_iff_le_and_getElem?_sub.mp h').2
  rw [heq, hget'] at hget
  exact Prod.ext (Option.some.inj hget).symm heq

/-- However the atoms are dealt out to the pages, a page that gets some by its number has
content. -/
theorem hasContent_of_someAtoms {pages : List MinerUPage} {parts parts' : List (List Atom)}
    (hscan : (parser.scanner sha256Hex doc).scan 0 (pages.zipIdx 1) = .ok parts)
    (hflatten : parts'.flatten = parts.flatten)
    (hforall : List.Forall₂ parser.SomeAtoms (pages.zipIdx 1) parts') :
    ∀ entry ∈ pages.zipIdx 1, parser.HasContent entry.1 := by
  intro entry hentry
  obtain ⟨_, _, hparts⟩ := PageScanner.scan_spec scans hscan
  obtain ⟨part', hpart', hsome⟩ := exists_of_mem_left hforall hentry
  obtain ⟨atom, hatom⟩ := List.exists_mem_of_ne_nil part' hsome.ne_nil
  have hmem : atom ∈ parts.flatten := hflatten ▸ List.mem_flatten.mpr ⟨part', hpart', hatom⟩
  obtain ⟨part, hpart, hatom'⟩ := List.mem_flatten.mp hmem
  obtain ⟨entry', hentry', seq, hok⟩ := exists_of_mem_right hparts hpart
  have hpage := ((pageAtoms_spec hok).1 atom hatom').1
  rw [hsome.page atom hatom] at hpage
  have hnumber : entry.2 = entry'.2 := Int.ofNat.inj (Option.some.inj hpage)
  rw [eq_of_mem_zipIdx hentry hentry' hnumber]
  exact (pageAtoms_spec hok).2.mp (List.ne_nil_of_mem hatom')

theorem pagesAtoms_eq_ok_iff (pages : List MinerUPage) (seq pageNo : ℕ) (atoms : List Atom) :
    parser.pagesAtoms sha256Hex doc seq pageNo pages = .ok atoms ↔
      ∃ parts, (parser.scanner sha256Hex doc).scan seq (pages.zipIdx pageNo) = .ok parts ∧
        parts.flatten = atoms := by
  induction pages generalizing seq pageNo atoms with
  | nil =>
    constructor
    · rintro ⟨⟩
      exact ⟨[], rfl, rfl⟩
    · rintro ⟨_, ⟨⟩, rfl⟩
      rfl
  | cons page pages ih =>
    rw [List.zipIdx_cons, pagesAtoms, bind_eq_ok_iff]
    constructor
    · rintro ⟨part, hpart, hbind⟩
      obtain ⟨rest, hrest, hatoms⟩ := bind_eq_ok_iff.mp hbind
      cases hatoms
      obtain ⟨parts, hscan, rfl⟩ := (ih _ _ rest).mp hrest
      exact ⟨part :: parts, PageScanner.scan_cons_eq_ok_iff.mpr ⟨part, parts, hpart, hscan, rfl⟩,
        rfl⟩
    · rintro ⟨_, hscan, rfl⟩
      obtain ⟨part, parts, hpart, hrest, rfl⟩ := PageScanner.scan_cons_eq_ok_iff.mp hscan
      exact ⟨part, hpart, bind_eq_ok_iff.mpr
        ⟨parts.flatten, (ih _ _ parts.flatten).mpr ⟨parts, hrest, rfl⟩, rfl⟩⟩

theorem returnsScan (hpdf : doc.mimetype = "application/pdf") (pages : List MinerUPage) :
    ReturnsScan (parser.scanner sha256Hex doc) (pages.zipIdx 1)
      (parser.parse sha256Hex doc pages) := by
  intro atoms
  rw [← pagesAtoms_eq_ok_iff pages 0 1 atoms]
  simp only [parse, parseScan_eq_ok_iff hpdf, parsePdf, bind_eq_ok_iff]
  constructor
  · rintro ⟨res, ⟨atoms', hatoms, hres⟩, rfl⟩
    cases hres
    exact hatoms
  · exact fun hatoms => ⟨_, ⟨atoms, hatoms, rfl⟩, rfl⟩

end MinerUParser

/-! ## Both parsers -/

theorem deepDoc_keepsPages_iff (parser : DeepDocParser) (recognize : PdfPage → Option String)
    (pages : List PdfPage) (recognized : Option String)
    (hpdf : doc.mimetype = "application/pdf") :
    KeepsPages (parser.OneAtom recognize) pages
        (parser.parse sha256Hex doc recognize pages recognized) ↔
      ImagesAllowed doc (pages.countP fun page => !parser.reads recognize page) := by
  have hscans : (parser.scanner recognize sha256Hex doc).Scans sha256Hex doc :=
    DeepDocParser.scans
  have hreturns := @DeepDocParser.returnsScan sha256Hex doc parser recognize hpdf pages recognized
  refine (keepsPages_iff hscans hreturns (fun _ => True) ?_ ?_).trans ?_
  · exact fun _ _ _ _ hpart _ => DeepDocParser.oneAtom_of_pageAtoms hpart
  · exact fun _ _ _ _ _ _ _ => trivial
  · exact and_iff_right fun _ _ => trivial

theorem minerU_keepsPages_iff (parser : MinerUParser) (pages : List MinerUPage)
    (hpdf : doc.mimetype = "application/pdf") :
    KeepsPages parser.SomeAtoms (pages.zipIdx 1) (parser.parse sha256Hex doc pages) ↔
      (∀ page ∈ pages, parser.HasContent page) ∧
        ImagesAllowed doc (pages.countP parser.scannedLooking) := by
  have hscans : (parser.scanner sha256Hex doc).Scans sha256Hex doc := MinerUParser.scans
  have hreturns := @MinerUParser.returnsScan sha256Hex doc parser hpdf pages
  have hfst : (pages.zipIdx 1).map Prod.fst = pages := List.zipIdx_map_fst 1 pages
  have hcount : (parser.scanner sha256Hex doc).unread (pages.zipIdx 1) =
      pages.countP parser.scannedLooking := by
    rw [← hfst, List.countP_map, hfst, PageScanner.unread]
    exact List.countP_congr fun entry _ => by simp [MinerUParser.scanner]
  refine (keepsPages_iff hscans hreturns (fun entry => parser.HasContent entry.1) ?_ ?_).trans ?_
  · exact fun _ _ _ _ hpart hcontent => MinerUParser.someAtoms_of_pageAtoms hpart hcontent
  · exact fun _ _ hscan hflatten hforall =>
      MinerUParser.hasContent_of_someAtoms hscan hflatten hforall
  · rw [hcount, ← List.forall_mem_map (f := Prod.fst) (P := parser.HasContent), hfst]

/-- Each parser keeps the pages of a document exactly if at most one of them is not read, none
if the document has bytes; for MinerU, every other page has to have a table or text. -/
theorem keepsPages_scanned_iff (deepDoc : DeepDocParser) (recognize : PdfPage → Option String)
    (pages : List PdfPage) (recognized : Option String) (minerU : MinerUParser)
    (minerUPages : List MinerUPage) (hpdf : doc.mimetype = "application/pdf") :
    (KeepsPages (deepDoc.OneAtom recognize) pages
        (deepDoc.parse sha256Hex doc recognize pages recognized) ↔
      ImagesAllowed doc (pages.countP fun page => !deepDoc.reads recognize page)) ∧
    (KeepsPages minerU.SomeAtoms (minerUPages.zipIdx 1) (minerU.parse sha256Hex doc minerUPages) ↔
      (∀ page ∈ minerUPages, minerU.HasContent page) ∧
        ImagesAllowed doc (minerUPages.countP minerU.scannedLooking)) :=
  ⟨deepDoc_keepsPages_iff deepDoc recognize pages recognized hpdf,
    minerU_keepsPages_iff minerU minerUPages hpdf⟩

/-! ## A page of text and a page without -/

/-- A digest that tells all contents apart: every byte is spelled. -/
def spelledBytes (data : List UInt8) : String :=
  String.ofList (data.map byteChar)

def scannedDoc : RawDocument where
  docId := some "doc_1"
  kbId := "kb_1"
  filename := "scan.pdf"
  mimetype := "application/pdf"
  content := .bytes [0x25]

/-- Only pdfplumber is there. -/
def withoutOcr : DeepDocParser where
  pdfplumber := true
  pytesseract := false
  pil := false

theorem keepsPages_scanned_text :
    KeepsPages (withoutOcr.OneAtom fun _ => none) [⟨1, "A page of plain text.", true, ""⟩]
        (withoutOcr.parse spelledBytes scannedDoc (fun _ => none)
          [⟨1, "A page of plain text.", true, ""⟩] none) ∧
      KeepsPages ({} : MinerUParser).SomeAtoms [(⟨"A page of plain text.", none⟩, 1)]
        (({} : MinerUParser).parse spelledBytes scannedDoc [⟨"A page of plain text.", none⟩]) :=
  have hboth := @keepsPages_scanned_iff spelledBytes scannedDoc withoutOcr (fun _ => none)
    [⟨1, "A page of plain text.", true, ""⟩] none {} [⟨"A page of plain text.", none⟩] rfl
  ⟨hboth.1.mpr (by decide +kernel), hboth.2.mpr (by decide +kernel)⟩

/-- One page without text, and nothing is returned. -/
theorem not_keepsPages_scanned :
    ¬ KeepsPages (withoutOcr.OneAtom fun _ => none) [⟨1, "", false, ""⟩]
        (withoutOcr.parse spelledBytes scannedDoc (fun _ => none) [⟨1, "", false, ""⟩] none) ∧
      ¬ KeepsPages ({} : MinerUParser).SomeAtoms [(⟨"", none⟩, 1)]
        (({} : MinerUParser).parse spelledBytes scannedDoc [⟨"", none⟩]) := by
  have hdeep := @deepDoc_keepsPages_iff spelledBytes scannedDoc withoutOcr (fun _ => none)
    [⟨1, "", false, ""⟩] none rfl
  have hminer := @minerU_keepsPages_iff spelledBytes scannedDoc {} [⟨"", none⟩] rfl
  exact ⟨fun h => absurd (hdeep.mp h) (by decide +kernel),
    fun h => absurd (hminer.mp h) (by decide +kernel)⟩

end Documents

end Ragx
