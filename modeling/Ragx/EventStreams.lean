import Ragx.JsonTexts

/-!
# Event streams

How a client takes a stream of server-sent events apart: lines end in a line feed, a carriage
return or both, a line names a field, and an empty line dispatches the event that the fields
before it have built. Events that are framed one after the other are read one after the other.
-/
namespace Ragx.EventStreams

structure ServerEvent where
  type : List Char
  data : List Char
deriving DecidableEq, Repr

/-- What the fields of an event have built so far. -/
structure Buffers where
  type : List Char := []
  data : List Char := []

/-- The lines of a stream that have come to their ends. -/
def linesFrom (line : List Char) : List Char → List (List Char)
  | [] => []
  | '\r' :: '\n' :: rest => line :: linesFrom [] rest
  | c :: rest =>
    if c = '\r' ∨ c = '\n' then line :: linesFrom [] rest
    else linesFrom (line ++ [c]) rest

def dropSpace : List Char → List Char
  | ' ' :: value => value
  | value => value

/-- One field. A comment is a field without a name, and fields with other names are ignored. -/
def Buffers.readField (b : Buffers) (line : List Char) : Buffers :=
  let name := line.takeWhile (· ≠ ':')
  let value := dropSpace (line.dropWhile (· ≠ ':')).tail
  if name = "event".toList then { b with type := value }
  else if name = "data".toList then { b with data := b.data ++ value ++ ['\n'] }
  else b

/-- An event without data is not dispatched. -/
def Buffers.dispatch (b : Buffers) : List ServerEvent :=
  if b.data = [] then []
  else [{ type := if b.type = [] then "message".toList else b.type, data := b.data.dropLast }]

def readLines (b : Buffers) : List (List Char) → List ServerEvent
  | [] => []
  | [] :: lines => b.dispatch ++ readLines {} lines
  | line :: lines => readLines (b.readField line) lines

/-- The events of a stream that has been read so far. -/
def events (text : List Char) : List ServerEvent := readLines {} (linesFrom [] text)

/-! ## Frames -/

/-- `event: type`, `data: data` and an empty line. -/
def frame (type data : List Char) : List Char :=
  "event: ".toList ++ type ++ '\n' :: ("data: ".toList ++ data ++ ['\n', '\n'])

/-- A frame that leaves the type out. -/
def dataFrame (data : List Char) : List Char := "data: ".toList ++ data ++ ['\n', '\n']

def OneLine (text : List Char) : Prop := '\n' ∉ text ∧ '\r' ∉ text

instance (text : List Char) : Decidable (OneLine text) :=
  inferInstanceAs (Decidable ('\n' ∉ text ∧ '\r' ∉ text))

theorem OneLine.append {front back : List Char} (hfront : OneLine front) (hback : OneLine back) :
    OneLine (front ++ back) :=
  ⟨fun h => (List.mem_append.mp h).elim hfront.1 hback.1,
    fun h => (List.mem_append.mp h).elim hfront.2 hback.2⟩

theorem linesFrom_cons {c : Char} (hfeed : c ≠ '\n') (hreturn : c ≠ '\r') (line rest : List Char) :
    linesFrom line (c :: rest) = linesFrom (line ++ [c]) rest := by
  rw [linesFrom]
  · rw [if_neg (not_or.mpr ⟨hreturn, hfeed⟩)]
  · exact fun _ heq => absurd heq hreturn

theorem linesFrom_line {text : List Char} (h : OneLine text) (line rest : List Char) :
    linesFrom line (text ++ '\n' :: rest) = (line ++ text) :: linesFrom [] rest := by
  induction text generalizing line with
  | nil =>
    rw [List.nil_append, List.append_nil, linesFrom]
    · rw [if_pos (.inr rfl)]
    · exact fun _ heq => absurd heq (by decide)
  | cons c text ih =>
    have hc : c ≠ '\n' ∧ c ≠ '\r' :=
      ⟨fun heq => h.1 (heq ▸ List.mem_cons_self), fun heq => h.2 (heq ▸ List.mem_cons_self)⟩
    have htext : OneLine text :=
      ⟨fun hm => h.1 (List.mem_cons_of_mem c hm), fun hm => h.2 (List.mem_cons_of_mem c hm)⟩
    rw [List.cons_append, linesFrom_cons hc.1 hc.2, ih htext, List.append_assoc]
    rfl

theorem readField_event (b : Buffers) (type : List Char) :
    b.readField ("event: ".toList ++ type) = { b with type } := rfl

theorem readField_data (b : Buffers) (data : List Char) :
    b.readField ("data: ".toList ++ data) = { b with data := b.data ++ data ++ ['\n'] } := rfl

theorem oneLine_event : OneLine "event: ".toList := ⟨by decide, by decide⟩

theorem oneLine_data : OneLine "data: ".toList := ⟨by decide, by decide⟩

theorem readLines_field {line : List Char} (h : line ≠ []) (b : Buffers)
    (lines : List (List Char)) :
    readLines b (line :: lines) = readLines (b.readField line) lines := by
  cases line with
  | nil => exact absurd rfl h
  | cons c line => rfl

theorem named_ne_nil {name : String} (h : name.toList ≠ []) (value : List Char) :
    name.toList ++ value ≠ [] := fun heq => h (List.append_eq_nil_iff.mp heq).1

/-- The line of the data, and the empty line behind it. -/
theorem readLines_data (b : Buffers) {data : List Char} (hdata : OneLine data) (rest : List Char) :
    readLines b (linesFrom [] (dataFrame data ++ rest)) =
      { type := if b.type = [] then "message".toList else b.type, data := b.data ++ data } ::
        events rest := by
  have hlines : linesFrom [] (dataFrame data ++ rest) =
      ("data: ".toList ++ data) :: [] :: linesFrom [] rest := by
    have hfirst := linesFrom_line (oneLine_data.append hdata) [] ('\n' :: rest)
    have hempty : OneLine [] := ⟨List.not_mem_nil, List.not_mem_nil⟩
    have hsecond : linesFrom [] ('\n' :: rest) = [] :: linesFrom [] rest :=
      linesFrom_line hempty [] rest
    rw [List.nil_append] at hfirst
    have hframe : dataFrame data ++ rest = "data: ".toList ++ data ++ '\n' :: '\n' :: rest :=
      List.append_assoc ("data: ".toList ++ data) ['\n', '\n'] rest
    rw [hframe, hfirst, hsecond]
  have hne : b.data ++ data ++ ['\n'] ≠ [] := by simp
  rw [hlines, readLines_field (named_ne_nil (by decide) data), readField_data, readLines,
    Buffers.dispatch, if_neg hne, List.dropLast_concat]
  rfl

theorem events_dataFrame {data : List Char} (hdata : OneLine data) (rest : List Char) :
    events (dataFrame data ++ rest) = { type := "message".toList, data } :: events rest := by
  rw [events, readLines_data _ hdata, if_pos rfl, List.nil_append]

theorem events_frame {type data : List Char} (hne : type ≠ []) (htype : OneLine type)
    (hdata : OneLine data) (rest : List Char) :
    events (frame type data ++ rest) = { type, data } :: events rest := by
  have hfirst := linesFrom_line (oneLine_event.append htype) [] (dataFrame data ++ rest)
  have hsplit : frame type data ++ rest =
      "event: ".toList ++ type ++ '\n' :: (dataFrame data ++ rest) :=
    List.append_assoc ("event: ".toList ++ type) ('\n' :: dataFrame data) rest
  rw [List.nil_append] at hfirst
  rw [events, hsplit, hfirst, readLines_field (named_ne_nil (by decide) type), readField_event,
    readLines_data _ hdata, if_neg hne]
  rfl

open JsonTexts in
/-- A JSON text is on one line. -/
theorem oneLine_encode {fmt : NumberFormat} (style : Style) {v : Json} (h : Valid fmt v) :
    OneLine (encode style fmt v) :=
  ⟨fun hm => absurd (le_toNat_of_mem_encode style h hm) (by decide),
    fun hm => absurd (le_toNat_of_mem_encode style h hm) (by decide)⟩

end Ragx.EventStreams
