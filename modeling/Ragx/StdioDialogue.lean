import Ragx.BlankRuns
import Ragx.StreamFrames

/-!
# The dialogue over standard input and output

The client of a local server writes messages into a pipe, in any pieces, and reads the responses
from another one, while the server takes one line after the other. The main result is that the
client reads what it would get through a session with the same messages, however reading and
writing interleave.
-/
namespace Ragx

open BlankRuns EventStreams JsonTexts

/-! ## Lines -/

/-- The lines that are read until the text ends. The last one may lack its end. -/
def inputLinesFrom (line : List Char) : List Char → List (List Char)
  | [] => if line = [] then [] else [line]
  | c :: rest =>
    if c = '\n' then line :: inputLinesFrom [] rest else inputLinesFrom (line ++ [c]) rest

def inputLines (text : List Char) : List (List Char) := inputLinesFrom [] text

theorem inputLinesFrom_append {text : List Char} (h : '\n' ∉ text) (line rest : List Char) :
    inputLinesFrom line (text ++ rest) = inputLinesFrom (line ++ text) rest := by
  induction text generalizing line with
  | nil => rw [List.nil_append, List.append_nil]
  | cons c text ih =>
    have hc : c ≠ '\n' := Ne.symm (List.ne_of_not_mem_cons h)
    rw [List.cons_append, inputLinesFrom, if_neg hc, ih (List.not_mem_of_not_mem_cons h),
      List.append_assoc, List.singleton_append]

theorem inputLines_line {line : List Char} (h : '\n' ∉ line) (rest : List Char) :
    inputLines (line ++ '\n' :: rest) = line :: inputLines rest := by
  rw [inputLines, inputLinesFrom_append h, List.nil_append, inputLinesFrom, if_pos rfl, inputLines]

theorem inputLines_last {line : List Char} (h : '\n' ∉ line) (hne : line ≠ []) :
    inputLines line = [line] := by
  have happend := inputLinesFrom_append h [] []
  rw [List.append_nil, List.nil_append] at happend
  rw [inputLines, happend, inputLinesFrom, if_neg hne]

/-- The first line of a text, and what is behind it. -/
theorem eq_line_append {text : List Char} (h : '\n' ∈ text) :
    '\n' ∉ text.takeWhile (· ≠ '\n') ∧
      text = text.takeWhile (· ≠ '\n') ++ '\n' :: (text.dropWhile (· ≠ '\n')).tail := by
  have hnot : '\n' ∉ text.takeWhile (· ≠ '\n') := by
    intro hmem
    simpa using List.mem_takeWhile_imp hmem
  refine ⟨hnot, ?_⟩
  cases hdrop : text.dropWhile (· ≠ '\n') with
  | nil =>
    have happend := List.takeWhile_append_dropWhile (p := fun c => decide (c ≠ '\n')) (l := text)
    rw [hdrop, List.append_nil] at happend
    rw [happend] at hnot
    exact absurd h hnot
  | cons c rest =>
    have hc : c = '\n' := by
      have hhead := List.head?_dropWhile_not (fun c => decide (c ≠ '\n')) text
      rw [hdrop] at hhead
      simpa using hhead
    have happend := List.takeWhile_append_dropWhile (p := fun c => decide (c ≠ '\n')) (l := text)
    rw [hdrop, hc] at happend
    exact happend.symm

theorem linesFrom_of_break {c : Char} {rest : List Char} (line : List Char)
    (hpair : ∀ rest', c = '\r' → rest = '\n' :: rest' → False) (hc : c = '\r' ∨ c = '\n') :
    linesFrom line (c :: rest) = line :: linesFrom [] rest := by
  rw [linesFrom, if_pos hc]
  exact hpair

/-- What is behind a text adds lines to its lines. -/
theorem prefix_linesFrom (line front back : List Char) :
    linesFrom line front <+: linesFrom line (front ++ back) := by
  fun_induction linesFrom line front with
  | case1 line => exact List.nil_prefix
  | case2 line rest ih => exact List.cons_prefix_cons.mpr ⟨rfl, ih⟩
  | case3 line c rest hpair hc ih =>
    cases rest with
    | nil =>
      by_cases hback : ∃ rest', c = '\r' ∧ back = '\n' :: rest'
      · obtain ⟨rest', rfl, rfl⟩ := hback
        exact List.cons_prefix_cons.mpr ⟨rfl, List.nil_prefix⟩
      · have hback' : ∀ rest', c = '\r' → back = '\n' :: rest' → False :=
          fun rest' hr hb => hback ⟨rest', hr, hb⟩
        rw [List.cons_append, List.nil_append, linesFrom_of_break line hback' hc]
        exact List.cons_prefix_cons.mpr ⟨rfl, List.nil_prefix⟩
    | cons d rest =>
      have hpair' : ∀ rest', c = '\r' → d :: (rest ++ back) = '\n' :: rest' → False :=
        fun rest' hr hd => hpair rest hr (by rw [(List.cons.inj hd).1])
      rw [List.cons_append, List.cons_append, linesFrom_of_break line hpair' hc]
      exact List.cons_prefix_cons.mpr ⟨rfl, ih⟩
  | case4 line c rest hpair hc ih =>
    obtain ⟨hreturn, hfeed⟩ := not_or.mp hc
    rw [List.cons_append, linesFrom_cons hfeed hreturn]
    exact ih

theorem linesFrom_lines {texts : List (List Char)} (h : ∀ text ∈ texts, OneLine text) :
    linesFrom [] (texts.flatMap (· ++ ['\n'])) = texts := by
  induction texts with
  | nil => rfl
  | cons text texts ih =>
    obtain ⟨htext, h⟩ := List.forall_mem_cons.mp h
    rw [List.flatMap_cons, List.append_assoc, List.singleton_append, linesFrom_line htext,
      List.nil_append, ih h]

/-! ## The loop over the lines -/

namespace WireFormat

/-- The texts of a format for the values that it reads. -/
def ofTexts (fmt : NumberFormat) (decodeError : List Char → String) (report : Json → String) :
    WireFormat where
  loads text :=
    match JsonTexts.loads fmt text.toList with
    | none => .error (decodeError text.toList)
    | some data => .ok data
  report := report

variable (wire : WireFormat)

/-- One turn of `StdioTransport.run`, with what it writes. -/
def readLine (server : MCPServer) (line : List Char) : MCPServer × List Json :=
  let line := String.ofList (strip line)
  if line = "" then (server, [])
  else match wire.loads line with
    | .error text => (server, [(parseFailure text).dump])
    | .ok data =>
      let answered := wire.answer server data
      (answered.server, [answered.response.dump])

def serverAfterLines (server : MCPServer) (lines : List (List Char)) : MCPServer :=
  lines.foldl (fun server line => (wire.readLine server line).1) server

/-- The responses to the messages in some lines. -/
def lineResponses (server : MCPServer) (lines : List (List Char)) : List Json :=
  wire.responses server (wire.messages (lines.map String.ofList))

theorem lineResponses_cons (server : MCPServer) (line : List Char) (lines : List (List Char)) :
    wire.lineResponses server (line :: lines) = (wire.readLine server line).2 ++
      wire.lineResponses (wire.readLine server line).1 lines := by
  unfold lineResponses readLine
  rw [← runStdio_eq, ← runStdio_eq, List.map_cons, runStdio]
  simp only [String.toList_ofList]
  split_ifs
  · rfl
  · cases wire.loads (String.ofList (strip line)) with
    | error text => rfl
    | ok data => rfl

theorem lineResponses_append (server : MCPServer) (lines more : List (List Char)) :
    wire.lineResponses server (lines ++ more) = wire.lineResponses server lines ++
      wire.lineResponses (wire.serverAfterLines server lines) more := by
  induction lines generalizing server with
  | nil => rfl
  | cons line lines ih =>
    rw [List.cons_append, lineResponses_cons, lineResponses_cons, ih, List.append_assoc]
    rfl

theorem serverAfterLines_concat (server : MCPServer) (lines : List (List Char))
    (line : List Char) : wire.serverAfterLines server (lines ++ [line]) =
      (wire.readLine (wire.serverAfterLines server lines) line).1 := by
  rw [serverAfterLines, List.foldl_append]
  rfl

theorem lineResponses_singleton (server : MCPServer) (line : List Char) :
    wire.lineResponses server [line] = (wire.readLine server line).2 := by
  rw [lineResponses_cons]
  exact List.append_nil _

end WireFormat

/-! ## Both ends of the pipes -/

/-- The pipe into the server, the server, and the pipe back. What a client has written and what it
has received is kept. -/
structure StdioDialogue where
  server : MCPServer
  written : List Char := []
  unread : List Char := []
  closed : Bool := false
  stopped : Bool := false
  stdout : List Char := []
  received : List Char := []

/-- The client writes, closes its end or reads at most so many characters; the server takes a line
in `serve`. -/
inductive StdioEvent where
  | write (piece : List Char)
  | close
  | serve
  | read (n : ℕ)

def responseLine (fmt : NumberFormat) (response : Json) : List Char :=
  encode .modelDumpJson fmt response ++ ['\n']

namespace StdioDialogue

variable (wire : WireFormat) (fmt : NumberFormat)

def serveLine (d : StdioDialogue) (line rest : List Char) : StdioDialogue :=
  let (server, responses) := wire.readLine d.server line
  { d with server, unread := rest, stdout := d.stdout ++ responses.flatMap (responseLine fmt) }

/-- The server waits for a line to come to its end, unless the input is closed. -/
def step (d : StdioDialogue) : StdioEvent → Option StdioDialogue
  | .write piece =>
    if d.closed then none
    else some { d with written := d.written ++ piece, unread := d.unread ++ piece }
  | .close => some { d with closed := true }
  | .serve =>
    if d.stopped then none
    else if '\n' ∈ d.unread then
      some (d.serveLine wire fmt (d.unread.takeWhile (· ≠ '\n'))
        (d.unread.dropWhile (· ≠ '\n')).tail)
    else if d.closed = false then none
    else if d.unread = [] then some { d with stopped := true }
    else some (d.serveLine wire fmt d.unread [])
  | .read n =>
    some { d with received := d.received ++ d.stdout.take n, stdout := d.stdout.drop n }

/-- The server has taken the first lines of the input, whatever is still written, and their
responses are with the client or on the way to it. -/
structure Kept (server : MCPServer) (done : List (List Char)) (d : StdioDialogue) : Prop where
  lines : ∀ more, (d.closed = true → more = []) →
    inputLines (d.written ++ more) = done ++ inputLines (d.unread ++ more)
  server_eq : d.server = wire.serverAfterLines server done
  sent : d.received ++ d.stdout = (wire.lineResponses server done).flatMap (responseLine fmt)
  stopped : d.stopped = true → d.closed = true ∧ d.unread = []

variable {wire fmt} {server : MCPServer} {done : List (List Char)} {d d' : StdioDialogue}

theorem kept_serveLine (h : Kept wire fmt server done d) (hrunning : d.stopped = false)
    {line rest : List Char} (hlines : ∀ more, (d.closed = true → more = []) →
      inputLines (d.unread ++ more) = line :: inputLines (rest ++ more)) :
    Kept wire fmt server (done ++ [line]) (d.serveLine wire fmt line rest) where
  lines more hmore := by
    rw [List.append_assoc, List.singleton_append]
    exact (h.lines more hmore).trans (congrArg (done ++ ·) (hlines more hmore))
  server_eq := by
    rw [WireFormat.serverAfterLines_concat, ← h.server_eq]
    rfl
  sent := by
    rw [WireFormat.lineResponses_append, WireFormat.lineResponses_singleton, ← h.server_eq,
      List.flatMap_append, ← h.sent, List.append_assoc]
    rfl
  stopped hstopped := absurd (hrunning.symm.trans hstopped) Bool.false_ne_true

theorem kept_step {e : StdioEvent} (h : Kept wire fmt server done d)
    (hstep : step wire fmt d e = some d') : ∃ done', Kept wire fmt server done' d' := by
  cases e with
  | write piece =>
    rw [step] at hstep
    split_ifs at hstep with hclosed
    cases hstep
    refine ⟨done, fun more _ => ?_, h.server_eq, h.sent, fun hstopped => ?_⟩
    · rw [List.append_assoc, List.append_assoc]
      exact h.lines (piece ++ more) fun hc => absurd hc hclosed
    · exact absurd (h.stopped hstopped).1 hclosed
  | close =>
    cases hstep
    exact ⟨done, fun more hmore => h.lines more fun _ => hmore rfl, h.server_eq, h.sent,
      fun hstopped => ⟨rfl, (h.stopped hstopped).2⟩⟩
  | serve =>
    rw [step] at hstep
    split_ifs at hstep with hstopped hline hopen hend
    · cases hstep
      obtain ⟨hnot, heq⟩ := eq_line_append hline
      refine ⟨_, kept_serveLine h (Bool.eq_false_iff.mpr hstopped) fun more _ => ?_⟩
      conv_lhs => rw [heq, List.append_assoc, List.cons_append]
      exact inputLines_line hnot _
    · cases hstep
      exact ⟨done, h.lines, h.server_eq, h.sent, fun _ => ⟨by simpa using hopen, hend⟩⟩
    · cases hstep
      refine ⟨_, kept_serveLine h (Bool.eq_false_iff.mpr hstopped) fun more hmore => ?_⟩
      obtain rfl := hmore (by simpa using hopen)
      rw [List.append_nil, inputLines_last hline hend]
      rfl
  | read n =>
    cases hstep
    refine ⟨done, h.lines, h.server_eq, ?_, h.stopped⟩
    rw [List.append_assoc, List.take_append_drop]
    exact h.sent

theorem kept_run {es : List StdioEvent} (hrun : run (step wire fmt) { server } es = some d) :
    ∃ done, Kept wire fmt server done d := by
  have hstep : ∀ d e d', (∃ done, Kept wire fmt server done d) → step wire fmt d e = some d' →
      ∃ done, Kept wire fmt server done d' := fun _ _ _ ⟨_, h⟩ hs => kept_step h hs
  have hstart : Kept wire fmt server [] { server } :=
    ⟨fun _ _ => rfl, rfl, rfl, fun hstopped => absurd hstopped Bool.false_ne_true⟩
  exact run_invariant hstep ⟨[], hstart⟩ hrun

end StdioDialogue

/-! ## What the client reads -/

/-- The lines that a client has received whole, decoded. -/
def decodedLines (fmt : NumberFormat) (received : List Char) : List (Option Json) :=
  (linesFrom [] received).map (loads fmt)

theorem decodedLines_responses {fmt : NumberFormat} {responses : List Json}
    (h : ∀ response ∈ responses, Valid fmt response) :
    decodedLines fmt (responses.flatMap (responseLine fmt)) = responses.map some := by
  have htexts : ∀ text ∈ responses.map (encode .modelDumpJson fmt), OneLine text := by
    rintro text htext
    obtain ⟨response, hmem, rfl⟩ := List.mem_map.mp htext
    exact oneLine_encode _ (h response hmem)
  have hlines := linesFrom_lines htexts
  rw [List.flatMap_map] at hlines
  rw [decodedLines]
  unfold responseLine
  rw [hlines, List.map_map]
  exact List.map_congr_left fun response hmem => loads_encode _ (h response hmem)

/-- A message in a style on a line of its own. -/
def messageLine (fmt : NumberFormat) (message : Style × List (String × Json)) : List Char :=
  encode message.1 fmt (.obj message.2) ++ ['\n']

theorem strip_encode_obj (style : Style) (fmt : NumberFormat) (members : List (String × Json)) :
    strip (encode style fmt (.obj members)) = encode style fmt (.obj members) := by
  have hstart : startsBlank isWhitespace (encode style fmt (.obj members)) = false := by
    rw [encode]
    rfl
  have hend : endsBlank isWhitespace (encode style fmt (.obj members)) = false := by
    rw [encode, ← List.cons_append, endsBlank, List.getLast?_concat]
    rfl
  exact trim_eq_self hstart hend

theorem messages_messageLines {fmt : NumberFormat} (decodeError : List Char → String)
    (report : Json → String) {messages : List (Style × List (String × Json))}
    (h : ∀ message ∈ messages, Valid fmt (.obj message.2)) :
    (WireFormat.ofTexts fmt decodeError report).messages
        ((inputLines (messages.flatMap (messageLine fmt))).map String.ofList) =
      messages.map fun message => .ok (.obj message.2) := by
  induction messages with
  | nil => rfl
  | cons message messages ih =>
    obtain ⟨hvalid, h⟩ := List.forall_mem_cons.mp h
    have hnot : '\n' ∉ encode message.1 fmt (.obj message.2) := (oneLine_encode _ hvalid).1
    have hne : String.ofList (encode message.1 fmt (.obj message.2)) ≠ "" := by
      intro hempty
      have hnil := String.ofList_eq_empty_iff.mp hempty
      rw [encode] at hnil
      cases hnil
    have hloads : (WireFormat.ofTexts fmt decodeError report).loads
        (String.ofList (encode message.1 fmt (.obj message.2))) = .ok (.obj message.2) := by
      simp only [WireFormat.ofTexts, String.toList_ofList, loads_encode message.1 hvalid]
    rw [List.flatMap_cons, messageLine, List.append_assoc, List.singleton_append,
      inputLines_line hnot]
    simp only [WireFormat.messages, List.map_cons, String.toList_ofList, strip_encode_obj]
    rw [List.filter_cons_of_pos (by simpa using hne), List.map_cons, hloads]
    exact congrArg _ (ih h)

namespace StdioDialogue

def pipedRequest : List (String × Json) :=
  [("jsonrpc", .str "2.0"), ("id", .num 1), ("method", .str "initialize")]

def pipedText : List Char := encode .dumps integerFormat (.obj pipedRequest)

def pipedServer : MCPServer := { backend := McpBackend.stub (fun _ => "") (fun _ => "") }

def pipedEvents : List StdioEvent := [.write ('\n' :: pipedText.take 20), .serve,
  .write (pipedText.drop 20 ++ ['\n']), .serve, .read 10, .close, .serve, .read 500]

end StdioDialogue

end Ragx
