import Wayfarer.Transport.Fetch

/-!
# Event streams

`SseParser` reads an event stream as its text arrives, in pieces cut anywhere: it keeps what follows
the last line end, and a CR at the very end, which may be the first half of a CRLF.
`push_append` says that the pieces do not matter.

The second half reads a whole stream as the HTML standard does (`Standard`), and says for which
texts `parseEventStream` gives the same events.
-/

set_option autoImplicit false

namespace Wayfarer

open Library

/-- An event, as a browser would dispatch it. -/
structure SseEvent where
  id : Text
  event : Text
  data : Text
  deriving DecidableEq

/-- What a parser carries from piece to piece. -/
structure SseParser where
  rest : Text := []
  started : Bool := false
  data : Option (List Text) := none
  event : Text := []
  lastId : Text := []

/-- A line feed and a carriage return. -/
def lineFeed : CodeUnit := 0x0A
def carriageReturn : CodeUnit := 0x0D

/-- A character that is no line end. -/
def inLine (c : CodeUnit) : Bool :=
  c ≠ carriageReturn && c ≠ lineFeed

/-- The first line of a buffer, and what follows its end. -/
def nextLine (buffer : Text) : Option (Text × Text) :=
  match buffer.dropWhile inLine with
  | [] => none
  | c :: following =>
      if c = carriageReturn then
        match following with
        -- A CR at the very end may be the first half of a CRLF: it waits for the next piece.
        | [] => none
        | next :: later =>
            some (buffer.takeWhile inLine, if next = lineFeed then later else following)
      else some (buffer.takeWhile inLine, following)

theorem length_of_nextLine {buffer line following : Text}
    (h : nextLine buffer = some (line, following)) : following.length < buffer.length := by
  have hdrop : (buffer.dropWhile inLine).length ≤ buffer.length := List.length_dropWhile_le _ _
  unfold nextLine at h
  split at h
  · cases h
  · next c tail hc =>
      rw [hc, List.length_cons] at hdrop
      split_ifs at h
      · split at h
        · cases h
        · next next later =>
            cases h
            rw [List.length_cons] at hdrop
            split_ifs
            · omega
            · rw [List.length_cons]
              omega
      · cases h
        omega

/-- The lines of a buffer, and what is left of it. -/
def linesOf (buffer : Text) : List Text × Text :=
  match h : nextLine buffer with
  | none => ([], buffer)
  | some (line, following) =>
      have := length_of_nextLine h
      (line :: (linesOf following).1, (linesOf following).2)
termination_by buffer.length

/-- The field a line sets, and the value. -/
def fieldOf (line : Text) : Text × Text :=
  match cutAt 0x3A line with
  | (field, none) => (field, [])
  | (field, some (0x20 :: value)) => (field, value)
  | (field, some value) => (field, value)

namespace SseParser

variable (p : SseParser)

/-- A line, and the event it completes. -/
def line (line : Text) : Option SseEvent × SseParser :=
  if line = [] then
    (p.data.map fun data =>
      { id := p.lastId
        event := if p.event = [] then units "message" else p.event
        data := joinWith [lineFeed] data },
      { p with data := none, event := [] })
  -- A line that starts with a colon is a comment.
  else if line.head? = some 0x3A then (none, p)
  else
    let field := (fieldOf line).1
    let value := (fieldOf line).2
    if field = units "data" then (none, { p with data := some (p.data.getD [] ++ [value]) })
    else if field = units "event" then (none, { p with event := value })
    else if field = units "id" && !value.contains 0 then (none, { p with lastId := value })
    else (none, p)

/-- Lines one after the other, and the events they complete. -/
def lines : SseParser → List Text → List SseEvent × SseParser
  | p, [] => ([], p)
  | p, line :: rest =>
      let read := p.line line
      (read.1.toList ++ (lines read.2 rest).1, (lines read.2 rest).2)

/-- A buffer without the byte order mark it starts with. -/
def withoutMark : Text → Text
  | 0xFEFF :: rest => rest
  | buffer => buffer

/-- The events that a text completes. -/
def push (text : Text) : List SseEvent × SseParser :=
  let whole := p.rest ++ text
  let starts := !p.started && !whole.isEmpty
  let buffer := if starts then withoutMark whole else whole
  let read := ({ p with started := p.started || starts } : SseParser).lines (linesOf buffer).1
  (read.1, { read.2 with rest := (linesOf buffer).2 })

end SseParser

/-- The events of a whole event stream that has been read already. -/
def parseEventStream (text : Text) : List SseEvent :=
  (SseParser.push {} text).1

/-! ## Pieces -/

/-- A line that a buffer holds is its first one whatever follows. -/
theorem nextLine_append {a line following : Text} (h : nextLine a = some (line, following))
    (b : Text) : nextLine (a ++ b) = some (line, following ++ b) := by
  unfold nextLine at h
  split at h
  · cases h
  · next c tail hc =>
      have hdrop : (a ++ b).dropWhile inLine = c :: (tail ++ b) := by
        rw [List.dropWhile_append, hc]
        rfl
      have htake : (a ++ b).takeWhile inLine = a.takeWhile inLine := by
        have hlen : (a.takeWhile inLine).length ≠ a.length := by
          intro hall
          have hsplit :=
            congrArg List.length (List.takeWhile_append_dropWhile (p := inLine) (l := a))
          rw [List.length_append, hc, List.length_cons] at hsplit
          omega
        rw [List.takeWhile_append, if_neg hlen]
      unfold nextLine
      rw [hdrop, htake]
      dsimp only
      split_ifs at h ⊢
      · cases tail with
        | nil => cases h
        | cons next later =>
            cases h
            rw [List.cons_append]
            dsimp only
            split_ifs <;> rfl
      · cases h
        rfl

theorem linesOf_of_none {buffer : Text} (h : nextLine buffer = none) :
    linesOf buffer = ([], buffer) := by
  rw [linesOf]
  split
  · rfl
  · next hsome =>
      rw [h] at hsome
      cases hsome

theorem linesOf_of_some {buffer line following : Text}
    (h : nextLine buffer = some (line, following)) :
    linesOf buffer = (line :: (linesOf following).1, (linesOf following).2) := by
  rw [linesOf]
  split
  · next hnone =>
      rw [h] at hnone
      cases hnone
  · next line' following' hsome =>
      rw [h] at hsome
      cases hsome
      rfl

/-- The lines of two pieces are those of the first, and those of what it left with the second. -/
theorem linesOf_append (a b : Text) :
    linesOf (a ++ b) = ((linesOf a).1 ++ (linesOf ((linesOf a).2 ++ b)).1,
      (linesOf ((linesOf a).2 ++ b)).2) := by
  induction a using linesOf.induct with
  | case1 buffer hnone =>
      rw [linesOf_of_none hnone]
      rfl
  | case2 buffer line following hsome _ ih =>
      rw [linesOf_of_some hsome, linesOf_of_some (nextLine_append hsome b), ih]
      rfl

namespace SseParser

variable {p : SseParser}

/-- Lines of two pieces, one after the other. -/
theorem lines_append (first second : List Text) :
    p.lines (first ++ second) = ((p.lines first).1 ++ ((p.lines first).2.lines second).1,
      ((p.lines first).2.lines second).2) := by
  induction first generalizing p with
  | nil => rfl
  | cons line rest ih =>
      rw [List.cons_append, lines, lines]
      dsimp only
      rw [ih, List.append_assoc]

/-- A line reads nothing of what is kept for the next piece. -/
theorem line_with (text : Text) (rest : Text) (started : Bool) :
    ({ p with rest, started } : SseParser).line text =
      ((p.line text).1, { (p.line text).2 with rest, started }) := by
  unfold line
  dsimp only
  split_ifs <;> rfl

theorem lines_with (texts : List Text) (rest : Text) (started : Bool) :
    ({ p with rest, started } : SseParser).lines texts =
      ((p.lines texts).1, { (p.lines texts).2 with rest, started }) := by
  induction texts generalizing p with
  | nil => rfl
  | cons text texts ih =>
      rw [lines, line_with, lines]
      dsimp only
      rw [ih]

theorem withoutMark_append {a : Text} (h : a ≠ []) (b : Text) :
    withoutMark (a ++ b) = withoutMark a ++ b := by
  cases a with
  | nil => exact absurd rfl h
  | cons c rest =>
      rw [List.cons_append]
      unfold withoutMark
      split
      · next heq =>
          obtain ⟨rfl, rfl⟩ := List.cons.inj heq
          rfl
      · next hmark =>
          split
          · next heq =>
              obtain ⟨rfl, rfl⟩ := List.cons.inj heq
              exact absurd rfl (hmark (rest ++ b))
          · rfl

/-- A push, where something has arrived: a parser that has started reads on, one that starts takes
off the mark. -/
theorem push_eq (text : Text) (h : p.started = true ∨ p.rest ++ text ≠ []) :
    p.push text =
      let buffer := if p.started then p.rest ++ text else withoutMark (p.rest ++ text)
      ((p.lines (linesOf buffer).1).1,
        { (p.lines (linesOf buffer).1).2 with rest := (linesOf buffer).2, started := true }) := by
  have hstarts : (p.started || (!p.started && !(p.rest ++ text).isEmpty)) = true := by
    cases hstarted : p.started with
    | true => rfl
    | false =>
        rw [hstarted] at h
        have hne := h.resolve_left Bool.false_ne_true
        cases hwhole : p.rest ++ text with
        | nil => exact absurd hwhole hne
        | cons c rest => rfl
  have hbuffer : (if (!p.started && !(p.rest ++ text).isEmpty) = true
      then withoutMark (p.rest ++ text) else p.rest ++ text) =
        if p.started then p.rest ++ text else withoutMark (p.rest ++ text) := by
    cases hstarted : p.started with
    | true => rfl
    | false =>
        rw [hstarted, Bool.false_or] at hstarts
        rw [if_pos hstarts, if_neg Bool.false_ne_true]
  unfold push
  dsimp only
  rw [hbuffer, hstarts, show ({ p with started := true } : SseParser) =
    { p with rest := p.rest, started := true } from rfl, lines_with]

/-- A parser that nothing has reached stays as it is. -/
theorem push_nothing (h : p.started = false) (hrest : p.rest = []) : p.push [] = ([], p) := by
  cases p with
  | mk rest started data event lastId =>
      cases h
      cases hrest
      have hlines : linesOf [] = ([], []) := linesOf_of_none rfl
      unfold push
      dsimp only
      simp [hlines, lines]

/-- What one piece leaves and the next one completes is what both at once do. -/
theorem push_append (a b : Text) :
    p.push (a ++ b) = ((p.push a).1 ++ ((p.push a).2.push b).1, ((p.push a).2.push b).2) := by
  by_cases hsome : p.started = true ∨ p.rest ++ a ≠ []
  · have hboth : p.started = true ∨ p.rest ++ (a ++ b) ≠ [] := by
      refine hsome.imp id fun hne hnil => hne ?_
      rw [← List.append_assoc] at hnil
      exact (List.append_eq_nil_iff.mp hnil).1
    have hbuffer : (if p.started = true then p.rest ++ (a ++ b) else
        withoutMark (p.rest ++ (a ++ b))) =
        (if p.started = true then p.rest ++ a else withoutMark (p.rest ++ a)) ++ b := by
      rw [← List.append_assoc]
      split_ifs with hstarted
      · rfl
      · exact withoutMark_append (hsome.resolve_left hstarted) b
    rw [push_eq _ hboth, push_eq _ hsome, push_eq _ (Or.inl rfl)]
    dsimp only
    rw [if_pos rfl, hbuffer]
    generalize (if p.started = true then p.rest ++ a else withoutMark (p.rest ++ a)) = buffer
    have hnext := lines_with (p := (p.lines (linesOf buffer).1).2)
      (linesOf ((linesOf buffer).2 ++ b)).1 (linesOf buffer).2 true
    rw [linesOf_append, lines_append, hnext]
  · obtain ⟨hstarted, hnil⟩ := not_or.mp hsome
    rw [not_not] at hnil
    obtain ⟨hrest, rfl⟩ := List.append_eq_nil_iff.mp hnil
    rw [push_nothing (by simpa using hstarted) hrest]
    rfl

end SseParser

/-! ## Reading as it arrives -/

/-- A stream that is being read: the decoder's state, the parser's, the bytes kept and whether there
were more (`readEventStream`), and the events so far. -/
structure StreamRead (δ : Type) where
  decoder : δ
  parser : SseParser := {}
  kept : List Nat × Bool := ([], false)
  events : List SseEvent := []

section Stream

variable {δ : Type} (decode : δ → List Nat → Text × δ)

/-- A chunk read: kept as far as there is room, decoded, and its events taken. -/
def StreamRead.read (s : StreamRead δ) (chunk : List Nat) : StreamRead δ :=
  let decoded := decode s.decoder chunk
  let pushed := s.parser.push decoded.1
  { decoder := decoded.2
    parser := pushed.2
    kept := keepChunk s.kept chunk
    events := s.events ++ pushed.1 }

/-- Reads an event stream as it arrives. -/
def readEvents (start : δ) (chunks : List (List Nat)) : StreamRead δ :=
  chunks.foldl (StreamRead.read decode) { decoder := start }

/-- A decoder that cares for no cut: what it gives for two pieces is what it
gives for both at once. -/
structure DecodesOn : Prop where
  nothing : ∀ d, decode d [] = ([], d)
  pieces : ∀ d a b, decode d (a ++ b) =
    ((decode d a).1 ++ (decode (decode d a).2 b).1, (decode (decode d a).2 b).2)

variable {decode}

/-- Two pieces are kept as far as both at once are. -/
theorem keepChunk_append (kept : List Nat × Bool) (a b : List Nat) :
    keepChunk kept (a ++ b) = keepChunk (keepChunk kept a) b := by
  have hroom : streamBodyBytes - (kept.1 ++ a.take (streamBodyBytes - kept.1.length)).length =
      streamBodyBytes - kept.1.length - a.length := by
    rw [List.length_append, List.length_take]
    omega
  have hkept : (a ++ b).take (streamBodyBytes - kept.1.length) =
      a.take (streamBodyBytes - kept.1.length) ++
        b.take (streamBodyBytes - kept.1.length - a.length) := List.take_append
  have htruncated : decide (streamBodyBytes - kept.1.length < (a ++ b).length) =
      (decide (streamBodyBytes - kept.1.length < a.length) ||
        decide (streamBodyBytes - kept.1.length - a.length < b.length)) := by
    rw [← Bool.decide_or, decide_eq_decide, List.length_append]
    omega
  unfold keepChunk
  dsimp only
  rw [hroom, hkept, htruncated, Bool.or_assoc, List.append_assoc]

theorem StreamRead.read_append (h : DecodesOn decode) (s : StreamRead δ) (a b : List Nat) :
    s.read decode (a ++ b) = (s.read decode a).read decode b := by
  have hpush := SseParser.push_append (p := s.parser) (decode s.decoder a).1
    (decode (decode s.decoder a).2 b).1
  unfold StreamRead.read
  dsimp only
  rw [h.pieces, hpush, keepChunk_append, List.append_assoc]

/-- Chunks read one after the other are read as one. -/
theorem foldl_read (h : DecodesOn decode) (s : StreamRead δ) (chunk : List Nat)
    (chunks : List (List Nat)) :
    (chunk :: chunks).foldl (StreamRead.read decode) s =
      s.read decode (chunk ++ chunks.flatten) := by
  induction chunks generalizing s chunk with
  | nil => rw [List.flatten_nil, List.append_nil, List.foldl_cons, List.foldl_nil]
  | cons next chunks ih =>
      rw [List.foldl_cons, ih, List.flatten_cons, ← StreamRead.read_append h]

/-- A stream that has given nothing. -/
theorem read_nothing (h : DecodesOn decode) (start : δ) :
    StreamRead.read decode { decoder := start } [] = { decoder := start } := by
  unfold StreamRead.read
  dsimp only
  rw [h.nothing, SseParser.push_nothing rfl rfl]
  rfl

theorem readEvents_eq (h : DecodesOn decode) (start : δ) (chunks : List (List Nat)) :
    readEvents decode start chunks =
      StreamRead.read decode { decoder := start } chunks.flatten := by
  cases chunks with
  | nil => exact (read_nothing h start).symm
  | cons chunk chunks => exact foldl_read h _ chunk chunks

end Stream

/-- For all texts and every state of the parser, two pieces give what both at once do; and a stream
is read to the same events however the network cuts it, by a decoder that cares for no cut. -/
theorem eventStream_anyCut {δ : Type} (decode : δ → List Nat → Text × δ) :
    (∀ (p : SseParser) (a b : Text), p.push (a ++ b) =
      ((p.push a).1 ++ ((p.push a).2.push b).1, ((p.push a).2.push b).2)) ∧
    (DecodesOn decode → ∀ (start : δ) (chunks chunks' : List (List Nat)),
      chunks.flatten = chunks'.flatten →
        readEvents decode start chunks = readEvents decode start chunks') := by
  refine ⟨fun p => SseParser.push_append, fun h start chunks chunks' hsame => ?_⟩
  rw [readEvents_eq h, readEvents_eq h, hsame]

/-- Bytes of plain letters, each its own character. -/
def decodePlain (_ : Unit) (bytes : List Nat) : Text × Unit :=
  (bytes.map Nat.toUInt16, ())

theorem decodePlain_anyCut :
    readEvents decodePlain () [[0x64, 0x61, 0x74], [0x61, 0x0D], [0x0A, 0x0D, 0x0A]] =
      readEvents decodePlain () [[0x64, 0x61, 0x74, 0x61, 0x0D, 0x0A, 0x0D, 0x0A]] := by
  have hdecodes : DecodesOn decodePlain := by
    refine ⟨fun _ => rfl, fun _ a b => ?_⟩
    unfold decodePlain
    rw [List.map_append]
  exact (eventStream_anyCut decodePlain).2 hdecodes () _ _ rfl

/-! ## A whole stream -/

/-- The interpretation of an event stream by the HTML standard: a text is read line by line, with a
CRLF pair, a single LF and a single CR as the ways in which a line ends, and what is pending when it
ends is discarded. -/
structure Standard where
  /-- The line that has not ended. -/
  line : Text := []
  data : Text := []
  eventType : Text := []
  lastEventId : Text := []
  events : List SseEvent := []

namespace Standard

variable (s : Standard)

/-- The event is dispatched, where there is data. -/
def dispatch : Standard :=
  if s.data = [] then { s with data := [], eventType := [] }
  else
    let event : SseEvent :=
      { id := s.lastEventId
        event := if s.eventType = [] then units "message" else s.eventType
        -- A last line feed of the data buffer is removed.
        data := if s.data.getLast? = some lineFeed then s.data.dropLast else s.data }
    { s with data := [], eventType := [], events := s.events ++ [event] }

/-- A field is processed. -/
def field (name value : Text) : Standard :=
  if name = units "event" then { s with eventType := value }
  else if name = units "data" then { s with data := s.data ++ value ++ [lineFeed] }
  else if name = units "id" then
    if 0 ∈ value then s else { s with lastEventId := value }
  -- The reconnection time is no part of an event, and any other field is ignored.
  else s

/-- What follows a colon, without one leading space. -/
def valueOf : Text → Text
  | 0x20 :: value => value
  | value => value

/-- The line has ended. -/
def endLine : Standard :=
  let line := s.line
  let s := { s with line := [] }
  match line with
  | [] => s.dispatch
  | 0x3A :: _ => s
  | line =>
      match cutAt 0x3A line with
      | (name, some value) => s.field name (valueOf value)
      | (name, none) => s.field name []

/-- A text is read. -/
def read : Standard → Text → Standard
  | s, [] => s
  | s, 0x0D :: 0x0A :: rest => read s.endLine rest
  | s, 0x0D :: rest => read s.endLine rest
  | s, 0x0A :: rest => read s.endLine rest
  | s, c :: rest => read { s with line := s.line ++ [c] } rest

/-- A stream is read to its end: one leading byte order mark is taken off. -/
def readStream (text : Text) : Standard :=
  match text with
  | 0xFEFF :: rest => read {} rest
  | text => read {} text

end Standard

/-- The events the standard dispatches for a whole stream. -/
def standardEvents (text : Text) : List SseEvent :=
  (Standard.readStream text).events

/-! ### The standard, line by line -/

namespace Standard

variable {s : Standard}

/-- Characters that end no line are read into the line. -/
theorem read_inLine {w : Text} (hw : ∀ c ∈ w, inLine c = true) (t : Text) :
    s.read (w ++ t) = ({ s with line := s.line ++ w } : Standard).read t := by
  induction w generalizing s with
  | nil => rw [List.nil_append, List.append_nil]
  | cons c w ih =>
      have hc := hw c List.mem_cons_self
      have hne : c ≠ carriageReturn ∧ c ≠ lineFeed := by
        rw [inLine, Bool.and_eq_true, decide_eq_true_iff, decide_eq_true_iff] at hc
        exact hc
      rw [List.cons_append, read.eq_5 s c _ (fun _ h _ => hne.1 h) hne.1 hne.2,
        ih fun d hd => hw d (List.mem_cons_of_mem c hd)]
      dsimp only
      rw [List.append_assoc, List.singleton_append]

/-- A line that the parser has read has ended for the standard. -/
theorem read_nextLine {t line following : Text} (hline : s.line = [])
    (h : nextLine t = some (line, following)) :
    s.read t = ({ s with line } : Standard).endLine.read following := by
  have hsplit := List.takeWhile_append_dropWhile (p := inLine) (l := t)
  have hin : ∀ c ∈ t.takeWhile inLine, inLine c = true := fun c hc => List.mem_takeWhile_imp hc
  have hread := read_inLine (s := s) hin (t.dropWhile inLine)
  rw [hsplit, hline, List.nil_append] at hread
  rw [hread]
  unfold nextLine at h
  split at h
  · cases h
  · next c tail hc =>
      rw [hc]
      split_ifs at h with hcr
      · subst hcr
        cases tail with
        | nil => cases h
        | cons next later =>
            cases h
            split_ifs with hlf
            · subst hlf
              rfl
            · exact read.eq_3 _ _ fun rest hrest => hlf (List.cons.inj hrest).1
      · cases h
        have hdropped : inLine c = false := by
          have hhead :=
            List.head_dropWhile_not (l := t) inLine (by rw [hc]; exact List.cons_ne_nil _ _)
          simpa [hc] using hhead
        have hlf : c = lineFeed := by
          rw [inLine, Bool.and_eq_false_iff, decide_eq_false_iff_not, decide_eq_false_iff_not,
            not_not, not_not] at hdropped
          exact hdropped.resolve_left hcr
        subst hlf
        rfl

/-- Lines that have ended, one after the other. -/
def endLines (s : Standard) (lines : List Text) : Standard :=
  lines.foldl (fun s line => ({ s with line } : Standard).endLine) s

theorem dispatch_line : s.dispatch.line = s.line := by
  unfold dispatch
  split_ifs <;> rfl

theorem field_line (name value : Text) : (s.field name value).line = s.line := by
  unfold field
  split_ifs <;> rfl

theorem endLine_line : s.endLine.line = [] := by
  unfold endLine
  dsimp only
  split
  · exact dispatch_line
  · rfl
  · split <;> exact field_line _ _

theorem endLines_line (hline : s.line = []) (lines : List Text) : (s.endLines lines).line = [] := by
  induction lines generalizing s with
  | nil => exact hline
  | cons line lines ih => exact ih endLine_line

/-- A text is read as the lines that have ended in it, and what is left. -/
theorem read_linesOf (hline : s.line = []) (b : Text) :
    s.read b = (s.endLines (linesOf b).1).read (linesOf b).2 := by
  induction b using linesOf.induct generalizing s with
  | case1 buffer hnone =>
      rw [linesOf_of_none hnone]
      rfl
  | case2 buffer line following hsome _ ih =>
      rw [linesOf_of_some hsome, read_nextLine hline hsome, ih endLine_line]
      rfl

/-- A CR at the end of a text ends the line before it. -/
theorem read_carriageReturn (b : Text) : s.read (b ++ [carriageReturn]) = (s.read b).endLine := by
  fun_induction read s b with
  | case1 s => rfl
  | case2 s rest ih => exact ih
  | case3 s rest hnot ih =>
      rw [← ih, List.cons_append]
      refine read.eq_3 s _ fun later hlater => ?_
      cases rest with
      | nil => exact absurd (List.cons.inj hlater).1 (by decide)
      | cons c rest => exact hnot rest (by rw [(List.cons.inj hlater).1])
  | case4 s rest ih => exact ih
  | case5 s c rest hcrlf hcr hlf ih =>
      rw [← ih, List.cons_append]
      exact read.eq_5 s c _ (fun _ h _ => hcr h) hcr hlf

end Standard

/-- What is left of a buffer is the start of a line, or that and a CR. -/
theorem rest_of_nextLine {r : Text} (h : nextLine r = none) :
    ∃ w : Text, (∀ c ∈ w, inLine c = true) ∧ (r = w ∨ r = w ++ [carriageReturn]) := by
  refine ⟨r.takeWhile inLine, fun c hc => List.mem_takeWhile_imp hc, ?_⟩
  have hsplit := List.takeWhile_append_dropWhile (p := inLine) (l := r)
  unfold nextLine at h
  split at h
  · next hnil =>
      rw [hnil, List.append_nil] at hsplit
      exact Or.inl hsplit.symm
  · next c tail hc =>
      split_ifs at h with hcr
      cases tail with
      | nil =>
          rw [hc, hcr] at hsplit
          exact Or.inr hsplit.symm
      | cons next later => cases h

theorem nextLine_rest (b : Text) : nextLine (linesOf b).2 = none := by
  induction b using linesOf.induct with
  | case1 buffer hnone =>
      rw [linesOf_of_none hnone]
      exact hnone
  | case2 buffer line following hsome _ ih =>
      rw [linesOf_of_some hsome]
      exact ih

/-- What is left of a buffer is its end. -/
theorem suffix_of_nextLine {b line following : Text} (h : nextLine b = some (line, following)) :
    following <:+ b := by
  have hdrop : b.dropWhile inLine <:+ b := List.dropWhile_suffix _
  unfold nextLine at h
  split at h
  · cases h
  · next c tail hc =>
      rw [hc] at hdrop
      have htail : tail <:+ b := (List.suffix_cons c tail).trans hdrop
      split_ifs at h
      · split at h
        · cases h
        · next next later =>
            cases h
            split_ifs
            · exact (List.suffix_cons next later).trans htail
            · exact htail
      · cases h
        exact htail

theorem rest_suffix (b : Text) : (linesOf b).2 <:+ b := by
  induction b using linesOf.induct with
  | case1 buffer hnone =>
      rw [linesOf_of_none hnone]
  | case2 buffer line following hsome _ ih =>
      rw [linesOf_of_some hsome]
      exact ih.trans (suffix_of_nextLine hsome)

/-! ### The parser follows the standard -/

/-- The parser's data lines as the standard's data buffer has them: each with a
line feed after it. -/
def dataBuffer (data : List Text) : Text :=
  data.flatMap (· ++ [lineFeed])

theorem dataBuffer_eq {data : List Text} (h : data ≠ []) :
    dataBuffer data = joinWith [lineFeed] data ++ [lineFeed] := by
  unfold dataBuffer joinWith
  induction data with
  | nil => exact absurd rfl h
  | cons line rest ih =>
      cases rest with
      | nil => rw [List.flatMap_singleton, List.intercalate_singleton]
      | cons next rest =>
          rw [List.flatMap_cons, ih (List.cons_ne_nil _ _), List.intercalate_cons_cons]
          simp only [List.append_assoc]

/-- A parser that has read what the standard has read, where no line is begun. -/
structure ReadsLike (p : SseParser) (s : Standard) : Prop where
  line : s.line = []
  data : s.data = dataBuffer (p.data.getD [])
  held : p.data ≠ some []
  event : s.eventType = p.event
  lastId : s.lastEventId = p.lastId

variable {p : SseParser} {s : Standard}

/-- There is data for the standard where there is data for the parser. -/
theorem ReadsLike.data_eq_nil (h : ReadsLike p s) : s.data = [] ↔ p.data = none := by
  rw [h.data]
  cases hdata : p.data with
  | none => exact ⟨fun _ => rfl, fun _ => rfl⟩
  | some data =>
      have hne : data ≠ [] := fun hnil => h.held (by rw [hdata, hnil])
      rw [Option.getD_some, dataBuffer_eq hne]
      exact ⟨fun hnil => absurd hnil (by simp), fun hnone => nomatch hnone⟩

/-- A blank line: the parser gives the event that the standard dispatches. -/
theorem ReadsLike.blank (h : ReadsLike p s) :
    ReadsLike (p.line []).2 s.dispatch ∧
      s.dispatch.events = s.events ++ (p.line []).1.toList := by
  unfold SseParser.line Standard.dispatch
  rw [if_pos rfl]
  cases hdata : p.data with
  | none =>
      rw [if_pos (h.data_eq_nil.mpr hdata)]
      exact ⟨⟨h.line, rfl, (fun hh => nomatch hh), rfl, h.lastId⟩, (List.append_nil _).symm⟩
  | some data =>
      have hne : data ≠ [] := fun hnil => h.held (by rw [hdata, hnil])
      have hbuffer : s.data = joinWith [lineFeed] data ++ [lineFeed] := by
        rw [h.data, hdata, Option.getD_some, dataBuffer_eq hne]
      rw [if_neg fun hnil => nomatch (h.data_eq_nil.mp hnil).symm.trans hdata]
      refine ⟨⟨h.line, rfl, (fun hh => nomatch hh), rfl, h.lastId⟩, ?_⟩
      have hlast : s.data.getLast? = some lineFeed := by
        rw [hbuffer, List.getLast?_append]
        rfl
      have hdropped : s.data.dropLast = joinWith [lineFeed] data := by
        rw [hbuffer, List.dropLast_concat]
      dsimp only
      rw [if_pos hlast, hdropped, h.event, h.lastId]
      rfl

/-- A field of the parser's is processed as one of the standard's. -/
theorem ReadsLike.field (h : ReadsLike p s) {text : Text} (hne : text ≠ [])
    (hcolon : text.head? ≠ some 0x3A) :
    ReadsLike (p.line text).2 (s.field (fieldOf text).1 (fieldOf text).2) ∧
      (s.field (fieldOf text).1 (fieldOf text).2).events = s.events ++ (p.line text).1.toList := by
  generalize hfield : (fieldOf text).1 = name
  generalize hvalue : (fieldOf text).2 = value
  unfold SseParser.line Standard.field
  rw [if_neg hne, if_neg hcolon, hfield, hvalue]
  by_cases hdata : name = units "data"
  · subst hdata
    have hevent : units "data" ≠ units "event" := by decide
    rw [if_pos rfl, if_neg hevent, if_pos rfl]
    refine ⟨⟨h.line, ?_, ?_, h.event, h.lastId⟩, (List.append_nil _).symm⟩
    · show s.data ++ value ++ [lineFeed] = dataBuffer (p.data.getD [] ++ [value])
      rw [h.data, dataBuffer, dataBuffer, List.flatMap_append, List.flatMap_singleton,
        List.append_assoc]
    · intro hnil
      exact List.concat_ne_nil _ _ (Option.some.inj hnil)
  · by_cases hevent : name = units "event"
    · rw [if_neg hdata, if_pos hevent, if_pos hevent]
      exact ⟨⟨h.line, h.data, h.held, rfl, h.lastId⟩, (List.append_nil _).symm⟩
    · rw [if_neg hdata, if_neg hevent, if_neg hevent, if_neg hdata]
      by_cases hid : name = units "id"
      · rw [if_pos hid]
        by_cases hnul : 0 ∈ value
        · rw [if_pos hnul, if_neg (by simp [hnul])]
          exact ⟨⟨h.line, h.data, h.held, h.event, h.lastId⟩, (List.append_nil _).symm⟩
        · rw [if_neg hnul, if_pos (by simp [hid, hnul])]
          exact ⟨⟨h.line, h.data, h.held, h.event, rfl⟩, (List.append_nil _).symm⟩
      · rw [if_neg hid, if_neg (by simp [hid])]
        exact ⟨⟨h.line, h.data, h.held, h.event, h.lastId⟩, (List.append_nil _).symm⟩

/-- What a line that is no comment sets is what the standard cuts it into. -/
theorem endLine_field {text : Text} (hne : text ≠ []) (hcolon : text.head? ≠ some 0x3A)
    (hline : s.line = []) :
    ({ s with line := text } : Standard).endLine =
      s.field (fieldOf text).1 (fieldOf text).2 := by
  have hs : ({ s with line := [] } : Standard) = s := by
    cases s
    cases hline
    rfl
  unfold Standard.endLine
  dsimp only
  rw [hs]
  split
  · exact absurd rfl hne
  · exact absurd rfl hcolon
  · unfold fieldOf
    cases hcut : cutAt 0x3A text with
    | mk name value =>
        cases value with
        | none => rfl
        | some value =>
            dsimp only
            unfold Standard.valueOf
            split
            · rfl
            · next hspace =>
                split
                · next heq =>
                    cases heq
                · next heq =>
                    cases heq
                    exact absurd rfl (hspace _)
                · next heq =>
                    cases heq
                    rfl

/-- A line: the parser goes on as the standard does, and gives the events it dispatches. -/
theorem ReadsLike.step (h : ReadsLike p s) (text : Text) :
    ReadsLike (p.line text).2 ({ s with line := text } : Standard).endLine ∧
      ({ s with line := text } : Standard).endLine.events =
        s.events ++ (p.line text).1.toList := by
  have hs : ({ s with line := [] } : Standard) = s := by
    have hline := h.line
    cases s
    cases hline
    rfl
  by_cases hne : text = []
  · subst hne
    have hdispatch : ({ s with line := [] } : Standard).endLine = s.dispatch := by
      unfold Standard.endLine
      dsimp only
      rw [hs]
    rw [hdispatch]
    exact h.blank
  · by_cases hcolon : text.head? = some 0x3A
    · have hcomment : ({ s with line := text } : Standard).endLine = s := by
        cases text with
        | nil => exact absurd rfl hne
        | cons c rest =>
            cases hcolon
            unfold Standard.endLine
            dsimp only
            exact hs
      have hsame : p.line text = (none, p) := by
        unfold SseParser.line
        rw [if_neg hne, if_pos hcolon]
      rw [hcomment, hsame]
      exact ⟨h, (List.append_nil _).symm⟩
    · rw [endLine_field hne hcolon h.line]
      exact h.field hne hcolon

/-- Lines one after the other. -/
theorem ReadsLike.run (h : ReadsLike p s) (texts : List Text) :
    ReadsLike (p.lines texts).2 (s.endLines texts) ∧
      (s.endLines texts).events = s.events ++ (p.lines texts).1 := by
  induction texts generalizing p s with
  | nil => exact ⟨h, (List.append_nil _).symm⟩
  | cons text texts ih =>
      obtain ⟨hreads, hevents⟩ := h.step text
      obtain ⟨hlast, hmore⟩ := ih hreads
      refine ⟨hlast, ?_⟩
      rw [hevents, List.append_assoc] at hmore
      exact hmore

theorem reads_start : ReadsLike {} {} :=
  ⟨rfl, rfl, Option.some_ne_none [] ∘ Eq.symm, rfl, rfl⟩


/-! ### Where the two part -/

theorem parseEventStream_eq (text : Text) :
    parseEventStream text = (SseParser.lines {} (linesOf (SseParser.withoutMark text)).1).1 := by
  cases text with
  | nil =>
      rw [parseEventStream, SseParser.push_nothing rfl rfl, linesOf_of_none rfl]
      rfl
  | cons c rest =>
      rw [parseEventStream, SseParser.push_eq _ (Or.inr (List.cons_ne_nil c rest))]
      rfl

theorem readStream_eq (text : Text) :
    Standard.readStream text = Standard.read {} (SseParser.withoutMark text) := by
  unfold Standard.readStream SseParser.withoutMark
  split <;> rfl

/-- The parser has given what the standard dispatches for the lines that have ended. -/
theorem parseEventStream_eq_endLines (text : Text) :
    parseEventStream text =
      (Standard.endLines {} (linesOf (SseParser.withoutMark text)).1).events := by
  rw [parseEventStream_eq, (reads_start.run _).2]
  rfl

/-- Without a CR at the end, what is left begins a line. -/
theorem rest_inLine {b : Text} (h : ∀ before : Text, b ≠ before ++ [carriageReturn]) :
    ∀ c ∈ (linesOf b).2, inLine c = true := by
  obtain ⟨w, hw, hrest | hrest⟩ := rest_of_nextLine (nextLine_rest b)
  · rw [hrest]
    exact hw
  · obtain ⟨front, hfront⟩ := rest_suffix b
    refine absurd ?_ (h (front ++ w))
    rw [← hfront, hrest, List.append_assoc]

/-- A text that does not end in a CR. -/
theorem parseEventStream_of_not_cr {text : Text}
    (h : ∀ before : Text, text ≠ before ++ [carriageReturn]) :
    parseEventStream text = standardEvents text := by
  have hbuffer : ∀ before : Text,
      SseParser.withoutMark text ≠ before ++ [carriageReturn] := by
    intro before hbefore
    unfold SseParser.withoutMark at hbefore
    split at hbefore
    · next rest =>
        exact h (0xFEFF :: before) (by rw [hbefore, List.cons_append])
    · exact h before hbefore
  have hread := Standard.read_inLine
    (s := Standard.endLines {} (linesOf (SseParser.withoutMark text)).1) (rest_inLine hbuffer) []
  rw [List.append_nil] at hread
  rw [parseEventStream_eq_endLines, standardEvents, readStream_eq, Standard.read_linesOf rfl, hread]
  rfl

theorem withoutMark_concat (before : Text) :
    SseParser.withoutMark (before ++ [carriageReturn]) =
      SseParser.withoutMark before ++ [carriageReturn] := by
  cases before with
  | nil => rfl
  | cons c rest => exact SseParser.withoutMark_append (List.cons_ne_nil c rest) _

/-- What the parser gives for a text that ends in a CR is what the standard has dispatched before
that CR: the parser waits for an LF. -/
theorem parseEventStream_of_cr (before : Text) :
    parseEventStream (before ++ [carriageReturn]) = standardEvents before := by
  rw [parseEventStream_eq_endLines, standardEvents, readStream_eq, withoutMark_concat,
    linesOf_append, Standard.read_linesOf rfl]
  obtain ⟨w, hw, hrest | hrest⟩ := rest_of_nextLine (nextLine_rest (SseParser.withoutMark before))
  · -- The line that has begun stays open in both.
    have hnone : nextLine (w ++ [carriageReturn]) = none := by
      unfold nextLine
      rw [List.dropWhile_append, List.dropWhile_eq_nil_iff.mpr hw]
      rfl
    have hread := Standard.read_inLine
      (s := Standard.endLines {} (linesOf (SseParser.withoutMark before)).1) hw []
    rw [List.append_nil] at hread
    rw [hrest, linesOf_of_none hnone, List.append_nil, hread]
    rfl
  · -- The CR that waited has ended its line, and the new one waits.
    have hsome :
        nextLine (w ++ [carriageReturn] ++ [carriageReturn]) = some (w, [carriageReturn]) := by
      unfold nextLine
      rw [List.append_assoc, List.dropWhile_append, List.dropWhile_eq_nil_iff.mpr hw,
        List.takeWhile_append, List.takeWhile_eq_self_iff.mpr hw]
      simp [carriageReturn, lineFeed, inLine]
    have hline : Standard.line (Standard.endLines {}
        (linesOf (SseParser.withoutMark before)).1) = [] := Standard.endLines_line rfl _
    have hread := Standard.read_inLine
      (s := Standard.endLines {} (linesOf (SseParser.withoutMark before)).1) hw [carriageReturn]
    rw [hline, List.nil_append] at hread
    have hwaits : nextLine [carriageReturn] = none := rfl
    rw [hrest, linesOf_of_some hsome, linesOf_of_none hwaits, hread, Standard.endLines,
      List.foldl_append]
    rfl

/-- What a CR at the end of a stream dispatches. -/
theorem standardEvents_of_cr (before : Text) :
    standardEvents (before ++ [carriageReturn]) = (Standard.readStream before).endLine.events := by
  rw [standardEvents, readStream_eq, readStream_eq, withoutMark_concat,
    Standard.read_carriageReturn]

/-- The end of a line dispatches an event where the line is blank and there is data. -/
theorem endLine_events (s : Standard) :
    s.endLine.events = s.events ↔ ¬ (s.line = [] ∧ s.data ≠ []) := by
  unfold Standard.endLine
  dsimp only
  split
  · next hline =>
      unfold Standard.dispatch
      dsimp only
      by_cases hdata : s.data = []
      · rw [if_pos hdata]
        exact ⟨fun _ h => h.2 hdata, fun _ => rfl⟩
      · rw [if_neg hdata]
        refine ⟨fun h => ?_, fun h => absurd ⟨hline, hdata⟩ h⟩
        have hlen := congrArg List.length h
        rw [List.length_append, List.length_singleton] at hlen
        omega
  · next hline =>
      exact ⟨fun _ h => List.cons_ne_nil _ _ (hline.symm.trans h.1), fun _ => rfl⟩
  · next hne hcolon =>
      have hfield : ∀ name value, (Standard.field { s with line := [] } name value).events =
          s.events := by
        intro name value
        unfold Standard.field
        split_ifs <;> rfl
      refine ⟨fun _ h => hne h.1, fun _ => ?_⟩
      split <;> exact hfield _ _

/-- A whole event stream is read as the HTML standard reads it, exactly for the texts that do not
end in a CR that ends a blank line with data pending: the standard dispatches that event, the parser
waits for an LF that does not come. -/
theorem parseEventStream_eq_standard_iff (text : Text) :
    parseEventStream text = standardEvents text ↔
      ¬ ∃ before : Text, text = before ++ [carriageReturn] ∧
        (Standard.readStream before).line = [] ∧ (Standard.readStream before).data ≠ [] := by
  by_cases hcr : ∃ before : Text, text = before ++ [carriageReturn]
  · obtain ⟨before, rfl⟩ := hcr
    rw [parseEventStream_of_cr, standardEvents_of_cr]
    constructor
    · rintro hsame ⟨before', hbefore, hpending⟩
      have heq : before = before' := List.append_cancel_right hbefore
      rw [← heq] at hpending
      exact (endLine_events _).mp hsame.symm hpending
    · intro hnot
      refine ((endLine_events _).mpr fun hpending => hnot ⟨before, rfl, hpending⟩).symm
  · refine iff_of_true (parseEventStream_of_not_cr fun before h => hcr ⟨before, h⟩) ?_
    rintro ⟨before, h, -⟩
    exact hcr ⟨before, h⟩

/-- The last event of a stream whose lines end in CR, its blank line at the end of the text. -/
theorem lastEvent_dropped :
    ¬ ∀ text : Text, parseEventStream text = standardEvents text := by
  intro h
  have hlast := h (units "data: x" ++ [carriageReturn, carriageReturn])
  revert hlast
  decide +kernel

end Wayfarer
