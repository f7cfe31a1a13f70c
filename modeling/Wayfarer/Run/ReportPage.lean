import Mathlib.Data.List.Sort
import Wayfarer.Library.HtmlTags
import Wayfarer.Library.OrderedMap
import Wayfarer.Run.Report

/-!
# The report as a page

A run is written as one HTML page too: how it ended, its counts, each error that several requests
shared, and a row for each result. Names and errors are escaped text.

`runReportHtml_marks` says which tags a parser of HTML reads in the page: how many rows there are,
which failed and how many problems each has decide on them, and no text does.
-/

set_option autoImplicit false

namespace Wayfarer

open Library

/-! ## What a run says -/

/-- How the run ended. -/
def runEnding (ended : RunEnd) : Text :=
  match ended with
  | .completed => units "The run is complete."
  | .cancelled => units "You stopped the run."
  | .failed => units "The run stopped at the first failure."
  | .ended reason => trim (units "The run was stopped. " ++ reason)

/-- `4 results in 1 iteration; 1 failed; 4 of 5 tests passed.` -/
def runCounts (report : RunReport) : Text :=
  let tests := report.results.flatMap fun result => result.outcome.tests
  let failed := (report.results.filter fun result => runFailed result.outcome).length
  let passed := (tests.filter fun test => test.passed).length
  decimalText report.results.length ++ units " " ++
    units (if report.results.length = 1 then "result" else "results") ++ units " in " ++
    decimalText report.iterations ++ units " " ++
    units (if report.iterations = 1 then "iteration" else "iterations") ++ units "; " ++
    decimalText failed ++ units " failed; " ++ decimalText passed ++ units " of " ++
    decimalText tests.length ++ units " tests passed."

/-- How often each error occurred. -/
def errorCounts (results : List RunResult) : OrderedMap Text Nat :=
  results.foldl (fun counts result =>
    match result.outcome.error with
    | some error => counts.set error ((counts.get? error).getD 0 + 1)
    | none => counts) .empty

/-- The errors two or more results share, the most frequent first. -/
def sharedErrors (results : List RunResult) : List (Text × Nat) :=
  ((errorCounts results).entries.filter fun entry => 2 ≤ entry.2).insertionSort
    fun a b => b.2 ≤ a.2

def sharedErrorHeading (count : Nat) : Text :=
  decimalText count ++ units " requests failed with the same error."

/-! ## Text in HTML -/

/-- The characters that are written as a reference. -/
def htmlUnit (c : CodeUnit) : Text :=
  if c = 0x26 then units "&amp;"
  else if c = 0x3C then units "&lt;"
  else if c = 0x3E then units "&gt;"
  else if c = 0x22 then units "&quot;"
  else if c = 0x27 then units "&#39;"
  else [c]

/-- Text as HTML holds it, between tags or in an attribute. -/
def html (text : Text) : Text :=
  text.flatMap htmlUnit

example : html (units "<b>'&") = units "&lt;b&gt;&#39;&amp;" := by decide

/-! ## The page -/

/-- The app's colours for the report, light and dark. -/
def reportColours : List (String × String) × List (String × String) :=
  ([("canvas", "#FBFAF8"), ("panel", "#F6F5F2"), ("primary", "#26231E"), ("secondary", "#55524D"),
      ("tertiary", "#726F69"), ("line", "#DEDAD3"), ("error", "#A51F1E")],
    [("canvas", "#161513"), ("panel", "#22211E"), ("primary", "#EBE9E4"), ("secondary", "#C0BDB6"),
      ("tertiary", "#9A9790"), ("line", "#423F39"), ("error", "#F7958A")])

def palette (colours : List (String × String)) : Text :=
  joinWith (units " ") (colours.map fun colour =>
    units "--" ++ units colour.1 ++ units ": " ++ units colour.2 ++ units ";")

/-- What the style has after the colours. -/
def reportRules : List String :=
  ["body \x7b margin: 0; padding: 24px 16px; background: var(--canvas); color: var(--primary);\n",
    "  font: 14px/1.5 \"Atkinson Hyperlegible Next\", system-ui, sans-serif; \x7d\n",
    "main \x7b max-width: 1100px; margin: 0 auto; \x7d\n",
    "h1 \x7b margin: 0 0 4px; font-size: 1.375rem; font-weight: 600; \x7d\n",
    ".meta, .counts \x7b margin: 0 0 16px; color: var(--secondary); \x7d\n",
    ".shared \x7b margin: 0 0 12px; padding: 10px 14px; border: 1px solid var(--error); ",
    "border-radius: 8px; color: var(--error); \x7d\n",
    "table \x7b width: 100%; border-collapse: collapse; font-size: 0.8125rem; \x7d\n",
    "th \x7b text-align: start; font-weight: 500; color: var(--tertiary); \x7d\n",
    "th, td \x7b padding: 8px 10px; border-bottom: 1px solid var(--line); vertical-align: top; ",
    "overflow-wrap: anywhere; \x7d\n",
    "td:nth-child(4), td:nth-child(5) \x7b font-family: \"JetBrains Mono\", ui-monospace, ",
    "monospace; \x7d\n",
    ".problem \x7b margin: 4px 0 0; color: var(--error); font-size: 0.75rem; \x7d\n",
    "tr.failed td:first-child \x7b box-shadow: inset 2px 0 0 var(--error); \x7d\n"]

def reportStyle : Text :=
  units "\n:root \x7b color-scheme: light dark; " ++ palette reportColours.1 ++ units " \x7d\n" ++
    units "@media (prefers-color-scheme: dark) \x7b :root \x7b " ++ palette reportColours.2 ++
    units " \x7d \x7d\n" ++ reportRules.flatMap units

/-- What a row says of an error: where several requests had it, it is said above. -/
def sharedNote (shared : List (Text × Nat)) (error : Text) : Text :=
  match shared.findIdx? fun entry => entry.1 = error with
  | none => error
  | some index =>
      if shared.length = 1 then units "Same error as above"
      else units "Same error as " ++ decimalText (index + 1) ++ units " above"

/-- What went wrong with a request. -/
def problems (shared : List (Text × Nat)) (result : RunResult) : List Text :=
  (match result.outcome.error with
    | none => []
    | some error => [sharedNote shared error]) ++
  result.outcome.failedTests.map fun test =>
    match test.error with
    | some [] => test.name
    | some error => test.name ++ units ": " ++ error
    | none => test.name

/-- What became of a request. A status of 0 is none. -/
def statusNote (outcome : RunOutcome) : Text :=
  if outcome.skipped then units "Skipped"
  else
    match outcome.status with
    | some (status + 1) =>
        trim (decimalText (status + 1) ++ units " " ++ outcome.statusText.getD [])
    | _ => units "No response"

/-- The row of a result. -/
def reportRow (shared : List (Text × Nat)) (index : Nat) (result : RunResult) : Text :=
  let failed := result.outcome.failedTests
  let tests := result.outcome.tests
  units "<tr" ++ (if runFailed result.outcome then units " class=\"failed\"" else []) ++
    units ">\n<td>" ++ decimalText (index + 1) ++ units "</td><td>" ++
    decimalText (result.iteration + 1) ++ units "</td>\n<td>" ++ html result.request.name ++
    (problems shared result).flatMap (fun problem =>
      units "<p class=\"problem\">" ++ html problem ++ units "</p>") ++
    units "</td>\n<td>" ++ html (statusNote result.outcome) ++ units "</td><td>" ++
    (match result.outcome.durationMs with
      | none => units "—"
      | some ms => decimalText ms ++ units " ms") ++
    units "</td>\n<td>" ++
    (if tests.length = 0 then units "—"
    else decimalText (tests.length - failed.length) ++ units " of " ++ decimalText tests.length ++
      units " passed") ++
    units "</td>\n</tr>"

/-- An error that several requests shared. -/
def sharedBlock (several : Bool) (index : Nat) (entry : Text × Nat) : Text :=
  units "<p class=\"shared\">" ++
    (if several then units "<b>" ++ decimalText (index + 1) ++ units ".</b> " else []) ++
    units "<b>" ++ html (sharedErrorHeading entry.2) ++ units "</b> " ++
      html entry.1 ++ units "</p>"

/-- The page up to its title. -/
def reportHead : List String :=
  ["<!doctype html>\n", "<html lang=\"en-GB\">\n", "<head>\n", "<meta charset=\"utf-8\">\n",
    "<meta name=\"viewport\" content=\"width=device-width, initial-scale=1\">\n",
    "<meta http-equiv=\"Content-Security-Policy\" ",
    "content=\"default-src 'none'; style-src 'unsafe-inline'\">\n"]

/-- The head of the table. -/
def reportColumns : List String :=
  ["#", "Iteration", "Request", "Status", "Time", "Tests"]

/-- A run as one HTML page. -/
def runReportHtml (report : RunReport) (info : RunInfo) : Text :=
  let shared := sharedErrors report.results
  let rows := joinWith (units "\n")
    (report.results.zipIdx.map fun entry => reportRow shared entry.2 entry.1)
  let sharedBlocks := joinWith (units "\n")
    (shared.zipIdx.map fun entry => sharedBlock (1 < shared.length) entry.2 entry.1)
  reportHead.flatMap units ++ units "<title>Run " ++ html info.name ++ units "</title>\n<style>" ++
    reportStyle ++ units "</style>\n</head>\n<body>\n<main>\n<h1>Run " ++ html info.name ++
    units "</h1>\n<p class=\"meta\">Started " ++ html info.startedAt ++
    units "</p>\n<p class=\"counts\">" ++ html (runEnding report.ended) ++ units " " ++
    html (runCounts report) ++ units "</p>\n" ++ sharedBlocks ++ units "\n<table>\n<thead><tr>" ++
    reportColumns.flatMap
      (fun column => units "<th scope=\"col\">" ++ units column ++ units "</th>") ++
    units "</tr></thead>\n<tbody>\n" ++ rows ++
    units "\n</tbody>\n</table>\n</main>\n</body>\n</html>\n"

/-! ## The tags of the page -/

namespace ReportPage

open HtmlTags

/-- Between tags. -/
abbrev between : Place := .outer .data

def start (name : String) : Mark :=
  .start (units name) []

def startWith (name key value : String) : Mark :=
  .start (units name) [(units key, units value)]

def finish (name : String) : Mark :=
  .finish (units name)

/-- What a row's tags depend on. -/
structure RowShape where
  failed : Bool
  problems : Nat

def RowShape.marks (row : RowShape) : List Mark :=
  [if row.failed then startWith "tr" "class" "failed" else start "tr", start "td", finish "td",
      start "td", finish "td", start "td"] ++
    (List.replicate row.problems [startWith "p" "class" "problem", finish "p"]).flatten ++
    [finish "td", start "td", finish "td", start "td", finish "td", start "td", finish "td",
      finish "tr"]

/-- The tags of an error that requests shared. -/
def sharedMarks (several : Bool) : List Mark :=
  [startWith "p" "class" "shared"] ++ (if several then [start "b", finish "b"] else []) ++
    [start "b", finish "b", finish "p"]

def headMarks : List Mark :=
  [.doctype, startWith "html" "lang" "en-GB", start "head", startWith "meta" "charset" "utf-8",
    .start (units "meta") [(units "name", units "viewport"),
      (units "content", units "width=device-width, initial-scale=1")],
    .start (units "meta") [(units "http-equiv", units "Content-Security-Policy"),
      (units "content", units "default-src 'none'; style-src 'unsafe-inline'")],
    start "title", finish "title", start "style", finish "style", finish "head"]

/-- The tags of a page with these rows, and so many errors that requests shared. -/
def marks (rows : List RowShape) (shared : Nat) : List Mark :=
  headMarks ++
    [start "body", start "main", start "h1", finish "h1", startWith "p" "class" "meta", finish "p",
      startWith "p" "class" "counts", finish "p"] ++
    (List.replicate shared (sharedMarks (1 < shared))).flatten ++
    [start "table", start "thead", start "tr"] ++
    (reportColumns.flatMap fun _ => [startWith "th" "scope" "col", finish "th"]) ++
    [finish "tr", finish "thead", start "tbody"] ++ rows.flatMap RowShape.marks ++
    [finish "tbody", finish "table", finish "main", finish "body", finish "html"]

/-- The shape of a result's row: whether it failed, and how much went wrong. -/
def rowShape (result : RunResult) : RowShape where
  failed := runFailed result.outcome
  problems := (if result.outcome.error.isSome then 1 else 0) + result.outcome.failedTests.length

/-! ### Texts -/

/-- A text in which no tag starts. -/
def Tagless (t : Text) : Prop :=
  0x3C ∉ t

theorem Tagless.append {t u : Text} (ht : Tagless t) (hu : Tagless u) : Tagless (t ++ u) :=
  fun h => (List.mem_append.mp h).elim ht hu

theorem tagless_units {literal : String} {cs : List Char} (h : literal = String.ofList cs)
    (hcs : (cs.all fun c => c.toNat.toUInt16 ≠ 0x3C) = true) : Tagless (units literal) :=
  fun hmem => forall_mem_units (p := fun c => c ≠ 0x3C) h hcs _ hmem rfl

theorem tagless_decimal (n : Nat) : Tagless (decimalText n) := by
  intro h
  have hdigits : ∀ c ∈ units "0123456789", c ≠ 0x3C := forall_mem_units rfl rfl
  exact hdigits _ (mem_decimalText h) rfl

/-- Whatever a text is, written as HTML it starts no tag. -/
theorem tagless_html (text : Text) : Tagless (html text) := by
  intro h
  obtain ⟨c, -, hc⟩ := List.mem_flatMap.mp h
  rw [htmlUnit] at hc
  split_ifs at hc with hamp hless
  · exact absurd hc (by decide)
  · exact absurd hc (by decide)
  · exact absurd hc (by decide)
  · exact absurd hc (by decide)
  · exact absurd hc (by decide)
  · exact hless (List.mem_singleton.mp hc).symm

/-- A text and what a tag begins behind it. -/
theorem gives_text_of_head {s s' : Place} {t u : Text} {ms : List Mark} (ht : Tagless t)
    (hu : Gives s u s' ms) (hhead : u.head? = some 0x3C) (hs : s.HoldsText) :
    Gives s (t ++ u) s' ms := by
  cases u with
  | nil => exact absurd hhead (Option.some_ne_none _).symm
  | cons c u =>
      rw [List.head?_cons, Option.some.injEq] at hhead
      subst hhead
      exact gives_text hs ht hu

theorem head?_units_append {literal : String} {cs : List Char} (rest : Text)
    (h : literal = String.ofList ('<' :: cs)) : (units literal ++ rest).head? = some 0x3C := by
  rw [units_eq h]
  rfl

/-! ### Rows -/

theorem gives_rowStart (failed : Bool) :
    Gives between (units "<tr" ++ (if failed then units " class=\"failed\"" else []) ++
        units ">\n<td>") between
      [if failed then startWith "tr" "class" "failed" else start "tr", start "td"] := by
  cases failed with
  | false =>
      have hplain : Gives between (units "<tr>\n<td>") between [start "tr", start "td"] :=
        gives_units rfl rfl rfl
      exact hplain
  | true =>
      have hfailed : Gives between (units "<tr class=\"failed\">\n<td>") between
          [startWith "tr" "class" "failed", start "td"] := gives_units rfl rfl rfl
      exact hfailed

theorem problems_length (shared : List (Text × Nat)) (result : RunResult) :
    (problems shared result).length = (rowShape result).problems := by
  rw [problems, rowShape, List.length_append, List.length_map]
  cases result.outcome.error with
  | none => rfl
  | some error => rfl

/-- The problems of a row and what follows them start with a tag. -/
theorem head?_problems_append (problems : List Text) {rest : Text}
    (hrest : rest.head? = some 0x3C) :
    (problems.flatMap
      (fun problem => units "<p class=\"problem\">" ++ html problem ++ units "</p>") ++
      rest).head? = some 0x3C := by
  cases problems with
  | nil => exact hrest
  | cons problem more =>
      rw [List.flatMap_cons, List.append_assoc, List.append_assoc, List.append_assoc]
      exact head?_units_append _ rfl

/-- Each problem of a row is a paragraph. -/
theorem gives_problems (problems : List Text) :
    Gives between
      (problems.flatMap fun problem =>
        units "<p class=\"problem\">" ++ html problem ++ units "</p>")
      between
      (List.replicate problems.length [startWith "p" "class" "problem", finish "p"]).flatten := by
  have hopen : Gives between (units "<p class=\"problem\">") between
      [startWith "p" "class" "problem"] := gives_units rfl rfl rfl
  have hclose : Gives between (units "</p>") between [finish "p"] := gives_units rfl rfl rfl
  induction problems with
  | nil => exact gives_nil
  | cons problem more ih =>
      have htext : Gives between (html problem ++ units "</p>") between [finish "p"] :=
        gives_text_of_head (tagless_html problem) hclose rfl trivial
      rw [List.flatMap_cons, List.length_cons, List.replicate_succ, List.flatten_cons,
        List.append_assoc (units "<p class=\"problem\">")]
      exact (hopen.append htext).append ih

/-- What a row says of the time and the tests. -/
theorem tagless_duration (outcome : RunOutcome) :
    Tagless (match outcome.durationMs with
      | none => units "—"
      | some ms => decimalText ms ++ units " ms") := by
  cases outcome.durationMs with
  | none => exact tagless_units rfl rfl
  | some ms => exact (tagless_decimal ms).append (tagless_units rfl rfl)

theorem tagless_passed (tests failed : List RunTest) :
    Tagless (if tests.length = 0 then units "—"
      else decimalText (tests.length - failed.length) ++ units " of " ++ decimalText tests.length ++
        units " passed") := by
  split_ifs
  · exact tagless_units rfl rfl
  · exact (((tagless_decimal _).append (tagless_units rfl rfl)).append (tagless_decimal _)).append
      (tagless_units rfl rfl)

/-- The tags of a row. -/
theorem gives_reportRow (shared : List (Text × Nat)) (index : Nat) (result : RunResult) :
    Gives between (reportRow shared index result) between (rowShape result).marks := by
  have hcell : Gives between (units "</td><td>") between [finish "td", start "td"] :=
    gives_units rfl rfl rfl
  have hline : Gives between (units "</td>\n<td>") between [finish "td", start "td"] :=
    gives_units rfl rfl rfl
  have hend : Gives between (units "</td>\n</tr>") between [finish "td", finish "tr"] :=
    gives_units rfl rfl rfl
  have hindex := gives_text_of_head (tagless_decimal (index + 1)) hcell rfl trivial
  have hiteration := gives_text_of_head (tagless_decimal (result.iteration + 1)) hline rfl trivial
  have hname := gives_text_of_head (tagless_html result.request.name)
    ((gives_problems (problems shared result)).append hline) (head?_problems_append _ rfl) trivial
  have hstatus := gives_text_of_head (tagless_html (statusNote result.outcome)) hcell rfl trivial
  have htime := gives_text_of_head (tagless_duration result.outcome) hline rfl trivial
  have htests := gives_text_of_head
    (tagless_passed result.outcome.tests result.outcome.failedTests) hend rfl trivial
  have hrow :=
    (((((gives_rowStart (runFailed result.outcome)).append hindex).append hiteration).append
    hname).append hstatus).append (htime.append htests)
  rw [problems_length] at hrow
  have hmarks : (rowShape result).marks =
      [if runFailed result.outcome then startWith "tr" "class" "failed" else start "tr",
        start "td"] ++ [finish "td", start "td"] ++ [finish "td", start "td"] ++
        ((List.replicate (rowShape result).problems
          [startWith "p" "class" "problem", finish "p"]).flatten ++ [finish "td", start "td"]) ++
        [finish "td", start "td"] ++ ([finish "td", start "td"] ++ [finish "td", finish "tr"]) := by
    simp only [RowShape.marks, List.append_assoc, List.cons_append, List.nil_append]
    rfl
  simp only [List.append_assoc] at hrow
  rw [hmarks]
  unfold reportRow
  simp only [List.append_assoc]
  exact hrow

/-- The tags of an error that requests shared. -/
theorem gives_sharedBlock (several : Bool) (index : Nat) (entry : Text × Nat) :
    Gives between (sharedBlock several index entry) between (sharedMarks several) := by
  have hopen : Gives between (units "<p class=\"shared\">") between
      [startWith "p" "class" "shared"] := gives_units rfl rfl rfl
  have hbold : Gives between (units "<b>") between [start "b"] := gives_units rfl rfl rfl
  have hheaded : Gives between (units "</b> ") between [finish "b"] := gives_units rfl rfl rfl
  have hclose : Gives between (units "</p>") between [finish "p"] := gives_units rfl rfl rfl
  have hindex :
      Gives between (if several then units "<b>" ++ decimalText (index + 1) ++ units ".</b> "
      else []) between (if several then [start "b", finish "b"] else []) := by
    split_ifs
    · have hdot : Tagless (units ".") := tagless_units rfl rfl
      have hnumber :=
        gives_text_of_head ((tagless_decimal (index + 1)).append hdot) hheaded rfl trivial
      have hnumbered := hbold.append hnumber
      rw [List.append_assoc (decimalText _), ← List.append_assoc (units "<b>")] at hnumbered
      exact hnumbered
    · exact gives_nil
  have hheading :=
    gives_text_of_head (tagless_html (sharedErrorHeading entry.2)) hheaded rfl trivial
  have herror := gives_text_of_head (tagless_html entry.1) hclose rfl trivial
  have hblock := (hopen.append hindex).append ((hbold.append hheading).append herror)
  simp only [List.append_assoc] at hblock
  unfold sharedBlock sharedMarks
  simp only [List.append_assoc]
  exact hblock

/-! ### The page -/

/-- Pieces with a line end between each two. -/
theorem gives_lines {ι : Type} {f : ι → Text} {g : ι → List Mark} (items : List ι)
    (h : ∀ i ∈ items, Gives between (f i) between (g i)) :
    Gives between (joinWith (units "\n") (items.map f)) between (items.flatMap g) := by
  cases items with
  | nil => exact gives_nil
  | cons i rest =>
      have hline : Gives between (units "\n") between [] := gives_units rfl rfl rfl
      rw [List.map_cons, JUnit.joinWith_cons, List.flatMap_map, List.flatMap_cons]
      refine (h i List.mem_cons_self).append (gives_flatMap fun j hj => ?_)
      exact hline.append (h j (List.mem_cons_of_mem i hj))

theorem tagless_flatMap {ι : Type} {f : ι → Text} {items : List ι}
    (h : ∀ i ∈ items, Tagless (f i)) :
    Tagless (items.flatMap f) := by
  intro hmem
  obtain ⟨i, hi, hc⟩ := List.mem_flatMap.mp hmem
  exact h i hi hc

theorem tagless_palette {colours : List (String × String)}
    (h : ∀ colour ∈ colours, Tagless (units colour.1) ∧ Tagless (units colour.2)) :
    Tagless (palette colours) := by
  have hcolour : ∀ colour ∈ colours, Tagless
      (units "--" ++ units colour.1 ++ units ": " ++ units colour.2 ++ units ";") := by
    intro colour hmem
    obtain ⟨hname, hvalue⟩ := h colour hmem
    have hdashes : Tagless (units "--") := tagless_units rfl rfl
    have hcolon : Tagless (units ": ") := tagless_units rfl rfl
    have hsemicolon : Tagless (units ";") := tagless_units rfl rfl
    exact (((hdashes.append hname).append hcolon).append hvalue).append hsemicolon
  rw [palette]
  cases colours with
  | nil => exact List.not_mem_nil
  | cons colour rest =>
      have hspace : Tagless (units " ") := tagless_units rfl rfl
      rw [List.map_cons, JUnit.joinWith_cons, List.flatMap_map]
      refine (hcolour colour List.mem_cons_self).append (tagless_flatMap fun other hother => ?_)
      exact hspace.append (hcolour other (List.mem_cons_of_mem colour hother))

theorem tagless_rules : ∀ rule ∈ reportRules, Tagless (units rule) := by
  simp only [reportRules, List.forall_mem_cons]
  refine ⟨?_, ?_, ?_, ?_, ?_, ?_, ?_, ?_, ?_, ?_, ?_, ?_, ?_, ?_, ?_,
    List.forall_mem_nil _⟩
  all_goals exact tagless_units rfl rfl

instance (t : Text) : Decidable (Tagless t) :=
  inferInstanceAs (Decidable (¬ _))

theorem tagless_style : Tagless reportStyle := by
  have hlight : Tagless (palette reportColours.1) := tagless_palette (by decide)
  have hdark : Tagless (palette reportColours.2) := tagless_palette (by decide)
  have hroot : Tagless (units "\n:root \x7b color-scheme: light dark; ") := tagless_units rfl rfl
  have hmedia : Tagless (units "@media (prefers-color-scheme: dark) \x7b :root \x7b ") :=
    tagless_units rfl rfl
  have hend : Tagless (units " \x7d\n") := tagless_units rfl rfl
  have hends : Tagless (units " \x7d \x7d\n") := tagless_units rfl rfl
  exact (((((hroot.append hlight).append hend).append hmedia).append hdark).append hends).append
    (tagless_flatMap tagless_rules)

set_option maxRecDepth 2000 in
/-- The page up to its title. -/
theorem gives_head : Gives between (reportHead.flatMap units) between
    [.doctype, startWith "html" "lang" "en-GB", start "head", startWith "meta" "charset" "utf-8",
      .start (units "meta") [(units "name", units "viewport"),
        (units "content", units "width=device-width, initial-scale=1")],
      .start (units "meta") [(units "http-equiv", units "Content-Security-Policy"),
        (units "content", units "default-src 'none'; style-src 'unsafe-inline'")]] := by
  have hdoctype : Gives between (units "<!doctype html>\n") between [.doctype] :=
    gives_units rfl rfl rfl
  have hhtml : Gives between (units "<html lang=\"en-GB\">\n") between
      [startWith "html" "lang" "en-GB"] := gives_units rfl rfl rfl
  have hhead : Gives between (units "<head>\n") between [start "head"] := gives_units rfl rfl rfl
  have hcharset : Gives between (units "<meta charset=\"utf-8\">\n") between
      [startWith "meta" "charset" "utf-8"] := gives_units rfl rfl rfl
  have hviewport : Gives between
      (units "<meta name=\"viewport\" content=\"width=device-width, initial-scale=1\">\n") between
      [.start (units "meta") [(units "name", units "viewport"),
        (units "content", units "width=device-width, initial-scale=1")]] :=
    gives_units rfl rfl rfl
  have hpolicyName : Gives between (units "<meta http-equiv=\"Content-Security-Policy\" ")
      (.outer (.beforeAttribute ⟨units "meta",
        [(units "http-equiv", units "Content-Security-Policy")]⟩)) [] :=
    gives_units rfl rfl rfl
  have hpolicy : Gives (.outer (.beforeAttribute ⟨units "meta",
        [(units "http-equiv", units "Content-Security-Policy")]⟩))
      (units "content=\"default-src 'none'; style-src 'unsafe-inline'\">\n") between
      [.start (units "meta") [(units "http-equiv", units "Content-Security-Policy"),
        (units "content", units "default-src 'none'; style-src 'unsafe-inline'")]] :=
    gives_units rfl rfl rfl
  exact hdoctype.append (hhtml.append (hhead.append (hcharset.append (hviewport.append
    (hpolicyName.append (hpolicy.append gives_nil))))))

/-- The columns of the table. -/
theorem gives_columns :
    Gives between
      (reportColumns.flatMap fun column =>
        units "<th scope=\"col\">" ++ units column ++ units "</th>")
      between (reportColumns.flatMap fun _ => [startWith "th" "scope" "col", finish "th"]) := by
  have hopen : Gives between (units "<th scope=\"col\">") between [startWith "th" "scope" "col"] :=
    gives_units rfl rfl rfl
  have hclose : Gives between (units "</th>") between [finish "th"] := gives_units rfl rfl rfl
  have hcolumns : ∀ column ∈ reportColumns, Tagless (units column) := by decide
  refine gives_flatMap fun column hmem => ?_
  rw [List.append_assoc]
  exact hopen.append (gives_text_of_head (hcolumns column hmem) hclose rfl trivial)

/-- The rows, with a line end between each two. -/
theorem gives_rows (shared : List (Text × Nat)) (results : List RunResult) :
    Gives between (joinWith (units "\n")
        (results.zipIdx.map fun entry => reportRow shared entry.2 entry.1)) between
      ((results.map rowShape).flatMap RowShape.marks) := by
  have hrows := gives_lines results.zipIdx fun entry _ =>
    gives_reportRow shared entry.2 entry.1
  have hplaces : (results.zipIdx.flatMap fun entry => (rowShape entry.1).marks) =
      (results.map rowShape).flatMap RowShape.marks := by
    rw [List.flatMap_map, ← List.zipIdx_map_fst 0 results, List.flatMap_map, List.zipIdx_map_fst]
  rw [hplaces] at hrows
  exact hrows

/-- The errors that requests shared, with a line end between each two. -/
theorem gives_sharedBlocks (several : Bool) (shared : List (Text × Nat)) :
    Gives between (joinWith (units "\n")
        (shared.zipIdx.map fun entry => sharedBlock several entry.2 entry.1)) between
      (List.replicate shared.length (sharedMarks several)).flatten := by
  have hblocks := gives_lines shared.zipIdx fun entry _ =>
    gives_sharedBlock several entry.2 entry.1
  have hplaces : (shared.zipIdx.flatMap fun _ => sharedMarks several) =
      (List.replicate shared.length (sharedMarks several)).flatten := by
    rw [List.flatMap_def, List.map_const', List.length_zipIdx]
  rw [hplaces] at hblocks
  exact hblocks

/-- The tags of the page: no text of the run has a part in them. -/
theorem gives_page (report : RunReport) (info : RunInfo) :
    Gives between (runReportHtml report info) between
      (marks (report.results.map rowShape) (sharedErrors report.results).length) := by
  have htitleOpen : Gives between (units "<title>Run ") (.text (units "title")) [start "title"] :=
    gives_units rfl rfl rfl
  have htitle : Gives (.text (units "title")) (units "</title>\n<style>") (.text (units "style"))
      [finish "title", start "style"] := gives_units rfl rfl rfl
  have hstyle : Gives (.text (units "style"))
      (units "</style>\n</head>\n<body>\n<main>\n<h1>Run ") between
      [finish "style", finish "head", start "body", start "main", start "h1"] :=
    gives_units rfl rfl rfl
  have hheading : Gives between (units "</h1>\n<p class=\"meta\">Started ") between
      [finish "h1", startWith "p" "class" "meta"] := gives_units rfl rfl rfl
  have hstarted : Gives between (units "</p>\n<p class=\"counts\">") between
      [finish "p", startWith "p" "class" "counts"] := gives_units rfl rfl rfl
  have hcounts : Gives between (units "</p>\n") between [finish "p"] := gives_units rfl rfl rfl
  have htable : Gives between (units "\n<table>\n<thead><tr>") between
      [start "table", start "thead", start "tr"] := gives_units rfl rfl rfl
  have hbody : Gives between (units "</tr></thead>\n<tbody>\n") between
      [finish "tr", finish "thead", start "tbody"] := gives_units rfl rfl rfl
  have hend : Gives between (units "\n</tbody>\n</table>\n</main>\n</body>\n</html>\n") between
      [finish "tbody", finish "table", finish "main", finish "body", finish "html"] :=
    gives_units rfl rfl rfl
  have hsaid : Tagless (html (runEnding report.ended) ++ (units " " ++ html (runCounts report))) :=
    (tagless_html _).append ((tagless_units rfl rfl).append (tagless_html _))
  have hpage := gives_head.append (htitleOpen.append
    ((gives_text_of_head (tagless_html info.name) htitle rfl trivial).append
    ((gives_text_of_head tagless_style hstyle rfl trivial).append
    ((gives_text_of_head (tagless_html info.name) hheading rfl trivial).append
    ((gives_text_of_head (tagless_html info.startedAt) hstarted rfl trivial).append
    ((gives_text_of_head hsaid hcounts rfl trivial).append
    ((gives_sharedBlocks (1 < (sharedErrors report.results).length)
      (sharedErrors report.results)).append
    (htable.append (gives_columns.append (hbody.append
      ((gives_rows (sharedErrors report.results) report.results).append hend)))))))))))
  simp only [List.append_assoc, List.cons_append, List.nil_append] at hpage
  unfold runReportHtml marks headMarks
  simp only [List.append_assoc, List.cons_append, List.nil_append]
  exact hpage

/-- What a parser of HTML reads in the page, from its first character to its last: these tags, by
how many rows and problems there are, and the page is over between two tags. -/
theorem runReportHtml_marks (report : RunReport) (info : RunInfo) :
    HtmlTags.run between (Html.decoded (runReportHtml report info)) =
      some (between, marks (report.results.map rowShape) (sharedErrors report.results).length) := by
  apply run_decoded (gives_page report info)
  unfold runReportHtml reportHead
  simp only [List.flatMap_cons, List.append_assoc]
  exact head?_units_append _ rfl

end ReportPage

/-! ## Both reports -/

/-- Whatever the texts of a run are, its JUnit text is a document of XML, with a suite for each
result; the numbers that a suite or the whole states are those of the elements in it; and the tags
of the page are those of its rows. -/
theorem runReports_wellFormed (report : RunReport) (info : RunInfo) :
    Xml.read (junitXml report info) = some (JUnit.documentNode report info) ∧
      (∀ name attributes content,
        Xml.Within (.element name attributes content) (JUnit.documentNode report info) →
        name = Xml.word "testsuites" ∨ name = Xml.word "testsuite" →
        JUnit.AddsUp attributes content) ∧
      HtmlTags.run ReportPage.between (Html.decoded (runReportHtml report info)) =
        some (ReportPage.between, ReportPage.marks (report.results.map ReportPage.rowShape)
          (sharedErrors report.results).length) := by
  refine ⟨JUnit.junitXml_read report info, ?_, ReportPage.runReportHtml_marks report info⟩
  intro name attributes content h hname
  exact JUnit.addsUp_of_within h hname

end Wayfarer
