import Mathlib.Data.List.Nodup
import Wayfarer.Library.XmlDocument
import Wayfarer.Library.ReadBack
import Wayfarer.Run.Runner

/-!
# The report of a run

A run is written as JUnit XML: a suite for each request of each iteration, a case for each test, one
more for an error and one for a skipped request. The names are the user's and an error may be a
server's.

`junitXml_read` says which tree a reader of XML gets from the text, whatever the texts hold, and
`JUnit.addsUp_of_within` that what the suites and the whole say of their numbers is what they hold.
-/

set_option autoImplicit false

namespace Wayfarer

open Library

/-! ## The report -/

/-- A run that is over. No reason given is an empty one. -/
structure RunReport where
  iterations : Nat
  results : List RunResult
  ended : RunEnd

/-- What a report says of the run besides its results. -/
structure RunInfo where
  name : Text
  startedAt : Text

/-- The totals of some results. -/
structure RunTotals where
  requests : Nat
  skipped : Nat
  tests : Nat
  failedTests : Nat
  errors : Nat

/-- The tests of a request that did not pass. -/
def RunOutcome.failedTests (outcome : RunOutcome) : List RunTest :=
  outcome.tests.filter fun test => !test.passed

def counts (results : List RunResult) : RunTotals where
  requests := (results.filter fun result => !result.outcome.skipped).length
  skipped := (results.filter fun result => result.outcome.skipped).length
  tests := (results.map fun result => result.outcome.tests.length).sum
  failedTests := (results.map fun result => result.outcome.failedTests.length).sum
  errors := (results.filter fun result => result.outcome.error.isSome).length

/-! ## Text in XML -/

/-- `[\t\n\r\u{20}-\u{D7FF}\u{E000}-\u{FFFD}\u{10000}-\u{10FFFF}]`. -/
def isXmlPoint (p : Nat) : Bool :=
  p = 0x9 || p = 0xA || p = 0xD || (0x20 ≤ p && p ≤ 0xD7FF) || (0xE000 ≤ p && p ≤ 0xFFFD) ||
    (0x10000 ≤ p && p ≤ 0x10FFFF)

/-- A code point, and what stands for one that XML has no way to write. -/
def xmlPoint (p : Nat) : Nat :=
  if isXmlPoint p then p else replacement

/-- The characters that are written as a reference. -/
def xmlReferences : List (CodeUnit × Text) :=
  [(0x26, units "amp"), (0x3C, units "lt"), (0x3E, units "gt"), (0x22, units "quot"),
    (0x09, units "#9"), (0x0A, units "#10"), (0x0D, units "#13")]

/-- A code unit, or its reference. -/
def xmlUnit (c : CodeUnit) : Text :=
  match xmlReferences.find? fun reference => reference.1 = c with
  | some reference => 0x26 :: (reference.2 ++ [0x3B])
  | none => [c]

/-- Text as XML holds it, in an attribute or between tags. -/
def xml (text : Text) : Text :=
  (ofCodePoints ((codePoints text).map xmlPoint)).flatMap xmlUnit

/-- ` name="value"`. -/
def xmlAttribute (name : String) (value : Text) : Text :=
  units " " ++ units name ++ units "=\"" ++ value ++ units "\""

/-! ## JUnit XML -/

/-- Milliseconds as seconds with three digits. -/
def seconds (ms : Option Nat) : Text :=
  let n := ms.getD 0
  decimalText (n / 1000) ++ units "." ++ decimalText (n / 100 % 10) ++ decimalText (n / 10 % 10) ++
    decimalText (n % 10)

/-- A case that has a problem inside. -/
def junitProblemCase (name classname problem : Text) : Text :=
  units "    <testcase" ++ xmlAttribute "name" name ++ xmlAttribute "classname" classname ++
    units ">\n      " ++ problem ++ units "\n    </testcase>"

/-- A test of a request. -/
def junitCase (classname : Text) (test : RunTest) : Text :=
  if test.passed then
    units "    <testcase" ++ xmlAttribute "name" (xml test.name) ++
      xmlAttribute "classname" classname ++ units "/>"
  else
    junitProblemCase (xml test.name) classname (units "<failure" ++
      xmlAttribute "type" (units "AssertionFailure") ++
      xmlAttribute "message" (xml (test.error.getD [])) ++ units "/>")

/-- The cases of a request: its tests, why there is no response, that it was skipped. -/
def junitCases (result : RunResult) : List Text :=
  let classname := xml result.request.name
  result.outcome.tests.map (junitCase classname) ++
    (match result.outcome.error with
      | some error =>
          [junitProblemCase classname classname (units "<error" ++
            xmlAttribute "type" (units "Error") ++
              xmlAttribute "message" (xml error) ++ units "/>")]
      | none => []) ++
    (if result.outcome.skipped then
      [junitProblemCase classname classname (units "<skipped" ++
        xmlAttribute "message" (units "pm.execution.skipRequest()") ++ units "/>")]
    else [])

/-- The name of a suite: with the iteration, where there are several. -/
def suiteName (iterations : Nat) (result : RunResult) : Text :=
  if 1 < iterations then
    result.request.name ++ units " (iteration " ++ decimalText (result.iteration + 1) ++ units ")"
  else result.request.name

/-- One request of one iteration. -/
def junitSuite (iterations : Nat) (result : RunResult) : Text :=
  let cases := junitCases result
  let totals := counts [result]
  let start := units "  <testsuite" ++ xmlAttribute "name" (xml (suiteName iterations result)) ++
    xmlAttribute "id" (xml result.request.id) ++
    xmlAttribute "tests" (decimalText cases.length) ++
    xmlAttribute "failures" (decimalText totals.failedTests) ++
    xmlAttribute "errors" (decimalText totals.errors) ++
    xmlAttribute "skipped" (decimalText totals.skipped) ++
    xmlAttribute "time" (seconds result.outcome.durationMs)
  if cases = [] then start ++ units "/>"
  else start ++ units ">\n" ++ joinWith (units "\n") cases ++ units "\n  </testsuite>"

/-- A run as JUnit XML. -/
def junitXml (report : RunReport) (info : RunInfo) : Text :=
  let totals := counts report.results
  let time := seconds (some (report.results.map fun result => result.outcome.durationMs.getD 0).sum)
  joinWith (units "\n")
    ([units "<?xml version=\"1.0\" encoding=\"UTF-8\"?>",
      units "<testsuites" ++ xmlAttribute "name" (xml info.name) ++
        xmlAttribute "tests" (decimalText (totals.tests + totals.errors + totals.skipped)) ++
        xmlAttribute "failures" (decimalText totals.failedTests) ++
        xmlAttribute "errors" (decimalText totals.errors) ++
          xmlAttribute "time" time ++ units ">"] ++
      report.results.map (junitSuite report.iterations) ++ [units "</testsuites>", []])

/-! ## What a reader gets -/

namespace JUnit

open Library.Xml

/-- A text as a reader gives it back. -/
def readText (text : Text) : Word :=
  (codePoints text).map xmlPoint

theorem isChar_xmlPoint (p : Nat) : isChar (xmlPoint p) = true := by
  rw [xmlPoint]
  split_ifs with h
  · exact h
  · rfl

/-- A unit is written as its reference, or as it is where it has none. -/
theorem xmlUnit_cases (c : CodeUnit) :
    (∃ reference ∈ xmlReferences, reference.1 = c ∧ xmlUnit c = 0x26 :: (reference.2 ++ [0x3B])) ∨
      (∀ reference ∈ xmlReferences, reference.1 ≠ c) ∧ xmlUnit c = [c] := by
  rw [xmlUnit]
  cases hfind : xmlReferences.find? fun reference => reference.1 = c with
  | none =>
      refine Or.inr ⟨fun reference hmem heq => ?_, rfl⟩
      exact List.find?_eq_none.mp hfind reference hmem (decide_eq_true heq)
  | some found =>
      have hmatched := List.find?_some hfind
      exact Or.inl ⟨found, List.mem_of_find?_eq_some hfind, of_decide_eq_true hmatched, rfl⟩

/-- A unit that has a reference is read from it. -/
theorem writes_of_reference {reference : CodeUnit × Text} (h : reference ∈ xmlReferences) :
    Writes (0x26 :: (reference.2 ++ [0x3B])) [reference.1.toNat] := by
  have hall : ∀ reference ∈ xmlReferences, referred (wordOf reference.2) = some reference.1.toNat ∧
      ∀ d ∈ reference.2, isReferenceUnit d = true := by
    decide
  obtain ⟨hq, hunits⟩ := hall reference h
  exact writes_reference hunits hq

/-- A unit below the surrogates is the character it is part of. -/
theorem toNat_of_mem_unitsOf {c : CodeUnit} {p : Nat} (hp : p < 0x110000) (hc : c ∈ unitsOf p)
    (hlow : c.toNat < 0xD800) : c.toNat = p := by
  rw [unitsOf] at hc
  split_ifs at hc with hbasic
  · rw [List.mem_singleton.mp hc, toNat_toUInt16 hbasic]
  · rcases List.mem_pair.mp hc with rfl | rfl
    · rw [toNat_toUInt16 (by omega)] at hlow
      omega
    · rw [toNat_toUInt16 (by omega)] at hlow
      omega

/-- A character is written as it is, or as a reference. -/
theorem writes_xmlUnit {p : Nat} (hp : isChar p = true) :
    Writes ((unitsOf p).flatMap xmlUnit) [p] := by
  have hlow : ∀ reference ∈ xmlReferences, reference.1.toNat < 0xD800 := by decide
  by_cases hmarked : ∃ reference ∈ xmlReferences, reference.1.toNat = p
  · obtain ⟨reference, hmem, rfl⟩ := hmarked
    rw [unitsOf_toNat, List.flatMap_singleton]
    rcases xmlUnit_cases reference.1 with ⟨found, hfound, hunit, hwritten⟩ | ⟨hnone, -⟩
    · rw [hwritten, ← hunit]
      exact writes_of_reference hfound
    · exact absurd rfl (hnone reference hmem)
  · have hplain : ∀ c ∈ unitsOf p, xmlUnit c = [c] := by
      intro c hc
      rcases xmlUnit_cases c with ⟨found, hfound, rfl, -⟩ | ⟨-, hsame⟩
      · have heq := toNat_of_mem_unitsOf (isScalar_of_isChar hp).2 hc (hlow found hfound)
        exact absurd ⟨found, hfound, heq⟩ hmarked
      · exact hsame
    have hsame : (unitsOf p).flatMap xmlUnit = unitsOf p := by
      rw [List.flatMap_congr hplain, List.flatMap_singleton']
    have hnot : ∀ reference ∈ xmlReferences, p ≠ reference.1.toNat :=
      fun reference hmem heq => hmarked ⟨reference, hmem, heq.symm⟩
    rw [hsame]
    apply writes_char
    constructor
    · exact hp
    · exact hnot (0x09, units "#9") (by decide)
    · exact hnot (0x0A, units "#10") (by decide)
    · exact hnot (0x0D, units "#13") (by decide)
    · exact hnot (0x22, units "quot") (by decide)
    · exact hnot (0x26, units "amp") (by decide)
    · exact hnot (0x3C, units "lt") (by decide)

/-- Any text is read back from where it is written, what XML cannot write replaced. -/
theorem writes_xml (text : Text) : Writes (xml text) (readText text) := by
  have hpoints : ∀ points : List Nat, (∀ p ∈ points, isChar p = true) →
      Writes ((ofCodePoints points).flatMap xmlUnit) points := by
    intro points hpoints
    induction points with
    | nil => exact writes_nil
    | cons p rest ih =>
        rw [ofCodePoints, List.flatMap_cons, List.flatMap_append]
        exact (writes_xmlUnit (hpoints p List.mem_cons_self)).append
          (ih fun q hq => hpoints q (List.mem_cons_of_mem p hq))
  apply hpoints
  intro q hq
  obtain ⟨p, -, rfl⟩ := List.mem_map.mp hq
  exact isChar_xmlPoint p

theorem writes_decimal (n : Nat) : Writes (decimalText n) (wordOf (decimalText n)) := by
  have hdigits : ∀ c ∈ units "0123456789", isHigh c = false ∧ IsBare c.toNat :=
    forall_mem_units rfl rfl
  exact writes_bare fun c hc => hdigits c (mem_decimalText hc)

theorem writes_seconds (ms : Option Nat) : Writes (seconds ms) (wordOf (seconds ms)) := by
  have hdot : Writes (units ".") (wordOf (units ".")) := writes_bare (forall_mem_units rfl rfl)
  rw [seconds]
  simp only [wordOf, List.map_append]
  exact ((((writes_decimal _).append hdot).append (writes_decimal _)).append
    (writes_decimal _)).append
    (writes_decimal _)

/-! ### Tags -/

theorem xmlAttribute_eq (name : String) (value : Text) :
    xmlAttribute name value = attributeText (units name) value := by
  simp only [xmlAttribute, attributeText, List.append_assoc]
  rfl

/-- The attributes of a tag, as they are written and as they are read. -/
abbrev Entry := String × Text × Word

/-- The start of a tag of the report. -/
def tagStart (element : String) (entries : List Entry) : Text :=
  units "<" ++ units element ++ entries.flatMap fun entry => xmlAttribute entry.1 entry.2.1

def readAttributes (entries : List Entry) : List (Word × Word) :=
  entries.map fun entry => (word entry.1, entry.2.2)

/-- The names of a tag are names, and each attribute has its own. -/
def NamesOfTag (element first : String) (names : List String) : Prop :=
  IsName (units element) ∧ (∀ name ∈ first :: names, IsName (units name)) ∧
    ((first :: names).map word).Nodup

instance (element first : String) (names : List String) :
    Decidable (NamesOfTag element first names) :=
  inferInstanceAs (Decidable (_ ∧ _ ∧ _))

/-- A tag whose values are written as they are read. -/
theorem tagged_tagStart {element first : String} {names : List String}
    (hnames : NamesOfTag element first names) {entries : List Entry}
    (hentries : entries.map Prod.fst = first :: names)
    (hvalues : ∀ entry ∈ entries, Writes entry.2.1 entry.2.2) :
    Tagged (tagStart element entries)
      { name := word element, attributes := readAttributes entries } := by
  obtain ⟨helement, hall, hnodup⟩ := hnames
  cases entries with
  | nil => exact absurd hentries (List.cons_ne_nil _ _).symm
  | cons entry rest =>
      rw [List.map_cons] at hentries
      obtain ⟨hfirst, hrest⟩ := List.cons.inj hentries
      have hstart := tagged_attribute helement (hall entry.1 (hfirst ▸ List.mem_cons_self))
        (hvalues entry List.mem_cons_self)
      have hmore : ∀ written ∈ rest.map fun e => (units e.1, e.2), IsName written.1 := by
        intro written hwritten
        obtain ⟨e, he, rfl⟩ := List.mem_map.mp hwritten
        exact hall e.1 (List.mem_cons_of_mem _ (hrest ▸ List.mem_map_of_mem he))
      have hread : ∀ written ∈ rest.map fun e => (units e.1, e.2),
          Writes written.2.1 written.2.2 := by
        intro written hwritten
        obtain ⟨e, he, rfl⟩ := List.mem_map.mp hwritten
        exact hvalues e (List.mem_cons_of_mem entry he)
      rw [← hfirst, ← hrest, List.map_cons, List.map_map] at hnodup
      have htag := hstart.attributes hmore hread (by rwa [List.map_map])
      rw [List.flatMap_map, List.map_map] at htag
      simp only [← xmlAttribute_eq] at htag
      have htext : tagStart element (entry :: rest) =
          0x3C :: (units element ++ xmlAttribute entry.1 entry.2.1) ++
            rest.flatMap fun e => xmlAttribute e.1 e.2.1 := by
        rw [tagStart, List.flatMap_cons, ← List.append_assoc, List.append_assoc (units "<")]
        rfl
      rw [htext]
      exact htag

/-! ### The tree -/

/-- White space of the layout. -/
def layout (s : String) : List Node :=
  (word s).map .char

def caseNode (name classname : Word) (content : List Node) : Node :=
  .element (word "testcase") [(word "name", name), (word "classname", classname)] content

/-- A case that has a problem inside. -/
def problemCaseNode (name classname : Word) (element : String) (entries : List Entry) : Node :=
  caseNode name classname
    (layout "\n      " ++ [.element (word element) (readAttributes entries) []] ++ layout "\n    ")

def failureEntries (test : RunTest) : List Entry :=
  [("type", units "AssertionFailure", word "AssertionFailure"),
    ("message", xml (test.error.getD []), readText (test.error.getD []))]

def errorEntries (error : Text) : List Entry :=
  [("type", units "Error", word "Error"), ("message", xml error, readText error)]

def skippedEntries : List Entry :=
  [("message", units "pm.execution.skipRequest()", word "pm.execution.skipRequest()")]

def testNode (classname : Word) (test : RunTest) : Node :=
  if test.passed then caseNode (readText test.name) classname []
  else problemCaseNode (readText test.name) classname "failure" (failureEntries test)

/-- The elements of a request's cases. -/
def caseNodes (result : RunResult) : List Node :=
  let classname := readText result.request.name
  result.outcome.tests.map (testNode classname) ++
    (match result.outcome.error with
      | some error => [problemCaseNode classname classname "error" (errorEntries error)]
      | none => []) ++
    (if result.outcome.skipped then [problemCaseNode classname classname "skipped" skippedEntries]
    else [])

def suiteEntries (iterations : Nat) (result : RunResult) : List Entry :=
  let number (n : Nat) : Text × Word := (decimalText n, wordOf (decimalText n))
  let totals := counts [result]
  [("name", xml (suiteName iterations result), readText (suiteName iterations result)),
    ("id", xml result.request.id, readText result.request.id),
    ("tests", number (junitCases result).length),
    ("failures", number totals.failedTests),
    ("errors", number totals.errors),
    ("skipped", number totals.skipped),
    ("time", seconds result.outcome.durationMs, wordOf (seconds result.outcome.durationMs))]

def suiteContent (result : RunResult) : List Node :=
  if caseNodes result = [] then []
  else (caseNodes result).flatMap (fun node => layout "\n    " ++ [node]) ++ layout "\n  "

def suiteNode (iterations : Nat) (result : RunResult) : Node :=
  .element (word "testsuite") (readAttributes (suiteEntries iterations result))
    (suiteContent result)

def documentEntries (report : RunReport) (info : RunInfo) : List Entry :=
  let number (n : Nat) : Text × Word := (decimalText n, wordOf (decimalText n))
  let totals := counts report.results
  let time := seconds (some (report.results.map fun result => result.outcome.durationMs.getD 0).sum)
  [("name", xml info.name, readText info.name),
    ("tests", number (totals.tests + totals.errors + totals.skipped)),
    ("failures", number totals.failedTests),
    ("errors", number totals.errors),
    ("time", time, wordOf time)]

def documentContent (report : RunReport) : List Node :=
  report.results.flatMap (fun result => layout "\n  " ++ [suiteNode report.iterations result]) ++
    layout "\n"

/-- The tree of a report. -/
def documentNode (report : RunReport) (info : RunInfo) : Node :=
  .element (word "testsuites") (readAttributes (documentEntries report info))
    (documentContent report)

theorem holds_layout {s : String} (h : ∀ c ∈ units s, c = 0x20 ∨ c = 0x0A) :
    Holds (units s) (layout s) :=
  holds_space h

theorem caseNames : NamesOfTag "testcase" "name" ["classname"] := by decide

/-- A case that has a problem inside, read. -/
theorem holds_problemCase {name classname : Text} {n c : Word} (hname : Writes name n)
    (hclassname : Writes classname c) {element first : String} {names : List String}
    (hnames : NamesOfTag element first names) {entries : List Entry}
    (hentries : entries.map Prod.fst = first :: names)
    (hvalues : ∀ entry ∈ entries, Writes entry.2.1 entry.2.2) :
    Holds (junitProblemCase name classname (tagStart element entries ++ units "/>"))
      (layout "    " ++ [problemCaseNode n c element entries]) := by
  have hcase : Tagged (tagStart "testcase" [("name", name, n), ("classname", classname, c)])
      { name := word "testcase", attributes := [(word "name", n), (word "classname", c)] } := by
    apply tagged_tagStart caseNames rfl
    exact List.forall_mem_cons.mpr ⟨hname, List.forall_mem_singleton.mpr hclassname⟩
  have hproblem : Holds (tagStart element entries ++ units "/>")
      [.element (word element) (readAttributes entries) []] :=
    holds_of_takes (takes_empty (tagged_tagStart hnames hentries hvalues))
  have hinner :
      Holds (units "\n      " ++ (tagStart element entries ++ units "/>") ++ units "\n    ")
      (layout "\n      " ++ [.element (word element) (readAttributes entries) []] ++
        layout "\n    ") :=
    ((holds_layout (by decide)).append hproblem).append (holds_layout (by decide))
  have hwhole := holds_of_takes (takes_element hcase caseNames.1 rfl hinner)
  have htext : junitProblemCase name classname (tagStart element entries ++ units "/>") =
      units "    " ++ (tagStart "testcase" [("name", name, n), ("classname", classname, c)] ++
        (0x3E ::
          ((units "\n      " ++ (tagStart element entries ++ units "/>") ++ units "\n    ") ++
          (0x3C :: 0x2F :: (units "testcase" ++ [0x3E]))))) := by
    have hopen : units "    <testcase" = units "    " ++ (units "<" ++ units "testcase") := rfl
    have hinside : units ">\n      " = 0x3E :: units "\n      " := rfl
    have hclose : units "\n    </testcase>" =
        units "\n    " ++ (0x3C :: 0x2F :: (units "testcase" ++ [0x3E])) := rfl
    rw [junitProblemCase, hopen, hinside, hclose]
    simp only [tagStart, List.flatMap_cons, List.flatMap_nil, List.append_nil, List.append_assoc,
      List.cons_append]
  rw [htext]
  exact (holds_layout (by decide)).append hwhole

theorem failureNames : NamesOfTag "failure" "type" ["message"] := by decide

theorem errorNames : NamesOfTag "error" "type" ["message"] := by decide

theorem skippedNames : NamesOfTag "skipped" "message" [] := by decide

/-- A test, read. -/
theorem holds_testNode {classname : Text} {c : Word} (hclassname : Writes classname c)
    (test : RunTest) : Holds (junitCase classname test) (layout "    " ++ [testNode c test]) := by
  rw [junitCase, testNode]
  split_ifs with hpassed
  · have hcase : Tagged
        (tagStart "testcase"
          [("name", xml test.name, readText test.name), ("classname", classname, c)])
        { name := word "testcase",
          attributes := [(word "name", readText test.name), (word "classname", c)] } := by
      apply tagged_tagStart caseNames rfl
      exact List.forall_mem_cons.mpr
        ⟨writes_xml test.name, List.forall_mem_singleton.mpr hclassname⟩
    have hwhole := holds_of_takes (takes_empty hcase)
    have htext : units "    <testcase" ++ xmlAttribute "name" (xml test.name) ++
        xmlAttribute "classname" classname ++ units "/>" = units "    " ++
          (tagStart "testcase" [("name", xml test.name, readText test.name),
            ("classname", classname, c)] ++ units "/>") := by
      have hopen : units "    <testcase" = units "    " ++ (units "<" ++ units "testcase") := rfl
      rw [hopen]
      simp only [tagStart, List.flatMap_cons, List.flatMap_nil, List.append_nil, List.append_assoc]
    rw [htext]
    exact (holds_layout (by decide)).append hwhole
  · have hvalues : ∀ entry ∈ failureEntries test, Writes entry.2.1 entry.2.2 :=
      List.forall_mem_cons.mpr ⟨writes_bare (forall_mem_units rfl rfl),
        List.forall_mem_singleton.mpr (writes_xml _)⟩
    have hfailure := holds_problemCase (writes_xml test.name) hclassname failureNames rfl hvalues
    have htext : units "<failure" ++ xmlAttribute "type" (units "AssertionFailure") ++
        xmlAttribute "message" (xml (test.error.getD [])) ++ units "/>" =
          tagStart "failure" (failureEntries test) ++ units "/>" := by
      have hopen : units "<failure" = units "<" ++ units "failure" := rfl
      rw [hopen]
      simp only [tagStart, failureEntries, List.flatMap_cons, List.flatMap_nil, List.append_nil,
        List.append_assoc]
    rw [htext]
    exact hfailure

/-- A text is read as a node, behind the white space of a case. -/
def HoldsCase (text : Text) (node : Node) : Prop :=
  Holds text (layout "    " ++ [node])

theorem holds_errorCase {classname : Text} {c : Word} (hclassname : Writes classname c)
    (error : Text) :
    HoldsCase (junitProblemCase classname classname (units "<error" ++
        xmlAttribute "type" (units "Error") ++ xmlAttribute "message" (xml error) ++ units "/>"))
      (problemCaseNode c c "error" (errorEntries error)) := by
  have hvalues : ∀ entry ∈ errorEntries error, Writes entry.2.1 entry.2.2 :=
    List.forall_mem_cons.mpr ⟨writes_bare (forall_mem_units rfl rfl),
      List.forall_mem_singleton.mpr (writes_xml _)⟩
  have htext : units "<error" ++ xmlAttribute "type" (units "Error") ++
      xmlAttribute "message" (xml error) ++ units "/>" =
        tagStart "error" (errorEntries error) ++ units "/>" := by
    have hopen : units "<error" = units "<" ++ units "error" := rfl
    rw [hopen]
    simp only [tagStart, errorEntries, List.flatMap_cons, List.flatMap_nil, List.append_nil,
      List.append_assoc]
  rw [htext]
  exact holds_problemCase hclassname hclassname errorNames rfl hvalues

theorem holds_skippedCase {classname : Text} {c : Word} (hclassname : Writes classname c) :
    HoldsCase (junitProblemCase classname classname (units "<skipped" ++
        xmlAttribute "message" (units "pm.execution.skipRequest()") ++ units "/>"))
      (problemCaseNode c c "skipped" skippedEntries) := by
  have hvalues : ∀ entry ∈ skippedEntries, Writes entry.2.1 entry.2.2 :=
    List.forall_mem_singleton.mpr (writes_bare (forall_mem_units rfl rfl))
  have htext : units "<skipped" ++ xmlAttribute "message" (units "pm.execution.skipRequest()") ++
      units "/>" = tagStart "skipped" skippedEntries ++ units "/>" := by
    have hopen : units "<skipped" = units "<" ++ units "skipped" := rfl
    rw [hopen]
    simp only [tagStart, skippedEntries, List.flatMap_cons, List.flatMap_nil, List.append_nil,
      List.append_assoc]
  rw [htext]
  exact holds_problemCase hclassname hclassname skippedNames rfl hvalues

/-- The cases of a request are read one by one. -/
theorem holds_cases (result : RunResult) :
    List.Forall₂ HoldsCase (junitCases result) (caseNodes result) := by
  have hclassname := writes_xml result.request.name
  rw [junitCases, caseNodes]
  refine List.rel_append (List.rel_append ?_ ?_) ?_
  · rw [List.forall₂_map_left_iff, List.forall₂_map_right_iff, List.forall₂_same]
    exact fun test _ => holds_testNode hclassname test
  · cases result.outcome.error with
    | none => exact List.Forall₂.nil
    | some error => exact List.Forall₂.cons (holds_errorCase hclassname error) List.Forall₂.nil
  · split_ifs
    · exact List.Forall₂.cons (holds_skippedCase hclassname) List.Forall₂.nil
    · exact List.Forall₂.nil

/-- Joined texts are the first, and each other behind the separator. -/
theorem joinWith_cons (sep piece : Text) (rest : List Text) :
    joinWith sep (piece :: rest) = piece ++ rest.flatMap (sep ++ ·) := by
  rw [joinWith]
  induction rest generalizing piece with
  | nil => simp
  | cons next rest ih =>
      rw [List.intercalate_cons_cons, ih next, List.flatMap_cons, List.append_assoc,
        List.append_assoc]

/-- Cases behind a line end each. -/
theorem holds_lines {texts : List Text} {nodes : List Node}
    (h : List.Forall₂ HoldsCase texts nodes) :
    Holds (texts.flatMap (units "\n" ++ ·))
      (nodes.flatMap fun node => layout "\n    " ++ [node]) := by
  induction h with
  | nil => exact holds_nil
  | cons hcase _ ih =>
      have hline : Holds (units "\n") (layout "\n") := holds_layout (by decide)
      rw [List.flatMap_cons, List.flatMap_cons]
      exact (hline.append hcase).append ih

theorem suiteNames :
    NamesOfTag "testsuite" "name" ["id", "tests", "failures", "errors", "skipped", "time"] := by
  decide

theorem documentNames :
    NamesOfTag "testsuites" "name" ["tests", "failures", "errors", "time"] := by
  decide

theorem writes_suiteEntries (iterations : Nat) (result : RunResult) :
    ∀ entry ∈ suiteEntries iterations result, Writes entry.2.1 entry.2.2 := by
  simp only [suiteEntries, List.forall_mem_cons]
  exact ⟨writes_xml _, writes_xml _, writes_decimal _, writes_decimal _, writes_decimal _,
    writes_decimal _, writes_seconds _, List.forall_mem_nil _⟩

theorem writes_documentEntries (report : RunReport) (info : RunInfo) :
    ∀ entry ∈ documentEntries report info, Writes entry.2.1 entry.2.2 := by
  simp only [documentEntries, List.forall_mem_cons]
  exact ⟨writes_xml _, writes_decimal _, writes_decimal _, writes_decimal _, writes_seconds _,
    List.forall_mem_nil _⟩

/-- A suite, read. -/
theorem holds_suite (iterations : Nat) (result : RunResult) :
    Holds (junitSuite iterations result) (layout "  " ++ [suiteNode iterations result]) := by
  have hcases := holds_cases result
  have htag := tagged_tagStart suiteNames rfl (writes_suiteEntries iterations result)
  -- The start tag is its name and its attributes.
  have hstart : units "  <testsuite" ++ xmlAttribute "name" (xml (suiteName iterations result)) ++
      xmlAttribute "id" (xml result.request.id) ++
      xmlAttribute "tests" (decimalText (junitCases result).length) ++
      xmlAttribute "failures" (decimalText (counts [result]).failedTests) ++
      xmlAttribute "errors" (decimalText (counts [result]).errors) ++
      xmlAttribute "skipped" (decimalText (counts [result]).skipped) ++
      xmlAttribute "time" (seconds result.outcome.durationMs) =
        units "  " ++ tagStart "testsuite" (suiteEntries iterations result) := by
    have hopen : units "  <testsuite" = units "  " ++ (units "<" ++ units "testsuite") := rfl
    rw [hopen]
    simp only [tagStart, suiteEntries, List.flatMap_cons, List.flatMap_nil, List.append_nil,
      List.append_assoc]
  rw [junitSuite, hstart, suiteNode, suiteContent]
  by_cases hempty : junitCases result = []
  · have hnone : caseNodes result = [] := by
      rw [hempty] at hcases
      exact List.forall₂_nil_left_iff.mp hcases
    rw [if_pos hempty, if_pos hnone, List.append_assoc]
    exact (holds_layout (by decide)).append (holds_of_takes (takes_empty htag))
  · -- With cases inside, each on a line, the tag is closed on a line of its own.
    have hsome : caseNodes result ≠ [] := by
      intro hnone
      rw [hnone] at hcases
      exact hempty (List.forall₂_nil_right_iff.mp hcases)
    have hend : Holds (units "\n  ") (layout "\n  ") := holds_layout (by decide)
    have hwhole := holds_of_takes
      (takes_element htag suiteNames.1 rfl ((holds_lines hcases).append hend))
    have htext :
        units "  " ++ tagStart "testsuite" (suiteEntries iterations result) ++ units ">\n" ++
        joinWith (units "\n") (junitCases result) ++ units "\n  </testsuite>" = units "  " ++
          (tagStart "testsuite" (suiteEntries iterations result) ++ (0x3E ::
            (((junitCases result).flatMap (units "\n" ++ ·) ++ units "\n  ") ++
              (0x3C :: 0x2F :: (units "testsuite" ++ [0x3E]))))) := by
      have hopen : units ">\n" = 0x3E :: units "\n" := rfl
      have hclose : units "\n  </testsuite>" =
          units "\n  " ++ (0x3C :: 0x2F :: (units "testsuite" ++ [0x3E])) := rfl
      obtain ⟨first, rest, hcons⟩ := List.exists_cons_of_ne_nil hempty
      rw [hopen, hclose, hcons, joinWith_cons, List.flatMap_cons]
      simp only [List.append_assoc, List.cons_append]
    rw [if_neg hempty, if_neg hsome, htext]
    exact (holds_layout (by decide)).append hwhole

/-- Any report is a document of XML, whatever texts it has, and this is its tree. -/
theorem junitXml_read (report : RunReport) (info : RunInfo) :
    read (junitXml report info) = some (documentNode report info) := by
  have htag := tagged_tagStart documentNames rfl (writes_documentEntries report info)
  have hsuites : Holds (report.results.flatMap fun result =>
      units "\n" ++ junitSuite report.iterations result)
      (report.results.flatMap fun result =>
        layout "\n  " ++ [suiteNode report.iterations result]) := by
    refine holds_flatMap fun result _ => ?_
    have hline : Holds (units "\n") (layout "\n") := holds_layout (by decide)
    exact hline.append (holds_suite report.iterations result)
  have hend : Holds (units "\n") (layout "\n") := holds_layout (by decide)
  have hread := read_of_takes fun state =>
    takes_element htag documentNames.1 rfl (hsuites.append hend) state
  have htext : junitXml report info = declaration ++ (0x0A ::
      ((tagStart "testsuites" (documentEntries report info) ++ (0x3E ::
        ((report.results.flatMap
          (fun result => units "\n" ++ junitSuite report.iterations result) ++
          units "\n") ++ (0x3C :: 0x2F :: (units "testsuites" ++ [0x3E]))))) ++ [0x0A])) := by
    have hopen : units "<testsuites" = units "<" ++ units "testsuites" := rfl
    have hclose : units "</testsuites>" = 0x3C :: 0x2F :: (units "testsuites" ++ [0x3E]) := rfl
    have hline : units "\n" = [0x0A] := rfl
    have hdeclaration : units "<?xml version=\"1.0\" encoding=\"UTF-8\"?>" = declaration := rfl
    rw [junitXml, hopen, hclose, hline, hdeclaration, List.append_assoc, List.cons_append,
      joinWith_cons]
    simp only [tagStart, documentEntries, List.flatMap_cons, List.flatMap_nil, List.flatMap_append,
      List.flatMap_map, List.append_nil, List.append_assoc, List.cons_append, List.nil_append]
    rfl
  rw [htext]
  exact hread

/-! ### The numbers -/

/-- 1 for the elements of a name, and 0 for the others. -/
def named (name : Word) (element : String) : Nat :=
  if word element = name then 1 else 0

theorem countAll_layout (name : Word) (s : String) : countAll name (layout s) = 0 :=
  countAll_chars name (word s)

theorem count_problemCase (name n c : Word) (element : String) (entries : List Entry) :
    (problemCaseNode n c element entries).count name =
      named name "testcase" + named name element := by
  rw [problemCaseNode, caseNode, Node.count, countAll_append, countAll_append, countAll_layout,
    countAll_layout, countAll, countAll, Node.count, countAll, named, named]
  omega

theorem count_testNode (name c : Word) (test : RunTest) :
    (testNode c test).count name =
      named name "testcase" + (if test.passed then 0 else named name "failure") := by
  rw [testNode]
  split_ifs with hpassed
  · rw [caseNode, Node.count, countAll, named]
  · exact count_problemCase name _ c "failure" _

/-- The elements of a name in the cases of tests. -/
theorem countAll_tests (name c : Word) (tests : List RunTest) :
    countAll name (tests.map (testNode c)) =
      tests.length * named name "testcase" +
        (tests.filter fun test => !test.passed).length * named name "failure" := by
  induction tests with
  | nil =>
      rw [List.map_nil, countAll, List.length_nil, List.filter_nil, List.length_nil, Nat.zero_mul,
        Nat.zero_mul]
  | cons test rest ih =>
      rw [List.map_cons, countAll, count_testNode, ih, List.length_cons, List.filter_cons]
      cases test.passed with
      | false =>
          rw [if_neg Bool.false_ne_true, Bool.not_false, if_pos rfl, List.length_cons, Nat.succ_mul,
            Nat.succ_mul]
          omega
      | true =>
          rw [if_pos rfl, Bool.not_true, if_neg Bool.false_ne_true, Nat.succ_mul]
          omega

/-- What a suite holds is its cases. -/
theorem countAll_suiteContent (name : Word) (result : RunResult) :
    countAll name (suiteContent result) = countAll name (caseNodes result) := by
  rw [suiteContent]
  split_ifs with hempty
  · rw [hempty]
  · rw [countAll_append, countAll_layout, Nat.add_zero]
    induction caseNodes result with
    | nil => rfl
    | cons node rest ih =>
        rw [List.flatMap_cons, countAll_append, countAll_append, countAll_layout, ih, countAll,
          countAll, countAll]
        omega

/-- So many elements of the four names that are counted. -/
def tally (cases failures errors skipped : Nat) (name : Word) : Nat :=
  cases * named name "testcase" + failures * named name "failure" + errors * named name "error" +
    skipped * named name "skipped"

theorem tally_named (cases failures errors skipped : Nat) :
    tally cases failures errors skipped (word "testcase") = cases ∧
      tally cases failures errors skipped (word "failure") = failures ∧
      tally cases failures errors skipped (word "error") = errors ∧
      tally cases failures errors skipped (word "skipped") = skipped := by
  have hnamed : ∀ a ∈ ["testcase", "failure", "error", "skipped"],
      ∀ b ∈ ["testcase", "failure", "error", "skipped"],
        named (word a) b = if b = a then 1 else 0 := by
    decide
  simp only [List.forall_mem_cons] at hnamed
  simp [tally, hnamed]

/-- The elements of a name in a suite, by what is counted of its request. -/
theorem countAll_caseNodes (name : Word) (result : RunResult) :
    countAll name (caseNodes result) =
      tally (caseNodes result).length (counts [result]).failedTests (counts [result]).errors
        (counts [result]).skipped name := by
  have hfailed : (counts [result]).failedTests =
      (result.outcome.tests.filter fun test => !test.passed).length := Nat.add_zero _
  rw [tally, caseNodes, hfailed]
  simp only [counts, countAll_append, countAll_tests, List.length_append, List.length_map,
    List.filter_cons, List.filter_nil]
  cases result.outcome.error with
  | none =>
      cases result.outcome.skipped with
      | false => simp [countAll]
      | true =>
          simp [countAll, count_problemCase, Nat.add_mul]
          omega
  | some error =>
      cases result.outcome.skipped with
      | false =>
          simp [countAll, count_problemCase, Nat.add_mul]
          omega
      | true =>
          simp [countAll, count_problemCase, Nat.add_mul]
          omega

/-- The totals of more results are those of the first and those of the rest. -/
theorem counts_cons (result : RunResult) (rest : List RunResult) :
    (counts (result :: rest)).failedTests =
        (counts [result]).failedTests + (counts rest).failedTests ∧
      (counts (result :: rest)).errors = (counts [result]).errors + (counts rest).errors ∧
      (counts (result :: rest)).skipped = (counts [result]).skipped + (counts rest).skipped ∧
      (counts (result :: rest)).tests = (counts [result]).tests + (counts rest).tests := by
  refine ⟨rfl, ?_, ?_, rfl⟩
  · simp only [counts, List.filter_cons, List.filter_nil]
    split_ifs
    · exact Nat.add_comm _ _
    · exact (Nat.zero_add _).symm
  · simp only [counts, List.filter_cons, List.filter_nil]
    split_ifs
    · exact Nat.add_comm _ _
    · exact (Nat.zero_add _).symm

/-- A request has a case for each test, one for an error and one where it was skipped. -/
theorem length_caseNodes (result : RunResult) :
    (caseNodes result).length =
      (counts [result]).tests + (counts [result]).errors + (counts [result]).skipped := by
  rw [caseNodes]
  simp only [counts, List.length_append, List.length_map, List.filter_cons, List.filter_nil,
    List.map_cons, List.map_nil, List.sum_cons, List.sum_nil]
  cases result.outcome.error with
  | none => cases result.outcome.skipped <;> rfl
  | some error => cases result.outcome.skipped <;> rfl

/-- The elements of a name that is no suite's in a report, by its totals. -/
theorem countAll_documentContent (name : Word) (hname : named name "testsuite" = 0)
    (report : RunReport) :
    countAll name (documentContent report) =
      tally ((counts report.results).tests + (counts report.results).errors +
          (counts report.results).skipped) (counts report.results).failedTests
        (counts report.results).errors (counts report.results).skipped name := by
  rw [documentContent, countAll_append, countAll_layout, Nat.add_zero]
  induction report.results with
  | nil => simp [counts, countAll, tally]
  | cons result rest ih =>
      obtain ⟨hfailed, herrors, hskipped, htests⟩ := counts_cons result rest
      rw [List.flatMap_cons, countAll_append, countAll_append, countAll_layout, ih, countAll,
        countAll, suiteNode, Node.count, ← named, hname, countAll_suiteContent,
        countAll_caseNodes, length_caseNodes, hfailed, herrors, hskipped, htests]
      simp only [tally, Nat.add_mul]
      omega

/-- The number that an element states under a name, and the elements that it counts. -/
def countedElements : List (String × String) :=
  [("tests", "testcase"), ("failures", "failure"), ("errors", "error"), ("skipped", "skipped")]

/-- Every number that an element states is that of the elements in it. -/
def AddsUp (attributes : List (Word × Word)) (content : List Node) : Prop :=
  ∀ counted ∈ countedElements, ∀ value, (word counted.1, value) ∈ attributes →
    value = wordOf (decimalText (countAll (word counted.2) content))

/-- A tag has one value for a name. -/
theorem value_unique {entries : List Entry} (hnodup : ((entries.map Prod.fst).map word).Nodup)
    {name value value' : Word} (h : (name, value) ∈ readAttributes entries)
    (h' : (name, value') ∈ readAttributes entries) : value = value' := by
  have hkeys : (entries.map Prod.fst).map word = (readAttributes entries).map Prod.fst := by
    rw [readAttributes, List.map_map, List.map_map]
    rfl
  rw [hkeys] at hnodup
  exact congrArg Prod.snd (List.inj_on_of_nodup_map hnodup h h' rfl)

theorem suite_addsUp (iterations : Nat) (result : RunResult) :
    AddsUp (readAttributes (suiteEntries iterations result)) (suiteContent result) := by
  have hnodup : (((suiteEntries iterations result).map Prod.fst).map word).Nodup := suiteNames.2.2
  have hlength : (junitCases result).length = (caseNodes result).length :=
    (holds_cases result).length_eq
  obtain ⟨hcases, hfailures, herrors, hskipped⟩ := tally_named (caseNodes result).length
    (counts [result]).failedTests (counts [result]).errors (counts [result]).skipped
  intro counted hcounted value hvalue
  rw [countAll_suiteContent, countAll_caseNodes]
  simp only [countedElements, List.mem_cons, List.not_mem_nil, or_false] at hcounted
  rcases hcounted with rfl | rfl | rfl | rfl
  · rw [hcases, ← hlength]
    exact value_unique hnodup hvalue (List.mem_map_of_mem (.tail _ (.tail _ (.head _))))
  · rw [hfailures]
    exact value_unique hnodup hvalue (List.mem_map_of_mem (.tail _ (.tail _ (.tail _ (.head _)))))
  · rw [herrors]
    exact value_unique hnodup hvalue
      (List.mem_map_of_mem (.tail _ (.tail _ (.tail _ (.tail _ (.head _))))))
  · rw [hskipped]
    exact value_unique hnodup hvalue
      (List.mem_map_of_mem (.tail _ (.tail _ (.tail _ (.tail _ (.tail _ (.head _)))))))

theorem document_addsUp (report : RunReport) (info : RunInfo) :
    AddsUp (readAttributes (documentEntries report info)) (documentContent report) := by
  have hnodup : (((documentEntries report info).map Prod.fst).map word).Nodup := documentNames.2.2
  have hother : ∀ element ∈ ["testcase", "failure", "error", "skipped"],
      named (word element) "testsuite" = 0 := by
    decide
  simp only [List.forall_mem_cons] at hother
  obtain ⟨hcase, hfailure, herror, -⟩ := hother
  obtain ⟨hcases, hfailures, herrors, -⟩ := tally_named ((counts report.results).tests +
    (counts report.results).errors + (counts report.results).skipped)
    (counts report.results).failedTests (counts report.results).errors
      (counts report.results).skipped
  intro counted hcounted value hvalue
  simp only [countedElements, List.mem_cons, List.not_mem_nil, or_false] at hcounted
  rcases hcounted with rfl | rfl | rfl | rfl
  · rw [countAll_documentContent _ hcase, hcases]
    exact value_unique hnodup hvalue (List.mem_map_of_mem (.tail _ (.head _)))
  · rw [countAll_documentContent _ hfailure, hfailures]
    exact value_unique hnodup hvalue (List.mem_map_of_mem (.tail _ (.tail _ (.head _))))
  · rw [countAll_documentContent _ herror, herrors]
    exact value_unique hnodup hvalue (List.mem_map_of_mem (.tail _ (.tail _ (.tail _ (.head _)))))
  · -- The whole does not state how many were skipped.
    have hnone : ∀ name ∈ ["name", "tests", "failures", "errors", "time"],
        word name ≠ word "skipped" := by
      decide
    obtain ⟨entry, hentry, heq⟩ := List.mem_map.mp hvalue
    have hname : entry.1 ∈ (documentEntries report info).map Prod.fst := List.mem_map_of_mem hentry
    exact absurd (congrArg Prod.fst heq) (hnone entry.1 hname)

/-! ### Every element that states numbers -/

section Within

variable {name : Word} {attributes : List (Word × Word)} {content : List Node}

theorem not_within_layout {s : String} {m : Node} (hm : m ∈ layout s) :
    ¬ Within (.element name attributes content) m := by
  obtain ⟨p, -, rfl⟩ := List.mem_map.mp hm
  exact fun h => Node.noConfusion (within_char h)

/-- What is in a case is the case or its problem. -/
theorem name_of_within_problemCase {n c : Word} {element : String} {entries : List Entry}
    (h : Within (.element name attributes content) (problemCaseNode n c element entries)) :
    name = word "testcase" ∨ name = word element := by
  rw [problemCaseNode, caseNode] at h
  rcases within_element h with heq | ⟨m, hm, h⟩
  · exact Or.inl (Node.element.inj heq).1
  · rcases List.mem_append.mp hm with hm | hm
    · rcases List.mem_append.mp hm with hm | hm
      · exact absurd h (not_within_layout hm)
      · rw [List.mem_singleton.mp hm] at h
        rcases within_element h with heq | ⟨m, hm, -⟩
        · exact Or.inr (Node.element.inj heq).1
        · exact absurd hm List.not_mem_nil
    · exact absurd h (not_within_layout hm)

/-- The elements of a request's cases. -/
theorem name_of_within_case {result : RunResult} {node : Node} (hnode : node ∈ caseNodes result)
    (h : Within (.element name attributes content) node) :
    ∃ element ∈ ["testcase", "failure", "error", "skipped"], name = word element := by
  have hproblem : ∀ {n c : Word} {element : String} {entries : List Entry},
      element ∈ ["failure", "error", "skipped"] →
      Within (.element name attributes content) (problemCaseNode n c element entries) →
      ∃ element ∈ ["testcase", "failure", "error", "skipped"], name = word element := by
    intro n c element entries helement hwithin
    rcases name_of_within_problemCase hwithin with hname | hname
    · exact ⟨"testcase", .head _, hname⟩
    · exact ⟨element, .tail _ helement, hname⟩
  rw [caseNodes] at hnode
  rcases List.mem_append.mp hnode with hnode | hnode
  · rcases List.mem_append.mp hnode with hnode | hnode
    · obtain ⟨test, -, rfl⟩ := List.mem_map.mp hnode
      rw [testNode] at h
      split_ifs at h with hpassed
      · rcases within_element h with heq | ⟨m, hm, -⟩
        · exact ⟨"testcase", .head _, (Node.element.inj heq).1⟩
        · exact absurd hm List.not_mem_nil
      · exact hproblem (.head _) h
    · cases herror : result.outcome.error with
      | none =>
          rw [herror] at hnode
          exact absurd hnode List.not_mem_nil
      | some error =>
          rw [herror] at hnode
          rw [List.mem_singleton.mp hnode] at h
          exact hproblem (.tail _ (.head _)) h
  · split_ifs at hnode
    · rw [List.mem_singleton.mp hnode] at h
      exact hproblem (.tail _ (.tail _ (.head _))) h
    · exact absurd hnode List.not_mem_nil

/-- The elements of a suite are the suite and those of its cases. -/
theorem within_suite {iterations : Nat} {result : RunResult}
    (h : Within (.element name attributes content) (suiteNode iterations result)) :
    (attributes = readAttributes (suiteEntries iterations result) ∧ content = suiteContent result) ∨
      ∃ element ∈ ["testcase", "failure", "error", "skipped"], name = word element := by
  rcases within_element h with heq | ⟨m, hm, h⟩
  · exact Or.inl (Node.element.inj heq).2
  · rw [suiteContent] at hm
    split_ifs at hm
    · exact absurd hm List.not_mem_nil
    · rcases List.mem_append.mp hm with hm | hm
      · obtain ⟨node, hnode, hm⟩ := List.mem_flatMap.mp hm
        rcases List.mem_append.mp hm with hm | hm
        · exact absurd h (not_within_layout hm)
        · rw [List.mem_singleton.mp hm] at h
          exact Or.inr (name_of_within_case hnode h)
      · exact absurd h (not_within_layout hm)

/-- Whatever element of a report is a suite or the whole, the numbers that it states are those of
the elements in it. -/
theorem addsUp_of_within {report : RunReport} {info : RunInfo}
    (h : Within (.element name attributes content) (documentNode report info))
    (hname : name = word "testsuites" ∨ name = word "testsuite") : AddsUp attributes content := by
  have hother : ∀ element ∈ ["testcase", "failure", "error", "skipped"],
      word "testsuites" ≠ word element ∧ word "testsuite" ≠ word element := by
    decide
  rcases within_element h with heq | ⟨m, hm, h⟩
  · obtain ⟨-, rfl, rfl⟩ := Node.element.inj heq
    exact document_addsUp report info
  · rcases List.mem_append.mp hm with hm | hm
    · obtain ⟨result, -, hm⟩ := List.mem_flatMap.mp hm
      rcases List.mem_append.mp hm with hm | hm
      · exact absurd h (not_within_layout hm)
      · rw [List.mem_singleton.mp hm] at h
        rcases within_suite h with ⟨rfl, rfl⟩ | ⟨element, helement, rfl⟩
        · exact suite_addsUp report.iterations result
        · rcases hname with heq | heq
          · exact absurd heq.symm (hother element helement).1
          · exact absurd heq.symm (hother element helement).2
    · exact absurd h (not_within_layout hm)

end Within

end JUnit

end Wayfarer
