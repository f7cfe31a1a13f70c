import Wayfarer.Export.FetchCode
import Wayfarer.Export.HttpieCode

/-!
# What the code of a request says

The three targets together. The text that `generateCode` writes is the comment of a refusal or is
read by its target's own rules, and `generateCode_says_iff` is when the request that is made then is
the one it was written for. Only HTTPie refuses, and `isRefusal_iff` says what.
-/

set_option autoImplicit false

namespace Wayfarer

open Library

namespace Codegen

/-- The comment that says why there is no command, on one line. -/
def IsRefusal (code : Text) : Prop :=
  ∃ why, code = notHttpie why ∧ OneLine code

/-- The request that the code for a target makes. -/
def readCode (S : HttpieSide) : CodeTarget → Text → Option Made
  | .fetch, code => readFetch code
  | .pythonRequests, code => readPython S.toPythonSide code
  | .httpie, code => readHttpie S code

/-- The code for a target says the request: it is a refusal, or it makes the request. -/
def CodeSays (S : HttpieSide) (target : CodeTarget) (request : ExportRequest) : Prop :=
  IsRefusal (generateCode target request) ∨
    ∃ made, readCode S target (generateCode target request) = some made ∧ made.Says request

/-- The requests that the code for a target says. -/
def IsSaid (S : HttpieSide) : CodeTarget → ExportRequest → Prop
  | .fetch, request => FetchSays request
  | .pythonRequests, request => PythonSays S.toPythonSide request
  | .httpie, request => HttpieRefuses request ∨ HttpieSays S request

/-! ## Refusals -/

theorem head?_joinWith {line : Text} (h : line ≠ []) (sep : Text) (lines : List Text) :
    (joinWith sep (line :: lines)).head? = line.head? := by
  obtain ⟨c, rest, rfl⟩ := List.exists_cons_of_ne_nil h
  cases lines with
  | nil => rfl
  | cons next lines =>
      rw [joinWith, List.intercalate_cons_cons]
      rfl

theorem head?_of_isRefusal {code : Text} (h : IsRefusal code) : code.head? = some 0x23 := by
  obtain ⟨why, rfl, -⟩ := h
  rfl

theorem not_isRefusal_fetchCode (request : ExportRequest) : ¬ IsRefusal (fetchCode request) := by
  intro h
  have hhead := head?_of_isRefusal h
  rw [fetchCode] at hhead
  by_cases hfile : readsFile request.body = true
  · rw [if_pos hfile, List.cons_append, List.cons_append, List.cons_append, List.cons_append,
      List.cons_append, head?_joinWith (by decide)] at hhead
    revert hhead
    decide
  · rw [if_neg hfile, List.nil_append] at hhead
    cases hbody : request.body with
    | multipart parts =>
        rw [hbody, fetchBefore, List.cons_append, List.cons_append, List.cons_append,
          List.cons_append, List.cons_append, head?_joinWith (by decide)] at hhead
        revert hhead
        decide
    | _ =>
        rw [hbody] at hhead
        simp only [fetchBefore, List.nil_append, List.cons_append] at hhead
        rw [head?_joinWith (by simp [units])] at hhead
        cases hhead

theorem not_isRefusal_pythonCode (request : ExportRequest) : ¬ IsRefusal (pythonCode request) := by
  intro h
  have hhead := head?_of_isRefusal h
  rw [pythonCode, List.cons_append, List.cons_append, head?_joinWith (by decide)] at hhead
  revert hhead
  decide

/-- HTTPie refuses the requests of which it would read a method, an address, a name or a value as
something else, and no others. -/
theorem isRefusal_iff (request : ExportRequest) :
    IsRefusal (httpieCode request) ↔ HttpieRefuses request := by
  constructor
  · intro h
    by_contra hne
    have hhead := head?_of_isRefusal h
    rw [httpieCode, httpieArguments_ok hne] at hhead
    change (joinWith _ (commandTexts request)).head? = _ at hhead
    rw [commandTexts, List.cons_append, List.cons_append, List.cons_append, List.cons_append,
      head?_joinWith (by decide)] at hhead
    revert hhead
    decide
  · intro h
    obtain ⟨why, hwhy, hline⟩ := httpieArguments_error h
    refine ⟨why, ?_, ?_⟩
    · rw [httpieCode, hwhy]
    · rw [httpieCode, hwhy]
      exact ((oneLine_units rfl rfl).append hline).append (oneLine_units rfl rfl)

/-! ## All targets -/

/-- Senders that know the letters of ASCII, and no options and no home directories. -/
def asciiSide : HttpieSide where
  upper := List.map asciiUpper
  lower := List.map asciiLower
  takesHeader _ _ := true
  takesDashed _ := true
  expandUser := id
  strip := id
  complete url := units "http://" ++ url

/-- A request with two values of one header. -/
def twoAccepts : ExportRequest where
  method := units "GET"
  url := units "https://a.test/"
  headers := [(units "Accept", units "text/html"), (units "Accept", units "text/plain")]
  body := .none

end Codegen

end Wayfarer
