import Wayfarer.Export.HttpieCode
import Wayfarer.Import.CurlWords

/-!
# The cURL command of a request, in a shell

A POSIX shell reads a written command as `curl` and the words of its request: no character of the
request ends a word, starts another command or is expanded. They are the words that the import reads
of it.
-/

set_option autoImplicit false

namespace Wayfarer

open Library Shell

namespace BuiltCurl

/-- A letter means nothing else to a shell. -/
theorem isBare_of_isLetter {c : CodeUnit} (hc : isLetter c = true) : isBare c = true := by
  simp only [isLetter, Bool.or_eq_true, Bool.and_eq_true, decide_eq_true_eq] at hc
  simp only [isBare, isAlphanumeric, Bool.or_eq_true, Bool.and_eq_true, decide_eq_true_eq]
  omega

theorem readsWords_shellQuote (t : Text) : ReadsWords (shellQuote t) [t] := by
  rw [Codegen.shellQuote_eq]
  exact readsWords_quoted t

theorem readsWords_method (method : Text) :
    List.Forall₂ ReadsWords (methodArgument method) (methodWords method) := by
  rw [methodArgument, methodWords]
  split_ifs with hhead hget hletters
  · exact .cons (readsWords_bare (by decide) (by decide)) .nil
  · -- A plain method needs no quotes.
    have hplain : ∀ c ∈ method, isBare c = true := fun c hc =>
      isBare_of_isLetter (List.all_eq_true.mp hletters.2 c hc)
    exact .cons (.behind rfl (by decide) (readsWords_bare hplain hletters.1)) .nil
  · exact .cons (.behind rfl (by decide) (readsWords_shellQuote method)) .nil
  · exact .nil

theorem readsWords_url (url : Text) : ReadsWords (urlArgument url) (urlWords url) := by
  rw [urlArgument, urlWords]
  split_ifs
  · exact .behind rfl (by decide) (readsWords_shellQuote url)
  · exact readsWords_shellQuote url

theorem readsWords_field (field : Text × Text) :
    ReadsWords (fieldArgument field) (fieldWords field) := by
  rw [fieldArgument, fieldWords]
  split_ifs
  · exact .behind rfl (by decide) (readsWords_shellQuote _)
  · exact .behind rfl (by decide) (readsWords_shellQuote _)

theorem readsWords_part (part : ExportPart) : ReadsWords (partArgument part) (partWords part) := by
  obtain ⟨name, value⟩ := part
  cases value with
  | text value => exact .behind rfl (by decide) (readsWords_shellQuote _)
  | file fileName => exact .behind rfl (by decide) (readsWords_shellQuote _)

theorem readsWords_body (body : ExportBody) :
    List.Forall₂ ReadsWords (bodyArguments body) (bodyWords body) := by
  cases body with
  | none => exact .nil
  | raw text =>
      rw [bodyArguments, bodyWords]
      split_ifs
      · exact .cons (.behind rfl (by decide) (readsWords_shellQuote text)) .nil
      · exact .nil
  | urlencoded fields =>
      rw [bodyArguments, bodyWords, List.forall₂_map_left_iff, List.forall₂_map_right_iff,
        List.forall₂_same]
      exact fun field _ => readsWords_field field
  | multipart parts =>
      rw [bodyArguments, bodyWords, List.forall₂_map_left_iff, List.forall₂_map_right_iff,
        List.forall₂_same]
      exact fun part _ => readsWords_part part
  | binary fileName =>
      rw [bodyArguments, bodyWords]
      split_ifs
      · exact .cons (.behind rfl (by decide) (readsWords_shellQuote _)) .nil
      · exact .nil

theorem readsWords_headers (headers : List (Text × Text)) :
    List.Forall₂ ReadsWords
      (headers.map fun header => units "-H " ++ shellQuote (header.1 ++ units ": " ++ header.2))
      (headers.map headerWords) := by
  rw [List.forall₂_map_left_iff, List.forall₂_map_right_iff, List.forall₂_same]
  exact fun header _ => .behind rfl (by decide) (readsWords_shellQuote _)

/-- The arguments of a command, each as its words. -/
theorem readsWords_curlArguments (request : ExportRequest) :
    List.Forall₂ ReadsWords (curlArguments request) ([units "curl"] :: requestWords request) := by
  have hcurl : ReadsWords (units "curl") [units "curl"] := readsWords_bare (by decide) (by decide)
  rw [curlArguments, requestWords]
  have hfirst := List.rel_append (List.Forall₂.cons hcurl .nil) (readsWords_method request.method)
  have hurl := List.rel_append hfirst (.cons (readsWords_url request.url) .nil)
  have hheaders := List.rel_append hurl
    (readsWords_headers (request.headers.filter fun header => header.1 ≠ []))
  exact List.rel_append hheaders (readsWords_body request.body)

/-- The comment in the place of a command ends no line. -/
theorem oneLine_buildCurl {request : ExportRequest} {part : ExportPart}
    (hpart : unsayable request.body = some part) :
    (units "#").isPrefixOf (buildCurl request) = true ∧ Codegen.OneLine (buildCurl request) := by
  rw [buildCurl, hpart]
  refine ⟨rfl, ?_⟩
  exact ((Codegen.oneLine_units rfl (by decide)).append (Codegen.oneLine_commentName _)).append
    (Codegen.oneLine_units (String.ofList_append ..).symm (by decide))

/-- A shell reads the command of a request as `curl` and the words of the request, as the import
does, or refuses it for a character that no argument can hold. A request that curl cannot say is a
comment of one line. -/
theorem buildCurl_in_shell (request : ExportRequest) :
    (unsayable request.body ≠ none →
      (units "#").isPrefixOf (buildCurl request) = true ∧ Codegen.OneLine (buildCurl request)) ∧
    (unsayable request.body = none →
      bashWords (buildCurl request) = .ok (units "curl" :: (requestWords request).flatten) ∧
        Shell.words (buildCurl request) =
          if (0 : CodeUnit) ∈ (requestWords request).flatten.flatten then none
          else some (units "curl" :: (requestWords request).flatten)) := by
  refine ⟨fun hunsaid => ?_, fun hsaid => ⟨bashWords_buildCurl hsaid, ?_⟩⟩
  · obtain ⟨part, hpart⟩ := Option.ne_none_iff_exists'.mp hunsaid
    exact oneLine_buildCurl hpart
  · have hcurl : (0 : CodeUnit) ∉ units "curl" := by decide
    have hline : units " \\\n  " = lineGoesOn := by decide
    rw [buildCurl, hsaid]
    show words (joinWith (units " \\\n  ") (curlArguments request)) = _
    rw [hline, words_arguments (readsWords_curlArguments request) (by simp [curlArguments]),
      List.flatten_cons, List.singleton_append, List.flatten_cons]
    simp only [List.mem_append, hcurl, false_or]

end BuiltCurl

end Wayfarer
