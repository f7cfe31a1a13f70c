import Wayfarer.Export.Codegen
import Wayfarer.Library.Form

/-!
# The request that code makes

What a program or a command asks its sender for, in terms that the three targets of `generateCode`
share, and when that is the request the code was written for. What a sender adds of its own, a user
agent or a type for a body that names none, is not part of it.
-/

set_option autoImplicit false

namespace Wayfarer

open Library

namespace Codegen

/-- What a part of a form is made of: a text, or a file that is read and the
name it is sent under. -/
inductive MadeValue where
  | text (value : Text)
  | file (path shown : Text)
  deriving DecidableEq

structure MadePart where
  name : Text
  value : MadeValue
  deriving DecidableEq

/-- The body of a request that is made. -/
inductive MadeBody where
  | none
  /-- A text, in UTF-8. -/
  | text (t : Text)
  /-- The fields of a form, which the sender encodes. -/
  | fields (rows : List (Text × Text))
  | parts (parts : List MadePart)
  | file (path : Text)
  deriving DecidableEq

/-- A request that is made. -/
structure Made where
  method : Text
  url : Text
  headers : List (Text × Text)
  body : MadeBody

/-- The bytes of a body that is a text. -/
def MadeBody.bytes? : MadeBody → Option (List Nat)
  | .none => some []
  | .text t => some (utf8Bytes t)
  | _ => Option.none

/-- The fields that a receiver reads from a body that is a form. -/
def MadeBody.fields? : MadeBody → Option (List (Text × Text))
  | .none => some []
  | .text t => some (formParse t)
  | .fields rows => some (rows.map scrubPair)
  | _ => Option.none

/-- A part as it is to be made: a file is read by the name it was picked under. -/
def partMade (part : ExportPart) : MadePart where
  name := part.name
  value := match part.value with
    | .text value => .text value
    | .file fileName => .file fileName fileName

/-- A body that is made says what a body of a request says. -/
def BodyMade : ExportBody → MadeBody → Prop
  | .none, made => made.bytes? = some []
  | .raw text, made => made.bytes? = some (utf8Bytes text)
  | .urlencoded fields, made => made.fields? = some (fields.map scrubPair)
  | .multipart parts, made => made = .parts (parts.map partMade)
  | .binary [], made => made.bytes? = some []
  | .binary fileName, made => made = .file fileName

/-- A request that is made is the request it was written for: its method, its address, every header
that has a name, and its body. -/
structure Made.Says (made : Made) (request : ExportRequest) : Prop where
  method : made.method = request.method
  url : made.url = request.url
  headers : made.headers = sentHeaders request
  body : BodyMade request.body made.body

/-- The body as the code hands it over. -/
def bodyWritten : ExportBody → MadeBody
  | .raw text => if text ≠ [] then .text text else .none
  | .urlencoded fields => .fields fields
  | .multipart parts => .parts (parts.map partMade)
  | .binary fileName => if fileName ≠ [] then .file fileName else .none
  | .none => .none

/-- The body that the code hands over is the request's. -/
theorem bodyMade_written (body : ExportBody) : BodyMade body (bodyWritten body) := by
  cases body with
  | none => rfl
  | raw text =>
      by_cases htext : text = []
      · subst htext
        rfl
      · rw [bodyWritten, if_pos htext]
        rfl
  | urlencoded fields => rfl
  | multipart parts => rfl
  | binary fileName => cases fileName <;> rfl

/-- Lines that end, and a last one that does not. -/
theorem joinWith_lines (sep : Text) (lines : List Text) (last : Text) :
    joinWith sep (lines ++ [last]) = lines.flatMap (fun line => line ++ sep) ++ last := by
  induction lines with
  | nil => simp [joinWith]
  | cons line lines ih =>
      obtain ⟨next, rest, hnext⟩ := List.exists_cons_of_ne_nil (l := lines ++ [last]) (by simp)
      rw [joinWith] at ih
      rw [joinWith, List.cons_append, hnext, List.intercalate_cons_cons, ← hnext, ih,
        List.flatMap_cons, List.append_assoc, List.append_assoc, List.append_assoc]

end Codegen

end Wayfarer
