import HatCircle.Error
import HatCircle.Json.Variant

/-!
# Documents of reports

A report is a nested document: its family by name, and its content as an object.
A missing hint is left out.
-/

namespace HatCircle

def Context.toJson (context : Context) : Json :=
  .obj (context.entries.map fun entry => (entry.1, .str entry.2))

/-- The context of a document: an object whose fields are texts. -/
def Context.ofJson? : Json → Option Context
  | .obj fields => do
    let entries ← fields.mapM fun field => do return (field.1, ← field.2.str?)
    return .ofList entries
  | _ => none

def ErrorInfo.toJson (info : ErrorInfo) : Json :=
  .obj <| [("code", .str info.code), ("message", .str info.message),
    ("context", info.context.toJson)] ++
    match info.hint with
    | none => []
    | some hint => [("hint", .str hint)]

def hintOfJson? : Json → Option (Option String)
  | .null => some none
  | .str hint => some (some hint)
  | _ => none

/-- The content of a report. In an object the context and the hint may be missing;
a list holds all four parts. -/
def ErrorInfo.ofJson? : Json → Option ErrorInfo
  | .arr [code, message, context, hint] => do
    return ⟨← code.str?, ← message.str?, ← Context.ofJson? context, ← hintOfJson? hint⟩
  | .obj fields => do
    let document := Json.obj fields
    let code ← (← document.field? "code").str?
    let message ← (← document.field? "message").str?
    let context ← Context.ofJson? ((document.field? "context").getD (.obj []))
    let hint ← hintOfJson? ((document.field? "hint").getD .null)
    return ⟨code, message, context, hint⟩
  | _ => none

def Error.toJson (error : Error) : Json :=
  .obj [("family", .str error.family.tag), ("detail", error.info.toJson)]

def Error.ofJson? (document : Json) : Option Error := do
  let (tag, content) ← document.tagged? "family" "detail"
  return ⟨← Family.ofTag? tag, ← ErrorInfo.ofJson? content⟩

end HatCircle
