import EchoEngine.Capability.ReadFile
import EchoEngine.Text.Sentences

/-!
# Text processing

The plugin `text_processing` ranks the keywords of a text or cuts it into sentences.
-/

namespace EchoEngine.TextProcessing

def defaultKeywords : Nat := 5

def operations : List String := ["keywords", "sentences"]

def reply (q : Request) (p : Parameters) : Except Error Reply := do
  let operation ← Handler.operation "text_processing" operations p
  let s ← q.text p
  if operation = "sentences" then
    let sentences := Text.sentences s
    return .json (.obj [("count", .int sentences.length), ("operation", .str operation),
      ("sentences", .ofStrings sentences)])
  else
    let limit := ((← p.optInt "limit").map (ReadFile.atLeast 1)).getD defaultKeywords
    let keywords := (Text.keywords s limit).map fun (term, n) =>
      Json.obj [("count", .int n), ("term", .str term)]
    return .json (.obj [("keywords", .arr keywords), ("operation", .str operation)])

def plugin : Handler where
  name := "text_processing"
  description := "Extract ranked keywords or split a text into sentences."
  operations := operations
  schema := none
  readOnly := false
  enabled := true
  run q p := some (.ofExcept id (reply q p))

end EchoEngine.TextProcessing
