import EchoEngine.Text.Blank
import EchoEngine.Text.Terms

/-!
# Sentences

A sentence runs up to a newline or through the marks `.`, `!`, `?` that close it; marks and newlines
before it are skipped. It is trimmed, and one that holds nothing but white space is dropped.
-/

namespace EchoEngine.Text

/-- The marks that close a sentence. -/
def isClosingMark (c : Char) : Bool :=
  c = '.' || c = '!' || c = '?'

/-- The sentences of a text, untrimmed: `run` is the sentence being read, last character first, and
`closed` says that its closing marks have begun. -/
def sentencesFrom (run : List Char) (closed : Bool) : List Char → List (List Char)
  | [] => finished run
  | c :: cs =>
    if isClosingMark c then
      if run.isEmpty then sentencesFrom [] false cs else sentencesFrom (c :: run) true cs
    else if c = '\n' then finished run ++ sentencesFrom [] false cs
    else if closed then finished run ++ sentencesFrom [c] false cs
    else sentencesFrom (c :: run) false cs

def sentences (s : String) : List String :=
  (((sentencesFrom [] false s.toList).map trimChars).filter fun t => !t.isEmpty).map String.ofList

end EchoEngine.Text
