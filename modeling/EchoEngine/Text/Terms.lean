import Std.Data.ExtTreeMap
import Std.Data.ExtTreeSet

/-!
# Terms

A word is a run of ASCII letters and digits that starts with a letter; a term is a word in small
letters, of three characters or more, that is no stopword. Everything that compares texts (topics of
files, keywords of memories, reports) compares their terms.
-/

namespace EchoEngine.Text

open Std (ExtTreeMap ExtTreeSet)

def stopwords : List String := [
  "about", "after", "also", "and", "are", "been", "but", "can", "for", "from", "had", "has",
  "have", "into", "its", "not", "our", "than", "that", "the", "their", "them", "then", "there",
  "these", "they", "this", "those", "using", "was", "were", "what", "when", "which", "while",
  "with", "would", "you", "your"]

/-- A finished run, kept with its last element first, if there is one. -/
def finished (run : List Char) : List (List Char) :=
  if run.isEmpty then [] else [run.reverse]

/-- The words of a text, where `word` is the word being read, last character first. -/
def wordsFrom (word : List Char) : List Char → List (List Char)
  | [] => finished word
  | c :: cs =>
    if c.isAlpha || (c.isDigit && !word.isEmpty) then wordsFrom (c :: word) cs
    else finished word ++ wordsFrom [] cs

/-- The word in small letters, if it is a term. -/
def termOfWord (word : List Char) : Option String :=
  let term := String.ofList (word.map Char.toLower)
  if 3 ≤ word.length ∧ term ∉ stopwords then some term else none

/-- The terms of a text in order, repeats included. -/
def terms (s : String) : List String :=
  (wordsFrom [] s.toList).filterMap termOfWord

/-- The distinct terms of a text. -/
def termSet (s : String) : ExtTreeSet String :=
  ExtTreeSet.ofList (terms s)

/-- A space in front of every capital that follows a small letter or a digit; `low` says that the
character before was one. -/
def spaceHumps (low : Bool) : List Char → List Char
  | [] => []
  | c :: cs =>
    let rest := c :: spaceHumps (c.isLower || c.isDigit) cs
    if c.isUpper && low then ' ' :: rest else rest

/-- The topics of an identifier: its terms, with every hump of a compound word apart. -/
def identifierTopics (name : String) : ExtTreeSet String :=
  termSet (String.ofList (spaceHumps false name.toList))

/-- How often each term occurs. -/
def tally (terms : List String) : ExtTreeMap String Nat :=
  terms.foldl (fun counts t => counts.alter t fun n => some (n.getD 0 + 1)) ∅

/-- Rank of counted terms: higher counts first, equal counts in ascending order of the term. -/
def ranksBefore (a b : String × Nat) : Bool :=
  b.2 < a.2 || (a.2 == b.2 && a.1 ≤ b.1)

/-- The `limit` best ranked terms of a text with their counts. -/
def keywords (s : String) (limit : Nat) : List (String × Nat) :=
  ((tally (terms s)).toList.mergeSort ranksBefore).take limit

end EchoEngine.Text
