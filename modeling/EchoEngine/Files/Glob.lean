import EchoEngine.Files.Path

/-!
# Glob patterns

A pattern is read character by character into tokens and matched against the bytes of a path. `*` and
`?` match slashes too; `?` and a class match one byte, so neither matches half of a character written
in several bytes together with the other half. `**` beside slashes matches whole components.

Matching keeps the set of remainders of the path that are left after each token; a pattern matches if
the empty remainder is one of them.
-/

namespace EchoEngine.Files

/-- Why a text is no pattern. -/
inductive GlobError where
  | unclosedClass
  | invalidRange (first last : Char)
  | unopenedGroup
  | unclosedGroup
  | danglingEscape
deriving DecidableEq, Repr

namespace GlobError

def reason : GlobError → String
  | unclosedClass => "unclosed character class; missing ']'"
  | invalidRange first last =>
    "invalid range; '" ++ first.toString ++ "' > '" ++ last.toString ++ "'"
  | unopenedGroup =>
    "unopened alternate group; missing '\x7b' (maybe escape '\x7d' with '[\x7d]'?)"
  | unclosedGroup =>
    "unclosed alternate group; missing '\x7d' (maybe escape '\x7b' with '[\x7b]'?)"
  | danglingEscape => "dangling '\\'"

def message (e : GlobError) (pattern : String) : String :=
  "error parsing glob '" ++ pattern ++ "': " ++ e.reason

end GlobError

namespace Glob

inductive Token where
  | literal (c : Char)
  | any
  | star
  /-- `**` in front: nothing, a slash, or components up to a slash. -/
  | deepStart
  /-- `/**` at the end: a slash and anything. -/
  | deepEnd
  /-- `/**/` within: a slash, or components between two slashes. -/
  | deepMiddle
  | oneOf (negated : Bool) (ranges : List (Char × Char))
  | group (branches : List (List Token))
deriving Inhabited

namespace Token

def isLiteral : Token → Bool
  | literal _ => true
  | _ => false

end Token

/-! ### Reading a pattern -/

/-- A group that is being read: branches finished, and tokens of the current one, last first. -/
structure Frame where
  done : List (List Token)
  current : List Token

namespace Frame

def push (f : Frame) (t : Token) : Frame :=
  { f with current := t :: f.current }

/-- All branches in order. -/
def branches (f : Frame) : List (List Token) :=
  (f.current.reverse :: f.done).reverse

end Frame

/-- What has been read: the innermost frame, the frames around it, and the character before. -/
structure Reading where
  frame : Frame
  outer : List Frame
  before : Option Char

namespace Reading

def push (r : Reading) (t : Token) : Reading :=
  { r with frame := r.frame.push t }

def inGroup (r : Reading) : Bool :=
  !r.outer.isEmpty

/-- Puts a deep token in place of the separator before it, unless that is a deep token already. -/
def replaceLast (r : Reading) (t : Token) : Reading :=
  match r.frame.current with
  | .deepStart :: _ | .deepEnd :: _ => r
  | _ :: rest => { r with frame := { r.frame with current := t :: rest } }
  | [] => r.push t

end Reading

/-- Sets the end of the last range. -/
def closeRange (ranges : List (Char × Char)) (last : Char) :
    Except GlobError (List (Char × Char)) :=
  match ranges with
  | [] => .ok [(last, last)]
  | (first, _) :: rest =>
    if last < first then .error (.invalidRange first last) else .ok ((first, last) :: rest)

/-- The ranges of a class up to its closing bracket, last first. `initial` says that nothing has been
read, when a bracket or a dash stands for itself; `open?` that a dash waits for its end. -/
def classRanges (initial open? : Bool) (ranges : List (Char × Char)) :
    List Char → Except GlobError (List (Char × Char) × List Char)
  | [] => .error .unclosedClass
  | c :: cs =>
    if c = ']' ∧ !initial then
      .ok (if open? then ('-', '-') :: ranges else ranges, cs)
    else if c = '-' ∧ !initial ∧ !open? then classRanges false true ranges cs
    else if open? ∧ c ≠ ']' then
      match closeRange ranges c with
      | .ok ranges => classRanges false false ranges cs
      | .error e => .error e
    else classRanges false false ((c, c) :: ranges) cs

/-- A class after its opening bracket. -/
def classToken (cs : List Char) : Except GlobError (Token × List Char) := do
  let (negated, cs) : Bool × List Char := match cs with
    | '!' :: rest => (true, rest)
    | '^' :: rest => (true, rest)
    | _ => (false, cs)
  let (ranges, rest) ← classRanges true false [] cs
  return (.oneOf negated ranges.reverse, rest)

def isSlash (c : Option Char) : Bool :=
  c = some '/'

/-- A star, or two: what they mean depends on what is before and after them. -/
def readStar (r : Reading) (cs : List Char) : Reading × List Char :=
  match cs with
  | '*' :: rest =>
    let twoStars := ({ (r.push .star).push .star with before := some '*' }, rest)
    if r.frame.current.isEmpty then
      match rest with
      | [] => ({ r.push .deepStart with before := some '*' }, [])
      | '/' :: rest => ({ r.push .deepStart with before := some '/' }, rest)
      | _ => twoStars
    else if !isSlash r.before ∧ (!r.inGroup ∨ (r.before ≠ some ',' ∧ r.before ≠ some '{')) then
      twoStars
    else match rest with
      | [] => ({ r.replaceLast .deepEnd with before := some '*' }, [])
      | '/' :: rest => ({ r.replaceLast .deepMiddle with before := some '/' }, rest)
      | c :: _ =>
        if r.inGroup ∧ (c = ',' ∨ c = '}') then
          ({ r.replaceLast .deepEnd with before := some '*' }, rest)
        else twoStars
  | _ => ({ r.push .star with before := some '*' }, cs)

/-- Reads one construct after its first character `c`. -/
def readNext (r : Reading) (c : Char) (cs : List Char) : Except GlobError (Reading × List Char) :=
  match c with
  | '?' => .ok ({ r.push .any with before := some c }, cs)
  | '*' => .ok (readStar r cs)
  | '[' => (classToken cs).map fun (t, rest) => ({ r.push t with before := some ']' }, rest)
  | '{' => .ok (⟨⟨[], []⟩, r.frame :: r.outer, some c⟩, cs)
  | '}' =>
    match r.outer with
    | [] => .error .unopenedGroup
    | f :: outer => .ok (⟨f.push (.group r.frame.branches), outer, some c⟩, cs)
  | ',' =>
    if r.inGroup then
      .ok ({ r with frame := ⟨r.frame.current.reverse :: r.frame.done, []⟩, before := some c }, cs)
    else .ok ({ r.push (.literal ',') with before := some c }, cs)
  | '\\' =>
    match cs with
    | [] => .error .danglingEscape
    | e :: rest => .ok ({ r.push (.literal e) with before := some e }, rest)
  | _ => .ok ({ r.push (.literal c) with before := some c }, cs)

/-- Reads on to the end; each construct takes at least one character, and the fuel counts them. -/
def readAll : Nat → Reading → List Char → Except GlobError (List Token)
  | _, r, [] => if r.inGroup then .error .unclosedGroup else .ok r.frame.current.reverse
  | 0, _, _ => .error .unclosedGroup
  | fuel + 1, r, c :: cs =>
    match readNext r c cs with
    | .ok (r, rest) => readAll fuel r rest
    | .error e => .error e

def parse (pattern : String) : Except GlobError (List Token) :=
  let cs := pattern.toList
  readAll cs.length ⟨⟨[], []⟩, [], none⟩ cs

/-! ### Matching -/

def charBytes (c : Char) : List UInt8 :=
  c.toString.toUTF8.toList

/-- The bytes of a class: a range of characters written in several bytes takes the bytes before the
last of its first character, the bytes after the first of its last, and the range between the two. -/
def rangeHolds (r : Char × Char) (b : UInt8) : Bool :=
  let first := charBytes r.1
  let last := charBytes r.2
  if r.1 = r.2 then first.contains b
  else first.dropLast.contains b || last.tail.contains b
    || (decide (first.getLast?.getD 0 ≤ b) && decide (b ≤ last.head?.getD 0))

/-- All remainders of a list, longest first. -/
def remainders : List UInt8 → List (List UInt8)
  | [] => [[]]
  | b :: bs => (b :: bs) :: remainders bs

/-- The remainders right after a slash. -/
def afterSlashes : List UInt8 → List (List UInt8)
  | [] => []
  | b :: bs => if b = 47 then bs :: afterSlashes bs else afterSlashes bs

/-- Drops repeats among remainders of one list, which are equal if they are of one length. -/
def distinct (rests : List (List UInt8)) : List (List UInt8) :=
  rests.foldl (fun kept r => if kept.any (·.length = r.length) then kept else r :: kept) []

def stripBytes : List UInt8 → List UInt8 → Option (List UInt8)
  | [], rest => some rest
  | b :: bs, c :: cs => if b = c then stripBytes bs cs else none
  | _ :: _, [] => none

/-- The longest of some remainders. -/
def longest? (rests : List (List UInt8)) : Option (List UInt8) :=
  rests.foldl (fun best r => match best with
    | none => some r
    | some b => if b.length < r.length then some r else some b) none

mutual

/-- A token that constrains nothing: a group whose branches are all silent. -/
def isSilent (t : Token) : Bool :=
  match t with
  | .group branches => allSilent branches
  | _ => false
termination_by structural t

def areSilent (ts : List Token) : Bool :=
  match ts with
  | [] => true
  | t :: ts => isSilent t && areSilent ts
termination_by structural ts

def allSilent (branches : List (List Token)) : Bool :=
  match branches with
  | [] => true
  | b :: bs => areSilent b && allSilent bs
termination_by structural branches

end

mutual

/-- The remainders after one token, from a set of remainders. -/
def advance (t : Token) (rests : List (List UInt8)) : List (List UInt8) :=
  match t with
  | .literal c => rests.filterMap (stripBytes (charBytes c))
  | .any => rests.filterMap List.tail?
  | .star => match longest? rests with
    | none => []
    | some r => remainders r
  | .deepStart => distinct (rests.flatMap fun r => r :: afterSlashes r)
  | .deepEnd => distinct (rests.flatMap fun
    | 47 :: r => remainders r
    | _ => [])
  | .deepMiddle => distinct (rests.flatMap fun
    | 47 :: r => r :: afterSlashes r
    | _ => [])
  | .oneOf negated ranges => rests.filterMap fun
    | b :: r => if (ranges.any fun x => rangeHolds x b) ≠ negated then some r else none
    | [] => none
  | .group branches =>
    if allSilent branches then rests else distinct (advanceBranches branches rests)
termination_by structural t

/-- The remainders after tokens in turn. -/
def advanceAll (ts : List Token) (rests : List (List UInt8)) : List (List UInt8) :=
  match ts with
  | [] => rests
  | t :: ts => advanceAll ts (advance t rests)
termination_by structural ts

/-- The remainders after any branch of a group; a silent branch is no branch. -/
def advanceBranches (branches : List (List Token)) (rests : List (List UInt8)) :
    List (List UInt8) :=
  match branches with
  | [] => []
  | b :: bs => (if areSilent b then [] else advanceAll b rests) ++ advanceBranches bs rests
termination_by structural branches

end

/-- `**` alone, which every path matches. -/
def isEverything : List Token → Bool
  | [.deepStart] => true
  | _ => false

/-- Whether a path matches a pattern. -/
def accepts (ts : List Token) (path : String) : Bool :=
  isEverything ts || (advanceAll ts [path.toUTF8.toList]).any List.isEmpty

/-- Whether one of the patterns matches a path. -/
def anyAccepts (patterns : List (List Token)) (path : String) : Bool :=
  patterns.any (accepts · path)

end Glob

end EchoEngine.Files
