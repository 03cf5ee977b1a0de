import EchoEngine.Text.Blank
import EchoEngine.Error
import EchoEngine.Json.Printer

/-!
# Identifiers

Agents have ids and specializations. A fresh id is a word for what it names and a random version 4
UUID.
-/

namespace EchoEngine

/-- `count` hexadecimal digits of `n`, the lowest digits of it. -/
def hexDigits (count n : Nat) : List Char :=
  (List.range count).reverse.map fun i => Json.hexDigit (n / Nat.pow 16 i % 16)

/-- The text of the version 4 UUID with the random bits of `n`: groups of 8, 4, 4, 4 and 12 digits. -/
def uuidText (n : Nat) : String :=
  let digits := hexDigits 32 n
  let variant := Json.hexDigit (8 + n / Nat.pow 16 15 % 4)
  String.ofList (digits.take 8 ++ '-' :: (digits.drop 8).take 4 ++ '-' :: '4' :: (digits.drop 13).take 3
    ++ '-' :: variant :: (digits.drop 17).take 3 ++ '-' :: digits.drop 20)

structure AgentId where
  text : String
deriving DecidableEq, Repr, Inhabited

namespace AgentId

/-- A fresh id made of random bits. -/
def fresh (random : Nat) : AgentId :=
  ⟨"agent-" ++ uuidText random⟩

instance : Ord AgentId where
  compare a b := compare a.text b.text

def toJson (id : AgentId) : Json :=
  .str id.text

def ofJson? : Json.Reader AgentId := fun v =>
  (Json.Reader.string v).map AgentId.mk

end AgentId

/-- What an agent is for. -/
inductive AgentType where
  | general
  | reflective
  | orchestrator
  | specialist
deriving DecidableEq, Repr, Inhabited

namespace AgentType

def all : List AgentType :=
  [general, reflective, orchestrator, specialist]

def name : AgentType → String
  | general => "general"
  | reflective => "reflective"
  | orchestrator => "orchestrator"
  | specialist => "specialist"

/-- White space around a name and the case of its ASCII letters do not matter. -/
def ofName (s : String) : Except Error AgentType :=
  let folded := String.ofList ((Text.trimChars s.toList).map Char.toLower)
  match all.find? fun t => t.name = folded with
  | some t => .ok t
  | none => .error (.unsupportedAgentType s)

def toJson (t : AgentType) : Json :=
  .str t.name

def ofJson? : Json.Reader AgentType :=
  Json.Reader.oneOf all name

end AgentType

end EchoEngine
