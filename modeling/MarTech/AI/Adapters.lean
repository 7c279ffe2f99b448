import MarTech.AI.Fallback
import MarTech.Pipeline.Decode

namespace MarTech

-- Python's `float` on what `json.loads` returns, as far as the result is a number. Nothing is assumed
-- about it.
class FloatOf (R : Type) where
  float : Json → Option R

structure LLMSettings where
  llmProvider      : String
  openrouterApiKey : String
  groqApiKey       : String
  geminiApiKey     : String

inductive LLMProvider
  | openrouter (apiKey : String)
  | groq (apiKey : String)
  | gemini (apiKey : String)
  | ollama
  | langchain (apiKey : String)
deriving DecidableEq

-- `str.strip`
def stripped [Unicode] (s : String) : String :=
  .ofList <| strip s.toList

-- The first of the keys that there is, where an empty one is none.
def firstKey (keys : List String) : Option String :=
  keys.find? (!·.isEmpty)

def buildProvider [Unicode] [Runtime] (settings : LLMSettings) (name : Option String)
    (apiKey : Option String := none) : Option LLMProvider :=
  let name := lower <| stripped <| name.getD ""
  let apiKey := apiKey.getD ""
  if name = "openrouter" then
    (firstKey [apiKey, settings.openrouterApiKey]).map .openrouter
  else if name = "groq" then
    (firstKey [apiKey, settings.groqApiKey]).map .groq
  else if name = "gemini" then
    (firstKey [apiKey, settings.geminiApiKey]).map .gemini
  else if name = "ollama" then
    some .ollama
  else if name = "langchain" then
    (firstKey [apiKey, settings.openrouterApiKey, settings.groqApiKey]).map .langchain
  else
    none

-- A field that is declared as `list[str]`.
def Json.strings? : Json → Option (List String)
  | .array items => items.mapM Json.str?
  | _            => none

-- The text of a model as the response that it states. What is no such response raises.
def parseAiResponse {R : Type} [Field R] [LinearOrder R] [Decoding] [FloatOf R] (content : String) :
    Option (AIResponse R) := do
  let parsed ←
    match Decoding.loads content with
    | .value parsed => parsed.object?
    | _             => none
  let confidence ← (parsed.get "confidence").elim (some 0.5) FloatOf.float
  let facts ← ((parsed.get "facts").getD (.array [])).strings?
  let recommendations ← ((parsed.get "recommendations").getD (.array [])).strings?
  if h : 0 ≤ confidence ∧ confidence ≤ 1 then
    return { facts, recommendations, confidence, source := "llm", confidence_bound := h }
  else
    none

end MarTech
