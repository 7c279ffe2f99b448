import MarTech.Database.Models

namespace MarTech

-- A string as the Redis client delivers it.
inductive Raw
  | str (s : String)
  | bytes (b : List UInt8)
deriving DecidableEq

-- What `json.loads` does with a text. A text that is nested too deeply raises no `ValueError`.
inductive Loaded
  | value (j : Json)
  | valueError
  | recursionError

-- The functions of Python that decoding relies on. Nothing is assumed about them.
class Decoding where
  loads : String → Loaded
  -- `bytes.decode(errors="replace")`
  decodeReplace : List UInt8 → String

-- An entry of the stream, with its id and its fields.
structure Entry where
  id     : String
  fields : List (Raw × Raw)

def Raw.truthy : Raw → Bool
  | str s   => !s.isEmpty
  | bytes b => !b.isEmpty

-- `fields.get("payload") or fields.get(b"payload")`
def Entry.raw (entry : Entry) : Option Raw :=
  entry.fields.lookup (.str "payload") |>.filter Raw.truthy
    |>.or <| entry.fields.lookup <| .bytes [112, 97, 121, 108, 111, 97, 100]

def malformedId (messageId : String) : String :=
  "malformed:" ++ messageId

variable [Decoding]

open Decoding

def Raw.text : Raw → String
  | str s   => s
  | bytes b => decodeReplace b

-- The text of the payload, if there is any.
def Entry.text (entry : Entry) : Option String :=
  entry.raw.map Raw.text |>.filter (!·.isEmpty)

def decodeEntry (entry : Entry) : Except Error Json.Object :=
  match entry.text with
  | none      => .ok []
  | some text =>
    match loads text with
    | .value (.object payload) => .ok payload
    | .recursionError          => .error ⟨"RecursionError", "maximum recursion depth exceeded"⟩
    | _ => .ok [("event_id", .str (malformedId entry.id)), ("raw", .str text)]

def decode : List Entry → Except Error (List (String × Json.Object))
  | []               => .ok []
  | entry :: entries => do
    let payload ← decodeEntry entry
    let messages ← decode entries
    return (entry.id, payload) :: messages

end MarTech
