import MarTech.Database.Models

namespace MarTech

structure StreamEntry where
  id         : MessageId
  customerId : Json
  payload    : Json.Object

-- The Redis stream. Entry ids are drawn in increasing order and never reused.
structure Stream where
  entries : List StreamEntry
  nextId  : MessageId

namespace Stream

def enqueue (stream : Stream) (customerId : Json) (payload : Json.Object) : Stream × MessageId :=
  ({ entries := stream.entries ++ [⟨stream.nextId, customerId, payload⟩]
     nextId  := stream.nextId + 1 }, stream.nextId)

def contains (stream : Stream) (messageId : MessageId) : Bool :=
  stream.entries.any (·.id = messageId)

-- The `XDEL` of `ack`.
def ack (stream : Stream) (messageId : MessageId) : Stream :=
  { stream with entries := stream.entries.filter (·.id ≠ messageId) }

end Stream
end MarTech
