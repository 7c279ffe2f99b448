import MarTech.Database.Models

namespace MarTech

variable {R : Type}

def enqueueOutbox (db : Db R) (eventId : String) (payload : Json.Object) (id : Nat)
    (now : Timestamp) : Db R :=
  { db with eventOutbox := db.eventOutbox.insert {
      id          := id
      eventId     := eventId
      payload     := payload
      createdAt   := now
      publishedAt := none
      messageId   := none } }

-- The join with `events` and the status condition of `claim_unpublished`.
def isPending (db : Db R) (eventId : String) : Bool :=
  (db.events.get eventId).any (·.status = .pending)

def publicationDue (row : EventOutbox) (now : Timestamp) : Bool :=
  row.publishedAt.all (· < now - 2 * Timestamp.minute)

-- The condition under which `claim_unpublished` selects a row.
def claimable (db : Db R) (now : Timestamp) (row : EventOutbox) : Bool :=
  isPending db row.eventId && publicationDue row now

-- `locked` are the rows that `SKIP LOCKED` passes over.
def claimUnpublished (db : Db R) (limit : Nat) (now : Timestamp)
    (locked : Nat → Bool := fun _ => false) : List EventOutbox :=
  (db.eventOutbox.rows.filter fun row => claimable db now row && !locked row.id)
    |>.mergeSort (fun r₁ r₂ => r₁.id ≤ r₂.id)
    |>.take limit

def markPublished (db : Db R) (outboxId : Nat) (messageId : MessageId) (now : Timestamp) : Db R :=
  { db with eventOutbox := db.eventOutbox.update outboxId fun row =>
      { row with publishedAt := some now, messageId := some messageId } }

-- The subquery of `cleanup_outbox`.
def isTerminal (db : Db R) (eventId : String) : Bool :=
  (db.events.get eventId).any fun evt => evt.status = .processed || evt.status = .failed

def expired (settings : Settings R) (db : Db R) (now : Timestamp) (row : EventOutbox) : Bool :=
  row.createdAt < now - settings.outboxRetentionDays * Timestamp.day && isTerminal db row.eventId

def cleanupOutbox (settings : Settings R) (db : Db R) (now : Timestamp) : Db R :=
  { db with eventOutbox := db.eventOutbox.delete (expired settings db now) }

theorem claimUnpublished_subset {db : Db R} {limit : Nat} {now : Timestamp} {locked : Nat → Bool}
    {row : EventOutbox} (h : row ∈ claimUnpublished db limit now locked) :
    row ∈ db.eventOutbox ∧ claimable db now row ∧ ¬locked row.id := by
  have := List.mem_mergeSort.mp <| List.mem_of_mem_take h
  simpa using this

theorem claimUnpublished_nodup (db : Db R) (limit : Nat) (now : Timestamp) (locked : Nat → Bool) :
    ((claimUnpublished db limit now locked).map (·.id)).Nodup := by
  refine (List.take_sublist ..).map _ |>.nodup ?_
  refine (List.mergeSort_perm ..).map _ |>.nodup_iff.mpr ?_
  exact List.filter_sublist.map _ |>.nodup db.eventOutbox.unique

-- A pending event's row can be claimed whenever it was never published or its publication is more
-- than two minutes old.
theorem claimable_of_pending {db : Db R} {row : EventOutbox} {evt : Event} {now : Timestamp}
    (he : db.events.get row.eventId = some evt) (hs : evt.status = .pending)
    (hp : ∀ t, row.publishedAt = some t → t < now - 2 * Timestamp.minute) :
    claimable db now row := by
  simpa [claimable, isPending, publicationDue, he, hs, Option.all_eq_true] using hp

section Frame

variable (db : Db R)

theorem markPublished_get (outboxId : Nat) (messageId now) (id : Nat) :
    (markPublished db outboxId messageId now).eventOutbox.get id =
      if outboxId = id then
        (db.eventOutbox.get id).map
          fun row => { row with publishedAt := some now, messageId := some messageId }
      else
        db.eventOutbox.get id := by
  simp only [markPublished]
  exact db.eventOutbox.get_update outboxId (by intro; rfl) id

end Frame
end MarTech
