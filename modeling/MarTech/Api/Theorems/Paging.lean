import MarTech.Api.Listing

namespace MarTech

section Paging

variable {R κ : Type} [LinearOrder κ]

-- Whatever orders the database chooses, paging through each of the four lists shows every matching
-- row once, and in its place.
structure PagingExact (db : Db R) (campaigns : Table CampaignRow) (collation : String ↪ κ)
    (customerId search : String) (events listed letters : Limit 200) (customers : Limit 100) :
    Prop where
  timeline  : ∀ e, VisitsOnce Event.latestFirst
    (fun n offset => EventRepo.timeline e n db customerId events.limit offset) events.limit
    (db.events.rows.filter (·.customerId = customerId))
  campaigns : ∀ e, VisitsOnce CampaignRow.latestFirst
    (fun n offset => CampaignRepo.list e n campaigns listed.limit offset) listed.limit campaigns.rows
  dlq       : ∀ e, VisitsOnce DLQEvent.latestFirst
    (fun n offset => DLQRepo.list e n db letters.limit offset) letters.limit db.dlqEvents.rows
  customers : ∀ e, VisitsOnce (fun summary : CustomerSummary => collation summary.id)
    (fun n offset => listCustomers collation e n db search customers.limit offset) customers.limit
    ((db.customers.rows.filter (searchWhere search)).map .of)

-- The unique ids leave no choice to the database.
theorem listCustomers_visitsOnce (db : Db R) (collation : String ↪ κ)
    (e : Evaluation fun c : Customer => collation c.id) (search : String) (customers : Limit 100) :
    VisitsOnce (fun summary : CustomerSummary => collation summary.id)
      (fun n offset => listCustomers collation e n db search customers.limit offset) customers.limit
      ((db.customers.rows.filter (searchWhere search)).map .of) := by
  have hnodup : (db.customers.rows.filter (searchWhere search)).Nodup :=
    db.customers.nodup_rows.filter _
  have hkeys : ((db.customers.rows.filter (searchWhere search)).map fun c => collation c.id).Nodup := by
    rw [← Function.comp_def, ← List.map_map]
    exact (List.filter_sublist.map _ |>.nodup db.customers.unique).map collation.injective
  have hfit := TiesFit.of_nodup hkeys customers.limit
  exact .map (fun _ => rfl) <| Evaluation.visitsOnce_iff hnodup customers.bounds.left |>.mpr hfit e

-- The other lists are sorted by an instant alone. They are read in full precisely if rows with the
-- same instant never fall on two pages.
theorem paging_exact_iff (db : Db R) (campaigns : Table CampaignRow) (collation : String ↪ κ)
    (customerId search : String) (events listed letters : Limit 200) (customers : Limit 100) :
    PagingExact db campaigns collation customerId search events listed letters customers ↔
      TiesFit Event.latestFirst events.limit (db.events.rows.filter (·.customerId = customerId)) ∧
      TiesFit CampaignRow.latestFirst listed.limit campaigns.rows ∧
      TiesFit DLQEvent.latestFirst letters.limit db.dlqEvents.rows := by
  have hevents := @Evaluation.visitsOnce_iff _ _ _ Event.latestFirst _ _
    (db.events.nodup_rows.filter (·.customerId = customerId)) events.bounds.left
  have hlisted := @Evaluation.visitsOnce_iff _ _ _ CampaignRow.latestFirst _ _ campaigns.nodup_rows
    listed.bounds.left
  have hletters := @Evaluation.visitsOnce_iff _ _ _ DLQEvent.latestFirst _ _ db.dlqEvents.nodup_rows
    letters.bounds.left
  constructor
  case mp  => exact fun h => ⟨hevents.mp h.timeline, hlisted.mp h.campaigns, hletters.mp h.dlq⟩
  case mpr =>
    intro h
    exact {
      timeline  := hevents.mpr h.left
      campaigns := hlisted.mpr h.right.left
      dlq       := hletters.mpr h.right.right
      customers := fun e => listCustomers_visitsOnce db collation e search customers }

end Paging

section Example

def sentAtZero (eventId : String) : Event where
  eventId     := eventId
  customerId  := "c1"
  channel     := "email"
  eventType   := "send"
  timestamp   := 0
  metadata    := []
  processedAt := none
  status      := .pending

-- Two messages of one instant.
def twoSends : Db ℝ where
  customers        := ⟨[.new "c1" 0], by decide⟩
  events           := ⟨[sentAtZero "e1", sentAtZero "e2"], by decide⟩
  engagementScores := ∅
  dlqEvents        := ∅
  eventOutbox      := ∅

-- A database that keeps ties in the order of the table in every other evaluation, and else reverses
-- them.
def alternating {α κ : Type} [LinearOrder κ] (key : α → κ) : Evaluation key where
  order n rows := (if n % 2 = 0 then rows else rows.reverse).insertionSort (key · ≤ key ·)
  perm n rows := by
    refine (List.perm_insertionSort ..).trans ?_
    split
    case isTrue  => rfl
    case isFalse => exact rows.reverse_perm
  sorted n rows := by
    have : IsTrans α (key · ≤ key ·) := ⟨fun _ _ _ => le_trans⟩
    have : Std.Total (α := α) (key · ≤ key ·) := ⟨fun _ _ => le_total ..⟩
    exact List.pairwise_insertionSort ..

-- With one row a page the first message is shown twice, and the second one never.
theorem paging_not_exact :
    ¬∀ (db : Db ℝ) (campaigns : Table CampaignRow) (collation : String ↪ String)
      (customerId search : String) (events listed letters : Limit 200) (customers : Limit 100),
      PagingExact db campaigns collation customerId search events listed letters customers := by
  intro h
  have hone := (h twoSends ∅ (.refl String) "c1" "" ⟨1, by decide⟩ ⟨1, by decide⟩ ⟨1, by decide⟩
    ⟨1, by decide⟩).timeline (alternating _) 2 (by decide) |>.left
  have hids := hone.map Event.eventId
  revert hids
  decide

end Example
end MarTech
