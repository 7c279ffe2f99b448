import MarTech.Api.Theorems.Audience
import MarTech.Api.Theorems.Customers

namespace MarTech

section Rows

variable {R : Type}

-- Of every customer the same events have been processed.
def SameProcessed (db db' : Db R) : Prop :=
  ∀ customerId evt, evt ∈ processedEvents db customerId ↔ evt ∈ processedEvents db' customerId

theorem SameProcessed.symm {db db' : Db R} (h : SameProcessed db db') : SameProcessed db' db :=
  fun customerId evt => (h customerId evt).symm

theorem optInColumn_ext {row row' : Customer} (h : ∀ channel ≠ .web,
    optInColumn channel row = true ↔ optInColumn channel row' = true) :
    row.emailOptIn = row'.emailOptIn ∧ row.smsOptIn = row'.smsOptIn ∧
      row.whatsappOptIn = row'.whatsappOptIn ∧ row.pushOptIn = row'.pushOptIn :=
  ⟨Bool.eq_iff_iff.mpr (h .email (by decide)), Bool.eq_iff_iff.mpr (h .sms (by decide)),
    Bool.eq_iff_iff.mpr (h .whatsapp (by decide)), Bool.eq_iff_iff.mpr (h .push (by decide))⟩

-- A view leaves no choice of the row.
theorem CustomerView.unique {initial row row' : Customer} {evts : List Event}
    (v : CustomerView initial evts row) (v' : CustomerView initial evts row') (hid : row.id = row'.id) :
    row = row' := by
  have hactive : row.lastActive = row'.lastActive :=
    Option.ext fun t => (v.lastActive t).trans (v'.lastActive t).symm
  have hconverted : row.hasConverted = row'.hasConverted :=
    Bool.eq_iff_iff.mpr (v.hasConverted.trans v'.hasConverted.symm)
  have hcreated := v.createdAt.trans v'.createdAt.symm
  have hattributes := v.attributes.trans v'.attributes.symm
  obtain ⟨hemail, hsms, hwhatsapp, hpush⟩ :=
    optInColumn_ext fun channel h => (v.optIn channel h).trans (v'.optIn channel h).symm
  cases row
  cases row'
  simp_all

-- Rows that ingestion has created may differ in the time of that.
theorem CustomerView.same {db : Db R} {row row' : Customer} {evts : List Event}
    (v : CustomerView (initialCustomer db row.id row.createdAt) evts row)
    (v' : CustomerView (initialCustomer db row'.id row'.createdAt) evts row')
    (hid : row.id = row'.id) :
    row' = { row with createdAt := row'.createdAt } ∧
      ((db.customers.get row.id).isSome → row = row') := by
  rw [← hid] at v'
  cases hg : db.customers.get row.id
  case some initial =>
    rw [initialCustomer, hg, Option.getD_some] at v v'
    obtain rfl := v.unique v' hid
    exact ⟨rfl, fun _ => rfl⟩
  case none =>
    rw [initialCustomer, hg, Option.getD_none] at v v'
    have hnew : CustomerView (.new row.id row'.createdAt) evts
        { row with createdAt := row'.createdAt } := {
      createdAt    := rfl
      attributes   := v.attributes
      lastActive   := v.lastActive
      hasConverted := v.hasConverted
      optIn        := fun channel h => by cases channel <;> exact v.optIn _ h }
    exact ⟨(hnew.unique v' hid).symm, fun h => by simp at h⟩

theorem SentRecently.same {db db' : Db R} (h : SameProcessed db db') {channel : Channel}
    {now : Timestamp} {customer : Customer} (hs : SentRecently db channel now customer) :
    SentRecently db' channel now customer := by
  obtain ⟨evt, hm, hid, hc, ht, hp, htime⟩ := hs
  obtain ⟨evt', hm', hp', hid', he⟩ := mem_processedEvents.mp <|
    (h customer.id evt.submission).mp <| mem_processedEvents.mpr ⟨evt, hm, hp, hid, rfl⟩
  -- The two rows differ in the time of processing alone.
  have hevt : evt' = { evt with processedAt := evt'.processedAt } := by
    cases evt
    cases evt'
    simp_all [Event.submission]
  refine ⟨evt', hm', hid', ?_, ?_, hp', ?_⟩ <;> rw [hevt] <;> assumption

end Rows

section Runs

variable [Runtime] {settings : Settings ℝ} {db₀ db db' : Db ℝ} {log log' : List String}

theorem Profile.same {customerId : String} {evts evts' later later' : List Event} {now : Timestamp}
    {out out' : CustomerOut ℝ}
    (p : Profile settings (initialCustomer db₀ customerId out.createdAt) evts later now out)
    (p' : Profile settings (initialCustomer db₀ customerId out'.createdAt) evts' later' now out')
    (he : evts.Perm evts') (hl : later.Perm later') :
    out'.row = { out.row with createdAt := out'.createdAt } ∧
      ((db₀.customers.get customerId).isSome → out'.createdAt = out.createdAt) ∧
      out.engagementScore = out'.engagementScore ∧
      ∀ channel, out.channelBreakdown.bind (·.get channel) =
        out'.channelBreakdown.bind (·.get channel) := by
  have hid : out.row.id = customerId := p.id.trans (initialCustomer_id ..)
  have hid' : out'.row.id = customerId := p'.id.trans (initialCustomer_id ..)
  have v : CustomerView (initialCustomer db₀ out.row.id out.row.createdAt) evts' out.row :=
    hid.symm ▸ p.customer.perm he
  have v' : CustomerView (initialCustomer db₀ out'.row.id out'.row.createdAt) evts' out'.row :=
    hid'.symm ▸ p'.customer
  obtain ⟨hrow, hthere⟩ := v.same v' (hid.trans hid'.symm)
  refine ⟨hrow, fun h => ?_, ?_, fun channel => ?_⟩
  · exact congrArg Customer.createdAt (hthere (hid.symm ▸ h)).symm
  · exact p.score.trans <| (expectedScore_perm settings hl now).trans p'.score.symm
  · exact (p.breakdown channel).trans <|
      (expectedEntry_perm hl channel).trans (p'.breakdown channel).symm

end Runs

section Example

open EpochDay

-- A second event, and the two in either order; the first is delivered again after the other.
def complaint : EventIn :=
  { unsubscription with
    eventId        := "e3"
    channel        := .sms
    eventType      := .complaint
    timestamp      := 4 * Timestamp.second
    eventId_length := by decide }

def submitBoth : List Workers.Happening := [
  .ingest unsubscription (6 * Timestamp.second),
  .ingest complaint (6 * Timestamp.second)
]

def inOrder : List Workers.Happening :=
  submitBoth ++
    [.process unsubscription (8 * Timestamp.second), .process complaint (9 * Timestamp.second)]

end Example
end MarTech
