import MarTech.Pipeline.Worker
import MarTech.Database.Repositories

namespace MarTech

-- The channel whose opt-in decides whether a customer may be contacted on a channel.
def Channel.consent : Channel → Channel
  | web     => email
  | channel => channel

theorem Channel.consent_of_ne_web {channel : Channel} (h : channel ≠ .web) :
    channel.consent = channel := by
  cases channel <;> first | rfl | contradiction

-- Processing takes consents away and never gives one.
theorem optInColumn_setOptIn (channel : Channel) (row : Customer) (name : String) :
    optInColumn channel (row.setOptIn name false) =
      (optInColumn channel row && name ≠ channel.consent.value) := by
  unfold Customer.setOptIn
  split <;> cases channel <;> simp_all [optInColumn, Channel.consent, Channel.value]

theorem optInColumn_customerAfter (channel : Channel) (evt : Event) (customer row : Customer) :
    optInColumn channel (customerAfter evt customer row) =
      (optInColumn channel row && !(evt.optsOut && evt.channel = channel.consent.value)) := by
  have h : ∀ row : Customer, optInColumn channel (if evt.optsOut then row.setOptIn evt.channel false
      else row) = (optInColumn channel row &&
        !(evt.optsOut && evt.channel = channel.consent.value)) := by
    intro row
    cases evt.optsOut <;> simp [optInColumn_setOptIn]
  simp only [customerAfter, h]
  split <;> cases channel <;> rfl

end MarTech
