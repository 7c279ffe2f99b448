import MarTech.Api.Theorems.OptOut
import MarTech.Library.Paging

namespace MarTech

section Cap

variable {R : Type} [Field R] [LinearOrder R] [FloorRing R] [MathExp R] [Runtime]

-- Once a send has been processed its customer is left alone on that channel for a day, in whatever
-- state the system has got into by then.
theorem frequency_capped (settings : Settings R) (heapq : MinHeap (ScoredCustomer.order (R := R)))
    (result : AsyncResult (Candidate R)) (s : State R) (before after : List Action) (evt : Event)
    (hm : evt ∈ (s.acts settings before).db.events) (hp : evt.status = .processed)
    (ht : evt.eventType = "send") (body : RecommendRequest R) (hc : evt.channel = body.channel.value)
    (now parsedAt : Timestamp)
    (hnow : now ∈ Set.Icc evt.timestamp (evt.timestamp + 24 * Timestamp.hour)) :
    let later := ((s.acts settings before).acts settings after).db
    ∀ ranked ∈ (recommendAudience settings heapq result later body now parsedAt).customers,
      ranked.customerId ≠ evt.customerId := by
  intro later ranked hr he
  have hg : later.events.get evt.eventId = some evt :=
    State.acts_processed_kept settings _ after (Table.mem_iff_get.mp hm) hp
  obtain ⟨customer, -, hid, hel⟩ := eligible_of_recommended hr
  exact hel.unsent ⟨evt, Table.mem_of_get hg, (hid.trans he).symm, hc, ht, hp,
    sub_le_iff_le_add.mpr hnow.right, hnow.left⟩

end Cap

section Nested

variable {R : Type} [Field R] [LinearOrder R] [MathExp R]

-- What is above a bound comes first.
theorem filter_isPrefix {settings : Settings R} {db : Db R} {now : Timestamp} {ranking : List Customer}
    (hr : ranking.Pairwise (customerRank settings db now · > customerRank settings db now ·)) (s : R) :
    ranking.filter (s ≤ customerScore settings db now ·) <+: ranking := by
  have hsorted : ranking.Pairwise fun c₁ c₂ =>
      OrderDual.toDual (customerRank settings db now c₁) ≤ .toDual (customerRank settings db now c₂) :=
    hr.imp fun h => OrderDual.toDual_le_toDual.mpr h.le
  refine ⟨_, (sorted_split hsorted fun c₁ c₂ hle h => ?_).symm⟩
  have hscore := Prod.Lex.monotone_fst _ _ (OrderDual.toDual_le_toDual.mp hle)
  simp only [decide_eq_true_eq] at h ⊢
  exact h.trans hscore

-- A request which asks for fewer customers, or for higher scores.
structure RecommendRequest.Within (body' body : RecommendRequest R) : Prop where
  objective       : body'.objective = body.objective
  channel         : body'.channel = body.channel
  maxDaysInactive : body'.conditions.maxDaysInactive = body.conditions.maxDaysInactive
  hasConverted    : body'.conditions.hasConverted = body.conditions.hasConverted
  minScore        : ∀ s ∈ body.conditions.minScore, ∃ s' ∈ body'.conditions.minScore, s ≤ s'
  audienceSize    : body'.audienceSize ≤ body.audienceSize

variable {settings : Settings R} {db : Db R} {body body' : RecommendRequest R}
         {now parsedAt : Timestamp}

theorem Eligible.within_iff (h : body'.Within body) {customer : Customer} :
    Eligible settings db body' now parsedAt customer ↔
      Eligible settings db body now parsedAt customer ∧
        ∀ s ∈ body'.conditions.minScore, s ≤ customerScore settings db now customer := by
  constructor
  case mp =>
    intro he
    refine ⟨⟨h.channel ▸ he.optIn, h.channel ▸ he.unsent, h.maxDaysInactive ▸ he.active,
      h.hasConverted ▸ he.converted, fun s hs => ?_⟩, he.score⟩
    obtain ⟨s', hs', hle⟩ := h.minScore s hs
    exact hle.trans (he.score s' hs')
  case mpr =>
    rintro ⟨he, hs⟩
    exact ⟨h.channel ▸ he.optIn, h.channel ▸ he.unsent, h.maxDaysInactive ▸ he.active,
      h.hasConverted ▸ he.converted, hs⟩

-- The ranking that the narrower request makes is where the other one begins.
theorem ranking_isPrefix (h : body'.Within body) {ranking ranking' : List Customer}
    (hm : ∀ customer, customer ∈ ranking ↔
      customer ∈ db.customers ∧ Eligible settings db body now parsedAt customer)
    (hm' : ∀ customer, customer ∈ ranking' ↔
      customer ∈ db.customers ∧ Eligible settings db body' now parsedAt customer)
    (hr : ranking.Pairwise (customerRank settings db now · > customerRank settings db now ·))
    (hr' : ranking'.Pairwise (customerRank settings db now · > customerRank settings db now ·)) :
    ranking' <+: ranking := by
  have hirrefl : Std.Irrefl (customerRank settings db now · > customerRank settings db now ·) :=
    ⟨fun customer => lt_irrefl (customerRank settings db now customer)⟩
  cases hs : body'.conditions.minScore
  case none =>
    have heq : ranking' = ranking := hr'.eq_of_mem_iff hr fun customer => by
      simp [hm, hm', Eligible.within_iff h, hs]
    exact heq ▸ List.prefix_rfl
  case some s =>
    have heq : ranking' = ranking.filter (s ≤ customerScore settings db now ·) :=
      hr'.eq_of_mem_iff (hr.filter _) fun customer => by
        simp [hm, hm', Eligible.within_iff h, hs, and_assoc]
    exact heq ▸ filter_isPrefix hr s

variable [FloorRing R] [Runtime]

-- Asking for more customers or for lower scores adds customers at the end and changes nothing before
-- that, whatever order and batches the rows are streamed in.
theorem previews_nested (settings : Settings R)
    (heapq heapq' : MinHeap (ScoredCustomer.order (R := R))) (result result' : AsyncResult (Candidate R))
    (db : Db R) {body body' : RecommendRequest R} (h : body'.Within body) (now parsedAt : Timestamp) :
    (recommendAudience settings heapq' result' db body' now parsedAt).customers <+:
      (recommendAudience settings heapq result db body now parsedAt).customers := by
  obtain ⟨ranking, hp, hr, he⟩ := recommendAudience_eq settings heapq result db body now parsedAt
  obtain ⟨ranking', hp', hr', he'⟩ :=
    recommendAudience_eq settings heapq' result' db body' now parsedAt
  have hm (customer) : customer ∈ ranking ↔ _ :=
    hp.mem_iff.trans <| List.mem_filter.trans <| and_congr Table.mem_rows isEligible_iff
  have hm' (customer) : customer ∈ ranking' ↔ _ :=
    hp'.mem_iff.trans <| List.mem_filter.trans <| and_congr Table.mem_rows isEligible_iff
  have hshorter := ranking_isPrefix h hm hm' hr hr'
  have hranked : rankedCustomer (R := R) body' = rankedCustomer body := by
    funext entry
    rw [rankedCustomer, rankedCustomer, h.channel, h.objective]
  rw [he, he', hranked]
  refine List.IsPrefix.map _ ?_
  exact (hshorter.take _).trans (List.take_prefix_take_left h.audienceSize)

end Nested
section Example

open EpochDay

-- The customer is sent an email, and this is processed.
def sentOnce : List Action :=
  let body := { unsubscription with eventType := .send }
  [.transact (.ingestEvent body none (6 * Timestamp.second)),
   .transact (.processOneEvent body.modelDump (8 * Timestamp.second))]

theorem sentOnce_processed : ∃ evt ∈ (seeded.acts .default sentOnce).db.events,
    evt.status = .processed ∧ evt.eventType = "send" ∧ evt.channel = "email" ∧
      evt.customerId = "c1" ∧ evt.timestamp = 5 * Timestamp.second := by
  have h : ((seeded.acts .default sentOnce).db.events.rows.any fun evt =>
      evt.status = .processed ∧ evt.eventType = "send" ∧ evt.channel = "email" ∧
        evt.customerId = "c1" ∧ evt.timestamp = 5 * Timestamp.second) = true := by
    decide +kernel
  simpa [Table.mem_rows] using h

def newcomer (id : String) : Customer :=
  { Customer.new id 0 with emailOptIn := true }

-- The customer opens it, and another one comes, before anybody is recommended.
def openedSince : List Action :=
  let body := { unsubscription with
    eventId        := "opened"
    eventType      := .open
    timestamp      := 8 * Timestamp.second
    eventId_length := by decide }
  [.transact (.ingestEvent body none (9 * Timestamp.second)),
   .transact (.processOneEvent body.modelDump (10 * Timestamp.second)),
   .seedCustomers [newcomer "c2"]]

theorem frequency_capped_sentOnce :
    let db := ((seeded.acts .default sentOnce).acts .default openedSince).db
    ∀ ranked ∈ (recommendAudience .default (.sorted _) .whole db (preview .email)
        (11 * Timestamp.second) (11 * Timestamp.second)).customers, ranked.customerId ≠ "c1" := by
  obtain ⟨evt, hm, hp, ht, hc, ho, htime⟩ := sentOnce_processed
  exact ho ▸ frequency_capped .default (.sorted _) .whole seeded sentOnce openedSince evt hm hp ht
    (preview .email) hc (11 * Timestamp.second) (11 * Timestamp.second)
    (by rw [htime]; constructor <;> decide)

-- Two customers with a score, and one without.
def scored : Db ℝ :=
  let score (id : String) (score : ℝ) : EngagementScore ℝ := ⟨id, score, 9 * Timestamp.second, ∅⟩
  { seeded.db with
    customers        := (seeded.db.customers.insert (newcomer "c2")).insert (newcomer "c3")
    engagementScores := (seeded.db.engagementScores.insert (score "c2" 30)).insert (score "c3" 20) }

def topTwo : RecommendRequest ℝ :=
  { preview .email with
    audienceSize        := 2
    audienceSize_bounds := by decide }

def topOne : RecommendRequest ℝ :=
  { preview .email with
    conditions          := { topTwo.conditions with
      minScore        := some 25
      minScore_bounds := by norm_num }
    audienceSize        := 1
    audienceSize_bounds := by decide }

theorem topOne_within : topOne.Within topTwo where
  objective       := rfl
  channel         := rfl
  maxDaysInactive := rfl
  hasConverted    := rfl
  minScore s h    := by simp [topTwo, preview] at h
  audienceSize    := by decide

theorem scored_rows : scored.customers.rows = [newcomer "c1", newcomer "c2", newcomer "c3"] := rfl

-- Of the newcomers only a request for high scores leaves some out.
theorem eligible_newcomer {body : RecommendRequest ℝ} (now : Timestamp) (id : String)
    (hc : body.channel = .email) (ha : body.conditions.maxDaysInactive = none)
    (hb : body.conditions.hasConverted = none) :
    Eligible .default scored body now now (newcomer id) ↔
      ∀ s ∈ body.conditions.minScore, s ≤ customerScore .default scored now (newcomer id) := by
  refine ⟨fun he => he.score, fun hs => ⟨?optIn, ?unsent, ?active, ?converted, hs⟩⟩
  case optIn     => rw [hc]; rfl
  case unsent    => exact fun ⟨_, hm, _⟩ => absurd hm List.not_mem_nil
  case active    => simp [ha]
  case converted => simp [hb]

-- At the time of the last update nothing has decayed yet.
theorem customerScore_scored {id : String} (eng : Option (EngagementScore ℝ))
    (hg : scored.engagementScores.get id = eng)
    (ht : ∀ row ∈ eng, row.lastUpdated = 9 * Timestamp.second) :
    customerScore .default scored (9 * Timestamp.second) (newcomer id) =
      max (-50) (min 200 (eng.elim 0 (·.score))) := by
  have hid : (newcomer id).id = id := rfl
  cases eng
  case none     => simp [customerScore, scoreAt, hid, hg]
  case some row => simp [customerScore, scoreAt, hid, hg, ht, totalSeconds, MathExp.exp]

theorem topOne_count : scored.customers.rows.countP (isEligible .default scored topOne
    (9 * Timestamp.second) (9 * Timestamp.second)) = 1 := by
  have h₁ : customerScore .default scored (9 * Timestamp.second) (newcomer "c1") = 0 := by
    rw [customerScore_scored none rfl (by simp)]
    norm_num
  have h₂ : customerScore .default scored (9 * Timestamp.second) (newcomer "c2") = 30 := by
    rw [customerScore_scored (some ⟨"c2", 30, 9 * Timestamp.second, ∅⟩) rfl (by simp)]
    norm_num
  have h₃ : customerScore .default scored (9 * Timestamp.second) (newcomer "c3") = 20 := by
    rw [customerScore_scored (some ⟨"c3", 20, 9 * Timestamp.second, ∅⟩) rfl (by simp)]
    norm_num
  have he (id : String) : Eligible .default scored topOne _ _ (newcomer id) ↔ _ :=
    eligible_newcomer (9 * Timestamp.second) id rfl rfl rfl
  simp only [scored_rows, List.countP_cons, List.countP_nil, isEligible_iff, he, h₁, h₂, h₃]
  norm_num [topOne]

theorem topTwo_count : scored.customers.rows.countP (isEligible .default scored topTwo
    (9 * Timestamp.second) (9 * Timestamp.second)) = 3 := by
  refine List.countP_eq_length.mpr fun customer hm => isEligible_iff.mpr ?_
  obtain rfl | rfl | rfl :
      customer = newcomer "c1" ∨ customer = newcomer "c2" ∨ customer = newcomer "c3" := by
    simpa [scored_rows] using hm
  all_goals exact (eligible_newcomer _ _ rfl rfl rfl).mpr (by simp [topTwo, preview])

-- The narrower request asks for one customer with a high score, the other one for any two.
theorem previews_nested_topOne :
    let recommended (body : RecommendRequest ℝ) :=
      (recommendAudience .default (.sorted _) .whole scored body (9 * Timestamp.second)
        (9 * Timestamp.second)).customers
    recommended topOne <+: recommended topTwo ∧ (recommended topOne).length = 1 ∧
      (recommended topTwo).length = 2 := by
  refine ⟨?_, ?_, ?_⟩
  · exact previews_nested .default (.sorted _) (.sorted _) .whole .whole scored topOne_within
      (9 * Timestamp.second) (9 * Timestamp.second)
  · rw [recommendAudience_length, topOne_count]
    rfl
  · rw [recommendAudience_length, topTwo_count]
    rfl

end Example
end MarTech
