import MarTech.Api.Audience

namespace MarTech

variable {R : Type} [Field R] [LinearOrder R] [MathExp R]

-- What the code scores a customer with: no engagement row counts as a score of zero.
def customerScore (settings : Settings R) (db : Db R) (now : Timestamp) (customer : Customer) : R :=
  let eng := db.engagementScores.get customer.id
  scoreAt settings (eng.elim 0 (·.score)) (eng.map (·.lastUpdated)) now

def customerRank (settings : Settings R) (db : Db R) (now : Timestamp) (customer : Customer) :
    R ×ₗ String :=
  toLex (customerScore settings db now customer, customer.id)

-- A send to the customer on the channel within the day before `now`.
def SentRecently (db : Db R) (channel : Channel) (now : Timestamp) (customer : Customer) : Prop :=
  ∃ evt ∈ db.events, evt.customerId = customer.id ∧ evt.channel = channel.value ∧
    evt.eventType = "send" ∧ evt.status = .processed ∧
    evt.timestamp ∈ Set.Icc (now - 24 * Timestamp.hour) now

omit [Field R] [LinearOrder R] [MathExp R] in
theorem recentSend_iff {db : Db R} {channel : Channel} {now : Timestamp} {customer : Customer} :
    recentSend db channel now customer = true ↔ SentRecently db channel now customer := by
  simp [recentSend, SentRecently, Table.mem_rows, and_assoc]

structure Eligible (settings : Settings R) (db : Db R) (body : RecommendRequest R)
    (now parsedAt : Timestamp) (customer : Customer) : Prop where
  optIn     : optInColumn body.channel customer = true
  unsent    : ¬SentRecently db body.channel now customer
  active    : ∀ days, body.conditions.maxDaysInactive = some days →
    ∃ t, customer.lastActive = some t ∧ parsedAt - days * Timestamp.day ≤ t
  converted : ∀ b, body.conditions.hasConverted = some b → customer.hasConverted = b
  score     : ∀ s, body.conditions.minScore = some s → s ≤ customerScore settings db now customer

-- The entry of the heap that stands for a customer.
def customerEntry (settings : Settings R) (db : Db R) (now : Timestamp) (customer : Customer) :
    ScoredCustomer R where
  score      := customerScore settings db now customer
  customerId := customer.id
  attributes := customer.attributes

namespace Eligible

variable {settings : Settings R} {db : Db R} {body : RecommendRequest R}
         {now parsedAt : Timestamp} {customer : Customer}

-- The query decides all but the score, which is decided while the rows are streamed.
theorem iff : Eligible settings db body now parsedAt customer ↔
    candidateWhere db body.channel now (parseConditions body.conditions parsedAt).minLastActive
      body.conditions.hasConverted customer = true ∧
    ∀ s, body.conditions.minScore = some s → s ≤ customerScore settings db now customer := by
  have hc : ∀ b : Option Bool, (∀ a, b = some a → customer.hasConverted = a) ↔
      b.all (customer.hasConverted = ·) = true := by
    simp [Option.all_eq_true]
  have ha : ∀ d : Option Nat, (∀ n, d = some n →
      ∃ t, customer.lastActive = some t ∧ parsedAt - n * Timestamp.day ≤ t) ↔
        (d.map fun n => parsedAt - n * Timestamp.day).all
          (fun cutoff => customer.lastActive.any (cutoff ≤ ·)) = true := by
    rintro (_ | n) <;> simp [Option.any_eq_true]
  simp only [candidateWhere, parseConditions, Bool.and_eq_true, Bool.not_eq_true',
    ← Bool.not_eq_true, recentSend_iff, ← hc, ← ha, and_assoc]
  exact ⟨fun ⟨h₁, h₂, h₃, h₄, h₅⟩ => ⟨h₁, h₂, h₃, h₄, h₅⟩,
    fun ⟨h₁, h₂, h₃, h₄, h₅⟩ => ⟨h₁, h₂, h₃, h₄, h₅⟩⟩

end Eligible

theorem scoredCustomer_eq {settings : Settings R} {db : Db R} {now : Timestamp}
    {customer : Customer} (filters : Filters R) :
    scoredCustomer settings filters now (candidate db customer) =
      if filters.minScore.all (· ≤ customerScore settings db now customer) then
        some (customerEntry settings db now customer)
      else
        none := by
  change (if filters.minScore.any (customerScore settings db now customer < ·) then none
    else some (customerEntry settings db now customer)) = _
  cases filters.minScore
  case none   => rfl
  case some s => by_cases h : s ≤ customerScore settings db now customer <;> simp [h, not_lt]

section Preview

variable {settings : Settings R} {db : Db R} {body : RecommendRequest R} {now parsedAt : Timestamp}

def isEligible (settings : Settings R) (db : Db R) (body : RecommendRequest R)
    (now parsedAt : Timestamp) (customer : Customer) : Bool :=
  let filters := parseConditions body.conditions parsedAt
  candidateWhere db body.channel now filters.minLastActive filters.hasConverted customer &&
  filters.minScore.all (· ≤ customerScore settings db now customer)

theorem isEligible_iff {customer : Customer} :
    isEligible settings db body now parsedAt customer = true ↔
      Eligible settings db body now parsedAt customer := by
  simp [isEligible, Eligible.iff, parseConditions, Option.all_eq_true]

-- Filtering in SQL and then by score leaves the eligible customers.
theorem candidates_filterMap (parsedAt : Timestamp) :
    let filters := parseConditions body.conditions parsedAt
    (candidates db body.channel now filters.minLastActive filters.hasConverted).filterMap
        (scoredCustomer settings filters now) =
      (db.customers.rows.filter (isEligible settings db body now parsedAt)).map
        (customerEntry settings db now) := by
  intro filters
  rw [candidates, List.filterMap_map, List.filterMap_filter, ← List.filterMap_eq_map,
    List.filterMap_filter]
  refine List.filterMap_congr fun customer _ => ?_
  simp only [Function.comp_apply, scoredCustomer_eq, isEligible, Bool.and_eq_true, ite_and]
  rfl

-- All batches together hold the entries of the eligible customers.
theorem streamed_perm (settings : Settings R) (result : AsyncResult (Candidate R)) (db : Db R)
    (body : RecommendRequest R) (now parsedAt : Timestamp) :
    let filters := parseConditions body.conditions parsedAt
    let rows    := candidates db body.channel now filters.minLastActive filters.hasConverted
    ((result.batches rows).flatten.filterMap (scoredCustomer settings filters now)).Perm <|
      (db.customers.rows.filter (isEligible settings db body now parsedAt)).map
        (customerEntry settings db now) := by
  simp only [← candidates_filterMap]
  exact (result.perm _).filterMap _

-- Batching makes no difference to the loop.
theorem foldl_considerRow (settings : Settings R)
    (heapq : MinHeap (ScoredCustomer.order (R := R))) (filters : Filters R) (size : Nat)
    (now : Timestamp) (batches : List (List (Candidate R))) :
    batches.foldl (fun heap batch =>
        batch.foldl (considerRow settings heapq filters size now) heap) [] =
      (batches.flatten.filterMap (scoredCustomer settings filters now)).foldl
        (heapq.offer size) [] := by
  rw [List.foldl_filterMap, List.foldl_flatten]
  congr! with heap batch row
  unfold considerRow
  split <;> simp_all

theorem customerRank_injective {c₁ c₂ : Customer} (h₁ : c₁ ∈ db.customers) (h₂ : c₂ ∈ db.customers)
    (h : customerRank settings db now c₁ = customerRank settings db now c₂) : c₁ = c₂ :=
  Table.key_injective h₁ h₂ <| congrArg (·.2) <| toLex.injective h

-- The eligible customers, best first. Their ids make all ranks different.
theorem exists_ranking (settings : Settings R) (db : Db R) (body : RecommendRequest R)
    (now parsedAt : Timestamp) : ∃ ranking : List Customer,
    ranking.Perm (db.customers.rows.filter (isEligible settings db body now parsedAt)) ∧
    ranking.Pairwise (customerRank settings db now · > customerRank settings db now ·) := by
  let eligible := db.customers.rows.filter (isEligible settings db body now parsedAt)
  have hp := List.mergeSort_perm eligible
    (customerRank settings db now · ≥ customerRank settings db now ·)
  refine ⟨MinHeap.descending (customerRank settings db now) eligible, hp, ?_⟩
  have hn : (MinHeap.descending (customerRank settings db now) eligible).Nodup :=
    hp.nodup_iff.mpr <| (List.Nodup.of_map _ db.customers.unique).filter _
  refine (MinHeap.pairwise_descending _).and hn |>.imp_of_mem fun h₁ h₂ h => ?_
  refine lt_of_le_of_ne h.left fun he => h.right <| customerRank_injective ?_ ?_ he.symm
  · exact List.mem_of_mem_filter <| hp.mem_iff.mp h₁
  · exact List.mem_of_mem_filter <| hp.mem_iff.mp h₂

variable [FloorRing R] [Runtime]

theorem recommendAudience_eq (settings : Settings R)
    (heapq : MinHeap (ScoredCustomer.order (R := R))) (result : AsyncResult (Candidate R)) (db : Db R)
    (body : RecommendRequest R) (now parsedAt : Timestamp) : ∃ ranking : List Customer,
    ranking.Perm (db.customers.rows.filter (isEligible settings db body now parsedAt)) ∧
    ranking.Pairwise (customerRank settings db now · > customerRank settings db now ·) ∧
    recommendAudience settings heapq result db body now parsedAt = {
      objective     := body.objective.value
      channel       := body.channel.value
      requestedSize := body.audienceSize
      returnedSize  := min body.audienceSize ranking.length
      customers     := (ranking.take body.audienceSize).map
        (rankedCustomer body <| customerEntry settings db now ·) } := by
  obtain ⟨ranking, hp, hr⟩ := exists_ranking settings db body now parsedAt
  have hs := (streamed_perm settings result db body now parsedAt).trans <|
    (hp.map (customerEntry settings db now)).symm
  have ht := MinHeap.descending_foldl_offer heapq body.audienceSize_bounds.left hs.symm <|
    List.pairwise_map.mpr hr
  rw [← foldl_considerRow] at ht
  refine ⟨ranking, hp, hr, ?_⟩
  simp [recommendAudience, ht, List.map_take, Function.comp_def]

-- No one is recommended who is not eligible.
theorem eligible_of_recommended {heapq : MinHeap (ScoredCustomer.order (R := R))}
    {result : AsyncResult (Candidate R)} {ranked : RankedCustomer R}
    (h : ranked ∈ (recommendAudience settings heapq result db body now parsedAt).customers) :
    ∃ customer ∈ db.customers, customer.id = ranked.customerId ∧
      Eligible settings db body now parsedAt customer := by
  obtain ⟨ranking, hp, -, he⟩ := recommendAudience_eq settings heapq result db body now parsedAt
  rw [he] at h
  obtain ⟨customer, hm, rfl⟩ := List.mem_map.mp h
  have hf := List.mem_filter.mp <| hp.mem_iff.mp <| List.mem_of_mem_take hm
  exact ⟨customer, hf.left, rfl, isEligible_iff.mp hf.right⟩

theorem recommendAudience_length (settings : Settings R)
    (heapq : MinHeap (ScoredCustomer.order (R := R))) (result : AsyncResult (Candidate R)) (db : Db R)
    (body : RecommendRequest R) (now parsedAt : Timestamp) :
    (recommendAudience settings heapq result db body now parsedAt).customers.length =
      min body.audienceSize
        (db.customers.rows.countP (isEligible settings db body now parsedAt)) := by
  obtain ⟨ranking, hp, -, he⟩ := recommendAudience_eq settings heapq result db body now parsedAt
  rw [he, List.length_map, List.length_take, hp.length_eq, List.countP_eq_length_filter]

-- The response names the best eligible customers, whatever order and batches they are streamed in.
theorem recommendAudience_exact (settings : Settings R)
    (heapq : MinHeap (ScoredCustomer.order (R := R))) (result : AsyncResult (Candidate R)) (db : Db R)
    (body : RecommendRequest R) (now parsedAt : Timestamp) :
    let response := recommendAudience settings heapq result db body now parsedAt
    ∃ ranking : List Customer,
      (∀ customer, customer ∈ ranking ↔
        customer ∈ db.customers ∧ Eligible settings db body now parsedAt customer) ∧
      ranking.Pairwise (customerRank settings db now · > customerRank settings db now ·) ∧
      response.customers = (ranking.take body.audienceSize).map
        (rankedCustomer body <| customerEntry settings db now ·) ∧
      response.returnedSize = min body.audienceSize ranking.length := by
  obtain ⟨ranking, hp, hr, he⟩ := recommendAudience_eq settings heapq result db body now parsedAt
  refine ⟨ranking, fun customer => ?_, hr, by rw [he], by rw [he]⟩
  rw [hp.mem_iff, List.mem_filter, isEligible_iff, Table.mem_rows]

end Preview
end MarTech
