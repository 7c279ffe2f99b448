import MarTech.Core.RateLimit

namespace MarTech

open SortedSet

variable {T : Type} [CommRing T] [LinearOrder T]

-- What the limiter is to be: the ideal one, with an account for each address and a window of a
-- minute.
def eventMeter (limit : Nat) : Meter (RateLimitCall T) String T where
  owner := RateLimitCall.clientIp
  time  := RateLimitCall.now
  cost  := RateLimitCall.cost
  width := 60
  limit := limit

-- The members of a key that count in the minute before `t`.
def units (set : Option (SortedSet T)) (t : T) : Nat :=
  (rows set).countP (t - 60 < ·.score)

theorem units_none (t : T) : units none t = 0 :=
  rfl

-- From `last` on a key agrees with the log: it has every unit that still counts, and it expires only
-- when none does. Its members come from calls of the log.
structure Keeps (limit : Nat) (log : List (RateLimitCall T)) (last : T) (client : String)
    (set : Option (SortedSet T)) : Prop where
  counts : ∀ t, last ≤ t → units set t = (eventMeter limit).used log client t
  expiry : ∀ s ∈ set, ∃ a ≤ last, s.expiresAt = some (a + 61) ∧ ∀ m ∈ s.members, m.score ≤ a
  source : ∀ m ∈ rows set, ∃ call ∈ log, call.uuid = m.uuid

namespace Keeps

variable {limit : Nat} {log : List (RateLimitCall T)} {last now : T}
         {client : String} {set : Option (SortedSet T)}

theorem start : Keeps limit [] last client none where
  counts _ _ := rfl
  expiry _ h := by cases h
  source _ h := by cases h

theorem mono (h : Keeps limit log last client set) (ht : last ≤ now) :
    Keeps limit log now client set where
  counts t hn := h.counts t (ht.trans hn)
  expiry s hs := by
    obtain ⟨a, ha, he⟩ := h.expiry s hs
    exact ⟨a, ha.trans ht, he⟩
  source := h.source

theorem past (h : Keeps limit log last client set) : ∀ m ∈ rows set, m.score ≤ last := by
  cases set
  case none   => simp [rows]
  case some s =>
    obtain ⟨a, ha, -, hm⟩ := h.expiry s rfl
    exact fun m hr => (hm m hr).trans ha

theorem zcard (h : Keeps limit log now client set) :
    SortedSet.zcard (SortedSet.zremrangebyscore (now - 60) set) =
      (eventMeter limit).used log client now := by
  rw [← h.counts now le_rfl, SortedSet.zcard, rows_zremrangebyscore, units,
    List.countP_eq_length_filter]

variable [IsStrictOrderedRing T]

-- The key expires only when none of its units counts any more.
theorem live (h : Keeps limit log last client set) (ht : last ≤ now) :
    Keeps limit log now client (SortedSet.live now set) := by
  cases set
  case none   => exact h.mono ht
  case some s =>
    obtain ⟨a, ha, he, hm⟩ := h.expiry s rfl
    by_cases hn : now ≤ a + 61
    case pos =>
      have hl : SortedSet.live now (some s) = some s := by simp [SortedSet.live, he, hn]
      rw [hl]
      exact h.mono ht
    case neg =>
      have hl : SortedSet.live now (some s) = none := by simp [SortedSet.live, he, hn]
      rw [hl]
      refine { counts := fun t hn' => ?_, expiry := by simp, source := by simp [rows] }
      rw [units_none, ← h.counts t (ht.trans hn')]
      refine (List.countP_eq_zero.mpr fun m hr => ?_).symm
      have := hm m hr
      simp only [decide_eq_true_eq, not_lt]
      linarith

-- What the script removes does not count any more.
theorem zremrangebyscore (h : Keeps limit log now client set) :
    Keeps limit log now client (SortedSet.zremrangebyscore (now - 60) set) where
  counts t ht := by
    rw [← h.counts t ht, units, rows_zremrangebyscore, List.countP_filter]
    refine List.countP_congr fun m _ => ?_
    simp only [decide_eq_true_eq, Bool.and_eq_true, and_iff_left_iff_imp]
    intro hs
    linarith
  expiry s hs := by
    obtain ⟨s', hs', he, hm⟩ := mem_zremrangebyscore hs
    obtain ⟨a, ha, he', hm'⟩ := h.expiry s' hs'
    exact ⟨a, ha, he.trans he', fun m hr => hm' m (hm m hr)⟩
  source m hm := by
    rw [rows_zremrangebyscore] at hm
    exact h.source m (List.mem_of_mem_filter hm)

variable {call : RateLimitCall T}

omit [IsStrictOrderedRing T] in
-- The units that are let through count for a minute, and the key lives for a second longer.
theorem admitted (h : Keeps limit log call.now call.clientIp set)
    (hu : ∀ c ∈ log, c.uuid ≠ call.uuid) :
    Keeps limit (log ++ [call]) call.now call.clientIp
      (expire (call.now + 61) (addUnits call.uuid call.now call.cost set)) := by
  have hfresh : ∀ m ∈ rows set, m.uuid ≠ call.uuid := by
    intro m hm
    obtain ⟨c, hc, e⟩ := h.source m hm
    exact e ▸ hu c hc
  have hrows := rows_addUnits call.now hfresh call.cost
  constructor
  case counts =>
    intro t ht
    rw [units, rows_expire, hrows, List.countP_append, Meter.used_concat, ← h.counts t ht, units]
    congr 1
    by_cases hn : t - 60 < call.now
    case pos => simp [List.countP_map, Function.comp_def, Meter.counts, eventMeter, hn, ht]
    case neg => simp [List.countP_map, Function.comp_def, Meter.counts, eventMeter, hn]
  case expiry =>
    intro s hs
    obtain ⟨s', hs', rfl⟩ := Option.map_eq_some_iff.mp hs
    refine ⟨call.now, le_rfl, rfl, fun m hm => ?_⟩
    have hm : m ∈ rows (addUnits call.uuid call.now call.cost set) := hs' ▸ hm
    rw [hrows] at hm
    cases List.mem_append.mp hm
    case inl hm => exact h.past m hm
    case inr hm =>
      obtain ⟨i, -, rfl⟩ := List.mem_map.mp hm
      exact le_rfl
  case source =>
    intro m hm
    rw [rows_expire, hrows] at hm
    cases List.mem_append.mp hm
    case inl hm =>
      obtain ⟨c, hc, e⟩ := h.source m hm
      exact ⟨c, List.mem_append_left _ hc, e⟩
    case inr hm =>
      obtain ⟨i, -, e⟩ := List.mem_map.mp hm
      exact ⟨call, List.mem_append_right _ (List.mem_singleton.mpr rfl), e ▸ rfl⟩

omit [IsStrictOrderedRing T] in
-- The units of another client are none of this one's.
theorem admitted_other (h : Keeps limit log call.now client set) (hc : call.clientIp ≠ client) :
    Keeps limit (log ++ [call]) call.now client set where
  counts t ht := by
    rw [h.counts t ht, Meter.used_concat]
    simp [Meter.counts, eventMeter, hc]
  expiry := h.expiry
  source m hm := by
    obtain ⟨c, hc, e⟩ := h.source m hm
    exact ⟨c, List.mem_append_left _ hc, e⟩

end Keeps

-- The calls that the limiter is judged on: they come in the order of their times, no two of them draw
-- the same UUID, and Redis answers all of them.
structure Orderly (calls : List (RateLimitCall T)) : Prop where
  ordered  : calls.Pairwise (·.now ≤ ·.now)
  distinct : (calls.map (·.uuid)).Nodup
  answered : ∀ call ∈ calls, call.connection = .ok

omit [CommRing T] in
theorem Orderly.sublist {calls calls' : List (RateLimitCall T)} (h : Orderly calls)
    (hs : calls'.Sublist calls) : Orderly calls' where
  ordered       := h.ordered.sublist hs
  distinct      := (hs.map _).nodup h.distinct
  answered c hc := h.answered c (hs.subset hc)

omit [CommRing T] in
theorem Orderly.of_concat {calls : List (RateLimitCall T)} {call : RateLimitCall T}
    (h : Orderly (calls ++ [call])) :
    Orderly calls ∧ (∀ c ∈ calls, c.now ≤ call.now) ∧ (∀ c ∈ calls, c.uuid ≠ call.uuid) ∧
      call.connection = .ok := by
  have hordered := List.pairwise_append.mp h.ordered
  have hdistinct := h.distinct
  rw [List.map_append, List.nodup_append] at hdistinct
  refine ⟨h.sublist (List.sublist_append_left ..), ?_, ?_, ?_⟩
  case refine_1 => exact fun c hc => hordered.2.2 c hc call (List.mem_singleton.mpr rfl)
  case refine_2 => exact fun c hc => hdistinct.2.2 _ (List.mem_map_of_mem hc) _ (by simp)
  case refine_3 => exact h.answered call (by simp)

-- The limiter has admitted what the ideal one has, and every key agrees with that from now on.
structure Exact (limit : Nat) (calls : List (RateLimitCall T)) (limiter : Limiter T) : Prop where
  admitted : limiter.admitted = (eventMeter limit).admitted calls
  keeps    : ∀ last, (∀ c ∈ calls, c.now ≤ last) → ∀ client,
    Keeps limit limiter.admitted last client (limiter.redis (rateLimitKey client))

namespace Exact

variable [IsStrictOrderedRing T] {limit : Nat} {calls : List (RateLimitCall T)}
         {limiter : Limiter T} {call : RateLimitCall T}

omit [IsStrictOrderedRing T] in
theorem start : Exact limit ([] : List (RateLimitCall T)) .start where
  admitted    := rfl
  keeps _ _ _ := .start

-- What the script has of the key when it counts.
def pruned (redis : Redis T) (call : RateLimitCall T) : Option (SortedSet T) :=
  zremrangebyscore (call.now - 60) <| live call.now <| redis call.key

theorem keeps_pruned (h : Exact limit calls limiter) (hp : ∀ c ∈ calls, c.now ≤ call.now) :
    Keeps limit limiter.admitted call.now call.clientIp (pruned limiter.redis call) :=
  h.keeps call.now hp call.clientIp |>.live le_rfl |>.zremrangebyscore

theorem fits_iff (h : Exact limit calls limiter) (hp : ∀ c ∈ calls, c.now ≤ call.now) :
    (eventMeter limit).fits limiter.admitted call ↔
      zcard (pruned limiter.redis call) + call.cost ≤ limit := by
  have hcard := h.keeps call.now hp call.clientIp |>.live le_rfl |>.zcard
  simp only [Meter.fits, pruned]
  exact hcard ▸ .rfl

theorem answer_of_fits (h : Exact limit calls limiter) (hp : ∀ c ∈ calls, c.now ≤ call.now)
    (ha : call.connection = .ok) (hf : (eventMeter limit).fits limiter.admitted call) :
    rateLimitEvents limit limiter.redis call = (Function.update limiter.redis call.key <|
      expire (call.now + 61) <| addUnits call.uuid call.now call.cost <|
        pruned limiter.redis call, .ok ()) := by
  have hle := h.fits_iff hp |>.mp hf
  have hcost : ¬limit < call.cost := by omega
  have hn : ¬limit < zcard (pruned limiter.redis call) + call.cost := by omega
  simp only [pruned] at hn
  simp [rateLimitEvents, hcost, ha, evalScript, rateLimitScript, hn, pruned]

theorem answer_of_not_fits (h : Exact limit calls limiter) (hp : ∀ c ∈ calls, c.now ≤ call.now)
    (ha : call.connection = .ok) (hf : ¬(eventMeter limit).fits limiter.admitted call) :
    ∃ redis error, rateLimitEvents limit limiter.redis call = (redis, .error error) ∧
      (redis = limiter.redis ∨
        redis = Function.update limiter.redis call.key (pruned limiter.redis call)) := by
  by_cases hcost : limit < call.cost
  case pos => exact ⟨_, _, if_pos hcost, .inl rfl⟩
  case neg =>
    have hn : limit < zcard (pruned limiter.redis call) + call.cost := by
      exact Nat.lt_of_not_le fun hle => hf (h.fits_iff hp |>.mpr hle)
    simp only [pruned] at hn
    refine ⟨_, rateLimited "Event rate limit exceeded; retry after the current minute", ?_, .inr rfl⟩
    simp [rateLimitEvents, hcost, ha, evalScript, rateLimitScript, hn, pruned]

omit [IsStrictOrderedRing T] in
-- A call writes no key but its own.
theorem keeps_update {log : List (RateLimitCall T)} {last : T} {set : Option (SortedSet T)}
    (hself : Keeps limit log last call.clientIp set)
    (hother : ∀ client, call.clientIp ≠ client →
      Keeps limit log last client (limiter.redis (rateLimitKey client))) (client : String) :
    Keeps limit log last client
      (Function.update limiter.redis call.key set (rateLimitKey client)) := by
  by_cases hc : call.clientIp = client
  case pos =>
    subst hc
    rw [RateLimitCall.key, Function.update_self]
    exact hself
  case neg =>
    have hne : rateLimitKey client ≠ call.key := fun e => hc (rateLimitKey_injective e).symm
    rw [Function.update_of_ne hne]
    exact hother client hc

-- One call is answered as the ideal limiter would have answered it.
theorem serve (h : Exact limit calls limiter) (ho : Orderly (calls ++ [call])) :
    Exact limit (calls ++ [call]) (limiter.serve limit call) := by
  obtain ⟨-, hp, hu, ha⟩ := ho.of_concat
  have hlast {last : T} (hl : ∀ c ∈ calls ++ [call], c.now ≤ last) : call.now ≤ last :=
    hl call (by simp)
  by_cases hf : (eventMeter limit).fits limiter.admitted call
  case pos =>
    have hlog : ∀ c ∈ limiter.admitted, c.uuid ≠ call.uuid := fun c hc =>
      hu c ((h.admitted ▸ Meter.admitted_sublist calls).subset hc)
    rw [limiter.serve_of_ok (h.answer_of_fits hp ha hf)]
    constructor
    case admitted => rw [Meter.admitted_concat, ← h.admitted, Meter.accept, if_pos hf]
    case keeps =>
      refine fun last hl => keeps_update ?_ fun client hc => ?_
      case refine_1 => exact h.keeps_pruned hp |>.admitted hlog |>.mono (hlast hl)
      case refine_2 => exact h.keeps call.now hp client |>.admitted_other hc |>.mono (hlast hl)
  case neg =>
    obtain ⟨redis, error, he, hr⟩ := h.answer_of_not_fits hp ha hf
    rw [limiter.serve_of_error he]
    constructor
    case admitted => rw [Meter.admitted_concat, ← h.admitted, Meter.accept, if_neg hf]
    case keeps =>
      intro last hl client
      have hkept (client) := h.keeps call.now hp client |>.mono (hlast hl)
      cases hr
      case inl hr => exact hr ▸ hkept client
      case inr hr =>
        rw [hr]
        exact keeps_update (h.keeps_pruned hp |>.mono (hlast hl)) (fun client _ => hkept client) client

variable (limit) in
theorem run (ho : Orderly calls) : Exact limit calls (Limiter.run limit calls) := by
  induction calls using List.reverseRecOn
  case nil => exact .start
  case append_singleton calls call hi =>
    have hrun : Limiter.run limit (calls ++ [call]) =
        (Limiter.run limit calls).serve limit call := by
      simp [Limiter.run]
    exact hrun ▸ (hi ho.of_concat.1).serve ho

end Exact

theorem isOk_rateLimitEvents [IsStrictOrderedRing T] {limit : Nat} {calls : List (RateLimitCall T)}
    {limiter : Limiter T} {call : RateLimitCall T} (h : Exact limit calls limiter)
    (ho : Orderly (calls ++ [call])) :
    (rateLimitEvents limit limiter.redis call).2.isOk ↔
      (eventMeter limit).fits limiter.admitted call := by
  obtain ⟨-, hp, -, ha⟩ := ho.of_concat
  by_cases hf : (eventMeter limit).fits limiter.admitted call
  case pos => simp [h.answer_of_fits hp ha hf, hf, Except.isOk, Except.toBool]
  case neg =>
    obtain ⟨redis, error, he, -⟩ := h.answer_of_not_fits hp ha hf
    simp [he, hf, Except.isOk, Except.toBool]

-- A call is let through if and only if it fits in the minute that ends with it, a refused call is as
-- good as none, no minute ever has more than the limit, and Redis has each unit for as long as it
-- counts.
theorem rate_limiter_exact [IsStrictOrderedRing T] (limit : Nat) {calls : List (RateLimitCall T)}
    (ho : Orderly calls) :
    let limiter := Limiter.run limit calls
    let used := (eventMeter limit).used limiter.admitted
    (∀ call, Orderly (calls ++ [call]) →
      ((rateLimitEvents limit limiter.redis call).2.isOk ↔
        used call.clientIp call.now + call.cost ≤ limit)) ∧
    (∀ call later, Orderly (calls ++ call :: later) →
      (rateLimitEvents limit limiter.redis call).2.isOk = false →
        (Limiter.run limit (calls ++ call :: later)).admitted =
          (Limiter.run limit (calls ++ later)).admitted) ∧
    (∀ client t, used client t ≤ limit) ∧
    (∀ client t, (∀ call ∈ calls, call.now ≤ t) →
      units (live t (limiter.redis (rateLimitKey client))) t = used client t) := by
  have h := Exact.run limit ho
  refine ⟨fun call hc => isOk_rateLimitEvents h hc, fun call later hc hr => ?_, fun client t => ?_,
    fun client t ht => ?_⟩
  case refine_1 =>
    have hsub : (calls ++ [call]).Sublist (calls ++ call :: later) :=
      List.Sublist.append_left (List.singleton_sublist.mpr List.mem_cons_self) calls
    have hskip : (calls ++ later).Sublist (calls ++ call :: later) :=
      List.Sublist.append_left (List.sublist_cons_self call later) calls
    have hf : ¬(eventMeter limit).fits ((eventMeter limit).admitted calls) call := by
      rw [← h.admitted, ← isOk_rateLimitEvents h (hc.sublist hsub), hr]
      exact Bool.false_ne_true
    rw [(Exact.run limit hc).admitted, (Exact.run limit (hc.sublist hskip)).admitted]
    exact Meter.admitted_of_not_fits hf later
  case refine_2 =>
    rw [h.admitted]
    exact Meter.used_admitted_le ho.ordered client t
  case refine_3 =>
    exact h.keeps t ht client |>.live le_rfl |>.counts t le_rfl

section Example

def requests (cost : Nat) (uuid : String) : RateLimitCall Int where
  host := some "rate-test"
  cost := cost
  now  := 1000
  uuid := uuid

-- Two batches take up the whole limit, and within the same second nothing else gets through.
theorem rate_limiter_exact_sameSecond :
    (rateLimitEvents 6 (Limiter.run 6 [requests 5 "a", requests 1 "b"]).redis
      (requests 1 "c")).2.isOk = false := by
  have ho : Orderly [requests 5 "a", requests 1 "b", requests 1 "c"] := by
    constructor <;> decide
  have h := rate_limiter_exact 6 (ho.sublist (List.sublist_append_left [_, _] [_]))
  rw [Bool.eq_false_iff, ne_eq, h.1 (requests 1 "c") ho]
  decide

end Example
end MarTech
