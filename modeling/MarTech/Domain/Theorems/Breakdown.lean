import MarTech.Domain.Theorems.Rounding
import MarTech.Domain.EpochDay
import MarTech.Domain.Real

namespace MarTech

-- What holds of all values of a table and of the default holds of each value that is looked up.
theorem getD_lookup {α : Type} {P : α → Prop} {entries : List (String × α)} {default : α}
    (hd : P default) (h : ∀ entry ∈ entries, P entry.2) (name : String) :
    P ((entries.lookup name).getD default) := by
  induction entries
  case nil => exact hd
  case cons entry entries hi =>
    rw [List.lookup_cons]
    split
    case h_1 => exact h entry List.mem_cons_self
    case h_2 => exact hi fun e he => h e (List.mem_cons_of_mem _ he)

section Weights

variable {R : Type} [Field R] [LinearOrder R] [IsStrictOrderedRing R] [Runtime]

theorem baseWeight_decimal (eventType : String) : Decimal 1 (baseWeight eventType : R) := by
  refine getD_lookup ⟨5, by norm_num⟩ ?_ _
  simp only [baseWeights, List.forall_mem_cons, List.not_mem_nil, false_implies, implies_true, and_true]
  exact ⟨⟨50, by norm_num⟩, ⟨20, by norm_num⟩, ⟨10, by norm_num⟩, ⟨8, by norm_num⟩,
    ⟨3, by norm_num⟩, ⟨1, by norm_num⟩, ⟨-10, by norm_num⟩, ⟨-30, by norm_num⟩, ⟨-50, by norm_num⟩⟩

theorem channelWeight_decimal (channel : String) : Decimal 1 (channelWeight channel : R) := by
  refine getD_lookup ⟨10, by norm_num⟩ ?_ _
  simp only [channelWeights, List.forall_mem_cons, List.not_mem_nil, false_implies, implies_true,
    and_true]
  exact ⟨⟨10, by norm_num⟩, ⟨12, by norm_num⟩, ⟨13, by norm_num⟩, ⟨9, by norm_num⟩, ⟨11, by norm_num⟩⟩

-- The two factors have one decimal each, so the rounding to four never loses any.
theorem eventWeight_decimal (eventType channel : String) :
    Decimal 4 (eventWeight eventType channel : R) :=
  (baseWeight_decimal eventType).mul (channelWeight_decimal channel) |>.mono (by decide)

end Weights

-- The arguments with which `compute_new_score` is called for an event.
structure ScoredEvent (R : Type) where
  currentScore : R
  lastUpdated  : Option Timestamp
  eventType    : String
  channel      : String
  eventTs      : Timestamp
  lambda       : Option R

section Fold

variable {R : Type} [Field R] [LinearOrder R] [FloorRing R] [MathExp R] [Runtime]

-- `debug["event_weight"]`
def ScoredEvent.weight (settings : Settings R) (evt : ScoredEvent R) : R :=
  let (_, debug) := computeNewScore settings evt.currentScore evt.lastUpdated evt.eventType
    evt.channel evt.eventTs evt.lambda
  debug.eventWeight

def foldBreakdown (settings : Settings R) (evts : List (ScoredEvent R)) : Breakdown R :=
  evts.foldl (fun breakdown evt =>
    updateChannelBreakdown (some breakdown) evt.channel evt.eventType (evt.weight settings)) ∅

def onChannel (channel : String) (evts : List (ScoredEvent R)) : List (ScoredEvent R) :=
  evts.filter (lower ·.channel = channel)

-- The entry of a channel, if nothing is lost.
def exactEntry (settings : Settings R) (channel : String) (evts : List (ScoredEvent R)) :
    BreakdownEntry R where
  channel     := channel
  count       := (onChannel channel evts).length
  totalWeight := ((onChannel channel evts).map (·.weight settings)).sum

variable {settings : Settings R}

theorem exactEntry_of_nil {channel : String} {evts : List (ScoredEvent R)}
    (h : onChannel channel evts = []) : exactEntry settings channel evts = ⟨channel, 0, 0⟩ := by
  simp [exactEntry, h]

omit [MathExp R] in
theorem updateChannelBreakdown_get (breakdown : Breakdown R) (channel eventType : String) (weight : R)
    (channel' : String) :
    (updateChannelBreakdown (some breakdown) channel eventType weight).get channel' =
      let entry := (breakdown.get (lower channel)).getD ⟨lower channel, 0, 0⟩
      if lower channel = channel' then
        some ⟨lower channel, entry.count + 1, roundTo 4 (entry.totalWeight + weight)⟩
      else
        breakdown.get channel' :=
  Table.get_upsert ..

theorem foldBreakdown_append (evts : List (ScoredEvent R)) (evt : ScoredEvent R) :
    foldBreakdown settings (evts ++ [evt]) =
      updateChannelBreakdown (some (foldBreakdown settings evts)) evt.channel evt.eventType
        (evt.weight settings) := by
  simp [foldBreakdown]

variable [IsStrictOrderedRing R]

theorem exactEntry_decimal (channel : String) (evts : List (ScoredEvent R)) :
    Decimal 4 (exactEntry settings channel evts).totalWeight := by
  refine Decimal.sum fun x hx => ?_
  obtain ⟨evt, _, rfl⟩ := List.mem_map.mp hx
  exact eventWeight_decimal evt.eventType evt.channel

theorem foldBreakdown_get (settings : Settings R) (evts : List (ScoredEvent R)) (channel : String) :
    (foldBreakdown settings evts).get channel =
      if onChannel channel evts = [] then none else some (exactEntry settings channel evts) := by
  induction evts using List.reverseRec
  case nil => rfl
  case append_singleton evts evt hi =>
    rw [foldBreakdown_append, updateChannelBreakdown_get]
    by_cases h : lower evt.channel = channel
    case neg =>
      have hon : onChannel channel (evts ++ [evt]) = onChannel channel evts := by
        simp [onChannel, h]
      simp only [if_neg h, hi, exactEntry, hon]
    case pos =>
      have hon : onChannel channel (evts ++ [evt]) = onChannel channel evts ++ [evt] := by
        simp [onChannel, h]
      have hentry : ((foldBreakdown settings evts).get channel).getD ⟨channel, 0, 0⟩ =
          exactEntry settings channel evts := by
        rw [hi]
        split
        case isTrue hn => exact (exactEntry_of_nil hn).symm
        case isFalse   => rfl
      have hround : roundTo 4 ((exactEntry settings channel evts).totalWeight + evt.weight settings) =
          (exactEntry settings channel evts).totalWeight + evt.weight settings :=
        (exactEntry_decimal channel evts).add (eventWeight_decimal ..) |>.roundTo
      subst h
      simp only [hentry, hround]
      simp [exactEntry, hon]

-- Rounding each total loses nothing, and the order of the events leaves no trace.
theorem breakdown_exact (settings : Settings R) (evts : List (ScoredEvent R)) :
    let breakdown := foldBreakdown settings evts
    (∀ channel, (breakdown.get channel).isSome ↔ ∃ evt ∈ evts, lower evt.channel = channel) ∧
    (∀ channel entry, breakdown.get channel = some entry →
      let on := evts.filter (lower ·.channel = channel)
      entry.count = on.length ∧ entry.totalWeight = (on.map (·.weight settings)).sum) ∧
    ∀ evts', evts.Perm evts' → ∀ channel,
      (foldBreakdown settings evts').get channel = breakdown.get channel := by
  refine ⟨fun channel => ?_, fun channel entry h => ?_, fun evts' hp channel => ?_⟩
  case refine_1 => simp [foldBreakdown_get, onChannel]
  case refine_2 =>
    rw [foldBreakdown_get] at h
    split at h
    case isTrue  => cases h
    case isFalse => cases h; exact ⟨rfl, rfl⟩
  case refine_3 =>
    have hon : (onChannel channel evts).Perm (onChannel channel evts') := hp.filter _
    have hentry : exactEntry settings channel evts = exactEntry settings channel evts' := by
      simp only [exactEntry, hon.length_eq, (hon.map _).sum_eq]
    simp only [foldBreakdown_get, hentry, ← List.length_eq_zero_iff, hon.length_eq]

end Fold

section Example

open EpochDay

-- A late event on a channel in capitals, one of an unknown type, and one on an unknown channel.
noncomputable def mixedChannels : List (ScoredEvent ℝ) := [
  ⟨0, none, "purchase", "SMS", 9 * Timestamp.second, none⟩,
  ⟨3, some (9 * Timestamp.second), "wishlist", "sms", 5 * Timestamp.second, none⟩,
  ⟨1, none, "view", "carrier pigeon", 0, some 1⟩
]

theorem breakdown_exact_mixedChannels :
    let breakdown := foldBreakdown .default mixedChannels
    (∀ channel, (breakdown.get channel).isSome ↔
      ∃ evt ∈ mixedChannels, lower evt.channel = channel) ∧
    (∀ channel entry, breakdown.get channel = some entry →
      let on := mixedChannels.filter (lower ·.channel = channel)
      entry.count = on.length ∧ entry.totalWeight = (on.map (·.weight .default)).sum) ∧
    ∀ evts', mixedChannels.Perm evts' → ∀ channel,
      (foldBreakdown .default evts').get channel = breakdown.get channel :=
  breakdown_exact .default mixedChannels

end Example
end MarTech
