import MarTech.Api.Theorems.Audience
import MarTech.Domain.EpochDay
import MarTech.Domain.Real

namespace MarTech

variable {R : Type} [LinearOrder R]

-- The key of a candidate in the order that the heap compares by.
def candidateKey (candidate : String × R × Json.Object) : R ×ₗ String :=
  toLex (candidate.2.1, candidate.1)

def scoredCandidate (candidate : String × R × Json.Object) : ScoredCustomer R where
  score      := candidate.2.1
  customerId := candidate.1
  attributes := candidate.2.2

variable (heapq : HeapQueue (ScoredCustomer.order (R := R)))
         (candidates : List (String × R × Json.Object)) (k : Int)

theorem selectTopK_keys : (selectTopK heapq candidates k).map ScoredCustomer.order =
    (MinHeap.descending id (candidates.map candidateKey)).take k.toNat := by
  unfold selectTopK
  split
  case isTrue hk => simp [Int.toNat_eq_zero.mpr hk]
  case isFalse hk =>
    have hk : 0 < k.toNat := by omega
    have h := MinHeap.map_descending_foldl (fun h x => heapq.keeps_offer h hk x)
      (candidates.map scoredCandidate)
    rw [List.foldl_map, List.map_map] at h
    exact h

theorem offers_keys (hk : 1 ≤ k) :
    (MinHeap.descending ScoredCustomer.order
        ((candidates.map scoredCandidate).foldl (heapq.toMinHeap.offer k.toNat) [])).map
      ScoredCustomer.order =
    (MinHeap.descending id (candidates.map candidateKey)).take k.toNat := by
  have hk : 0 < k.toNat := by omega
  rw [MinHeap.map_descending_foldl fun h x => h.offer hk x, List.map_map]
  rfl

-- Selecting with a bounded heap is sorting everything and taking what comes first, whichever of the
-- two operations replaces the root.
theorem selection_eq_sort [Field R] [MathExp R] :
    let keys := (MinHeap.descending id (candidates.map candidateKey)).take k.toNat
    (selectTopK heapq candidates k).map ScoredCustomer.order = keys ∧
    (∀ candidates', candidates.Perm candidates' →
      (selectTopK heapq candidates' k).map ScoredCustomer.order =
        (selectTopK heapq candidates k).map ScoredCustomer.order) ∧
    (1 ≤ k →
      (MinHeap.descending ScoredCustomer.order
          ((candidates.map scoredCandidate).foldl (heapq.toMinHeap.offer k.toNat) [])).map
        ScoredCustomer.order = keys) ∧
    ∀ (settings : Settings R) (filters : Filters R) (now : Timestamp) (rows : List (Candidate R)),
      1 ≤ k → rows.filterMap (scoredCustomer settings filters now) = candidates.map scoredCandidate →
        (MinHeap.descending ScoredCustomer.order
            (rows.foldl (considerRow settings heapq.toMinHeap filters k.toNat now) [])).map
          ScoredCustomer.order = keys := by
  refine ⟨selectTopK_keys heapq candidates k, fun candidates' hp => ?_, offers_keys heapq candidates k, ?_⟩
  case refine_1 =>
    rw [selectTopK_keys, selectTopK_keys, MinHeap.descending_perm (hp.map candidateKey)]
  case refine_2 =>
    intro settings filters now rows hk hrows
    have hloop := foldl_considerRow settings heapq.toMinHeap filters k.toNat now [rows]
    simp only [List.foldl_cons, List.foldl_nil, List.flatten_cons, List.flatten_nil,
      List.append_nil] at hloop
    rw [hloop, hrows, offers_keys heapq candidates k hk]

section Example

-- A tie between two customers and an exact duplicate.
def tied : List (String × ℝ × Json.Object) :=
  [("c1", 5, []), ("c2", 7, [("vip", .bool true)]), ("c3", 5, []), ("c1", 5, [])]

-- The rows of which the endpoint makes the same candidates: the scores are current.
def tiedRows : List (Candidate ℝ) :=
  tied.map fun (customerId, score, attributes) => ⟨customerId, score, attributes, none⟩

theorem tiedRows_entries :
    tiedRows.filterMap (scoredCustomer .default ⟨none, none, none⟩ 0) = tied.map scoredCandidate := by
  simp [tiedRows, tied, scoredCustomer, scoreAt, scoredCandidate, MathExp.exp]
  norm_num

theorem selection_eq_sort_tied :
    let heapq : HeapQueue (ScoredCustomer.order (R := ℝ)) := .sorted _
    let selected := (selectTopK heapq tied 2).map ScoredCustomer.order
    (MinHeap.descending ScoredCustomer.order
        ((tied.map scoredCandidate).foldl (heapq.toMinHeap.offer 2) [])).map
      ScoredCustomer.order = selected ∧
    (MinHeap.descending ScoredCustomer.order
        (tiedRows.foldl (considerRow .default heapq.toMinHeap ⟨none, none, none⟩ 2 0) [])).map
      ScoredCustomer.order = selected := by
  intro heapq selected
  obtain ⟨hselect, -, hoffers, hrows⟩ := selection_eq_sort heapq tied 2
  have hloop := hrows .default ⟨none, none, none⟩ 0 tiedRows (by decide) tiedRows_entries
  exact ⟨(hoffers (by decide)).trans hselect.symm, hloop.trans hselect.symm⟩

end Example
end MarTech
