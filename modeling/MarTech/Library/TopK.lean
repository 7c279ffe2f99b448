import Mathlib.Data.List.Sort

open scoped List

variable {α κ : Type*} [LinearOrder κ]

-- A priority queue held in a list whose first element is a least one.
structure MinHeap (key : α → κ) where
  IsHeap      : List α → Prop
  push        : List α → α → List α
  replace     : List α → α → List α
  nil         : IsHeap []
  head_le     : ∀ {x xs}, IsHeap (x :: xs) → ∀ y ∈ xs, key x ≤ key y
  isHeap_push : ∀ {xs x}, IsHeap xs → IsHeap (push xs x)
  push_perm   : ∀ {xs x}, IsHeap xs → (push xs x).Perm (x :: xs)
  isHeap_replace : ∀ {y ys x}, IsHeap (y :: ys) → IsHeap (replace (y :: ys) x)
  replace_perm   : ∀ {y ys x}, IsHeap (y :: ys) → (replace (y :: ys) x).Perm (x :: ys)

-- `heappushpop` adds an element and takes a least one away.
structure HeapQueue (key : α → κ) extends MinHeap key where
  pushpop        : List α → α → List α
  isHeap_pushpop : ∀ {xs x}, IsHeap xs → IsHeap (pushpop xs x)
  pushpop_perm   : ∀ {xs x}, IsHeap xs →
    ∃ out, (out :: pushpop xs x).Perm (x :: xs) ∧ ∀ y ∈ x :: xs, key out ≤ key y

variable {key : α → κ}

namespace MinHeap

-- Lists in ascending order are heaps, as the documentation of `heapq` has it.
def sorted (key : α → κ) : MinHeap key where
  IsHeap xs     := xs.Pairwise (key · ≤ key ·)
  push xs x     := xs.orderedInsert (key · ≤ key ·) x
  replace xs x  := xs.tail.orderedInsert (key · ≤ key ·) x
  nil           := .nil
  head_le h     := List.pairwise_cons.mp h |>.left
  isHeap_push   := pairwise_insert
  push_perm _   := List.perm_orderedInsert ..
  isHeap_replace h := pairwise_insert <| List.pairwise_cons.mp h |>.right
  replace_perm _   := List.perm_orderedInsert ..
where
  pairwise_insert {xs : List α} {x : α} (h : xs.Pairwise (key · ≤ key ·)) :
      (xs.orderedInsert (key · ≤ key ·) x).Pairwise (key · ≤ key ·) :=
    have : IsTrans α (key · ≤ key ·) := ⟨fun _ _ _ => le_trans⟩
    have : Std.Total (α := α) (key · ≤ key ·) := ⟨fun _ _ => le_total ..⟩
    h.orderedInsert x xs

theorem least (heapq : MinHeap key) {m : α} {heap : List α} (h : heapq.IsHeap (m :: heap)) :
    ∀ x ∈ m :: heap, key m ≤ key x
  | _, .head _    => le_rfl
  | x, .tail _ hx => heapq.head_le h x hx

-- One more element for a heap that keeps the `k` greatest elements offered to it.
def offer (heapq : MinHeap key) (k : Nat) (heap : List α) (x : α) : List α :=
  if heap.length < k then
    heapq.push heap x
  else if heap.head?.any (key · < key x) then
    heapq.replace heap x
  else
    heap

-- What `heap` has kept of `seen`.
structure Keeps (heapq : MinHeap key) (k : Nat) (seen heap : List α) : Prop where
  isHeap : heapq.IsHeap heap
  length : heap.length = min k seen.length
  best   : ∃ rest, (heap ++ rest).Perm seen ∧ ∀ x ∈ heap, ∀ y ∈ rest, key y ≤ key x

namespace Keeps

variable {heapq : MinHeap key} {k : Nat} {seen heap : List α}

theorem nil : heapq.Keeps k [] [] where
  isHeap := heapq.nil
  length := by simp
  best   := ⟨[], .nil, by simp⟩

-- A full heap may give up a least element for another one.
theorem exchange (h : heapq.Keeps k seen heap) (hfull : k ≤ heap.length) {heap' : List α} {x out : α}
    (hheap : heapq.IsHeap heap') (hp : out :: heap' ~ x :: heap) (hout : ∀ a ∈ heap', key out ≤ key a)
    (hle : ∀ a ∈ heap', ∃ a₀ ∈ heap, key a₀ ≤ key a) : heapq.Keeps k (x :: seen) heap' := by
  obtain ⟨rest, hs, hb⟩ := h.best
  have hl := h.length
  have hn := hp.length_eq
  refine ⟨hheap, ?_, out :: rest, ?_, fun a ha => ?_⟩
  · simp only [List.length_cons] at hn ⊢
    omega
  · calc
      heap' ++ out :: rest
      _ ~ out :: heap' ++ rest := List.perm_middle
      _ ~ x :: heap ++ rest    := hp.append_right _
      _ ~ x :: seen            := hs.cons x
  · obtain ⟨a₀, hm, hle⟩ := hle a ha
    rintro b (_ | ⟨_, hr⟩)
    · exact hout a ha
    · exact hb a₀ hm b hr |>.trans hle

theorem push (h : heapq.Keeps k seen heap) (hlt : heap.length < k) (x : α) :
    heapq.Keeps k (x :: seen) (heapq.push heap x) := by
  obtain ⟨rest, hp, -⟩ := h.best
  have hl := h.length
  have hn := hp.length_eq
  rw [List.length_append] at hn
  have hr : rest = [] := List.eq_nil_of_length_eq_zero (by omega)
  have hq := heapq.push_perm (x := x) h.isHeap
  rw [hr, List.append_nil] at hp
  refine ⟨heapq.isHeap_push h.isHeap, ?_, [], ?_, by simp⟩
  · simp only [hq.length_eq, List.length_cons]
    omega
  · rw [List.append_nil]
    exact hq.trans (hp.cons x)

-- An element which is not greater than the root stays outside.
theorem skip (h : heapq.Keeps k seen heap) (hk : 0 < k) (hfull : k ≤ heap.length) {x : α}
    (hx : heap.head?.any (key · < key x) = false) : heapq.Keeps k (x :: seen) heap := by
  cases heap
  case nil => exact absurd hk hfull.not_gt
  case cons m heap =>
    have hle : key x ≤ key m := by simpa using hx
    exact h.exchange hfull h.isHeap .rfl (fun a ha => hle.trans <| heapq.least h.isHeap a ha)
      fun a ha => ⟨a, ha, le_rfl⟩

theorem offer (h : heapq.Keeps k seen heap) (hk : 0 < k) (x : α) :
    heapq.Keeps k (x :: seen) (heapq.offer k heap x) := by
  unfold MinHeap.offer
  split
  case isTrue hlt => exact h.push hlt x
  case isFalse hge =>
    have hfull := not_lt.mp hge
    split
    case isFalse hle => exact h.skip hk hfull (by simpa using hle)
    case isTrue hgt =>
      cases heap
      case nil => simp at hgt
      case cons m heap =>
        have hlt : key m < key x := by simpa using hgt
        have hm := heapq.least h.isHeap
        have hq := heapq.replace_perm (x := x) h.isHeap
        have hmem {a} (ha : a ∈ heapq.replace (m :: heap) x) :
            ∃ a₀ ∈ m :: heap, key a₀ ≤ key a := by
          cases List.mem_cons.mp <| hq.mem_iff.mp ha
          case inl e  => exact ⟨m, .head _, e ▸ hlt.le⟩
          case inr ha => exact ⟨a, .tail _ ha, le_rfl⟩
        have hp : m :: heapq.replace (m :: heap) x ~ x :: m :: heap := (hq.cons m).trans (.swap ..)
        refine h.exchange hfull (heapq.isHeap_replace h.isHeap) hp (fun a ha => ?_) fun a => hmem
        obtain ⟨a₀, ha₀, hle⟩ := hmem ha
        exact (hm a₀ ha₀).trans hle

theorem foldl (h : heapq.Keeps k seen heap) {step : List α → α → List α}
    (hstep : ∀ {seen heap}, heapq.Keeps k seen heap → ∀ x, heapq.Keeps k (x :: seen) (step heap x))
    (xs : List α) : heapq.Keeps k (xs.reverse ++ seen) (xs.foldl step heap) := by
  induction xs generalizing seen heap
  case nil          => exact h
  case cons x xs hi => simpa using hi (hstep h x)

end Keeps

-- `sorted(xs, reverse=True)`
def descending (key : α → κ) (xs : List α) : List α :=
  xs.mergeSort (key · ≥ key ·)

theorem pairwise_descending (xs : List α) :
    (descending key xs).Pairwise (key · ≥ key ·) := by
  have h : (descending key xs).Pairwise fun x y => decide (key x ≥ key y) :=
    List.pairwise_mergeSort (by simpa using fun _ _ _ h₁ h₂ => h₂.trans h₁)
      (by simpa using fun _ _ => le_total _ _) xs
  exact h.imp of_decide_eq_true

theorem pairwise_descending_id (ks : List κ) : (descending id ks).Pairwise (· ≥ ·) :=
  pairwise_descending ks

-- Sorting what is left after all elements were offered gives the start of any strict ranking.
theorem descending_foldl_offer (heapq : MinHeap key) {k : Nat} (hk : 0 < k) {xs ranking : List α}
    (hp : ranking ~ xs) (hr : ranking.Pairwise (key · > key ·)) :
    descending key (xs.foldl (heapq.offer k) []) = ranking.take k := by
  have h := (Keeps.nil : heapq.Keeps k [] []).foldl (·.offer hk) xs
  rw [List.append_nil] at h
  obtain ⟨rest, hs, hb⟩ := h.best
  set heap := xs.foldl (heapq.offer k) []
  have hq : ranking ~ descending key heap ++ descending key rest := calc
    ranking
    _ ~ xs.reverse                                   := hp.trans xs.reverse_perm.symm
    _ ~ heap ++ rest                                 := hs.symm
    _ ~ descending key heap ++ descending key rest   :=
      (List.mergeSort_perm ..).symm.append (List.mergeSort_perm ..).symm
  have hd : (descending key heap ++ descending key rest).Pairwise (key · ≥ key ·) :=
    List.pairwise_append.mpr ⟨pairwise_descending heap, pairwise_descending rest, fun x hx y hy =>
      hb x (List.mem_mergeSort.mp hx) y (List.mem_mergeSort.mp hy)⟩
  have he : ranking = descending key heap ++ descending key rest := by
    refine hq.eq_of_pairwise (fun x y hx hy h₁ h₂ => ?_) (hr.imp le_of_lt) hd
    have hn : (ranking.map key).Nodup := List.pairwise_map.mpr <| hr.imp ne_of_gt
    exact List.inj_on_of_nodup_map hn hx (hq.mem_iff.mpr hy) <| le_antisymm h₂ h₁
  have hl : (descending key heap).length = min k ranking.length := by
    rw [descending, List.length_mergeSort, h.length, List.length_reverse, hp.length_eq]
  rw [List.take_eq_take_min, ← hl, he, List.take_left]

-- The keys of what is left are the first ones of all keys in descending order.
theorem Keeps.map_descending {heapq : MinHeap key} {k : Nat} {seen heap : List α}
    (h : heapq.Keeps k seen heap) :
    (descending key heap).map key = (descending id (seen.map key)).take k := by
  obtain ⟨rest, hs, hb⟩ := h.best
  have hmap (xs : List α) : ((descending key xs).map key).Pairwise (· ≥ ·) :=
    List.pairwise_map.mpr (pairwise_descending xs)
  have hd : ((descending key heap).map key ++ (descending key rest).map key).Pairwise (· ≥ ·) := by
    refine List.pairwise_append.mpr ⟨hmap heap, hmap rest, fun a ha b hb' => ?_⟩
    obtain ⟨x, hx, rfl⟩ := List.mem_map.mp ha
    obtain ⟨y, hy, rfl⟩ := List.mem_map.mp hb'
    exact hb x (List.mem_mergeSort.mp hx) y (List.mem_mergeSort.mp hy)
  have hp : descending id (seen.map key) ~
      (descending key heap).map key ++ (descending key rest).map key := calc
    descending id (seen.map key)
    _ ~ seen.map key                 := List.mergeSort_perm ..
    _ ~ (heap ++ rest).map key       := (hs.map key).symm
    _ ~ (descending key heap).map key ++ (descending key rest).map key := by
      rw [List.map_append]
      exact ((List.mergeSort_perm ..).map key).symm.append ((List.mergeSort_perm ..).map key).symm
  have he := hp.eq_of_pairwise (fun _ _ _ _ h₁ h₂ => le_antisymm h₂ h₁)
    (pairwise_descending_id _) hd
  have hl : ((descending key heap).map key).length = min k (descending id (seen.map key)).length := by
    rw [List.length_map, descending, List.length_mergeSort, h.length, descending,
      List.length_mergeSort, List.length_map]
  rw [List.take_eq_take_min, ← hl, he, List.take_left]

-- Sorting keys forgets where they came from.
theorem descending_perm {ks ks' : List κ} (h : ks ~ ks') : descending id ks = descending id ks' := by
  have hp : descending id ks ~ descending id ks' :=
    (List.mergeSort_perm ..).trans <| h.trans (List.mergeSort_perm ..).symm
  exact hp.eq_of_pairwise (fun _ _ _ _ h₁ h₂ => le_antisymm h₂ h₁)
    (pairwise_descending_id ks) (pairwise_descending_id ks')

theorem map_descending_foldl {heapq : MinHeap key} {k : Nat} {step : List α → α → List α}
    (hstep : ∀ {seen heap}, heapq.Keeps k seen heap → ∀ x, heapq.Keeps k (x :: seen) (step heap x))
    (xs : List α) :
    (descending key (xs.foldl step [])).map key = (descending id (xs.map key)).take k := by
  have h := (Keeps.nil : heapq.Keeps k [] []).foldl hstep xs
  rw [List.append_nil] at h
  rw [h.map_descending, descending_perm (xs.reverse_perm.map key)]

end MinHeap

namespace HeapQueue

open MinHeap

-- Lists in ascending order again.
def sorted (key : α → κ) : HeapQueue key where
  toMinHeap := .sorted key
  pushpop xs x := ((MinHeap.sorted key).push xs x).tail
  isHeap_pushpop h := ((MinHeap.sorted key).isHeap_push h).tail
  pushpop_perm {xs x} h := by
    have hq := (MinHeap.sorted key).push_perm (x := x) h
    have hs := (MinHeap.sorted key).isHeap_push (x := x) h
    cases hi : (MinHeap.sorted key).push xs x
    case nil => simp [hi] at hq
    case cons out ys =>
      rw [hi] at hq hs
      exact ⟨out, hq, fun y hy => (MinHeap.sorted key).least hs y (hq.mem_iff.mpr hy)⟩

-- The turn of a loop which calls `heappushpop` where the other one calls `heapreplace`.
def offer (heapq : HeapQueue key) (k : Nat) (heap : List α) (x : α) : List α :=
  if heap.length < k then
    heapq.push heap x
  else if heap.head?.any (key · < key x) then
    heapq.pushpop heap x
  else
    heap

variable {heapq : HeapQueue key} {k : Nat} {seen heap : List α}

theorem keeps_offer (h : heapq.Keeps k seen heap) (hk : 0 < k) (x : α) :
    heapq.Keeps k (x :: seen) (heapq.offer k heap x) := by
  unfold offer
  split
  case isTrue hlt => exact h.push hlt x
  case isFalse hge =>
    have hfull := not_lt.mp hge
    split
    case isFalse hle => exact h.skip hk hfull (by simpa using hle)
    case isTrue hgt =>
      cases heap
      case nil => simp at hgt
      case cons m heap =>
        have hlt : key m < key x := by simpa using hgt
        obtain ⟨out, hp, hout⟩ := heapq.pushpop_perm (x := x) h.isHeap
        have hmem {a} (ha : a ∈ heapq.pushpop (m :: heap) x) : a ∈ x :: m :: heap :=
          hp.mem_iff.mp (.tail _ ha)
        refine h.exchange hfull (heapq.isHeap_pushpop h.isHeap) hp (fun a ha => hout a (hmem ha))
          fun a ha => ?_
        cases List.mem_cons.mp (hmem ha)
        case inl e  => exact ⟨m, .head _, e ▸ hlt.le⟩
        case inr ha => exact ⟨a, ha, le_rfl⟩

end HeapQueue
