import MarTech.Library.Table
import Mathlib.Data.List.Sort
import Mathlib.Data.List.Nodup
import Mathlib.Data.List.Count

variable {α κ : Type*} [LinearOrder κ]

-- How a database evaluates a query that it is asked again and again. Each time anew it chooses the
-- order of the rows that agree in the sort key.
structure Evaluation (key : α → κ) where
  order  : Nat → List α → List α
  perm   : ∀ n rows, (order n rows).Perm rows
  sorted : ∀ n rows, (order n rows).Pairwise (key · ≤ key ·)

-- The `n`-th evaluation under `LIMIT limit OFFSET offset`.
def Evaluation.select {key : α → κ} (e : Evaluation key) (n limit offset : Nat) (rows : List α) :
    List α :=
  ((e.order n rows).drop offset).take limit

theorem Evaluation.select_subset {key : α → κ} (e : Evaluation key) (n limit offset : Nat)
    (rows : List α) : e.select n limit offset rows ⊆ rows := by
  intro x hm
  exact (e.perm n rows).mem_iff.mp <| List.mem_of_mem_drop <| List.mem_of_mem_take hm

-- The first `n` pages, one after the other. Each is the answer of a query of its own, which is given
-- its number and its offset.
def pages (query : Nat → Nat → List α) (limit n : Nat) : List α :=
  (List.range n).flatMap fun k => query k (k * limit)

-- The pages have each row once, by the sort key.
def VisitsOnce (key : α → κ) (query : Nat → Nat → List α) (limit : Nat) (rows : List α) : Prop :=
  ∀ n, rows.length ≤ n * limit →
    (pages query limit n).Perm rows ∧ (pages query limit n).Pairwise (key · ≤ key ·)

-- For every row, those that agree with it in the sort key all belong on the same page.
def TiesFit (key : α → κ) (limit : Nat) (rows : List α) : Prop :=
  ∀ x ∈ rows, rows.countP (key · < key x) / limit = (rows.countP (key · ≤ key x) - 1) / limit

instance [DecidableEq α] (key : α → κ) (limit : Nat) (rows : List α) :
    Decidable (TiesFit key limit rows) :=
  inferInstanceAs <| Decidable (∀ x ∈ rows, _)

variable {key : α → κ} {l l' rows : List α} {limit m k n : Nat}

section Sorted

-- What lies below a bound comes first.
theorem sorted_split (hl : l.Pairwise (key · ≤ key ·)) {p : α → Bool}
    (hp : ∀ a b, key a ≤ key b → p b → p a) : l = l.filter p ++ l.filter (!p ·) := by
  induction l
  case nil => rfl
  case cons x l hi =>
    obtain ⟨hx, hl⟩ := List.pairwise_cons.mp hl
    cases hpx : p x
    case true  => simpa [hpx] using hi hl
    case false =>
      have hnone : ∀ y ∈ l, p y = false := by
        intro y hy
        by_contra h
        exact absurd (hp x y (hx y hy) (by simpa using h)) (by simp [hpx])
      have hnil : l.filter p = [] := List.filter_eq_nil_iff.mpr fun y hy => by simp [hnone y hy]
      have hall : l.filter (!p ·) = l := List.filter_eq_self.mpr fun y hy => by simp [hnone y hy]
      simp [hpx, hnil, hall]

theorem le_of_lt_countP (hl : l.Pairwise (key · ≤ key ·)) {c : κ} (h : m < l.countP (key · ≤ c))
    (hm : m < l.length) : key l[m] ≤ c := by
  have hs := sorted_split (p := (key · ≤ c)) hl fun a b hab hb => by
    simp only [decide_eq_true_eq] at hb ⊢
    exact hab.trans hb
  rw [List.countP_eq_length_filter] at h
  have hmem : l[m] ∈ l.filter (key · ≤ c) := by
    rw [List.getElem_of_eq hs, List.getElem_append_left h]
    exact List.getElem_mem h
  simpa using List.of_mem_filter hmem

theorem le_of_countP_le (hl : l.Pairwise (key · ≤ key ·)) {c : κ} (h : l.countP (key · < c) ≤ m)
    (hm : m < l.length) : c ≤ key l[m] := by
  have hs := sorted_split (p := (key · < c)) hl fun a b hab hb => by
    simp only [decide_eq_true_eq] at hb ⊢
    exact hab.trans_lt hb
  rw [List.countP_eq_length_filter] at h
  have hmem : l[m] ∈ l.filter fun x => !decide (key x < c) := by
    rw [List.getElem_of_eq hs, List.getElem_append_right h]
    exact List.getElem_mem _
  simpa using List.of_mem_filter hmem

theorem filter_lt_of_boundary {ps qs : List α} {y : α} (hq : (y :: qs).Pairwise (key · ≤ key ·))
    (hb : ∀ x ∈ ps, key x < key y) : (ps ++ y :: qs).filter (key · < key y) = ps := by
  have hps : ps.filter (key · < key y) = ps :=
    List.filter_eq_self.mpr fun x hx => by simpa using hb x hx
  have hqs : (y :: qs).filter (key · < key y) = [] := by
    refine List.filter_eq_nil_iff.mpr <| List.forall_mem_cons.mpr ⟨by simp, fun x hx => ?_⟩
    simpa using List.pairwise_cons.mp hq |>.left x hx
  rw [List.filter_append, hps, hqs, List.append_nil]

-- A strict boundary is met by the same rows, however they are ordered.
theorem take_perm (hl : l.Pairwise (key · ≤ key ·)) (hl' : l'.Pairwise (key · ≤ key ·))
    (hp : l.Perm l') (hb : ∀ x ∈ l.take m, ∀ y ∈ l.drop m, key x < key y) :
    (l.take m).Perm (l'.take m) := by
  cases hd : l.drop m
  case nil =>
    have hm : l.length ≤ m := List.drop_eq_nil_iff.mp hd
    rwa [List.take_of_length_le hm, List.take_of_length_le (hp.length_eq ▸ hm)]
  case cons y qs =>
    rw [hd] at hb
    have hy : ∀ x ∈ l.take m, key x < key y := fun x hx => hb x hx y List.mem_cons_self
    have hbelow : l.filter (key · < key y) = l.take m := by
      conv_lhs => rw [← List.take_append_drop m l, hd]
      exact filter_lt_of_boundary (hd ▸ hl.sublist (List.drop_sublist m l)) hy
    have hlen : (l'.filter (key · < key y)).length = m := by
      have hm : m < l.length := by
        by_contra hm
        rw [List.drop_of_length_le (not_lt.mp hm)] at hd
        cases hd
      rw [← (hp.filter _).length_eq, hbelow, List.length_take, min_eq_left hm.le]
    have hs' := sorted_split (p := (key · < key y)) hl' fun a b hab hb => by
      simp only [decide_eq_true_eq] at hb ⊢
      exact hab.trans_lt hb
    have htake : l'.take m = l'.filter (key · < key y) := by
      conv_lhs => rw [hs']
      exact List.take_left' hlen
    rw [htake, ← hbelow]
    exact hp.filter _

end Sorted

section TiesFit

theorem TiesFit.perm (h : TiesFit key limit rows) (hp : l.Perm rows) : TiesFit key limit l := by
  intro x hx
  rw [hp.countP_eq, hp.countP_eq]
  exact h x (hp.mem_iff.mp hx)

-- Between two pages the key grows strictly.
theorem TiesFit.boundary (h : TiesFit key limit l) (hl : l.Pairwise (key · ≤ key ·))
    (hlimit : 0 < limit) (k : Nat) :
    ∀ x ∈ l.take (k * limit), ∀ y ∈ l.drop (k * limit), key x < key y := by
  intro x hx y hy
  have hparts := List.take_append_drop (k * limit) l
  have hcross : ∀ a ∈ l.take (k * limit), ∀ b ∈ l.drop (k * limit), key a ≤ key b :=
    List.pairwise_append.mp (hparts.symm ▸ hl) |>.right.right
  refine lt_of_le_of_ne (hcross x hx y hy) fun he => ?_
  have hlen : (l.take (k * limit)).length = k * limit := by
    rw [List.length_take, min_eq_left]
    by_contra hm
    rw [List.drop_of_length_le (not_le.mp hm).le] at hy
    cases hy
  have hbelow : l.countP (key · < key x) < k * limit := by
    have hdrop : (l.drop (k * limit)).countP (key · < key x) = 0 :=
      List.countP_eq_zero.mpr fun b hb => by simpa using hcross x hx b hb
    have htake : (l.take (k * limit)).countP (key · < key x) < (l.take (k * limit)).length := by
      refine List.countP_le_length.lt_of_ne fun hall => ?_
      simpa using List.countP_eq_length.mp hall x hx
    rw [← hparts, List.countP_append, hdrop]
    omega
  have habove : k * limit < l.countP (key · ≤ key x) := by
    have htake : (l.take (k * limit)).countP (key · ≤ key x) = (l.take (k * limit)).length :=
      List.countP_eq_length.mpr fun a ha => by simpa [he] using hcross a ha y hy
    have hdrop : 0 < (l.drop (k * limit)).countP (key · ≤ key x) :=
      List.countP_pos_iff.mpr ⟨y, hy, by simp [he]⟩
    rw [← hparts, List.countP_append]
    omega
  have hpage := h x (List.mem_of_mem_take hx)
  have hlo : l.countP (key · < key x) / limit < k := Nat.div_lt_of_lt_mul (Nat.mul_comm k limit ▸ hbelow)
  have hhi : k ≤ (l.countP (key · ≤ key x) - 1) / limit := (Nat.le_div_iff_mul_le hlimit).mpr (by omega)
  omega

theorem countP_lt_countP_le {z : α} (hz : z ∈ l) :
    l.countP (key · < key z) < l.countP (key · ≤ key z) := by
  obtain ⟨ps, qs, rfl⟩ := List.append_of_mem hz
  have hmono (l : List α) : l.countP (key · < key z) ≤ l.countP (key · ≤ key z) :=
    List.countP_mono_left fun x _ hx => by simpa using (of_decide_eq_true hx).le
  have hps := hmono ps
  have hqs := hmono qs
  simp only [List.countP_append, List.countP_cons, lt_irrefl, le_refl, decide_true, decide_false]
  simp only [reduceIte, Bool.false_eq_true]
  omega

-- Where the ties do not fit, two neighbours in the sorted list are on two pages.
theorem exists_straddling (h : ¬TiesFit key limit l) (hl : l.Pairwise (key · ≤ key ·))
    (hlimit : 0 < limit) :
    ∃ k ps x y qs, l = ps ++ x :: y :: qs ∧ key x = key y ∧ ps.length + 1 = k * limit := by
  simp only [TiesFit, not_forall] at h
  obtain ⟨z, hz, hne⟩ := h
  have hlt : l.countP (key · < key z) < l.countP (key · ≤ key z) := countP_lt_countP_le hz
  have hlen : l.countP (key · ≤ key z) ≤ l.length := List.countP_le_length
  generalize hk : (l.countP (key · ≤ key z) - 1) / limit = k at hne
  have hfirst : l.countP (key · < key z) / limit < k := by
    refine lt_of_le_of_ne (hk ▸ Nat.div_le_div_right ?_) hne
    omega
  have hbegin : l.countP (key · < key z) < k * limit := (Nat.div_lt_iff_lt_mul hlimit).mp hfirst
  have hend : k * limit ≤ l.countP (key · ≤ key z) - 1 := hk ▸ Nat.div_mul_le_self ..
  obtain ⟨m, hm⟩ : ∃ m, k * limit = m + 1 := ⟨k * limit - 1, by omega⟩
  have hx : m < l.length := by omega
  have hy : m + 1 < l.length := by omega
  have hkey {i : Nat} (hi : i < l.length) (hlo : l.countP (key · < key z) ≤ i)
      (hhi : i < l.countP (key · ≤ key z)) : key l[i] = key z :=
    le_antisymm (le_of_lt_countP hl hhi hi) (le_of_countP_le hl hlo hi)
  refine ⟨k, l.take m, l[m], l[m + 1], l.drop (m + 2), ?_, ?_, ?_⟩
  · rw [← List.drop_eq_getElem_cons hy, ← List.drop_eq_getElem_cons hx, List.take_append_drop]
  · rw [hkey hx (by omega) (by omega), hkey hy (by omega) (by omega)]
  · rw [List.length_take, hm]
    omega

-- Rows that differ in the key are never tied.
theorem TiesFit.of_nodup (h : (rows.map key).Nodup) (limit : Nat) : TiesFit key limit rows := by
  intro x hx
  obtain ⟨ps, qs, rfl⟩ := List.append_of_mem hx
  have hne : ∀ z ∈ ps ++ qs, key z ≠ key x := by
    intro z hz he
    rw [List.map_append, List.map_cons, List.nodup_middle, List.nodup_cons, ← List.map_append] at h
    exact h.left (he ▸ List.mem_map_of_mem hz)
  have hsame (l : List α) (hl : ∀ z ∈ l, z ∈ ps ++ qs) :
      l.countP (key · ≤ key x) = l.countP (key · < key x) := by
    refine List.countP_congr fun z hz => ?_
    simp [le_iff_lt_or_eq, hne z (hl z hz)]
  have hps := hsame ps fun z hz => List.mem_append_left _ hz
  have hqs := hsame qs fun z hz => List.mem_append_right _ hz
  simp [hps, hqs]

end TiesFit

section Pages

theorem pages_succ (query : Nat → Nat → List α) :
    pages query limit (n + 1) = pages query limit n ++ query n (n * limit) := by
  simp [pages, List.range_succ]

-- Pages that are cut out of one list follow on from each other.
theorem pages_add {query : Nat → Nat → List α} (k : Nat)
    (h : ∀ i, k ≤ i → query i (i * limit) = (l.drop (i * limit)).take limit) (n : Nat) :
    pages query limit (k + n) = pages query limit k ++ (l.drop (k * limit)).take (n * limit) := by
  induction n
  case zero => simp
  case succ n hi =>
    rw [← Nat.add_assoc, pages_succ, hi, h (k + n) (Nat.le_add_right ..), List.append_assoc,
      Nat.add_mul k n, ← List.drop_drop, ← List.take_add, Nat.succ_mul]

theorem VisitsOnce.map {β : Type*} {key' : β → κ} {f : α → β} (hf : ∀ x, key' (f x) = key x)
    {query : Nat → Nat → List α} (h : VisitsOnce key query limit rows) :
    VisitsOnce key' (fun n offset => (query n offset).map f) limit (rows.map f) := by
  intro n hn
  have hpages : pages (fun n offset => (query n offset).map f) limit n =
      (pages query limit n).map f := by
    simp [pages, List.map_flatMap]
  obtain ⟨hp, hs⟩ := h n (by simpa using hn)
  rw [hpages]
  exact ⟨hp.map f, List.pairwise_map.mpr <| by simpa only [hf] using hs⟩

namespace Evaluation

variable (e : Evaluation key)

theorem pages_perm (h : TiesFit key limit rows) (hlimit : 0 < limit) (n : Nat) :
    (pages (fun n offset => e.select n limit offset rows) limit n).Perm
      ((e.order 0 rows).take (n * limit)) := by
  -- Up to a boundary between pages all evaluations have returned the same rows.
  have hsame (i j k : Nat) : ((e.order i rows).take (k * limit)).Perm
      ((e.order j rows).take (k * limit)) :=
    take_perm (e.sorted i rows) (e.sorted j rows) ((e.perm i rows).trans (e.perm j rows).symm)
      ((h.perm (e.perm i rows)).boundary (e.sorted i rows) hlimit k)
  induction n
  case zero => simp [pages]
  case succ n hi =>
    rw [pages_succ]
    refine .trans ?_ (hsame n 0 (n + 1))
    rw [Nat.succ_mul, List.take_add]
    exact (hi.trans (hsame 0 n n)).append_right _

theorem map_key_order (i j : Nat) : (e.order i rows).map key = (e.order j rows).map key := by
  have hp : ((e.order i rows).map key).Perm ((e.order j rows).map key) :=
    ((e.perm i rows).trans (e.perm j rows).symm).map key
  exact hp.eq_of_pairwise (fun _ _ _ _ => le_antisymm) (List.pairwise_map.mpr (e.sorted i rows))
    (List.pairwise_map.mpr (e.sorted j rows))

-- The keys come in their order in any case.
theorem pages_sorted (limit n : Nat) (rows : List α) :
    (pages (fun n offset => e.select n limit offset rows) limit n).Pairwise (key · ≤ key ·) := by
  have hkeys : (pages (fun n offset => e.select n limit offset rows) limit n).map key =
      ((e.order 0 rows).map key).take (n * limit) := by
    induction n
    case zero => simp [pages]
    case succ n hi =>
      rw [pages_succ, List.map_append, hi, Nat.succ_mul, List.take_add, select, List.map_take,
        List.map_drop, e.map_key_order n 0]
  have hs := List.pairwise_map.mpr (e.sorted 0 rows)
  rw [← List.pairwise_map (R := (· ≤ ·)), hkeys]
  exact hs.sublist (List.take_sublist ..)

-- Two orders that are told apart by nothing but two neighbours which agree in the key: one of them
-- is for the evaluations before the `k`-th, and the other one for all that follow.
noncomputable def swapping (key : α → κ) (rows l l' : List α) (k : Nat)
    (h : l.Perm rows ∧ l.Pairwise (key · ≤ key ·)) (h' : l'.Perm rows ∧ l'.Pairwise (key · ≤ key ·)) :
    Evaluation key := by
  classical
  exact {
    order n rows' :=
      if rows' = rows then if n < k then l else l' else rows'.insertionSort (key · ≤ key ·)
    perm n rows' := by
      split
      case isTrue he => subst he; split <;> simp [h, h']
      case isFalse   => exact List.perm_insertionSort ..
    sorted n rows' := by
      split
      case isTrue  => split <;> simp [h, h']
      case isFalse =>
        have : IsTrans α (key · ≤ key ·) := ⟨fun _ _ _ => le_trans⟩
        have : Std.Total (α := α) (key · ≤ key ·) := ⟨fun _ _ => le_total ..⟩
        exact List.pairwise_insertionSort .. }

theorem pages_swapping {l l' : List α} {h h'} (k n : Nat) (hn : rows.length ≤ (k + n) * limit) :
    pages (fun n offset => (swapping key rows l l' k h h').select n limit offset rows) limit (k + n) =
      l.take (k * limit) ++ l'.drop (k * limit) := by
  have horder (i : Nat) : (swapping key rows l l' k h h').order i rows = if i < k then l else l' := by
    simp [swapping]
  have hbefore : ∀ n ≤ k, pages (fun n offset =>
      (swapping key rows l l' k h h').select n limit offset rows) limit n = l.take (n * limit) := by
    intro n hnk
    induction n
    case zero => simp [pages]
    case succ n hi =>
      rw [pages_succ, hi (by omega), select, horder, if_pos (by omega), Nat.succ_mul, List.take_add]
  have hafter : ∀ i, k ≤ i → (swapping key rows l l' k h h').select i limit (i * limit) rows =
      (l'.drop (i * limit)).take limit := by
    intro i hki
    rw [select, horder, if_neg (by omega)]
  have hrest : (l'.drop (k * limit)).length ≤ n * limit := by
    rw [List.length_drop, h'.left.length_eq]
    have := Nat.add_mul k n limit
    omega
  rw [pages_add k hafter, hbefore k le_rfl, List.take_of_length_le hrest]

-- With ties on two pages, one of the two rows at the boundary may be seen twice.
theorem exists_not_visitsOnce (hrows : rows.Nodup) (hlimit : 0 < limit)
    (hfit : ¬TiesFit key limit rows) :
    ∃ e : Evaluation key, ¬VisitsOnce key (e.select · limit · rows) limit rows := by
  have : IsTrans α (key · ≤ key ·) := ⟨fun _ _ _ => le_trans⟩
  have : Std.Total (α := α) (key · ≤ key ·) := ⟨fun _ _ => le_total ..⟩
  have hp : (rows.insertionSort (key · ≤ key ·)).Perm rows := List.perm_insertionSort ..
  have hs : (rows.insertionSort (key · ≤ key ·)).Pairwise (key · ≤ key ·) :=
    List.pairwise_insertionSort ..
  have hfit' : ¬TiesFit key limit (rows.insertionSort (key · ≤ key ·)) :=
    fun hfit' => hfit (hfit'.perm hp.symm)
  obtain ⟨k, ps, x, y, qs, hl, hxy, hk⟩ := exists_straddling hfit' hs hlimit
  rw [hl] at hp hs
  have hp' : (ps ++ y :: x :: qs).Perm rows := ((List.Perm.swap ..).append_left ps).trans hp
  have hs' : (ps ++ y :: x :: qs).Pairwise (key · ≤ key ·) := by
    rw [← List.pairwise_map (R := (· ≤ ·))] at hs ⊢
    simpa [hxy] using hs
  refine ⟨swapping key rows _ _ k ⟨hp, hs⟩ ⟨hp', hs'⟩, fun h => ?_⟩
  have hn : rows.length ≤ (k + rows.length) * limit :=
    (Nat.le_mul_of_pos_right _ hlimit).trans (Nat.mul_le_mul_right _ (Nat.le_add_left ..))
  have htwice := (h _ hn).left
  have htake : (ps ++ x :: y :: qs).take (k * limit) = ps ++ [x] := by
    rw [← hk, List.take_length_add_append]
    rfl
  have hdrop : (ps ++ y :: x :: qs).drop (k * limit) = x :: qs := by
    rw [← hk, List.drop_length_add_append]
    rfl
  rw [pages_swapping k rows.length hn, htake, hdrop, List.append_assoc] at htwice
  exact absurd (htwice.nodup_iff.mpr hrows) (by simp [List.nodup_append])

-- Whatever the database does the pages have each row once, precisely if no ties straddle them.
theorem visitsOnce_iff (hrows : rows.Nodup) (hlimit : 0 < limit) :
    (∀ e : Evaluation key, VisitsOnce key (e.select · limit · rows) limit rows) ↔
      TiesFit key limit rows := by
  constructor
  case mp =>
    intro h
    by_contra hfit
    obtain ⟨e, he⟩ := exists_not_visitsOnce hrows hlimit hfit
    exact he (h e)
  case mpr =>
    intro h e n hn
    refine ⟨?_, e.pages_sorted limit n rows⟩
    refine (e.pages_perm h hlimit n).trans ?_
    rw [List.take_of_length_le ((e.perm 0 rows).length_eq ▸ hn)]
    exact e.perm 0 rows

end Evaluation

end Pages

section Growing

variable {tables : Nat → List α} {c : κ}

theorem countP_le_eq_add (l : List α) (key : α → κ) (c : κ) :
    l.countP (key · ≤ c) = l.countP (key · < c) + l.countP (key · = c) := by
  induction l
  case nil => rfl
  case cons x l hi =>
    simp only [List.countP_cons, hi, decide_eq_true_eq]
    rcases lt_trichotomy (key x) c with h | h | h
    · simp only [h.le, h, h.ne, if_true, if_false]
      omega
    · simp only [h, le_refl, lt_irrefl, if_true, if_false]
      omega
    · simp [not_le.mpr h, h.not_gt, h.ne']

-- A row whose key no other has stands where the smaller keys leave it.
theorem Evaluation.exists_mem_select (e : Evaluation key) (hc : rows.countP (key · = c) = 1)
    {offset : Nat} (h₀ : offset ≤ rows.countP (key · < c))
    (h₁ : rows.countP (key · < c) < offset + limit) :
    ∃ x ∈ e.select n limit offset rows, key x = c := by
  have hle := countP_le_eq_add rows key c
  rw [hc, ← (e.perm n rows).countP_eq, ← (e.perm n rows).countP_eq] at hle
  rw [← (e.perm n rows).countP_eq] at h₀ h₁
  have hs := e.sorted n rows
  unfold select
  generalize e.order n rows = l at hs hle h₀ h₁
  have hm : l.countP (key · < c) < l.length := by
    have := l.countP_le_length (p := (key · ≤ c))
    omega
  refine ⟨l[l.countP (key · < c)], ?_, ?_⟩
  · rw [List.mem_take_iff_getElem]
    refine ⟨l.countP (key · < c) - offset, by rw [List.length_drop]; omega, ?_⟩
    simp only [List.getElem_drop, Nat.add_sub_cancel' h₀]
  · exact le_antisymm (le_of_lt_countP hs (by omega) hm) (le_of_countP_le hs le_rfl hm)

omit [LinearOrder κ] in
theorem subperm_of_growing (hgrow : ∀ k, ((tables k).map key).Subperm ((tables (k + 1)).map key))
    {i j : Nat} (h : i ≤ j) : ((tables i).map key).Subperm ((tables j).map key) := by
  induction j, h using Nat.le_induction
  case base        => exact .refl _
  case succ j _ hi => exact hi.trans (hgrow j)

-- Rows are added between one page and the next, and none is removed: the rows that come in push the
-- others back, so that none of them slips through.
theorem Evaluation.shown_of_growing (e : Evaluation key)
    (hgrow : ∀ k, ((tables k).map key).Subperm ((tables (k + 1)).map key))
    (hfirst : ∃ x ∈ tables 0, key x = c) (hlast : (tables n).countP (key · = c) ≤ 1)
    (hlength : (tables n).length ≤ (n + 1) * limit) :
    ∃ k ≤ n, ∃ x ∈ e.select k limit (k * limit) (tables k), key x = c := by
  have hcount (p : κ → Bool) {i j : Nat} (h : i ≤ j) :
      (tables i).countP (fun x => p (key x)) ≤ (tables j).countP fun x => p (key x) := by
    simpa only [List.countP_map, Function.comp_def] using (subperm_of_growing hgrow h).countP_le p
  have hone (k : Nat) (hk : k ≤ n) : (tables k).countP (key · = c) = 1 := by
    refine le_antisymm ((hcount (· = c) hk).trans hlast) (.trans ?_ (hcount (· = c) (Nat.zero_le k)))
    obtain ⟨x, hx, rfl⟩ := hfirst
    exact List.countP_pos_iff.mpr ⟨x, hx, by simp⟩
  by_contra hn
  push Not at hn
  -- A row that is not on the page is behind it.
  have hpage (k : Nat) (hk : k ≤ n) (h : k * limit ≤ (tables k).countP (key · < c)) :
      (k + 1) * limit ≤ (tables k).countP (key · < c) := by
    by_contra hlt
    rw [not_le, Nat.succ_mul] at hlt
    obtain ⟨x, hx, hc⟩ := e.exists_mem_select (n := k) (hone k hk) h hlt
    exact hn k hk x hx hc
  have hahead (k : Nat) (hk : k ≤ n) : k * limit ≤ (tables k).countP (key · < c) := by
    induction k
    case zero      => simp
    case succ k hi => exact (hpage k (by omega) (hi (by omega))).trans (hcount (· < c) k.le_succ)
  have hle := countP_le_eq_add (tables n) key c
  have := (tables n).countP_le_length (p := (key · ≤ c))
  have := hpage n le_rfl (hahead n le_rfl)
  have := hone n le_rfl
  omega

-- The same for a table whose rows may change, but not in what the query reads of them.
theorem Evaluation.shown_of_kept {ρ ι : Type*} [Keyed ρ ι] [DecidableEq ι] {key : ρ → κ}
    (e : Evaluation key) (tables : Nat → Table ρ) (p : ρ → Bool)
    (hkept : ∀ i j, i ≤ j → ∀ id r, (tables i).get id = some r →
      ∃ r', (tables j).get id = some r' ∧ p r' = p r ∧ key r' = key r)
    {r : ρ} (hr : r ∈ tables 0) (hp : p r)
    (hunique : ∀ r' ∈ tables n, p r' → key r' = key r → Keyed.key r' = Keyed.key r)
    (hlength : (tables n).rows.countP p ≤ (n + 1) * limit) :
    ∃ k ≤ n, ∃ r' ∈ e.select k limit (k * limit) ((tables k).rows.filter p),
      Keyed.key r' = Keyed.key r := by
  have hlast : ((tables n).rows.filter p).countP (key · = key r) ≤ 1 := by
    have hsub : (((tables n).rows.filter p).filter (key · = key r)).map Keyed.key ⊆
        [Keyed.key r] := by
      intro id hid
      obtain ⟨r', hm, rfl⟩ := List.mem_map.mp hid
      obtain ⟨hm, hkey⟩ := List.mem_filter.mp hm
      obtain ⟨hm, hp'⟩  := List.mem_filter.mp hm
      exact List.mem_singleton.mpr <| hunique r' hm hp' (by simpa using hkey)
    have hnodup : ((((tables n).rows.filter p).filter (key · = key r)).map Keyed.key).Nodup :=
      ((List.filter_sublist.trans List.filter_sublist).map Keyed.key).nodup (tables n).unique
    simpa [List.countP_eq_length_filter] using (hnodup.subperm hsub).length_le
  obtain ⟨k, hk, r', hm, hkey⟩ := e.shown_of_growing
    (c := key r) (fun k => Table.subperm_of_kept (hkept k (k + 1) k.le_succ))
    ⟨r, List.mem_filter.mpr ⟨hr, hp⟩, rfl⟩ hlast (by rwa [← List.countP_eq_length_filter])
  refine ⟨k, hk, r', hm, ?_⟩
  -- What is shown is still there at the end, where the key tells the rows apart.
  obtain ⟨hrow, hp'⟩ := List.mem_filter.mp <| e.select_subset k _ _ _ hm
  obtain ⟨r'', hg, hp'', hkey''⟩ := hkept k n hk _ r' (Table.mem_iff_get.mp hrow)
  exact (Table.key_of_get hg).symm.trans <|
    hunique r'' (Table.mem_of_get hg) (hp''.trans hp') (hkey''.trans hkey)

end Growing
