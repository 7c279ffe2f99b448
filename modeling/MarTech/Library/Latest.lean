import Mathlib.Data.List.Induction
import Mathlib.Order.Bounds.Basic
import Mathlib.Order.MinMax

variable {α : Type*} [LinearOrder α]

-- The running maximum of an optional start and the values that follow it.
def latest (start : Option α) (xs : List α) : Option α :=
  xs.foldl (fun t x => some (t.elim x (max x))) start

namespace latest

variable {start : Option α} {x t : α} {xs ys : List α}

@[simp]
theorem nil : latest start [] = start :=
  rfl

@[simp]
theorem cons : latest start (x :: xs) = latest (some (start.elim x (max x))) xs :=
  rfl

theorem append : latest start (xs ++ ys) = latest (latest start xs) ys :=
  List.foldl_append

theorem some_eq (x : α) (xs : List α) : latest (some x) xs = some (xs.foldl max x) := by
  induction xs generalizing x
  case nil          => rfl
  case cons y xs hi => rw [cons, Option.elim_some, max_comm, hi, List.foldl_cons]

-- Starting from elsewhere makes the difference of one more maximum.
theorem foldl_max (h : latest none xs = some t) (x : α) : xs.foldl max x = max x t := by
  cases xs
  case nil       => cases h
  case cons y xs =>
    rw [cons, Option.elim_none, some_eq, Option.some.injEq] at h
    rw [List.foldl_cons, List.foldl_assoc, h]

theorem isSome_iff : (latest start xs).isSome ↔ start.isSome ∨ xs ≠ [] := by
  induction xs generalizing start
  case nil         => simp
  case cons _ _ hi => simp [hi]

theorem eq_some_iff :
    latest start xs = some t ↔ IsGreatest {t | start = some t ∨ t ∈ xs} t := by
  induction xs generalizing start
  case nil =>
    cases start <;> simp only [nil, reduceCtorEq, Option.some.injEq, List.not_mem_nil, or_false,
      Set.ofPred_false, IsGreatest, Set.mem_empty_iff_false, false_and]
    case some t₀ => exact ⟨fun h => h ▸ ⟨rfl, fun _ h => h ▸ le_rfl⟩, And.left⟩
  case cons x xs hi =>
    rw [cons, hi]
    cases start
    case none =>
      simp [eq_comm]
    case some t₀ =>
      simp only [Option.elim_some, Option.some.injEq, List.mem_cons, IsGreatest, mem_upperBounds,
        Set.mem_ofPred_eq]
      constructor <;> rintro ⟨hm, hb⟩ <;> constructor
      · rcases hm with rfl | hm
        · rcases max_choice x t₀ with h | h <;> simp [h]
        · exact .inr (.inr hm)
      · rintro u (rfl | rfl | hu)
        · exact le_max_right _ _ |>.trans <| hb _ (.inl rfl)
        · exact le_max_left _ _ |>.trans <| hb _ (.inl rfl)
        · exact hb u (.inr hu)
      · rcases hm with rfl | rfl | hm
        · exact .inl <| max_eq_right <| hb x (.inr (.inl rfl))
        · exact .inl <| max_eq_left <| hb t₀ (.inl rfl)
        · exact .inr hm
      · rintro u (rfl | hu)
        · exact max_le (hb x (.inr (.inl rfl))) (hb t₀ (.inl rfl))
        · exact hb u (.inr (.inr hu))

theorem perm (h : xs.Perm ys) : latest start xs = latest start ys := by
  ext t
  simp [eq_some_iff, h.mem_iff]

end latest

-- The last element of a sorted list that meets a condition is the greatest of those that do.
theorem find?_reverse_eq_some_iff {β : Type*} {key : β → α} {l : List β}
    (h : l.Pairwise (key · < key ·)) {p : β → Bool} {x : β} :
    l.reverse.find? p = some x ↔ x ∈ l ∧ p x ∧ ∀ y ∈ l, p y → key y ≤ key x := by
  induction l using List.reverseRec
  case nil => simp
  case append_singleton l z hi =>
    obtain ⟨hl, -, hz⟩ := List.pairwise_append.mp h
    have hz : ∀ y ∈ l, key y < key z := fun y hy => hz y hy z List.mem_cons_self
    rw [List.reverse_append, List.reverse_singleton, List.singleton_append, List.find?_cons]
    cases hp : p z
    case false =>
      simp only [hi hl, List.mem_append, List.mem_singleton]
      constructor
      case mp =>
        rintro ⟨hx, hpx, hmax⟩
        exact ⟨.inl hx, hpx, by rintro y (hy | rfl) hpy; exacts [hmax y hy hpy, by simp [hp] at hpy]⟩
      case mpr =>
        rintro ⟨hx | rfl, hpx, hmax⟩
        · exact ⟨hx, hpx, fun y hy => hmax y (.inl hy)⟩
        · simp [hp] at hpx
    case true =>
      simp only [List.mem_append, List.mem_singleton, Option.some.injEq]
      constructor
      case mp =>
        rintro rfl
        exact ⟨.inr rfl, hp, by rintro y (hy | rfl) -; exacts [(hz y hy).le, le_rfl]⟩
      case mpr =>
        rintro ⟨hx | rfl, -, hmax⟩
        · exact absurd (hmax z (.inr rfl) hp) (not_le.mpr (hz x hx))
        · rfl
