import Mathlib.Algebra.Order.BigOperators.Group.List
import Mathlib.Algebra.Order.Group.Unbundled.Basic
import Mathlib.Algebra.Order.Ring.Nat
import Mathlib.Data.List.Induction

-- What an account may be charged within a window of time.
structure Meter (α κ T : Type) where
  owner : α → κ
  time  : α → T
  cost  : α → Nat
  width : T
  limit : Nat

namespace Meter

variable {α κ T : Type} [DecidableEq κ] [AddCommGroup T] [LinearOrder T]

-- Whether `a` is a charge to the owner in the window that ends at `t`.
def counts (m : Meter α κ T) (owner : κ) (t : T) (a : α) : Bool :=
  m.owner a = owner ∧ t - m.width < m.time a ∧ m.time a ≤ t

def used (m : Meter α κ T) (log : List α) (owner : κ) (t : T) : Nat :=
  (log.filter (m.counts owner t)).map m.cost |>.sum

def fits (m : Meter α κ T) (log : List α) (a : α) : Prop :=
  m.used log (m.owner a) (m.time a) + m.cost a ≤ m.limit

instance (m : Meter α κ T) (log : List α) (a : α) : Decidable (m.fits log a) :=
  inferInstanceAs (Decidable (_ ≤ _))

-- The ideal limiter, which remembers everything that it has ever admitted.
def accept (m : Meter α κ T) (log : List α) (a : α) : List α :=
  if m.fits log a then log ++ [a] else log

def admitted (m : Meter α κ T) (as : List α) : List α :=
  as.foldl m.accept []

variable {m : Meter α κ T} {log as : List α} {a : α} {owner : κ} {t t' : T}

theorem used_concat (log : List α) (a : α) (owner : κ) (t : T) :
    m.used (log ++ [a]) owner t =
      m.used log owner t + if m.counts owner t a then m.cost a else 0 := by
  cases ha : m.counts owner t a <;> simp [used, ha]

theorem admitted_concat (as : List α) (a : α) :
    m.admitted (as ++ [a]) = m.accept (m.admitted as) a := by
  simp [admitted]

-- What does not fit leaves no trace.
theorem admitted_of_not_fits (h : ¬m.fits (m.admitted as) a) (later : List α) :
    m.admitted (as ++ a :: later) = m.admitted (as ++ later) := by
  have ha : m.accept (as.foldl m.accept []) a = as.foldl m.accept [] := if_neg h
  simp [admitted, ha]

theorem admitted_sublist (as : List α) : (m.admitted as).Sublist as := by
  induction as using List.reverseRecOn
  case nil => exact .slnil
  case append_singleton as a hi =>
    rw [admitted_concat, accept]
    split
    case isTrue  => exact hi.append_right [a]
    case isFalse => exact hi.trans <| List.sublist_append_left as [a]

variable [IsOrderedAddMonoid T]

-- Of what is charged by `t` less and less counts in the windows after it.
theorem used_le_used (hl : ∀ a ∈ log, m.time a ≤ t) (ht : t ≤ t') :
    m.used log owner t' ≤ m.used log owner t := by
  have h : log.filter (m.counts owner t') =
      (log.filter (m.counts owner t)).filter (m.counts owner t') := by
    rw [List.filter_filter]
    refine List.filter_congr fun a hm => Bool.eq_iff_iff.mpr ?_
    simp only [counts, Bool.decide_and, Bool.and_eq_true, decide_eq_true_eq]
    have hw : t - m.width ≤ t' - m.width := sub_le_sub_right ht m.width
    constructor
    case mp  => exact fun h => ⟨h, h.1, hw.trans_lt h.2.1, hl a hm⟩
    case mpr => exact And.left
  rw [used, h]
  exact List.filter_sublist.map m.cost |>.sum_le_sum fun _ _ => Nat.zero_le _

-- What fits when it is admitted fits in every window.
theorem used_admitted_le (hs : as.Pairwise (m.time · ≤ m.time ·)) (owner : κ) (t : T) :
    m.used (m.admitted as) owner t ≤ m.limit := by
  induction as using List.reverseRecOn
  case nil => exact Nat.zero_le _
  case append_singleton as a hi =>
    have hs := List.pairwise_append.mp hs
    have hi := hi hs.1
    rw [admitted_concat, accept]
    split
    case isFalse => exact hi
    case isTrue hfits =>
      rw [used_concat]
      split
      case isFalse => exact hi
      case isTrue ha =>
        obtain ⟨ho, -, ht⟩ : m.owner a = owner ∧ t - m.width < m.time a ∧ m.time a ≤ t := by
          simpa [counts] using ha
        have hl : ∀ a' ∈ m.admitted as, m.time a' ≤ m.time a := fun a' hm =>
          hs.2.2 a' (admitted_sublist as |>.subset hm) a (List.mem_singleton.mpr rfl)
        calc
          _ ≤ m.used (m.admitted as) owner (m.time a) + m.cost a :=
            Nat.add_le_add_right (used_le_used hl ht) _
          _ ≤ m.limit := ho ▸ hfits

end Meter
