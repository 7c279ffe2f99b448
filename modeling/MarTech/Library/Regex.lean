import Mathlib.Data.List.Pairwise

universe u v

-- A position in a text, with what is before it in reverse.
@[ext]
structure Cursor (α : Type u) where
  before : List α
  after  : List α
deriving DecidableEq

structure Span (α : Type u) where
  start : Cursor α
  stop  : Cursor α
deriving DecidableEq

-- The text between the two positions.
def Span.text {α : Type u} (s : Span α) : List α :=
  s.start.after.take (s.stop.before.length - s.start.before.length)

namespace Cursor

variable {α : Type u} {β : Type v}

def atStart (text : List α) : Cursor α where
  before := []
  after  := text

def index (c : Cursor α) : Nat :=
  c.before.length

-- Whether `p` holds of the character that follows.
def sees (c : Cursor α) (p : α → Bool) : Bool :=
  c.after.head?.any p

-- Whether `p` holds of the character that precedes.
def saw (c : Cursor α) (p : α → Bool) : Bool :=
  c.before.head?.any p

def next (c : Cursor α) : Cursor α :=
  match c with
  | ⟨before, []⟩         => ⟨before, []⟩
  | ⟨before, x :: after⟩ => ⟨x :: before, after⟩

def skipWhile (p : α → Bool) (c : Cursor α) : Cursor α where
  before := (c.after.takeWhile p).reverse ++ c.before
  after  := c.after.dropWhile p

def positionsFrom : List α → List α → List (Cursor α)
  | before, []         => [⟨before, []⟩]
  | before, x :: after => ⟨before, x :: after⟩ :: positionsFrom (x :: before) after

def positions (text : List α) : List (Cursor α) :=
  positionsFrom [] text

section Sees

variable {p q : α → Bool} {c : Cursor α}

theorem sees_imp (hpq : ∀ x, p x → q x) (h : c.sees p) : c.sees q := by
  obtain ⟨x, hx, hp⟩ := Option.any_eq_true _ _ |>.mp h
  exact Option.any_eq_true _ _ |>.mpr ⟨x, hx, hpq x hp⟩

theorem not_sees_imp (hpq : ∀ x, p x → q x) (h : c.sees q = false) : c.sees p = false := by
  apply Bool.eq_false_iff.mpr
  intro hp
  simp [sees_imp hpq hp] at h

theorem not_sees_of_sees (hpq : ∀ x, p x → q x = false) (h : c.sees p) : c.sees q = false := by
  obtain ⟨x, hx, hp⟩ := Option.any_eq_true _ _ |>.mp h
  simp [sees, hx, hpq x hp]

theorem not_saw_of_saw (hpq : ∀ x, p x → q x = false) (h : c.saw p) : c.saw q = false := by
  obtain ⟨x, hx, hp⟩ := Option.any_eq_true _ _ |>.mp h
  simp [saw, hx, hpq x hp]

theorem saw_next (h : c.sees p) : c.next.saw p := by
  obtain ⟨before, after⟩ := c
  cases after
  case nil  => simp [sees] at h
  case cons => simpa [saw, next, sees] using h

end Sees

section SkipWhile

variable {p : α → Bool} {c : Cursor α}

theorem skipWhile_cons (before after : List α) (x : α) :
    skipWhile p ⟨before, x :: after⟩ =
      if p x then skipWhile p ⟨x :: before, after⟩ else ⟨before, x :: after⟩ := by
  cases h : p x <;> simp [skipWhile, h]

theorem skipWhile_next (h : c.sees p) : c.next.skipWhile p = c.skipWhile p := by
  obtain ⟨before, after⟩ := c
  cases after
  case nil       => simp [sees] at h
  case cons x xs =>
    have hx : p x := by simpa [sees] using h
    simp [next, skipWhile_cons, hx]

theorem skipWhile_append (before after : List α) {w : List α} (h : ∀ x ∈ w, p x) :
    skipWhile p ⟨before, w ++ after⟩ = skipWhile p ⟨w.reverse ++ before, after⟩ := by
  induction w generalizing before
  case nil => rfl
  case cons x w hi =>
    obtain ⟨hx, h⟩ := List.forall_mem_cons.mp h
    rw [List.cons_append, skipWhile_cons, if_pos hx, hi (x :: before) h]
    simp

theorem skipWhile_of_not_sees (h : c.sees p = false) : c.skipWhile p = c := by
  obtain ⟨before, after⟩ := c
  cases after
  case nil       => rfl
  case cons x xs =>
    have hx : p x = false := by simpa [sees] using h
    simp [skipWhile_cons, hx]

-- A class takes what a smaller one leaves of it.
theorem skipWhile_skipWhile {q : α → Bool} (hpq : ∀ x, p x → q x) (c : Cursor α) :
    (c.skipWhile p).skipWhile q = c.skipWhile q := by
  obtain ⟨before, after⟩ := c
  induction after generalizing before
  case nil => rfl
  case cons x xs hi =>
    rw [skipWhile_cons (p := p)]
    split
    case isFalse   => rfl
    case isTrue hx => rw [hi, skipWhile_cons (p := q) before, if_pos (hpq x hx)]

theorem skipWhile_not_sees (c : Cursor α) : (c.skipWhile p).sees p = false := by
  simp only [sees, skipWhile]
  cases h : c.after.dropWhile p
  case nil       => rfl
  case cons x xs =>
    have := List.head?_dropWhile_not p c.after
    simpa [h] using this

theorem length_skipWhile_le (c : Cursor α) : (c.skipWhile p).after.length ≤ c.after.length :=
  List.dropWhile_suffix p |>.length_le

-- How much text there is does not depend on the position in it.
theorem index_skipWhile (c : Cursor α) :
    (c.skipWhile p).index + (c.skipWhile p).after.length = c.index + c.after.length := by
  have h := congrArg List.length (List.takeWhile_append_dropWhile (p := p) (l := c.after))
  simp only [List.length_append] at h
  simp only [index, skipWhile, List.length_append, List.length_reverse]
  omega

theorem index_next (c : Cursor α) :
    c.next.index + c.next.after.length = c.index + c.after.length := by
  obtain ⟨before, after⟩ := c
  cases after
  case nil  => rfl
  case cons => simp only [next, index, List.length_cons]; omega

theorem length_next_le (c : Cursor α) : c.next.after.length ≤ c.after.length := by
  obtain ⟨before, after⟩ := c
  cases after <;> simp [next]

theorem length_next (h : c.sees p) : c.next.after.length + 1 = c.after.length := by
  obtain ⟨before, after⟩ := c
  cases after
  case nil  => simp [sees] at h
  case cons => rfl

end SkipWhile

-- From a position to a later one, over positions of which `P` holds.
inductive Passes (P : Cursor α → Prop) : Cursor α → Cursor α → Prop
  | refl {c} : Passes P c c
  | step {before x after c} : P ⟨before, x :: after⟩ → Passes P ⟨x :: before, after⟩ c →
    Passes P ⟨before, x :: after⟩ c

namespace Passes

variable {P : Cursor α → Prop} {c c₁ c₂ c₃ : Cursor α}

theorem trans (h₁ : Passes P c₁ c₂) (h₂ : Passes P c₂ c₃) : Passes P c₁ c₃ := by
  induction h₁
  case refl          => exact h₂
  case step hp _ hi  => exact .step hp (hi h₂)

theorem next {p : α → Bool} (h : c.sees p) (hp : P c) : Passes P c c.next := by
  obtain ⟨before, after⟩ := c
  cases after
  case nil  => simp [sees] at h
  case cons => exact .step hp .refl

-- A run of characters is passed by an invariant of its positions.
theorem skipWhile {p : α → Bool} {I : Cursor α → Prop} (hc : I c)
    (hp : ∀ c : Cursor α, c.sees p → I c → P c) (hn : ∀ c : Cursor α, c.sees p → I c → I c.next) :
    Passes P c (c.skipWhile p) := by
  obtain ⟨before, after⟩ := c
  induction after generalizing before
  case nil => exact .refl
  case cons x xs hi =>
    rw [skipWhile_cons]
    split
    case isFalse   => exact .refl
    case isTrue hx =>
      have hs : sees ⟨before, x :: xs⟩ p := hx
      exact .step (hp _ hs hc) (hi (x :: before) (hn _ hs hc))

end Passes

section Scan

variable (m : Cursor α → Option (β × Cursor α))

def scanFrom : Nat → Cursor α → List β
  | 0, _     => []
  | n + 1, c =>
    match m c with
    | some (b, c') => b :: scanFrom n c'
    | none         => if c.after.isEmpty then [] else scanFrom n c.next

-- What `m` finds from left to right, where it always moves on past what it finds.
def scan (c : Cursor α) : List β :=
  scanFrom m c.after.length c

variable {m}

def Progress (m : Cursor α → Option (β × Cursor α)) : Prop :=
  ∀ c b c', m c = some (b, c') → c'.after.length < c.after.length

theorem scanFrom_eq (hm : Progress m) {n : Nat} {c : Cursor α} (h : c.after.length ≤ n) :
    scanFrom m n c = scan m c := by
  induction n using Nat.strongRecOn generalizing c
  case ind n hi =>
    obtain ⟨before, after⟩ := c
    cases n
    case zero =>
      have : after = [] := List.length_eq_zero_iff.mp (Nat.le_zero.mp h)
      simp [this, scan]
    case succ n =>
      cases after
      case nil =>
        cases hc : m ⟨before, []⟩
        case none        => simp [scan, scanFrom, hc]
        case some result =>
          have := hm _ _ _ hc
          simp at this
      case cons x after =>
        simp only [List.length_cons] at h
        simp only [scan, List.length_cons, scanFrom]
        split
        case h_1 b c' hc =>
          have := hm _ _ _ hc
          simp only [List.length_cons] at this
          rw [hi n (by omega) (by omega), hi after.length (by omega) (by omega)]
        case h_2 =>
          simp only [List.isEmpty_cons, Bool.false_eq_true, if_false]
          rw [hi n (by omega) (by simp [next]; omega), hi after.length (by omega) (by simp [next])]

theorem scan_some (hm : Progress m) {c c' : Cursor α} {b : β} (h : m c = some (b, c')) :
    scan m c = b :: scan m c' := by
  have hlt := hm c b c' h
  have : c.after.length = c.after.length - 1 + 1 := by omega
  rw [scan, this, scanFrom, h]
  exact congrArg (b :: ·) (scanFrom_eq hm (by omega))

theorem scan_none {before after : List α} {x : α}
    (h : m ⟨before, x :: after⟩ = none) :
    scan m ⟨before, x :: after⟩ = scan m ⟨x :: before, after⟩ := by
  simp [scan, scanFrom, h, next]

theorem scan_nil (before : List α) : scan m ⟨before, []⟩ = [] :=
  rfl

theorem scan_append {w : List α} {P : α → Prop} (hn : ∀ before x after, P x →
    m ⟨before, x :: after⟩ = none) (h : ∀ x ∈ w, P x) (before after : List α) :
    scan m ⟨before, w ++ after⟩ = scan m ⟨w.reverse ++ before, after⟩ := by
  induction w generalizing before
  case nil => rfl
  case cons x w hi =>
    obtain ⟨hx, h⟩ := List.forall_mem_cons.mp h
    rw [List.cons_append, scan_none (hn _ _ _ hx), hi h]
    simp

theorem scan_passes {c c' : Cursor α} (h : Passes (m · = none) c c') :
    scan m c = scan m c' := by
  induction h
  case refl          => rfl
  case step hc _ hi  => rw [scan_none hc, hi]

-- Induction along the way that a scan takes.
theorem scan_ind (hm : Progress m) {P : Cursor α → Prop} (nil : ∀ before, P ⟨before, []⟩)
    (skip : ∀ before x after, m ⟨before, x :: after⟩ = none → P ⟨x :: before, after⟩ →
      P ⟨before, x :: after⟩)
    (take : ∀ c b c', m c = some (b, c') → P c' → P c) (c : Cursor α) : P c := by
  generalize hn : c.after.length = n
  induction n using Nat.strongRecOn generalizing c
  case ind n hi =>
    obtain ⟨before, after⟩ := c
    cases after
    case nil => exact nil before
    case cons x after =>
      cases hc : m ⟨before, x :: after⟩
      case none        => exact skip before x after hc <| hi after.length (by simp [← hn]) _ rfl
      case some result =>
        have hlt := hm _ _ _ hc
        exact take _ _ _ hc <| hi _ (hn ▸ hlt) _ rfl

-- What is found is found in order, and without overlaps.
theorem scan_ordered {lo hi : β → Nat} (hm : Progress m)
    (h : ∀ c b c', m c = some (b, c') → c.index ≤ lo b ∧ lo b < hi b ∧ hi b ≤ c'.index)
    (c : Cursor α) :
    (∀ b ∈ scan m c, c.index ≤ lo b ∧ lo b < hi b) ∧ (scan m c).Pairwise (hi · ≤ lo ·) := by
  refine scan_ind hm (P := fun c => (∀ b ∈ scan m c, c.index ≤ lo b ∧ lo b < hi b) ∧
    (scan m c).Pairwise (hi · ≤ lo ·)) ?_ ?_ ?_ c
  case refine_1 => simp [scan_nil]
  case refine_2 =>
    intro before x after hn hi
    rw [scan_none hn]
    refine ⟨fun b hb => ?_, hi.right⟩
    have := hi.left b hb
    simp only [index, List.length_cons] at this ⊢
    exact ⟨by omega, this.right⟩
  case refine_3 =>
    intro c b c' hc hi
    obtain ⟨hlo, hlt, hhi⟩ := h c b c' hc
    rw [scan_some hm hc, List.pairwise_cons]
    refine ⟨fun b' hb' => ?_, fun b' hb' => ?_, hi.right⟩
    case refine_1 =>
      cases hb'
      case head    => exact ⟨hlo, hlt⟩
      case tail hb' =>
        have := hi.left b' hb'
        exact ⟨by omega, this.right⟩
    case refine_2 => exact Nat.le_trans hhi (hi.left b' hb').left

-- So what is found at a place is determined.
theorem scan_unique (lo hi : β → Nat) (hm : Progress m)
    (h : ∀ c b c', m c = some (b, c') → c.index ≤ lo b ∧ lo b < hi b ∧ hi b ≤ c'.index)
    {c : Cursor α} {a b : β} (ha : a ∈ scan m c) (hb : b ∈ scan m c) (hl : lo a ≤ lo b)
    (hh : lo b < hi a) : a = b := by
  obtain ⟨hlt, hp⟩ := scan_ordered hm h c
  by_contra hne
  have : Std.Symm fun a b : β => hi a ≤ lo b ∨ hi b ≤ lo a := ⟨fun _ _ => Or.symm⟩
  have hp : (scan m c).Pairwise fun a b => hi a ≤ lo b ∨ hi b ≤ lo a := hp.imp .inl
  have hor := hp.forall ha hb hne
  have := hlt b hb
  omega

theorem scan_forall {Q : β → Prop} (hm : Progress m)
    (h : ∀ c b c', m c = some (b, c') → Q b) (c : Cursor α) : ∀ b ∈ scan m c, Q b := by
  refine scan_ind hm (P := fun c => ∀ b ∈ scan m c, Q b) ?_ ?_ ?_ c
  case refine_1 => simp [scan_nil]
  case refine_2 =>
    intro before x after hn hi
    rwa [scan_none hn]
  case refine_3 =>
    intro c b c' hc hi
    rw [scan_some hm hc]
    exact List.forall_mem_cons.mpr ⟨h c b c' hc, hi⟩

end Scan
end Cursor

-- The patterns of a backtracking matcher, with one capturing group.
inductive Regex (α : Type u)
  | empty
  | start
  | sat (p : α → Bool)
  | notBehind (p : α → Bool)
  | boundary (p : α → Bool)
  | group (r : Regex α)
  | seq (r s : Regex α)
  | alt (r s : Regex α)
  | many (r : Regex α)

-- A way to match: where it stops, and what its group has captured.
structure Hit (α : Type u) where
  cursor : Cursor α
  group  : Option (Span α)
deriving DecidableEq

namespace Regex

variable {α : Type u}

def opt (r : Regex α) : Regex α :=
  alt r empty

def plus (r : Regex α) : Regex α :=
  seq r (many r)

-- One pattern after another.
def concat : List (Regex α) → Regex α
  | []      => empty
  | [r]     => r
  | r :: rs => seq r (concat rs)

def oneOf : List (Regex α) → Regex α
  | []      => empty
  | [r]     => r
  | r :: rs => alt r (oneOf rs)

-- A repetition that takes as much as it can, and only repeats what is not empty.
def iterate (step : Hit α → List (Hit α)) : Nat → Hit α → List (Hit α)
  | 0, h     => [h]
  | n + 1, h =>
    ((step h).filter (·.cursor.after.length < h.cursor.after.length)).flatMap (iterate step n) ++ [h]

-- The ways to match, in the order in which backtracking tries them.
def run : Regex α → Hit α → List (Hit α)
  | empty, h       => [h]
  | start, h       => if h.cursor.before.isEmpty then [h] else []
  | sat p, h       => if h.cursor.sees p then [{ h with cursor := h.cursor.next }] else []
  | notBehind p, h => if h.cursor.saw p then [] else [h]
  | boundary p, h  => if h.cursor.saw p = h.cursor.sees p then [] else [h]
  | group r, h     => (run r h).map fun h' => { h' with group := some ⟨h.cursor, h'.cursor⟩ }
  | seq r s, h     => (run r h).flatMap (run s)
  | alt r s, h     => run r h ++ run s h
  | many r, h      => iterate (run r) h.cursor.after.length h

-- The match at a position is the first way to match there.
def first (r : Regex α) (c : Cursor α) : Option (Hit α) :=
  (r.run ⟨c, none⟩).head?

def search (r : Regex α) (text : List α) : Bool :=
  Cursor.positions text |>.any fun c => (r.first c).isSome

def matchStart (r : Regex α) (text : List α) : Bool :=
  (r.first <| .atStart text).isSome

def find (r : Regex α) (c : Cursor α) : Option (Option (Span α) × Cursor α) :=
  (r.first c).map fun h => (h.group, h.cursor)

-- What the group of a pattern captures in its matches from left to right. The pattern must not match
-- the empty text.
def finditer (r : Regex α) (text : List α) : List (Span α) :=
  Cursor.scan r.find (.atStart text) |>.filterMap id

section Specs

variable {p : α → Bool} {r s : Regex α} {h h' : Hit α}

theorem run_empty : (empty : Regex α).run h = [h] :=
  rfl

theorem run_sat_of_sees (hs : h.cursor.sees p) :
    (sat p).run h = [{ h with cursor := h.cursor.next }] :=
  if_pos hs

theorem run_sat_of_not_sees (hs : h.cursor.sees p = false) : (sat p).run h = [] :=
  if_neg (by simp [hs])

theorem run_notBehind : (notBehind p).run h = if h.cursor.saw p then [] else [h] :=
  rfl

theorem run_group :
    (group r).run h = (r.run h).map fun h' => { h' with group := some ⟨h.cursor, h'.cursor⟩ } :=
  rfl

theorem run_seq : (seq r s).run h = (r.run h).flatMap s.run :=
  rfl

theorem run_alt : (alt r s).run h = r.run h ++ s.run h :=
  rfl

theorem run_many : (many r).run h = iterate r.run h.cursor.after.length h :=
  rfl

theorem iterate_succ (step : Hit α → List (Hit α)) (n : Nat) :
    iterate step (n + 1) h =
      ((step h).filter (·.cursor.after.length < h.cursor.after.length)).flatMap (iterate step n)
        ++ [h] :=
  rfl

theorem head?_run_sat (hs : h.cursor.sees p) :
    ((sat p).run h).head? = some { h with cursor := h.cursor.next } := by
  simp [run_sat_of_sees hs]

theorem mem_run_sat (hm : h' ∈ (sat p).run h) :
    h.cursor.sees p ∧ h' = { h with cursor := h.cursor.next } := by
  cases hs : h.cursor.sees p
  case true  => exact ⟨rfl, List.mem_singleton.mp <| run_sat_of_sees hs ▸ hm⟩
  case false => simp [run_sat_of_not_sees hs] at hm

theorem mem_run_notBehind (hm : h' ∈ (notBehind p).run h) : h.cursor.saw p = false ∧ h' = h := by
  rw [run_notBehind] at hm
  split at hm
  case isTrue    => simp at hm
  case isFalse hs => exact ⟨Bool.eq_false_iff.mpr hs, List.mem_singleton.mp hm⟩

theorem mem_run_group (hm : h' ∈ (group r).run h) : ∃ m ∈ r.run h, h'.cursor = m.cursor := by
  obtain ⟨m, hm, e⟩ := List.mem_map.mp hm
  exact ⟨m, hm, e ▸ rfl⟩

theorem first_eq_none {c : Cursor α} (hr : ∀ h, h ∉ r.run ⟨c, none⟩) : r.first c = none :=
  List.head?_eq_none_iff.mpr <| List.eq_nil_iff_forall_not_mem.mpr hr

theorem mem_run_seq : h' ∈ (seq r s).run h ↔ ∃ m ∈ r.run h, h' ∈ s.run m :=
  List.mem_flatMap

-- If the first way to match `r` can be completed, it is completed.
theorem head?_run_seq {m : Hit α} (hr : (r.run h).head? = some m) (hs : (s.run m).head? = some h') :
    ((seq r s).run h).head? = some h' := by
  cases hrun : r.run h
  case nil => simp [hrun] at hr
  case cons m' ms =>
    simp only [hrun, List.head?_cons, Option.some.injEq] at hr
    simp [run_seq, hrun, hr, List.head?_append, hs]

theorem mem_run_opt : h' ∈ (opt r).run h ↔ h' ∈ r.run h ∨ h' = h := by
  simp [opt, run_alt, run_empty]

theorem mem_run_concat {rs : List (Regex α)} (hm : h' ∈ (concat (r :: rs)).run h) :
    ∃ m ∈ r.run h, h' ∈ (concat rs).run m := by
  cases rs
  case nil  => exact ⟨h', hm, List.mem_singleton.mpr rfl⟩
  case cons => exact mem_run_seq.mp hm

theorem mem_run_oneOf {rs : List (Regex α)} (hn : rs ≠ []) (hm : h' ∈ (oneOf rs).run h) :
    ∃ r ∈ rs, h' ∈ r.run h := by
  induction rs
  case nil => exact absurd rfl hn
  case cons r rs hi =>
    cases rs
    case nil  => exact ⟨r, List.mem_singleton.mpr rfl, hm⟩
    case cons =>
      cases List.mem_append.mp hm
      case inl hm => exact ⟨r, List.mem_cons_self, hm⟩
      case inr hm =>
        obtain ⟨r', hr', hm⟩ := hi (List.cons_ne_nil _ _) hm
        exact ⟨r', List.mem_cons_of_mem _ hr', hm⟩

theorem head?_run_group {m : Hit α} (hr : (r.run h).head? = some m) :
    ((group r).run h).head? = some { m with group := some ⟨h.cursor, m.cursor⟩ } := by
  simp [run_group, List.head?_map, hr]

theorem head?_run_alt {m : Hit α} (hr : (r.run h).head? = some m) :
    ((alt r s).run h).head? = some m := by
  simp [run_alt, List.head?_append, hr]

theorem head?_run_opt_of_nil (hr : r.run h = []) : ((opt r).run h).head? = some h := by
  simp [opt, run_alt, run_empty, hr]

theorem iterate_of_sees {n : Nat} (hs : h.cursor.sees p) :
    iterate (sat p).run (n + 1) h =
      iterate (sat p).run n { h with cursor := h.cursor.next } ++ [h] := by
  have hlen := Cursor.length_next hs
  have hlt : h.cursor.next.after.length < h.cursor.after.length := by omega
  simp [iterate_succ, run_sat_of_sees hs, hlt]

theorem iterate_of_not_sees (n : Nat) (hs : h.cursor.sees p = false) :
    iterate (sat p).run n h = [h] := by
  cases n
  case zero   => rfl
  case succ n => simp [iterate_succ, run_sat_of_not_sees hs]

-- A repeated class takes at first everything that it can take.
theorem head?_run_many_sat :
    ((many (sat p)).run h).head? = some { h with cursor := h.cursor.skipWhile p } := by
  rw [run_many]
  generalize hn : h.cursor.after.length = n
  induction n generalizing h
  case zero =>
    have hs : h.cursor.sees p = false := by
      simp [Cursor.sees, List.length_eq_zero_iff.mp hn]
    simp [iterate_of_not_sees 0 hs, Cursor.skipWhile_of_not_sees hs]
  case succ n hi =>
    cases hs : h.cursor.sees p
    case false => simp [iterate_of_not_sees _ hs, Cursor.skipWhile_of_not_sees hs]
    case true  =>
      have hlen := Cursor.length_next hs
      rw [iterate_of_sees hs, List.head?_append, hi (by simp; omega), Cursor.skipWhile_next hs]
      rfl

-- What one repetition preserves, any number of them preserves.
theorem mem_run_many {I : Hit α → Hit α → Prop} (refl : ∀ h, I h h)
    (step : ∀ h m h', m ∈ r.run h → I m h' → I h h') (hm : h' ∈ (many r).run h) : I h h' := by
  rw [run_many] at hm
  generalize h.cursor.after.length = n at hm
  induction n generalizing h
  case zero      => exact List.mem_singleton.mp hm ▸ refl _
  case succ n hi =>
    simp only [iterate_succ, List.mem_append, List.mem_flatMap, List.mem_filter, List.mem_singleton] at hm
    cases hm
    case inl hm =>
      obtain ⟨m, ⟨hr, _⟩, hm⟩ := hm
      exact step h m h' hr (hi hm)
    case inr hm => exact hm ▸ refl _

-- Whatever a repeated class takes, it could still go on to the same position.
theorem mem_run_many_sat (hm : h' ∈ (many (sat p)).run h) :
    h'.cursor.skipWhile p = h.cursor.skipWhile p := by
  refine mem_run_many (I := fun h h' => h'.cursor.skipWhile p = h.cursor.skipWhile p) ?_ ?_ hm
  case refine_1 => exact fun _ => rfl
  case refine_2 =>
    intro h m h' hr hi
    obtain ⟨hs, e⟩ := mem_run_sat hr
    exact hi.trans (e ▸ Cursor.skipWhile_next hs)

theorem mem_run_plus_sat (hm : h' ∈ (plus (sat p)).run h) : h'.cursor.saw p := by
  obtain ⟨m, hm₁, hm⟩ := mem_run_seq.mp hm
  obtain ⟨hs, e⟩ := mem_run_sat hm₁
  refine mem_run_many (I := fun h h' => h.cursor.saw p → h'.cursor.saw p) ?_ ?_ hm ?_
  case refine_1 => exact fun _ => id
  case refine_2 =>
    intro h m h' hm hi _
    obtain ⟨hs, e⟩ := mem_run_sat hm
    exact hi (e ▸ Cursor.saw_next hs)
  case refine_3 => exact e ▸ Cursor.saw_next hs

end Specs
end Regex
