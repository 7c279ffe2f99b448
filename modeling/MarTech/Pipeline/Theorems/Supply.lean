import MarTech.Pipeline.Storage
import MarTech.Pipeline.Theorems.Handling

set_option mvcgen.warning false

namespace MarTech.Worker

open Std.Do

variable {R : Type}

-- The sequence gives out a key that is not taken.
def Fresh (a : Await R) (db : Db R) : Prop :=
  db.dlqEvents.get a.dlqId = none

-- As many calls are left. None of them raises by itself, no key is given out twice, and `E` holds of
-- each of them and of all tables that it can come upon.
structure Supplied (E : Await R → Db R → Prop) (n : Nat) (w : World R) : Prop where
  enough : n ≤ w.awaits.length
  fault  : ∀ a ∈ w.awaits, a.fault = none
  meets  : ∀ a ∈ w.awaits, ∀ db ∈ w.db :: a.before, E a db
  later  : w.awaits.Pairwise fun a b => a.dlqId ≠ b.dlqId ∧ ∀ db ∈ a.before, E b db

-- The same while `a` is awaited.
structure Awaited (E : Await R → Db R → Prop) (a : Await R) (n : Nat) (w : World R) : Prop
    extends Supplied E n w where
  met : E a w.db
  own : ∀ b ∈ w.awaits, a.dlqId ≠ b.dlqId

-- A transaction takes no key but the one that it is given.
def TakesOwn {α : Type} (body : Await R → Db R → Outcome R α) : Prop :=
  ∀ a b db db' x, body a db = .committed db' x → a.dlqId ≠ b.dlqId → Fresh b db → Fresh b db'

section Calls

variable {E : Await R → Db R → Prop} {P : World R → Prop} {n : Nat}

theorem Supplied.mono {E' : Await R → Db R → Prop} {m : Nat} {w : World R} (h : Supplied E n w)
    (hE : ∀ a db, E a db → E' a db) (hm : m ≤ n) : Supplied E' m w where
  enough := hm.trans h.enough
  fault  := h.fault
  meets a ha db hdb := hE a db (h.meets a ha db hdb)
  later  := h.later.imp fun h => ⟨h.left, fun db hdb => hE _ db (h.right db hdb)⟩

theorem Supplied.observe {w : World R} (h : Supplied E n w) (o : Observation R) :
    Supplied E n { w with trace := w.trace ++ [o] } :=
  { h with }

-- What a session commits leaves the keys of the calls to come untaken.
theorem Awaited.commit {α : Type} {body : Await R → Db R → Outcome R α} {a : Await R} {w : World R}
    {db : Db R} {x : α} (h : Awaited E a n w) (hE : ∀ a db, E a db → Fresh a db)
    (hb : TakesOwn body) (e : body a w.db = .committed db x) :
    Supplied Fresh n { w with db := db, trace := w.trace ++ [.tables db] } where
  enough := h.enough
  fault  := h.fault
  later  := h.later.imp fun h => ⟨h.left, fun db hdb => hE _ db (h.right db hdb)⟩
  meets b hm db' hdb' := by
    have hmeets := List.forall_mem_cons.mp (h.meets b hm)
    cases hdb'
    case head          => exact hb a b w.db db x e (h.own b hm) (hE b _ hmeets.left)
    case tail hbefore  => exact hE b db' (hmeets.right db' hbefore)

theorem commits_supplied (hP : Unaffected P) (a : Await R) (dbs : List (Db R)) :
    ⦃fun w => ⌜P w ∧ Awaited E a n w ∧ ∀ db ∈ dbs, E a db ∧ ∀ b ∈ w.awaits, E b db⌝⦄
    commits dbs
    ⦃post⟨fun _ w => ⌜P w ∧ Awaited E a n w⌝, fun _ _ => ⌜False⌝⟩⦄ := by
  induction dbs
  case nil =>
    mvcgen [commits]
    case vc1 h => exact ⟨h.left, h.right.left⟩
  case cons db dbs hi =>
    mvcgen [commits, commit, hi]
    case vc1 h _ =>
      obtain ⟨hp, ha, hall⟩ := h
      obtain ⟨⟨hdb, hothers⟩, hdbs⟩ := List.forall_mem_cons.mp hall
      refine ⟨hP.commit _ db hp, { ha with meets := fun b hb => ?_, met := hdb }, hdbs⟩
      have hmeets := List.forall_mem_cons.mp (ha.meets b hb)
      exact List.forall_mem_cons.mpr ⟨hothers b hb, hmeets.right⟩

theorem suspend_supplied (hP : Unaffected P) :
    ⦃fun w => ⌜P w ∧ Supplied E (n + 1) w⌝⦄ (suspend : Worker R (Await R))
    ⦃post⟨fun a w => ⌜P w ∧ a.fault = none ∧ Awaited E a n w⌝, fun _ _ => ⌜False⌝⟩⦄ := by
  have hcommits := @commits_supplied _ E P n hP
  mvcgen [suspend, hcommits]
  case vc1.h_1 h e => simpa [e] using h.right.enough
  case vc3.h_2.pre h a as e _ =>
    obtain ⟨hp, henough, hfault, hmeets, hlater⟩ := h
    rw [e] at henough hfault hmeets hlater
    obtain ⟨hfirst, hmeets⟩ := List.forall_mem_cons.mp hmeets
    obtain ⟨hdb, hbefore⟩ := List.forall_mem_cons.mp hfirst
    obtain ⟨hown, hlater⟩ := List.pairwise_cons.mp hlater
    refine ⟨hP.suspend _ as hp, ?_, fun db hm => ⟨hbefore db hm, fun b hb => (hown b hb).right db hm⟩⟩
    exact {
      enough := Nat.le_of_succ_le_succ henough
      fault  := (List.forall_mem_cons.mp hfault).right
      meets  := hmeets
      later  := hlater
      met    := hdb
      own b hb := (hown b hb).left }
  case vc4.h_2.post.success hw a as e _ _ _ h =>
    exact ⟨h.left, hw.right.fault a (e ▸ List.mem_cons_self), h.right⟩

theorem call_supplied {α : Type} (hP : Unaffected P) (x : Await R → α) :
    ⦃fun w => ⌜P w ∧ Supplied E (n + 1) w⌝⦄ call x
    ⦃post⟨fun _ w => ⌜P w ∧ Supplied E n w⌝, fun _ _ => ⌜False⌝⟩⦄ := by
  have hsuspend := @suspend_supplied _ E P n hP
  mvcgen [call, hsuspend, resume]
  case vc2.post.success.h_1 h     => exact ⟨h.left, h.right.right.toSupplied⟩
  case vc3.post.success.h_2 e _ h => simp [h.right.left] at e

-- A session with nothing in its way raises just if its transaction does.
theorem session_supplied {α : Type} (hP : Unaffected P) {body : Await R → Db R → Outcome R α}
    (hE : ∀ a db, E a db → Fresh a db) (hb : TakesOwn body) :
    ⦃fun w => ⌜P w ∧ Supplied E (n + 1) w⌝⦄ session body
    ⦃post⟨fun x w => ⌜P w ∧ Supplied Fresh n w ∧ (∃ a, Took (body a) x (Watch.of w.trace).instants) ∧
            ∃ a db, E a db ∧ ∀ error, body a db ≠ .raised error⌝,
          fun exn w => ⌜P w ∧ Supplied E n w ∧
            ∃ a db error, E a db ∧ exn = .exception error ∧ body a db = .raised error⌝⟩⦄ := by
  have hsuspend := @suspend_supplied _ E P n hP
  mvcgen [session, hsuspend, resume, commit]
  case vc2.post.success.h_1 e _ h => simp [h.right.left] at e
  case vc3.post.success.h_2.h_1 a _ _ _ w h error e =>
    exact ⟨h.left, h.right.right.toSupplied, a, w.db, error, h.right.right.met, rfl, e⟩
  case vc4.post.success.h_2.h_2.h_1 a _ _ _ w h x e _ =>
    exact ⟨h.left, h.right.right.mono hE le_rfl, ⟨a, hP.returned h.left e⟩, a, w.db, h.right.right.met,
      by simp [e]⟩
  case vc5.post.success.h_2.h_2.h_2 h _ _ _ e => simp [h.right.left] at e
  case vc6.post.success.h_2.h_3.h_1 a _ _ _ w h db x e _ _ =>
    exact ⟨hP.commit _ db h.left, h.right.right.commit hE hb e, ⟨a, hP.committed h.left e⟩, a, w.db,
      h.right.right.met, by simp [e]⟩
  case vc7.post.success.h_2.h_3.h_2 h _ _ _ _ _ e => simp [h.right.left] at e

end Calls

section Retrying

variable [Runtime] {payload : Json.Object} {E : Await R → Db R → Prop} {limit : Nat}
         {process : Await R → Db R → Outcome R Unit}
         {fail : Error → Nat → Await R → Db R → Outcome R Unit}

-- Where `E` holds, one of the two transactions can do without raising.
def Passes (E : Await R → Db R → Prop) (process : Await R → Db R → Outcome R Unit)
    (fail : Error → Nat → Await R → Db R → Outcome R Unit) : Prop :=
  ∃ a db, E a db ∧ ((∀ error, process a db ≠ .raised error) ∨
    ∃ error retries, ∀ error', fail error retries a db ≠ .raised error')

-- Where `E` holds, both of them can raise.
def Blocks (E : Await R → Db R → Prop) (process : Await R → Db R → Outcome R Unit)
    (fail : Error → Nat → Await R → Db R → Outcome R Unit) : Prop :=
  (∃ a db error, E a db ∧ process a db = .raised error) ∧
    ∃ a db error error' retries, E a db ∧ fail error retries a db = .raised error'

variable (process fail)

-- The loop over the attempts ends without an exception only if one of the two transactions does not
-- raise, and with one only if both do.
theorem retrying_supplied (p : Place) (hE : ∀ a db, E a db → Fresh a db)
    (hprocess : ∀ a instants, Took (process a) () instants → Durable payload instants)
    (hfail : ∀ error retries a instants, Took (fail error retries a) () instants →
      Durable payload instants)
    (hp : TakesOwn process) (hf : ∀ error retries, TakesOwn (fail error retries))
    (numbers : List Nat) (hm : limit ∈ numbers) (hl : p.made + numbers.length ≤ p.limit) {n : Nat} :
    ⦃fun w => ⌜At p w ∧ Supplied E (2 * numbers.length + n) w⌝⦄
    retrying limit (session process) (fun error retries => session (fail error retries)) p.index
      numbers
    ⦃post⟨fun _ w => ⌜At p.exhausted w ∧ Supplied Fresh n w ∧
            Durable payload (Watch.of w.trace).instants ∧ Passes E process fail⌝,
          fun _ _ => ⌜Blocks E process fail⌝⟩⦄ := by
  induction numbers generalizing p
  case nil => simp at hm
  case cons number rest hi =>
    have hlt : p.made < p.limit := by simp at hl; omega
    have hattempt := @session_supplied _ E (At p.attempted) (2 * rest.length + n + 1) Unit
      (At.unaffected _) process hE hp
    have hfailed error retries := @session_supplied _ E (At p.attempted) (2 * rest.length + n) Unit
      (At.unaffected _) (fail error retries) hE (hf error retries)
    have hsleep := @call_supplied _ E (At p.attempted) (2 * rest.length + n) Unit (At.unaffected _)
    have hi (h : ¬number = limit) := by
      refine hi p.attempted (List.mem_of_ne_of_mem (Ne.symm h) hm) ?_
      simp [Place.attempted] at hl ⊢
      omega
    have hexhausted : ∀ w, At p.attempted w → At (R := R) p.exhausted w := fun _ h => h.exhausted hlt
    mvcgen [retrying, observe, sleep, hattempt, hfailed, hsleep]
    case vc1.pre h _ =>
      refine ⟨h.left.attempted hlt, (h.right.observe _).mono (fun _ _ => id) ?_⟩
      simp
      omega
    case vc2.post.success =>
      rintro h hs ⟨a, ht⟩ ⟨a', db, he, hr⟩
      exact ⟨hexhausted _ h, hs.mono (fun _ _ => id) (by omega), hprocess a _ ht, a', db, he, .inl hr⟩
    case vc3.post.except.handle.h_1 h =>
      obtain ⟨_, _, _, _, e, _⟩ := h.right.right
      cases e
    case vc4.post.except.handle.h_2.isTrue.pre h  => exact ⟨h.left, h.right.left⟩
    case vc7.post.except.handle.h_2.isFalse.pre h => exact ⟨h.left, h.right.left⟩
    case vc5.post.except.handle.h_2.isTrue.post.success =>
      rintro h hs ⟨a, ht⟩ ⟨a', db, he, hr⟩
      refine ⟨hexhausted _ h, hs.mono (fun _ _ => id) (by omega), hfail _ _ a _ ht, ?_⟩
      exact ⟨a', db, he, .inr ⟨_, _, hr⟩⟩
    case vc6.post.except.handle.h_2.isTrue.post.except.handle h _ _ =>
      rintro _ _ ⟨a', db', error', he', _, hf⟩
      obtain ⟨a, db, error, he, _, hp⟩ := h.right.right
      exact ⟨⟨a, db, error, he, hp⟩, a', db', _, error', _, he', hf⟩
    case vc8.post.except.handle.h_2.isFalse.post.success hn _ _ =>
      exact fun w h hs => hi hn w ⟨h, hs⟩

end Retrying

section Lasting

-- What holds of the worker whatever happens to the messages from the index `first` on.
structure Lasting (first : Nat) (P : World R → Prop) : Prop extends Unaffected P where
  attempted : ∀ w index, first ≤ index → P w → P { w with trace := w.trace ++ [.attempted index] }
  raised    : ∀ w index, first ≤ index → P w → P { w with trace := w.trace ++ [.raised index] }

variable {P : World R → Prop} {first index : Nat} (process : Await R → Db R → Outcome R Unit)
         (fail : Error → Nat → Await R → Db R → Outcome R Unit)

theorem retrying_lasting (hP : Lasting first P) (hl : first ≤ index) (limit : Nat)
    (numbers : List Nat) :
    ⦃fun w => ⌜P w⌝⦄
    retrying limit (session process) (fun error retries => session (fail error retries)) index numbers
    ⦃post⟨fun _ w => ⌜P w⌝, fun _ w => ⌜P w⌝⟩⦄ := by
  have hsession := @session_spec _ P Unit hP.toUnaffected
  have hcall := @call_spec _ P Unit hP.toUnaffected
  induction numbers
  case nil => mvcgen [retrying]
  case cons hi =>
    mvcgen [retrying, observe, sleep, hsession, hcall, hi]
    case vc1.pre h _                                    => exact hP.attempted _ index hl h
    case vc2.post.success                               => exact fun h _ => h
    case vc5.post.except.handle.h_2.isTrue.post.success => exact fun h _ => h

end Lasting
end MarTech.Worker
