import MarTech.Library.Table

-- A transaction, as the statements that it sends one after another. `σ` are the tables, `L` are the
-- locks, and `ο` is what the client is told in the end.
inductive Program (σ L ο : Type)
  | rollback (outcome : ο)
  | commit (outcome : ο)
  -- The locks that the statement waits for, what it writes, and how the transaction goes on. All of
  -- them depend on the tables that the statement sees.
  | exec (locks : σ → List L) (write : σ → σ) (next : σ → Program σ L ο)
  -- `SELECT ... LIMIT ... FOR UPDATE SKIP LOCKED`, which goes on with the locks that it got.
  | skipLocked (wanted : σ → List L) (limit : Nat) (next : List L → σ → Program σ L ο)
  | savepoint (next : Program σ L ο)
  -- `ROLLBACK TO SAVEPOINT`.
  | undo (next : Program σ L ο)

variable {κ σ L ο : Type}

namespace Program

-- A statement that writes nothing.
def select (locks : σ → List L) (next : σ → Program σ L ο) : Program σ L ο :=
  exec locks (fun s => s) next

-- A statement whose result is not looked at.
def write (locks : List L) (write : σ → σ) (next : Program σ L ο) : Program σ L ο :=
  exec (fun _ => locks) write fun _ => next

-- The same statements, with another outcome.
def map {ο' : Type} (f : ο → ο') : Program σ L ο → Program σ L ο'
  | rollback outcome             => rollback (f outcome)
  | commit outcome               => commit (f outcome)
  | exec locks write next        => exec locks write fun s => (next s).map f
  | skipLocked wanted limit next => skipLocked wanted limit fun locks s => (next locks s).map f
  | savepoint next               => savepoint (next.map f)
  | undo next                    => undo (next.map f)

end Program

-- How far a transaction has come: its locks, and what it has written. The latter is visible to the
-- transaction alone until it commits.
structure Point (σ L : Type) where
  held  : List L
  write : σ → σ

def Point.start : Point σ L where
  held  := []
  write := fun s => s

-- A transaction under way.
structure Session (κ σ L ο : Type) where
  id    : Nat
  call  : κ
  now   : Point σ L
  saved : Point σ L
  rest  : Program σ L ο

instance : Keyed (Session κ σ L ο) Nat where
  key := Session.id

namespace Session

variable {ο' : Type}

def map (f : ο → ο') (session : Session κ σ L ο) : Session κ σ L ο' where
  id    := session.id
  call  := session.call
  now   := session.now
  saved := session.saved
  rest  := session.rest.map f

variable (f : ο → ο') (session : Session κ σ L ο)

@[simp] theorem map_id : (session.map f).id = session.id := rfl
@[simp] theorem map_call : (session.map f).call = session.call := rfl
@[simp] theorem map_now : (session.map f).now = session.now := rfl
@[simp] theorem map_saved : (session.map f).saved = session.saved := rfl
@[simp] theorem map_rest : (session.map f).rest = session.rest.map f := rfl

theorem key_map : Keyed.key (session.map f) = Keyed.key session :=
  rfl

end Session

-- The committed tables, the open transactions, and the calls that committed, in that order.
structure Server (κ σ L ο : Type) where
  committed : σ
  sessions  : Table (Session κ σ L ο)
  log       : List (κ × ο)

-- What can happen next: a client opens a transaction, or one that is open goes on or is aborted.
inductive Move (κ : Type)
  | start (id : Nat) (call : κ)
  | advance (id : Nat)
  | abort (id : Nat)

namespace Server

section

variable [DecidableEq L]

-- Whether another session holds one of the locks.
def busy (server : Server κ σ L ο) (id : Nat) (locks : List L) : Bool :=
  server.sessions.rows.any fun session => session.id ≠ id ∧ locks.any (· ∈ session.now.held)

def close (server : Server κ σ L ο) (id : Nat) : Server κ σ L ο :=
  { server with sessions := server.sessions.delete (·.id = id) }

def resume (server : Server κ σ L ο) (session : Session κ σ L ο) (now saved : Point σ L)
    (rest : Program σ L ο) : Server κ σ L ο :=
  { server with sessions := server.sessions.set { session with now, saved, rest } }

-- The next statement of a session sees what is committed by now and the session's own writes. It
-- does not run as long as a lock it waits for is held by another session.
def advance (server : Server κ σ L ο) (session : Session κ σ L ο) : Server κ σ L ο :=
  let now  := session.now
  let seen := now.write server.committed
  match session.rest with
  | .rollback _ => server.close session.id
  | .commit outcome =>
    { server.close session.id with
      committed := seen
      log       := server.log ++ [(session.call, outcome)] }
  | .exec locks write next =>
    if server.busy session.id (locks seen) then
      server
    else
      server.resume session ⟨now.held ++ locks seen, write ∘ now.write⟩ session.saved (next seen)
  | .skipLocked wanted limit next =>
    let locks := (wanted seen).filter (fun l => !server.busy session.id [l]) |>.take limit
    server.resume session { now with held := now.held ++ locks } session.saved (next locks seen)
  | .savepoint next => server.resume session now now next
  | .undo next      => server.resume session session.saved session.saved next

def move (program : κ → Program σ L ο) (server : Server κ σ L ο) : Move κ → Server κ σ L ο
  | .start id call =>
    { server with sessions := server.sessions.insert {
        id    := id
        call  := call
        now   := .start
        saved := .start
        rest  := program call } }
  | .advance id => (server.sessions.get id).elim server (advance server)
  | .abort id   => server.close id

def run (program : κ → Program σ L ο) (server : Server κ σ L ο) (moves : List (Move κ)) :
    Server κ σ L ο :=
  moves.foldl (move program) server

end

-- A server without open transactions.
def idle (s : σ) : Server κ σ L ο where
  committed := s
  sessions  := ∅
  log       := []

section Map

variable {ο' : Type}

-- The same server, where the clients are told something else.
def map (f : ο → ο') (server : Server κ σ L ο) : Server κ σ L ο' where
  committed := server.committed
  sessions  := server.sessions.map (Session.map f) (Session.key_map f)
  log       := server.log.map fun entry => (entry.1, f entry.2)

@[simp] theorem map_committed (f : ο → ο') (server : Server κ σ L ο) :
    (server.map f).committed = server.committed := rfl

variable {f : ο → ο'} {server : Server κ σ L ο}

theorem map_get (id : Nat) :
    (server.map f).sessions.get id = (server.sessions.get id).map (Session.map f) :=
  Table.get_map (Session.map f) (Session.key_map f) ..

section

variable [DecidableEq L]

theorem map_busy (id : Nat) (locks : List L) : (server.map f).busy id locks = server.busy id locks := by
  simp only [busy, map, Table.map, List.any_map]
  rfl

end

theorem map_close (id : Nat) : (server.close id).map f = (server.map f).close id := by
  have h := Table.map_delete (Session.map f) (Session.key_map f) server.sessions (·.id = id)
    (·.id = id) fun _ => rfl
  simp only [map, close, h]

theorem map_resume (session : Session κ σ L ο) (now saved : Point σ L) (rest : Program σ L ο) :
    (server.resume session now saved rest).map f =
      (server.map f).resume (session.map f) now saved (rest.map f) := by
  have h := Table.map_set (Session.map f) (Session.key_map f) server.sessions
    { session with now, saved, rest }
  simp only [map, resume, h]
  rfl

variable [DecidableEq L]

theorem map_advance (session : Session κ σ L ο) :
    (server.advance session).map f = (server.map f).advance (session.map f) := by
  cases h : session.rest <;> simp only [advance, h, Session.map_rest, Session.map_id,
    Session.map_now, Session.map_saved, Session.map_call, map_committed, map_busy, Program.map]
  case rollback => exact map_close session.id
  case commit outcome =>
    have h : (server.close session.id).map f = _ := map_close session.id
    simpa [map, close] using congrArg sessions h
  case exec locks write next =>
    split
    case isTrue  => rfl
    case isFalse => exact map_resume ..
  case skipLocked | savepoint | undo => exact map_resume ..

theorem map_move (program : κ → Program σ L ο) (m : Move κ) :
    (server.move program m).map f = (server.map f).move (fun call => (program call).map f) m := by
  cases m
  case start id call =>
    have h := Table.map_insert (Session.map f) (Session.key_map f) server.sessions
      ⟨id, call, .start, .start, program call⟩
    simp only [move, map, h]
    rfl
  case advance id =>
    simp only [move, map_get]
    cases server.sessions.get id
    case none         => rfl
    case some session => exact map_advance session
  case abort id => exact map_close id

-- What the clients are told makes no difference to what happens.
theorem map_run (program : κ → Program σ L ο) (moves : List (Move κ)) :
    (server.run program moves).map f = (server.map f).run (fun call => (program call).map f) moves := by
  induction moves generalizing server
  case nil => rfl
  case cons m moves hi =>
    simp only [run, List.foldl_cons] at hi ⊢
    rw [hi, map_move]

end Map

end Server

-- How the transactions of a server leave each other alone: what a lock keeps from changing, and
-- what no transaction changes at all.
structure Discipline (σ L : Type) where
  Guarded : L → σ → σ → Prop
  Always  : σ → σ → Prop

namespace Discipline

variable (rules : Discipline σ L)

-- A change that a transaction with the given locks may make.
structure Permits (held : List L) (s s' : σ) : Prop where
  guarded : ∀ l, l ∉ held → rules.Guarded l s s'
  always  : rules.Always s s'

-- An assertion which the changes of others cannot break while the locks are held.
def Stable (held : List L) (P : σ → Prop) : Prop :=
  ∀ s s', (∀ l ∈ held, rules.Guarded l s s') → rules.Always s s' → P s → P s'

-- From any tables of which `P` holds, each statement of the program establishes a stable assertion
-- for the next, and a commit is permitted and meets the specification. `P₀` is what held at the
-- savepoint.
def Safe (spec : ο → σ → σ → Prop) :
    Program σ L ο → (now saved : Point σ L) → (P P₀ : σ → Prop) → Prop
  | .rollback _, _, _, _, _ => True
  | .commit outcome, now, _, P, _ =>
    ∀ s, P s → spec outcome s (now.write s) ∧ rules.Permits now.held s (now.write s)
  | .exec locks write next, now, saved, P, P₀ =>
    ∀ s, P s →
      let seen := now.write s
      let now  := ⟨now.held ++ locks seen, write ∘ now.write⟩
      ∃ P', P' s ∧ rules.Stable now.held P' ∧ Safe spec (next seen) now saved P' P₀
  | .skipLocked wanted _ next, now, saved, P, P₀ =>
    ∀ s, P s → ∀ locks ⊆ wanted (now.write s),
      let seen := now.write s
      let now  := { now with held := now.held ++ locks }
      ∃ P', P' s ∧ rules.Stable now.held P' ∧ Safe spec (next locks seen) now saved P' P₀
  | .savepoint next, now, _, P, _ => Safe spec next now now P P
  | .undo next, _, saved, _, P₀   => Safe spec next saved saved P₀ P₀

variable {rules} {held held' : List L} {P Q : σ → Prop} {spec : ο → σ → σ → Prop}
         {now saved : Point σ L} {P₀ : σ → Prop}

theorem Stable.true : rules.Stable held fun _ => True :=
  fun _ _ _ _ _ => trivial

theorem Stable.mono (h : rules.Stable held P) (hl : held ⊆ held') : rules.Stable held' P :=
  fun s s' hg => h s s' fun l hm => hg l (hl hm)

theorem Stable.and (hp : rules.Stable held P) (hq : rules.Stable held Q) :
    rules.Stable held fun s => P s ∧ Q s :=
  fun s s' hg ha h => ⟨hp s s' hg ha h.left, hq s s' hg ha h.right⟩

theorem Stable.append (h : rules.Stable held P) : rules.Stable (held ++ held') P :=
  h.mono <| List.subset_append_left ..

-- A proof outline may start from more than it needs.
theorem Safe.imp {program : Program σ L ο} {Q₀ : σ → Prop} (hq : ∀ s, Q s → P s)
    (hq₀ : ∀ s, Q₀ s → P₀ s) (h : rules.Safe spec program now saved P P₀) :
    rules.Safe spec program now saved Q Q₀ := by
  induction program generalizing now saved P P₀ Q Q₀
  case rollback => trivial
  case commit   => exact fun s hs => h s (hq s hs)
  case exec hi =>
    intro s hs
    obtain ⟨P', hs', hstable, h⟩ := h s (hq s hs)
    exact ⟨P', hs', hstable, hi _ (fun _ h => h) hq₀ h⟩
  case skipLocked hi =>
    intro s hs locks hl
    obtain ⟨P', hs', hstable, h⟩ := h s (hq s hs) locks hl
    exact ⟨P', hs', hstable, hi _ _ (fun _ h => h) hq₀ h⟩
  case savepoint hi => exact hi hq hq h
  case undo hi      => exact hi hq₀ hq₀ h

-- A program that tells its client less meets what is weaker.
theorem Safe.map {ο' : Type} {f : ο → ο'} {spec' : ο' → σ → σ → Prop}
    (hspec : ∀ outcome s s', spec outcome s s' → spec' (f outcome) s s') {program : Program σ L ο}
    (h : rules.Safe spec program now saved P P₀) :
    rules.Safe spec' (program.map f) now saved P P₀ := by
  induction program generalizing now saved P P₀
  case rollback => trivial
  case commit   => exact fun s hs => (h s hs).imp_left (hspec _ s _)
  case exec hi =>
    intro s hs
    obtain ⟨P', hs', hstable, h⟩ := h s hs
    exact ⟨P', hs', hstable, hi _ h⟩
  case skipLocked hi =>
    intro s hs locks hl
    obtain ⟨P', hs', hstable, h⟩ := h s hs locks hl
    exact ⟨P', hs', hstable, hi _ _ h⟩
  case savepoint hi => exact hi h
  case undo hi      => exact hi h

theorem Safe.select {locks : σ → List L} {next : σ → Program σ L ο}
    (h : ∀ s, P s → ∃ P', P' s ∧ rules.Stable (now.held ++ locks (now.write s)) P' ∧
      rules.Safe spec (next (now.write s)) ⟨now.held ++ locks (now.write s), now.write⟩ saved P' P₀) :
    rules.Safe spec (.select locks next) now saved P P₀ :=
  h

-- A write whose result is not looked at keeps what is known.
theorem Safe.write {locks : List L} {write : σ → σ} {next : Program σ L ο}
    (hs : rules.Stable now.held P)
    (h : rules.Safe spec next ⟨now.held ++ locks, write ∘ now.write⟩ saved P P₀) :
    rules.Safe spec (.write locks write next) now saved P P₀ :=
  fun _ hp => ⟨P, hp, hs.append, h⟩

end Discipline

-- What is known of a call that committed.
def Discipline.Commits (rules : Discipline σ L) (spec : κ → ο → σ → σ → Prop) (call : κ)
    (outcome : ο) (s s' : σ) : Prop :=
  spec call outcome s s' ∧ rules.Always s s'

-- A history: each call takes the tables that the one before it left to the next ones.
inductive Serial (spec : κ → ο → σ → σ → Prop) (s : σ) : List (κ × ο) → σ → Prop
  | nil : Serial spec s [] s
  | snoc {log call outcome s' s''} : (Serial spec s log s') → (spec call outcome s' s'') →
    Serial spec s (log ++ [(call, outcome)]) s''

theorem Serial.preserves {spec : κ → ο → σ → σ → Prop} {s s' : σ} {log : List (κ × ο)}
    (h : Serial spec s log s') {I : σ → Prop}
    (hi : ∀ call outcome s s', spec call outcome s s' → I s → I s') (hs : I s) : I s' := by
  induction h
  case nil              => exact hs
  case snoc _ hspec hind => exact hi _ _ _ _ hspec hind

namespace Server

variable {rules : Discipline σ L} {spec : κ → ο → σ → σ → Prop} {pre : κ → σ → Prop}
         {program : κ → Program σ L ο} {server : Server κ σ L ο} {session : Session κ σ L ο}

-- The assertions that an open transaction can go on with.
structure Assured (rules : Discipline σ L) (spec : κ → ο → σ → σ → Prop) (s : σ)
    (session : Session κ σ L ο) (P P₀ : σ → Prop) : Prop where
  holds  : P s
  saved  : P₀ s
  stable : rules.Stable session.now.held P
  kept   : rules.Stable session.saved.held P₀
  within : session.saved.held ⊆ session.now.held
  safe   : rules.Safe (spec session.call) session.rest session.now session.saved P P₀

-- No lock is held twice, and every open transaction is safe from here on.
structure Sound (rules : Discipline σ L) (spec : κ → ο → σ → σ → Prop)
    (server : Server κ σ L ο) : Prop where
  exclusive : ∀ s₁ ∈ server.sessions, ∀ s₂ ∈ server.sessions, s₁.id ≠ s₂.id →
    ∀ l ∈ s₁.now.held, l ∉ s₂.now.held
  assured : ∀ session ∈ server.sessions, ∃ P P₀, Assured rules spec server.committed session P P₀

theorem Sound.idle (s : σ) : Sound rules spec (idle s) where
  exclusive := nofun
  assured   := nofun

theorem Sound.close (h : Sound rules spec server) (id : Nat) :
    Sound rules spec (server.close id) where
  exclusive s₁ h₁ s₂ h₂ :=
    h.exclusive s₁ (Table.mem_delete.mp h₁).left s₂ (Table.mem_delete.mp h₂).left
  assured session hm := h.assured session (Table.mem_delete.mp hm).left

-- A session may take locks that no other one holds, and go on from assertions that hold.
theorem Sound.resume (h : Sound rules spec server) {now saved : Point σ L} {rest : Program σ L ο}
    (hl : ∀ l ∈ now.held, ∀ other ∈ server.sessions, other.id ≠ session.id → l ∉ other.now.held)
    (ha : ∃ P P₀, Assured rules spec server.committed { session with now, saved, rest } P P₀) :
    Sound rules spec (server.resume session now saved rest) := by
  constructor
  case exclusive =>
    intro s₁ h₁ s₂ h₂ hne l hm hm'
    cases Table.mem_set.mp h₁ <;> cases Table.mem_set.mp h₂
    case inl.inl h₁ h₂ => exact h.exclusive s₁ h₁.left s₂ h₂.left hne l hm hm'
    case inl.inr h₁ e  => exact hl l (by simpa [e.left] using hm') s₁ h₁.left h₁.right hm
    case inr.inl e h₂  => exact hl l (by simpa [e.left] using hm) s₂ h₂.left h₂.right hm'
    case inr.inr e₁ e₂ => exact hne (by rw [e₁.left, e₂.left])
  case assured =>
    intro other ho
    cases Table.mem_set.mp ho
    case inl ho => exact h.assured other ho.left
    case inr e  => exact e.left ▸ ha

variable [DecidableEq L]

theorem not_mem_of_not_busy {id : Nat} (locks : List L) (h : ¬server.busy id locks) {l : L}
    (hl : l ∈ locks) (other : Session κ σ L ο) (hm : other ∈ server.sessions) (hid : other.id ≠ id) :
    l ∉ other.now.held := by
  intro hs
  apply h
  refine List.any_eq_true.mpr ⟨other, hm, ?_⟩
  simpa using ⟨hid, l, hl, hs⟩

-- The calls come only when their preconditions hold.
def Allowed (program : κ → Program σ L ο) (pre : κ → σ → Prop) :
    Server κ σ L ο → List (Move κ) → Prop
  | _, []              => True
  | server, m :: moves =>
    (∀ id call, m = .start id call → pre call server.committed) ∧
      Allowed program pre (server.move program m) moves

theorem Allowed.of_forall (h : ∀ call s, pre call s) {moves : List (Move κ)} :
    Allowed program pre server moves := by
  induction moves generalizing server
  case nil           => trivial
  case cons _ _ hi => exact ⟨fun _ call _ => h call _, hi⟩

namespace Sound

theorem start (h : Sound rules spec server) (hp : ∀ call, rules.Stable [] (pre call))
    (hs : ∀ call, rules.Safe (spec call) (program call) .start .start (pre call) (pre call))
    (id : Nat) {call : κ} (hc : pre call server.committed) :
    Sound rules spec (server.move program (.start id call)) := by
  constructor
  case exclusive =>
    intro s₁ h₁ s₂ h₂ hne l hl
    cases Table.of_mem_insert h₁ <;> cases Table.of_mem_insert h₂
    case inl.inl h₁ h₂ => exact h.exclusive s₁ h₁ s₂ h₂ hne l hl
    case inl.inr e     => simp [e, Point.start]
    case inr.inl e _   => simp [e, Point.start] at hl
    case inr.inr e _   => simp [e, Point.start] at hl
  case assured =>
    intro session hm
    cases Table.of_mem_insert hm
    case inl hm => exact h.assured session hm
    case inr e  => exact e ▸ ⟨pre call, pre call, hc, hc, hp call, hp call, List.Subset.refl _, hs call⟩

-- What a transaction commits, it may change, so the others' assertions survive it.
theorem commit (h : Sound rules spec server) (hm : session ∈ server.sessions) {outcome : ο}
    (hc : session.rest = .commit outcome) :
    Sound rules spec (server.advance session) ∧ rules.Commits spec session.call outcome
      server.committed (session.now.write server.committed) := by
  obtain ⟨P, P₀, a⟩ := h.assured session hm
  have hsafe := a.safe
  rw [hc] at hsafe
  obtain ⟨hspec, hpermits⟩ := hsafe _ a.holds
  refine ⟨?_, hspec, hpermits.always⟩
  simp only [advance, hc]
  constructor
  case exclusive => exact h.close session.id |>.exclusive
  case assured =>
    intro other ho
    obtain ⟨ho, hid⟩ := Table.mem_delete.mp ho
    obtain ⟨P', P₀', a'⟩ := h.assured other ho
    have hg : ∀ l ∈ other.now.held, rules.Guarded l _ _ := fun l hl =>
      hpermits.guarded l <| h.exclusive other ho session hm (by simpa using hid) l hl
    exact ⟨P', P₀', { a' with
      holds := a'.stable _ _ hg hpermits.always a'.holds
      saved := a'.kept _ _ (fun l hl => hg l (a'.within hl)) hpermits.always a'.saved }⟩

-- Any other statement leaves the tables as they are.
theorem advance (h : Sound rules spec server) (hm : session ∈ server.sessions)
    (hc : ∀ outcome, session.rest ≠ .commit outcome) :
    Sound rules spec (server.advance session) ∧
      (server.advance session).committed = server.committed ∧
      (server.advance session).log = server.log := by
  obtain ⟨P, P₀, a⟩ := h.assured session hm
  have hsafe := a.safe
  have held : ∀ l ∈ session.now.held, ∀ other ∈ server.sessions, other.id ≠ session.id →
      l ∉ other.now.held :=
    fun l hl other ho hid => h.exclusive session hm other ho hid.symm l hl
  have within (locks) : session.saved.held ⊆ session.now.held ++ locks :=
    List.Subset.trans a.within <| List.subset_append_left ..
  cases hr : session.rest <;> simp only [hr, Discipline.Safe] at hsafe <;>
    simp only [Server.advance, hr]
  case commit outcome => exact absurd hr (hc outcome)
  case rollback => exact ⟨h.close session.id, rfl, rfl⟩
  case exec locks write next =>
    split
    case isTrue => exact ⟨h, rfl, rfl⟩
    case isFalse hb =>
      obtain ⟨P', hP', hs, hsafe⟩ := hsafe _ a.holds
      refine ⟨h.resume ?_ ⟨P', P₀, hP', a.saved, hs, a.kept, within _, hsafe⟩, rfl, rfl⟩
      intro l hl
      cases List.mem_append.mp hl
      case inl hl => exact held l hl
      case inr hl => exact not_mem_of_not_busy _ hb hl
  case skipLocked wanted limit next =>
    let free := (wanted (session.now.write server.committed)).filter
      fun l => !server.busy session.id [l]
    have hf : free.take limit ⊆ wanted (session.now.write server.committed) :=
      List.Subset.trans (List.take_subset limit free) (List.filter_subset_self _)
    obtain ⟨P', hP', hs, hsafe⟩ := hsafe _ a.holds _ hf
    refine ⟨h.resume ?_ ⟨P', P₀, hP', a.saved, hs, a.kept, within _, hsafe⟩, rfl, rfl⟩
    intro l hl
    cases List.mem_append.mp hl
    case inl hl => exact held l hl
    case inr hl =>
      have hf := List.of_mem_filter (List.mem_of_mem_take hl)
      exact not_mem_of_not_busy [l] (by simpa using hf) (by simp)
  case savepoint next =>
    exact ⟨h.resume held ⟨P, P, a.holds, a.holds, a.stable, a.stable, List.Subset.refl _, hsafe⟩,
      rfl, rfl⟩
  case undo next =>
    exact ⟨h.resume (fun l hl => held l (a.within hl))
      ⟨P₀, P₀, a.saved, a.saved, a.kept, a.kept, List.Subset.refl _, hsafe⟩, rfl, rfl⟩

-- A move leaves the tables alone, or it is the commit of a call that meets its specification.
theorem move (h : Sound rules spec server) (hp : ∀ call, rules.Stable [] (pre call))
    (hs : ∀ call, rules.Safe (spec call) (program call) .start .start (pre call) (pre call))
    {m : Move κ} (hm : ∀ id call, m = .start id call → pre call server.committed) :
    let server' := server.move program m
    Sound rules spec server' ∧
      (server'.committed = server.committed ∧ server'.log = server.log ∨
        ∃ call outcome, server'.log = server.log ++ [(call, outcome)] ∧
          rules.Commits spec call outcome server.committed server'.committed) := by
  cases m
  case start id call => exact ⟨h.start hp hs id (hm id call rfl), .inl ⟨rfl, rfl⟩⟩
  case abort id      => exact ⟨h.close id, .inl ⟨rfl, rfl⟩⟩
  case advance id =>
    simp only [Server.move]
    cases hg : server.sessions.get id
    case none => exact ⟨h, .inl ⟨rfl, rfl⟩⟩
    case some session =>
      have hmem := Table.mem_of_get hg
      by_cases hc : ∃ outcome, session.rest = .commit outcome
      case neg => exact h.advance hmem (not_exists.mp hc) |>.imp_right .inl
      case pos =>
        obtain ⟨outcome, hc⟩ := hc
        obtain ⟨hsound, hspec⟩ := h.commit hmem hc
        refine ⟨hsound, .inr ⟨session.call, outcome, ?_⟩⟩
        simpa [Server.advance, hc] using hspec

end Sound

-- A precondition that holds of all tables on which a run can be is no condition on the calls.
theorem Sound.allowed (h : Sound rules spec server) (hp : ∀ call, rules.Stable [] (pre call))
    (hs : ∀ call, rules.Safe (spec call) (program call) .start .start (pre call) (pre call))
    {I : σ → Prop} (hi : ∀ s s', rules.Always s s' → I s → I s') (hs₀ : I server.committed)
    {pre' : κ → σ → Prop} (hc : ∀ call s, I s → pre' call s → pre call s) {moves : List (Move κ)}
    (hm : Allowed program pre' server moves) : Allowed program pre server moves := by
  induction moves generalizing server
  case nil => trivial
  case cons m moves hind =>
    have hstart : ∀ id call, m = .start id call → pre call server.committed :=
      fun id call e => hc call _ hs₀ (hm.left id call e)
    obtain ⟨hsound, hstep⟩ := h.move hp hs hstart
    refine ⟨hstart, hind hsound ?_ hm.right⟩
    cases hstep
    case inl hstep => exact hstep.left ▸ hs₀
    case inr hstep =>
      obtain ⟨_, _, _, _, halways⟩ := hstep
      exact hi _ _ halways hs₀

-- What a run adds to the log is a history from where it began.
theorem Sound.run (h : Sound rules spec server) (hp : ∀ call, rules.Stable [] (pre call))
    (hs : ∀ call, rules.Safe (spec call) (program call) .start .start (pre call) (pre call))
    {moves : List (Move κ)} (hm : Allowed program pre server moves) {s : σ}
    (before : List (κ × ο)) {log : List (κ × ο)} (hl : server.log = before ++ log)
    (hser : Serial (rules.Commits spec) s log server.committed) :
    let server' := server.run program moves
    Sound rules spec server' ∧
      ∃ log', server'.log = before ++ log' ∧
        Serial (rules.Commits spec) s log' server'.committed := by
  induction moves generalizing server log
  case nil => exact ⟨h, log, hl, hser⟩
  case cons m moves hi =>
    obtain ⟨hsound, hstep⟩ := h.move hp hs hm.left
    cases hstep
    case inl hstep => exact hi hsound hm.right (hstep.right.trans hl) (hstep.left ▸ hser)
    case inr hstep =>
      obtain ⟨call, outcome, hlog, hspec⟩ := hstep
      refine hi hsound hm.right ?_ (hser.snoc hspec)
      rw [hlog, hl, List.append_assoc]

-- However the statements interleave, the committed tables are what the committed calls make of
-- them one after another.
theorem run_serial (hp : ∀ call, rules.Stable [] (pre call))
    (hs : ∀ call, rules.Safe (spec call) (program call) .start .start (pre call) (pre call)) {s : σ}
    {moves : List (Move κ)} (hm : Allowed program pre (idle s) moves) :
    let server := (idle s).run program moves
    Serial (rules.Commits spec) s server.log server.committed := by
  obtain ⟨_, log, hlog, hserial⟩ := (Sound.idle s).run hp hs hm [] rfl .nil
  simp only [List.nil_append] at hlog
  rwa [← hlog] at hserial

end Server
