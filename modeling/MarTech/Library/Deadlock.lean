import Mathlib.Data.List.Infix
import Mathlib.Logic.Relation
import Mathlib.Order.Basic
import MarTech.Library.Session

variable {κ σ L ο : Type}

-- The locks that the next statement waits for.
def Session.wants (session : Session κ σ L ο) (s : σ) : List L :=
  match session.rest with
  | .exec locks _ _ => locks (session.now.write s)
  | _               => []

namespace Server

-- The lock for which `waiting` cannot go on before `holder` ends.
structure Blocks (server : Server κ σ L ο) (l : L) (waiting holder : Session κ σ L ο) : Prop where
  left   : waiting ∈ server.sessions
  right  : holder ∈ server.sessions
  other  : waiting.id ≠ holder.id
  wanted : l ∈ waiting.wants server.committed
  held   : l ∈ holder.now.held

def WaitsFor (server : Server κ σ L ο) (waiting holder : Session κ σ L ο) : Prop :=
  ∃ l, server.Blocks l waiting holder

-- The wait-for graph has no cycle.
def DeadlockFree (server : Server κ σ L ο) : Prop :=
  ∀ session, ¬Relation.TransGen server.WaitsFor session session

variable {server : Server κ σ L ο} {a b c : Session κ σ L ο}

-- If every transaction that blocks another one waits, if at all, for a lock of a higher rank, the
-- rank of the locks grows along each chain of transactions.
theorem DeadlockFree.of_rank {α : Type} [Preorder α] (rank : L → α)
    (h : ∀ {a b c l l'}, server.Blocks l a b → server.Blocks l' b c → rank l < rank l') :
    server.DeadlockFree := by
  have chain {a c} (hac : Relation.TransGen server.WaitsFor a c) :
      ∃ b z l l', server.Blocks l a b ∧ server.Blocks l' z c ∧ rank l ≤ rank l' := by
    induction hac
    case single hab =>
      obtain ⟨l, hl⟩ := hab
      exact ⟨_, _, l, l, hl, hl, le_rfl⟩
    case tail hcd hi =>
      obtain ⟨b, z, l, l', hl, hl', hle⟩ := hi
      obtain ⟨l'', hl''⟩ := hcd
      exact ⟨b, _, l, l'', hl, hl'', hle.trans (h hl' hl'').le⟩
  intro session hcycle
  obtain ⟨_, _, l, l', hl, hl', hle⟩ := chain hcycle
  exact (h hl' hl).not_ge hle

end Server

namespace Program

-- All statements of the program are of the kind.
def Every (kind : (σ → List L) → (σ → σ) → Prop) : Program σ L ο → Prop
  | .rollback _             => True
  | .commit _               => True
  | .exec locks write next  => kind locks write ∧ ∀ s, Every kind (next s)
  | .skipLocked _ _ next    => ∀ locks s, Every kind (next locks s)
  | .savepoint next         => Every kind next
  | .undo next              => Every kind next

-- Each statement takes its locks as `asks` allows, from all tables on which it may be sent and
-- whatever was done before it, and `fits` is what is known of a lock at the time when it is taken.
def Orderly (given : σ → Prop) (asks : σ → Point σ L → List L → Prop) (fits : σ → L → Prop) :
    Program σ L ο → (now saved : Point σ L) → Prop
  | .rollback _, _, _ => True
  | .commit _, _, _   => True
  | .exec locks write next, now, saved =>
    ∀ s, given s →
      let seen := now.write s
      asks s now (locks seen) ∧ (∀ l ∈ locks seen, fits s l) ∧
        Orderly given asks fits (next seen) ⟨now.held ++ locks seen, write ∘ now.write⟩ saved
  | .skipLocked wanted _ next, now, saved =>
    ∀ s, given s → ∀ locks ⊆ wanted (now.write s), (∀ l ∈ locks, fits s l) ∧
      Orderly given asks fits (next locks (now.write s)) { now with held := now.held ++ locks } saved
  | .savepoint next, now, _ => Orderly given asks fits next now now
  | .undo next, _, saved    => Orderly given asks fits next saved saved

end Program

namespace Server

variable {rules : Discipline σ L} {spec : κ → ο → σ → σ → Prop} {server : Server κ σ L ο}
         {session : Session κ σ L ο} {program : κ → Program σ L ο}
         {given : κ → σ → Prop} {asks : κ → σ → Point σ L → List L → Prop} {fits : κ → σ → L → Prop}

-- Every open transaction takes its locks as it should from here on, and what is known of a lock
-- stays known as long as it is held.
structure Orderly (given : κ → σ → Prop) (asks : κ → σ → Point σ L → List L → Prop)
    (fits : κ → σ → L → Prop) (server : Server κ σ L ο) : Prop where
  rest : ∀ session ∈ server.sessions, session.rest.Orderly (given session.call)
    (asks session.call) (fits session.call) session.now session.saved
  held : ∀ session ∈ server.sessions, ∀ l ∈ session.now.held, fits session.call server.committed l

-- What is given of the calls holds on the tables that are committed at present.
def Given (given : κ → σ → Prop) (server : Server κ σ L ο) : Prop :=
  ∀ session ∈ server.sessions, given session.call server.committed

namespace Orderly

theorem idle (s : σ) : Orderly given asks fits (idle s : Server κ σ L ο) where
  rest := nofun
  held := nofun

theorem asked (h : server.Orderly given asks fits) (hg : server.Given given)
    (hm : session ∈ server.sessions) {l : L} (hl : l ∈ session.wants server.committed) :
    asks session.call server.committed session.now (session.wants server.committed) := by
  have hrest := h.rest session hm
  cases hr : session.rest <;> simp only [Session.wants, hr, List.not_mem_nil] at hl hrest ⊢
  case exec locks write next => exact (hrest server.committed (hg session hm)).left

theorem close (h : server.Orderly given asks fits) (id : Nat) : (server.close id).Orderly given asks fits where
  rest session hm := h.rest session (Table.mem_delete.mp hm).left
  held session hm := h.held session (Table.mem_delete.mp hm).left

theorem resume (h : server.Orderly given asks fits) {now saved : Point σ L} {rest : Program σ L ο}
    (hr : rest.Orderly (given session.call) (asks session.call) (fits session.call) now saved)
    (hl : ∀ l ∈ now.held, fits session.call server.committed l) :
    (server.resume session now saved rest).Orderly given asks fits := by
  constructor
  case rest =>
    intro other ho
    cases Table.mem_set.mp ho
    case inl ho => exact h.rest other ho.left
    case inr e  => exact e.left ▸ hr
  case held =>
    intro other ho
    cases Table.mem_set.mp ho
    case inl ho => exact h.held other ho.left
    case inr e  => exact e.left ▸ hl

variable [DecidableEq L]

-- The locks of the others keep what is known of them from changing.
theorem commit (h : server.Orderly given asks fits) (hs : server.Sound rules spec)
    (hfits : ∀ call l s s', rules.Guarded l s s' → rules.Always s s' → fits call s l → fits call s' l)
    (hm : session ∈ server.sessions) {outcome : ο} (hc : session.rest = .commit outcome) :
    (server.advance session).Orderly given asks fits := by
  obtain ⟨P, P₀, a⟩ := hs.assured session hm
  have hsafe := a.safe
  rw [hc] at hsafe
  obtain ⟨-, hpermits⟩ := hsafe _ a.holds
  have hclose := h.close session.id
  simp only [advance, hc]
  constructor
  case rest => exact hclose.rest
  case held =>
    intro other ho l hl
    obtain ⟨hm', hid⟩ := Table.mem_delete.mp ho
    have hl' : l ∉ session.now.held := hs.exclusive other hm' session hm (by simpa using hid) l hl
    exact hfits _ _ _ _ (hpermits.guarded l hl') hpermits.always (hclose.held other ho l hl)

theorem advance (h : server.Orderly given asks fits) (hg : server.Given given)
    (hs : server.Sound rules spec) (hm : session ∈ server.sessions)
    (hc : ∀ outcome, session.rest ≠ .commit outcome) :
    (server.advance session).Orderly given asks fits := by
  have hrest := h.rest session hm
  have hgiven := hg session hm
  have hheld := h.held session hm
  have happend {locks : List L} (hl : ∀ l ∈ locks, fits session.call server.committed l) :
      ∀ l ∈ session.now.held ++ locks, fits session.call server.committed l :=
    fun l hm => (List.mem_append.mp hm).elim (hheld l) (hl l)
  cases hr : session.rest <;> simp only [hr, Program.Orderly] at hrest <;>
    simp only [Server.advance, hr]
  case commit outcome => exact absurd hr (hc outcome)
  case rollback       => exact h.close session.id
  case exec locks write next =>
    split
    case isTrue => exact h
    case isFalse =>
      obtain ⟨-, hl, hnext⟩ := hrest server.committed hgiven
      exact h.resume hnext (happend hl)
  case skipLocked wanted limit next =>
    let free := (wanted (session.now.write server.committed)).filter
      fun l => !server.busy session.id [l]
    have hf : free.take limit ⊆ wanted (session.now.write server.committed) :=
      List.Subset.trans (List.take_subset limit free) (List.filter_subset_self _)
    obtain ⟨hl, hnext⟩ := hrest server.committed hgiven _ hf
    exact h.resume hnext (happend hl)
  case savepoint next => exact h.resume hrest hheld
  case undo next =>
    obtain ⟨_, _, a⟩ := hs.assured session hm
    exact h.resume hrest fun l hl => hheld l (a.within hl)

theorem move (h : server.Orderly given asks fits) (hg : server.Given given)
    (hs : server.Sound rules spec)
    (hp : ∀ call, (program call).Orderly (given call) (asks call) (fits call) .start .start)
    (hfits : ∀ call l s s', rules.Guarded l s s' → rules.Always s s' → fits call s l → fits call s' l)
    (m : Move κ) : (server.move program m).Orderly given asks fits := by
  cases m
  case start id call =>
    constructor
    case rest =>
      intro session hm
      cases Table.of_mem_insert hm
      case inl hm => exact h.rest session hm
      case inr e  => exact e ▸ hp call
    case held =>
      intro session hm
      cases Table.of_mem_insert hm
      case inl hm => exact h.held session hm
      case inr e  => exact e ▸ nofun
  case abort id => exact h.close id
  case advance id =>
    simp only [Server.move]
    cases hget : server.sessions.get id
    case none => exact h
    case some session =>
      have hm := Table.mem_of_get hget
      by_cases hc : ∃ outcome, session.rest = .commit outcome
      case neg => exact h.advance hg hs hm (not_exists.mp hc)
      case pos =>
        obtain ⟨outcome, hc⟩ := hc
        exact h.commit hs hfits hm hc

end Orderly

variable [DecidableEq L]

-- This holds in all states of a run in which what is given holds all the time.
theorem run_orderly {pre : κ → σ → Prop} (hstable : ∀ call, rules.Stable [] (pre call))
    (hsafe : ∀ call, rules.Safe (spec call) (program call) .start .start (pre call) (pre call))
    (hp : ∀ call, (program call).Orderly (given call) (asks call) (fits call) .start .start)
    (hfits : ∀ call l s s', rules.Guarded l s s' → rules.Always s s' → fits call s l → fits call s' l)
    (hs : server.Sound rules spec) (ho : server.Orderly given asks fits) {moves : List (Move κ)}
    (hm : server.Allowed program pre moves)
    (hg : ∀ earlier ∈ moves.inits, (server.run program earlier).Given given) :
    let server' := server.run program moves
    server'.Sound rules spec ∧ server'.Orderly given asks fits := by
  induction moves generalizing server
  case nil => exact ⟨hs, ho⟩
  case cons m moves hi =>
    simp only [List.inits_cons, List.forall_mem_cons, List.forall_mem_map] at hg
    exact hi (hs.move hstable hsafe hm.left).left (ho.move hg.left hs hp hfits m) hm.right hg.right

end Server
