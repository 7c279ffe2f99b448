import MarTech.Pipeline.LockOrder

namespace MarTech

variable {R : Type} {point saved : Point (Tables R) Lock} {s : Tables R} {keys : List Lock}

section Arrivals

variable {ο : Type}

-- A program whose statements bring nothing that they have not locked commits nothing else.
theorem arrivals_safe {program : Program (Tables R) Lock ο} {keys₀ : List Lock}
    (h : program.Every Brought) (hk : Brings keys point.write) (hk₀ : Brings keys₀ saved.write) :
    arrivals.Safe (fun _ _ _ => True) program point saved
      (fun s => ∀ l ∈ keys, l ∈ point.held ∨ s.has l)
      (fun s => ∀ l ∈ keys₀, l ∈ saved.held ∨ s.has l) := by
  have hstable (held keys : List Lock) :
      arrivals.Stable held fun s : Tables R => ∀ l ∈ keys, l ∈ held ∨ s.has l :=
    fun _ _ _ halways hs l hl => (hs l hl).imp_right (halways l)
  induction program generalizing point saved keys keys₀
  case rollback => trivial
  case commit   =>
    refine fun s hs => ⟨trivial, fun l hl hn => ?_, fun l hl => hk.has hl⟩
    cases hw : (point.write s).has l
    case false => rfl
    case true  =>
      obtain hs' | hm := (hk s l).mp hw
      · exact (hn.symm.trans hs').symm
      · exact (hn.symm.trans ((hs l hm).resolve_left hl)).symm
  case exec locks write next hi =>
    intro s hs
    obtain ⟨⟨keys', hk', hmem⟩, hnext⟩ := h
    refine ⟨_, ?_, hstable _ (keys ++ keys'), hi _ (hnext _) (hk'.comp hk) hk₀⟩
    intro l hl
    have hseen (hl : l ∈ keys) : l ∈ point.held ++ locks (point.write s) ∨ s.has l :=
      (hs l hl).imp_left (List.mem_append_left _)
    obtain hl | hl := List.mem_append.mp hl
    · exact hseen hl
    · obtain hl | hl := hmem (point.write s) l hl
      · exact .inl (List.mem_append_right _ hl)
      · exact ((hk s l).mp hl).elim .inr hseen
  case skipLocked wanted limit next hi =>
    intro s hs locks hlocks
    exact ⟨_, fun l hl => (hs l hl).imp_left (List.mem_append_left _), hstable _ keys,
      hi _ _ (h _ _) hk hk₀⟩
  case savepoint next hi => exact hi h hk hk
  case undo next hi      => exact hi h hk₀ hk₀

variable {locks : Tables R → List Lock} {write : Tables R → Tables R}

theorem Brought.nothing (h : Brings [] write) : Brought locks write :=
  ⟨[], h, nofun⟩

theorem Brings.modify {f : Db R → Db R}
    (he : ∀ db id, ((f db).events.get id).isSome = (db.events.get id).isSome)
    (hc : ∀ db id, ((f db).customers.get id).isSome = (db.customers.get id).isSome) :
    Brings [] (Tables.modify f) :=
  .of_get (fun s => he s.db) (fun s => hc s.db)

theorem Brings.enqueueOutbox {eventId : String} {payload : Json.Object} {id : Nat}
    {now : Timestamp} :
    Brings [] (Tables.enqueueOutbox (R := R) eventId payload id now) :=
  .of_get (fun _ _ => rfl) fun _ _ => rfl

-- An `INSERT ... ON CONFLICT DO NOTHING` locks the key or finds it.
theorem Brought.insertAbsent {l : Lock} (h : Brings [l] write) :
    Brought (fun s => if s.has l then [] else [l]) write := by
  refine ⟨[l], h, fun s l' hl => ?_⟩
  cases List.mem_singleton.mp hl
  cases hn : s.has l
  case false => exact .inl (by simp [hn])
  case true  => exact .inr rfl

open Transaction Program

theorem commit_brought {outcome : ο} :
    (Program.commit outcome : Program (Tables R) Lock ο).Every Brought :=
  trivial

theorem select_brought {next : Tables R → Program (Tables R) Lock ο}
    (h : ∀ s, (next s).Every Brought) : (Program.select locks next).Every Brought :=
  ⟨.nothing .refl, h⟩

theorem write_brought {locks : List Lock} {next : Program (Tables R) Lock ο} (hw : Brings [] write)
    (h : next.Every Brought) : (Program.write locks write next).Every Brought :=
  ⟨.nothing hw, fun _ => h⟩

theorem updateEvent_brought {eventId : String} {f : Event → Event} {next : Transaction R}
    (hf : ∀ e, (f e).eventId = e.eventId) (h : next.Every Brought) :
    (updateEvent eventId f next).Every Brought :=
  write_brought (.modify (fun db => db.events.isSome_get_update eventId hf) fun _ _ => rfl) h

theorem insertOutbox_brought {eventId : String} {payload : Json.Object} {id : Nat}
    {now : Timestamp} {next : Except Error Unit → Program (Tables R) Lock ο}
    (h : ∀ result, (next result).Every Brought) :
    (insertOutbox eventId payload id now next).Every Brought :=
  ⟨.nothing .enqueueOutbox, fun _ => h _⟩

section Consumer

variable [Runtime]

theorem processOneEvent_brought [Field R] [LinearOrder R] [FloorRing R] [MathExp R]
    (settings : Settings R) (payload : Json.Object) (now : Timestamp) :
    (Transaction.processOneEvent settings payload now).Every Brought := by
  unfold Transaction.processOneEvent
  split
  case h_1 => trivial
  case h_2 body _ =>
    refine select_brought fun s => ?_
    beta_reduce
    cases s.db.events.get body.eventId
    case none     => trivial
    case some evt =>
      simp only
      split
      case isTrue  => trivial
      case isFalse =>
        refine select_brought fun s => ?_
        beta_reduce
        cases s.db.customers.get evt.customerId
        case none          => trivial
        case some customer =>
          refine select_brought fun s => ?_
          refine write_brought (.modify (fun _ _ => rfl) fun _ _ => rfl) ?_
          refine write_brought (.modify (fun _ _ => rfl) fun db => ?_) ?_
          · exact db.customers.isSome_get_update _ (by intro; simp)
          · exact updateEvent_brought (fun _ => rfl) trivial

theorem failEvent_brought (payload : Json.Object) (error : Error) (retries dlqId : Nat)
    (now : Timestamp) :
    (Transaction.failEvent (R := R) payload error retries dlqId now).Every Brought := by
  unfold Transaction.failEvent
  refine select_brought fun s => ?_
  beta_reduce
  split
  case isTrue  => trivial
  case isFalse =>
    refine ⟨.nothing (.modify (fun _ _ => rfl) fun _ _ => rfl), fun s' => ?_⟩
    beta_reduce
    split
    case h_1 => trivial
    case h_2 =>
      cases s.db.events.get (payloadEventId payload)
      case none   => trivial
      case some _ => exact updateEvent_brought (fun _ => rfl) trivial

theorem replayDlq_brought (dlqId outboxId : Nat) (now : Timestamp) :
    (Transaction.replayDlq (R := R) dlqId outboxId now).Every Brought := by
  unfold Transaction.replayDlq
  refine select_brought fun s => ?_
  beta_reduce
  cases s.db.dlqEvents.get dlqId
  case none     => trivial
  case some row =>
    refine select_brought fun s => select_brought fun s' => ?_
    beta_reduce
    cases s'.db.dlqEvents.get dlqId
    case none      => trivial
    case some row' =>
      simp only
      split
      case isTrue  => trivial
      case isFalse =>
        split
        case h_1 => trivial
        case h_2 =>
          split
          case h_1 => trivial
          case h_2 =>
            refine updateEvent_brought (fun _ => rfl) ?_
            refine write_brought (.modify (fun _ _ => rfl) fun _ _ => rfl) ?_
            refine insertOutbox_brought fun result => ?_
            cases result <;> trivial

end Consumer

section Sweep

variable {settings : Settings R} {now : Timestamp} {next : Transaction R}

theorem cleanupOutbox_brought (h : next.Every Brought) :
    (Transaction.cleanupOutbox settings now next).Every Brought := by
  have hrows (ids : List Nat) : (deleteRows next ids).Every Brought := by
    induction ids
    case nil          => exact h
    case cons _ _ hi => exact write_brought (.modify (fun _ _ => rfl) fun _ _ => rfl) hi
  exact select_brought fun s => hrows _

theorem publishRows_brought {queue : Queue} {next : Nat → Transaction R}
    (h : ∀ count, (next count).Every Brought) (count : Nat) (rows : List EventOutbox) :
    (Transaction.publishRows now queue next count rows).Every Brought := by
  induction rows generalizing count
  case nil              => exact h count
  case cons row rows hi =>
    unfold Transaction.publishRows
    split
    case h_1 => trivial
    case h_2 => exact write_brought (.modify (fun _ _ => rfl) fun _ _ => rfl) (hi _)

end Sweep

section Ingestion

variable [Runtime] {outboxId : Nat} {now : Timestamp}

theorem persistOne_brought (body : EventIn) (fault : Option PersistStatement)
    {next : Except Error PersistOutcome → Program (Tables R) Lock ο}
    (h : ∀ result, (next result).Every Brought) :
    (Transaction.persistOne body fault outboxId now next).Every Brought := by
  unfold Transaction.persistOne
  split
  case isTrue  => exact h _
  case isFalse =>
    refine ⟨.insertAbsent (.ensureCustomer body.customerId now), fun s => ?_⟩
    split
    case isTrue  => exact h _
    case isFalse =>
      refine ⟨.insertAbsent (.insertEvent body), fun s => ?_⟩
      beta_reduce
      split
      case isTrue  => exact h _
      case isFalse =>
        refine insertOutbox_brought fun result => ?_
        cases result <;> exact h _

theorem ingestEvent_brought (body : EventIn) (fault : Option PersistStatement) :
    (Transaction.ingestEvent (R := R) body fault outboxId now).Every Brought := by
  refine persistOne_brought body fault fun result => ?_
  cases result
  case error => trivial
  case ok    =>
    simp only
    split <;> trivial

theorem ingestItems_brought {outboxIds : Nat → Nat} (items : List (BatchItem × Nat))
    (out : BatchEventOut) : (ingestItems (R := R) outboxIds now items out).Every Brought := by
  induction items generalizing out
  case nil                 => trivial
  case cons entry items hi =>
    refine persistOne_brought _ _ fun result => ?_
    cases result
    case error => exact hi _
    case ok    =>
      simp only
      split <;> exact hi _

end Ingestion

theorem Call.brought [Field R] [LinearOrder R] [FloorRing R] [MathExp R] [Runtime]
    (settings : Settings R) (call : Call) : (call.transaction settings).Every Brought := by
  cases call
  case consume call =>
    cases call
    case processOneEvent payload now => exact processOneEvent_brought settings payload now
    case failEvent payload error retries dlqId now =>
      exact failEvent_brought payload error retries dlqId now
    case replayDlq dlqId outboxId now => exact replayDlq_brought dlqId outboxId now
  case ingestEvent body fault outboxId now => exact ingestEvent_brought body fault
  case ingestBatch items outboxIds now => exact ingestItems_brought _ _
  case reconcileOutbox queue now =>
    intro locks s
    exact publishRows_brought (fun _ => cleanupOutbox_brought commit_brought) 0 _
  case cleanupOutbox now => exact cleanupOutbox_brought commit_brought

end Arrivals

section Orders

variable {settings : Settings R} {place : Lock → Nat} {states : List (Service R)} {call : Call}
         {held : List Lock} {ο : Type}

open Transaction Program

theorem InOrder.ascending (h : InOrder settings place states) (hm : Meets states call s) :
    (s.db.eventOutbox.rows.filter (call.deletes settings s)).Pairwise
      fun row row' => place (.outbox row.id) < place (.outbox row'.id) := by
  obtain ⟨service, hservice, rfl, session, hsession, rfl⟩ := hm
  exact h.deletes service hservice session hsession

theorem InOrder.items (h : InOrder settings place states) (hm : Meets states call s) :
    Sorted place s [] call.items := by
  obtain ⟨service, hservice, rfl, session, hsession, rfl⟩ := hm
  exact h.sorted service hservice session hsession

theorem Meets.nodup (hm : Meets states call s) (hq : ∀ service ∈ states, service.Sequenced) :
    call.draws.Nodup := by
  obtain ⟨service, hservice, rfl, session, hsession, rfl⟩ := hm
  exact (hq service hservice session hsession).left

theorem Meets.fresh (hm : Meets states call s) (hq : ∀ service ∈ states, service.Sequenced) {id : Nat}
    (hid : id ∈ call.draws) : s.taken id = false := by
  obtain ⟨service, hservice, rfl, session, hsession, rfl⟩ := hm
  exact ((hq service hservice session hsession).right id hid).left

-- A statement with locks that are held already, that are new, or that come in their order.
theorem orderly_exec {locks : Tables R → List Lock} {write : Tables R → Tables R}
    {next : Tables R → Program (Tables R) Lock ο}
    (hl : ∀ s, Meets states call s → ∀ l ∈ locks (point.write s),
      (l ∈ point.held ∨ call.Draws l ∨ call.Comes settings place states s point.held l) ∧
        call.Fits s l)
    (h : ∀ s, Meets states call s → call.Orderly settings place states (next (point.write s))
      ⟨point.held ++ locks (point.write s), write ∘ point.write⟩ saved) :
    call.Orderly settings place states (.exec locks write next) point saved :=
  fun s hs => ⟨fun l hm => (hl s hs l hm).left, fun l hm => (hl s hs l hm).right, h s hs⟩

theorem orderly_write {l : Lock} {write : Tables R → Tables R}
    {next : Program (Tables R) Lock ο}
    (hl : ∀ s, (l ∈ point.held ∨ call.Draws l ∨ call.Comes settings place states s point.held l) ∧
      call.Fits s l)
    (h : call.Orderly settings place states next ⟨point.held ++ [l], write ∘ point.write⟩ saved) :
    call.Orderly settings place states (.write [l] write next) point saved :=
  orderly_exec (fun s _ _ hm => List.mem_singleton.mp hm ▸ hl s) fun _ _ => h

section Consumer

variable {call : Consumption}

theorem Tables.level_event_le (s : Tables R) (eventId : String) : s.level (.event eventId) ≤ 2 := by
  simp only [level]
  split <;> omega

theorem Tables.level_customer_le (s : Tables R) (customerId : String) :
    s.level (.customer customerId) ≤ 3 := by
  simp only [level]
  split <;> omega

theorem Tables.level_event_pos (s : Tables R) (eventId : String) : 0 < s.level (.event eventId) := by
  simp only [level]
  split <;> omega

theorem level_customer {customerId : String} (h : (s.db.customers.get customerId).isSome) :
    s.level (.customer customerId) = 3 := by
  simp [Tables.level, Tables.has, h]

-- A lock that comes after all that are held.
theorem comes_above {l : Lock} (hp : 0 < s.level l) (h : ∀ l' ∈ held, s.level l' < s.level l) :
    (l ∈ held ∨ (Call.consume call).Draws l ∨
      (Call.consume call).Comes settings place states s held l) ∧ (Call.consume call).Fits s l :=
  ⟨.inr (.inr ⟨hp, h⟩), trivial⟩

theorem comes_held {l : Lock} (h : l ∈ held) :
    (l ∈ held ∨ (Call.consume call).Draws l ∨
      (Call.consume call).Comes settings place states s held l) ∧ (Call.consume call).Fits s l :=
  ⟨.inl h, trivial⟩

theorem selectEvent_orderly {eventId : String} {next : Option Event → Transaction R}
    (h : ∀ evt, (∀ e ∈ evt, e.eventId = eventId) →
      (Call.consume call).Orderly settings place states (next evt)
        ⟨if evt.isSome then [.event eventId] else [], fun s => s⟩ saved) :
    (Call.consume call).Orderly settings place states (selectEvent eventId next) .start saved := by
  refine orderly_exec (fun s _ l hl => comes_above ?_ nofun) fun s _ => ?_
  · obtain ⟨_, hl⟩ := List.mem_ite_nil_right.mp hl
    exact List.mem_singleton.mp hl ▸ s.level_event_pos eventId
  · exact h _ fun e he => Table.key_of_get he

theorem selectCustomer_orderly {customerId : String} {next : Option Customer → Transaction R}
    (hheld : ∀ s : Tables R, ∀ l ∈ held, s.level l ≤ 2)
    (h : ∀ customer, (Call.consume call).Orderly settings place states (next customer)
      ⟨held ++ if customer.isSome then [.customer customerId] else [], fun s => s⟩ saved) :
    (Call.consume call).Orderly settings place states (selectCustomer customerId next)
      ⟨held, fun s => s⟩ saved := by
  refine orderly_exec (fun s _ l hl => ?_) fun s _ => h _
  obtain ⟨hc, hl⟩ := List.mem_ite_nil_right.mp hl
  cases List.mem_singleton.mp hl
  have hlevel : s.level (.customer customerId) = 3 := level_customer hc
  refine comes_above (by omega) fun l' hl' => ?_
  exact hlevel ▸ Nat.lt_succ_of_le (hheld s l' hl')

theorem selectLetter_orderly {dlqId : Nat} {next : Option DLQEvent → Transaction R}
    (h : ∀ row, (Call.consume call).Orderly settings place states (next row) .start saved) :
    (Call.consume call).Orderly settings place states (selectLetter dlqId next) .start saved :=
  orderly_exec (fun _ _ => nofun) fun _ _ => h _

theorem selectLetterForUpdate_orderly {dlqId : Nat} {next : Option DLQEvent → Transaction R}
    (hheld : ∀ s : Tables R, ∀ l ∈ held, s.level l ≤ 3)
    (h : ∀ row, (∀ r ∈ row, r.id = dlqId) → (Call.consume call).Orderly settings place states (next row)
      ⟨held ++ if row.isSome then [.letter dlqId] else [], fun s => s⟩ saved) :
    (Call.consume call).Orderly settings place states (selectLetterForUpdate dlqId next)
      ⟨held, fun s => s⟩ saved := by
  refine orderly_exec (fun s _ l hl => ?_) fun s _ => h _ fun row hrow => Table.key_of_get hrow
  obtain ⟨_, hl⟩ := List.mem_ite_nil_right.mp hl
  cases List.mem_singleton.mp hl
  exact comes_above (Nat.succ_pos 3) fun l' hl' => Nat.lt_succ_of_le (hheld s l' hl')

theorem updateEvent_orderly {eventId : String} {f : Event → Event} {next : Transaction R}
    (hl : .event eventId ∈ point.held)
    (h : (Call.consume call).Orderly settings place states next ⟨point.held ++ [.event eventId],
      Tables.modify (fun db => { db with events := db.events.update eventId f }) ∘ point.write⟩ saved) :
    (Call.consume call).Orderly settings place states (updateEvent eventId f next) point saved :=
  orderly_write (fun _ => comes_held hl) h

theorem insertLetter_orderly {eventId : String} {payload : Json.Object} {reason : String}
    {retryCount id : Nat} {now : Timestamp} {next : Except Error Unit → Transaction R}
    (hheld : ∀ s : Tables R, ∀ l ∈ held, s.level l ≤ 3)
    (h : ∀ result, (Call.consume call).Orderly settings place states (next result)
      ⟨held ++ [.letter id], Tables.modify (moveToDlq · eventId payload reason retryCount id now)⟩ saved) :
    (Call.consume call).Orderly settings place states
      (insertLetter eventId payload reason retryCount id now next) ⟨held, fun s => s⟩ saved := by
  refine orderly_exec (fun s _ l hl => ?_) fun s _ => h _
  cases List.mem_singleton.mp hl
  exact comes_above (Nat.succ_pos 3) fun l' hl' => Nat.lt_succ_of_le (hheld s l' hl')

variable [Field R] [LinearOrder R] [FloorRing R] [MathExp R] [Runtime]

theorem processOneEvent_orderly (payload : Json.Object) (now : Timestamp) :
    (Call.consume call).Orderly settings place states
      (Transaction.processOneEvent settings payload now) .start saved := by
  unfold Transaction.processOneEvent
  split
  case h_1         => trivial
  case h_2 body hb =>
    refine selectEvent_orderly fun evt hid => ?_
    cases evt
    case none     => trivial
    case some evt =>
      have hid : evt.eventId = body.eventId := hid evt rfl
      simp only
      split
      case isTrue  => trivial
      case isFalse =>
        refine selectCustomer_orderly (fun s l hl => ?_) fun customer => ?_
        · exact List.mem_singleton.mp hl ▸ s.level_event_le _
        · cases customer
          case none          => trivial
          case some customer =>
            refine orderly_exec (fun _ _ => nofun) fun s _ => ?_
            refine orderly_write (fun s => comes_above (Nat.succ_pos 3) fun l' hl' => ?_) ?_
            · have hl' : l' = .event body.eventId ∨ l' = .customer evt.customerId := by
                simpa using hl'
              obtain rfl | rfl := hl'
              · exact Nat.lt_of_le_of_lt (s.level_event_le _) (by simp [Tables.level])
              · exact Nat.lt_succ_of_le (s.level_customer_le _)
            · refine orderly_write (fun s => comes_held (by simp)) ?_
              exact updateEvent_orderly (by simp [hid]) trivial

omit [Field R] [LinearOrder R] [FloorRing R] [MathExp R] in
theorem failEvent_orderly (payload : Json.Object) (error : Error) (retries dlqId : Nat)
    (now : Timestamp) :
    (Call.consume call).Orderly settings place states
      (Transaction.failEvent payload error retries dlqId now) .start saved := by
  unfold Transaction.failEvent
  refine selectEvent_orderly fun evt _ => ?_
  split
  case isTrue  => trivial
  case isFalse =>
    refine insertLetter_orderly (fun s l hl => ?_) fun result => ?_
    · obtain ⟨_, hl⟩ := List.mem_ite_nil_right.mp hl
      exact List.mem_singleton.mp hl ▸ (s.level_event_le _).trans (by decide)
    · cases result
      case error => trivial
      case ok    =>
        cases evt
        case none   => trivial
        case some _ => exact updateEvent_orderly (by simp) trivial

omit [Field R] [LinearOrder R] [FloorRing R] [MathExp R] in
theorem replayDlq_orderly (dlqId outboxId : Nat) (now : Timestamp)
    (hd : outboxId ∈ (Call.consume call).draws) :
    (Call.consume call).Orderly settings place states
      (Transaction.replayDlq dlqId outboxId now) .start saved := by
  unfold Transaction.replayDlq
  refine selectLetter_orderly fun row => ?_
  cases row
  case none     => trivial
  case some row =>
    refine selectEvent_orderly fun evt hid => ?_
    refine selectLetterForUpdate_orderly (fun s l hl => ?_) fun row hrow => ?_
    · obtain ⟨_, hl⟩ := List.mem_ite_nil_right.mp hl
      exact List.mem_singleton.mp hl ▸ (s.level_event_le _).trans (by decide)
    · cases row
      case none      => trivial
      case some row' =>
        simp only
        split
        case isTrue  => trivial
        case isFalse =>
          cases hf : evt.filter (·.status = .failed)
          case none     => trivial
          case some evt' =>
            simp only
            split
            case h_1 => trivial
            case h_2 body _ =>
              obtain ⟨rfl, _⟩ := Option.filter_eq_some_iff.mp hf
              refine updateEvent_orderly (by simp [hid]) ?_
              refine orderly_write (fun s => comes_held (by simp [hrow])) ?_
              refine orderly_exec (fun s _ l hl => ?_) fun s _ => ?_
              · exact ⟨.inr (.inl ⟨outboxId, hd, List.mem_singleton.mp hl⟩), trivial⟩
              · beta_reduce
                split <;> trivial

end Consumer

section Sweep

variable {now : Timestamp} {next : Transaction R}

-- The rows are claimed before the others are deleted, and these come in the order of the places.
theorem deleteRows_orderly (hk : call.kind = .sweep) {ids : List Nat}
    (hp : ids.Pairwise fun id id' => place (.outbox id) < place (.outbox id'))
    (hd : ∀ id ∈ ids, call.Deletes settings states (.outbox id))
    (hheld : ∀ l ∈ point.held, call.Publishes states l ∨ ∀ id ∈ ids, place l < place (.outbox id))
    (h : ∀ point, call.Orderly settings place states next point saved) :
    call.Orderly settings place states (deleteRows next ids) point saved := by
  induction ids generalizing point
  case nil            => exact h point
  case cons id ids hi =>
    obtain ⟨hlt, hp⟩ := List.pairwise_cons.mp hp
    refine orderly_write (fun s => ⟨.inr (.inr ?_), ?_⟩) (hi hp ?_ ?_)
    · simp only [Call.Comes, hk]
      exact ⟨hd id List.mem_cons_self, fun l hl => (hheld l hl).imp_right (· id List.mem_cons_self)⟩
    · simp [Call.Fits, hk, Tables.level]
    · exact fun id' hm => hd id' (List.mem_cons_of_mem _ hm)
    · intro l hl
      obtain hl | hl := List.mem_append.mp hl
      · exact (hheld l hl).imp_right fun h id' hm => h id' (List.mem_cons_of_mem _ hm)
      · exact List.mem_singleton.mp hl ▸ .inr hlt

-- The statements before the `DELETE` change nothing that its choice of rows depends on.
def Marks (write : Tables R → Tables R) : Prop :=
  ∀ s settings now,
    ((write s).db.eventOutbox.rows.filter (expired settings (write s).db now)).map (·.id) =
      (s.db.eventOutbox.rows.filter (expired settings s.db now)).map (·.id)

theorem Marks.markPublished (id : Nat) (messageId : MessageId) (now : Timestamp) :
    Marks (Tables.modify (R := R) (MarTech.markPublished · id messageId now)) := by
  intro s settings now'
  let mark (row : EventOutbox) : EventOutbox :=
    if Keyed.key row = id then { row with publishedAt := some now, messageId := some messageId } else row
  have hrows : (s.modify (MarTech.markPublished · id messageId now)).db.eventOutbox.rows =
      s.db.eventOutbox.rows.map mark :=
    Table.rows_update s.db.eventOutbox id fun _ => rfl
  have hid : (·.id) ∘ mark = (·.id) := by
    funext row
    simp only [mark, Function.comp]
    split <;> rfl
  have hexpired : expired settings (s.modify (MarTech.markPublished · id messageId now)).db now' ∘ mark =
      expired settings s.db now' := by
    funext row
    simp only [mark, Function.comp]
    split <;> rfl
  rw [hrows, List.filter_map, List.map_map, hid, hexpired]

theorem Marks.comp {write write' : Tables R → Tables R} (h' : Marks write') (h : Marks write) :
    Marks (write' ∘ write) :=
  fun s settings now => (h' (write s) settings now).trans (h s settings now)

theorem cleanupOutbox_orderly (hk : call.kind = .sweep)
    (hc : ∀ s, call.deletes settings s = expired settings s.db now)
    (ho : InOrder settings place states) (hw : Marks point.write)
    (hheld : ∀ l ∈ point.held, call.Publishes states l)
    (h : ∀ point, call.Orderly settings place states next point saved) :
    call.Orderly settings place states (Transaction.cleanupOutbox settings now next) point saved := by
  refine orderly_exec (fun _ _ => nofun) fun s hs => ?_
  rw [hw s settings now, ← hc s]
  refine deleteRows_orderly hk (List.pairwise_map.mpr (ho.ascending hs)) ?_ ?_ h
  · intro id hm
    obtain ⟨row, hrow, rfl⟩ := List.mem_map.mp hm
    obtain ⟨hrow, hd⟩ := List.mem_filter.mp hrow
    exact ⟨s, row, hs, hrow, hd, rfl⟩
  · exact fun l hl => .inl (hheld l (by simpa using hl))

theorem publishRows_orderly {queue : Queue} {next : Nat → Transaction R} (hk : call.kind = .sweep)
    (count : Nat) {rows : List EventOutbox} (hw : Marks point.write)
    (hrows : ∀ row ∈ rows, .outbox row.id ∈ point.held)
    (hheld : ∀ l ∈ point.held, call.Publishes states l)
    (h : ∀ count point, Marks point.write → (∀ l ∈ point.held, call.Publishes states l) →
      call.Orderly settings place states (next count) point saved) :
    call.Orderly settings place states (Transaction.publishRows now queue next count rows) point
      saved := by
  induction rows generalizing count point
  case nil => exact h count point hw hheld
  case cons row rows hi =>
    have hrow : .outbox row.id ∈ point.held := hrows row List.mem_cons_self
    unfold Transaction.publishRows
    split
    case h_1 => trivial
    case h_2 messageId _ _ =>
      have hw' := Marks.comp (.markPublished row.id messageId now) hw
      refine orderly_write (fun s => ⟨.inl hrow, ?_⟩) (hi _ hw' ?_ ?_)
      · simp [Call.Fits, hk, Tables.level]
      · exact fun row' hm => List.mem_append_left _ (hrows row' (List.mem_cons_of_mem _ hm))
      · intro l hl
        obtain hl | hl := List.mem_append.mp hl
        · exact hheld l hl
        · exact List.mem_singleton.mp hl ▸ hheld _ hrow

theorem reconcileOutbox_orderly (queue : Queue) (ho : InOrder settings place states) :
    (Call.reconcileOutbox queue now).Orderly settings place states
      (Transaction.reconcileOutbox settings now queue) .start saved := by
  intro s hs locks hlocks
  have hheld : ∀ l ∈ locks, (Call.reconcileOutbox queue now).Publishes states l := by
    intro l hl
    obtain ⟨row, hm, rfl⟩ := List.mem_map.mp (hlocks hl)
    obtain ⟨hm, hc, _⟩ := claimUnpublished_subset hm
    exact ⟨s, row, hs, hm, hc, rfl⟩
  constructor
  case left =>
    intro l hl
    obtain ⟨_, _, _, _, _, rfl⟩ := hheld l hl
    rfl
  case right =>
    refine publishRows_orderly rfl 0 (fun _ _ _ => rfl) (fun row hm => ?_) (by simpa [Point.start] using hheld)
      fun count point hw hheld => cleanupOutbox_orderly rfl (fun _ => rfl) ho hw hheld fun _ => trivial
    obtain ⟨_, _, hl⟩ := claimUnpublished_subset hm
    exact List.mem_append_right _ (by simpa using hl)

end Sweep

section Ingestion

variable {ids : List Nat}

-- How far the ingestion has come: the keys that it has inserted and the ids of its rows.
structure Inserted (call : Call) (keys : List Lock) (ids : List Nat) (point : Point (Tables R) Lock) :
    Prop where
  brings : Brings keys point.write
  held   : ∀ l ∈ point.held, l ∈ keys ∨ call.Draws l
  taken  : ∀ s id, (point.write s).taken id → s.taken id ∨ id ∈ ids

theorem Inserted.start : Inserted (R := R) call [] [] .start where
  brings        := .refl
  held          := nofun
  taken _ _ h   := .inl h

-- An `INSERT ... ON CONFLICT DO NOTHING` waits at most for a key that is not in the tables.
theorem insertAbsent_orderly (hk : call.kind = .ingestion) {l : Lock} {write : Tables R → Tables R}
    {next : Tables R → Program (Tables R) Lock ο} (hi : Inserted call keys ids point)
    (hw : Brings [l] write) (hd : ∀ s id, (write s).taken id → s.taken id)
    (hl : ∀ s : Tables R, s.has l = false → s.level l = 1)
    (hf : ∀ s, Meets states call s → l.Follows place s keys)
    (h : ∀ s point, Inserted call (keys ++ [l]) ids point →
      call.Orderly settings place states (next s) point saved) :
    call.Orderly settings place states
      (.exec (fun s => if s.has l then [] else [l]) write next) point saved := by
  refine orderly_exec (fun s hs l' hl' => ?_) fun s _ => h _ _ ⟨hw.comp hi.brings, ?_, ?_⟩
  · obtain ⟨hn, hl'⟩ := List.mem_ite_nil_left.mp hl'
    cases List.mem_singleton.mp hl'
    have hn' := hi.brings.not_has (by simpa using hn)
    have hlevel : s.level l = 1 := hl s hn'
    simp only [Call.Comes, Call.Fits, hk]
    refine ⟨.inr (.inr ⟨hlevel, fun l' hl' hlevel' => ?_⟩), hlevel.le⟩
    have hkey : l' ∈ keys := by
      refine (hi.held l' hl').resolve_right fun ⟨id, _, hid⟩ => ?_
      simp [hid, Tables.level] at hlevel'
    have hmissing : s.has l' = false := by
      cases l' <;> simp_all [Tables.level]
    obtain hhas | hinserted | hbefore := hf s hs
    · exact absurd hhas (by simp [hn'])
    · exact absurd ((hi.brings s l).mpr (.inr hinserted)) hn
    · exact hbefore l' hkey hmissing
  · intro l' hl'
    obtain hl' | hl' := List.mem_append.mp hl'
    · exact (hi.held l' hl').imp_left (List.mem_append_left _)
    · obtain ⟨_, hl'⟩ := List.mem_ite_nil_left.mp hl'
      exact .inl (List.mem_append_right _ hl')
  · exact fun s id ht => hi.taken s id (hd _ id ht)

variable [Runtime] {outboxId : Nat} {now : Timestamp}

-- The statements of one item, which fail only by a fault.
theorem persistOne_orderly (hk : call.kind = .ingestion) {body : EventIn}
    {fault : Option PersistStatement} {next : Except Error PersistOutcome → Program (Tables R) Lock ο}
    (hi : Inserted call keys ids point) (hd : outboxId ∈ call.draws)
    (hnew : ∀ s, Meets states call s → s.taken outboxId = false ∧ outboxId ∉ ids)
    (hcustomer : ∀ s, Meets states call s → (Lock.customer body.customerId).Follows place s keys)
    (hevent : ∀ s, Meets states call s →
      (Lock.event body.eventId).Follows place s (keys ++ [.customer body.customerId]))
    (herror : ∀ error point, fault.isSome →
      call.Orderly settings place states (next (.error error)) point saved)
    (hok : ∀ outcome point, (fault ≠ some .flush → fault = none) →
      Inserted call (keys ++ [.customer body.customerId, .event body.eventId])
        (ids ++ if outcome = .accepted then [outboxId] else []) point →
      call.Orderly settings place states (next (.ok outcome)) point saved) :
    call.Orderly settings place states (Transaction.persistOne body fault outboxId now next) point
      saved := by
  unfold Transaction.persistOne
  split
  case isTrue hfault  => exact herror _ _ (by simp [hfault])
  case isFalse hfault =>
    refine insertAbsent_orderly hk hi (.ensureCustomer body.customerId now) (fun _ _ h => h)
      (fun s hs => by simp [Tables.level, hs]) hcustomer fun _ point hi => ?_
    split
    case isTrue hfault   => exact herror _ _ (by simp [hfault])
    case isFalse hfault' =>
      have hnone (h : fault ≠ some .flush) : fault = none := by
        cases fault
        case none           => rfl
        case some statement => cases statement <;> simp_all
      refine insertAbsent_orderly hk hi (.insertEvent body) (fun _ _ h => h)
        (fun s hs => by simp [Tables.level, hs]) hevent fun s point hi => ?_
      rw [List.append_assoc] at hi
      split
      case isTrue  => exact hok _ _ hnone (by simpa using hi)
      case isFalse =>
        refine orderly_exec (fun s _ l hl => ?_) fun s hs => ?_
        · cases List.mem_singleton.mp hl
          simp only [Call.Fits, hk]
          exact ⟨.inr (.inl ⟨outboxId, hd, rfl⟩), Nat.zero_le 1⟩
        · have htaken : (point.write s).taken outboxId = false := by
            obtain ⟨hfresh, hnew⟩ := hnew s hs
            exact Bool.eq_false_iff.mpr fun ht => (hi.taken s outboxId ht).elim (by simp [hfresh]) hnew
          simp only [htaken, Bool.false_eq_true, if_false]
          refine hok _ _ hnone ⟨?_, ?_, ?_⟩
          · simpa using Brings.comp Brings.enqueueOutbox hi.brings
          · intro l hl
            obtain hl | hl := List.mem_append.mp hl
            · exact hi.held l hl
            · exact .inr ⟨outboxId, hd, List.mem_singleton.mp hl⟩
          · intro s id ht
            have ht : outboxId = id ∨ (point.write s).taken id := by
              simpa [Tables.taken, Tables.enqueueOutbox] using ht
            obtain rfl | ht := ht
            · exact .inr (by simp)
            · exact (hi.taken s id ht).imp_right (List.mem_append_left _)

theorem ingestEvent_orderly {body : EventIn} {fault : Option PersistStatement}
    (hq : ∀ service ∈ states, service.Sequenced) (ho : InOrder settings place states) :
    (Call.ingestEvent body fault outboxId now).Orderly settings place states
      (Transaction.ingestEvent body fault outboxId now) .start saved := by
  have hd : outboxId ∈ (Call.ingestEvent body fault outboxId now).draws := List.mem_singleton_self _
  refine persistOne_orderly rfl .start hd (fun s hs => ⟨hs.fresh hq hd, List.not_mem_nil⟩)
    (fun s hs => (ho.items hs).left) (fun s hs => (ho.items hs).right.left) (fun _ _ _ => trivial)
    fun outcome point _ _ => ?_
  simp only
  split <;> trivial

-- The loop of the batch, when the items before it have got the first ids.
theorem ingestItems_orderly (hk : call.kind = .ingestion) {outboxIds : Nat → Nat} {n : Nat}
    (hd : call.draws = (List.range n).map outboxIds)
    (hq : ∀ service ∈ states, service.Sequenced) (items : List (BatchItem × Nat))
    (out : BatchEventOut) (hn : out.accepted + items.length ≤ n)
    (hi : Inserted call keys ((List.range out.accepted).map outboxIds) point)
    (hs : ∀ s, Meets states call s → Sorted place s keys (items.map (·.1))) :
    call.Orderly settings place states (ingestItems outboxIds now items out) point saved := by
  induction items generalizing point saved keys out
  case nil                 => trivial
  case cons entry items hi' =>
    obtain ⟨item, index⟩ := entry
    have hlt : out.accepted < n := by
      simp only [List.length_cons] at hn
      omega
    have hmem : outboxIds out.accepted ∈ call.draws :=
      hd ▸ List.mem_map_of_mem (List.mem_range.mpr hlt)
    have hnew (s) (hs' : Meets states call s) :
        s.taken (outboxIds out.accepted) = false ∧
          outboxIds out.accepted ∉ (List.range out.accepted).map outboxIds := by
      refine ⟨hs'.fresh hq hmem, fun hm => ?_⟩
      obtain ⟨k, hk, e⟩ := List.mem_map.mp hm
      have hlt' : k < out.accepted := List.mem_range.mp hk
      have hinj := List.inj_on_of_nodup_map (hd ▸ hs'.nodup hq)
      exact hlt'.ne <| hinj (List.mem_range.mpr (hlt'.trans hlt)) (List.mem_range.mpr hlt) e
    -- An item that fails leaves everything as it was at its savepoint.
    have hundo (hfault : item.fault.isSome) : call.Orderly settings place states
        (ingestItems outboxIds now items (out.reject index item.body)) point point := by
      refine hi' _ ?_ hi fun s hs' => ?_
      · simp only [List.length_cons] at hn
        exact (Nat.le_succ _).trans hn
      · simpa [hfault] using (hs s hs').right.right
    refine persistOne_orderly hk hi hmem hnew (fun s hs' => (hs s hs').left)
      (fun s hs' => (hs s hs').right.left) (fun _ _ => hundo) fun outcome point' hnone hi'' => ?_
    simp only
    split
    case isTrue hflush  => exact hundo (by simp [hflush])
    case isFalse hflush =>
      have hcount : (List.range out.accepted).map outboxIds ++
          (if outcome = .accepted then [outboxIds out.accepted] else []) =
            (List.range (out.count outcome).accepted).map outboxIds := by
        cases outcome <;> simp [BatchEventOut.count, List.range_succ]
      refine hi' (out.count outcome) ?_ (hcount ▸ hi'') fun s hs' => ?_
      · cases outcome <;> simp only [BatchEventOut.count, List.length_cons] at hn ⊢ <;> omega
      · simpa [hnone hflush] using (hs s hs').right.right

theorem ingestBatch_orderly {items : List BatchItem} {outboxIds : Nat → Nat}
    (hq : ∀ service ∈ states, service.Sequenced) (ho : InOrder settings place states) :
    (Call.ingestBatch items outboxIds now).Orderly settings place states
      (Transaction.ingestBatch items outboxIds now) .start saved := by
  refine ingestItems_orderly rfl rfl hq _ _ (by simp) .start fun s hs => ?_
  rw [List.zipIdx_map_fst]
  exact ho.items hs

end Ingestion

theorem Call.transaction_orderly [Field R] [LinearOrder R] [FloorRing R] [MathExp R] [Runtime]
    (hq : ∀ service ∈ states, service.Sequenced) (ho : InOrder settings place states) (call : Call) :
    call.Orderly settings place states (call.transaction settings) .start .start := by
  cases call
  case consume call =>
    cases call
    case processOneEvent payload now => exact processOneEvent_orderly payload now
    case failEvent payload error retries dlqId now =>
      exact failEvent_orderly payload error retries dlqId now
    case replayDlq dlqId outboxId now =>
      exact replayDlq_orderly dlqId outboxId now (List.mem_singleton_self _)
  case ingestEvent body fault outboxId now    => exact ingestEvent_orderly hq ho
  case ingestBatch items outboxIds now        => exact ingestBatch_orderly hq ho
  case reconcileOutbox queue now              => exact reconcileOutbox_orderly queue ho
  case cleanupOutbox now                      =>
    exact cleanupOutbox_orderly rfl (fun _ => rfl) ho (fun _ _ _ => rfl) nofun fun _ => trivial

theorem Tables.level_of_missing {l : Lock} (h : s.has l = false) : s.level l = 1 := by
  cases l <;> simp_all [level, has]

-- What a transaction of the ingestion has locked is not added by others.
theorem Tables.level_kept {s' : Tables R} {l : Lock} (hg : arrivals.Guarded l s s')
    (h : s.level l ≤ 1) : s'.level l ≤ 1 := by
  cases hs : s.has l
  case false => exact (level_of_missing (hg hs)).le
  case true  => cases l <;> simp_all [level]

theorem Call.Fits.kept (call : Call) (l : Lock) (s s' : Tables R) (hg : arrivals.Guarded l s s')
    (_ : arrivals.Always s s') (h : call.Fits s l) : call.Fits s' l := by
  simp only [Call.Fits] at h ⊢
  cases hk : call.kind <;> rw [hk] at h
  case consumer  => trivial
  case ingestion => exact Tables.level_kept hg h
  case sweep     => cases l <;> grind [Tables.level]

end Orders

end MarTech
