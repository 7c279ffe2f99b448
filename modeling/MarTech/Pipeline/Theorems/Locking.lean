import MarTech.Pipeline.Theorems.Consumption

namespace MarTech

variable {R : Type} [Field R] [LinearOrder R] [FloorRing R] [MathExp R] [Runtime]
         {settings : Settings R}

-- Where every committed call does what it would do on its own, the log is a serial execution.
theorem Consumption.serial_eq_foldl {tables tables' : Tables R}
    {log : List (Consumption × Except Error Reply)}
    (h : Serial ((discipline True).Commits (Spec settings True fun _ => True)) tables log tables') :
    tables'.db = log.foldl (fun db entry => (entry.1.outcome settings db).db db) tables.db := by
  induction h
  case nil => rfl
  case snoc call answer s s' _ hcall hi =>
    obtain ⟨reply, _, h⟩ := hcall.left.serial
    rw [List.foldl_append, List.foldl_cons, List.foldl_nil, ← hi]
    cases h
    case inl h => rw [h]; rfl
    case inr h =>
      cases call
      case failEvent => exact absurd trivial h.right.left
      all_goals exact h.right.elim

-- Whatever calls the workers and the API have under way, and however their statements interleave,
-- the tables are those of the committed calls one after another.
theorem no_lost_update (settings : Settings R) (tables : Tables R)
    (moves : List (Move Consumption)) :
    let server := Server.idle tables |>.run (Consumption.transaction settings) moves
    server.committed.db =
      server.log.foldl (fun db entry => (entry.1.outcome settings db).db db) tables.db := by
  apply Consumption.serial_eq_foldl
  refine Server.run_serial (Consumption.pre_stable True fun _ => True) (fun call => call.safe) ?_
  apply Server.Allowed.of_forall
  intro call _
  cases call
  case failEvent => exact fun _ => .inl trivial
  all_goals trivial

end MarTech
