import MarTech.Database.Repositories

namespace MarTech

-- What an endpoint lets through as `limit`.
structure Limit (most : Nat) where
  limit  : Nat
  bounds : 1 ≤ limit ∧ limit ≤ most

variable {R κ : Type} [LinearOrder κ]

-- An entry of the answer of `list_customers`.
structure CustomerSummary where
  id         : String
  attributes : Json.Object
  lastActive : Option Timestamp

def CustomerSummary.of (customer : Customer) : CustomerSummary where
  id         := customer.id
  attributes := customer.attributes
  lastActive := customer.lastActive

-- The condition that `list_customers` adds for a search.
def searchWhere (search : String) (customer : Customer) : Bool :=
  search = "" || search.toList <:+: customer.id.toList

-- The database compares strings by a collation, which tells them apart.
def listCustomers (collation : String ↪ κ) (e : Evaluation fun c : Customer => collation c.id)
    (n : Nat) (db : Db R) (search : String := "") (limit : Nat := 20) (offset : Nat := 0) :
    List CustomerSummary :=
  e.select n limit offset (db.customers.rows.filter (searchWhere search)) |>.map .of

end MarTech
