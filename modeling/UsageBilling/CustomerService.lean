import UsageBilling.Postings

/-!
# `CustomerService` (`backend/src/services/customer.service.ts`)

* `creditWallet`: one `$transaction`, `increment` then `create`. `Credited` lists the ways it
  ends, and `credit_spec` says that these are all.
* `listCustomers`: the read of all customers.
* `listUsageEvents`: one page of a customer's ledger rows, newest first.
-/

namespace UsageBilling

/-- The input of `creditWallet`. -/
structure CreditInput where
  customerId : String
  amount : Int
  deriving DecidableEq

/-! ## Top-ups -/

/-- The increment, with no guard but the customer's id. -/
def increment (P : Prisma) (input : CreditInput) : Db Nat :=
  Customer.updateMany P { id := input.customerId } (.increment input.amount)

/-- The `data` of the ledger row of a top-up. -/
def creditData (input : CreditInput) : LedgerData where
  customerId := input.customerId
  type := .CREDIT
  amount := input.amount

/-- The body of the `$transaction`. -/
def creditTx (P : Prisma) (input : CreditInput) : Db LedgerEntry := do
  let count ← increment P input
  if count = 0 then throw (.customerNotFound input.customerId)
  else LedgerEntry.create P (creditData input)

/-- `creditWallet`: the increment and the row in one transaction. -/
def creditWallet (P : Prisma) (input : CreditInput) : Db LedgerEntry :=
  Txn.transaction (creditTx P input)

/-- The ways a `creditWallet` ends in the store `s`. Only `posted` writes. -/
inductive Credited (P : Prisma) (input : CreditInput) (s : Store) :
    Except Error LedgerEntry → Store → Prop
  | refused (h : P.int input.amount = false) : Credited P input s (.error (.prisma .intRange)) s
  /-- The inserted row cannot be read back. -/
  | unreadable (hint : P.int input.amount = true) (hno : P.column input.amount = false)
      (c : Customer) (hc : s.customers.find? input.customerId = some c)
      (h : 0 ≤ c.balance + input.amount) : Credited P input s (.error (.prisma .intRange)) s
  | missing (hint : P.int input.amount = true)
      (h : s.customers.find? input.customerId = none) :
      Credited P input s (.error (.customerNotFound input.customerId)) s
  /-- A negative amount that the `CHECK` refuses. -/
  | overdrawn (hint : P.int input.amount = true) (c : Customer)
      (hc : s.customers.find? input.customerId = some c) (h : c.balance + input.amount < 0) :
      Credited P input s (.error (.prisma .checkViolation)) s
  | posted (hread : P.column input.amount = true) (c : Customer)
      (hc : s.customers.find? input.customerId = some c)
      (h : 0 ≤ c.balance + input.amount) (e : LedgerEntry) (s' : Store)
      (he : e.toLedgerData = creditData input) (hp : Posted P s e s') :
      Credited P input s (.ok e) s'

theorem credit_spec (P : Prisma) (input : CreditInput) (s : Store) :
    Credited P input s ((creditWallet P input).run s).1 ((creditWallet P input).run s).2 := by
  have hsel : ∀ c, s.customers.find? input.customerId = some c →
      CustomerWhere.selects { id := input.customerId } c = true := fun c hc => by
    have hid : c.id = input.customerId := Table.key_of_find? hc
    simp [CustomerWhere.selects, hid]
  have hint : ((BalanceUpdate.increment input.amount).arg :: ([] : List Int)).all P.int =
      P.int input.amount := by simp [BalanceUpdate.arg]
  rcases Customer.updateMany_cases P { id := input.customerId } (.increment input.amount) s with
    ⟨hargs, hrun⟩ | ⟨hargs, ⟨hno, hrun⟩ | ⟨c, hc, -, ⟨hneg, hrun⟩ | ⟨hpos, n, h, hn, hrun⟩⟩⟩
  · have hbody : (creditTx P input).run s = (.error (.prisma .intRange), s) :=
      Txn.run_bind_error hrun
    rw [creditWallet, Txn.transaction_error hbody]
    exact .refused (hint.symm.trans hargs)
  · have hbody : (creditTx P input).run s =
        (.error (.customerNotFound input.customerId), s) := by
      rw [creditTx, Txn.run_bind_ok (show (increment P input).run s = _ from hrun)]
      rfl
    rw [creditWallet, Txn.transaction_error hbody]
    refine .missing (hint.symm.trans hargs) ?_
    cases hc : s.customers.find? input.customerId with
    | none => rfl
    | some c => exact absurd (hsel c hc) (by rw [hno c hc]; decide)
  · have hbody : (creditTx P input).run s = (.error (.prisma .checkViolation), s) :=
      Txn.run_bind_error hrun
    rw [creditWallet, Txn.transaction_error hbody]
    exact .overdrawn (hint.symm.trans hargs) c hc hneg
  · -- the row has no key and its arguments were accepted: it is inserted, and read back
    have hcolumns : (creditData input).ints.all P.column = P.column input.amount := by
      simp [creditData, LedgerData.ints]
    have hints : (creditData input).ints.all P.int = true := by
      simpa [creditData, LedgerData.ints, BalanceUpdate.arg] using hargs
    have hfree : (s.withCustomers (credit s.customers input.customerId input.amount) h).keyFree
        (creditData input).idempotencyKey = true := rfl
    rcases LedgerEntry.create_cases P (creditData input)
        (s.withCustomers (credit s.customers input.customerId input.amount) h) with
      ⟨hi, -⟩ | ⟨-, ⟨hf, -⟩ | ⟨hf, ⟨hnone, -⟩ | ⟨-, hrec⟩⟩⟩
    · rw [hints] at hi; cases hi
    · cases hf
    · exact absurd ((find?_credit_self hc).symm.trans hnone) (by simp)
    · have hbody : ∀ r, (LedgerEntry.create P (creditData input)).run _ = r →
          (creditTx P input).run s = r := fun r hr => by
        rw [creditTx, Txn.run_bind_ok (show (increment P input).run s = _ from hrun), if_neg hn]
        exact hr
      rcases hrec with ⟨hno, hrec⟩ | ⟨hread, hrec⟩
      · rw [creditWallet, Txn.transaction_error (hbody _ hrec)]
        exact .unreadable (hint.symm.trans hargs) (hcolumns.symm.trans hno) c hc hpos
      · rw [creditWallet, Txn.transaction_ok (hbody _ hrec)]
        exact .posted (hcolumns.symm.trans hread) c hc hpos _ _ rfl (posted_of_append hc hf)

/-! ## Reads -/

/-- `orderBy: { name: "asc" }` -/
def byName (a b : Customer) : Bool := decide (a.name ≤ b.name)

/-- `GET /customers` reads every row; one balance that Prisma cannot read fails the whole read. -/
def listCustomers (P : Prisma) : Db (List Customer) :=
  Txn.reading fun s =>
    if s.customers.rows.all fun c => P.column c.balance then
      .ok (s.customers.rows.mergeSort byName)
    else .error (.prisma .intRange)

/-- The input of `listUsageEvents`. -/
structure UsageEventsInput where
  customerId : String
  cursor : Option Int := none
  /-- At least 1 and at most `MAX_USAGE_LIMIT` at the route. -/
  limit : Nat

/-- A page, with the cursor of the next older one. -/
structure UsageEventsPage where
  data : List LedgerEntry
  nextCursor : Option Nat
  deriving DecidableEq

/-- `id <= (SELECT id FROM LedgerEntry WHERE id = cursor)`: no row has it if `cursor` has none. -/
def Store.upToCursor (s : Store) (cursor : Int) (e : LedgerEntry) : Bool :=
  (s.ledger.find? fun c => (c.id : Int) = cursor).any fun c => e.id ≤ c.id

/-- `ledgerEntry.findMany({ where: { customerId }, orderBy: { id: "desc" }, take })`, with
`cursor: { id }, skip: 1` if there is a cursor: the rows selected from the newest on, without the
first of them (`OFFSET 1`), at most `take`. -/
def LedgerEntry.findMany (P : Prisma) (customerId : String) (cursor : Option Int) (take : Nat) :
    Db (List LedgerEntry) :=
  Txn.reading fun s =>
    match cursor with
    | none => .ok ((s.ledger.filter (·.customerId = customerId)).reverse.take take)
    | some c =>
      if P.int c then
        .ok (((s.ledger.filter fun e => e.customerId = customerId && s.upToCursor c e).reverse.drop
          1).take take)
      else .error (.prisma .intRange)

/-- `listUsageEvents`: one row more than the page tells whether there is a next one. -/
def listUsageEvents (P : Prisma) (input : UsageEventsInput) : Db UsageEventsPage := do
  let rows ← LedgerEntry.findMany P input.customerId input.cursor (input.limit + 1)
  let hasMore := rows.length > input.limit
  let page := if hasMore then rows.take input.limit else rows
  let nextCursor := if hasMore then page.getLast?.map (·.id) else none
  pure { data := page, nextCursor }

end UsageBilling
