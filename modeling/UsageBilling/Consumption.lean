import UsageBilling.Postings

/-!
# `ConsumptionService` (`backend/src/services/consumption.service.ts`)

`consume` is the source's function, cut at its awaited database steps: `lookupProduct`, the
`$transaction` around `chargeTx` (`deduct`, then `reject` or `record`), and `recover`, its `catch`.

* `Charge`: the ways the `$transaction` ends, each with its exact condition; `charge_spec` says
  that these are all.
* `Consumed`: the same for a whole `consume` that runs alone; `consume_spec`.
-/

namespace UsageBilling

/-- The input of `consume`. -/
structure ConsumeInput where
  customerId : String
  productId : String
  quantity : Int
  idempotencyKey : Option String := none
  deriving DecidableEq

/-- `Cost = unitPrice × quantity` -/
def cost (product : Product) (input : ConsumeInput) : Int := product.unitPrice * input.quantity

/-- The error for a product that does not exist. -/
def productNotFound (productId : String) : Error := .notFound ("Product not found: " ++ productId)

/-- The error for a customer that does not exist. -/
def customerMissing (customerId : String) : Error :=
  .notFound ("Customer not found: " ++ customerId)

/-- The product read, before the transaction. -/
def lookupProduct (input : ConsumeInput) : Db Product := do
  match ← Product.findUnique input.productId with
  | none => throw (productNotFound input.productId)
  | some product => pure product

/-- The conditional deduction: the funds check is in the `where`. -/
def deduct (P : Prisma) (input : ConsumeInput) (product : Product) : Db Nat :=
  Customer.updateMany P
    { id := input.customerId, balanceGte := some (cost product input) }
    (.decrement (cost product input))

/-- `count === 0`: the read that tells a missing customer from insufficient funds. -/
def reject (P : Prisma) (input : ConsumeInput) (product : Product) : Db LedgerEntry := do
  match ← Customer.findUnique P input.customerId with
  | none => throw (customerMissing input.customerId)
  | some customer => throw (.insufficientFunds customer.balance (cost product input))

/-- The `data` of the ledger row of a consumption. -/
def consumptionData (input : ConsumeInput) (product : Product) : LedgerData where
  customerId := input.customerId
  type := .CONSUMPTION
  productId := some input.productId
  quantity := some input.quantity
  unitPrice := some product.unitPrice
  amount := -cost product input
  idempotencyKey := input.idempotencyKey

/-- The `create` of the ledger row, inside the transaction. -/
def record (P : Prisma) (input : ConsumeInput) (product : Product) : Db LedgerEntry :=
  LedgerEntry.create P (consumptionData input product)

/-- The body of the `$transaction`. -/
def chargeTx (P : Prisma) (input : ConsumeInput) (product : Product) : Db LedgerEntry := do
  let count ← deduct P input product
  if count = 0 then reject P input product else record P input product

/-- The error is the replay signal: a unique violation of a request with a key. -/
def isReplay (input : ConsumeInput) (err : Error) : Bool :=
  input.idempotencyKey.isSome && isUniqueViolation err

/-- The lookup of the original row; if there is none, the error is thrown again. -/
def replay (input : ConsumeInput) (err : Error) : Db LedgerEntry :=
  match input.idempotencyKey with
  | none => throw err
  | some key => do
    match ← LedgerEntry.findUnique key with
    | some original => pure original
    | none => throw err

/-- The `catch` of `consume`. -/
def recover (input : ConsumeInput) (err : Error) : Db LedgerEntry :=
  if isReplay input err then replay input err else throw err

/-- `consume`: the price is read before the transaction, and a refused insert may be a replay. -/
def consume (P : Prisma) (input : ConsumeInput) : Db LedgerEntry := do
  let product ← lookupProduct input
  tryCatch (Txn.transaction (chargeTx P input product)) (recover input)

/-! ## What the transaction does -/

/-- The `Int` arguments of the statements of a charge. -/
def chargeInts (input : ConsumeInput) (product : Product) : List Int :=
  [cost product input, input.quantity, product.unitPrice, -cost product input]

/-- Prisma accepts the cost, and can read the row of the charge back. -/
def chargeFits (P : Prisma) (input : ConsumeInput) (product : Product) : Bool :=
  P.int (cost product input) && (consumptionData input product).ints.all P.column

/-- The ways the `$transaction` of a consume ends in the store `s`. Only `posted` writes. -/
inductive Charge (P : Prisma) (input : ConsumeInput) (product : Product) (s : Store) :
    Except Error LedgerEntry → Store → Prop
  /-- Prisma does not accept the cost or an argument of the insert, or it cannot read back the
  balance or the inserted row. -/
  | refused (h : P.int (cost product input) = false ∨
      P.int (cost product input) = true ∧ ∃ c, s.customers.find? input.customerId = some c ∧
        (c.balance < cost product input ∧ P.column c.balance = false ∨
          cost product input ≤ c.balance ∧
            ((consumptionData input product).ints.all P.int = false ∨
              s.keyFree input.idempotencyKey = true ∧
                (consumptionData input product).ints.all P.column = false))) :
      Charge P input product s (.error (.prisma .intRange)) s
  | missing (hcost : P.int (cost product input) = true)
      (h : s.customers.find? input.customerId = none) :
      Charge P input product s (.error (customerMissing input.customerId)) s
  | short (hcost : P.int (cost product input) = true) (c : Customer)
      (hc : s.customers.find? input.customerId = some c) (h : c.balance < cost product input)
      (hread : P.column c.balance = true) :
      Charge P input product s (.error (.insufficientFunds c.balance (cost product input))) s
  | duplicate (hints : (chargeInts input product).all P.int = true) (c : Customer)
      (hc : s.customers.find? input.customerId = some c) (h : cost product input ≤ c.balance)
      (key : String) (original : LedgerEntry) (hkey : input.idempotencyKey = some key)
      (ho : s.findKey key = some original) :
      Charge P input product s (.error (.prisma .uniqueViolation)) s
  | posted (hfits : chargeFits P input product = true) (c : Customer)
      (hc : s.customers.find? input.customerId = some c) (h : cost product input ≤ c.balance)
      (e : LedgerEntry) (s' : Store) (he : e.toLedgerData = consumptionData input product)
      (hp : Posted P s e s') :
      Charge P input product s (.ok e) s'

section Charge

variable {P : Prisma} {input : ConsumeInput} {product : Product} {s s' : Store}

theorem keyFree_eq_false {key : Option String} (h : s.keyFree key = false) :
    ∃ k o, key = some k ∧ s.findKey k = some o := by
  cases key with
  | none => cases h
  | some k =>
    obtain ⟨o, ho⟩ := Option.isSome_iff_exists.mp (by simpa [Store.keyFree] using h)
    exact ⟨k, o, rfl, ho⟩

/-- The deduction's argument was accepted: the others are those of the insert. -/
theorem all_chargeInts (hcost : P.int (cost product input) = true) :
    (chargeInts input product).all P.int = (consumptionData input product).ints.all P.int := by
  simp only [consumptionData, LedgerData.ints, Option.toList, List.cons_append, List.nil_append,
    List.all_cons, List.all_nil, Bool.and_true, chargeInts, hcost, Bool.true_and]

theorem cost_of_chargeInts (h : (chargeInts input product).all P.int = true) :
    P.int (cost product input) = true := by
  rw [chargeInts, List.all_cons, Bool.and_eq_true] at h
  exact h.1

theorem chargeFits_iff : chargeFits P input product = true ↔
    P.int (cost product input) = true ∧
      (consumptionData input product).ints.all P.column = true :=
  Bool.and_eq_true_iff

/-- A row that can be read back has arguments that Prisma accepts. -/
theorem ints_of_chargeFits (h : chargeFits P input product = true) :
    (chargeInts input product).all P.int = true := by
  obtain ⟨hcost, hread⟩ := chargeFits_iff.mp h
  rw [all_chargeInts hcost]
  exact ints_of_columns hread

/-- Numbers that Prisma can all read back fit. -/
theorem chargeFits_of_columns (h : (chargeInts input product).all P.column = true) :
    chargeFits P input product = true := by
  refine chargeFits_iff.mpr ⟨cost_of_chargeInts (ints_of_columns h), ?_⟩
  rw [chargeInts, List.all_cons, Bool.and_eq_true] at h
  exact h.2

/-- No row was selected: the customer is missing or too poor. -/
theorem reject_spec (hcost : P.int (cost product input) = true)
    (hsel : ∀ c, s.customers.find? input.customerId = some c → c.balance < cost product input) :
    ∃ err, (reject P input product).run s = (.error err, s) ∧
      Charge P input product s (.error err) s := by
  cases hc : s.customers.find? input.customerId with
  | none =>
    refine ⟨_, ?_, .missing hcost hc⟩
    simp [reject, Txn.run_bind, Customer.findUnique, hc]
  | some c =>
    cases hread : P.column c.balance with
    | true =>
      refine ⟨_, ?_, .short hcost c hc (hsel c hc) hread⟩
      simp [reject, Txn.run_bind, Customer.findUnique, hc, hread]
    | false =>
      refine ⟨_, ?_, .refused (.inr ⟨hcost, c, hc, .inl ⟨hsel c hc, hread⟩⟩)⟩
      simp [reject, Txn.run_bind, Customer.findUnique, hc, hread]

/-- The row is inserted after the deduction: a posting, or an error that undoes both. -/
theorem record_spec {c : Customer} (hc : s.customers.find? input.customerId = some c)
    (hle : cost product input ≤ c.balance) (hcost : P.int (cost product input) = true) {h} :
    ∃ r s₁, (record P input product).run
        (s.withCustomers (credit s.customers input.customerId (-cost product input)) h) =
        (r, s₁) ∧ Charge P input product s r (match r with | .ok _ => s₁ | .error _ => s) := by
  have hc' := find?_credit_self (n := -cost product input) hc
  rcases LedgerEntry.create_cases P (consumptionData input product)
      (s.withCustomers (credit s.customers input.customerId (-cost product input)) h) with
    ⟨hi, hrun⟩ | ⟨hi, ⟨hf, hrun⟩ | ⟨hf, ⟨hn, -⟩ | ⟨-, ⟨hno, hrun⟩ | ⟨hread, hrun⟩⟩⟩⟩
  · exact ⟨_, _, hrun, .refused (.inr ⟨hcost, c, hc, .inr ⟨hle, .inl hi⟩⟩)⟩
  · obtain ⟨key, o, hkey, ho⟩ := keyFree_eq_false hf
    exact ⟨_, _, hrun, .duplicate ((all_chargeInts hcost).trans hi) c hc hle key o hkey ho⟩
  · exact absurd (hc'.symm.trans hn) (by simp)
  · exact ⟨_, _, hrun, .refused (.inr ⟨hcost, c, hc, .inr ⟨hle, .inr ⟨hf, hno⟩⟩⟩)⟩
  · exact ⟨_, _, hrun, .posted (chargeFits_iff.mpr ⟨hcost, hread⟩) c hc hle _ _ rfl
      (posted_of_append hc hf)⟩

/-- Every run of the `$transaction` of a consume is one of `Charge`. -/
theorem charge_spec (P : Prisma) (input : ConsumeInput) (product : Product) (s : Store) :
    Charge P input product s ((Txn.transaction (chargeTx P input product)).run s).1
      ((Txn.transaction (chargeTx P input product)).run s).2 := by
  have hsel : ∀ c, CustomerWhere.selects
      { id := input.customerId, balanceGte := some (cost product input) } c =
      (decide (c.id = input.customerId) && decide (cost product input ≤ c.balance)) := fun _ => rfl
  rcases Customer.updateMany_cases P
      { id := input.customerId, balanceGte := some (cost product input) }
      (.decrement (cost product input)) s with
    ⟨hargs, hrun⟩ | ⟨hargs, ⟨hno, hrun⟩ | ⟨c, hc, hs, ⟨hneg, -⟩ | ⟨-, n, h, hn, hrun⟩⟩⟩
  · -- the cost is out of range
    have hcost : P.int (cost product input) = false := by
      simpa [BalanceUpdate.arg] using hargs
    have hbody : (chargeTx P input product).run s = (.error (.prisma .intRange), s) :=
      Txn.run_bind_error hrun
    rw [Txn.transaction_error hbody]
    exact .refused (.inl hcost)
  · have hcost : P.int (cost product input) = true := by
      simpa [BalanceUpdate.arg] using hargs
    obtain ⟨err, hrej, hch⟩ := reject_spec (s := s) hcost fun c hc => by
        have hid : c.id = input.customerId := Table.key_of_find? hc
        have := hno c hc
        simpa [hsel, hid] using this
    have hbody : (chargeTx P input product).run s = (.error err, s) := by
      rw [chargeTx, Txn.run_bind_ok (show (deduct P input product).run s = _ from hrun)]
      exact hrej
    rw [Txn.transaction_error hbody]
    exact hch
  · -- the guard of the `where` excludes a negative balance
    simp only [hsel, Bool.and_eq_true, decide_eq_true_eq] at hs
    simp only [BalanceUpdate.delta] at hneg
    omega
  · simp only [hsel, Bool.and_eq_true, decide_eq_true_eq] at hs
    have hcost : P.int (cost product input) = true := by
      simpa [BalanceUpdate.arg] using hargs
    obtain ⟨r, s₁, hrec, hch⟩ := record_spec (h := h) hc hs.2 hcost
    have hbody : (chargeTx P input product).run s = (r, s₁) := by
      rw [chargeTx, Txn.run_bind_ok (show (deduct P input product).run s = _ from hrun), if_neg hn]
      exact hrec
    cases r with
    | ok e => rw [Txn.transaction_ok hbody]; exact hch
    | error err => rw [Txn.transaction_error hbody]; exact hch

/-- A transaction that throws has written nothing. -/
theorem Charge.store_of_error {err : Error} (h : Charge P input product s (.error err) s') :
    s' = s := by
  cases h <;> rfl

/-- Only a duplicate key makes a charge throw a unique violation. -/
theorem Charge.key_of_unique {err : Error} (h : Charge P input product s (.error err) s')
    (hu : isUniqueViolation err = true) : (chargeInts input product).all P.int = true ∧
      ∃ c key original, s.customers.find? input.customerId = some c ∧
        cost product input ≤ c.balance ∧ input.idempotencyKey = some key ∧
        s.findKey key = some original := by
  cases h with
  | duplicate hints c hc h key original hkey ho =>
    exact ⟨hints, c, key, original, hc, h, hkey, ho⟩
  | _ => simp [isUniqueViolation, customerMissing] at hu

/-! ## What `consume` does when it runs alone -/

/-- The ways a `consume` that runs alone in the store `s` ends. Only `posted` writes. -/
inductive Consumed (P : Prisma) (input : ConsumeInput) (s : Store) :
    Except Error LedgerEntry → Store → Prop
  | noProduct (h : s.products.find? input.productId = none) :
      Consumed P input s (.error (productNotFound input.productId)) s
  | failed (product : Product) (hp : s.products.find? input.productId = some product)
      (err : Error) (h : Charge P input product s (.error err) s)
      (hu : isUniqueViolation err = false) : Consumed P input s (.error err) s
  | replayed (product : Product) (hp : s.products.find? input.productId = some product)
      (hints : (chargeInts input product).all P.int = true) (c : Customer)
      (hc : s.customers.find? input.customerId = some c)
      (hle : cost product input ≤ c.balance) (key : String) (original : LedgerEntry)
      (hkey : input.idempotencyKey = some key) (ho : s.findKey key = some original) :
      Consumed P input s (.ok original) s
  | posted (product : Product) (hp : s.products.find? input.productId = some product)
      (e : LedgerEntry) (s' : Store) (h : Charge P input product s (.ok e) s') :
      Consumed P input s (.ok e) s'

theorem run_lookupProduct (input : ConsumeInput) (s : Store) :
    (lookupProduct input).run s = match s.products.find? input.productId with
      | none => (.error (productNotFound input.productId), s)
      | some product => (.ok product, s) := by
  simp only [lookupProduct, Txn.run_bind, Product.run_findUnique]
  cases s.products.find? input.productId <;> rfl

theorem run_replay {key : String} (hkey : input.idempotencyKey = some key) (err : Error)
    (s : Store) : (replay input err).run s = match s.findKey key with
      | some original => (.ok original, s)
      | none => (.error err, s) := by
  simp only [replay, hkey, Txn.run_bind, LedgerEntry.run_findUnique]
  cases s.findKey key <;> rfl

/-- The replay lookup writes nothing. -/
theorem replay_store (input : ConsumeInput) (err : Error) (s : Store) :
    ((replay input err).run s).2 = s := by
  cases hkey : input.idempotencyKey with
  | none => simp [replay, hkey]
  | some key =>
    rw [run_replay hkey]
    split <;> rfl

theorem run_consume (hp : s.products.find? input.productId = some product) :
    (consume P input).run s =
      (tryCatch (Txn.transaction (chargeTx P input product)) (recover input)).run s := by
  have hl : (lookupProduct input).run s = (.ok product, s) := by rw [run_lookupProduct, hp]
  rw [consume, Txn.run_bind_ok hl]

theorem run_consume_none (hp : s.products.find? input.productId = none) :
    (consume P input).run s = (.error (productNotFound input.productId), s) := by
  have hl : (lookupProduct input).run s = (.error (productNotFound input.productId), s) := by
    rw [run_lookupProduct, hp]
  rw [consume, Txn.run_bind_error hl]

/-- A charge that ends in the replay signal makes `consume` answer with the row of its key. -/
theorem run_consume_replay {err : Error} (hp : s.products.find? input.productId = some product)
    (htx : (Txn.transaction (chargeTx P input product)).run s = (.error err, s'))
    (hr : isReplay input err = true) : s' = s ∧ ∃ key original,
      input.idempotencyKey = some key ∧ s.findKey key = some original ∧
      (consume P input).run s = (.ok original, s) := by
  have hch := charge_spec P input product s
  rw [htx] at hch
  obtain rfl : s' = s := hch.store_of_error
  obtain ⟨-, c, key, o, -, -, hkey, ho⟩ :=
    hch.key_of_unique (by simpa using (Bool.and_eq_true_iff.mp hr).2)
  refine ⟨rfl, key, o, hkey, ho, ?_⟩
  rw [run_consume hp, Txn.run_tryCatch_error htx, recover, if_pos hr, run_replay hkey, ho]

theorem consume_spec (P : Prisma) (input : ConsumeInput) (s : Store) :
    Consumed P input s ((consume P input).run s).1 ((consume P input).run s).2 := by
  cases hp : s.products.find? input.productId with
  | none =>
    rw [run_consume_none hp]
    exact .noProduct hp
  | some product =>
    have hch := charge_spec P input product s
    rw [run_consume hp]
    cases htx : (Txn.transaction (chargeTx P input product)).run s with
    | mk r s₁ =>
    rw [htx] at hch
    cases r with
    | ok e =>
      rw [Txn.run_tryCatch_ok htx]
      exact .posted product hp e s₁ hch
    | error err =>
      rw [Txn.run_tryCatch_error htx]
      obtain rfl := hch.store_of_error
      cases hu : isUniqueViolation err with
      | false =>
        have : (recover input err).run s₁ = (.error err, s₁) := by simp [recover, isReplay, hu]
        rw [this]
        exact .failed product hp err hch hu
      | true =>
        obtain ⟨hints, c, key, o, hc, hle, hkey, ho⟩ := hch.key_of_unique hu
        have : (recover input err).run s₁ = (.ok o, s₁) := by
          rw [recover, if_pos (by simp [isReplay, hkey, hu]), run_replay hkey, ho]
        rw [this]
        exact .replayed product hp hints c hc hle key o hkey ho

end Charge

end UsageBilling
