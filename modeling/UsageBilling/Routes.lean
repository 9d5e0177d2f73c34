import UsageBilling.Consumption
import UsageBilling.CustomerService
import UsageBilling.Js

/-!
# The routes (`backend/src/routes/`) and the error middleware (`backend/src/app.ts`)

Each route is its validation, the service call, and its `catch`: `parseConsume` and
`respondConsume` for `POST /consumption-events`, `parseCredit` and `respondCredit` for
`POST /customers/:id/credits`, `parseUsageQuery` for `GET /customers/:id/usage-events`. What a
route passes to `next` is answered with status 500 (`serverError`).
-/

namespace UsageBilling

open Js

/-- The bodies of the answers. -/
inductive Body where
  | entry (data : LedgerEntry)
  | customers (data : List Customer)
  | page (page : UsageEventsPage)
  | invalidRequest (message : String)
  | insufficientFunds (balance required : Int)
  | notFound (message : String)
  /-- `{ error: { message } }` of the middleware. -/
  | error (err : Error)
  deriving DecidableEq

/-- What a route sends. -/
structure Response where
  status : Nat
  body : Body
  deriving DecidableEq

/-- A 400 with this message. -/
def invalidRequest (message : String) : Response := ⟨400, .invalidRequest message⟩

/-- The error middleware. -/
def serverError (err : Error) : Response := ⟨500, .error err⟩

/-! ## `POST /consumption-events` -/

/-- The `Idempotency-Key` header as Express gives it. -/
inductive Header where
  | absent
  | single (value : String)
  | many (values : List String)

/-- The first header; a blank one counts as absent. -/
def Header.idempotencyKey (rawKey : Header) : Option String :=
  let headerKey := match rawKey with
    | .absent => none
    | .single value => some value
    | .many values => values.head?
  headerKey.filter fun key => key.length > 0

/-- The checks of `POST /consumption-events`, in their order. -/
def parseConsume (rawKey : Header) (body : Json) : Except Response ConsumeInput :=
  match Json.nonemptyString? (body.field "customerId") with
  | none => .error (invalidRequest "customerId is required")
  | some customerId =>
    match Json.nonemptyString? (body.field "productId") with
    | none => .error (invalidRequest "productId is required")
    | some productId =>
      match Json.positiveInteger? (body.field "quantity") with
      | none => .error (invalidRequest "quantity must be a positive integer")
      | some quantity =>
        .ok { customerId, productId, quantity, idempotencyKey := rawKey.idempotencyKey }

/-- The response of `POST /consumption-events` to what `consume` returns or throws. -/
def respondConsume : Except Error LedgerEntry → Response
  | .ok entry => ⟨201, .entry entry⟩
  | .error (.insufficientFunds balance required) => ⟨402, .insufficientFunds balance required⟩
  | .error (.notFound message) => ⟨404, .notFound message⟩
  | .error err => serverError err

/-- `POST /consumption-events` -/
def postConsumptionEvents (P : Prisma) (rawKey : Header) (body : Json) (s : Store) :
    Response × Store :=
  match parseConsume rawKey body with
  | .error response => (response, s)
  | .ok input => Prod.map respondConsume id ((consume P input).run s)

/-! ## `POST /customers/:id/credits` -/

/-- The checks of `POST /customers/:id/credits`. -/
def parseCredit (customerId : String) (body : Json) : Except Response CreditInput :=
  match Json.positiveInteger? (body.field "amount") with
  | none => .error (invalidRequest "amount must be a positive integer (minor units)")
  | some amount => .ok { customerId, amount }

/-- The response of `POST /customers/:id/credits` to what `creditWallet` returns or throws. -/
def respondCredit : Except Error LedgerEntry → Response
  | .ok entry => ⟨201, .entry entry⟩
  | .error (.customerNotFound customerId) => ⟨404, .notFound ("Customer not found: " ++ customerId)⟩
  | .error err => serverError err

/-- `POST /customers/:id/credits` -/
def postCredits (P : Prisma) (customerId : String) (body : Json) (s : Store) : Response × Store :=
  match parseCredit customerId body with
  | .error response => (response, s)
  | .ok input => Prod.map respondCredit id ((creditWallet P input).run s)

/-! ## The reads -/

/-- The page size of a request without a `limit`. -/
def DEFAULT_USAGE_LIMIT : Nat := 25

/-- The largest page size. -/
def MAX_USAGE_LIMIT : Nat := 100

/-- `limit` and `cursor` of the query, after `Number(...)`; `none` for an absent parameter. -/
structure UsageQuery where
  limit : Option Number := none
  cursor : Option Number := none

/-- The checks of `GET /customers/:id/usage-events`: the limit, then the cursor. -/
def parseUsageQuery (customerId : String) (query : UsageQuery) : Except Response UsageEventsInput :=
  match query.limit, query.cursor with
  | some limit, cursor =>
    if limit.notPositiveInteger then .error (invalidRequest "limit must be a positive integer")
    else parseCursor (min limit.toInt.toNat MAX_USAGE_LIMIT) cursor
  | none, cursor => parseCursor DEFAULT_USAGE_LIMIT cursor
where
  parseCursor (limit : Nat) : Option Number → Except Response UsageEventsInput
    | none => .ok { customerId, limit }
    | some cursor =>
      if cursor.notPositiveInteger then
        .error (invalidRequest "cursor must be a positive integer")
      else .ok { customerId, cursor := some cursor.toInt, limit }

/-- `GET /customers/:id/usage-events` -/
def getUsageEvents (P : Prisma) (customerId : String) (query : UsageQuery) (s : Store) : Response :=
  match parseUsageQuery customerId query with
  | .error response => response
  | .ok input =>
    if (s.customers.find? customerId).isSome then
      match ((listUsageEvents P input).run s).1 with
      | .ok page => ⟨200, .page page⟩
      | .error err => serverError err
    else ⟨404, .notFound ("Customer not found: " ++ customerId)⟩

/-- `GET /customers` -/
def getCustomers (P : Prisma) (s : Store) : Response :=
  match ((listCustomers P).run s).1 with
  | .ok customers => ⟨200, .customers customers⟩
  | .error err => serverError err

/-! ## A request that is refused, or passes the validation -/

section Parsed

variable {P : Prisma} {s : Store} {rawKey : Header} {body : Json} {customerId : String}
  {response : Response}

theorem postConsumptionEvents_refused (h : parseConsume rawKey body = .error response) :
    postConsumptionEvents P rawKey body s = (response, s) := by
  rw [postConsumptionEvents, h]

theorem postConsumptionEvents_parsed {input : ConsumeInput}
    (h : parseConsume rawKey body = .ok input) : postConsumptionEvents P rawKey body s =
      Prod.map respondConsume id ((consume P input).run s) := by
  rw [postConsumptionEvents, h]

theorem postCredits_refused (h : parseCredit customerId body = .error response) :
    postCredits P customerId body s = (response, s) := by
  rw [postCredits, h]

theorem postCredits_parsed {input : CreditInput} (h : parseCredit customerId body = .ok input) :
    postCredits P customerId body s = Prod.map respondCredit id ((creditWallet P input).run s) := by
  rw [postCredits, h]

end Parsed

/-! ## Which answers are a 201 -/

theorem respondConsume_created {r : Except Error LedgerEntry} {e : LedgerEntry} :
    respondConsume r = ⟨201, .entry e⟩ ↔ r = .ok e := by
  unfold respondConsume
  split <;> simp [serverError]

theorem respondCredit_created {r : Except Error LedgerEntry} {e : LedgerEntry} :
    respondCredit r = ⟨201, .entry e⟩ ↔ r = .ok e := by
  unfold respondCredit
  split <;> simp [serverError]

/-- A consume that passed the validation has a positive quantity. -/
theorem quantity_pos {rawKey : Header} {body : Json} {input : ConsumeInput}
    (h : parseConsume rawKey body = .ok input) : 0 < input.quantity := by
  unfold parseConsume at h
  split at h
  · cases h
  split at h
  · cases h
  split at h
  · cases h
  · rename_i quantity hq
    cases h
    exact Json.pos_of_positiveInteger? hq

end UsageBilling
