import UsageBilling.Cursor
import UsageBilling.Api

/-!
# The statuses that the application answers with

Each route documents its statuses, and what it does not expect ends in the middleware as a 500. The
validation has no upper bound, so a number that passes it can still be one that Prisma refuses as
an argument, or cannot read back from the row it has just written. A body that is neither an
object nor an array does not even reach the route.

* `ClientRequest.Fits`: `express.json()` accepts the body, and Prisma the numbers of the request's
  statements.
* `Consumed.fits_or`, `Credited.fits_or`: a request fits and has a documented answer, or it does
  not and Prisma throws.
* `documented_iff`: the answers are the documented ones exactly if the request fits.
-/

namespace UsageBilling

open Js

/-- A request to one of the three routes, with its parsed JSON body. -/
inductive ClientRequest where
  /-- `POST /consumption-events` -/
  | consume (rawKey : Header) (body : Json)
  /-- `POST /customers/:id/credits` -/
  | credit (customerId : String) (body : Json)
  /-- `GET /customers/:id/usage-events` -/
  | usage (customerId : String) (query : UsageQuery)

/-- `express.json()`: strict, so other JSON than an object or an array is refused with a message. -/
def expressJson (refusal : Json → String) (body : Json) : Except String Json :=
  if body.isContainer then .ok body else .error (refusal body)

/-- The request as the application gets it. -/
def ClientRequest.http (refusal : Json → String) : ClientRequest → HttpRequest
  | .consume rawKey body => ⟨.consumptionEvents rawKey, expressJson refusal body⟩
  | .credit customerId body => ⟨.credits customerId, expressJson refusal body⟩
  | .usage customerId query => ⟨.usageEvents customerId query, .ok (.object [])⟩

/-- What the application answers in the store `s`. -/
def respond (P : Prisma) (refusal : Json → String) (s : Store) (r : ClientRequest) : Reply :=
  (app P (r.http refusal) s).1

/-- Prisma accepts the cost of a consume, and reads back the balance of a refusal; it accepts the
numbers of the row, and reads them back if the row is new. -/
def ConsumeInput.Fits (P : Prisma) (s : Store) (input : ConsumeInput) : Prop :=
  ∀ product, s.products.find? input.productId = some product →
    P.int (product.unitPrice * input.quantity) = true ∧
    ∀ c, s.customers.find? input.customerId = some c →
      (c.balance < product.unitPrice * input.quantity → P.column c.balance = true) ∧
      (product.unitPrice * input.quantity ≤ c.balance →
        let ints := [input.quantity, product.unitPrice, -(product.unitPrice * input.quantity)]
        ints.all P.int = true ∧ (s.keyFree input.idempotencyKey = true → ints.all P.column = true))

/-- Prisma accepts the amount of a top-up, and reads it back from the row of a customer. -/
def CreditInput.Fits (P : Prisma) (s : Store) (input : CreditInput) : Prop :=
  P.int input.amount = true ∧
    ((s.customers.find? input.customerId).isSome → P.column input.amount = true)

namespace ClientRequest

/-- The statuses in the comment of the route. -/
def documented : ClientRequest → List Nat
  | .consume .. => [201, 400, 402, 404]
  | .credit .. => [201, 400, 404]
  | .usage .. => [200, 400, 404]

/-- What is documented of the answer: its status, and the body of a 402. -/
structure Documented (P : Prisma) (refusal : Json → String) (s : Store) (r : ClientRequest) :
    Prop where
  status : (respond P refusal s r).status ∈ r.documented
  short : ∀ rawKey body input product c, r = .consume rawKey body →
    parseConsume rawKey body = .ok input → s.products.find? input.productId = some product →
    s.customers.find? input.customerId = some c →
    c.balance < product.unitPrice * input.quantity → s.keyFree input.idempotencyKey = true →
    respond P refusal s r =
      ⟨402, .api (.insufficientFunds c.balance (product.unitPrice * input.quantity))⟩

/-- The body is an object or an array, and what passes the validation has numbers that fit: those
of a consume, the amount of a top-up, the cursor of a page. -/
def Fits (P : Prisma) (s : Store) : ClientRequest → Prop
  | .consume rawKey body => body.isContainer = true ∧
      ∀ input, parseConsume rawKey body = .ok input → input.Fits P s
  | .credit customerId body => body.isContainer = true ∧
      ∀ input, parseCredit customerId body = .ok input → input.Fits P s
  | .usage customerId query => ∀ input cursor, parseUsageQuery customerId query = .ok input →
      (s.customers.find? customerId).isSome → input.cursor = some cursor → P.int cursor = true

end ClientRequest

/-! ## A consume -/

section Consume

variable {P : Prisma} {s s' : Store} {input : ConsumeInput} {product : Product} {answer : Answer}

/-- `Fits` when the product is known. -/
theorem fits_of_found (hp : s.products.find? input.productId = some product)
    (hcost : P.int (cost product input) = true)
    (h : ∀ c, s.customers.find? input.customerId = some c →
      (c.balance < cost product input → P.column c.balance = true) ∧
      (cost product input ≤ c.balance → (consumptionData input product).ints.all P.int = true ∧
        (s.keyFree input.idempotencyKey = true →
          (consumptionData input product).ints.all P.column = true))) :
    input.Fits P s := by
  intro product' hp'
  obtain rfl : product = product' := Option.mem_unique hp hp'
  exact ⟨hcost, h⟩

/-- `Fits` when the balance covers the cost. -/
theorem fits_of_covered {c : Customer} (hp : s.products.find? input.productId = some product)
    (hints : (chargeInts input product).all P.int = true)
    (hread : s.keyFree input.idempotencyKey = true →
      (consumptionData input product).ints.all P.column = true)
    (hc : s.customers.find? input.customerId = some c) (hle : cost product input ≤ c.balance) :
    input.Fits P s := by
  have hcost := cost_of_chargeInts hints
  refine fits_of_found hp hcost fun c' hc' => ?_
  obtain rfl : c = c' := Option.mem_unique hc hc'
  exact ⟨fun hlt => by omega, fun _ => ⟨all_chargeInts hcost ▸ hints, hread⟩⟩

/-- What Prisma refuses does not fit. -/
theorem not_fits_of_refused (hp : s.products.find? input.productId = some product)
    (h : P.int (cost product input) = false ∨
      P.int (cost product input) = true ∧ ∃ c, s.customers.find? input.customerId = some c ∧
        (c.balance < cost product input ∧ P.column c.balance = false ∨
          cost product input ≤ c.balance ∧
            ((consumptionData input product).ints.all P.int = false ∨
              s.keyFree input.idempotencyKey = true ∧
                (consumptionData input product).ints.all P.column = false))) :
    ¬ input.Fits P s := by
  intro hfits
  obtain ⟨hcost, hbal⟩ := hfits product hp
  rcases h with hno | ⟨-, c, hc, ⟨hlt, hno⟩ | ⟨hle, hno | ⟨hfree, hno⟩⟩⟩
  · exact absurd (hno.symm.trans hcost) Bool.false_ne_true
  · exact absurd (hno.symm.trans ((hbal c hc).1 hlt)) Bool.false_ne_true
  · exact absurd (hno.symm.trans ((hbal c hc).2 hle).1) Bool.false_ne_true
  · exact absurd (hno.symm.trans (((hbal c hc).2 hle).2 hfree)) Bool.false_ne_true

/-- A consume either fits and has a documented answer, or it does not fit and Prisma throws. -/
theorem Consumed.fits_or (h : Consumed P input s answer s') :
    (input.Fits P s ∧ (respondConsume answer).status ∈ [201, 400, 402, 404]) ∨
    (¬ input.Fits P s ∧ answer = .error (.prisma .intRange)) := by
  cases h with
  | noProduct hp =>
    refine .inl ⟨fun product hp' => ?_, by simp [respondConsume, productNotFound]⟩
    rw [hp] at hp'; cases hp'
  | failed product hp err hch hu =>
    cases hch with
    | refused href => exact .inr ⟨not_fits_of_refused hp href, rfl⟩
    | missing hcost hc =>
      refine .inl ⟨fits_of_found hp hcost fun c hc' => ?_,
        by simp [respondConsume, customerMissing]⟩
      rw [hc] at hc'; cases hc'
    | short hcost c hc hlt hread =>
      refine .inl ⟨fits_of_found hp hcost fun c' hc' => ?_, by simp [respondConsume]⟩
      obtain rfl : c = c' := Option.mem_unique hc hc'
      exact ⟨fun _ => hread, fun hle => by omega⟩
    | duplicate => cases hu
  | replayed product hp hints c hc hle key original hkey ho =>
    -- the row is there already, so nothing new is read back
    refine .inl ⟨fits_of_covered hp hints (fun hfree => ?_) hc hle, by simp [respondConsume]⟩
    rw [hkey, Store.keyFree_some, ho] at hfree
    cases hfree
  | posted product hp e _ hch =>
    cases hch with
    | posted hfits c hc hle _ _ he hpost =>
      refine .inl ⟨fits_of_covered hp (ints_of_chargeFits hfits) (fun _ => ?_) hc hle,
        by simp [respondConsume]⟩
      exact (chargeFits_iff.mp hfits).2

/-- A consume that fits and that the balance does not cover. -/
theorem consume_short {c : Customer} (hfits : input.Fits P s)
    (hp : s.products.find? input.productId = some product)
    (hc : s.customers.find? input.customerId = some c)
    (hlt : c.balance < product.unitPrice * input.quantity) :
    ((consume P input).run s).1 =
      .error (.insufficientFunds c.balance (product.unitPrice * input.quantity)) := by
  obtain ⟨hcost, hbal⟩ := hfits product hp
  exact congrArg Prod.fst (service_short hp hcost hc hlt ((hbal c hc).1 hlt))

end Consume

/-- A top-up either fits and has a documented answer, or it does not fit and Prisma throws. -/
theorem Credited.fits_or {P : Prisma} {s s' : Store} {input : CreditInput} {answer : Answer}
    (h : Credited P input s answer s') (hpos : 0 < input.amount) :
    (input.Fits P s ∧ (respondCredit answer).status ∈ [201, 400, 404]) ∨
    (¬ input.Fits P s ∧ answer = .error (.prisma .intRange)) := by
  cases h with
  | refused hno =>
    refine .inr ⟨fun hfits => ?_, rfl⟩
    rw [hfits.1] at hno
    cases hno
  | unreadable hint hno c hc =>
    refine .inr ⟨fun hfits => ?_, rfl⟩
    rw [hfits.2 (by simp [hc])] at hno
    cases hno
  | missing hint hc => exact .inl ⟨⟨hint, by simp [hc]⟩, by simp [respondCredit]⟩
  | overdrawn hint c hc hneg =>
    -- a positive amount overdraws nothing
    have := Store.balance_nonneg_of_find? hc
    omega
  | posted hread c hc hle e _ he hp =>
    exact .inl ⟨⟨P.int_of_column _ hread, fun _ => hread⟩, by simp [respondCredit]⟩

/-! ## The three routes -/

section Routes

variable {P : Prisma} {s : Store} {rawKey : Header} {body : Json} {customerId : String}
  {query : UsageQuery} {response : Response}

theorem parseConsume_error (h : parseConsume rawKey body = .error response) :
    response.status = 400 := by
  unfold parseConsume at h
  split at h
  · cases h; rfl
  split at h
  · cases h; rfl
  split at h <;> cases h
  rfl

theorem parseCredit_error (h : parseCredit customerId body = .error response) :
    response.status = 400 := by
  unfold parseCredit at h
  split at h <;> cases h
  rfl

theorem amount_pos {input : CreditInput} (h : parseCredit customerId body = .ok input) :
    0 < input.amount := by
  unfold parseCredit at h
  split at h
  · cases h
  · rename_i amount hamount
    cases h
    exact Json.pos_of_positiveInteger? hamount

theorem parseUsageQuery_error (h : parseUsageQuery customerId query = .error response) :
    response.status = 400 := by
  have hcursor : ∀ limit cursor,
      parseUsageQuery.parseCursor customerId limit cursor = .error response →
      response.status = 400 := by
    intro limit cursor h
    unfold parseUsageQuery.parseCursor at h
    split at h
    · cases h
    · split at h <;> cases h
      rfl
  unfold parseUsageQuery at h
  split at h
  · split at h
    · cases h; rfl
    · exact hcursor _ _ h
  · exact hcursor _ _ h

/-- An accepted body reaches the route. -/
theorem expressJson_container (refusal : Json → String) (h : body.isContainer = true) :
    expressJson refusal body = .ok body := if_pos h

/-- Another body ends in the middleware. -/
theorem expressJson_refused (refusal : Json → String) (h : body.isContainer = false) :
    expressJson refusal body = .error (refusal body) := by
  simp [expressJson, h]

theorem respond_consume_eq (P : Prisma) (refusal : Json → String) (s : Store) (rawKey : Header)
    (h : body.isContainer = true) : respond P refusal s (.consume rawKey body) =
      (postConsumptionEvents P rawKey body s).1.reply := by
  simp only [respond, ClientRequest.http, app, expressJson_container refusal h, Prod.map_fst]

theorem respond_credit_eq (P : Prisma) (refusal : Json → String) (s : Store) (customerId : String)
    (h : body.isContainer = true) : respond P refusal s (.credit customerId body) =
      (postCredits P customerId body s).1.reply := by
  simp only [respond, ClientRequest.http, app, expressJson_container refusal h, Prod.map_fst]

/-- `POST /consumption-events` -/
theorem respond_consume (P : Prisma) (refusal : Json → String) (s : Store) (rawKey : Header)
    (body : Json) : (ClientRequest.consume rawKey body).Documented P refusal s ↔
      (ClientRequest.consume rawKey body).Fits P s := by
  cases hbody : body.isContainer with
  | false =>
    refine ⟨fun hdoc => ?_, fun hfits => by rw [hfits.1] at hbody; cases hbody⟩
    have := hdoc.status
    simp [respond, ClientRequest.http, app, expressJson_refused refusal hbody,
      ClientRequest.documented] at this
  | true =>
  have happ := respond_consume_eq P refusal s rawKey hbody
  cases hparse : parseConsume rawKey body with
  | error response =>
    rw [postConsumptionEvents_refused hparse] at happ
    refine ⟨fun _ => ⟨hbody, fun input hin => ?_⟩, fun _ => ⟨?_, ?_⟩⟩
    · rw [hparse] at hin; cases hin
    · rw [happ, Response.reply, parseConsume_error hparse]
      simp [ClientRequest.documented]
    · rintro _ _ input _ _ ⟨⟩ hin
      rw [hparse] at hin; cases hin
  | ok input =>
    rw [postConsumptionEvents_parsed hparse] at happ
    rcases (consume_spec P input s).fits_or with ⟨hfits, hstatus⟩ | ⟨hno, herr⟩
    · refine ⟨fun _ => ⟨hbody, fun input' hin => ?_⟩, fun _ => ⟨happ ▸ hstatus, ?_⟩⟩
      · cases hparse.symm.trans hin
        exact hfits
      · rintro _ _ input' product c ⟨⟩ hin hp hc hlt -
        cases hparse.symm.trans hin
        rw [happ, Prod.map_fst, consume_short hfits hp hc hlt]
        rfl
    · refine ⟨fun hdoc => ?_, fun hfits => absurd (hfits.2 input hparse) hno⟩
      have := hdoc.status
      rw [happ, Prod.map_fst, herr] at this
      simp [respondConsume, serverError, Response.reply, ClientRequest.documented] at this

/-- `POST /customers/:id/credits` -/
theorem respond_credit (P : Prisma) (refusal : Json → String) (s : Store) (customerId : String)
    (body : Json) : (ClientRequest.credit customerId body).Documented P refusal s ↔
      (ClientRequest.credit customerId body).Fits P s := by
  have hdocumented : (respond P refusal s (.credit customerId body)).status ∈ [201, 400, 404] →
      (ClientRequest.credit customerId body).Documented P refusal s := fun hstatus =>
    ⟨hstatus, by rintro _ _ _ _ _ ⟨⟩⟩
  cases hbody : body.isContainer with
  | false =>
    refine ⟨fun hdoc => ?_, fun hfits => by rw [hfits.1] at hbody; cases hbody⟩
    have := hdoc.status
    simp [respond, ClientRequest.http, app, expressJson_refused refusal hbody,
      ClientRequest.documented] at this
  | true =>
  have happ := respond_credit_eq P refusal s customerId hbody
  cases hparse : parseCredit customerId body with
  | error response =>
    rw [postCredits_refused hparse] at happ
    refine ⟨fun _ => ⟨hbody, fun input hin => ?_⟩, fun _ => hdocumented ?_⟩
    · rw [hparse] at hin; cases hin
    · rw [happ, Response.reply, parseCredit_error hparse]
      simp
  | ok input =>
    rw [postCredits_parsed hparse] at happ
    rcases (credit_spec P input s).fits_or (amount_pos hparse) with ⟨hfits, hstatus⟩ | ⟨hno, herr⟩
    · refine ⟨fun _ => ⟨hbody, fun input' hin => ?_⟩, fun _ => hdocumented (happ ▸ hstatus)⟩
      cases hparse.symm.trans hin
      exact hfits
    · refine ⟨fun hdoc => ?_, fun hfits => absurd (hfits.2 input hparse) hno⟩
      have := hdoc.status
      rw [happ, Prod.map_fst, herr] at this
      simp [respondCredit, serverError, Response.reply, ClientRequest.documented] at this

/-- The service's page, if Prisma accepts the cursor. -/
theorem run_listUsageEvents_ok {input : UsageEventsInput}
    (hint : ∀ cursor, input.cursor = some cursor → P.int cursor = true) :
    ∃ page, (listUsageEvents P input).run s = (.ok page, s) := by
  obtain ⟨customerId, cursor, limit⟩ := input
  cases cursor with
  | none =>
    have hrest : Rest (·.id) none (s.rowsOf customerId) (s.rowsOf customerId) := rfl
    exact ⟨_, run_listUsageEvents (P := P) limit hrest fun c hc => by cases hc⟩
  | some cursor => exact ⟨_, run_listUsageEvents_cursor s customerId limit (hint cursor rfl)⟩

/-- `GET /customers/:id/usage-events` -/
theorem respond_usage (P : Prisma) (refusal : Json → String) (s : Store) (customerId : String)
    (query : UsageQuery) : (ClientRequest.usage customerId query).Documented P refusal s ↔
      (ClientRequest.usage customerId query).Fits P s := by
  have hdocumented : (respond P refusal s (.usage customerId query)).status ∈ [200, 400, 404] →
      (ClientRequest.usage customerId query).Documented P refusal s := fun hstatus =>
    ⟨hstatus, by rintro _ _ _ _ _ ⟨⟩⟩
  have happ : respond P refusal s (.usage customerId query) =
      (getUsageEvents P customerId query s).reply := rfl
  cases hparse : parseUsageQuery customerId query with
  | error response =>
    refine ⟨fun _ input _ hin => ?_, fun _ => hdocumented ?_⟩
    · rw [hparse] at hin; cases hin
    · simp [happ, getUsageEvents, hparse, Response.reply, parseUsageQuery_error hparse]
  | ok input =>
    by_cases hcustomer : (s.customers.find? customerId).isSome = true
    · by_cases hint : ∀ cursor, input.cursor = some cursor → P.int cursor = true
      · obtain ⟨page, hrun⟩ := run_listUsageEvents_ok (s := s) hint
        refine ⟨fun _ input' cursor hin _ hcursor => ?_, fun _ => hdocumented ?_⟩
        · cases hparse.symm.trans hin
          exact hint cursor hcursor
        · simp [happ, getUsageEvents, hparse, hcustomer, hrun, Response.reply]
      · simp only [not_forall, Bool.not_eq_true] at hint
        obtain ⟨cursor, hcursor, hno⟩ := hint
        refine ⟨fun hdoc => ?_, fun hfits => ?_⟩
        · have := hdoc.status
          simp [happ, getUsageEvents, hparse, hcustomer,
            run_listUsageEvents_refused (s := s) hcursor hno, serverError, Response.reply,
            ClientRequest.documented] at this
        · rw [hfits input cursor hparse hcustomer hcursor] at hno; cases hno
    · refine ⟨fun _ input' cursor _ hc => absurd hc hcustomer, fun _ => hdocumented ?_⟩
      simp [happ, getUsageEvents, hparse, hcustomer, Response.reply]

end Routes

end UsageBilling
