import UsageBilling.Serial
import UsageBilling.Verdict

/-!
# The Express application (`backend/src/app.ts`) and its requests

* `app P`: what the application does with one request: `express.json()`, the routes, the error
  middleware, and Express's own 404.
* `http P S view`: the application as a system, over the tasks of the two services (`S`) and a
  database that reads see through `view`. A route runs until its first database access; the usage
  history has two of them; a POST then runs as a task of `S`.
* `app_first`: how the two agree on one request.
* `httpDecisions`: where a request takes effect: a POST where its task in `S` does, a read at the
  access that its reply is computed from.
-/

namespace UsageBilling

open Js

/-! ## `ProductService` (`backend/src/services/product.service.ts`) -/

/-- `orderBy: { name: "asc" }` -/
def productByName (a b : Product) : Bool := decide (a.name ≤ b.name)

/-- `productService.listProducts`: the catalog, `orderBy: { name: "asc" }`. -/
def listProducts : Db (List Product) :=
  Txn.reading fun s => .ok (s.products.rows.mergeSort productByName)

/-! ## Requests and replies -/

/-- The route that Express finds for a method and a path. -/
inductive Route where
  | health
  | products
  | customers
  | usageEvents (customerId : String) (query : UsageQuery)
  | credits (customerId : String)
  | consumptionEvents (rawKey : Header)
  /-- No route matches. -/
  | unknown

/-- A request, as the middleware hands it on. -/
structure HttpRequest where
  route : Route
  /-- `req.body` (`{}` without a JSON body), or the message of the parser. -/
  body : Except String Json

/-- The body of a reply. -/
inductive ReplyBody where
  /-- `{ status: "ok" }` -/
  | health
  | products (data : List Product)
  | api (body : Body)
  /-- `{ error: { message } }`, for an error that is none of a service. -/
  | error (message : String)
  /-- Express's page for a path without a route. -/
  | cannot
  deriving DecidableEq

/-- What the client gets. -/
structure Reply where
  status : Nat
  body : ReplyBody
  deriving DecidableEq

/-- `res.ok` -/
def Reply.isOk (reply : Reply) : Bool := 200 ≤ reply.status && reply.status ≤ 299

/-- The reply that a route sends. -/
def Response.reply (r : Response) : Reply := ⟨r.status, .api r.body⟩

/-- `GET /products` -/
def getProducts (s : Store) : Reply :=
  match (listProducts.run s).1 with
  | .ok products => ⟨200, .products products⟩
  | .error err => (serverError err).reply

/-- The application, for one request that runs alone. -/
def app (P : Prisma) (req : HttpRequest) (s : Store) : Reply × Store :=
  match req.body with
  -- `express.json()` passes its error to the middleware, before any route
  | .error message => (⟨500, .error message⟩, s)
  | .ok body =>
    match req.route with
    | .health => (⟨200, .health⟩, s)
    | .products => (getProducts s, s)
    | .customers => ((getCustomers P s).reply, s)
    | .usageEvents customerId query => ((getUsageEvents P customerId query s).reply, s)
    | .credits customerId => Prod.map Response.reply id (postCredits P customerId body s)
    | .consumptionEvents rawKey =>
      Prod.map Response.reply id (postConsumptionEvents P rawKey body s)
    | .unknown => (⟨404, .cannot⟩, s)

/-! ## A request between its database accesses -/

/-- What a route has done after its first database access, or without one. -/
inductive First where
  | answer (reply : Reply)
  /-- The customer exists, and the page is read next. -/
  | list (input : UsageEventsInput)
  /-- The service is called. -/
  | serve (r : Request)

/-- What a request does at once: the checks of the middleware and of its route, and the reads that
need no service. -/
def HttpRequest.first (P : Prisma) (req : HttpRequest) (s : Store) : First :=
  match req.body with
  | .error message => .answer ⟨500, .error message⟩
  | .ok body =>
    match req.route with
    | .health => .answer ⟨200, .health⟩
    | .products => .answer (getProducts s)
    | .customers => .answer (getCustomers P s).reply
    | .usageEvents customerId query =>
      match parseUsageQuery customerId query with
      | .error response => .answer response.reply
      | .ok input =>
        if (s.customers.find? customerId).isSome then .list input
        else .answer (Response.reply ⟨404, .notFound ("Customer not found: " ++ customerId)⟩)
    | .credits customerId =>
      match parseCredit customerId body with
      | .error response => .answer response.reply
      | .ok input => .serve (.credit input)
    | .consumptionEvents rawKey =>
      match parseConsume rawKey body with
      | .error response => .answer response.reply
      | .ok input => .serve (.consume input)
    | .unknown => .answer ⟨404, .cannot⟩

/-- The page of the usage history. -/
def pageReply (P : Prisma) (input : UsageEventsInput) (s : Store) : Reply :=
  match ((listUsageEvents P input).run s).1 with
  | .ok page => Response.reply ⟨200, .page page⟩
  | .error err => (serverError err).reply

/-- The reply of a POST to the service's answer. -/
def Request.respond : Request → Answer → Response
  | .consume _ => respondConsume
  | .credit _ => respondCredit

/-- A POST is answered with a 201 and a row exactly if the service returned the row. -/
theorem respond_created {r : Request} {a : Answer} {e : LedgerEntry} :
    (r.respond a).reply = ⟨201, .api (.entry e)⟩ ↔ a = .ok e := by
  have hresponse :
      (r.respond a).reply = ⟨201, .api (.entry e)⟩ ↔ r.respond a = ⟨201, .entry e⟩ := by
    generalize r.respond a = response
    obtain ⟨status, body⟩ := response
    simp [Response.reply]
  rw [hresponse]
  cases r with
  | consume input => exact respondConsume_created
  | credit input => exact respondCredit_created

/-- What a service throws is answered with no success. -/
theorem not_ok_of_error {r : Request} {err : Error} :
    (r.respond (.error err)).reply.isOk = false := by
  cases r <;> cases err <;> rfl

/-- What follows the first access. -/
def First.finish (P : Prisma) (s : Store) : First → Reply × Store
  | .answer reply => (reply, s)
  | .list input => (pageReply P input s, s)
  | .serve r => ((r.respond (service P r s).1).reply, (service P r s).2)

section First

variable {P : Prisma} {req : HttpRequest} {s s' : Store}

/-- A request that runs alone is its first access and what follows. -/
theorem app_first (P : Prisma) (req : HttpRequest) (s : Store) :
    app P req s = (req.first P s).finish P s := by
  unfold app HttpRequest.first
  cases req.body with
  | error message => rfl
  | ok body =>
    cases req.route with
    | usageEvents customerId query =>
      simp only [getUsageEvents]
      cases parseUsageQuery customerId query with
      | error response => rfl
      | ok input =>
        simp only []
        split
        · simp only [First.finish, pageReply]
          cases ((listUsageEvents P input).run s).1 <;> rfl
        · rfl
    | credits customerId =>
      simp only [postCredits]
      cases parseCredit customerId body <;> rfl
    | consumptionEvents rawKey =>
      simp only [postConsumptionEvents]
      cases parseConsume rawKey body <;> rfl
    | _ => rfl

/-- Whether a service is called does not depend on the database. -/
theorem first_serve {r : Request} (h : req.first P s = .serve r) (s' : Store) :
    req.first P s' = .serve r := by
  unfold HttpRequest.first at h ⊢
  cases hbody : req.body with
  | error message => simp [hbody] at h
  | ok body =>
    simp only [hbody] at h ⊢
    cases hroute : req.route with
    | usageEvents customerId query =>
      simp only [hroute] at h
      split at h
      · cases h
      · split at h <;> cases h
    | credits customerId => simpa only [hroute] using h
    | consumptionEvents rawKey => simpa only [hroute] using h
    | _ => simp [hroute] at h

/-- A page is read next: the customer exists, and stays. -/
theorem first_list {input : UsageEventsInput} (h : req.first P s = .list input)
    (hkeep : ∀ id, (s'.customers.find? id).isSome = (s.customers.find? id).isSome) :
    req.first P s' = .list input := by
  unfold HttpRequest.first at h ⊢
  cases hbody : req.body with
  | error message => simp [hbody] at h
  | ok body =>
    simp only [hbody] at h ⊢
    cases hroute : req.route with
    | usageEvents customerId query => simpa only [hroute, hkeep] using h
    | credits customerId =>
      simp only [hroute] at h
      split at h <;> cases h
    | consumptionEvents rawKey =>
      simp only [hroute] at h
      split at h <;> cases h
    | _ => simp [hroute] at h

end First

/-! ## The application as a system -/

/-- A request on its way through the application; `τ` are the tasks of the services. -/
inductive HttpTask (τ : Type) where
  | arrived (req : HttpRequest)
  | listing (req : HttpRequest) (input : UsageEventsInput)
  | serving (req : HttpRequest) (t : τ)
  | replied (req : HttpRequest) (reply : Reply)

/-- The application over the tasks of the services, and a database that reads see as `view`. -/
def http {σ τ : Type} (P : Prisma) (S : Sys σ Request τ Answer) (view : σ → Store) :
    Sys σ HttpRequest (HttpTask τ) Reply where
  start := .arrived
  request
    | .arrived req | .listing req _ | .serving req _ | .replied req _ => req
  answer
    | .serving _ t => (S.answer t).map fun a => ((S.request t).respond a).reply
    | .replied _ reply => some reply
    | _ => none
  step
    | _, .arrived req, s =>
      match req.first P (view s) with
      | .answer reply => (.replied req reply, s)
      | .list input => (.listing req input, s)
      | .serve r => (.serving req (S.start r), s)
    | _, .listing req input, s => (.replied req (pageReply P input (view s)), s)
    | i, .serving req t, s => (.serving req (S.step i t s).1, (S.step i t s).2)
    | _, .replied req reply, s => (.replied req reply, s)
  request_start _ := rfl
  request_step i t s := by
    cases t with
    | arrived req =>
      simp only []
      cases req.first P (view s) <;> rfl
    | _ => rfl
  step_answered i t s h := by
    cases t with
    | serving req t =>
      have ha : (S.answer t).isSome := by simpa using h
      simp only [S.step_answered i t s ha]
    | replied req reply => rfl
    | _ => cases h

/-- A route leaves the state as it is until it calls a service. -/
theorem HttpTask.step_arrived {σ τ : Type} {P : Prisma} {S : Sys σ Request τ Answer}
    {view : σ → Store} (req : HttpRequest) (i : Nat) (s : σ) :
    ((http P S view).step i (.arrived req) s).2 = s := by
  simp only [http]
  cases req.first P (view s) <;> rfl

/-! ## Where a request takes effect -/

section Decisions

variable {σ τ : Type} {P : Prisma} {S : Sys σ Request τ Answer}

/-- A step of a service keeps the database, or posts a row. -/
theorem store_of_point {D : S.Decisions (service P)} {s : σ} {i : Nat} {t : τ} (h : D.Ok s i t) :
    D.abs (S.step i t s).2 = D.abs s ∨ ∃ e, Posted P (D.abs s) e (D.abs (S.step i t s).2) := by
  rcases D.point s i t h with ⟨-, heq⟩ | ⟨-, a, -, happ⟩
  · exact .inl heq
  · rw [show D.abs (S.step i t s).2 = (service P (S.request t) (D.abs s)).2 by rw [happ]]
    rcases service_cases P (S.request t) (D.abs s) with ⟨heq, -⟩ | ⟨e, -, -, hp⟩
    · exact .inl heq
    · exact .inr ⟨e, hp⟩

/-- A step of a service keeps the customers. -/
theorem customers_of_point {D : S.Decisions (service P)} {s : σ} {i : Nat} {t : τ} (h : D.Ok s i t)
    (id : String) : ((D.abs (S.step i t s).2).customers.find? id).isSome =
      ((D.abs s).customers.find? id).isSome := by
  rcases store_of_point h with heq | ⟨e, hp⟩
  · rw [heq]
  · exact hp.find?_isSome id

namespace HttpTask

/-- The reply that is fixed in the state `s`. -/
def decided (D : S.Decisions (service P)) (s : σ) : HttpTask τ → Option Reply
  | .serving _ t => (D.decided s t).map fun a => ((S.request t).respond a).reply
  | .replied _ reply => some reply
  | _ => none

/-- The invariant of a request. -/
def Ok (D : S.Decisions (service P)) (s : σ) (i : Nat) : HttpTask τ → Prop
  | .listing req input => req.first P (D.abs s) = .list input
  | .serving req t => D.Ok s i t ∧ ∀ s', req.first P s' = .serve (S.request t)
  | _ => True

variable {D : S.Decisions (service P)} {s : σ} {i j : Nat} {t u : HttpTask τ}

theorem Ok.step (h : t.Ok D s i) : ((http P S D.abs).step i t s).1.Ok D
    ((http P S D.abs).step i t s).2 i := by
  cases t with
  | arrived req =>
    simp only [http]
    cases hf : req.first P (D.abs s) with
    | answer reply => trivial
    | list input => exact hf
    | serve r =>
      refine ⟨D.ok_start s i r, fun s' => ?_⟩
      rw [S.request_start]
      exact first_serve hf s'
  | serving req t =>
    refine ⟨D.ok_step s i t h.1, fun s' => ?_⟩
    rw [S.request_step]
    exact h.2 s'
  | _ => trivial

/-- A step of one request keeps the invariants of the others, and decides nothing for them. -/
theorem Ok.stable (hne : i ≠ j) (h : t.Ok D s i) (hu : u.Ok D s j) :
    u.Ok D ((http P S D.abs).step i t s).2 j ∧
      u.decided D ((http P S D.abs).step i t s).2 = u.decided D s := by
  cases t with
  | serving req t =>
    cases u with
    | listing req' input =>
      exact ⟨first_list hu (customers_of_point h.1), rfl⟩
    | serving req' u =>
      refine ⟨⟨D.ok_stable s i t j u hne h.1 hu.1, hu.2⟩, ?_⟩
      simp only [decided, http, D.decided_stable s i t j u hne h.1 hu.1]
    | _ => exact ⟨trivial, rfl⟩
  | arrived req =>
    rw [step_arrived]
    exact ⟨hu, rfl⟩
  | _ => exact ⟨hu, rfl⟩

/-- A step decides nothing, or it decides the reply: that of the application on the database. -/
theorem Ok.point (h : t.Ok D s i) :
    (((http P S D.abs).step i t s).1.decided D ((http P S D.abs).step i t s).2 = t.decided D s ∧
      D.abs ((http P S D.abs).step i t s).2 = D.abs s) ∨
    t.decided D s = none ∧ ∃ reply,
      ((http P S D.abs).step i t s).1.decided D ((http P S D.abs).step i t s).2 = some reply ∧
      app P ((http P S D.abs).request t) (D.abs s) =
        (reply, D.abs ((http P S D.abs).step i t s).2) := by
  cases t with
  | arrived req =>
    simp only [http, app_first]
    cases hf : req.first P (D.abs s) with
    | answer reply => exact .inr ⟨rfl, reply, rfl, rfl⟩
    | list input => exact .inl ⟨rfl, rfl⟩
    | serve r => exact .inl ⟨by simp only [decided, D.decided_start, Option.map_none], rfl⟩
  | listing req input =>
    refine .inr ⟨rfl, _, rfl, ?_⟩
    show app P req (D.abs s) = _
    rw [app_first, show req.first P (D.abs s) = .list input from h]
    rfl
  | serving req t =>
    rcases D.point s i t h.1 with ⟨hdec, habs⟩ | ⟨hnone, a, hsome, happ⟩
    · refine .inl ⟨?_, habs⟩
      simp only [http, decided, hdec, S.request_step]
    · refine .inr ⟨by simp only [decided, hnone, Option.map_none], ?_⟩
      refine ⟨((S.request t).respond a).reply, ?_, ?_⟩
      · simp only [http, decided, hsome, S.request_step, Option.map_some]
      · show app P req (D.abs s) = _
        rw [app_first, h.2]
        simp only [First.finish, happ]
        rfl
  | replied req reply => exact .inl ⟨rfl, rfl⟩

end HttpTask

/-- The step at which each request of the application takes effect. -/
def httpDecisions (D : S.Decisions (service P)) : (http P S D.abs).Decisions (app P) where
  abs := D.abs
  decided s t := t.decided D s
  Ok s i t := t.Ok D s i
  ok_start _ _ _ := trivial
  ok_step _ _ _ h := h.step
  ok_stable _ _ _ _ _ hne h hu := (h.stable hne hu).1
  decided_start _ _ := rfl
  decided_answer s t a h := by
    cases t with
    | serving req t =>
      obtain ⟨b, hb, rfl⟩ := Option.map_eq_some_iff.mp h
      simp only [HttpTask.decided, D.decided_answer s t b hb, Option.map_some]
    | replied req reply => exact h
    | _ => cases h
  decided_stable _ _ _ _ _ hne h hu := (h.stable hne hu).2
  point _ _ _ h := h.point

end Decisions

end UsageBilling
