import UsageBilling.ConsumeForm
import UsageBilling.Traffic

/-!
# From a click in `ConsumeForm` to the row in the ledger

The form, the network and the backends with any other traffic, as one system. An attempt of the form
arrives never, late or several times; its reply may get lost, while the form retries; the process
that serves it may die.

* `Session.step`: one event. `consumeResult`: what `api.ts` makes of a reply.
* `Session.Ok`: the invariant. It ties each request with a key of the form to the attempt that it
  was, and what the form shows to the ledger.
* `Session.Exact`: each submission is charged at most once, for what the form sent, and a success
  shows the row; `submission_exact`: so it is in every run.
-/

namespace UsageBilling

open Js Sys

/-! ## `consume` of `api.ts` -/

/-- The number in `JSON.stringify`. -/
def Json.ofNumber : Number → Json
  | .finite q => .number (.finite q)
  | _ => .null

/-- `JSON.stringify(req)`, as it is parsed again. -/
def ConsumeRequest.json (req : ConsumeRequest) : Json :=
  .object [("customerId", .string req.customerId), ("productId", .string req.productId),
    ("quantity", Json.ofNumber req.quantity)]

/-- The header of an attempt, as it reaches Express. -/
def Attempt.rawKey (a : Attempt) : Header :=
  match a.idempotencyKey with
  | none => .absent
  | some key => .single key

/-- The POST of an attempt. -/
def Attempt.request (a : Attempt) : HttpRequest where
  route := .consumptionEvents a.rawKey
  body := .ok a.body.json

/-- `res.statusText` -/
def statusText : Nat → String
  | 400 => "Bad Request"
  | 404 => "Not Found"
  | 500 => "Internal Server Error"
  | _ => ""

/-- `body.message`; a body that is no JSON has none either. -/
def ReplyBody.message? : ReplyBody → Option String
  | .api (.invalidRequest message) | .api (.notFound message) => some message
  | _ => none

/-- The message of the error that is thrown if `res.ok` is false. -/
def Reply.failure (reply : Reply) : String :=
  match reply.body.message?.filter (· ≠ "") with
  | some message => message
  | none => "Request failed: " ++ toString reply.status ++ " " ++ statusText reply.status

/-- `body.balance` and `body.required`, which each body of a 402 has. -/
def ReplyBody.funds : ReplyBody → Int × Int
  | .api (.insufficientFunds balance required) => (balance, required)
  | _ => (0, 0)

/-- `body.data`; `none` for `undefined`. -/
def ReplyBody.entry? : ReplyBody → Option LedgerEntry
  | .api (.entry data) => some data
  | _ => none

/-- What `consume` returns or throws. -/
def consumeResult (reply : Reply) : Except Failure (Option LedgerEntry) :=
  if reply.status = 402 then .error (.insufficientFunds reply.body.funds.1 reply.body.funds.2)
  else if reply.isOk then .ok reply.body.entry?
  else .error (.other reply.failure)

/-! ## The system -/

/-- A form, the deployment, and what has arrived there from the form. -/
structure Session where
  form : FormState
  backends : Backends
  /-- Of each attempt that arrived: its place in the history of the form, and the index of its
  request. -/
  arrived : List (Nat × Nat) := []
  /-- `mutation.data` -/
  data : Option LedgerEntry := none

/-- What happens to the form and to the deployment. -/
inductive SessionEvent where
  /-- What the user does, a render, or the timer of a retry. -/
  | user (e : FormEvent)
  /-- A request of another client arrives, or a request takes a turn. -/
  | traffic (a : Act Arrival)
  /-- The attempt at this place arrives (not for the first time, perhaps). -/
  | deliver (place : Nat) (fault : Option (Fault String))
  /-- The reply to this request reaches the form. -/
  | receive (ticket : Nat)
  /-- The attempt in flight fails on the way. -/
  | lose (message : String)

/-- The form fails and succeeds by replies. -/
def FormEvent.isReply : FormEvent → Bool
  | .fail _ | .succeed => true
  | _ => false

/-- An attempt has been sent, and its reply is to come. -/
def Mutation.isInFlight : Mutation → Bool
  | .inFlight _ _ => true
  | _ => false

namespace Session

variable (P : Prisma) (uuid : Nat → String)

/-- The form opens on the store `s`. -/
def init (s : Store) (presetCustomerId : Option String) : Session where
  form := .init presetCustomerId
  backends := Sys.init ⟨s, none⟩

/-- The session after an event. -/
def step (x : Session) : SessionEvent → Session
  | .user e => if e.isReply then x else { x with form := x.form.step uuid e }
  | .traffic a => { x with backends := (deployment P).act x.backends a }
  | .deliver place fault =>
    match x.form.sent[place]? with
    | some (.attempt _ a) =>
      { x with
        backends := (deployment P).act x.backends (.submit (a.request, fault))
        arrived := x.arrived ++ [(place, x.backends.tasks.length)] }
    | _ => x
  | .receive ticket =>
    -- the attempt in flight is the last one
    if x.form.mutation.isInFlight ∧ (x.form.sent.length - 1, ticket) ∈ x.arrived then
      match (x.backends.tasks[ticket]?).bind (deployment P).answer with
      | none => x
      | some reply =>
        match consumeResult reply with
        | .ok data => { x with form := x.form.step uuid .succeed, data }
        | .error err => { x with form := x.form.step uuid (.fail err) }
    else x
  | .lose message => { x with form := x.form.step uuid (.fail (.other message)) }

/-- The session after some events. -/
def run (s : Store) (presetCustomerId : Option String) (events : List SessionEvent) : Session :=
  events.foldl (step P uuid) (.init s presetCustomerId)

end Session

/-! ## What an attempt posts -/

/-- The row is the charge of what the form sent, at the price of the product. -/
def Charges (s : Store) (body : ConsumeRequest) (e : LedgerEntry) : Prop :=
  ∃ product quantity, s.products.find? body.productId = some product ∧
    body.quantity = .finite (quantity : Int) ∧ 0 < quantity ∧
    e.customerId = body.customerId ∧ e.productId = some body.productId ∧
    e.quantity = some quantity ∧ e.amount = -(product.unitPrice * quantity)

section Attempt

variable {P : Prisma} {s : Store} {a : Attempt} {key : String}

theorem length_pos_of_ne {key : String} (h : key ≠ "") : 0 < key.length :=
  Nat.pos_of_ne_zero fun h0 => h (String.length_eq_zero_iff.mp h0)

/-- The request has the key of the attempt. -/
theorem key_request (h : a.idempotencyKey = keyHeader key) : a.request.key = keyHeader key := by
  by_cases hkey : key = ""
  · simp [HttpRequest.key, Attempt.request, Attempt.rawKey, h, keyHeader, hkey,
      Header.idempotencyKey]
  · have hlen := length_pos_of_ne hkey
    simp [HttpRequest.key, Attempt.request, Attempt.rawKey, h, keyHeader, hkey,
      Header.idempotencyKey, hlen]

theorem keyHeader_some (h : key ≠ "") : keyHeader key = some key := by
  rw [keyHeader, if_neg h]

/-- What passes the validation is what the form sent. -/
theorem parse_request {rawKey : Header} {body : ConsumeRequest} {input : ConsumeInput}
    (h : parseConsume rawKey body.json = .ok input) :
    input.customerId = body.customerId ∧ input.productId = body.productId ∧
      body.quantity = .finite (input.quantity : Int) ∧ 0 < input.quantity := by
  have hcustomer : body.json.field "customerId" = some (.string body.customerId) := rfl
  have hproduct : body.json.field "productId" = some (.string body.productId) := rfl
  have hquantity : body.json.field "quantity" = some (Json.ofNumber body.quantity) := rfl
  have hpos := quantity_pos h
  simp only [parseConsume, hcustomer, hproduct, hquantity, Json.nonemptyString?] at h
  split at h
  · cases h
  · rename_i customerId hc
    split at h
    · cases h
    · rename_i productId hp
      split at h
      · cases h
      · rename_i quantity hq
        cases h
        simp only [Option.ite_none_left_eq_some, Option.some.injEq] at hc hp
        refine ⟨hc.2.symm, hp.2.symm, ?_, hpos⟩
        cases hbody : body.quantity with
        | finite q =>
          simp only [hbody, Json.ofNumber, Json.positiveInteger?] at hq
          split at hq
          · cases hq
          · rename_i hn
            cases hq
            exact (Number.pos_of_accepted (Bool.eq_false_iff.mpr hn)).2
        | _ =>
          simp only [hbody, Json.ofNumber, Json.positiveInteger?] at hq
          cases hq

/-- A row that was posted for an attempt charges what the form sent. -/
theorem charges_of_writes {r : Request} {e : LedgerEntry} (h : a.request.first P s = .serve r)
    (hw : r.Writes s e) : Charges s a.body e := by
  cases hparse : parseConsume a.rawKey a.body.json with
  | error response =>
    simp only [HttpRequest.first, Attempt.request, hparse] at h
    cases h
  | ok input =>
    simp only [HttpRequest.first, Attempt.request, hparse] at h
    cases h
    obtain ⟨hcustomer, hproduct, hquantity, hpos⟩ := parse_request hparse
    obtain ⟨product, hfind, he⟩ := hw
    refine ⟨product, input.quantity, hproduct ▸ hfind, hquantity, hpos, ?_, ?_, ?_, ?_⟩
    · exact (congrArg LedgerData.customerId he).trans hcustomer
    · exact (congrArg LedgerData.productId he).trans (congrArg some hproduct)
    · exact congrArg LedgerData.quantity he
    · exact congrArg LedgerData.amount he

end Attempt

/-! ## The history of the form -/

namespace FormState

variable {uuid : Nat → String} {s : FormState} {e : FormEvent}

/-- Every attempt carries the key of its submission; the attempt in flight is the last one. -/
structure Keyed (uuid : Nat → String) (s : FormState) : Prop where
  keys : ∀ i a, .attempt i a ∈ s.sent → a.idempotencyKey = keyHeader (uuid i)
  flight : s.mutation.isInFlight = true → ∃ a, s.sent.getLast? = some (.attempt s.current a)

theorem Keyed.init (preset : Option String) : (init preset).Keyed uuid where
  keys _ _ h := by cases h
  flight h := by cases h

/-- A call of `mutationFn` with the key of the submission. -/
theorem Keyed.call (h : ∀ i a, .attempt i a ∈ s.sent → a.idempotencyKey = keyHeader (uuid i))
    (hkey : s.idempotencyKey = uuid s.current) (fields : Fields) (n : Nat) :
    (s.call fields n).Keyed uuid where
  keys i a ha := by
    rcases List.mem_append.mp ha with ha | ha
    · exact h i a ha
    · obtain ⟨rfl, rfl⟩ := Sent.attempt.inj (List.mem_singleton.mp ha)
      exact congrArg keyHeader hkey
  flight _ := ⟨_, List.getLast?_concat⟩

/-- A render keeps the history, and what is in flight. -/
theorem Keyed.render (h : s.Keyed uuid) (fields : Fields) :
    { s with fields }.render.Keyed uuid where
  keys := h.keys
  flight hf := by
    refine h.flight ?_
    cases hm : s.mutation with
    | inFlight _ _ => rfl
    | _ =>
      simp only [FormState.render, hm] at hf
      cases hf

/-- The ref has the key of the last submission. -/
theorem Ok.key_current (h : s.Ok uuid) (hlive : s.Live) : s.idempotencyKey = uuid s.current := by
  obtain ⟨⟨last, hlast, hkey⟩, -⟩ := hlive
  have hminted := congrArg List.getLast? h.history.minted
  rw [List.getLast?_map, hlast, List.getLast?_map, List.getLast?_range, Option.map_some,
    hkey] at hminted
  have hne : s.submissions ≠ [] := fun hnil => by
    rw [hnil] at hlast
    cases hlast
  rw [if_neg (by simpa using hne)] at hminted
  exact keyHeader_injective (Option.some.inj hminted)

theorem Keyed.step (h : s.Keyed uuid) (hok : s.Ok uuid) (e : FormEvent) :
    (s.step uuid e).Keyed uuid := by
  cases e with
  | editCustomer customerId =>
    simp only [FormState.step]
    split
    · exact h
    · exact h.render _
  | editProduct productId => exact h.render _
  | editQuantity quantity => exact h.render _
  | render => exact h.render _
  | submit =>
    simp only [FormState.step, onSubmit]
    split
    · refine Keyed.call ?_ ?_ _ _
      · exact h.keys
      · simp [current]
    · exact h
  | fail err =>
    simp only [FormState.step, fail]
    split
    · refine ⟨fun i a ha => ?_, fun hf => ?_⟩
      · change Sent.attempt i a ∈
          (if err.isInsufficientFunds then s.sent ++ [.denied s.current] else s.sent) at ha
        split at ha
        · exact h.keys i a (by simpa using ha)
        · exact h.keys i a ha
      · simp only at hf
        split at hf <;> cases hf
    · exact h
  | retry =>
    simp only [FormState.step, retry]
    split
    · rename_i fields n hm
      obtain ⟨hlive, -⟩ := hok.waiting hm
      exact .call h.keys (hok.key_current hlive) fields n
    · exact h
  | succeed =>
    simp only [FormState.step, succeed]
    split
    · exact ⟨h.keys, fun hf => by cases hf⟩
    · exact h

/-- A form shows a success from the reply on, until the next submission. -/
theorem success_of_step (h : (s.step uuid e).mutation = .success) :
    (s.mutation = .success ∧ (s.step uuid e).current = s.current) ∨
      e = .succeed ∧ s.mutation.isInFlight = true ∧ (s.step uuid e).current = s.current := by
  have hrender : ∀ fields, ({ s with fields }.render).mutation = .success →
      s.mutation = .success := fun fields h => by
    cases hm : s.mutation <;> simp [FormState.render, hm] at h ⊢
  cases e with
  | editCustomer customerId =>
    simp only [step] at h ⊢
    split at h
    · rename_i hpreset
      rw [if_pos hpreset]
      exact .inl ⟨h, rfl⟩
    · rename_i hpreset
      rw [if_neg hpreset]
      exact .inl ⟨hrender _ h, rfl⟩
  | editProduct productId => exact .inl ⟨hrender _ h, rfl⟩
  | editQuantity quantity => exact .inl ⟨hrender _ h, rfl⟩
  | render => exact .inl ⟨hrender _ h, rfl⟩
  | submit =>
    simp only [step, onSubmit] at h ⊢
    split at h
    · cases h
    · rename_i hcan
      rw [if_neg hcan]
      exact .inl ⟨h, rfl⟩
  | fail err =>
    simp only [step, fail] at h ⊢
    split at h
    · simp only at h
      split at h <;> cases h
    · exact .inl ⟨h, by simp [*]⟩
  | retry =>
    simp only [step, retry] at h ⊢
    split at h
    · cases h
    · exact .inl ⟨h, by simp [*]⟩
  | succeed =>
    simp only [step, succeed] at h ⊢
    cases hm : s.mutation with
    | inFlight fields n => exact .inr (by simp [Mutation.isInFlight, current])
    | _ => simp [hm] at h ⊢

end FormState

/-! ## The invariant -/

/-- The requests that have arrived, in order. -/
def requestsOf (P : Prisma) (p : Backends) : List Arrival :=
  p.tasks.map (deployment P).request

theorem requestsOf_act (P : Prisma) (p : Backends) (a : Act Arrival) :
    requestsOf P ((deployment P).act p a) = requestsOf P p ++ submitted [a] :=
  requests_run (S := deployment P) p [a]

theorem length_requestsOf (P : Prisma) (p : Backends) :
    (requestsOf P p).length = p.tasks.length := List.length_map ..

/-- The invariant of a session that started in the store `s`. -/
structure Session.Ok (P : Prisma) (uuid : Nat → String) (s : Store) (x : Session) : Prop where
  form : x.form.Ok uuid
  keyed : x.form.Keyed uuid
  traced : Traced P s x.backends
  /-- What has arrived was sent. -/
  arrived : ∀ place ticket, (place, ticket) ∈ x.arrived → ∃ i a fault,
    x.form.sent[place]? = some (.attempt i a) ∧
      (requestsOf P x.backends)[ticket]? = some (a.request, fault)
  /-- The other requests have other keys. -/
  others : ∀ (ticket : Nat) r, (requestsOf P x.backends)[ticket]? = some r →
    (∃ place, (place, ticket) ∈ x.arrived) ∨ ∀ n, r.1.key ≠ some (uuid n)
  /-- A success shows a row with the key of the submission. -/
  success : x.form.mutation = .success → ∃ e, x.data = some e ∧
    e ∈ x.backends.store.committed.ledger ∧ e.idempotencyKey = some (uuid x.form.current)

namespace Session.Ok

variable {P : Prisma} {uuid : Nat → String} {s : Store} {x : Session}

theorem init (s : Store) (preset : Option String) : (Session.init s preset).Ok P uuid s where
  form := .init preset
  keyed := .init preset
  traced := .init s
  arrived _ _ h := by cases h
  others _ _ h := by cases h
  success h := by cases h

/-- The row that is shown stays. -/
theorem success_act (h : x.Ok P uuid s) (a : Act Arrival)
    (hm : x.form.mutation = .success) : ∃ e, x.data = some e ∧
      e ∈ ((deployment P).act x.backends a).store.committed.ledger ∧
      e.idempotencyKey = some (uuid x.form.current) := by
  obtain ⟨e, hdata, hmem, hkey⟩ := h.success hm
  obtain ⟨es, hes⟩ := h.traced.postings_act a
  exact ⟨e, hdata, by rw [hes.ledger]; exact List.mem_append_left _ hmem, hkey⟩

theorem arrived_act (h : x.Ok P uuid s) (a : Act Arrival)
    {place ticket : Nat} (hmem : (place, ticket) ∈ x.arrived) : ∃ i b fault,
      x.form.sent[place]? = some (.attempt i b) ∧
        (requestsOf P ((deployment P).act x.backends a))[ticket]? =
          some (b.request, fault) := by
  obtain ⟨i, b, fault, hsent, hreq⟩ := h.arrived place ticket hmem
  refine ⟨i, b, fault, hsent, ?_⟩
  rw [requestsOf_act, List.getElem?_append_left (List.getElem?_eq_some_iff.mp hreq).1]
  exact hreq

theorem traffic (h : x.Ok P uuid s) {a : Act Arrival}
    (ha : ∀ r, a = .submit r → ∀ n, r.1.key ≠ some (uuid n)) :
    Session.Ok P uuid s { x with backends := (deployment P).act x.backends a } where
  form := h.form
  keyed := h.keyed
  traced := h.traced.act a
  arrived place ticket hmem := h.arrived_act a hmem
  others ticket r hr := by
    rw [requestsOf_act] at hr
    cases a with
    | advance i =>
      rw [show submitted [Act.advance i] = ([] : List Arrival) from rfl,
        List.append_nil] at hr
      exact h.others ticket r hr
    | submit r' =>
      rcases getElem?_concat hr with hr | ⟨-, rfl⟩
      · exact h.others ticket r hr
      · exact .inr (ha r' rfl)
  success := h.success_act a

theorem deliver (h : x.Ok P uuid s) {place i : Nat} {a : Attempt}
    (hsent : x.form.sent[place]? = some (.attempt i a)) (fault : Option (Fault String)) :
    Session.Ok P uuid s
      { x with
        backends := (deployment P).act x.backends (.submit (a.request, fault))
        arrived := x.arrived ++ [(place, x.backends.tasks.length)] } where
  form := h.form
  keyed := h.keyed
  traced := h.traced.act (.submit (a.request, fault))
  arrived place' ticket hmem := by
    rcases List.mem_append.mp hmem with hmem | hmem
    · exact h.arrived_act _ hmem
    · obtain ⟨rfl, rfl⟩ := Prod.mk.inj (List.mem_singleton.mp hmem)
      refine ⟨i, a, fault, hsent, ?_⟩
      rw [requestsOf_act, ← length_requestsOf P]
      exact List.getElem?_concat_length
  others ticket r hr := by
    rw [requestsOf_act] at hr
    rcases getElem?_concat hr with hr | ⟨hticket, rfl⟩
    · refine (h.others ticket r hr).imp ?_ id
      rintro ⟨place', hmem⟩
      exact ⟨place', List.mem_append_left _ hmem⟩
    · left
      rw [hticket, length_requestsOf]
      exact ⟨place, List.mem_append_right _ (List.mem_singleton.mpr rfl)⟩
  success := h.success_act (.submit (a.request, fault))

/-- An event of the form that keeps what it shows, or is answered. -/
theorem step_form (h : x.Ok P uuid s) (e : FormEvent) (data : Option LedgerEntry)
    (hsuccess : (x.form.step uuid e).mutation = .success → ∃ row, data = some row ∧
      row ∈ x.backends.store.committed.ledger ∧
      row.idempotencyKey = some (uuid (x.form.step uuid e).current)) :
    Session.Ok P uuid s { x with form := x.form.step uuid e, data } where
  form := h.form.step e
  keyed := h.keyed.step h.form e
  traced := h.traced
  arrived place ticket hmem := by
    obtain ⟨i, a, fault, hsent, hreq⟩ := h.arrived place ticket hmem
    obtain ⟨-, rest, hrest⟩ := FormState.step_history uuid x.form e
    refine ⟨i, a, fault, ?_, hreq⟩
    rw [← hrest, List.getElem?_append_left (List.getElem?_eq_some_iff.mp hsent).1]
    exact hsent
  others := h.others
  success := hsuccess

/-- An event of the form other than a success. -/
theorem step_kept (h : x.Ok P uuid s) {e : FormEvent} (he : e ≠ .succeed) :
    Session.Ok P uuid s { x with form := x.form.step uuid e } := by
  refine h.step_form e x.data fun hs => ?_
  rcases FormState.success_of_step hs with ⟨hm, hcurrent⟩ | ⟨heq, -⟩
  · rw [hcurrent]
    exact h.success hm
  · exact absurd heq he

/-- The request of the attempt in flight has the key of the submission. -/
theorem key_of_flight (h : x.Ok P uuid s) (hne : ∀ n, uuid n ≠ "") {ticket : Nat}
    (hf : x.form.mutation.isInFlight = true)
    (hmem : (x.form.sent.length - 1, ticket) ∈ x.arrived) :
    ∃ m, x.backends.tasks[ticket]? = some m ∧
      ((api P).request m.task).key = some (uuid x.form.current) := by
  obtain ⟨i, a, fault, hsent, hreq⟩ := h.arrived _ _ hmem
  obtain ⟨b, hlast⟩ := h.keyed.flight hf
  rw [List.getLast?_eq_getElem?, hsent] at hlast
  obtain ⟨rfl, rfl⟩ := Sent.attempt.inj (Option.some.inj hlast)
  rw [requestsOf, List.getElem?_map] at hreq
  obtain ⟨m, hm, hreq⟩ := Option.map_eq_some_iff.mp hreq
  refine ⟨m, hm, ?_⟩
  rw [show (api P).request m.task = a.request from congrArg Prod.fst hreq,
    key_request (h.keyed.keys _ _ (List.mem_of_getElem? hsent)), keyHeader_some (hne _)]

/-- A reply that ends the mutation with a success is a row with the key of the submission. -/
theorem receive_row (h : x.Ok P uuid s) (hne : ∀ n, uuid n ≠ "") {ticket : Nat} {reply : Reply}
    {data : Option LedgerEntry} (hf : x.form.mutation.isInFlight = true)
    (hmem : (x.form.sent.length - 1, ticket) ∈ x.arrived)
    (hr : (x.backends.tasks[ticket]?).bind (deployment P).answer = some reply)
    (hresult : consumeResult reply = .ok data) : ∃ e, data = some e ∧
      e ∈ x.backends.store.committed.ledger ∧ e.idempotencyKey = some (uuid x.form.current) := by
  obtain ⟨m, hm, hkey⟩ := h.key_of_flight hne hf hmem
  rw [hm, Option.bind_some] at hr
  unfold consumeResult at hresult
  split at hresult
  · cases hresult
  · split at hresult
    · rename_i hok
      cases hresult
      obtain ⟨e, rfl⟩ := h.traced.created_of_ok hm hr hkey hok
      obtain ⟨hledger, hrow⟩ := h.traced.created hm hr
      exact ⟨e, rfl, hledger, hrow.trans hkey⟩
    · cases hresult

theorem receive (h : x.Ok P uuid s) (hne : ∀ n, uuid n ≠ "") (ticket : Nat) :
    (x.step P uuid (.receive ticket)).Ok P uuid s := by
  simp only [Session.step]
  split
  · rename_i hcond
    obtain ⟨hf, hmem⟩ := hcond
    cases hr : (x.backends.tasks[ticket]?).bind (deployment P).answer with
    | none => exact h
    | some reply =>
      simp only []
      cases hresult : consumeResult reply with
      | error err => exact h.step_kept (by simp)
      | ok data =>
        refine h.step_form .succeed data fun hs => ?_
        obtain ⟨e, hdata, hledger, hkey⟩ := h.receive_row hne hf hmem hr hresult
        refine ⟨e, hdata, hledger, ?_⟩
        rcases FormState.success_of_step hs with ⟨-, hcurrent⟩ | ⟨-, -, hcurrent⟩
        · rw [hcurrent]
          exact hkey
        · rw [hcurrent]
          exact hkey
  · exact h

theorem step (h : x.Ok P uuid s) (hne : ∀ n, uuid n ≠ "") {event : SessionEvent}
    (hevent : ∀ r, event = .traffic (.submit r) → ∀ n, r.1.key ≠ some (uuid n)) :
    (x.step P uuid event).Ok P uuid s := by
  cases event with
  | user e =>
    simp only [Session.step]
    split
    · exact h
    · rename_i hreply
      refine h.step_kept fun he => ?_
      rw [he] at hreply
      exact hreply rfl
  | traffic a => exact h.traffic fun r hr => hevent r (hr ▸ rfl)
  | deliver place fault =>
    simp only [Session.step]
    split
    · rename_i hsent
      exact h.deliver hsent fault
    · exact h
  | receive ticket => exact h.receive hne ticket
  | lose message => exact h.step_kept (by simp)

/-- Every reachable session is `Ok`, if the other clients do not use the keys of the form. -/
theorem run (s : Store) (hne : ∀ n, uuid n ≠ "") (preset : Option String)
    {events : List SessionEvent}
    (hothers : ∀ r, .traffic (.submit r) ∈ events → ∀ n, r.1.key ≠ some (uuid n)) :
    (Session.run P uuid s preset events).Ok P uuid s := by
  induction events using List.reverseRecOn with
  | nil => exact .init s preset
  | append_singleton events event ih =>
    rw [Session.run, List.foldl_append]
    refine (ih fun r hr => hothers r (List.mem_append_left _ hr)).step hne fun r hr => ?_
    exact hothers r (hr ▸ List.mem_append_right _ (List.mem_singleton.mpr rfl))

/-- A row with a key of the form was posted for an attempt of that submission. -/
theorem row_of_key (h : x.Ok P uuid s) (huuid : Function.Injective uuid) (hne : ∀ n, uuid n ≠ "")
    (hfree : ∀ n, s.findKey (uuid n) = none) {i : Nat} {e : LedgerEntry}
    (he : e ∈ x.backends.store.committed.ledger) (hkey : e.idempotencyKey = some (uuid i)) :
    ∃ place ticket a m, (place, ticket) ∈ x.arrived ∧
      x.form.sent[place]? = some (.attempt i a) ∧ x.backends.tasks[ticket]? = some m ∧
      PostedBy P s e m ∧ (api P).request m.task = a.request := by
  obtain ⟨es, hes, hrows⟩ := h.traced.rows
  rw [hes.ledger] at he
  rcases List.mem_append.mp he with hold | he
  · exact absurd hkey (Store.findKey_eq_none.mp (hfree i) e hold)
  · obtain ⟨ticket, m, hm, hposted⟩ := hrows e he
    have hreq : (requestsOf P x.backends)[ticket]? = some ((deployment P).request m) := by
      rw [requestsOf, List.getElem?_map, hm]
      rfl
    have hmkey : ((api P).request m.task).key = some (uuid i) := by
      obtain ⟨req, t, htask, hfirst, -, hw⟩ := hposted
      rw [htask, ← hkey]
      refine (key_of_first (hfirst s)).symm.trans ?_
      cases hr : t.request with
      | consume input =>
        rw [hr] at hw
        obtain ⟨product, -, hdata⟩ := hw
        exact (congrArg LedgerData.idempotencyKey hdata).symm
      | credit input =>
        rw [hr] at hw
        exact (congrArg LedgerData.idempotencyKey (show e.toLedgerData = _ from hw)).symm
    rcases h.others ticket _ hreq with ⟨place, hmem⟩ | hother
    · obtain ⟨j, a, fault, hsent, hreq'⟩ := h.arrived place ticket hmem
      have heq : (api P).request m.task = a.request :=
        congrArg Prod.fst (Option.some.inj (hreq.symm.trans hreq'))
      have hjkey := h.keyed.keys j a (List.mem_of_getElem? hsent)
      rw [heq, key_request hjkey, keyHeader_some (hne j)] at hmkey
      obtain rfl := huuid (Option.some.inj hmkey)
      exact ⟨place, ticket, a, m, hmem, hsent, hm, hposted, heq⟩
    · exact absurd hmkey (hother i)

end Session.Ok

/-! ## Exactly once -/

/-- What the operator may rely on. -/
structure Session.Exact (P : Prisma) (uuid : Nat → String) (s : Store) (x : Session) : Prop where
  /-- At most one row for each submission. -/
  once : ∀ i, (x.backends.store.committed.ledger.filter
    (·.idempotencyKey = some (uuid i))).length ≤ 1
  /-- It charges what an attempt of that submission sent: what was submitted, if no retry finds
  another text in the form. -/
  charged : ∀ i, ∀ e ∈ x.backends.store.committed.ledger, e.idempotencyKey = some (uuid i) →
    ∃ place ticket a, (place, ticket) ∈ x.arrived ∧ x.form.sent[place]? = some (.attempt i a) ∧
      Charges s a.body e ∧ (x.form.Same → x.form.submissions[i]? = some a)
  /-- A success shows the row of the submission. -/
  shown : x.form.mutation = .success → ∃ e, x.data = some e ∧
    x.backends.store.committed.ledger.filter
      (·.idempotencyKey = some (uuid x.form.current)) = [e]
  /-- Nothing is charged for a submission if all its attempts that arrived were answered, and none
  with a 201. -/
  refused : ∀ i, (∀ place ticket a, (place, ticket) ∈ x.arrived →
      x.form.sent[place]? = some (.attempt i a) → ∃ m reply,
        x.backends.tasks[ticket]? = some m ∧ (deployment P).answer m = some reply ∧
        reply.status ≠ 201) →
    x.backends.store.committed.ledger.filter (·.idempotencyKey = some (uuid i)) = []

/-- In every run: whatever gets lost, arrives late or twice, dies, or is retried, each submission of
the form is charged at most once, for what the form sent; a success shows its row; and a submission
whose attempts were all refused is not charged. The keys are new, and nobody else uses them. -/
theorem submission_exact (P : Prisma) (uuid : Nat → String) (s : Store)
    (preset : Option String) (events : List SessionEvent) (huuid : Function.Injective uuid)
    (hne : ∀ n, uuid n ≠ "") (hfree : ∀ n, s.findKey (uuid n) = none)
    (hothers : ∀ r, .traffic (.submit r) ∈ events → ∀ n, r.1.key ≠ some (uuid n)) :
    (Session.run P uuid s preset events).Exact P uuid s := by
  have h : (Session.run P uuid s preset events).Ok P uuid s := .run s hne preset hothers
  generalize Session.run P uuid s preset events = x at h
  refine ⟨fun i => ?_, fun i e he hkey => ?_, fun hs => ?_, fun i hall => ?_⟩
  · rw [Store.filter_key]
    exact Option.length_toList_le
  · obtain ⟨place, ticket, a, m, hmem, hsent, -, hposted, hreq⟩ :=
      h.row_of_key huuid hne hfree he hkey
    obtain ⟨req, t, htask, hfirst, -, hw⟩ := hposted
    have hreq' : req = a.request := by
      rw [htask] at hreq
      exact hreq
    subst hreq'
    refine ⟨place, ticket, a, hmem, hsent, charges_of_writes (hfirst s) hw, fun hsame => ?_⟩
    exact hsame i a (List.mem_of_getElem? hsent)
  · obtain ⟨e, hdata, hledger, hkey⟩ := h.success hs
    exact ⟨e, hdata, by rw [Store.filter_key, Store.findKey_of_mem hledger hkey]; rfl⟩
  · rw [List.filter_eq_nil_iff]
    intro e he hkey
    obtain ⟨place, ticket, a, m, hmem, hsent, hm, hposted, -⟩ :=
      h.row_of_key huuid hne hfree he (by simpa using hkey)
    obtain ⟨m', reply, hm', hans, hstatus⟩ := hall place ticket a hmem hsent
    obtain rfl := Option.mem_unique hm hm'
    obtain ⟨req, t, htask, -, hanswer, -⟩ := hposted
    have hreply : (api P).answer m.task = some reply := by
      rcases deployment_answer hans with ⟨-, hreply⟩ | ⟨message, hf, -⟩
      · exact hreply
      · -- what times out has posted nothing
        have hbusy := (h.traced.lock.failed m (List.mem_of_getElem? hm) message hf).2
        simp [htask, HttpTask.busy, StmtTask.busy, hanswer] at hbusy
    rw [htask] at hreply
    obtain ⟨answer, ht, rfl⟩ := Option.map_eq_some_iff.mp hreply
    obtain rfl : answer = .ok e := Option.some.inj (ht.symm.trans hanswer)
    rw [respond_created.mpr rfl] at hstatus
    exact hstatus rfl

/-- A submission whose first reply gets lost, and whose retry is a replay. -/
def dropped : List SessionEvent :=
  [.user (.editProduct "p1"), .user .submit, .deliver 0 none] ++
    List.replicate 6 (.traffic (.advance 0)) ++
    [.lose "Failed to fetch", .user .retry, .deliver 1 none] ++
    List.replicate 8 (.traffic (.advance 1)) ++ [.receive 1]

theorem submission_exact_dropped :
    (Session.run .sqlite sampleUuid (shop 200) (some "c1") dropped).form.mutation = .success ∧
      (Session.run .sqlite sampleUuid (shop 200) (some "c1") dropped).Exact .sqlite sampleUuid
        (shop 200) := by
  refine ⟨by decide +kernel, submission_exact .sqlite sampleUuid (shop 200) (some "c1") dropped
    sampleUuid_injective (fun n h => ?_) (fun _ => rfl) (fun r hr => ?_)⟩
  · have hlen := congrArg String.length h
    simp [sampleUuid] at hlen
  · simp [dropped] at hr

end UsageBilling
