import UsageBilling.Lib.Pool
import UsageBilling.Routes

/-!
# The backend processes as one system of requests

Any number of requests, from any number of processes, run against one database. A task is a
request between two of its awaited database steps, which are atomic: the product lookup, the
`$transaction` and the replay lookup of a `consume`, the `$transaction` of a `creditWallet`.

* `server P`: the system (`Sys`). `run_consume_alone` and `run_credit_alone`: a request whose steps
  run with nothing between them is the service function.
* `Task.Step`: what a step can do; `step_spec`: every step is one of these.
* `Task.Ok`: what holds of a task in every reachable state; `serve_ok`.
* `serve_postings`: the steps of any requests post rows, and each row is the answer of a request
  that writes it (`Request.Writes`).
-/

namespace UsageBilling

/-- A call of a service that writes. -/
inductive Request where
  | consume (input : ConsumeInput)
  | credit (input : CreditInput)
  deriving DecidableEq

/-- The idempotency key that the request carries. -/
def Request.key : Request → Option String
  | .consume input => input.idempotencyKey
  | .credit _ => none

/-- What the service returns or throws. -/
abbrev Answer := Except Error LedgerEntry

/-- What the service does with a request when nothing else runs. -/
def service (P : Prisma) : Request → Store → Answer × Store
  | .consume input => (consume P input).run
  | .credit input => (creditWallet P input).run

/-- Where a `consume` is. -/
inductive ConsumePhase where
  /-- Before the product lookup. -/
  | lookup
  /-- Before the `$transaction`, with the product it read. -/
  | charge (product : Product)
  /-- Before the replay lookup, with the unique violation it caught. -/
  | replay (err : Error)
  | done (answer : Answer)

/-- A call in progress. -/
inductive Task where
  | consume (input : ConsumeInput) (phase : ConsumePhase)
  /-- `none`: before the `$transaction`. -/
  | credit (input : CreditInput) (answer : Option Answer)

namespace Task

/-- A call before its first step. -/
def start : Request → Task
  | .consume input => .consume input .lookup
  | .credit input => .credit input none

/-- The call that the task is. -/
def request : Task → Request
  | .consume input _ => .consume input
  | .credit input _ => .credit input

/-- What the call has returned, if it has. -/
def answer : Task → Option Answer
  | .consume _ (.done answer) => some answer
  | .consume _ _ => none
  | .credit _ answer => answer

/-- The answer of the route. -/
def response : Task → Option Response
  | .consume _ (.done answer) => some (respondConsume answer)
  | .consume _ _ => none
  | .credit _ answer => answer.map respondCredit

/-- An answer of a task is a 201 with a row exactly if the service returned the row. -/
theorem answer_of_created {t : Task} {e : LedgerEntry}
    (h : t.response = some ⟨201, .entry e⟩) : t.answer = some (.ok e) := by
  cases t with
  | consume input phase =>
    cases phase with
    | done answer => exact congrArg some (respondConsume_created.mp (Option.some.inj h))
    | _ => cases h
  | credit input answer =>
    obtain ⟨a, rfl, ha⟩ := Option.map_eq_some_iff.mp h
    exact congrArg some (respondCredit_created.mp ha)

/-- An answered task has taken its last step. -/
theorem of_answer {t : Task} {a : Answer} (h : t.answer = some a) :
    (∃ input, t = .consume input (.done a)) ∨ ∃ input, t = .credit input (some a) := by
  cases t with
  | consume input phase =>
    cases phase with
    | done answer =>
      obtain rfl : answer = a := Option.some.inj h
      exact .inl ⟨input, rfl⟩
    | _ => cases h
  | credit input answer =>
    obtain rfl : answer = some a := h
    exact .inr ⟨input, rfl⟩

theorem response_of_ok {t : Task} {e : LedgerEntry} (h : t.answer = some (.ok e)) :
    t.response = some ⟨201, .entry e⟩ := by
  rcases of_answer h with ⟨input, rfl⟩ | ⟨input, rfl⟩ <;> rfl

/-- The next database step of the task. -/
def step (P : Prisma) : Task → Store → Task × Store
  | .consume input .lookup, s =>
    match (lookupProduct input).run s with
    | (.ok product, s') => (.consume input (.charge product), s')
    | (.error err, s') => (.consume input (.done (.error err)), s')
  | .consume input (.charge product), s =>
    match (Txn.transaction (chargeTx P input product)).run s with
    | (.ok e, s') => (.consume input (.done (.ok e)), s')
    | (.error err, s') =>
      (.consume input (if isReplay input err then .replay err else .done (.error err)), s')
  | .consume input (.replay err), s =>
    match (UsageBilling.replay input err).run s with
    | (answer, s') => (.consume input (.done answer), s')
  | .consume input (.done answer), s => (.consume input (.done answer), s)
  | .credit input none, s =>
    match (creditWallet P input).run s with
    | (answer, s') => (.credit input (some answer), s')
  | .credit input (some answer), s => (.credit input (some answer), s)

theorem request_step (P : Prisma) (t : Task) (s : Store) :
    (t.step P s).1.request = t.request := by
  unfold step
  split
  · split <;> rfl
  · split <;> rfl
  all_goals rfl

theorem step_answered (P : Prisma) (t : Task) (s : Store) (h : t.answer.isSome) :
    t.step P s = (t, s) := by
  unfold answer at h
  split at h
  · rfl
  · cases h
  · obtain ⟨a, ha⟩ := Option.isSome_iff_exists.mp h
    subst ha
    rfl

end Task

/-- The backend over the database `P`. -/
def server (P : Prisma) : Sys Store Request Task Answer where
  start := Task.start
  request := Task.request
  answer := Task.answer
  step _ t s := t.step P s
  request_start r := by cases r <;> rfl
  request_step _ t s := Task.request_step P t s
  step_answered _ t s h := Task.step_answered P t s h

@[simp] theorem server_request (P : Prisma) (t : Task) : (server P).request t = t.request := rfl

@[simp] theorem server_answer (P : Prisma) (t : Task) : (server P).answer t = t.answer := rfl

/-- The server's state after a schedule of requests and steps that starts in the store `s`. -/
abbrev serve (P : Prisma) (s : Store) (sched : List (Act Request)) : Pool Store Task :=
  (server P).run (Sys.init s) sched

/-! ## The steps of one request, with nothing between them -/

section Alone

variable {P : Prisma} {input : ConsumeInput} {product : Product} {s s' : Store} {err : Error}

theorem step_found (hp : s.products.find? input.productId = some product) :
    (Task.consume input .lookup).step P s = (.consume input (.charge product), s) := by
  simp only [Task.step, run_lookupProduct, hp]

theorem step_noProduct (hp : s.products.find? input.productId = none) :
    (Task.consume input .lookup).step P s =
      (.consume input (.done (.error (productNotFound input.productId))), s) := by
  simp only [Task.step, run_lookupProduct, hp]

theorem step_charge_ok {e : LedgerEntry}
    (h : (Txn.transaction (chargeTx P input product)).run s = (.ok e, s')) :
    (Task.consume input (.charge product)).step P s = (.consume input (.done (.ok e)), s') := by
  simp only [Task.step, h]

theorem step_charge_error
    (h : (Txn.transaction (chargeTx P input product)).run s = (.error err, s')) :
    (Task.consume input (.charge product)).step P s =
      (.consume input (if isReplay input err then .replay err else .done (.error err)), s') := by
  simp only [Task.step, h]

theorem step_done (answer : Answer) :
    (Task.consume input (.done answer)).step P s = (.consume input (.done answer), s) := rfl

/-- Three steps of a task, with nothing between them. -/
def Task.steps (P : Prisma) (t : Task) (s : Store) : Task × Store :=
  let r₁ := t.step P s
  let r₂ := r₁.1.step P r₁.2
  r₂.1.step P r₂.2

theorem steps_lookup (P : Prisma) (input : ConsumeInput) (s : Store) :
    (Task.consume input .lookup).steps P s =
      (.consume input (.done ((consume P input).run s).1), ((consume P input).run s).2) := by
  simp only [Task.steps]
  cases hp : s.products.find? input.productId with
  | none =>
    rw [step_noProduct hp, step_done, step_done, run_consume_none hp]
  | some product =>
    rw [step_found hp, run_consume hp]
    cases htx : (Txn.transaction (chargeTx P input product)).run s with
    | mk r s₁ =>
    cases r with
    | ok e => rw [step_charge_ok htx, step_done, Txn.run_tryCatch_ok htx]
    | error err =>
      rw [step_charge_error htx, Txn.run_tryCatch_error htx, recover]
      by_cases hr : isReplay input err = true
      · rw [if_pos hr, if_pos hr]; rfl
      · rw [if_neg hr, if_neg hr]; rfl

/-- Three steps of a new `consume` are the service's `consume`. -/
theorem run_consume_alone (P : Prisma) (input : ConsumeInput) (s : Store) :
    serve P s [.submit (.consume input), .advance 0, .advance 0, .advance 0] =
      ⟨((consume P input).run s).2, [.consume input (.done ((consume P input).run s).1)]⟩ := by
  show (⟨_, [_]⟩ : Pool Store Task) = _
  have h := steps_lookup P input s
  exact congrArg (fun r : Task × Store => (⟨r.2, [r.1]⟩ : Pool Store Task)) h

theorem run_credit_alone (P : Prisma) (input : CreditInput) (s : Store) :
    serve P s [.submit (.credit input), .advance 0] =
      ⟨((creditWallet P input).run s).2, [.credit input (some ((creditWallet P input).run s).1)]⟩ :=
  rfl

end Alone

/-! ## What a step can do -/

/-- A step from `(t, s)` to `(t', s')`. Only `charged` and `credited` write. -/
inductive Task.Step (P : Prisma) : Task → Store → Task → Store → Prop
  | found (input : ConsumeInput) (product : Product) (s : Store)
      (hp : s.products.find? input.productId = some product) :
      Step P (.consume input .lookup) s (.consume input (.charge product)) s
  | noProduct (input : ConsumeInput) (s : Store)
      (hp : s.products.find? input.productId = none) :
      Step P (.consume input .lookup) s
        (.consume input (.done (.error (productNotFound input.productId)))) s
  | charged (input : ConsumeInput) (product : Product) (s : Store) (e : LedgerEntry) (s' : Store)
      (h : Charge P input product s (.ok e) s') :
      Step P (.consume input (.charge product)) s (.consume input (.done (.ok e))) s'
  | failed (input : ConsumeInput) (product : Product) (s : Store) (err : Error)
      (h : Charge P input product s (.error err) s) (hu : isUniqueViolation err = false) :
      Step P (.consume input (.charge product)) s (.consume input (.done (.error err))) s
  | collided (input : ConsumeInput) (product : Product) (s : Store)
      (hints : (chargeInts input product).all P.int = true) (c : Customer)
      (hc : s.customers.find? input.customerId = some c) (hle : cost product input ≤ c.balance)
      (key : String) (original : LedgerEntry) (hkey : input.idempotencyKey = some key)
      (ho : s.findKey key = some original) :
      Step P (.consume input (.charge product)) s
        (.consume input (.replay (.prisma .uniqueViolation))) s
  | replayed (input : ConsumeInput) (err : Error) (s : Store) (key : String)
      (original : LedgerEntry) (hkey : input.idempotencyKey = some key)
      (ho : s.findKey key = some original) :
      Step P (.consume input (.replay err)) s (.consume input (.done (.ok original))) s
  | rethrown (input : ConsumeInput) (err : Error) (s : Store)
      (h : ∀ key, input.idempotencyKey = some key → s.findKey key = none) :
      Step P (.consume input (.replay err)) s (.consume input (.done (.error err))) s
  | credited (input : CreditInput) (s : Store) (answer : Answer) (s' : Store)
      (h : Credited P input s answer s') :
      Step P (.credit input none) s (.credit input (some answer)) s'
  | answered (t : Task) (s : Store) (h : t.answer.isSome) : Step P t s t s

theorem step_spec (P : Prisma) (t : Task) (s : Store) :
    t.Step P s (t.step P s).1 (t.step P s).2 := by
  match t with
  | .consume input .lookup =>
    simp only [Task.step, run_lookupProduct]
    cases hp : s.products.find? input.productId with
    | none => exact .noProduct input s hp
    | some product => exact .found input product s hp
  | .consume input (.charge product) =>
    have hch := charge_spec P input product s
    simp only [Task.step]
    cases htx : (Txn.transaction (chargeTx P input product)).run s with
    | mk r s₁ =>
    rw [htx] at hch
    cases r with
    | ok e => exact .charged input product s e s₁ hch
    | error err =>
      obtain rfl := hch.store_of_error
      cases hu : isUniqueViolation err with
      | false =>
        simp only [isReplay, hu, Bool.and_false]
        exact .failed input product s₁ err hch hu
      | true =>
        obtain ⟨hints, c, key, o, hc, hle, hkey, ho⟩ := hch.key_of_unique hu
        have herr : err = .prisma .uniqueViolation := by simpa [isUniqueViolation] using hu
        simp only [isReplay, hkey, Option.isSome_some, hu, Bool.and_self, ↓reduceIte]
        rw [herr]
        exact .collided input product s₁ hints c hc hle key o hkey ho
  | .consume input (.replay err) =>
    simp only [Task.step]
    cases hkey : input.idempotencyKey with
    | none =>
      have : (UsageBilling.replay input err).run s = (.error err, s) := by simp [replay, hkey]
      rw [this]
      exact .rethrown input err s (by simp [hkey])
    | some key =>
      rw [run_replay hkey]
      cases ho : s.findKey key with
      | none => exact .rethrown input err s (by simp [hkey, ho])
      | some o => exact .replayed input err s key o hkey ho
  | .consume input (.done answer) => exact .answered _ s rfl
  | .credit input none => exact .credited input s _ _ (credit_spec P input s)
  | .credit input (some answer) => exact .answered _ s rfl

/-! ## What the steps do to the store -/

/-- The row that the request writes when it is charged or credited. -/
def Request.Writes (s : Store) : Request → LedgerEntry → Prop
  | .consume input, e => ∃ product, s.products.find? input.productId = some product ∧
      e.toLedgerData = consumptionData input product
  | .credit input, e => e.toLedgerData = creditData input

section Invariants

variable {P : Prisma} {s s' : Store} {t t' : Task}

/-- A step writes nothing, or posts the row that the task is answered with, which has the key of
the request. -/
theorem Task.Step.store (h : t.Step P s t' s') : s' = s ∨
    ∃ e, Posted P s e s' ∧ t'.answer = some (.ok e) ∧ t.answer = none ∧
      e.idempotencyKey = t.request.key := by
  cases h with
  | charged input product _ e _ hch =>
    cases hch with
    | posted hfits c hc hle e s' he hp =>
      exact .inr ⟨e, hp, rfl, rfl, congrArg LedgerData.idempotencyKey he⟩
  | credited input _ answer _ hcr =>
    cases hcr with
    | posted _ c hc hle e s' he hp =>
      exact .inr ⟨e, hp, rfl, rfl, congrArg LedgerData.idempotencyKey he⟩
    | _ => exact .inl rfl
  | _ => exact .inl rfl

/-- The charge of the request would be accepted as far as its product, its arguments and its
customer go. -/
def Chargeable (P : Prisma) (input : ConsumeInput) (s : Store) : Prop :=
  ∃ product, s.products.find? input.productId = some product ∧
    (chargeInts input product).all P.int = true ∧
    ∃ c, s.customers.find? input.customerId = some c

/-- What holds of a task in every reachable state (the invariant of `serve_ok`). -/
def Task.Ok (P : Prisma) (s : Store) : Task → Prop
  | .consume input (.charge product) => s.products.find? input.productId = some product
  | .consume input (.replay err) => err = .prisma .uniqueViolation ∧ Chargeable P input s ∧
      ∃ key original, input.idempotencyKey = some key ∧ s.findKey key = some original
  | .consume input (.done (.ok e)) => Chargeable P input s ∧ e ∈ s.ledger ∧
      e.idempotencyKey = input.idempotencyKey ∧
      (input.idempotencyKey = none → (Request.consume input).Writes s e)
  | .consume _ (.done (.error err)) | .credit _ (some (.error err)) =>
      isUniqueViolation err = false
  | .credit input (some (.ok e)) => e ∈ s.ledger ∧ (Request.credit input).Writes s e
  | .consume _ .lookup | .credit _ none => True

theorem Chargeable.posted {e : LedgerEntry} {input : ConsumeInput} (hp : Posted P s e s')
    (h : Chargeable P input s) : Chargeable P input s' := by
  obtain ⟨product, hprod, hints, c, hc⟩ := h
  exact ⟨product, by rw [hp.products, hprod], hints, _, by rw [hp.find?, hc]; rfl⟩

theorem Chargeable.postings {es : List LedgerEntry} {input : ConsumeInput}
    (hps : Postings P s es s') (h : Chargeable P input s) : Chargeable P input s' := by
  induction hps with
  | nil => exact h
  | snoc _ hp ih => exact ih.posted hp

theorem Request.Writes.of_products {e : LedgerEntry} {r : Request}
    (hp : s'.products = s.products) (h : r.Writes s e) : r.Writes s' e := by
  cases r with
  | consume input => simpa only [Request.Writes, hp] using h
  | credit input => exact h

/-- A posting of another task keeps what holds of a task. -/
theorem Task.Ok.posted {e : LedgerEntry} (hp : Posted P s e s') (h : t.Ok P s) : t.Ok P s' := by
  match t, h with
  | .consume input .lookup, _ => trivial
  | .consume input (.charge product), h => rwa [Task.Ok, hp.products]
  | .consume input (.replay err), ⟨herr, hch, key, o, hkey, ho⟩ =>
    exact ⟨herr, hch.posted hp, key, o, hkey, hp.findKey_of_some ho⟩
  | .consume input (.done (.ok e)), ⟨hch, hmem, hkey, hw⟩ =>
    exact ⟨hch.posted hp, hp.mem hmem, hkey, fun hn => (hw hn).of_products hp.products⟩
  | .consume input (.done (.error err)), h => exact h
  | .credit input none, _ => trivial
  | .credit input (some (.ok e)), ⟨hmem, hw⟩ => exact ⟨hp.mem hmem, hw.of_products hp.products⟩
  | .credit input (some (.error err)), h => exact h

theorem Task.Ok.step (hst : t.Step P s t' s') (h : t.Ok P s) : t'.Ok P s' := by
  cases hst with
  | found input product _ hp => exact hp
  | noProduct input _ hp => simp [Task.Ok, isUniqueViolation, productNotFound]
  | charged input product _ e _ hch =>
    cases hch with
    | posted hfits c hc hle e s' he hp =>
      have hprod : s.products.find? input.productId = some product := h
      have hkey : e.idempotencyKey = input.idempotencyKey :=
        congrArg LedgerData.idempotencyKey he
      exact ⟨Chargeable.posted hp ⟨product, hprod, ints_of_chargeFits hfits, c, hc⟩, hp.mem_self,
        hkey, fun _ => ⟨product, by rw [hp.products, hprod], he⟩⟩
  | failed input product _ err hch hu => exact hu
  | collided input product _ hints c hc hle key o hkey ho =>
    exact ⟨rfl, ⟨product, h, hints, c, hc⟩, key, o, hkey, ho⟩
  | replayed input err _ key o hkey ho =>
    obtain ⟨-, hch, -⟩ := h
    exact ⟨hch, Store.mem_of_findKey ho, by rw [Store.key_of_findKey ho, hkey],
      fun hn => by rw [hkey] at hn; cases hn⟩
  | rethrown input err _ hnone =>
    -- the invariant of the replay phase: the original row is there
    obtain ⟨-, -, key, o, hkey, ho⟩ := h
    rw [hnone key hkey] at ho
    cases ho
  | credited input _ answer _ hcr =>
    cases hcr with
    | posted _ c hc hle e s' he hp => exact ⟨hp.mem_self, he⟩
    | _ => simp [Task.Ok, isUniqueViolation]
  | answered => exact h

/-- In every reachable state each task is `Ok`. -/
theorem serve_ok (P : Prisma) (s₀ : Store) (sched : List (Act Request)) :
    ∀ t ∈ (serve P s₀ sched).tasks, t.Ok P (serve P s₀ sched).store := by
  refine (Sys.tasks_induction (S := server P) (I := fun _ => True) (J := Task.Ok P)
    (Q := fun _ => True) (s := s₀) trivial (fun _ _ => trivial) ?_ ?_ ?_).2
  · intro s r _ _
    cases r <;> trivial
  · exact fun _ t s _ h => ⟨trivial, h.step (step_spec P t s)⟩
  · intro _ t s u _ _ hu
    rcases (step_spec P t s).store with heq | ⟨e, hp, -⟩
    · show u.Ok P (t.step P s).2
      rw [heq]; exact hu
    · exact hu.posted hp

/-- A row that a task is answered with is in the ledger. -/
theorem Task.Ok.mem_ledger (h : t.Ok P s) {e : LedgerEntry} (ha : t.answer = some (.ok e)) :
    e ∈ s.ledger := by
  rcases Task.of_answer ha with ⟨input, rfl⟩ | ⟨input, rfl⟩
  · exact h.2.1
  · exact h.1

theorem Task.Ok.key (h : t.Ok P s) {e : LedgerEntry} (ha : t.answer = some (.ok e)) :
    e.idempotencyKey = t.request.key := by
  rcases Task.of_answer ha with ⟨input, rfl⟩ | ⟨input, rfl⟩
  · exact h.2.2.1
  · exact congrArg LedgerData.idempotencyKey h.2

theorem Task.Ok.not_unique (h : t.Ok P s) {err : Error} (ha : t.answer = some (.error err)) :
    isUniqueViolation err = false := by
  rcases Task.of_answer ha with ⟨input, rfl⟩ | ⟨input, rfl⟩ <;> exact h

/-- Whatever the tasks are, their steps post rows and write nothing else. -/
theorem run_postings (P : Prisma) (p : Pool Store Task) (sched : List (Act Request)) :
    ∃ es, Postings P p.store es ((server P).run p sched).store := by
  refine Sys.run_induction (S := server P) (Q := fun _ => True)
    (I := fun q => ∃ es, Postings P p.store es q.store) ?_ (fun _ _ => trivial) ?_ ?_
  · exact ⟨[], .nil⟩
  · exact fun _ _ _ h => h
  · rintro q i t - ⟨es, hes⟩
    rcases (step_spec P t q.store).store with heq | ⟨e, hp, -⟩
    · exact ⟨es, heq.symm ▸ hes⟩
    · exact ⟨es ++ [e], .snoc hes hp⟩

/-- A step of a reachable task that posts a row writes the row of its request. -/
theorem Task.Step.writes (hst : t.Step P s t' s') (h : t.Ok P s) {e : LedgerEntry}
    (hp : Posted P s e s') (ha : t'.answer = some (.ok e)) (hn : t.answer = none) :
    t'.request.Writes s' e := by
  cases hst with
  | charged input product _ e' _ hch =>
    cases ha
    cases hch with
    | posted hints c hc hle e s' he _ => exact ⟨product, by rw [hp.products]; exact h, he⟩
  | credited input _ answer _ hcr =>
    cases ha
    cases hcr with
    | posted _ c hc hle e s' he _ => exact he
  | replayed input err _ key o hkey ho =>
    -- a replay posts nothing
    have := congrArg List.length hp.ledger
    simp at this
  | answered _ _ ha => rw [hn] at ha; cases ha
  | _ => cases ha

/-- The steps of any requests post rows; each new row is the answer of a task whose request writes
it. -/
theorem serve_postings (P : Prisma) (s₀ : Store) (sched : List (Act Request)) :
    ∃ es, Postings P s₀ es (serve P s₀ sched).store ∧
      ∀ e ∈ es, ∃ t ∈ (serve P s₀ sched).tasks, t.answer = some (.ok e) ∧
        t.request.Writes s₀ e := by
  refine Sys.reach_induction (S := server P)
    (I := fun p => ∃ es, Postings P s₀ es p.store ∧
      ∀ e ∈ es, ∃ t ∈ p.tasks, t.answer = some (.ok e) ∧ t.request.Writes s₀ e)
    ⟨[], .nil, by simp⟩ ?_ ?_
  · rintro pre r - ⟨es, hes, hans⟩
    refine ⟨es, hes, fun e he => ?_⟩
    obtain ⟨t, ht, h⟩ := hans e he
    exact ⟨t, List.mem_append_left _ ht, h⟩
  · rintro pre i t - ht ⟨es, hes, hans⟩
    have hst := step_spec P t (serve P s₀ pre).store
    have hok := serve_ok P s₀ pre t (List.mem_of_getElem? ht)
    have hkeep : ∀ e ∈ es, ∃ u ∈
        (serve P s₀ pre).tasks.set i (t.step P (serve P s₀ pre).store).1,
        u.answer = some (.ok e) ∧ u.request.Writes s₀ e := fun e he => by
      obtain ⟨u, hu, ha, hw⟩ := hans e he
      exact ⟨u, Sys.mem_set_of_answered (S := server P) ht hu
        (by rw [show (server P).answer u = _ from ha]; rfl), ha, hw⟩
    rcases hst.store with heq | ⟨e, hp, ha, hn, -⟩
    · exact ⟨es, heq.symm ▸ hes, hkeep⟩
    · refine ⟨es ++ [e], .snoc hes hp, fun e' he' => ?_⟩
      rcases List.mem_append.mp he' with he' | he'
      · exact hkeep e' he'
      · obtain rfl := List.mem_singleton.mp he'
        have hw := hst.writes hok hp ha hn
        exact ⟨_, List.mem_set (List.getElem?_eq_some_iff.mp ht).1 _, ha,
          hw.of_products (Postings.snoc hes hp).products.symm⟩

end Invariants

/-! ## A small shop -/

/-- A small shop: a product at 100, and two customers with the given balance. -/
def shop (balance : Nat) : Store :=
  .fresh ⟨[⟨"p1", "Widget", 100⟩], by decide⟩
    ⟨[⟨"c1", "Ada", balance⟩, ⟨"c2", "Bob", balance⟩], by simp⟩ (by simp)

/-- A purchase of one unit with the key `k`. -/
def purchase (customerId : String) : ConsumeInput :=
  { customerId, productId := "p1", quantity := 1, idempotencyKey := some "k" }

end UsageBilling
