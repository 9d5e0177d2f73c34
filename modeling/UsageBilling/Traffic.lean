import UsageBilling.Liveness
import UsageBilling.Status

/-!
# What any traffic does to the store of the deployment

* `PostedBy`: a row was posted by a request of the deployment.
* `Traced P s p`: the state `p` is reached from the store `s`: its committed store is `s` and one
  history of postings, and each new row was posted by one of the requests. A death takes no row
  away and adds none.
* `Traced.act`: one action keeps it, and posts at most one row.
* `Traced.created`: the row of a 201 is in the committed ledger, under the key of its request.
* `HttpRequest.account`: whose balance a request may change. `app_foreign`: no other one changes.
-/

namespace UsageBilling

open Sys

/-- The backends over their database. -/
abbrev Backends := Pool (Wal Store) DeploymentTask

/-- The idempotency key that the request carries. -/
def HttpRequest.key (req : HttpRequest) : Option String :=
  match req.route with
  | .consumptionEvents rawKey => rawKey.idempotencyKey
  | _ => none

/-- The row was posted for the task, whose request calls a service; the process may have died since.
`s` has the products. -/
def PostedBy (P : Prisma) (s : Store) (e : LedgerEntry) (m : DeploymentTask) : Prop :=
  ∃ req t, m.task = .serving req t ∧ (∀ s', req.first P s' = .serve t.request) ∧
    t.answer = some (.ok e) ∧ t.request.Writes s e

/-! ## A reply that no service gave -/

section First

variable {P : Prisma} {req : HttpRequest} {s : Store}

theorem key_of_parseConsume {rawKey : Header} {body : Js.Json} {input : ConsumeInput}
    (h : parseConsume rawKey body = .ok input) : input.idempotencyKey = rawKey.idempotencyKey := by
  unfold parseConsume at h
  split at h
  · cases h
  split at h
  · cases h
  split at h
  · cases h
  · cases h
    rfl

/-- A service is called with the key of the request. -/
theorem key_of_first {r : Request} (h : req.first P s = .serve r) : r.key = req.key := by
  unfold HttpRequest.first at h
  unfold HttpRequest.key
  cases hbody : req.body with
  | error message => simp [hbody] at h
  | ok body =>
    simp only [hbody] at h
    cases hroute : req.route with
    | usageEvents customerId query =>
      simp only [hroute] at h
      split at h
      · cases h
      · split at h <;> cases h
    | credits customerId =>
      simp only [hroute] at h
      split at h
      · cases h
      · cases h
        rfl
    | consumptionEvents rawKey =>
      simp only [hroute] at h
      split at h
      · cases h
      · rename_i hparse
        cases h
        exact key_of_parseConsume hparse
    | _ => simp [hroute] at h

/-- A success that needs no service has status 200, and is no POST. -/
theorem ok_of_first {reply : Reply} (h : req.first P s = .answer reply) (hok : reply.isOk = true) :
    reply.status = 200 ∧ req.key = none := by
  unfold HttpRequest.first at h
  unfold HttpRequest.key
  cases hbody : req.body with
  | error message =>
    simp only [hbody] at h
    cases h
    cases hok
  | ok body =>
    simp only [hbody] at h
    cases hroute : req.route with
    | health =>
      simp only [hroute] at h
      cases h
      exact ⟨rfl, rfl⟩
    | products =>
      simp only [hroute] at h
      cases h
      unfold getProducts at hok ⊢
      split at hok
      · exact ⟨rfl, rfl⟩
      · cases hok
    | customers =>
      simp only [hroute] at h
      cases h
      unfold getCustomers at hok ⊢
      split at hok
      · exact ⟨rfl, rfl⟩
      · cases hok
    | usageEvents customerId query =>
      simp only [hroute] at h
      split at h
      · rename_i hparse
        cases h
        simp [Reply.isOk, Response.reply, parseUsageQuery_error hparse] at hok
      · split at h
        · cases h
        · cases h
          cases hok
    | credits customerId =>
      simp only [hroute] at h
      split at h
      · rename_i hparse
        cases h
        simp [Reply.isOk, Response.reply, parseCredit_error hparse] at hok
      · cases h
    | consumptionEvents rawKey =>
      simp only [hroute] at h
      split at h
      · rename_i hparse
        cases h
        simp [Reply.isOk, Response.reply, parseConsume_error hparse] at hok
      · cases h
    | unknown =>
      simp only [hroute] at h
      cases h
      cases hok

/-- A page is read for a request without a key. -/
theorem key_of_list {input : UsageEventsInput} (h : req.first P s = .list input) :
    req.key = none := by
  unfold HttpRequest.first at h
  unfold HttpRequest.key
  cases hbody : req.body with
  | error message => simp [hbody] at h
  | ok body =>
    simp only [hbody] at h
    cases hroute : req.route with
    | consumptionEvents rawKey =>
      simp only [hroute] at h
      split at h <;> cases h
    | _ => rfl

theorem status_of_page {input : UsageEventsInput} (hok : (pageReply P input s).isOk = true) :
    (pageReply P input s).status = 200 := by
  unfold pageReply at hok ⊢
  split at hok
  · rfl
  · cases hok

/-- What holds of a request that no service is called for. -/
def HttpTask.Unserved : HttpTask StmtTask → Prop
  | .listing req _ => req.key = none
  | .replied req reply => reply.isOk = true → reply.status = 200 ∧ req.key = none
  | _ => True

theorem HttpTask.Unserved.step {i : Nat} {t : HttpTask StmtTask} {w : Wal Store}
    (h : t.Unserved) : ((api P).step i t w).1.Unserved := by
  cases t with
  | arrived req =>
    simp only [http]
    cases hf : req.first P w.committed with
    | answer reply => exact ok_of_first hf
    | list input => exact key_of_list hf
    | serve r => trivial
  | listing req input => exact fun hok => ⟨status_of_page hok, h⟩
  | serving req t => trivial
  | replied req reply => exact h

end First

/-! ## One step -/

section Step

variable {P : Prisma} {s : Store} {w : Wal Store} {i : Nat} {t : StmtTask} {m : DeploymentTask}
  {e : LedgerEntry}

/-- A statement keeps the committed store, or it commits a row, with which the request is
answered. -/
theorem StmtTask.step_posts (h : (statementDecisions P).Ok w i t) :
    (t.step P i w).2.committed = w.committed ∨
      ∃ e, Posted P w.committed e (t.step P i w).2.committed ∧
        (t.step P i w).1.answer = some (.ok e) ∧
        t.request.Writes (t.step P i w).2.committed e := by
  have hok : t.task.Ok P w.committed := h.2
  rcases (refinement P).step w i t h.1 with heq | heq
  · exact .inl (Prod.mk.inj heq).2
  · have hst := step_spec P t.task w.committed
    obtain ⟨htask, hstore⟩ := Prod.mk.inj heq
    have htask : (t.step P i w).1.task = (t.task.step P w.committed).1 := htask
    have hstore : (t.step P i w).2.committed = (t.task.step P w.committed).2 := hstore
    rw [← htask, ← hstore] at hst
    rcases hst.store with hsame | ⟨e, hp, ha, hn, -⟩
    · exact .inl hsame
    · have hw := hst.writes hok hp ha hn
      have hreq : (t.step P i w).1.task.request = t.request := by
        rw [← t.request_step P i w]
        exact (refinement P).request (t.step P i w).1
      exact .inr ⟨e, hp, ((refinement P).answer (t.step P i w).1).symm.trans ha, hreq ▸ hw⟩

/-- A step of the deployment keeps the committed store, or posts a row for its request. -/
theorem deployment_step_posts (h : (httpDeath (statementDeath P)).Ok w i m) :
    ((deployment P).step i m w).2.committed = w.committed ∨
      ∃ e, Posted P w.committed e ((deployment P).step i m w).2.committed ∧
        PostedBy P ((deployment P).step i m w).2.committed e ((deployment P).step i m w).1 := by
  have hst := deployment_step_spec P i m w
  generalize (deployment P).step i m w = r at hst ⊢
  cases hst with
  | died => exact .inl (committed_disconnect i w)
  | failed => exact .inl (committed_disconnect i w)
  | step hf ha =>
    have hok := (Death.ok_alive (.inl hf)).mp h
    cases htask : m.task with
    | serving req t =>
      rw [htask] at hok
      rcases StmtTask.step_posts hok.1 with heq | ⟨e, hp, hans, hw⟩
      · exact .inl heq
      · have hreq : ((api P).step i (.serving req t) w).1 = .serving req (t.step P i w).1 := rfl
        refine .inr ⟨e, hp, req, _, hreq, fun s' => ?_, hans, (t.request_step P i w).symm ▸ hw⟩
        rw [t.request_step P i w]
        exact hok.2 s'
    | arrived req =>
      left
      show ((api P).step i (.arrived req) w).2.committed = _
      rw [HttpTask.step_arrived]
    | _ => exact .inl rfl
  | _ => exact .inl rfl

/-- A request that has posted a row stays as it is, but for its fate. -/
theorem PostedBy.step (h : PostedBy P s e m) : PostedBy P s e ((deployment P).step i m w).1 := by
  obtain ⟨req, t, htask, hfirst, ha, hw⟩ := h
  have hst := deployment_step_spec P i m w
  generalize (deployment P).step i m w = r at hst ⊢
  cases hst with
  | step hf hnone =>
    rw [htask] at hnone
    simp only [http, statements, ha] at hnone
    cases hnone
  | _ => exact ⟨req, t, htask, hfirst, ha, hw⟩

end Step

/-! ## Every reachable state -/

/-- The state is reached from the store `s`. -/
structure Traced (P : Prisma) (s : Store) (p : Backends) : Prop where
  lock : LockOk P p
  unserved : ∀ m ∈ p.tasks, m.task.Unserved
  rows : ∃ es, Postings P s es p.store.committed ∧
    ∀ e ∈ es, ∃ (i : Nat) (m : DeploymentTask), p.tasks[i]? = some m ∧ PostedBy P s e m

namespace Traced

variable {P : Prisma} {s : Store} {p : Backends}

theorem init (s : Store) : Traced P s (Sys.init ⟨s, none⟩) where
  lock := .init s
  unserved _ h := by cases h
  rows := ⟨[], .nil, fun _ h => by cases h⟩

theorem submit (h : Traced P s p) (r : Arrival) :
    Traced P s ((deployment P).act p (.submit r)) where
  lock := h.lock.submit r
  unserved m hm := by
    rcases List.mem_append.mp hm with hm | hm
    · exact h.unserved m hm
    · obtain rfl := List.mem_singleton.mp hm
      trivial
  rows := by
    obtain ⟨es, hes, hrows⟩ := h.rows
    refine ⟨es, hes, fun e he => ?_⟩
    obtain ⟨i, m, hm, hposted⟩ := hrows e he
    exact ⟨i, m, (List.getElem?_append_left (List.getElem?_eq_some_iff.mp hm).1).trans hm, hposted⟩

theorem advance (h : Traced P s p) (i : Nat) :
    Traced P s ((deployment P).act p (.advance i)) := by
  refine ⟨h.lock.advance i, ?_, ?_⟩
  · cases hm : p.tasks[i]? with
    | none =>
      rw [act_advance_none hm]
      exact h.unserved
    | some m =>
      rw [act_advance hm]
      intro u hu
      have hunserved := h.unserved m (List.mem_of_getElem? hm)
      rcases mem_set hu with rfl | hu
      · have hst := deployment_step_spec P i m p.store
        generalize (deployment P).step i m p.store = r at hst ⊢
        cases hst with
        | step => exact hunserved.step
        | _ => exact hunserved
      · exact h.unserved u hu
  · obtain ⟨es, hes, hrows⟩ := h.rows
    cases hm : p.tasks[i]? with
    | none =>
      rw [act_advance_none hm]
      exact ⟨es, hes, hrows⟩
    | some m =>
      rw [act_advance hm]
      have hget := getElem?_set_of_some hm ((deployment P).step i m p.store).1
      -- the rows that were there
      have hkeep : ∀ e ∈ es, ∃ (j : Nat) (u : DeploymentTask),
          (p.tasks.set i ((deployment P).step i m p.store).1)[j]? = some u ∧
            PostedBy P s e u := fun e he => by
        obtain ⟨j, u, hu, hposted⟩ := hrows e he
        by_cases hj : j = i
        · subst hj
          obtain rfl := Option.mem_unique hm hu
          exact ⟨j, _, by rw [hget, if_pos rfl], hposted.step⟩
        · exact ⟨j, u, by rw [hget, if_neg hj, hu], hposted⟩
      rcases deployment_step_posts (h.lock.ok i m hm) with
        heq | ⟨e, hp, req, t, htask, hfirst, ha, hw⟩
      · exact ⟨es, heq.symm ▸ hes, hkeep⟩
      · refine ⟨es ++ [e], .snoc hes hp, fun e' he' => ?_⟩
        rcases List.mem_append.mp he' with he' | he'
        · exact hkeep e' he'
        · obtain rfl := List.mem_singleton.mp he'
          have hprod := (Postings.snoc hes hp).products
          exact ⟨i, _, by rw [hget, if_pos rfl], req, t, htask, hfirst, ha,
            hw.of_products hprod.symm⟩

theorem act (h : Traced P s p) (a : Act Arrival) :
    Traced P s ((deployment P).act p a) := by
  cases a with
  | submit r => exact h.submit r
  | advance i => exact h.advance i

theorem run (h : Traced P s p) (sched : List (Act Arrival)) :
    Traced P s ((deployment P).run p sched) := by
  induction sched generalizing p with
  | nil => exact h
  | cons a sched ih => exact ih (h.act a)

/-- One action posts at most a row. -/
theorem postings_act (h : Traced P s p) (a : Act Arrival) :
    ∃ es, Postings P p.store.committed es ((deployment P).act p a).store.committed := by
  cases a with
  | submit r => exact ⟨[], .nil⟩
  | advance i =>
    cases hm : p.tasks[i]? with
    | none =>
      rw [act_advance_none hm]
      exact ⟨[], .nil⟩
    | some m =>
      rw [act_advance hm]
      rcases deployment_step_posts (h.lock.ok i m hm) with heq | ⟨e, hp, -⟩
      · exact ⟨[], heq ▸ .nil⟩
      · exact ⟨[e], .one hp⟩

/-- A 201 is the answer of a service: its row is in the committed ledger, under the key of the
request. -/
theorem created (h : Traced P s p) {i : Nat} {m : DeploymentTask} {e : LedgerEntry}
    (hm : p.tasks[i]? = some m) (ha : (deployment P).answer m = some ⟨201, .api (.entry e)⟩) :
    e ∈ p.store.committed.ledger ∧ e.idempotencyKey = ((api P).request m.task).key := by
  obtain ⟨hf, hans⟩ := deployment_answer_ok ha rfl
  have hok : m.task.Ok (statementDecisions P) p.store i :=
    (Death.ok_alive (.inr hf)).mp (h.lock.ok i m hm)
  have hunserved := h.unserved m (List.mem_of_getElem? hm)
  cases htask : m.task with
  | serving req t =>
    rw [htask] at hok hans
    obtain ⟨answer, ht, heq⟩ := Option.map_eq_some_iff.mp hans
    obtain rfl := respond_created.mp heq
    have htask' : t.task.answer = some (.ok e) := by
      rw [← ht]
      exact (refinement P).answer t
    have hreq : t.task.request = (statements P).request t := (refinement P).request t
    refine ⟨hok.1.2.mem_ledger htask', (hok.1.2.key htask').trans ?_⟩
    exact (congrArg Request.key hreq).trans (key_of_first (hok.2 p.store.committed))
  | replied req reply =>
    rw [htask] at hans hunserved
    cases hans
    cases (hunserved rfl).1
  | _ =>
    rw [htask] at hans
    cases hans

/-- A success for a request with a key is a 201 with a row. -/
theorem created_of_ok (h : Traced P s p) {i : Nat} {m : DeploymentTask} {reply : Reply}
    {key : String} (hm : p.tasks[i]? = some m) (ha : (deployment P).answer m = some reply)
    (hkey : ((api P).request m.task).key = some key) (hok : reply.isOk = true) :
    ∃ e, reply = ⟨201, .api (.entry e)⟩ := by
  obtain ⟨-, hans⟩ := deployment_answer_ok ha hok
  have hunserved := h.unserved m (List.mem_of_getElem? hm)
  cases htask : m.task with
  | serving req t =>
    rw [htask] at hans
    obtain ⟨answer, ht, rfl⟩ := Option.map_eq_some_iff.mp hans
    cases answer with
    | ok e => exact ⟨e, respond_created.mpr rfl⟩
    | error err =>
      rw [not_ok_of_error] at hok
      cases hok
  | replied req reply' =>
    rw [htask] at hans hunserved hkey
    cases hans
    have hnone := (hunserved hok).2
    rw [show req.key = some key from hkey] at hnone
    cases hnone
  | _ =>
    rw [htask] at hans
    cases hans

end Traced

/-! ## Whose account a request is for -/

/-- The customer whose balance the request may change. -/
def HttpRequest.account (req : HttpRequest) : Option String :=
  match req.body with
  | .error _ => none
  | .ok body =>
    match req.route with
    | .credits customerId => some customerId
    | .consumptionEvents _ => Js.Json.nonemptyString? (body.field "customerId")
    | _ => none

section Account

variable {P : Prisma} {req : HttpRequest} {s : Store} {customerId : String}

theorem customerId_of_parseConsume {rawKey : Header} {body : Js.Json} {input : ConsumeInput}
    (h : parseConsume rawKey body = .ok input) :
    Js.Json.nonemptyString? (body.field "customerId") = some input.customerId := by
  unfold parseConsume at h
  split at h
  · cases h
  · rename_i customerId hc
    split at h
    · cases h
    · split at h
      · cases h
      · cases h
        exact hc

theorem customerId_of_parseCredit {body : Js.Json} {input : CreditInput}
    (h : parseCredit customerId body = .ok input) : input.customerId = customerId := by
  unfold parseCredit at h
  split at h
  · cases h
  · cases h
    rfl

/-- A service is called for the account of the request. -/
theorem account_of_first {r : Request} (h : req.first P s = .serve r) :
    req.account = some r.customerId := by
  unfold HttpRequest.first at h
  unfold HttpRequest.account
  cases hbody : req.body with
  | error message => simp [hbody] at h
  | ok body =>
    simp only [hbody] at h
    cases hroute : req.route with
    | usageEvents customerId query =>
      simp only [hroute] at h
      split at h
      · cases h
      · split at h <;> cases h
    | credits customerId =>
      simp only [hroute] at h
      split at h
      · cases h
      · rename_i hparse
        cases h
        exact congrArg some (customerId_of_parseCredit hparse).symm
    | consumptionEvents rawKey =>
      simp only [hroute] at h
      split at h
      · cases h
      · rename_i hparse
        cases h
        exact customerId_of_parseConsume hparse
    | _ => simp [hroute] at h

/-- A request for another account does nothing to this one. -/
theorem app_foreign (P : Prisma) (s : Store) (h : req.account ≠ some customerId) :
    (app P req s).2.customers.find? customerId = s.customers.find? customerId ∧
      (app P req s).2.ownRows customerId = s.ownRows customerId := by
  rw [app_first]
  cases hf : req.first P s with
  | answer reply => exact ⟨rfl, rfl⟩
  | list input => exact ⟨rfl, rfl⟩
  | serve r =>
    have hne : r.customerId ≠ customerId := fun heq => h (heq ▸ account_of_first hf)
    show (service P r s).2.customers.find? customerId = _ ∧
      (service P r s).2.ownRows customerId = _
    rcases service_cases P r s with ⟨heq, -⟩ | ⟨e, -, hw, hpost⟩
    · rw [heq]
      exact ⟨rfl, rfl⟩
    · have hown : e.customerId ≠ customerId := hw.customerId ▸ hne
      exact ⟨hpost.find?_ne (Ne.symm hown), by rw [hpost.ownRows, if_neg hown, List.append_nil]⟩

end Account

end UsageBilling
