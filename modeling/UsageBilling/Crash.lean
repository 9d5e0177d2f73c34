import UsageBilling.Lib.Fair
import UsageBilling.Lib.Mortal
import UsageBilling.Api
import UsageBilling.Statements

/-!
# The deployment: requests, statements, one write lock, processes that die, and timeouts

`docker-compose.yml` runs several backends over one SQLite file behind a proxy; a request runs in
one of them, statement by statement, and that backend may die at any moment. SQLite then drops
what its connection has not committed, and frees the lock (`Wal.rollback`). A statement may also
time out (the `maxWait` and `timeout` of the transactions, Prisma's pool, SQLite's `busy_timeout`):
Prisma rolls back and throws, and the middleware answers with status 500.

* `deployment P`: all this as one system. A request carries the fault that ends it early, if there
  is one.
* `deployment_linearizable`: a request that is answered has taken effect as if it ran alone, or it
  timed out and has taken none; one that is not has taken effect as a whole or not at all.
* `deployment_completes`: the lock never blocks for good, even after deaths: if each request keeps
  getting turns, each is answered or its process is dead.
-/

namespace UsageBilling

open Sys

/-- The transaction with the index `i` is rolled back: its process has died, or it timed out. -/
def disconnect (i : Nat) (w : Wal Store) : Wal Store := w.rollback i

/-- The next step of the request is a statement. -/
def StmtTask.busy (t : StmtTask) : Bool := t.answer.isNone

/-- The route reads the database before it does anything else. -/
def HttpRequest.reads (req : HttpRequest) : Bool :=
  match req.body, req.route with
  | .ok _, .products | .ok _, .customers => true
  | .ok _, .usageEvents customerId query =>
    match parseUsageQuery customerId query with
    | .ok _ => true
    | .error _ => false
  | _, _ => false

/-- The next step of the request accesses the database. -/
def HttpTask.busy {τ : Type} (busy : τ → Bool) : HttpTask τ → Bool
  | .arrived req => req.reads
  | .listing _ _ => true
  | .serving _ t => busy t
  | .replied _ _ => false

/-- The faults of the statements. -/
def statementFaults : Faults (Wal Store) StmtTask := ⟨disconnect, StmtTask.busy⟩

/-- The faults of the services, at the application. -/
def httpFaults {σ τ : Type} (F : Faults σ τ) : Faults σ (HttpTask τ) :=
  ⟨F.release, HttpTask.busy F.busy⟩

/-- The middleware's reply to the error of a timeout. -/
def timedOut (message : String) : Reply := ⟨500, .error message⟩

/-- The application over the statements of the requests; reads see the committed store. -/
abbrev api (P : Prisma) : Sys (Wal Store) HttpRequest (HttpTask StmtTask) Reply :=
  http P (statements P) Wal.committed

/-- A request, with its fault. A timeout carries the message of its error. -/
abbrev Arrival := HttpRequest × Option (Fault String)

/-- A request of the deployment, with its age and its fate. -/
abbrev DeploymentTask := Mortal (HttpTask StmtTask) String

/-- The faults of the requests. -/
abbrev deploymentFaults : Faults (Wal Store) (HttpTask StmtTask) := httpFaults statementFaults

/-- The backends, as their clients see them. -/
def deployment (P : Prisma) : Sys (Wal Store) Arrival DeploymentTask Reply :=
  (api P).faulty deploymentFaults timedOut

/-- The state after a schedule of requests and steps that starts in the store `s`. -/
abbrev deployed (P : Prisma) (s : Store) (sched : List (Act Arrival)) :
    Pool (Wal Store) DeploymentTask :=
  (deployment P).run (Sys.init ⟨s, none⟩) sched

theorem deployment_step_spec (P : Prisma) (i : Nat) (m : DeploymentTask) (w : Wal Store) :
    MortalStep (api P) deploymentFaults i m w ((deployment P).step i m w) :=
  mortal_step_spec (api P) deploymentFaults i m w

/-- A reply is that of the application, or that of a timeout. -/
theorem deployment_answer {P : Prisma} {m : DeploymentTask} {reply : Reply}
    (h : (deployment P).answer m = some reply) :
    (m.fate = .answered ∧ (api P).answer m.task = some reply) ∨
      ∃ message, m.fate = .failed message ∧ reply = timedOut message := faulty_answer h

/-- A success is the application's reply. -/
theorem deployment_answer_ok {P : Prisma} {m : DeploymentTask} {reply : Reply}
    (h : (deployment P).answer m = some reply) (hok : reply.isOk = true) :
    m.fate = .answered ∧ (api P).answer m.task = some reply := by
  rcases deployment_answer h with hans | ⟨message, -, rfl⟩
  · exact hans
  · cases hok

/-! ## What an early end leaves -/

section Death

variable {P : Prisma} {w : Wal Store} {i j : Nat}

@[simp] theorem committed_disconnect (i : Nat) (w : Wal Store) :
    (disconnect i w).committed = w.committed := by
  unfold disconnect Wal.rollback
  split
  · rfl
  · split <;> rfl

/-- The death of another process keeps the invariant of a transaction. -/
theorem txOk_disconnect (hne : i ≠ j) {x : Db Nat} {f : Nat → Db LedgerEntry}
    {tx : Tx Nat Error LedgerEntry} (h : tx.Ok j x f w) : tx.Ok j x f (disconnect i w) := by
  match tx, h with
  | .first, _ => trivial
  | .second b, ⟨s, hw, hx⟩ =>
    rw [disconnect, Wal.rollback_held hw hne]
    exact ⟨s, hw, hx⟩
  | .finish r, ⟨s, hw, hx⟩ =>
    rw [disconnect, Wal.rollback_held hw hne]
    exact ⟨s, hw, hx⟩

theorem StmtTask.Ok.disconnect {u : StmtTask} (hne : i ≠ j) (hu : u.Ok P w j) :
    u.Ok P (disconnect i w) j := by
  cases u with
  | charging input product tx => exact txOk_disconnect hne hu
  | crediting input tx => exact txOk_disconnect hne hu
  | _ => trivial

/-- Where the requests of the statements take effect. -/
abbrev statementDecisions (P : Prisma) : (statements P).Decisions (service P) :=
  (refinement P).decisions (serverDecisions P)

/-- A step of a statement keeps what holds of a task of the server, and what is decided for it. -/
theorem dead_of_step {t u : StmtTask} (h : (statementDecisions P).Ok w i t)
    (hu : u.task.Ok P w.committed) : u.task.Ok P ((statements P).step i t w).2.committed ∧
      u.task.decided ((statements P).step i t w).2.committed = u.task.decided w.committed := by
  rcases (refinement P).step w i t h.1 with heq | heq
  · rw [show ((statements P).step i t w).2.committed = w.committed from (Prod.mk.inj heq).2]
    exact ⟨hu, rfl⟩
  · rw [show ((statements P).step i t w).2.committed = (t.task.step P w.committed).2 from
      (Prod.mk.inj heq).2]
    exact hu.stable

/-- After a statement that is followed by another one, nothing is committed, and nothing was decided
before it. -/
theorem StmtTask.busy_step {t : StmtTask} (h : (statementDecisions P).Ok w i t)
    (hnone : t.answer = none) (hbusy : (t.step P i w).1.busy = true) :
    t.task.decided w.committed = none ∧ (t.step P i w).2.committed = w.committed := by
  have hnext : (t.step P i w).1.answer = none := Option.isNone_iff_eq_none.mp hbusy
  cases t with
  | lookup input =>
    cases hp : w.committed.products.find? input.productId with
    | some product => exact ⟨rfl, by rw [step_found hp]⟩
    | none => exact ⟨rfl, by rw [step_noProduct hp]⟩
  | charging input product tx =>
    refine ⟨rfl, ?_⟩
    simp only [step] at hnext ⊢
    rcases Tx.step_spec h.1 with ⟨tx', w', heq, -, hsame⟩ | ⟨r, w', heq, hrun⟩
    · rw [heq]
      exact hsame
    · rw [heq] at hnext ⊢
      cases r with
      | ok e => cases hnext
      | error err =>
        -- a replay follows: the transaction was rolled back
        have hch := charge_spec P input product w.committed
        rw [← chargeTx_eq] at hrun
        rw [hrun] at hch
        exact hch.store_of_error
  | replaying input err => cases hnext
  | crediting input tx =>
    refine ⟨rfl, ?_⟩
    simp only [step] at hnext ⊢
    rcases Tx.step_spec h.1 with ⟨tx', w', heq, -, hsame⟩ | ⟨r, w', heq, -⟩
    · rw [heq]
      exact hsame
    · rw [heq] at hnext
      cases hnext
  | consumed input answer => cases hnone
  | credited input answer => cases hnone

/-- A request that ended early at a statement: the lock is gone, and nothing else has changed. -/
def statementDeath (P : Prisma) : Death (statementDecisions P) statementFaults where
  Dead w t := t.task.Ok P w.committed
  abs_release i w := committed_disconnect i w
  dies w i t h := by
    refine ⟨?_, congrArg t.task.decided (committed_disconnect i w)⟩
    show t.task.Ok P (disconnect i w).committed
    rw [committed_disconnect]
    exact h.2
  ok_release w i j u hne hu := by
    refine ⟨⟨hu.1.disconnect hne, ?_⟩, congrArg u.task.decided (committed_disconnect i w)⟩
    show u.task.Ok P (disconnect i w).committed
    rw [committed_disconnect]
    exact hu.2
  dead_release w i u hu := by
    refine ⟨?_, congrArg u.task.decided (committed_disconnect i w)⟩
    show u.task.Ok P (disconnect i w).committed
    rw [committed_disconnect]
    exact hu
  dead_step _ _ _ _ h hu := dead_of_step h hu
  busy_step _ _ _ h hnone hbusy := StmtTask.busy_step h hnone hbusy

end Death

/-! ## A request of the application that ended early -/

section HttpDeath

variable {σ τ : Type} {P : Prisma} {S : Sys σ Request τ Answer} {D : S.Decisions (service P)}
  {F : Faults σ τ}

/-- What holds of a request after its early end. -/
def HttpTask.Dead (K : Death D F) (s : σ) : HttpTask τ → Prop
  | .serving _ t => K.Dead s t
  | _ => True

/-- A step after which the request accesses the database again has taken no effect. -/
theorem HttpTask.busy_step (K : Death D F) {s : σ} {i : Nat} {t : HttpTask τ}
    (h : (httpDecisions D).Ok s i t) (hnone : (http P S D.abs).answer t = none)
    (hbusy : HttpTask.busy F.busy ((http P S D.abs).step i t s).1 = true) :
    t.decided D s = none ∧ D.abs ((http P S D.abs).step i t s).2 = D.abs s := by
  cases t with
  | arrived req => exact ⟨rfl, by rw [HttpTask.step_arrived]⟩
  | listing req input => exact ⟨rfl, rfl⟩
  | serving req t =>
    have ha : S.answer t = none := by simpa [http] using hnone
    obtain ⟨hdec, habs⟩ := K.busy_step s i t h.1 ha hbusy
    exact ⟨by simp only [HttpTask.decided, hdec, Option.map_none], habs⟩
  | replied req reply => cases hnone

/-- An early end at the service is one at the application. -/
def httpDeath (K : Death D F) : Death (httpDecisions D) (httpFaults F) where
  Dead := HttpTask.Dead K
  abs_release := K.abs_release
  dies s i t h := by
    cases t with
    | serving req t =>
      obtain ⟨hdead, hdec⟩ := K.dies s i t h.1
      exact ⟨hdead, congrArg (Option.map _) hdec⟩
    | _ => exact ⟨trivial, rfl⟩
  ok_release s i j u hne hu := by
    cases u with
    | listing req input =>
      refine ⟨?_, rfl⟩
      show req.first P (D.abs (F.release i s)) = .list input
      rw [K.abs_release]
      exact hu
    | serving req u =>
      obtain ⟨hok, hdec⟩ := K.ok_release s i j u hne hu.1
      exact ⟨⟨hok, hu.2⟩, congrArg (Option.map _) hdec⟩
    | _ => exact ⟨trivial, rfl⟩
  dead_release s i u hu := by
    cases u with
    | serving req u =>
      obtain ⟨hdead, hdec⟩ := K.dead_release s i u hu
      exact ⟨hdead, congrArg (Option.map _) hdec⟩
    | _ => exact ⟨trivial, rfl⟩
  dead_step s i t u h hu := by
    cases u with
    | serving req u =>
      have hkeep : K.Dead ((http P S D.abs).step i t s).2 u ∧
          D.decided ((http P S D.abs).step i t s).2 u = D.decided s u := by
        cases t with
        | serving req' t => exact K.dead_step s i t u h.1 hu
        | arrived req' => rw [HttpTask.step_arrived]; exact ⟨hu, rfl⟩
        | _ => exact ⟨hu, rfl⟩
      exact ⟨hkeep.1, congrArg (Option.map _) hkeep.2⟩
    | _ => exact ⟨trivial, rfl⟩
  busy_step _ _ _ h hnone hbusy := HttpTask.busy_step K h hnone hbusy

end HttpDeath

/-! ## Every run of the deployment is linearizable -/

/-- Where the requests of the deployment take effect. -/
abbrev deploymentDecisions (P : Prisma) :
    ((api P).mortal deploymentFaults).Decisions fun r : Arrival => app P r.1 :=
  .mortal (httpDeath (statementDeath P))

/-- What a client gets is decided, or it is the error of a timeout, with nothing decided. -/
theorem decidedAt_of_reply {P : Prisma} {p : Pool (Wal Store) DeploymentTask} {i : Nat}
    {reply : Reply} (h : (p.tasks[i]?).bind (deployment P).answer = some reply) :
    (deploymentDecisions P).decidedAt p i = some reply ∨
      (deploymentDecisions P).decidedAt p i = none ∧ ∃ message, reply = timedOut message := by
  obtain ⟨m, hm, ha⟩ := Option.bind_eq_some_iff.mp h
  rw [Decisions.decidedAt_some hm]
  rcases deployment_answer ha with ⟨hf, hans⟩ | ⟨message, hf, rfl⟩
  · refine .inl ((deploymentDecisions P).decided_answer _ m reply ?_)
    simp only [mortal, hf, hans]
  · exact .inr ⟨Death.decided_of_doomed (Mortal.doomed_failed hf), message, rfl⟩

/-- The service has computed its answer, or the charge has collided with the row that is the
answer. -/
def StmtTask.ran : StmtTask → Bool
  | .consumed _ _ | .credited _ _ | .replaying _ _ => true
  | _ => false

/-- The request has run as a whole: its reply is fixed, whether or not it is sent. -/
def HttpTask.ran : HttpTask StmtTask → Bool
  | .serving _ t => t.ran
  | .replied _ _ => true
  | _ => false

section Ran

variable {P : Prisma} {w : Wal Store} {i : Nat} {m : DeploymentTask}

theorem StmtTask.decided_ran {t : StmtTask} (h : t.task.Ok P w.committed) :
    (t.task.decided w.committed).isSome = t.ran := by
  cases t with
  | replaying input err =>
    obtain ⟨-, -, key, o, hkey, ho⟩ := h
    simp [StmtTask.task, Task.decided, hkey, ho, StmtTask.ran]
  | _ => rfl

/-- What is decided for a request is the reply of one that has run and does not time out. -/
theorem decided_ran (h : (httpDeath (statementDeath P)).Ok w i m) :
    ((deploymentDecisions P).decided w m).isSome =
      (m.task.ran && !m.doomed deploymentFaults.busy) := by
  have htask : (m.task.decided (statementDecisions P) w).isSome = m.task.ran := by
    cases ht : m.task with
    | serving req t =>
      have hok : t.task.Ok P w.committed := by
        by_cases ha : Death.Alive m
        · have := (Death.ok_alive ha).mp h
          rw [ht] at this
          exact this.1.2
        · have := (Death.ok_ended ha).mp h
          rw [ht] at this
          exact this
      simp only [HttpTask.decided, Option.isSome_map, HttpTask.ran]
      exact StmtTask.decided_ran hok
    | _ => rfl
  show (Death.decided (httpDecisions _) _ w m).isSome = _
  cases hd : m.doomed deploymentFaults.busy with
  | true => simp [Death.decided, hd]
  | false =>
    simp only [Death.decided, hd, Bool.false_eq_true, ↓reduceIte, Bool.not_false, Bool.and_true]
    exact htask

end Ran

/-- In every run, whatever processes die and whatever times out: the requests that have run as a
whole, but for those that time out, ran one after the other through the application, in an order in
which a request answered before another one arrived comes first; they leave the committed store. A
reply is that of its request in this order, or it is the error of its timeout, and the request is
not in the order. -/
theorem deployment_linearizable (P : Prisma) (s : Store) (sched : List (Act Arrival)) :
    ∃ (order : List Nat) (replies : List Reply), order.Nodup ∧
      (∀ i, i ∈ order ↔ ∃ m, (deployed P s sched).tasks[i]? = some m ∧ m.task.ran = true ∧
        m.doomed deploymentFaults.busy = false) ∧
      (∀ i m reply, (deployed P s sched).tasks[i]? = some m →
        (deployment P).answer m = some reply →
        (∃ k : Nat, order[k]? = some i ∧ replies[k]? = some reply) ∨
        i ∉ order ∧ ∃ message, m.fate = .failed message ∧ reply = timedOut message) ∧
      (∀ pre, pre <+: sched → ∀ a b m, (deployed P s pre).tasks[a]? = some m →
        ((deployment P).answer m).isSome → (submitted pre).length ≤ b → a ∈ order → b ∈ order →
        [a, b].Sublist order) ∧
      sequential (fun r => app P r.1) (order.filterMap ((submitted sched)[·]?)) s =
        (replies, (deployed P s sched).store.committed) := by
  obtain ⟨order, replies, hnodup, hmem, hreply, hreal, hseq⟩ :=
    (httpDeath (statementDeath P)).linearizable timedOut ⟨s, none⟩ sched
  refine ⟨order, replies, hnodup, fun i => ?_, hreply, hreal, hseq⟩
  rw [hmem]
  show ((deploymentDecisions P).decidedAt (deployed P s sched) i).isSome = true ↔ _
  cases hm : (deployed P s sched).tasks[i]? with
  | none => simp [Decisions.decidedAt, hm]
  | some m =>
    have hok : (httpDeath (statementDeath P)).Ok (deployed P s sched).store i m :=
      (deploymentDecisions P).ok_run hm
    rw [Decisions.decidedAt_some hm, decided_ran hok]
    simp

-- A top-up times out in its transaction: its client gets a 500. A purchase that arrives then is
-- charged, and nothing is left of the top-up.
example :
    let p := deployed .sqlite (shop 200)
      ([.submit (⟨.credits "c1", .ok (.object [("amount", .number (.finite 50))])⟩,
        some (.timeout 2 "Transaction already closed")), .advance 0, .advance 0, .advance 0,
        .submit (⟨.consumptionEvents (.single "k"), .ok (.object [("customerId", .string "c1"),
          ("productId", .string "p1"), ("quantity", .number (.finite 1))])⟩, none)] ++
        List.replicate 6 (.advance 1))
    (p.tasks.map fun m => ((deployment .sqlite).answer m).map (·.status)) =
        [some 500, some 201] ∧
      p.store.committed.ledger.map (·.amount) = [-100] := by
  decide +kernel

end UsageBilling
