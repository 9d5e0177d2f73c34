import UsageBilling.Lib.Refine
import UsageBilling.Lib.WriteLock
import UsageBilling.Serial

/-!
# The backend at statement level, and its linearizability

Each request runs as its SQL statements over one SQLite file in WAL mode: a transaction takes the
write lock at its `updateMany`, and all other reads see the last committed store.

* `statements P`: the system. `StmtTask` says which statement of a request is next.
* `refinement P`: it refines the server, whose transactions are one step: the commit or rollback
  is that step, and the statements before it change nothing that others see.
* `requests_linearizable`: the answers and the last committed store are those of the requests one
  after the other. A request takes effect where it does in the server (`serverDecisions`).
-/

namespace UsageBilling

/-- The second statement of a consume: the read of the customer, or the insert. -/
def settle (P : Prisma) (input : ConsumeInput) (product : Product) (count : Nat) : Db LedgerEntry :=
  if count = 0 then reject P input product else record P input product

theorem chargeTx_eq (P : Prisma) (input : ConsumeInput) (product : Product) :
    chargeTx P input product = deduct P input product >>= settle P input product := rfl

/-- What follows the update of a `creditWallet`. -/
def settleCredit (P : Prisma) (input : CreditInput) (count : Nat) : Db LedgerEntry :=
  if count = 0 then throw (.customerNotFound input.customerId)
  else LedgerEntry.create P (creditData input)

theorem creditTx_eq (P : Prisma) (input : CreditInput) :
    creditTx P input = increment P input >>= settleCredit P input := rfl

/-- A request between two of its statements. -/
inductive StmtTask where
  /-- Before the product lookup. -/
  | lookup (input : ConsumeInput)
  | charging (input : ConsumeInput) (product : Product) (tx : Tx Nat Error LedgerEntry)
  /-- Before the replay lookup. -/
  | replaying (input : ConsumeInput) (err : Error)
  | consumed (input : ConsumeInput) (answer : Answer)
  | crediting (input : CreditInput) (tx : Tx Nat Error LedgerEntry)
  | credited (input : CreditInput) (answer : Answer)

namespace StmtTask

/-- A call before its first statement. -/
def start : Request → StmtTask
  | .consume input => .lookup input
  | .credit input => .crediting input .first

/-- The call that the task is. -/
def request : StmtTask → Request
  | .lookup input | .charging input _ _ | .replaying input _ | .consumed input _ => .consume input
  | .crediting input _ | .credited input _ => .credit input

/-- What the call has returned, if it has. -/
def answer : StmtTask → Option Answer
  | .consumed _ answer | .credited _ answer => some answer
  | _ => none

/-- The task after its transaction has ended. -/
def charged (input : ConsumeInput) : Answer → StmtTask
  | .ok e => .consumed input (.ok e)
  | .error err =>
    if isReplay input err then .replaying input err else .consumed input (.error err)

/-- The next statement of the task with index `i`. -/
def step (P : Prisma) (i : Nat) : StmtTask → Wal Store → StmtTask × Wal Store
  | .lookup input, w =>
    match ((lookupProduct input).run w.committed).1 with
    | .ok product => (.charging input product .first, w)
    | .error err => (.consumed input (.error err), w)
  | .charging input product tx, w =>
    match tx.step i (deduct P input product) (settle P input product) w with
    | (.inl tx, w') => (.charging input product tx, w')
    | (.inr answer, w') => (charged input answer, w')
  | .replaying input err, w => (.consumed input ((replay input err).run w.committed).1, w)
  | .crediting input tx, w =>
    match tx.step i (increment P input) (settleCredit P input) w with
    | (.inl tx, w') => (.crediting input tx, w')
    | (.inr answer, w') => (.credited input answer, w')
  | .consumed input answer, w => (.consumed input answer, w)
  | .credited input answer, w => (.credited input answer, w)

theorem request_step (P : Prisma) (i : Nat) (t : StmtTask) (w : Wal Store) :
    (t.step P i w).1.request = t.request := by
  unfold step
  split
  · split <;> rfl
  · split
    · rfl
    · unfold charged
      split
      · rfl
      · split <;> rfl
  · rfl
  · split <;> rfl
  all_goals rfl

theorem step_answered (P : Prisma) (i : Nat) (t : StmtTask) (w : Wal Store)
    (h : t.answer.isSome) : t.step P i w = (t, w) := by
  cases t with
  | consumed input answer => rfl
  | credited input answer => rfl
  | _ => cases h

end StmtTask

/-- The backend processes over one SQLite file. -/
def statements (P : Prisma) : Sys (Wal Store) Request StmtTask Answer where
  start := StmtTask.start
  request := StmtTask.request
  answer := StmtTask.answer
  step i t w := t.step P i w
  request_start r := by cases r <;> rfl
  request_step i t w := StmtTask.request_step P i t w
  step_answered i t w h := StmtTask.step_answered P i t w h

/-! ## The statements refine the server -/

namespace StmtTask

/-- The task of the server. -/
def task : StmtTask → Task
  | .lookup input => .consume input .lookup
  | .charging input product _ => .consume input (.charge product)
  | .replaying input err => .consume input (.replay err)
  | .consumed input answer => .consume input (.done answer)
  | .crediting input _ => .credit input none
  | .credited input answer => .credit input (some answer)

/-- The invariant of the task with index `i`: that of its transaction. -/
def Ok (P : Prisma) (w : Wal Store) (i : Nat) : StmtTask → Prop
  | .charging input product tx => tx.Ok i (deduct P input product) (settle P input product) w
  | .crediting input tx => tx.Ok i (increment P input) (settleCredit P input) w
  | _ => True

variable {P : Prisma} {w : Wal Store} {i j : Nat} {t u : StmtTask}

theorem step_found {input : ConsumeInput} {product : Product}
    (hp : w.committed.products.find? input.productId = some product) :
    (lookup input).step P i w = (.charging input product .first, w) := by
  simp only [step, run_lookupProduct, hp]

theorem step_noProduct {input : ConsumeInput}
    (hp : w.committed.products.find? input.productId = none) :
    (lookup input).step P i w =
      (.consumed input (.error (productNotFound input.productId)), w) := by
  simp only [step, run_lookupProduct, hp]

/-- The end of the charge's transaction is the step of the server. -/
theorem charged_spec {input : ConsumeInput} {product : Product} {r : Answer} {w' : Wal Store}
    (hrun : (Txn.transaction (chargeTx P input product)).run w.committed = (r, w'.committed)) :
    (charged input r).Ok P w' i ∧ ((charged input r).task, w'.committed) =
      (Task.consume input (.charge product)).step P w.committed := by
  cases r with
  | ok e => exact ⟨trivial, (step_charge_ok hrun).symm⟩
  | error err =>
    rw [step_charge_error hrun, charged]
    split <;> exact ⟨trivial, rfl⟩

/-- Every step keeps the invariant of its task, and it is the step of the server or nothing. -/
theorem Ok.step_spec (h : t.Ok P w i) : (t.step P i w).1.Ok P (t.step P i w).2 i ∧
    (((t.step P i w).1.task, (t.step P i w).2.committed) = (t.task, w.committed) ∨
      ((t.step P i w).1.task, (t.step P i w).2.committed) = t.task.step P w.committed) := by
  cases t with
  | lookup input =>
    cases hp : w.committed.products.find? input.productId with
    | some product =>
      rw [step_found hp]
      exact ⟨trivial, .inr (UsageBilling.step_found hp).symm⟩
    | none =>
      rw [step_noProduct hp]
      exact ⟨trivial, .inr (UsageBilling.step_noProduct hp).symm⟩
  | charging input product tx =>
    simp only [step]
    rcases Tx.step_spec h with ⟨tx', w', heq, hok, hw⟩ | ⟨r, w', heq, hrun⟩
    · rw [heq]
      exact ⟨hok, .inl (Prod.ext rfl hw)⟩
    · rw [heq]
      rw [← chargeTx_eq] at hrun
      obtain ⟨hok, hstep⟩ := charged_spec (i := i) hrun
      exact ⟨hok, .inr hstep⟩
  | replaying input err =>
    refine ⟨trivial, .inr ?_⟩
    exact Prod.ext rfl (replay_store input err w.committed).symm
  | crediting input tx =>
    simp only [step]
    rcases Tx.step_spec h with ⟨tx', w', heq, hok, hw⟩ | ⟨r, w', heq, hrun⟩
    · rw [heq]
      exact ⟨hok, .inl (Prod.ext rfl hw)⟩
    · rw [heq]
      rw [← creditTx_eq] at hrun
      refine ⟨trivial, .inr ?_⟩
      simp only [task, Task.step, creditWallet, hrun]
  | consumed input answer => exact ⟨trivial, .inl rfl⟩
  | credited input answer => exact ⟨trivial, .inl rfl⟩

/-- A step does nothing to the lock but that of its transaction. -/
theorem step_wal (P : Prisma) (i : Nat) (t : StmtTask) (w : Wal Store) :
    (t.step P i w).2 = w ∨
    ∃ (x : Db Nat) (f : Nat → Db LedgerEntry) (tx : Tx Nat Error LedgerEntry),
      (t.step P i w).2 = (tx.step i x f w).2 := by
  cases t with
  | lookup input =>
    simp only [step]
    split <;> exact .inl rfl
  | charging input product tx =>
    refine .inr ⟨deduct P input product, settle P input product, tx, ?_⟩
    simp only [step]
    split <;> (rename_i heq; rw [heq])
  | crediting input tx =>
    refine .inr ⟨increment P input, settleCredit P input, tx, ?_⟩
    simp only [step]
    split <;> (rename_i heq; rw [heq])
  | _ => exact .inl rfl

theorem txOk_of_step (hne : i ≠ j) {x : Db Nat} {f : Nat → Db LedgerEntry}
    {tx : Tx Nat Error LedgerEntry} (h : tx.Ok j x f w) : tx.Ok j x f (t.step P i w).2 := by
  rcases step_wal P i t w with heq | ⟨y, g, tx', heq⟩
  · rw [heq]; exact h
  · rw [heq]; exact h.of_step hne

/-- A step keeps the invariants of the other tasks. -/
theorem Ok.stable (hne : i ≠ j) (hu : u.Ok P w j) : u.Ok P (t.step P i w).2 j := by
  cases u with
  | charging input product tx => exact txOk_of_step hne hu
  | crediting input tx => exact txOk_of_step hne hu
  | _ => trivial

end StmtTask

/-- The backend with atomic transactions is what the statements do. -/
def refinement (P : Prisma) : (statements P).Refinement (server P) where
  store := Wal.committed
  task := StmtTask.task
  Ok := StmtTask.Ok P
  ok_start _ _ r := by cases r <;> trivial
  ok_step _ _ _ h := h.step_spec.1
  ok_stable _ _ _ _ _ hne _ hu := hu.stable hne
  start r := by cases r <;> rfl
  request t := by cases t <;> rfl
  answer t := by cases t <;> rfl
  step _ _ _ h := h.step_spec.2

/-- The state after a schedule of requests and statements that starts in the store `s`, with the
write lock free. -/
abbrev serveStatements (P : Prisma) (s : Store) (sched : List (Act Request)) :
    Pool (Wal Store) StmtTask :=
  (statements P).run (Sys.init ⟨s, none⟩) sched

/-- Every run of the statements is a run of the server, with the same requests and answers. -/
theorem serveStatements_refines (P : Prisma) (s : Store) (sched : List (Act Request)) :
    ∃ sched', submitted sched' = submitted sched ∧
      serve P s sched' = ⟨(serveStatements P s sched).store.committed,
        (serveStatements P s sched).tasks.map StmtTask.task⟩ :=
  (refinement P).run ⟨s, none⟩ sched

/-- If all requests of a schedule of statements are answered, there is one order of the requests
(by their indices) in which a request that was answered before another one arrived comes first, and
the services one after the other in that order give each request the same answer and leave the
same store. -/
theorem requests_linearizable (P : Prisma) (s : Store) (sched : List (Act Request))
    (hall : ∀ t ∈ (serveStatements P s sched).tasks, t.answer.isSome) :
    ∃ order answers, order.Perm (List.range (submitted sched).length) ∧
      (∀ pre, pre <+: sched → ∀ a b t, (serveStatements P s pre).tasks[a]? = some t →
        t.answer.isSome → (submitted pre).length ≤ b → b < (submitted sched).length →
        [a, b].Sublist order) ∧
      sequential (service P) (order.filterMap ((submitted sched)[·]?)) s =
        (answers, (serveStatements P s sched).store.committed) ∧
      order.map (fun i => ((serveStatements P s sched).tasks[i]?).bind StmtTask.answer) =
        answers.map some :=
  ((refinement P).decisions (serverDecisions P)).linearizable ⟨s, none⟩ sched hall

/-- Two submits of one purchase, statement by statement. The second one waits for the lock, collides
at its insert, rolls back and replays. -/
def doubleFireStatements : List (Act Request) :=
  [.submit (.consume (purchase "c1")), .submit (.consume (purchase "c1")), .advance 0, .advance 1,
    .advance 0, .advance 1, .advance 0, .advance 0, .advance 1, .advance 1, .advance 1, .advance 1]

theorem requests_linearizable_doubleFire :
    ∃ (order : List Nat) (answers : List Answer), order.Perm (List.range 2) ∧
      sequential (service .sqlite) (order.filterMap ((submitted doubleFireStatements)[·]?))
          (shop 200) =
        (answers, (serveStatements .sqlite (shop 200) doubleFireStatements).store.committed) :=
  have ⟨order, answers, hperm, _, hseq, _⟩ :=
    requests_linearizable .sqlite (shop 200) doubleFireStatements (by decide)
  ⟨order, answers, hperm, hseq⟩

end UsageBilling
