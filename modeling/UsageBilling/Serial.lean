import UsageBilling.Lib.Linear
import UsageBilling.Server

/-!
# The requests one after the other

Every run of the server in which all requests are answered has the answers and the store of the
services run one after the other in some order (`serve_serial`), and every run can be continued to
such a run (`serve_completes`). A request takes effect at its
`$transaction`; a consume of an unknown product at its product lookup; a replay at the transaction
that collided, since its row stays.
-/

namespace UsageBilling

namespace Task

/-- The answer that is fixed in the store `s`. -/
def decided (t : Task) (s : Store) : Option Answer :=
  match t with
  | .consume input (.replay _) => (input.idempotencyKey.bind s.findKey).map .ok
  | t => t.answer

/-- The row that the task is answered with. -/
def row (t : Task) : Option LedgerEntry :=
  match t.answer with
  | some (.ok e) => some e
  | _ => none

theorem row_of_ok {t : Task} {e : LedgerEntry} (h : t.answer = some (.ok e)) : t.row = some e := by
  rw [row, h]

theorem row_of_error {t : Task} {err : Error} (h : t.answer = some (.error err)) :
    t.row = none := by
  rw [row, h]

end Task

section Serial

variable {P : Prisma} {s s' : Store} {t u : Task}

/-- A charge decides the answer of the consume, or nothing happens yet. -/
theorem decided_charge {input : ConsumeInput} {product : Product}
    (hp : s.products.find? input.productId = some product) :
    ∃ a, ((Task.consume input (.charge product)).step P s).1.decided
        ((Task.consume input (.charge product)).step P s).2 = some a ∧
      (consume P input).run s = (a, ((Task.consume input (.charge product)).step P s).2) := by
  cases htx : (Txn.transaction (chargeTx P input product)).run s with
  | mk r s₁ =>
  cases r with
  | ok e =>
    rw [step_charge_ok htx, run_consume hp]
    exact ⟨.ok e, rfl, Txn.run_tryCatch_ok htx⟩
  | error err =>
    rw [step_charge_error htx]
    by_cases hr : isReplay input err = true
    · obtain ⟨rfl, key, o, hkey, ho, hcons⟩ := run_consume_replay hp htx hr
      rw [if_pos hr, hcons]
      refine ⟨.ok o, ?_, rfl⟩
      simp [Task.decided, hkey, ho]
    · rw [if_neg hr, run_consume hp, Txn.run_tryCatch_error htx, recover, if_neg hr]
      exact ⟨.error err, rfl, rfl⟩

/-- A step of a reachable task changes nothing, or it decides the answer of the task: that of the
service on the store. -/
theorem Task.Ok.point (h : t.Ok P s) :
    ((t.step P s).1.decided (t.step P s).2 = t.decided s ∧ (t.step P s).2 = s) ∨
    t.decided s = none ∧ ∃ a, (t.step P s).1.decided (t.step P s).2 = some a ∧
      service P t.request s = (a, (t.step P s).2) := by
  cases t with
  | consume input phase =>
    cases phase with
    | lookup =>
      cases hp : s.products.find? input.productId with
      | some product =>
        rw [step_found hp]
        exact .inl ⟨rfl, rfl⟩
      | none =>
        rw [step_noProduct hp]
        exact .inr ⟨rfl, _, rfl, run_consume_none hp⟩
    | charge product => exact .inr ⟨rfl, decided_charge h⟩
    | replay err =>
      obtain ⟨-, -, key, o, hkey, ho⟩ := h
      have hrun : (Task.consume input (.replay err)).step P s =
          (.consume input (.done (.ok o)), s) := by
        simp only [Task.step, run_replay hkey, ho]
      rw [hrun]
      refine .inl ⟨?_, rfl⟩
      simp [Task.decided, Task.answer, hkey, ho]
    | done answer => exact .inl ⟨rfl, rfl⟩
  | credit input answer =>
    cases answer with
    | none => exact .inr ⟨rfl, _, rfl, rfl⟩
    | some answer => exact .inl ⟨rfl, rfl⟩

/-- A posting decides nothing for the other tasks. -/
theorem Task.Ok.decided_posted {e : LedgerEntry} (h : t.Ok P s) (hp : Posted P s e s') :
    t.decided s' = t.decided s := by
  cases t with
  | credit input answer => rfl
  | consume input phase =>
    cases phase with
    | replay err =>
      obtain ⟨-, -, key, o, hkey, ho⟩ := h
      simp only [Task.decided, hkey, Option.bind_some, ho, hp.findKey_of_some ho]
    | _ => rfl

/-- A step of a task keeps what holds of the other tasks. -/
theorem Task.Ok.stable (hu : u.Ok P s) :
    u.Ok P (t.step P s).2 ∧ u.decided (t.step P s).2 = u.decided s := by
  rcases (step_spec P t s).store with heq | ⟨e, hp, -⟩
  · rw [heq]
    exact ⟨hu, rfl⟩
  · exact ⟨hu.posted hp, hu.decided_posted hp⟩

/-- The step at which each request takes effect. -/
def serverDecisions (P : Prisma) : (server P).Decisions (service P) where
  abs := id
  decided s t := t.decided s
  Ok s _ t := t.Ok P s
  ok_start _ _ r := by cases r <;> trivial
  ok_step s _ t h := h.step (step_spec P t s)
  ok_stable _ _ _ _ _ _ _ hu := hu.stable.1
  decided_start _ r := by cases r <;> rfl
  decided_answer s t a h := by
    cases t with
    | credit input answer => exact h
    | consume input phase => cases phase <;> first | exact h | cases h
  decided_stable _ _ _ _ _ _ _ hu := hu.stable.2
  point _ _ _ h := h.point

/-- The services ran one after the other for the tasks, from `s` to `s'`. -/
abbrev Served (P : Prisma) : Store → List Task → Store → Prop := (server P).Serial (service P)

/-- If all requests of a schedule are answered, the tasks in some order ran one after the other. -/
theorem serve_serial (P : Prisma) (s : Store) (sched : List (Act Request))
    (hall : ∀ t ∈ (serve P s sched).tasks, t.answer.isSome) :
    ∃ tasks : List Task, tasks.Perm (serve P s sched).tasks ∧
      Served P s tasks (serve P s sched).store :=
  (serverDecisions P).serializable s sched hall

/-- The steps that a task takes at most until it is answered. -/
def Task.left : Task → Nat
  | .consume _ .lookup => 3
  | .consume _ (.charge _) => 2
  | .consume _ (.replay _) | .credit _ none => 1
  | .consume _ (.done _) | .credit _ (some _) => 0

theorem left_step (P : Prisma) (t : Task) (s : Store) (h : t.answer = none) :
    (t.step P s).1.left < t.left := by
  have hst := step_spec P t s
  generalize (t.step P s).1 = t', (t.step P s).2 = s' at hst ⊢
  cases hst with
  | answered _ _ ha =>
    rw [h] at ha
    cases ha
  | _ => simp only [Task.left, Nat.lt_succ_self, Nat.zero_lt_succ]

/-- Every run can be continued to one in which all requests are answered. -/
theorem serve_completes (P : Prisma) (s : Store) (sched : List (Act Request)) :
    ∃ post, submitted (sched ++ post) = submitted sched ∧
      ∀ t ∈ (serve P s (sched ++ post)).tasks, t.answer.isSome := by
  obtain ⟨post, hsub, hall⟩ := Sys.exists_completion (S := server P)
    (fun _ t s h => left_step P t s h) (serve P s sched)
  refine ⟨post, by rw [Sys.submitted_append, hsub, List.append_nil], ?_⟩
  rw [serve, Sys.run_append]
  exact hall

/-- The requests of the tasks are those of the schedule, in another order. -/
theorem requests_perm {tasks : List Task} {sched : List (Act Request)}
    (h : tasks.Perm (serve P s sched).tasks) :
    (tasks.map Task.request).Perm (submitted sched) := by
  have := h.map Task.request
  rwa [show (serve P s sched).tasks.map Task.request = submitted sched from
    Sys.requests_init (S := server P) s sched] at this

end Serial

end UsageBilling
