import UsageBilling.Lib.Fair
import UsageBilling.Crash

/-!
# Every request of the deployment comes to an end

The write lock makes requests wait for each other. It never blocks for good: a transaction that
holds it has its next statement, and if its process dies, the lock is free again.

* `StmtTask.step_left`, `StmtTask.step_moves`, `StmtTask.step_writer`: what a statement does to
  the way to the end and to the lock.
* `LockOk`: the holder of the lock is a running request in its transaction.
* `deployment_completes`: if each request keeps getting turns, each is answered or its process has
  died, after a bounded number of rounds.
-/

namespace UsageBilling

open Sys

/-! ## Statements -/

namespace StmtTask

/-- The request is in its transaction, past the first statement. -/
def holds : StmtTask → Bool
  | .charging _ _ tx => tx.holds
  | .crediting _ tx => tx.holds
  | _ => false

/-- The statements that are left without the waiting. -/
def left : StmtTask → Nat
  | .lookup _ => 5
  | .charging _ _ tx => 1 + tx.left
  | .replaying _ _ => 1
  | .crediting _ tx => tx.left
  | .consumed _ _ | .credited _ _ => 0

variable {P : Prisma} {i j : Nat} {t : StmtTask} {w : Wal Store}

theorem left_charged (input : ConsumeInput) (answer : Answer) :
    (charged input answer).left ≤ 1 := by
  cases answer with
  | ok e => exact Nat.zero_le _
  | error err =>
    simp only [charged]
    split
    · exact Nat.le_refl _
    · exact Nat.zero_le _

theorem charged_ne (input : ConsumeInput) (answer : Answer) (product : Product)
    (tx : Tx Nat Error LedgerEntry) : charged input answer ≠ .charging input product tx := by
  cases answer with
  | ok e => simp [charged]
  | error err =>
    simp only [charged]
    split <;> simp

/-- A statement waits and changes nothing, or it brings the request nearer to its end. -/
theorem step_left (P : Prisma) (i : Nat) (t : StmtTask) (w : Wal Store) :
    t.step P i w = (t, w) ∨ (t.step P i w).1.left < t.left := by
  cases t with
  | lookup input =>
    right
    cases hp : w.committed.products.find? input.productId with
    | some product =>
      rw [step_found hp]
      simp [left, Tx.left]
    | none =>
      rw [step_noProduct hp]
      simp [left]
  | charging input product tx =>
    simp only [step]
    rcases tx.step_left i (deduct P input product) (settle P input product) w with
      heq | ⟨tx', w', heq, hlt⟩ | ⟨r, w', heq⟩
    · rw [heq]
      exact .inl rfl
    · rw [heq]
      right
      show 1 + tx'.left < 1 + tx.left
      omega
    · rw [heq]
      have hend := left_charged input r
      have hpos : 0 < tx.left := by cases tx <;> simp [Tx.left]
      right
      show (charged input r).left < 1 + tx.left
      omega
  | replaying input err => exact .inr (by simp [step, left])
  | consumed input answer => exact .inl rfl
  | crediting input tx =>
    simp only [step]
    rcases tx.step_left i (increment P input) (settleCredit P input) w with
      heq | ⟨tx', w', heq, hlt⟩ | ⟨r, w', heq⟩
    · rw [heq]
      exact .inl rfl
    · rw [heq]
      exact .inr hlt
    · rw [heq]
      refine .inr ?_
      cases tx <;> simp [left, Tx.left]
  | credited input answer => exact .inl rfl

/-- With the lock free or its own, an unanswered request does not wait. -/
theorem step_moves (h : t.Ok P w i) (hw : w.writer = none ∨ t.holds = true)
    (hnone : t.answer = none) : t.step P i w ≠ (t, w) := by
  intro heq
  cases t with
  | lookup input =>
    cases hp : w.committed.products.find? input.productId with
    | some product =>
      rw [step_found hp] at heq
      cases congrArg Prod.fst heq
    | none =>
      rw [step_noProduct hp] at heq
      cases congrArg Prod.fst heq
  | charging input product tx =>
    have hne := Tx.step_moves h hw
    simp only [step] at heq
    rcases hst : tx.step i (deduct P input product) (settle P input product) w with ⟨r, w'⟩
    rw [hst] at heq hne
    cases r with
    | inl tx' =>
      obtain ⟨ht, rfl⟩ := Prod.mk.inj heq
      obtain rfl : tx' = tx := by simpa using ht
      exact hne rfl
    | inr r => exact charged_ne input r product tx (congrArg Prod.fst heq)
  | replaying input err => cases congrArg Prod.fst heq
  | crediting input tx =>
    have hne := Tx.step_moves h hw
    simp only [step] at heq
    rcases hst : tx.step i (increment P input) (settleCredit P input) w with ⟨r, w'⟩
    rw [hst] at heq hne
    cases r with
    | inl tx' =>
      obtain ⟨ht, rfl⟩ := Prod.mk.inj heq
      obtain rfl : tx' = tx := by simpa using ht
      exact hne rfl
    | inr r => cases congrArg Prod.fst heq
  | consumed input answer => cases hnone
  | credited input answer => cases hnone

/-- After a statement the lock is as before, with the request in the same place; or the request
holds it; or it is free. -/
theorem step_writer (h : t.Ok P w i) :
    ((t.step P i w).2 = w ∧ ((t.step P i w).1.holds = t.holds ∨ t.holds = false)) ∨
    (∃ s, (t.step P i w).2.writer = some (i, s) ∧ (t.step P i w).1.holds = true) ∨
    (t.step P i w).2.writer = none := by
  cases t with
  | lookup input =>
    left
    cases hp : w.committed.products.find? input.productId with
    | some product =>
      rw [step_found hp]
      exact ⟨rfl, .inl rfl⟩
    | none =>
      rw [step_noProduct hp]
      exact ⟨rfl, .inl rfl⟩
  | charging input product tx =>
    simp only [step]
    rcases Tx.step_writer h with heq | ⟨tx', s, c, heq, hh⟩ | ⟨r, c, heq⟩
    · rw [heq]
      exact .inl ⟨rfl, .inl rfl⟩
    · rw [heq]
      exact .inr (.inl ⟨s, rfl, hh⟩)
    · rw [heq]
      exact .inr (.inr rfl)
  | crediting input tx =>
    simp only [step]
    rcases Tx.step_writer h with heq | ⟨tx', s, c, heq, hh⟩ | ⟨r, c, heq⟩
    · rw [heq]
      exact .inl ⟨rfl, .inl rfl⟩
    · rw [heq]
      exact .inr (.inl ⟨s, rfl, hh⟩)
    · rw [heq]
      exact .inr (.inr rfl)
  | _ => exact .inl ⟨rfl, .inl rfl⟩

end StmtTask

/-! ## Requests of the deployment -/

section Deployment

variable {P : Prisma} {i j : Nat} {t : HttpTask StmtTask} {m : DeploymentTask} {w : Wal Store}

/-- The request is in a transaction, past the first statement. -/
def HttpTask.holds : HttpTask StmtTask → Bool
  | .serving _ t => t.holds
  | _ => false

/-- A bound on the turns that the request needs with the lock free. -/
def HttpTask.left : HttpTask StmtTask → Nat
  | .arrived _ => 6
  | .listing _ _ => 1
  | .serving _ t => t.left
  | .replied _ _ => 0

/-- The turns that a request needs at most, without the waiting; the last one sends the reply. -/
def turnsLeft (m : DeploymentTask) : Nat :=
  match m.fate with
  | .running => 1 + m.task.left
  | _ => 0

theorem turnsLeft_le (m : DeploymentTask) : turnsLeft m ≤ 7 := by
  unfold turnsLeft
  split
  · cases m.task with
    | serving req t => cases t with
      | charging input product tx => cases tx <;> simp [HttpTask.left, StmtTask.left, Tx.left]
      | crediting input tx => cases tx <;> simp [HttpTask.left, StmtTask.left, Tx.left]
      | _ => simp [HttpTask.left, StmtTask.left]
    | _ => simp [HttpTask.left]
  · exact Nat.zero_le _

theorem HttpTask.step_left (P : Prisma) (i : Nat) (t : HttpTask StmtTask) (w : Wal Store) :
    (api P).step i t w = (t, w) ∨ ((api P).step i t w).1.left < t.left := by
  cases t with
  | arrived req =>
    right
    simp only [http]
    cases req.first P w.committed with
    | answer reply => simp [left]
    | list input => simp [left]
    | serve r => cases r <;> simp [left, statements, StmtTask.start, StmtTask.left, Tx.left]
  | listing req input => exact .inr (by simp [http, left])
  | serving req t =>
    rcases t.step_left P i w with heq | hlt
    · left
      simp only [http, statements, heq]
    · exact .inr hlt
  | replied req reply => exact .inl rfl

theorem HttpTask.step_moves (h : t.Ok (statementDecisions P) w i)
    (hw : w.writer = none ∨ t.holds = true) (hnone : (api P).answer t = none) :
    (api P).step i t w ≠ (t, w) := by
  intro heq
  cases t with
  | arrived req =>
    simp only [http] at heq
    cases hf : req.first P w.committed <;> (rw [hf] at heq; cases congrArg Prod.fst heq)
  | listing req input => cases congrArg Prod.fst heq
  | serving req t =>
    have hanswer : t.answer = none := by simpa [http, statements] using hnone
    have htask : HttpTask.serving req (t.step P i w).1 = .serving req t := congrArg Prod.fst heq
    have hstore : (t.step P i w).2 = w := congrArg Prod.snd heq
    exact StmtTask.step_moves h.1.1 hw hanswer (Prod.ext (HttpTask.serving.inj htask).2 hstore)
  | replied req reply => cases hnone

/-- After a step of a request the lock is as before, or it is the request's, or it is free. -/
theorem HttpTask.step_writer (h : t.Ok (statementDecisions P) w i) :
    (((api P).step i t w).2 = w ∧ (((api P).step i t w).1.holds = t.holds ∨ t.holds = false)) ∨
    (∃ s, ((api P).step i t w).2.writer = some (i, s) ∧
      ((api P).step i t w).1.holds = true) ∨
    ((api P).step i t w).2.writer = none := by
  cases t with
  | arrived req => exact .inl ⟨HttpTask.step_arrived req i w, .inr rfl⟩
  | serving req t => exact StmtTask.step_writer h.1.1
  | _ => exact .inl ⟨rfl, .inl rfl⟩

/-- In its transaction a request has no answer yet. -/
theorem HttpTask.answer_of_holds (h : t.holds = true) : (api P).answer t = none := by
  cases t with
  | serving req t => cases t <;> first | rfl | cases h
  | _ => cases h

/-- A turn leaves a turn less, or the request waits. -/
theorem turnsLeft_step (P : Prisma) (i : Nat) (m : DeploymentTask) (w : Wal Store) :
    turnsLeft ((deployment P).step i m w).1 < turnsLeft m ∨
    ((deployment P).step i m w).2 = w ∧
      turnsLeft ((deployment P).step i m w).1 = turnsLeft m := by
  have hst := deployment_step_spec P i m w
  generalize (deployment P).step i m w = r at hst ⊢
  cases hst with
  | finished => exact .inr ⟨rfl, rfl⟩
  | died hf => exact .inl (by simp [turnsLeft, hf])
  | failed hf => exact .inl (by simp [turnsLeft, hf])
  | answered hf => exact .inl (by simp [turnsLeft, hf])
  | step hf ha =>
    simp only [turnsLeft, hf]
    rcases m.task.step_left P i w with heq | hlt
    · rw [heq]
      exact .inr ⟨rfl, rfl⟩
    · exact .inl (by omega)

/-- With the lock free or its own, a running request does not wait. -/
theorem turnsLeft_moves (h : (httpDeath (statementDeath P)).Ok w i m) (hf : m.fate = .running)
    (hw : w.writer = none ∨ m.task.holds = true) :
    turnsLeft ((deployment P).step i m w).1 < turnsLeft m := by
  have hst := deployment_step_spec P i m w
  generalize (deployment P).step i m w = r at hst ⊢
  cases hst with
  | finished hne => exact absurd hf hne
  | died => simp [turnsLeft, hf]
  | failed => simp [turnsLeft, hf]
  | answered => simp [turnsLeft, hf]
  | step _ ha =>
    have hok := (Death.ok_alive (.inl hf)).mp h
    rcases m.task.step_left P i w with heq | hlt
    · exact absurd heq (HttpTask.step_moves hok hw ha)
    · simp only [turnsLeft, hf]
      omega

/-- The invariant of the lock: who holds it is a running request in its transaction. -/
structure LockOk (P : Prisma) (p : Pool (Wal Store) DeploymentTask) : Prop where
  ok : ∀ i m, p.tasks[i]? = some m → (httpDeath (statementDeath P)).Ok p.store i m
  held : ∀ i s, p.store.writer = some (i, s) →
    ∃ m, p.tasks[i]? = some m ∧ m.fate = .running ∧ m.task.holds = true
  sent : ∀ m ∈ p.tasks, m.fate = .answered → ((api P).answer m.task).isSome
  died : ∀ m ∈ p.tasks, m.fate = .dead → m.fault = some (.death m.age)
  /-- A timeout strikes where the request accesses the database. -/
  failed : ∀ m ∈ p.tasks, ∀ message, m.fate = .failed message →
    m.fault = some (.timeout m.age message) ∧ m.task.busy StmtTask.busy = true

namespace LockOk

variable {p : Pool (Wal Store) DeploymentTask}

theorem init (s : Store) : LockOk P (Sys.init ⟨s, none⟩) where
  ok _ _ h := by cases h
  held _ _ h := by cases h
  sent _ h := by cases h
  died _ h := by cases h
  failed _ h := by cases h

theorem submit (h : LockOk P p) (r : Arrival) :
    LockOk P { p with tasks := p.tasks ++ [(deployment P).start r] } where
  ok i m hm := by
    rcases getElem?_concat hm with hm | ⟨-, rfl⟩
    · exact h.ok i m hm
    · exact trivial
  held i s hs := by
    obtain ⟨m, hm, hrest⟩ := h.held i s hs
    exact ⟨m, (List.getElem?_append_left (List.getElem?_eq_some_iff.mp hm).1).trans hm, hrest⟩
  sent m hm hf := by
    rcases List.mem_append.mp hm with hm | hm
    · exact h.sent m hm hf
    · obtain rfl := List.mem_singleton.mp hm
      cases hf
  died m hm hf := by
    rcases List.mem_append.mp hm with hm | hm
    · exact h.died m hm hf
    · obtain rfl := List.mem_singleton.mp hm
      cases hf
  failed m hm message hf := by
    rcases List.mem_append.mp hm with hm | hm
    · exact h.failed m hm message hf
    · obtain rfl := List.mem_singleton.mp hm
      cases hf

/-- Who holds the lock after a step of the request with the index `i`. -/
theorem held_step (h : LockOk P p) (hm : p.tasks[i]? = some m) {s : Store}
    (hs : ((deployment P).step i m p.store).2.writer = some (j, s)) :
    (j = i ∧ ((deployment P).step i m p.store).1.fate = .running ∧
      ((deployment P).step i m p.store).1.task.holds = true) ∨
    j ≠ i ∧ ∃ s', p.store.writer = some (j, s') := by
  have hself : ∀ s', p.store.writer = some (i, s') → m.fate = .running ∧ m.task.holds = true :=
    fun s' hs' => by
      obtain ⟨m', hm', hrest⟩ := h.held i s' hs'
      rwa [Option.mem_unique hm hm']
  have hst := deployment_step_spec P i m p.store
  generalize (deployment P).step i m p.store = r at hst hs ⊢
  by_cases hj : j = i
  · subst hj
    refine .inl ⟨rfl, ?_⟩
    cases hst with
    | finished hne => exact absurd (hself s hs).1 hne
    | answered hf ha =>
      rw [HttpTask.answer_of_holds (hself s hs).2] at ha
      cases ha
    -- the lock of a request that ended early is free
    | died => exact absurd rfl (Wal.writer_of_rollback hs).1
    | failed => exact absurd rfl (Wal.writer_of_rollback hs).1
    | step hf ha =>
      refine ⟨hf, ?_⟩
      have hok := (Death.ok_alive (.inl hf)).mp (h.ok j m hm)
      rcases HttpTask.step_writer hok with ⟨heq, hh⟩ | ⟨_, -, hh⟩ | hnone
      · have hs : ((api P).step j m.task p.store).2.writer = some (j, s) := hs
        rw [heq] at hs
        have hholds := (hself s hs).2
        rcases hh with hh | hh
        · exact hh.trans hholds
        · rw [hholds] at hh
          cases hh
      · exact hh
      · exact absurd (hnone.symm.trans hs) (by simp)
  · refine .inr ⟨hj, ?_⟩
    cases hst with
    | finished => exact ⟨s, hs⟩
    | answered => exact ⟨s, hs⟩
    | died => exact ⟨s, (Wal.writer_of_rollback hs).2⟩
    | failed => exact ⟨s, (Wal.writer_of_rollback hs).2⟩
    | step hf ha =>
      have hok := (Death.ok_alive (.inl hf)).mp (h.ok i m hm)
      have hs : ((api P).step i m.task p.store).2.writer = some (j, s) := hs
      rcases HttpTask.step_writer hok with ⟨heq, -⟩ | ⟨_, hw, -⟩ | hnone
      · exact ⟨s, by rw [← heq]; exact hs⟩
      · rw [hw] at hs
        cases hs
        exact absurd rfl hj
      · rw [hnone] at hs
        cases hs

theorem advance (h : LockOk P p) (i : Nat) : LockOk P ((deployment P).act p (.advance i)) := by
  cases hm : p.tasks[i]? with
  | none => rwa [act_advance_none hm]
  | some m =>
    rw [act_advance hm]
    have hget := getElem?_set_of_some hm ((deployment P).step i m p.store).1
    have hmem := List.mem_of_getElem? hm
    have hst := deployment_step_spec P i m p.store
    refine ⟨fun j u hu => ?_, fun j s hs => ?_, fun u hu hf => ?_, fun u hu hf => ?_,
      fun u hu message hf => ?_⟩
    · rw [hget] at hu
      by_cases hj : j = i
      · subst hj
        rw [if_pos rfl] at hu
        cases hu
        exact (h.ok j m hm).step
      · rw [if_neg hj] at hu
        exact ((h.ok i m hm).stable (Ne.symm hj) (h.ok j u hu)).1
    · rw [hget]
      rcases h.held_step hm hs with ⟨rfl, hf, hh⟩ | ⟨hj, s', hs'⟩
      · exact ⟨_, if_pos rfl, hf, hh⟩
      · rw [if_neg hj]
        exact h.held j s' hs'
    · rcases mem_set hu with rfl | hu
      · generalize (deployment P).step i m p.store = r at hst hf ⊢
        cases hst with
        | finished => exact h.sent m hmem hf
        | answered _ ha => exact ha
        | died => cases hf
        | failed => cases hf
        | step hrun => exact absurd (hrun.symm.trans hf) (by decide)
      · exact h.sent u hu hf
    · rcases mem_set hu with rfl | hu
      · generalize (deployment P).step i m p.store = r at hst hf ⊢
        cases hst with
        | finished => exact h.died m hmem hf
        | answered => cases hf
        | died _ hl => exact hl
        | failed => cases hf
        | step hrun => exact absurd (hrun.symm.trans hf) (by decide)
      · exact h.died u hu hf
    · rcases mem_set hu with rfl | hu
      · generalize (deployment P).step i m p.store = r at hst hf ⊢
        cases hst with
        | finished => exact h.failed m hmem message hf
        | answered => cases hf
        | died => cases hf
        | failed _ error hfault hbusy =>
          obtain rfl := Fate.failed.inj hf
          exact ⟨hfault, hbusy⟩
        | step hrun => exact absurd (hrun.symm.trans hf) (by simp)
      · exact h.failed u hu message hf

end LockOk

theorem deployed_lockOk (P : Prisma) (s : Store) (sched : List (Act Arrival)) :
    LockOk P (deployed P s sched) := by
  refine run_induction (S := deployment P) (Q := fun _ => True) (.init s) (fun _ _ => trivial)
    (fun p r _ h => h.submit r) fun p i t ht h => ?_
  rw [← act_advance ht]
  exact h.advance i

/-- No deadlock: the holder of the lock need not wait, and nobody need if it is free. -/
def deploymentProgress (P : Prisma) : Progress (deployment P) (LockOk P) where
  left := turnsLeft
  step := turnsLeft_step P
  keep _ i h := h.advance i
  live p m h hm hleft := by
    cases hw : p.store.writer with
    | none =>
      obtain ⟨i, hi⟩ := List.mem_iff_getElem?.mp hm
      have hf : m.fate = .running := by
        unfold turnsLeft at hleft
        split at hleft
        · assumption
        · cases hleft
      exact ⟨i, m, hi, turnsLeft_moves (h.ok i m hi) hf (.inl hw)⟩
    | some holder =>
      obtain ⟨i, s⟩ := holder
      obtain ⟨u, hu, hf, hh⟩ := h.held i s hw
      exact ⟨i, u, hu, turnsLeft_moves (h.ok i u hu) hf (.inr hh)⟩

/-- Rounds in which each request has at least one turn: after seven for each request, every request
has its reply, or its process has died as its fault says. -/
theorem LockOk.completes {p : Pool (Wal Store) DeploymentTask} (h : LockOk P p)
    {rounds : List (List (Act Arrival))}
    (hfair : ∀ round ∈ rounds, Fair p.tasks.length round)
    (hrounds : 7 * p.tasks.length ≤ rounds.length) :
    LockOk P ((deployment P).run p rounds.flatten) ∧
      ∀ m ∈ ((deployment P).run p rounds.flatten).tasks,
        ((deployment P).answer m).isSome ∨ m.fate = .dead ∧ m.fault = some (.death m.age) := by
  have htotal : (deploymentProgress P).total p ≤ rounds.length :=
    Nat.le_trans ((deploymentProgress P).total_le turnsLeft_le p) hrounds
  have hdone := (deploymentProgress P).fair_completion h hfair htotal
  have hsub := Progress.submitted_flatten fun round hround => (hfair round hround).1
  have hlast : LockOk P ((deployment P).run p rounds.flatten) :=
    ((deploymentProgress P).run_cases hsub h).1
  refine ⟨hlast, fun m hm => ?_⟩
  have hzero : turnsLeft m = 0 := hdone m hm
  cases hf : m.fate with
  | running => simp [turnsLeft, hf] at hzero
  | answered =>
    left
    have := hlast.sent m hm hf
    simpa [deployment, faulty, hf] using this
  | dead => exact .inr ⟨rfl, hlast.died m hm hf⟩
  | failed message => exact .inl (by simp [deployment, faulty, hf])

/-- After any run, let no new request arrive, and let the requests take turns, in rounds in which
each has at least one turn, in any order. After seven rounds for each request, every request has
its reply, or its process has died as its fault says. -/
theorem deployment_completes (P : Prisma) (s : Store)
    (sched : List (Act Arrival))
    (rounds : List (List (Act Arrival)))
    (hfair : ∀ round ∈ rounds, Fair (submitted sched).length round)
    (hrounds : 7 * (submitted sched).length ≤ rounds.length) :
    ∀ m ∈ (deployed P s (sched ++ rounds.flatten)).tasks,
      ((deployment P).answer m).isSome ∨ m.fate = .dead ∧ m.fault = some (.death m.age) := by
  have hlen : (deployed P s sched).tasks.length = (submitted sched).length :=
    length_run (S := deployment P) ⟨s, none⟩ sched
  rw [← hlen] at hfair hrounds
  rw [deployed, run_append]
  exact ((deployed_lockOk P s sched).completes hfair hrounds).2

/-- A purchase, and a top-up whose process dies with the lock in its hand. -/
def contended : List (Act Arrival) :=
  [.submit (⟨.credits "c1", .ok (.object [("amount", .number (.finite 50))])⟩, some (.death 2)),
    .advance 0, .advance 0,
    .submit (⟨.consumptionEvents (.single "k"), .ok (.object [("customerId", .string "c1"),
      ("productId", .string "p1"), ("quantity", .number (.finite 1))])⟩, none)]

theorem deployment_completes_contended :
    (deployed .sqlite (shop 200)
      (contended ++ (List.replicate 14 [.advance 1, .advance 0]).flatten)).tasks.Forall fun m =>
      ((deployment .sqlite).answer m).isSome ∨ m.fate = .dead ∧ m.fault = some (.death m.age) := by
  refine List.forall_iff_forall_mem.mpr (deployment_completes .sqlite (shop 200) contended
    (List.replicate 14 [.advance 1, .advance 0]) (fun round hround => ?_) (by decide))
  rw [List.eq_of_mem_replicate hround]
  refine ⟨rfl, fun i hi => ?_⟩
  have hlt : i < 2 := hi
  match i, hlt with
  | 0, _ => simp
  | 1, _ => simp

end Deployment

end UsageBilling
