import UsageBilling.Lib.Pool

/-!
# Two systems on one store

* `Sys.atomic`: a system whose tasks are one atomic step each.
* `Sys.sum`: the tasks of two systems, interleaved on one store. `run_inl`: if no request is for the
  second system, this is the first one.
* `reach_tasks_induction`: the invariant rule for an invariant of each task, if the steps of the
  other tasks keep it under an assumption on the run.
-/

namespace Sys

variable {σ ρ ρ' τ τ' α α' : Type}

/-- A request is one atomic step. -/
def atomic (run : ρ → σ → α × σ) : Sys σ ρ (ρ × Option α) α where
  start r := (r, none)
  request t := t.1
  answer t := t.2
  step
    | _, (r, none), s => ((r, some (run r s).1), (run r s).2)
    | _, (r, some a), s => ((r, some a), s)
  request_start _ := rfl
  request_step
    | _, (_, none), _ => rfl
    | _, (_, some _), _ => rfl
  step_answered
    | _, (_, some _), _, _ => rfl

/-- The tasks of both systems share the store. -/
def sum (S : Sys σ ρ τ α) (S' : Sys σ ρ' τ' α') : Sys σ (ρ ⊕ ρ') (τ ⊕ τ') (α ⊕ α') where
  start := Sum.map S.start S'.start
  request := Sum.map S.request S'.request
  answer := Sum.elim (fun t => (S.answer t).map .inl) fun t => (S'.answer t).map .inr
  step
    | i, .inl t, s => ((.inl (S.step i t s).1), (S.step i t s).2)
    | i, .inr t, s => ((.inr (S'.step i t s).1), (S'.step i t s).2)
  request_start
    | .inl r => congrArg Sum.inl (S.request_start r)
    | .inr r => congrArg Sum.inr (S'.request_start r)
  request_step
    | i, .inl t, s => congrArg Sum.inl (S.request_step i t s)
    | i, .inr t, s => congrArg Sum.inr (S'.request_step i t s)
  step_answered
    | i, .inl t, s, h => by
      have ha : (S.answer t).isSome := by simpa using h
      simp only [S.step_answered i t s ha]
    | i, .inr t, s, h => by
      have ha : (S'.answer t).isSome := by simpa using h
      simp only [S'.step_answered i t s ha]

end Sys

/-- The same act, with the request translated. -/
def Act.map (f : ρ → ρ') : Act ρ → Act ρ'
  | .submit r => .submit (f r)
  | .advance i => .advance i

namespace Sys

variable {σ ρ ρ' τ τ' α α' : Type} {S : Sys σ ρ τ α} {S' : Sys σ ρ' τ' α'}

/-- Without requests for the second system, the sum is the first system. -/
theorem run_inl (p : Pool σ τ) (sched : List (Act ρ)) :
    (S.sum S').run ⟨p.store, p.tasks.map .inl⟩ (sched.map (Act.map .inl)) =
      ⟨(S.run p sched).store, (S.run p sched).tasks.map .inl⟩ := by
  induction sched generalizing p with
  | nil => rfl
  | cons a sched ih =>
    have hact : (S.sum S').act ⟨p.store, p.tasks.map .inl⟩ (Act.map .inl a) =
        ⟨(S.act p a).store, (S.act p a).tasks.map .inl⟩ := by
      cases a with
      | submit r => simp [act, Act.map, sum]
      | advance i =>
        cases h : p.tasks[i]? with
        | none =>
          rw [act_advance_none h]
          exact act_advance_none (by simp [h])
        | some t =>
          rw [act_advance h]
          exact (act_advance (t := .inl t) (by simp [h])).trans (by simp [sum, List.map_set])
    show (S.sum S').run ((S.sum S').act _ _) _ = _
    rw [hact, ih]
    rfl

/-- The invariant rule for an invariant `J` of each task, with the reached states at hand: a task's
step establishes its own `J` and keeps those of the others. -/
theorem reach_tasks_induction {J : σ → τ → Prop} {s : σ} {sched : List (Act ρ)}
    (start : ∀ s r, J s (S.start r))
    (step : ∀ pre i t, pre ++ [.advance i] <+: sched →
      (S.run (init s) pre).tasks[i]? = some t → J (S.run (init s) pre).store t →
      J (S.step i t (S.run (init s) pre).store).2 (S.step i t (S.run (init s) pre).store).1)
    (stable : ∀ pre i t u, pre ++ [.advance i] <+: sched →
      (S.run (init s) pre).tasks[i]? = some t → u ∈ (S.run (init s) pre).tasks →
      J (S.run (init s) pre).store u → J (S.step i t (S.run (init s) pre).store).2 u) :
    ∀ t ∈ (S.run (init s) sched).tasks, J (S.run (init s) sched).store t := by
  refine reach_induction (I := fun p => ∀ t ∈ p.tasks, J p.store t) (by simp [init]) ?_ ?_
  · intro pre r _ hj t ht
    rcases List.mem_append.mp ht with ht | ht
    · exact hj t ht
    · obtain rfl := List.mem_singleton.mp ht
      exact start _ r
  · intro pre i t hpre hi hj u hu
    rcases mem_set hu with rfl | hu
    · exact step pre i t hpre hi (hj t (List.mem_of_getElem? hi))
    · exact stable pre i t u hpre hi hu (hj u hu)

end Sys
