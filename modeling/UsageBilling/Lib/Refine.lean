import UsageBilling.Lib.Linear

/-!
# Refinement between systems of tasks

A concrete system with finer steps refines an abstract one with the same requests and answers: seen
through the mappings of the store and of the tasks, each concrete step is the abstract step of that
task, or nothing.

* `Sys.Refinement`: the proof obligations for each step.
* `Refinement.run`: every concrete run is an abstract run with the same requests.
* `Refinement.decisions`: the steps at which the abstract requests take effect decide the concrete
  ones too.
-/

namespace Sys

variable {σ σ' ρ τ τ' α β : Type}

/-- The system `S` refines `S'`. `Ok` is an invariant of each task of `S`. -/
structure Refinement (S : Sys σ ρ τ α) (S' : Sys σ' ρ τ' α) where
  store : σ → σ'
  task : τ → τ'
  Ok : σ → Nat → τ → Prop
  ok_start : ∀ s i r, Ok s i (S.start r)
  ok_step : ∀ s i t, Ok s i t → Ok (S.step i t s).2 i (S.step i t s).1
  ok_stable : ∀ s i t j u, i ≠ j → Ok s i t → Ok s j u → Ok (S.step i t s).2 j u
  start : ∀ r, task (S.start r) = S'.start r
  request : ∀ t, S'.request (task t) = S.request t
  answer : ∀ t, S'.answer (task t) = S.answer t
  step : ∀ s i t, Ok s i t →
    (task (S.step i t s).1, store (S.step i t s).2) = (task t, store s) ∨
    (task (S.step i t s).1, store (S.step i t s).2) = S'.step i (task t) (store s)

namespace Refinement

variable {S : Sys σ ρ τ α} {S' : Sys σ' ρ τ' α} (R : Refinement S S')

/-- The abstract pool. -/
def pool (p : Pool σ τ) : Pool σ' τ' := ⟨R.store p.store, p.tasks.map R.task⟩

variable {R} {s : σ} {i j : Nat} {t u : τ}

theorem ok_run (R : Refinement S S') {sched : List (Act ρ)}
    (h : (S.run (init s) sched).tasks[i]? = some t) : R.Ok (S.run (init s) sched).store i t :=
  indexed_induction R.ok_start R.ok_step R.ok_stable i t h

/-- One step of a run is a step of the abstract system or none. -/
theorem pool_advance {sched : List (Act ρ)} (h : (S.run (init s) sched).tasks[i]? = some t) :
    R.pool (S.act (S.run (init s) sched) (.advance i)) = R.pool (S.run (init s) sched) ∨
    R.pool (S.act (S.run (init s) sched) (.advance i)) =
      S'.act (R.pool (S.run (init s) sched)) (.advance i) := by
  have htask : (R.pool (S.run (init s) sched)).tasks[i]? = some (R.task t) := by
    rw [pool, List.getElem?_map, h]
    rfl
  rw [act_advance h, act_advance htask]
  rcases R.step _ i t (R.ok_run h) with heq | heq
  · obtain ⟨ht, hs⟩ := Prod.mk.inj heq
    obtain ⟨hlt, hget⟩ := List.getElem?_eq_some_iff.mp htask
    left
    rw [pool, List.map_set, ht, hs, ← hget]
    exact congrArg (Pool.mk _) (List.set_getElem_self hlt)
  · right
    simp only [pool, List.map_set, ← heq]

/-- Every concrete run is an abstract run with the same requests. -/
theorem run (R : Refinement S S') (s : σ) (sched : List (Act ρ)) :
    ∃ sched', submitted sched' = submitted sched ∧
      S'.run (init (R.store s)) sched' = R.pool (S.run (init s) sched) := by
  induction sched using List.reverseRecOn with
  | nil => exact ⟨[], rfl, rfl⟩
  | append_singleton sched act ih =>
    obtain ⟨sched', hsub, hrun⟩ := ih
    rw [run_concat, submitted_append]
    cases act with
    | submit r =>
      refine ⟨sched' ++ [.submit r], by rw [submitted_append, hsub], ?_⟩
      rw [run_concat, hrun]
      simp only [act, pool, List.map_append, List.map_singleton, R.start]
    | advance i =>
      have hnone : submitted [Act.advance (ρ := ρ) i] = [] := rfl
      rw [hnone, List.append_nil]
      cases hi : (S.run (init s) sched).tasks[i]? with
      | none => exact ⟨sched', hsub, by rw [act_advance_none hi, hrun]⟩
      | some t =>
        rcases R.pool_advance hi with heq | heq
        · exact ⟨sched', hsub, by rw [heq, hrun]⟩
        · refine ⟨sched' ++ [.advance i], ?_, by rw [run_concat, hrun, heq]⟩
          rw [submitted_append, hsub, hnone, List.append_nil]

/-- A step of a task decides for the abstract tasks what the abstract step decides, or nothing. -/
def decisions (R : Refinement S S') {apply : ρ → β → α × β} (D : S'.Decisions apply) :
    S.Decisions apply where
  abs s := D.abs (R.store s)
  decided s t := D.decided (R.store s) (R.task t)
  Ok s i t := R.Ok s i t ∧ D.Ok (R.store s) i (R.task t)
  ok_start s i r := ⟨R.ok_start s i r, by rw [R.start]; exact D.ok_start _ i r⟩
  ok_step s i t h := by
    refine ⟨R.ok_step s i t h.1, ?_⟩
    rcases R.step s i t h.1 with heq | heq
    · obtain ⟨ht, hs⟩ := Prod.mk.inj heq
      rw [ht, hs]
      exact h.2
    · obtain ⟨ht, hs⟩ := Prod.mk.inj heq
      rw [ht, hs]
      exact D.ok_step _ i _ h.2
  ok_stable s i t j u hne h hu := by
    refine ⟨R.ok_stable s i t j u hne h.1 hu.1, ?_⟩
    rcases R.step s i t h.1 with heq | heq
    · rw [(Prod.mk.inj heq).2]
      exact hu.2
    · rw [(Prod.mk.inj heq).2]
      exact D.ok_stable _ i _ j _ hne h.2 hu.2
  decided_start s r := by rw [R.start]; exact D.decided_start _ r
  decided_answer s t a h := D.decided_answer _ _ a (by rw [R.answer]; exact h)
  decided_stable s i t j u hne h hu := by
    rcases R.step s i t h.1 with heq | heq
    · rw [(Prod.mk.inj heq).2]
    · rw [(Prod.mk.inj heq).2]
      exact D.decided_stable _ i _ j _ hne h.2 hu.2
  point s i t h := by
    rcases R.step s i t h.1 with heq | heq
    · obtain ⟨ht, hs⟩ := Prod.mk.inj heq
      rw [ht, hs]
      exact .inl ⟨rfl, rfl⟩
    · obtain ⟨ht, hs⟩ := Prod.mk.inj heq
      rw [ht, hs, ← R.request]
      exact D.point _ i _ h.2

end Refinement

end Sys
