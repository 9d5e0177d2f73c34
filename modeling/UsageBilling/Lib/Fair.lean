import UsageBilling.Lib.Pool

/-!
# Completion under fair schedules

* `Sys.Progress`: each step of a task brings the task nearer to its end, or it waits and leaves the
  store as it is; and while a task is not at its end, some task has a step that does not wait:
  there is no deadlock.
* `Fair n part`: a part of a schedule in which no request arrives and each of `n` tasks gets a
  turn, in any order.
* `Progress.fair_completion`: after as many fair parts as there are steps left, all tasks are at
  their end. No task starves.
* `answered_of_turns`: where no step waits, a task has its answer after as many turns of its own as
  it has steps left, whatever the others do.
-/

namespace Sys

variable {σ ρ τ α : Type}

/-- How the tasks of `S` come to their end, from the states with the invariant `I`. -/
structure Progress (S : Sys σ ρ τ α) (I : Pool σ τ → Prop) where
  /-- The steps that a task takes at most, without the waiting. -/
  left : τ → Nat
  step : ∀ i t s, left (S.step i t s).1 < left t ∨
    (S.step i t s).2 = s ∧ left (S.step i t s).1 = left t
  keep : ∀ p i, I p → I (S.act p (.advance i))
  /-- If a task is not at its end, some task (it or another one) does not wait. -/
  live : ∀ p t, I p → t ∈ p.tasks → 0 < left t →
    ∃ i u, p.tasks[i]? = some u ∧ left (S.step i u p.store).1 < left u

/-- No request arrives, and each of the first `n` tasks gets a turn. -/
def Fair (n : Nat) (part : List (Act ρ)) : Prop :=
  submitted part = [] ∧ ∀ i < n, .advance i ∈ part

theorem Fair.mono {n m : Nat} {part : List (Act ρ)} (h : Fair n part) (hle : m ≤ n) :
    Fair m part := ⟨h.1, fun i hi => h.2 i (Nat.lt_of_lt_of_le hi hle)⟩

namespace Progress

variable {S : Sys σ ρ τ α} {I : Pool σ τ → Prop} (R : Progress S I) {p : Pool σ τ} {i j : Nat}
  {part : List (Act ρ)}

/-- The steps that all tasks together take at most. -/
def total (p : Pool σ τ) : Nat := (p.tasks.map R.left).sum

theorem total_eq_zero : R.total p = 0 ↔ ∀ t ∈ p.tasks, R.left t = 0 := by
  rw [total, List.sum_eq_zero_iff_forall_eq_nat, List.forall_mem_map]

theorem total_le {n : Nat} (h : ∀ t, R.left t ≤ n) (p : Pool σ τ) :
    R.total p ≤ n * p.tasks.length := by
  rw [total]
  induction p.tasks with
  | nil => exact Nat.zero_le _
  | cons t ts ih =>
    have ht := h t
    rw [List.map_cons, List.sum_cons, List.length_cons, Nat.mul_succ]
    omega

theorem length_advance (S : Sys σ ρ τ α) (p : Pool σ τ) (i : Nat) :
    (S.act p (.advance i)).tasks.length = p.tasks.length := by
  cases h : p.tasks[i]? with
  | none => rw [act_advance_none h]
  | some t => rw [act_advance h, List.length_set]

/-- A turn of a task leaves a step less, or it waits: the store and the other tasks stay. -/
theorem advance_cases (p : Pool σ τ) (i : Nat) :
    R.total (S.act p (.advance i)) < R.total p ∨
    R.total (S.act p (.advance i)) = R.total p ∧ (S.act p (.advance i)).store = p.store ∧
      ∀ j, j ≠ i → (S.act p (.advance i)).tasks[j]? = p.tasks[j]? := by
  cases h : p.tasks[i]? with
  | none =>
    rw [act_advance_none h]
    exact .inr ⟨rfl, rfl, fun _ _ => rfl⟩
  | some t =>
    rw [act_advance h]
    rcases R.step i t p.store with hlt | ⟨hstore, hleft⟩
    · exact .inl (sum_set_lt h hlt)
    · refine .inr ⟨?_, hstore, fun j hj => List.getElem?_set_ne (Ne.symm hj)⟩
      obtain ⟨hi, rfl⟩ := List.getElem?_eq_some_iff.mp h
      have hi' : i < (p.tasks.map R.left).length := by simpa using hi
      have hget : R.left (S.step i p.tasks[i] p.store).1 = (p.tasks.map R.left)[i] := by
        rw [hleft, List.getElem_map]
      rw [total, total, List.map_set, hget, List.set_getElem_self hi']

/-- A part of a schedule without new requests keeps the invariant and the number of tasks. It
leaves a step less, or all turns wait: the store stays, and the tasks without a turn. -/
theorem run_cases (hsub : submitted part = []) (hp : I p) :
    I (S.run p part) ∧ (S.run p part).tasks.length = p.tasks.length ∧
      (R.total (S.run p part) < R.total p ∨
        R.total (S.run p part) = R.total p ∧ (S.run p part).store = p.store ∧
          ∀ j, .advance j ∉ part → (S.run p part).tasks[j]? = p.tasks[j]?) := by
  induction part generalizing p with
  | nil => exact ⟨hp, rfl, .inr ⟨rfl, rfl, fun _ _ => rfl⟩⟩
  | cons a part ih =>
    cases a with
    | submit r => cases hsub
    | advance i =>
      obtain ⟨hI, hlen, hrest⟩ := ih hsub (R.keep p i hp)
      refine ⟨hI, hlen.trans (length_advance S p i), ?_⟩
      show R.total (S.run (S.act p (.advance i)) part) < _ ∨
        R.total (S.run (S.act p (.advance i)) part) = _ ∧ _
      rcases R.advance_cases p i with hlt | ⟨heq, hstore, htasks⟩
      · rcases hrest with hlt' | ⟨heq', -⟩ <;> exact .inl (by omega)
      · rcases hrest with hlt' | ⟨heq', hstore', htasks'⟩
        · exact .inl (by omega)
        · refine .inr ⟨heq'.trans heq, hstore'.trans hstore, fun j hj => ?_⟩
          have hne : j ≠ i := fun h => hj (h ▸ List.mem_cons_self)
          exact (htasks' j fun h => hj (List.mem_cons_of_mem _ h)).trans (htasks j hne)

/-- A turn of a task that need not wait, after turns of other tasks. -/
theorem run_moves {pre : List (Act ρ)} {t : τ} (hsub : submitted pre = []) (hp : I p)
    (hj : .advance j ∉ pre) (ht : p.tasks[j]? = some t)
    (hlt : R.left (S.step j t p.store).1 < R.left t) :
    R.total (S.act (S.run p pre) (.advance j)) < R.total p := by
  obtain ⟨-, -, hless | ⟨heq, hstore, htasks⟩⟩ := R.run_cases hsub hp
  · rcases R.advance_cases (S.run p pre) j with h | ⟨h, -⟩ <;> omega
  · have ht' := (htasks j hj).trans ht
    rw [act_advance ht', hstore, ← heq]
    exact sum_set_lt ht' hlt

/-- After a fair part, all tasks are at their end or a step less is left. -/
theorem fair_part (hp : I p) (hfair : Fair p.tasks.length part) :
    (∀ t ∈ p.tasks, R.left t = 0) ∨ R.total (S.run p part) < R.total p := by
  by_cases hdone : ∀ t ∈ p.tasks, R.left t = 0
  · exact .inl hdone
  · simp only [not_forall] at hdone
    obtain ⟨t, ht, hleft⟩ := hdone
    obtain ⟨j, u, hu, hlt⟩ := R.live p t hp ht (Nat.pos_of_ne_zero hleft)
    -- the first turn of the task that need not wait
    obtain ⟨pre, post, hpart, hj⟩ :=
      List.eq_append_cons_of_mem (hfair.2 j (List.getElem?_eq_some_iff.mp hu).1)
    have hsub := hfair.1
    rw [hpart, submitted_append, List.append_eq_nil_iff] at hsub
    have hpost : submitted post = [] := hsub.2
    have hI := (R.run_cases hsub.1 hp).1
    have hmoves := R.run_moves hsub.1 hp hj hu hlt
    right
    rw [hpart, run_append]
    obtain ⟨-, -, h | ⟨h, -⟩⟩ := R.run_cases hpost (R.keep _ j hI)
    all_goals
      show R.total (S.run (S.act (S.run p pre) (.advance j)) post) < _
      omega

/-- Tasks at their end stay there. -/
theorem run_done (hsub : submitted part = []) (hp : I p) (hdone : ∀ t ∈ p.tasks, R.left t = 0) :
    ∀ t ∈ (S.run p part).tasks, R.left t = 0 := by
  have hzero := R.total_eq_zero.mpr hdone
  refine R.total_eq_zero.mp ?_
  obtain ⟨-, -, hlt | ⟨heq, -⟩⟩ := R.run_cases hsub hp <;> omega

theorem submitted_flatten {parts : List (List (Act ρ))} (h : ∀ part ∈ parts, submitted part = []) :
    submitted parts.flatten = [] := by
  induction parts with
  | nil => rfl
  | cons part parts ih =>
    rw [List.flatten_cons, submitted_append, h part List.mem_cons_self,
      ih fun q hq => h q (List.mem_cons_of_mem _ hq)]
    rfl

/-- As many fair parts as there are steps left bring all tasks to their end. -/
theorem fair_completion (hp : I p) {parts : List (List (Act ρ))}
    (hfair : ∀ part ∈ parts, Fair p.tasks.length part) (hlen : R.total p ≤ parts.length) :
    ∀ t ∈ (S.run p parts.flatten).tasks, R.left t = 0 := by
  induction parts generalizing p with
  | nil => exact R.total_eq_zero.mp (Nat.le_zero.mp hlen)
  | cons part parts ih =>
    have hpart := hfair part List.mem_cons_self
    have hrest := fun q hq => hfair q (List.mem_cons_of_mem part hq)
    obtain ⟨hI, hlength, -⟩ := R.run_cases hpart.1 hp
    rcases R.fair_part hp hpart with hdone | hlt
    · refine R.run_done (submitted_flatten fun q hq => (hfair q hq).1) hp hdone
    · rw [List.flatten_cons, run_append]
      refine ih hI (fun q hq => hlength ▸ hrest q hq) ?_
      rw [List.length_cons] at hlen
      omega

end Progress

/-! ## Without waiting -/

/-- The turns of the task with the index `i`. -/
def turns (i : Nat) : List (Act ρ) → Nat
  | [] => 0
  | .submit _ :: sched => turns i sched
  | .advance j :: sched => (if j = i then 1 else 0) + turns i sched

theorem answered_of_turns {S : Sys σ ρ τ α} {left : τ → Nat}
    (hstep : ∀ i t s, S.answer t = none → left (S.step i t s).1 < left t) {p : Pool σ τ} {i : Nat}
    {t : τ} {sched : List (Act ρ)} (h : p.tasks[i]? = some t) (hn : left t ≤ turns i sched) :
    ∃ t', (S.run p sched).tasks[i]? = some t' ∧ (S.answer t').isSome := by
  induction sched generalizing p t with
  | nil =>
    cases ha : S.answer t with
    | some a => exact ⟨t, h, by rw [ha]; rfl⟩
    | none =>
      have hlt := hstep i t p.store ha
      rw [turns] at hn
      omega
  | cons a sched ih =>
    cases ha : S.answer t with
    | some _ => exact ⟨t, answered_run h (by rw [ha]; rfl), by rw [ha]; rfl⟩
    | none =>
      cases a with
      | submit r => exact ih (List.getElem?_append_left (List.getElem?_eq_some_iff.mp h).1 ▸ h) hn
      | advance j =>
        show ∃ t', (S.run (S.act p (.advance j)) sched).tasks[i]? = some t' ∧ _
        rw [turns] at hn
        by_cases hj : j = i
        · subst hj
          rw [if_pos rfl] at hn
          have hlt := hstep j t p.store ha
          rw [act_advance h]
          refine ih (t := (S.step j t p.store).1) ?_ (by omega)
          rw [getElem?_set_of_some h, if_pos rfl]
        · rw [if_neg hj, Nat.zero_add] at hn
          refine ih (t := t) ?_ hn
          cases hu : p.tasks[j]? with
          | none => rwa [act_advance_none hu]
          | some u =>
            rw [act_advance hu]
            exact (List.getElem?_set_ne hj).trans h

end Sys
