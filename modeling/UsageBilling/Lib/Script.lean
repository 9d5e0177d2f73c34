import UsageBilling.Lib.Compose
import UsageBilling.Lib.Txn

/-!
# A script among other tasks

A script runs the statements of a program in their order. Each statement is one atomic step, and
nothing makes them one transaction: the steps of other tasks come in between. An error ends it.

* `Sys.script prog stmt`: the system of the scripts that run `prog`. `script_alone`: a script with
  nothing between its steps is the loop `prog.forM stmt`.
* `take_succ`, `take_of_answer`: a script without an error has run the first statements, and all of
  them if it has ended.
* `Sys.trace`: what the steps of a run yield, in order.
* `last_of_mem_trace`: what a run yields has a step that yields it last.
-/

/-- A script between two of its statements. -/
structure Script (ε : Type) where
  /-- The number of statements that have run. -/
  done : Nat := 0
  error : Option ε := none

namespace Txn

variable {σ ε : Type}

instance : LawfulMonad (Txn σ ε) := LawfulMonad.mk' _
  (by
    intro α x
    funext s
    show (match x s with
      | (.ok a, s') => (Except.ok a, s')
      | (.error e, s') => (Except.error e, s')) = x s
    rcases x s with ⟨_ | _, _⟩ <;> rfl)
  (fun _ _ => rfl)
  (by
    intro α β γ x f g
    funext s
    show (x >>= f >>= g).run s = (x >>= fun a => f a >>= g).run s
    simp only [run_bind]
    rcases x.run s with ⟨_ | _, _⟩ <;> rfl)

end Txn

namespace Script

variable {σ β ε : Type} {prog : List β} {stmt : β → Txn σ ε Unit} {t : Script ε} {s s' : σ} {b : β}

/-- The next statement; `none` if the script has ended. -/
def next? (prog : List β) (t : Script ε) : Option β :=
  if t.error.isNone then prog[t.done]? else none

/-- How the run of the script has ended, if it has. -/
def answer (prog : List β) (t : Script ε) : Option (Except ε Unit) :=
  match t.error with
  | some err => some (.error err)
  | none => if prog.length ≤ t.done then some (.ok ()) else none

/-- One turn: the next statement runs, or the script has ended. -/
def step (prog : List β) (stmt : β → Txn σ ε Unit) (t : Script ε) (s : σ) : Script ε × σ :=
  match t.next? prog with
  | none => (t, s)
  | some b =>
    match (stmt b).run s with
    | (.ok _, s') => ({ t with done := t.done + 1 }, s')
    | (.error err, s') => ({ t with error := some err }, s')

theorem next?_of_error (h : t.error = none) : t.next? prog = prog[t.done]? := by
  rw [next?, h]
  rfl

/-- A script has a next statement or an answer. -/
theorem next?_eq_none : t.next? prog = none ↔ (t.answer prog).isSome := by
  cases herr : t.error with
  | some err => simp [next?, answer, herr]
  | none =>
    rw [next?_of_error herr, List.getElem?_eq_none_iff]
    by_cases hle : prog.length ≤ t.done <;> simp [answer, herr, hle]

theorem step_none (h : t.next? prog = none) : t.step prog stmt s = (t, s) := by
  simp only [step, h]

theorem step_ok (h : t.next? prog = some b) (hrun : (stmt b).run s = (.ok (), s')) :
    t.step prog stmt s = ({ t with done := t.done + 1 }, s') := by
  simp only [step, h, hrun]

theorem step_error {err : ε} (h : t.next? prog = some b)
    (hrun : (stmt b).run s = (.error err, s')) :
    t.step prog stmt s = ({ t with error := some err }, s') := by
  simp only [step, h, hrun]

theorem error_of_next? (h : t.next? prog = some b) : t.error = none ∧ prog[t.done]? = some b := by
  cases herr : t.error with
  | some err =>
    rw [next?, herr] at h
    cases h
  | none => exact ⟨rfl, (next?_of_error herr).symm.trans h⟩

/-- The statements that have run after the next one. -/
theorem take_succ (h : t.next? prog = some b) :
    prog.take (t.done + 1) = prog.take t.done ++ [b] := by
  rw [List.take_add_one, (error_of_next? h).2]
  rfl

/-- A step runs the next statement, or none. -/
theorem mem_take_step {b' : β} (h : b' ∈ prog.take (t.step prog stmt s).1.done) :
    b' ∈ prog.take t.done ∨ t.next? prog = some b' := by
  cases hnext : t.next? prog with
  | none =>
    rw [step_none hnext] at h
    exact .inl h
  | some b =>
    cases hrun : (stmt b).run s with
    | mk r s' =>
    cases r with
    | ok _ =>
      rw [step_ok hnext hrun] at h
      have h : b' ∈ prog.take (t.done + 1) := h
      rw [take_succ hnext] at h
      exact (List.mem_append.mp h).imp_right fun h => by rw [List.mem_singleton.mp h]
    | error err =>
      rw [step_error hnext hrun] at h
      exact .inl h

/-- The steps that the script takes at most. -/
def left (prog : List β) (t : Script ε) : Nat :=
  if t.error.isNone then prog.length - t.done else 0

theorem left_step (h : t.answer prog = none) :
    (t.step prog stmt s).1.left prog < t.left prog := by
  cases hnext : t.next? prog with
  | none =>
    have := next?_eq_none.mp hnext
    rw [h] at this
    cases this
  | some b =>
    obtain ⟨herr, hget⟩ := error_of_next? hnext
    have hlt : t.done < prog.length := (List.getElem?_eq_some_iff.mp hget).1
    have hleft : t.left prog = prog.length - t.done := by
      rw [left, herr]
      rfl
    cases hrun : (stmt b).run s with
    | mk r s' =>
    cases r with
    | ok _ =>
      rw [step_ok hnext hrun, hleft, left, herr]
      exact Nat.sub_succ_lt_self _ _ hlt
    | error err =>
      rw [step_error hnext hrun, hleft]
      exact Nat.sub_pos_of_lt hlt

theorem answer_eq_ok (herr : t.error = none) (h : (t.answer prog).isSome) :
    t.answer prog = some (.ok ()) := by
  by_cases hle : prog.length ≤ t.done
  · simp [answer, herr, hle]
  · simp [answer, herr, hle] at h

/-- An answered script without an error has run its program. -/
theorem take_of_answer (herr : t.error = none) (h : (t.answer prog).isSome) :
    prog.take t.done = prog := by
  rw [← next?_eq_none, next?_of_error herr, List.getElem?_eq_none_iff] at h
  exact List.take_of_length_le h

end Script

namespace Sys

section Scripts

variable {σ β ε : Type}

/-- The scripts that run the statements of `prog`. -/
def script (prog : List β) (stmt : β → Txn σ ε Unit) :
    Sys σ Unit (Script ε) (Except ε Unit) where
  start _ := {}
  request _ := ()
  answer := Script.answer prog
  step _ := Script.step prog stmt
  request_start _ := rfl
  request_step _ _ _ := rfl
  step_answered _ _ _ h := Script.step_none (Script.next?_eq_none.mpr h)

variable {prog : List β} {stmt : β → Txn σ ε Unit}

/-- From the statement `done` on, a script with nothing between its steps is the loop over the
statements that are left. -/
theorem run_script_rest (done rest : List β) (hprog : prog = done ++ rest) (s : σ) :
    ∃ t : Script ε, (script prog stmt).run ⟨s, [⟨done.length, none⟩]⟩
        (List.replicate rest.length (.advance 0)) = ⟨((rest.forM stmt).run s).2, [t]⟩ ∧
      t.answer prog = some ((rest.forM stmt).run s).1 := by
  induction rest generalizing done s with
  | nil =>
    refine ⟨_, rfl, ?_⟩
    simp [Script.answer, hprog]
  | cons b rest ih =>
    have hnext : (⟨done.length, none⟩ : Script ε).next? prog = some b := by
      simp [Script.next?, hprog]
    have hloop : ((b :: rest).forM stmt).run s = (stmt b >>= fun _ => rest.forM stmt).run s := rfl
    rw [List.length_cons, List.replicate_succ, hloop]
    show ∃ t, (script prog stmt).run
      ⟨(Script.step prog stmt _ s).2, [(Script.step prog stmt _ s).1]⟩ _ = _ ∧ _
    cases hrun : (stmt b).run s with
    | mk r s' =>
    cases r with
    | ok _ =>
      rw [Script.step_ok hnext hrun, Txn.run_bind_ok hrun]
      have := ih (done ++ [b]) (by rw [hprog, List.append_assoc]; rfl) s'
      rwa [List.length_append] at this
    | error err =>
      rw [Script.step_error hnext hrun, Txn.run_bind_error hrun]
      refine ⟨⟨done.length, some err⟩, ?_, rfl⟩
      -- the script has ended, and the steps that are left do nothing
      have hend : ∀ n, (script prog stmt).run ⟨s', [⟨done.length, some err⟩]⟩
          (List.replicate n (.advance 0)) = ⟨s', [⟨done.length, some err⟩]⟩ := fun n => by
        induction n with
        | zero => rfl
        | succ n ihn => exact ihn
      exact hend _

/-- A script with nothing between its steps is the loop over its program. -/
theorem script_alone (s : σ) : ∃ t : Script ε,
    (script prog stmt).run (init s) (.submit () :: List.replicate prog.length (.advance 0)) =
      ⟨((prog.forM stmt).run s).2, [t]⟩ ∧ t.answer prog = some ((prog.forM stmt).run s).1 :=
  run_script_rest [] prog rfl s

end Scripts

/-! ## What a run yields -/

variable {σ ρ τ α γ : Type} (S : Sys σ ρ τ α)

/-- What the steps of a run yield, in order. -/
def trace (f : Pool σ τ → Act ρ → List γ) : Pool σ τ → List (Act ρ) → List γ
  | _, [] => []
  | p, a :: sched => f p a ++ trace f (S.act p a) sched

variable {S} {f : Pool σ τ → Act ρ → List γ} {p : Pool σ τ}

theorem trace_append (p : Pool σ τ) (sched later : List (Act ρ)) :
    S.trace f p (sched ++ later) = S.trace f p sched ++ S.trace f (S.run p sched) later := by
  induction sched generalizing p with
  | nil => rfl
  | cons a sched ih =>
    show f p a ++ S.trace f (S.act p a) (sched ++ later) = _
    rw [ih, ← List.append_assoc]
    rfl

theorem trace_concat (p : Pool σ τ) (sched : List (Act ρ)) (a : Act ρ) :
    S.trace f p (sched ++ [a]) = S.trace f p sched ++ f (S.run p sched) a := by
  rw [trace_append]
  exact congrArg _ (List.append_nil _)

/-- What a run yields has a step that yields it last. -/
theorem last_of_mem_trace {x : γ} {sched : List (Act ρ)} (h : x ∈ S.trace f p sched) :
    ∃ pre a suf, sched = pre ++ a :: suf ∧ x ∈ f (S.run p pre) a ∧
      x ∉ S.trace f (S.run p (pre ++ [a])) suf := by
  induction sched using List.reverseRecOn with
  | nil => cases h
  | append_singleton sched a ih =>
    by_cases ha : x ∈ f (S.run p sched) a
    · exact ⟨sched, a, [], rfl, ha, List.not_mem_nil⟩
    · rw [trace_concat] at h
      obtain ⟨pre, a₀, suf, rfl, hx, hlast⟩ := ih ((List.mem_append.mp h).resolve_right ha)
      refine ⟨pre, a₀, suf ++ [a], by simp, hx, fun hmem => ?_⟩
      rw [trace_concat, ← run_append, List.append_assoc] at hmem
      exact (List.mem_append.mp hmem).elim hlast ha

end Sys
