import UsageBilling.Lib.Linear

/-!
# Tasks whose process may die, and accesses to the store that may time out

A task may die between any two of its steps, or before its answer is sent. What it has written by
then stays; what it holds is given back (`Faults.release`). A step that accesses the store may time
out instead: the task gives back what it holds, and answers with an error.

* `Sys.mortal`: the tasks of a system, each with the fault that ends it early, if there is one. Its
  answers are those that the tasks have computed.
* `Sys.faulty`: the same tasks for their clients, who also get the errors.
* `Decisions.linearizable_answered`: linearizability of runs in which not all requests are
  answered: a request without an answer has taken effect as a whole, or not at all.
* `Death`: what a system must keep when a task ends early; `Decisions.mortal`: then the steps at
  which its requests take effect are those of the mortal tasks. A task that fails takes no effect.
-/

namespace Sys

variable {σ ρ τ α β ε : Type}

/-- What ends a task early, after so many of its steps. -/
inductive Fault (ε : Type) where
  /-- The process dies. -/
  | death (age : Nat)
  /-- The access to the store that comes next times out. If none does, nothing happens. -/
  | timeout (age : Nat) (error : ε)

/-- How far a task has come. -/
inductive Fate (ε : Type) where
  | running
  /-- The answer has been sent. -/
  | answered
  | dead
  /-- The error of a timeout has been sent. -/
  | failed (error : ε)
  deriving DecidableEq

/-- What faults can do to the tasks of a system. -/
structure Faults (σ τ : Type) where
  /-- The store without what the task with this index holds. -/
  release : Nat → σ → σ
  /-- The next step of the task accesses the store. -/
  busy : τ → Bool

/-- A task of a process that may die, with accesses that may time out. -/
structure Mortal (τ ε : Type) where
  task : τ
  /-- What ends the task early (`none`: nothing). -/
  fault : Option (Fault ε)
  age : Nat := 0
  fate : Fate ε := .running

namespace Mortal

/-- The end that the fault makes of the task at its next step. -/
def struck (busy : τ → Bool) (t : Mortal τ ε) : Option (Fate ε) :=
  match t.fault with
  | none => none
  | some (.death age) => if age = t.age then some .dead else none
  | some (.timeout age error) =>
    if age = t.age ∧ busy t.task = true then some (.failed error) else none

/-- The task has failed, or it fails at its next step. -/
def doomed (busy : τ → Bool) (t : Mortal τ ε) : Bool :=
  match t.fate, t.struck busy with
  | .failed _, _ => true
  | .running, some (.failed _) => true
  | _, _ => false

variable {busy : τ → Bool} {t : Mortal τ ε} {fate : Fate ε}

/-- A task is struck by the death of its process, or by a timeout of an access. -/
theorem struck_cases (h : t.struck busy = some fate) :
    (t.fault = some (.death t.age) ∧ fate = .dead) ∨
    ∃ error, t.fault = some (.timeout t.age error) ∧ busy t.task = true ∧
      fate = .failed error := by
  unfold struck at h
  split at h
  · cases h
  · rename_i age hfault
    split at h
    · rename_i hage
      cases h
      exact .inl ⟨by rw [hfault, hage], rfl⟩
    · cases h
  · rename_i age error hfault
    split at h
    · rename_i hnow
      cases h
      exact .inr ⟨error, by rw [hfault, hnow.1], hnow.2, rfl⟩
    · cases h

theorem doomed_failed {error : ε} (h : t.fate = .failed error) : t.doomed busy = true := by
  simp only [doomed, h]

theorem doomed_running {error : ε} (h : t.fate = .running)
    (hs : t.struck busy = some (.failed error)) : t.doomed busy = true := by
  simp only [doomed, h, hs]

/-- A task that is not failed and is not struck by a timeout is not doomed. -/
theorem not_doomed (h : ∀ error, t.fate ≠ .failed error)
    (hs : t.fate = .running → ∀ error, t.struck busy ≠ some (.failed error)) :
    t.doomed busy = false := by
  unfold doomed
  split
  · exact absurd ‹_› (h _)
  · exact absurd ‹_› (hs ‹_› _)
  · rfl

/-- Only a busy task is about to fail. -/
theorem busy_of_doomed (h : t.doomed busy = true) (hf : t.fate = .running) :
    busy t.task = true := by
  simp only [doomed, hf] at h
  split at h
  · cases ‹Fate.running = Fate.failed _›
  · rename_i hs
    rcases struck_cases hs with ⟨-, hdead⟩ | ⟨_, -, hbusy, -⟩
    · cases hdead
    · exact hbusy
  · cases h

end Mortal

/-- The tasks of `S` with their faults. A request comes with the fault of its task. -/
def mortal (S : Sys σ ρ τ α) (F : Faults σ τ) :
    Sys σ (ρ × Option (Fault ε)) (Mortal τ ε) α where
  start r := { task := S.start r.1, fault := r.2 }
  request t := (S.request t.task, t.fault)
  answer t :=
    match t.fate with
    | .answered => S.answer t.task
    | _ => none
  step i t s :=
    match t.fate with
    | .running =>
      match t.struck F.busy with
      | some fate => ({ t with fate }, F.release i s)
      | none =>
        if (S.answer t.task).isSome then ({ t with fate := .answered }, s)
        else ({ t with task := (S.step i t.task s).1, age := t.age + 1 }, (S.step i t.task s).2)
    | _ => (t, s)
  request_start r := by rw [S.request_start]
  request_step i t s := by
    split
    · split
      · rfl
      · split
        · rfl
        · rw [S.request_step]
    · rfl
  step_answered i t s h := by
    cases hf : t.fate with
    | running => simp [hf] at h
    | _ => rfl

/-- The tasks of `S` with their faults, as their clients see them: a timeout is answered. -/
def faulty (S : Sys σ ρ τ α) (F : Faults σ τ) (fail : ε → α) :
    Sys σ (ρ × Option (Fault ε)) (Mortal τ ε) α :=
  { S.mortal F with
    answer := fun t =>
      match t.fate with
      | .answered => S.answer t.task
      | .failed error => some (fail error)
      | _ => none
    step_answered := fun i t s h => by
      cases hf : t.fate with
      | running => simp [hf] at h
      | _ => simp only [mortal, hf] }

/-! ## What a step of a mortal task does -/

section Step

variable {S : Sys σ ρ τ α} {F : Faults σ τ} {fail : ε → α} {i : Nat} {t : Mortal τ ε} {s : σ}

/-- The ways a step of a mortal task ends. -/
inductive MortalStep (S : Sys σ ρ τ α) (F : Faults σ τ) (i : Nat) (t : Mortal τ ε) (s : σ) :
    Mortal τ ε × σ → Prop
  | finished (h : t.fate ≠ .running) : MortalStep S F i t s (t, s)
  | died (h : t.fate = .running) (hfault : t.fault = some (.death t.age))
      (hs : t.struck F.busy = some .dead) :
      MortalStep S F i t s ({ t with fate := .dead }, F.release i s)
  | failed (h : t.fate = .running) (error : ε) (hfault : t.fault = some (.timeout t.age error))
      (hbusy : F.busy t.task = true) (hs : t.struck F.busy = some (.failed error)) :
      MortalStep S F i t s ({ t with fate := .failed error }, F.release i s)
  | answered (h : t.fate = .running) (ha : (S.answer t.task).isSome)
      (hs : t.struck F.busy = none) :
      MortalStep S F i t s ({ t with fate := .answered }, s)
  | step (h : t.fate = .running) (ha : S.answer t.task = none) (hs : t.struck F.busy = none) :
      MortalStep S F i t s
        ({ t with task := (S.step i t.task s).1, age := t.age + 1 }, (S.step i t.task s).2)

theorem mortal_step_spec (S : Sys σ ρ τ α) (F : Faults σ τ) (i : Nat) (t : Mortal τ ε) (s : σ) :
    MortalStep S F i t s ((S.mortal F).step i t s) := by
  simp only [mortal]
  split
  · rename_i hf
    split
    · rename_i fate hs
      rcases Mortal.struck_cases hs with ⟨hfault, rfl⟩ | ⟨error, hfault, hbusy, rfl⟩
      · exact .died hf hfault hs
      · exact .failed hf error hfault hbusy hs
    · rename_i hs
      cases ha : S.answer t.task with
      | some a =>
        rw [if_pos Option.isSome_some]
        exact .answered hf (by rw [ha]; rfl) hs
      | none =>
        rw [if_neg (by simp)]
        exact .step hf ha hs
  · exact .finished ‹_›

theorem mortal_answer {a : α} (h : (S.mortal F).answer t = some a) :
    t.fate = .answered ∧ S.answer t.task = some a := by
  simp only [mortal] at h
  split at h
  · exact ⟨‹_›, h⟩
  · cases h

/-- What a client gets is the answer of the task, or the error of a timeout. -/
theorem faulty_answer {a : α} (h : (S.faulty F fail).answer t = some a) :
    (t.fate = .answered ∧ S.answer t.task = some a) ∨
    ∃ error, t.fate = .failed error ∧ a = fail error := by
  simp only [faulty] at h
  split at h
  · exact .inl ⟨‹_›, h⟩
  · rename_i error hf
    exact .inr ⟨error, hf, (Option.some.inj h).symm⟩
  · cases h

end Step

/-! ## Runs in which not all requests are answered -/

namespace Decisions

variable {S : Sys σ ρ τ α} {apply : ρ → β → α × β}

/-- In every run, the requests that are decided ran one after the other in an order that agrees with
real time, with the decided answers: they leave the store of the run. All that are answered are
among them, with their answers. -/
theorem linearizable_answered (D : Decisions S apply) (s : σ) (sched : List (Act ρ)) :
    ∃ (order : List Nat) (as : List α), order.Nodup ∧
      (∀ i, i ∈ order ↔ (D.decidedAt (S.run (init s) sched) i).isSome) ∧
      (∀ i t, (S.run (init s) sched).tasks[i]? = some t → (S.answer t).isSome → i ∈ order) ∧
      (∀ pre, pre <+: sched → ∀ a b t, (S.run (init s) pre).tasks[a]? = some t →
        (S.answer t).isSome → (submitted pre).length ≤ b → b ∈ order → [a, b].Sublist order) ∧
      sequential apply (order.filterMap ((submitted sched)[·]?)) (D.abs s) =
        (as, D.abs (S.run (init s) sched).store) ∧
      ∀ (k i : Nat) t a, order[k]? = some i → (S.run (init s) sched).tasks[i]? = some t →
        S.answer t = some a → as[k]? = some a := by
  obtain ⟨order, as, h⟩ := D.exists_order s sched
  refine ⟨order, as, h.nodup, h.mem, fun i t ht ha => ?_,
    fun pre hpre a b t ht ha hb hmem => ?_, h.seq, fun k i t a hk ht ha => ?_⟩
  · exact (h.mem i).mpr (D.decidedAt_of_answered (List.prefix_refl _) ht ha)
  · exact h.realTime pre hpre a b t ht ha (by rw [length_run]; exact hb) hmem
  · have hdec : D.decidedAt (S.run (init s) sched) i = some a := by
      rw [decidedAt_some ht, D.decided_answer _ _ _ ha]
    have hget := congrArg (·[k]?) h.answers
    simp only [List.getElem?_map, hk, Option.map_some, hdec] at hget
    obtain ⟨b, hb, hab⟩ := Option.map_eq_some_iff.mp hget.symm
    rw [hb, Option.some.inj hab]

end Decisions

/-! ## The decisions of mortal tasks -/

/-- What an early end must keep. `Dead s t` holds of the task `t` after its end. -/
structure Death {S : Sys σ ρ τ α} {apply : ρ → β → α × β} (D : Decisions S apply)
    (F : Faults σ τ) where
  Dead : σ → τ → Prop
  abs_release : ∀ i s, D.abs (F.release i s) = D.abs s
  /-- The end of a task keeps what is decided for it. -/
  dies : ∀ s i t, D.Ok s i t →
    Dead (F.release i s) t ∧ D.decided (F.release i s) t = D.decided s t
  /-- The end of a task keeps the invariants of the others. -/
  ok_release : ∀ s i j u, i ≠ j → D.Ok s j u →
    D.Ok (F.release i s) j u ∧ D.decided (F.release i s) u = D.decided s u
  /-- A task that has ended stays as it is. -/
  dead_release : ∀ s i u, Dead s u →
    Dead (F.release i s) u ∧ D.decided (F.release i s) u = D.decided s u
  dead_step : ∀ s i t u, D.Ok s i t → Dead s u →
    Dead (S.step i t s).2 u ∧ D.decided (S.step i t s).2 u = D.decided s u
  /-- A step after which the task accesses the store again has taken no effect, and nothing was
  decided before it. -/
  busy_step : ∀ s i t, D.Ok s i t → S.answer t = none → F.busy (S.step i t s).1 = true →
    D.decided s t = none ∧ D.abs (S.step i t s).2 = D.abs s

namespace Death

variable {S : Sys σ ρ τ α} {apply : ρ → β → α × β} {D : Decisions S apply}
  {F : Faults σ τ} (K : Death D F)

/-- The invariant of a mortal task. -/
def Ok (s : σ) (i : Nat) (t : Mortal τ ε) : Prop :=
  match t.fate with
  | .dead | .failed _ => K.Dead s t.task
  | _ => D.Ok s i t.task

/-- What is decided for a mortal task: nothing if it fails, or is about to. -/
def decided (D : Decisions S apply) (F : Faults σ τ) (s : σ) (t : Mortal τ ε) : Option α :=
  if t.doomed F.busy then none else D.decided s t.task

/-- The task has not ended early. -/
def Alive (t : Mortal τ ε) : Prop := t.fate = .running ∨ t.fate = .answered

variable {K} {s : σ} {i j : Nat} {t u : Mortal τ ε}

theorem ok_alive (h : Alive t) : K.Ok s i t ↔ D.Ok s i t.task := by
  rcases h with h | h <;> simp only [Ok, h]

theorem ok_ended (h : ¬ Alive t) : K.Ok s i t ↔ K.Dead s t.task := by
  cases hf : t.fate with
  | running => exact absurd (.inl hf) h
  | answered => exact absurd (.inr hf) h
  | _ => simp only [Ok, hf]

theorem Ok.step (h : K.Ok s i t) : K.Ok ((S.mortal F).step i t s).2 i
    ((S.mortal F).step i t s).1 := by
  have hst := mortal_step_spec S F i t s
  generalize (S.mortal F).step i t s = r at hst ⊢
  cases hst with
  | finished => exact h
  | died hf => exact (K.dies s i t.task ((ok_alive (.inl hf)).mp h)).1
  | failed hf => exact (K.dies s i t.task ((ok_alive (.inl hf)).mp h)).1
  | answered hf => exact (ok_alive (.inr rfl)).mpr ((ok_alive (.inl hf)).mp h)
  | step hf =>
    have halive : Alive { t with task := (S.step i t.task s).1, age := t.age + 1 } := .inl hf
    exact (ok_alive halive).mpr (D.ok_step s i t.task ((ok_alive (.inl hf)).mp h))

/-- A step of a mortal task keeps the other tasks as they are. -/
theorem Ok.stable (hne : i ≠ j) (h : K.Ok s i t) (hu : K.Ok s j u) :
    K.Ok ((S.mortal F).step i t s).2 j u ∧
      D.decided ((S.mortal F).step i t s).2 u.task = D.decided s u.task := by
  have hst := mortal_step_spec S F i t s
  generalize (S.mortal F).step i t s = r at hst ⊢
  have hrelease : K.Ok (F.release i s) j u ∧
      D.decided (F.release i s) u.task = D.decided s u.task := by
    by_cases ha : Alive u
    · rw [ok_alive ha] at hu ⊢
      exact K.ok_release s i j u.task hne hu
    · rw [ok_ended ha] at hu ⊢
      exact K.dead_release s i u.task hu
  cases hst with
  | finished => exact ⟨hu, rfl⟩
  | answered => exact ⟨hu, rfl⟩
  | died => exact hrelease
  | failed => exact hrelease
  | step hf =>
    have hok := (ok_alive (.inl hf)).mp h
    by_cases ha : Alive u
    · rw [ok_alive ha] at hu ⊢
      exact ⟨D.ok_stable s i t.task j u.task hne hok hu,
        D.decided_stable s i t.task j u.task hne hok hu⟩
    · rw [ok_ended ha] at hu ⊢
      exact K.dead_step s i t.task u.task hok hu

theorem decided_of_doomed (h : t.doomed F.busy = true) : decided D F s t = none := if_pos h

theorem decided_of_not_doomed (h : t.doomed F.busy = false) :
    decided D F s t = D.decided s t.task := by
  simp only [decided, h, Bool.false_eq_true, ↓reduceIte]

/-- A step decides nothing, or it decides the answer of its task. -/
theorem Ok.point (h : K.Ok s i t) :
    (decided D F ((S.mortal F).step i t s).2 ((S.mortal F).step i t s).1 = decided D F s t ∧
      D.abs ((S.mortal F).step i t s).2 = D.abs s) ∨
    decided D F s t = none ∧ ∃ a,
      decided D F ((S.mortal F).step i t s).2 ((S.mortal F).step i t s).1 = some a ∧
      apply (S.request t.task) (D.abs s) = (a, D.abs ((S.mortal F).step i t s).2) := by
  have hst := mortal_step_spec S F i t s
  generalize (S.mortal F).step i t s = r at hst ⊢
  cases hst with
  | finished => exact .inl ⟨rfl, rfl⟩
  | died hf _ hs =>
    have hdead : Mortal.doomed F.busy { t with fate := .dead } = false :=
      Mortal.not_doomed (by simp) (by simp)
    have halive : t.doomed F.busy = false := Mortal.not_doomed (by simp [hf]) (by simp [hs])
    rw [decided_of_not_doomed hdead, decided_of_not_doomed halive]
    exact .inl ⟨(K.dies s i t.task ((ok_alive (.inl hf)).mp h)).2, K.abs_release i s⟩
  | failed hf error _ _ hs =>
    rw [decided_of_doomed (Mortal.doomed_failed rfl),
      decided_of_doomed (Mortal.doomed_running hf hs)]
    exact .inl ⟨rfl, K.abs_release i s⟩
  | answered hf _ hs =>
    have hsent : Mortal.doomed F.busy { t with fate := .answered } = false :=
      Mortal.not_doomed (by simp) (by simp)
    have halive : t.doomed F.busy = false := Mortal.not_doomed (by simp [hf]) (by simp [hs])
    rw [decided_of_not_doomed hsent, decided_of_not_doomed halive]
    exact .inl ⟨rfl, rfl⟩
  | step hf ha hs =>
    have hok := (ok_alive (.inl hf)).mp h
    have halive : t.doomed F.busy = false := Mortal.not_doomed (by simp [hf]) (by simp [hs])
    rw [decided_of_not_doomed halive]
    cases hd : Mortal.doomed F.busy
        { t with task := (S.step i t.task s).1, age := t.age + 1 } with
    | true =>
      -- the next access times out: this step has taken no effect
      obtain ⟨hnone, habs⟩ := K.busy_step s i t.task hok ha (Mortal.busy_of_doomed hd hf)
      rw [decided_of_doomed hd, hnone]
      exact .inl ⟨rfl, habs⟩
    | false =>
      rw [decided_of_not_doomed hd]
      exact D.point s i t.task hok

end Death

/-- The requests of mortal tasks take effect where those of the tasks do. -/
def Decisions.mortal {S : Sys σ ρ τ α} {apply : ρ → β → α × β} {D : Decisions S apply}
    {F : Faults σ τ} (K : Death D F) :
    Decisions (S.mortal F (ε := ε)) fun r => apply r.1 where
  abs := D.abs
  decided := Death.decided D F
  Ok := K.Ok
  ok_start s i r := D.ok_start s i r.1
  ok_step _ _ _ h := h.step
  ok_stable _ _ _ _ _ hne h hu := (h.stable hne hu).1
  decided_start s r := by
    unfold Death.decided
    split
    · rfl
    · exact D.decided_start s r.1
  decided_answer s t a h := by
    obtain ⟨hf, ha⟩ := mortal_answer h
    have hsent : t.doomed F.busy = false := Mortal.not_doomed (by simp [hf]) (by simp [hf])
    rw [Death.decided_of_not_doomed hsent]
    exact D.decided_answer s t.task a ha
  decided_stable _ _ _ _ u hne h hu := by
    unfold Death.decided
    rw [(h.stable hne hu).2]
  point _ _ _ h := h.point

/-- Every run, as its clients see it: the requests that are decided ran one after the other, in an
order that agrees with real time. Who gets an answer gets that of its request in this order, or the
error of a timeout, and then the request is not in the order. -/
theorem Death.linearizable {S : Sys σ ρ τ α} {apply : ρ → β → α × β} {D : Decisions S apply}
    {F : Faults σ τ} (K : Death D F) (fail : ε → α) (s : σ)
    (sched : List (Act (ρ × Option (Fault ε)))) :
    ∃ (order : List Nat) (as : List α), order.Nodup ∧
      (∀ i, i ∈ order ↔
        ((Decisions.mortal K).decidedAt ((S.faulty F fail).run (init s) sched) i).isSome) ∧
      (∀ i t a, ((S.faulty F fail).run (init s) sched).tasks[i]? = some t →
        (S.faulty F fail).answer t = some a →
        (∃ k : Nat, order[k]? = some i ∧ as[k]? = some a) ∨
        i ∉ order ∧ ∃ error, t.fate = .failed error ∧ a = fail error) ∧
      (∀ pre, pre <+: sched → ∀ a b t, ((S.faulty F fail).run (init s) pre).tasks[a]? = some t →
        ((S.faulty F fail).answer t).isSome → (submitted pre).length ≤ b → a ∈ order → b ∈ order →
        [a, b].Sublist order) ∧
      sequential (fun r => apply r.1) (order.filterMap ((submitted sched)[·]?)) (D.abs s) =
        (as, D.abs ((S.faulty F fail).run (init s) sched).store) := by
  obtain ⟨order, as, hnodup, hmem, hin, hreal, hseq, hans⟩ :=
    (Decisions.mortal K).linearizable_answered s sched
  -- a failed task has nothing decided
  have hfailed : ∀ i t error, ((S.mortal F).run (init s) sched).tasks[i]? = some t →
      t.fate = .failed error → i ∉ order := fun i t error ht hf hi => by
    have hsome := (hmem i).mp hi
    rw [Decisions.decidedAt_some ht,
      show (Decisions.mortal K).decided _ t = none from
        decided_of_doomed (Mortal.doomed_failed hf)] at hsome
    cases hsome
  refine ⟨order, as, hnodup, hmem, fun i t a ht ha => ?_,
    fun pre hpre a b t ht ha hle hai hbi => ?_, hseq⟩
  · rcases faulty_answer ha with ⟨hf, hta⟩ | ⟨error, hf, rfl⟩
    · have hsent : (S.mortal F).answer t = some a := by simp only [Sys.mortal, hf, hta]
      obtain ⟨k, hk⟩ := List.mem_iff_getElem?.mp (hin i t ht (by rw [hsent]; rfl))
      exact .inl ⟨k, hk, hans k i t a hk ht hsent⟩
    · exact .inr ⟨hfailed i t error ht hf, error, hf, rfl⟩
  · obtain ⟨answer, hanswer⟩ := Option.isSome_iff_exists.mp ha
    rcases faulty_answer hanswer with ⟨hf, hta⟩ | ⟨error, hf, -⟩
    · exact hreal pre hpre a b t ht (by simp only [Sys.mortal, hf, hta]; rfl) hle hbi
    · -- what has failed stays as it is
      obtain ⟨post, rfl⟩ := hpre
      have hlast : ((S.faulty F fail).run (init s) (pre ++ post)).tasks[a]? = some t := by
        rw [run_append]
        exact answered_run ht ha
      exact absurd hai (hfailed a t error hlast hf)

end Sys
