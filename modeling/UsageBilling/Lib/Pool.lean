import Mathlib.Algebra.Ring.Nat
import Mathlib.Data.List.Basic
import Mathlib.Data.List.Induction

/-!
# Tasks that share a store

A system `Sys` serves requests: a request starts a task, each step of a task is one atomic step on
the shared store, and a task that has an answer takes no more steps. A schedule (`List (Act ρ)`)
is an interleaving: at each point a new request arrives, or one of the tasks takes a step.

* `Sys.run`: the state after a schedule. Every state that a system reaches from `p` is
  `S.run p sched` for a schedule.
* `run_induction`: the invariant rule. `tasks_induction`, `indexed_induction`: the same for an
  invariant of the store and of each task on its own (a step of one task keeps the invariants of
  the others: the rely).
* `invariant_iff`: the steps that an invariant needs, exactly.
* `requests_run`, `answered_run`: requests and answers never change.
* `exists_completion`: every run can be continued until all requests are answered.
* `Sys.tally`: how much of the change of a number was made by some of the tasks.
-/

/-- A system that serves requests of type `ρ` with answers of type `α`. -/
structure Sys (σ ρ τ α : Type) where
  start : ρ → τ
  request : τ → ρ
  answer : τ → Option α
  /-- One atomic step of the task with the given index. -/
  step : Nat → τ → σ → τ × σ
  request_start : ∀ r, request (start r) = r
  request_step : ∀ i t s, request (step i t s).1 = request t
  step_answered : ∀ i t s, (answer t).isSome → step i t s = (t, s)

/-- The store and the tasks, in the order in which their requests arrived. -/
structure Pool (σ τ : Type) where
  store : σ
  tasks : List τ

/-- A request arrives, or the task with index `i` takes a step. -/
inductive Act (ρ : Type) where
  | submit (r : ρ)
  | advance (i : Nat)

/-- The requests of a schedule, in order. -/
def submitted {ρ : Type} : List (Act ρ) → List ρ
  | [] => []
  | .submit r :: sched => r :: submitted sched
  | .advance _ :: sched => submitted sched

namespace Sys

variable {σ ρ τ α : Type} (S : Sys σ ρ τ α)

/-- The pool after an act. -/
def act (p : Pool σ τ) : Act ρ → Pool σ τ
  | .submit r => { p with tasks := p.tasks ++ [S.start r] }
  | .advance i =>
    match p.tasks[i]? with
    | none => p
    | some t => ⟨(S.step i t p.store).2, p.tasks.set i (S.step i t p.store).1⟩

/-- The state after a schedule. -/
def run (p : Pool σ τ) (sched : List (Act ρ)) : Pool σ τ := sched.foldl S.act p

/-- The state in which no request has arrived. -/
def init (s : σ) : Pool σ τ := ⟨s, []⟩

/-- The change of `m` made by the steps of the tasks that satisfy `b`. -/
def tally (b : ρ → Bool) (m : σ → Int) : Pool σ τ → List (Act ρ) → Int
  | _, [] => 0
  | p, a :: sched =>
    (match a with
      | .submit _ => 0
      | .advance i =>
        if (p.tasks[i]?).any fun t => b (S.request t) then m (S.act p a).store - m p.store else 0) +
      tally b m (S.act p a) sched

variable {S}

@[simp] theorem run_nil (p : Pool σ τ) : S.run p [] = p := rfl

theorem run_append (p : Pool σ τ) (sched sched' : List (Act ρ)) :
    S.run p (sched ++ sched') = S.run (S.run p sched) sched' := List.foldl_append ..

theorem run_concat (p : Pool σ τ) (sched : List (Act ρ)) (a : Act ρ) :
    S.run p (sched ++ [a]) = S.act (S.run p sched) a := by
  rw [run_append]; rfl

theorem act_advance {p : Pool σ τ} {i : Nat} {t : τ} (h : p.tasks[i]? = some t) :
    S.act p (.advance i) = ⟨(S.step i t p.store).2, p.tasks.set i (S.step i t p.store).1⟩ := by
  simp only [act, h]

theorem act_advance_none {p : Pool σ τ} {i : Nat} (h : p.tasks[i]? = none) :
    S.act p (.advance i) = p := by
  simp only [act, h]

theorem submitted_append (sched sched' : List (Act ρ)) :
    submitted (sched ++ sched') = submitted sched ++ submitted sched' := by
  induction sched with
  | nil => rfl
  | cons a sched ih => cases a <;> simp [submitted, ih]

/-! ## Invariants -/

/-- The invariant rule. `Q` holds of every request of the schedule. -/
theorem run_induction {I : Pool σ τ → Prop} {Q : ρ → Prop} {p : Pool σ τ} {sched : List (Act ρ)}
    (hp : I p) (hQ : ∀ r ∈ submitted sched, Q r)
    (submit : ∀ p r, Q r → I p → I { p with tasks := p.tasks ++ [S.start r] })
    (advance : ∀ p i t, p.tasks[i]? = some t → I p →
      I ⟨(S.step i t p.store).2, p.tasks.set i (S.step i t p.store).1⟩) :
    I (S.run p sched) := by
  induction sched generalizing p with
  | nil => exact hp
  | cons a sched ih =>
    cases a with
    | submit r =>
      exact ih (submit p r (hQ r (by simp [submitted])) hp)
        fun r' hr' => hQ r' (by simp [submitted, hr'])
    | advance i =>
      show I (S.run (S.act p (.advance i)) sched)
      cases h : p.tasks[i]? with
      | none => rw [act_advance_none h]; exact ih hp hQ
      | some t => rw [act_advance h]; exact ih (advance p i t h hp) hQ

/-- The invariant rule with the reached states at hand: each step starts in the state after a prefix
`pre` of the schedule. -/
theorem reach_induction {I : Pool σ τ → Prop} {p : Pool σ τ} {sched : List (Act ρ)} (hp : I p)
    (submit : ∀ pre r, pre ++ [.submit r] <+: sched → I (S.run p pre) →
      I { S.run p pre with tasks := (S.run p pre).tasks ++ [S.start r] })
    (advance : ∀ pre i t, pre ++ [.advance i] <+: sched → (S.run p pre).tasks[i]? = some t →
      I (S.run p pre) →
      I ⟨(S.step i t (S.run p pre).store).2,
        (S.run p pre).tasks.set i (S.step i t (S.run p pre).store).1⟩) :
    I (S.run p sched) := by
  induction sched using List.reverseRecOn with
  | nil => exact hp
  | append_singleton pre a ih =>
    have hpre := ih (fun pre' r h => submit pre' r (h.trans (List.prefix_append _ _)))
      fun pre' i t h => advance pre' i t (h.trans (List.prefix_append _ _))
    rw [run_concat]
    cases a with
    | submit r => exact submit pre r (List.prefix_refl _) hpre
    | advance i =>
      cases h : (S.run p pre).tasks[i]? with
      | none => rw [act_advance_none h]; exact hpre
      | some t => rw [act_advance h]; exact advance pre i t (List.prefix_refl _) h hpre

/-- The exact condition of an invariant: if a step from a state with `I` keeps `I` exactly under
`C`, then `I` holds along a schedule exactly if all its steps meet `C`. -/
theorem invariant_iff {I : Pool σ τ → Prop} {C : Pool σ τ → Act ρ → Prop} {p : Pool σ τ} (hp : I p)
    (step : ∀ q a, I q → (I (S.act q a) ↔ C q a)) (sched : List (Act ρ)) :
    (∀ pre, pre <+: sched → I (S.run p pre)) ↔
      ∀ pre a, pre ++ [a] <+: sched → C (S.run p pre) a := by
  refine ⟨fun h pre a hpre => ?_, fun h pre => ?_⟩
  · have hI := h pre ((List.prefix_append _ _).trans hpre)
    rw [← step _ a hI, ← run_concat]
    exact h _ hpre
  · induction pre using List.reverseRecOn with
    | nil => exact fun _ => hp
    | append_singleton pre a ih =>
      intro hpre
      rw [run_concat]
      exact (step _ a (ih ((List.prefix_append _ _).trans hpre))).mpr (h pre a hpre)

/-- The steps of a schedule, one after the other. -/
theorem forall_steps_cons {C : List (Act ρ) → Act ρ → Prop} {a : Act ρ} {sched : List (Act ρ)} :
    (∀ pre b, pre ++ [b] <+: a :: sched → C pre b) ↔
      C [] a ∧ ∀ pre b, pre ++ [b] <+: sched → C (a :: pre) b := by
  refine ⟨fun h => ⟨h [] a (by simp), fun pre b hpre => h (a :: pre) b (by simpa using hpre)⟩, ?_⟩
  rintro ⟨ha, h⟩ pre b hpre
  cases pre with
  | nil =>
    obtain ⟨rfl, -⟩ := List.cons_prefix_cons.mp hpre
    exact ha
  | cons a' pre =>
    obtain ⟨rfl, htail⟩ := List.cons_prefix_cons.mp hpre
    exact h pre b htail

theorem forall_steps_nil {C : List (Act ρ) → Act ρ → Prop} :
    (∀ pre b, pre ++ [b] <+: [] → C pre b) ↔ True := by
  refine iff_true_intro fun pre b hpre => ?_
  simp at hpre

theorem mem_set {t' : τ} {l : List τ} {i : Nat} {x : τ} (h : t' ∈ l.set i x) : t' = x ∨ t' ∈ l :=
  (List.mem_or_eq_of_mem_set h).symm

theorem getElem?_concat {l : List τ} {i : Nat} {x t : τ} (h : (l ++ [x])[i]? = some t) :
    l[i]? = some t ∨ i = l.length ∧ x = t := by
  by_cases hi : i < l.length
  · rw [List.getElem?_append_left hi] at h
    exact .inl h
  · rw [List.getElem?_append_right (by omega), List.getElem?_singleton] at h
    split at h
    · exact .inr ⟨by omega, Option.some.inj h⟩
    · cases h

theorem getElem?_set_of_some {l : List τ} {i : Nat} {t : τ} (h : l[i]? = some t) (x : τ) (j : Nat) :
    (l.set i x)[j]? = if j = i then some x else l[j]? := by
  obtain ⟨hi, -⟩ := List.getElem?_eq_some_iff.mp h
  by_cases hij : j = i
  · subst hij; simp [hi]
  · rw [if_neg hij, List.getElem?_set_ne (Ne.symm hij)]

/-- The invariant rule for an invariant `J` of each task and its index: a task's step establishes
its own `J` and keeps those of the others. -/
theorem indexed_induction {J : σ → Nat → τ → Prop} {s : σ} {sched : List (Act ρ)}
    (start : ∀ s i r, J s i (S.start r))
    (step : ∀ s i t, J s i t → J (S.step i t s).2 i (S.step i t s).1)
    (stable : ∀ s i t j u, i ≠ j → J s i t → J s j u → J (S.step i t s).2 j u) :
    ∀ i t, (S.run (init s) sched).tasks[i]? = some t → J (S.run (init s) sched).store i t := by
  refine run_induction (Q := fun _ => True)
    (I := fun p => ∀ i t, p.tasks[i]? = some t → J p.store i t) ?_ (fun _ _ => trivial) ?_ ?_
  · simp [init]
  · intro p r _ hj i t ht
    rcases getElem?_concat ht with ht | ⟨-, rfl⟩
    · exact hj i t ht
    · exact start _ _ r
  · intro p i t hit hj j u hu
    have hu' := getElem?_set_of_some hit (S.step i t p.store).1 j
    by_cases hij : j = i
    · subst hij
      rw [if_pos rfl] at hu'
      obtain rfl := Option.mem_unique hu' hu
      exact step _ _ _ (hj j t hit)
    · rw [if_neg hij] at hu'
      exact stable _ i t j u (Ne.symm hij) (hj i t hit) (hj j u (hu'.symm.trans hu))

/-- The invariant rule for an invariant `I` of the store and an invariant `J` of each task: a
task's step keeps `I`, establishes its own `J`, and keeps every `J` (`stable`). -/
theorem tasks_induction {I : σ → Prop} {J : σ → τ → Prop} {Q : ρ → Prop} {s : σ}
    {sched : List (Act ρ)} (hs : I s) (hQ : ∀ r ∈ submitted sched, Q r)
    (start : ∀ s r, Q r → I s → J s (S.start r))
    (step : ∀ i t s, I s → J s t → I (S.step i t s).2 ∧ J (S.step i t s).2 (S.step i t s).1)
    (stable : ∀ i t s u, I s → J s t → J s u → J (S.step i t s).2 u) :
    I (S.run (init s) sched).store ∧
      ∀ t ∈ (S.run (init s) sched).tasks, J (S.run (init s) sched).store t := by
  refine run_induction (I := fun p => I p.store ∧ ∀ t ∈ p.tasks, J p.store t)
    ⟨hs, by simp [init]⟩ hQ ?_ ?_
  · rintro p r hr ⟨hi, hj⟩
    refine ⟨hi, fun t ht => ?_⟩
    rcases List.mem_append.mp ht with ht | ht
    · exact hj t ht
    · obtain rfl := List.mem_singleton.mp ht
      exact start _ r hr hi
  · rintro p i t hit ⟨hi, hj⟩
    have ht := hj t (List.mem_of_getElem? hit)
    obtain ⟨hi', ht'⟩ := step i t p.store hi ht
    refine ⟨hi', fun u hu => ?_⟩
    rcases mem_set hu with rfl | hu
    · exact ht'
    · exact stable i t p.store u hi ht (hj u hu)

/-- A task with an answer stays when a task takes a step. -/
theorem mem_set_of_answered {l : List τ} {i : Nat} {t u : τ} {s : σ} (hu : l[i]? = some u)
    (ht : t ∈ l) (ha : (S.answer t).isSome) : t ∈ l.set i (S.step i u s).1 := by
  obtain ⟨j, hj, rfl⟩ := List.mem_iff_getElem.mp ht
  obtain ⟨hi, rfl⟩ := List.getElem?_eq_some_iff.mp hu
  by_cases hij : i = j
  · subst hij
    rw [S.step_answered i _ s ha, List.set_getElem_self]
    exact ht
  · refine List.mem_iff_getElem.mpr ⟨j, by simpa using hj, ?_⟩
    rw [List.getElem_set_ne hij]

/-! ## Requests and answers -/

/-- The tasks' requests are those that arrived. -/
theorem requests_run (p : Pool σ τ) (sched : List (Act ρ)) :
    (S.run p sched).tasks.map S.request = p.tasks.map S.request ++ submitted sched := by
  induction sched generalizing p with
  | nil => simp [submitted]
  | cons a sched ih =>
    show (S.run (S.act p a) sched).tasks.map S.request = _
    rw [ih]
    cases a with
    | submit r => simp [act, submitted, S.request_start]
    | advance i =>
      cases h : p.tasks[i]? with
      | none => rw [act_advance_none h]; rfl
      | some t =>
        rw [act_advance h]
        obtain ⟨hi, rfl⟩ := List.getElem?_eq_some_iff.mp h
        simp only [submitted, List.map_set, S.request_step]
        congr 1
        have hi' : i < (p.tasks.map S.request).length := by simpa using hi
        rw [show S.request p.tasks[i] = (p.tasks.map S.request)[i] by simp]
        exact List.set_getElem_self hi'

/-- The requests of the tasks of a run that starts with none. -/
theorem requests_init (s : σ) (sched : List (Act ρ)) :
    (S.run (init s) sched).tasks.map S.request = submitted sched := by
  rw [requests_run]; rfl

theorem length_run (s : σ) (sched : List (Act ρ)) :
    (S.run (init s) sched).tasks.length = (submitted sched).length := by
  rw [← requests_init (S := S) s, List.length_map]

/-- A task with an answer never changes. -/
theorem answered_run {p : Pool σ τ} {sched : List (Act ρ)} {i : Nat} {t : τ}
    (h : p.tasks[i]? = some t) (ha : (S.answer t).isSome) :
    (S.run p sched).tasks[i]? = some t := by
  refine run_induction (S := S) (Q := fun _ => True) (I := fun q => q.tasks[i]? = some t) h
    (fun _ _ => trivial) ?_ ?_
  · intro q r _ hq
    exact List.getElem?_append_left (List.getElem?_eq_some_iff.mp hq).1 ▸ hq
  · intro q j u hu hq
    show (q.tasks.set j _)[i]? = some t
    rw [getElem?_set_of_some hu]
    split
    · rename_i hij
      subst hij
      obtain rfl := Option.mem_unique hu hq
      rw [S.step_answered _ _ _ ha]
    · exact hq

/-- The request of the task with the index `i` is the `i`-th that arrived. -/
theorem getElem?_submitted {s : σ} {sched : List (Act ρ)} {i : Nat} {t : τ}
    (h : (S.run (init s) sched).tasks[i]? = some t) :
    (submitted sched)[i]? = some (S.request t) := by
  rw [← requests_init (S := S) s, List.getElem?_map, h]
  rfl

theorem request_mem {s : σ} {sched : List (Act ρ)} {t : τ}
    (h : t ∈ (S.run (init s) sched).tasks) : S.request t ∈ submitted sched := by
  rw [← requests_init (S := S) s]
  exact List.mem_map_of_mem h

/-! ## Completion -/

theorem sum_set_lt {f : τ → Nat} {l : List τ} {i : Nat} {t x : τ} (h : l[i]? = some t)
    (hlt : f x < f t) : ((l.set i x).map f).sum < (l.map f).sum := by
  induction l generalizing i with
  | nil => cases h
  | cons u l ih =>
    cases i with
    | zero =>
      obtain rfl := Option.some.inj h
      simp only [List.set_cons_zero, List.map_cons, List.sum_cons]
      omega
    | succ i =>
      have := ih (i := i) h
      simp only [List.set_cons_succ, List.map_cons, List.sum_cons]
      omega

/-- If each step of a task without an answer brings it nearer to one, every run can be continued,
with no new requests, to one in which all requests are answered. -/
theorem exists_completion {left : τ → Nat}
    (hstep : ∀ i t s, S.answer t = none → left (S.step i t s).1 < left t) (p : Pool σ τ) :
    ∃ post, submitted post = [] ∧ ∀ t ∈ (S.run p post).tasks, (S.answer t).isSome := by
  induction hn : (p.tasks.map left).sum using Nat.strongRecOn generalizing p with
  | _ n ih =>
    by_cases hall : ∀ t ∈ p.tasks, (S.answer t).isSome
    · exact ⟨[], rfl, hall⟩
    · obtain ⟨t, ht, hnone⟩ : ∃ t ∈ p.tasks, S.answer t = none := by simpa using hall
      obtain ⟨i, hi⟩ := List.mem_iff_getElem?.mp ht
      have hlt := sum_set_lt hi (hstep i t p.store hnone)
      obtain ⟨post, hsub, hdone⟩ :=
        ih _ (hn ▸ hlt) (S.act p (.advance i)) (by rw [act_advance hi])
      exact ⟨.advance i :: post, hsub, hdone⟩

/-! ## Sums over the steps of some tasks -/

/-- The invariant rule with the running `tally`. -/
theorem tally_induction {M : Pool σ τ → Int → Prop} {b : ρ → Bool} {m : σ → Int} {p : Pool σ τ}
    {sched : List (Act ρ)} {n : Int} (hp : M p n)
    (submit : ∀ p n r, M p n → M { p with tasks := p.tasks ++ [S.start r] } n)
    (advance : ∀ p n i t, p.tasks[i]? = some t → M p n →
      M ⟨(S.step i t p.store).2, p.tasks.set i (S.step i t p.store).1⟩
        (n + if b (S.request t) then m (S.step i t p.store).2 - m p.store else 0)) :
    M (S.run p sched) (n + S.tally b m p sched) := by
  induction sched generalizing p n with
  | nil => simpa [tally] using hp
  | cons a sched ih =>
    show M (S.run (S.act p a) sched) _
    cases a with
    | submit r => simpa [tally, act] using ih (submit p n r hp)
    | advance i =>
      cases h : p.tasks[i]? with
      | none =>
        have := ih hp
        simpa [tally, h, act_advance_none h] using this
      | some t =>
        have := ih (advance p n i t h hp)
        simp only [tally, h, act_advance h, Option.any_some, Int.add_assoc] at this ⊢
        exact this

end Sys
