import UsageBilling.Lib.Pool
import Mathlib.Data.List.Range
import Mathlib.Data.List.Perm.Lattice

/-!
# Linearizability by decision points

A system of tasks is linearizable if each request takes effect at one step of its task: there the
answer is decided, and the abstract state changes as if the request ran alone.

* `sequential`: requests one after the other.
* `Sys.Decisions`: the proof obligations for each step of a system.
* `Decisions.linearizable`: if all requests of a schedule are answered, one order of them, which
  agrees with real time, gives each the same answer when they run one after the other.
* `Decisions.act_effect`: what one action does, for the invariants of a client of the system.
  `effect_induction`: the invariant rule that follows from it.
* `Serial`, `Decisions.serializable`: the same without real time, as a relation for inductions over
  the tasks.
-/

section Sequential

variable {ρ β α : Type}

/-- The requests one after the other, from the state `b`: the answers and the last state. -/
def sequential (apply : ρ → β → α × β) : List ρ → β → List α × β
  | [], b => ([], b)
  | r :: rs, b =>
    ((apply r b).1 :: (sequential apply rs (apply r b).2).1,
      (sequential apply rs (apply r b).2).2)

theorem sequential_append (apply : ρ → β → α × β) (rs rs' : List ρ) (b : β) :
    sequential apply (rs ++ rs') b =
      ((sequential apply rs b).1 ++ (sequential apply rs' (sequential apply rs b).2).1,
        (sequential apply rs' (sequential apply rs b).2).2) := by
  induction rs generalizing b with
  | nil => rfl
  | cons r rs ih => simp only [List.cons_append, sequential, ih]

theorem sequential_concat {apply : ρ → β → α × β} {rs : List ρ} {r : ρ} {b b' b'' : β}
    {as : List α} {a : α} (h : sequential apply rs b = (as, b')) (ha : apply r b' = (a, b'')) :
    sequential apply (rs ++ [r]) b = (as ++ [a], b'') := by
  rw [sequential_append, h]
  simp only [sequential, ha]

end Sequential

namespace Sys

variable {σ ρ τ α β : Type} {S : Sys σ ρ τ α} {apply : ρ → β → α × β}

/-- From `b` to `b'` the requests of the tasks ran one after the other, and these are their
answers. -/
inductive Serial (S : Sys σ ρ τ α) (apply : ρ → β → α × β) : β → List τ → β → Prop
  | nil (b : β) : Serial S apply b [] b
  | cons {b b' : β} {t : τ} {ts : List τ} (ha : S.answer t = some (apply (S.request t) b).1)
      (h : Serial S apply (apply (S.request t) b).2 ts b') : Serial S apply b (t :: ts) b'

theorem Serial.of_sequential {b b' : β} {ts : List τ} {as : List α}
    (h : sequential apply (ts.map S.request) b = (as, b')) (ha : ts.map S.answer = as.map some) :
    S.Serial apply b ts b' := by
  induction ts generalizing b as with
  | nil =>
    obtain ⟨rfl, rfl⟩ := Prod.mk.inj h
    exact .nil b
  | cons t ts ih =>
    obtain ⟨rfl, hs⟩ := Prod.mk.inj h
    obtain ⟨hat, hats⟩ := List.cons.inj ha
    exact .cons hat (ih (Prod.ext rfl hs) hats)

/-- Where the requests of `S` take effect on the abstract state. `decided s t` is the answer of
the task `t` if it is already fixed in the store `s`; `Ok` is an invariant of each task. -/
structure Decisions (S : Sys σ ρ τ α) (apply : ρ → β → α × β) where
  abs : σ → β
  decided : σ → τ → Option α
  Ok : σ → Nat → τ → Prop
  ok_start : ∀ s i r, Ok s i (S.start r)
  ok_step : ∀ s i t, Ok s i t → Ok (S.step i t s).2 i (S.step i t s).1
  ok_stable : ∀ s i t j u, i ≠ j → Ok s i t → Ok s j u → Ok (S.step i t s).2 j u
  decided_start : ∀ s r, decided s (S.start r) = none
  decided_answer : ∀ s t a, S.answer t = some a → decided s t = some a
  /-- A step decides nothing for the other tasks. -/
  decided_stable : ∀ s i t j u, i ≠ j → Ok s i t → Ok s j u →
    decided (S.step i t s).2 u = decided s u
  /-- A step changes nothing, or it decides the answer of its task: that of the request on the
  abstract state. -/
  point : ∀ s i t, Ok s i t →
    (decided (S.step i t s).2 (S.step i t s).1 = decided s t ∧ abs (S.step i t s).2 = abs s) ∨
    decided s t = none ∧ ∃ a, decided (S.step i t s).2 (S.step i t s).1 = some a ∧
      apply (S.request t) (abs s) = (a, abs (S.step i t s).2)

namespace Decisions

variable (D : Decisions S apply)

/-- The answer decided for the task with index `i`. -/
def decidedAt (p : Pool σ τ) (i : Nat) : Option α := (p.tasks[i]?).bind (D.decided p.store)

/-- `order` lists the tasks in the order of their decisions in a run, and `as` the answers. -/
structure Order (s : σ) (sched : List (Act ρ)) (order : List Nat) (as : List α) : Prop where
  nodup : order.Nodup
  mem : ∀ i, i ∈ order ↔ (D.decidedAt (S.run (init s) sched) i).isSome
  seq : sequential apply (order.filterMap ((submitted sched)[·]?)) (D.abs s) =
    (as, D.abs (S.run (init s) sched).store)
  answers : order.map (D.decidedAt (S.run (init s) sched)) = as.map some
  /-- A task answered before another one arrived is in front of it. -/
  realTime : ∀ pre, pre <+: sched → ∀ a b t, (S.run (init s) pre).tasks[a]? = some t →
    (S.answer t).isSome → (S.run (init s) pre).tasks.length ≤ b → b ∈ order →
    [a, b].Sublist order

variable {D} {s : σ} {sched : List (Act ρ)} {order : List Nat} {as : List α}

theorem ok_run (D : Decisions S apply) {i : Nat} {t : τ}
    (h : (S.run (init s) sched).tasks[i]? = some t) : D.Ok (S.run (init s) sched).store i t :=
  indexed_induction D.ok_start D.ok_step D.ok_stable i t h

/-- An answered task of an earlier state has a decided answer. -/
theorem decidedAt_of_answered (D : Decisions S apply) {pre : List (Act ρ)} (hpre : pre <+: sched)
    {a : Nat} {t : τ} (ht : (S.run (init s) pre).tasks[a]? = some t) (ha : (S.answer t).isSome) :
    (D.decidedAt (S.run (init s) sched) a).isSome := by
  obtain ⟨post, rfl⟩ := hpre
  obtain ⟨answer, hans⟩ := Option.isSome_iff_exists.mp ha
  have hlast : (S.run (S.run (init s) pre) post).tasks[a]? = some t := answered_run ht ha
  rw [run_append, decidedAt, hlast]
  simp [D.decided_answer _ _ _ hans]

/-- Only tasks that have arrived are in the order. -/
theorem Order.lt_length (h : D.Order s sched order as) {i : Nat} (hi : i ∈ order) :
    i < (submitted sched).length := by
  have hsome := (h.mem i).mp hi
  rw [← length_run (S := S) s]
  by_contra hge
  rw [decidedAt, List.getElem?_eq_none (by omega)] at hsome
  cases hsome

/-- A prefix of a schedule with one more action. -/
theorem prefix_concat {pre : List (Act ρ)} {act : Act ρ} (h : pre <+: sched ++ [act]) :
    pre <+: sched ∨ pre = sched ++ [act] := by
  rcases List.prefix_concat_iff.mp h with h | h
  · exact .inr h
  · exact .inl h

/-- An action that decides nothing keeps the order. -/
theorem Order.keep (h : D.Order s sched order as) {act : Act ρ}
    (hdec : D.decidedAt (S.act (S.run (init s) sched) act) =
      D.decidedAt (S.run (init s) sched))
    (habs : D.abs (S.act (S.run (init s) sched) act).store = D.abs (S.run (init s) sched).store) :
    D.Order s (sched ++ [act]) order as where
  nodup := h.nodup
  mem i := by rw [run_concat, hdec]; exact h.mem i
  seq := by
    have hreq : order.filterMap ((submitted (sched ++ [act]))[·]?) =
        order.filterMap ((submitted sched)[·]?) := by
      refine List.filterMap_congr fun i hi => ?_
      rw [submitted_append, List.getElem?_append_left (h.lt_length hi)]
    rw [hreq, run_concat, habs]
    exact h.seq
  answers := by rw [run_concat, hdec]; exact h.answers
  realTime pre hpre a b t ht ha hb hmem := by
    rcases prefix_concat hpre with hpre | rfl
    · exact h.realTime pre hpre a b t ht ha hb hmem
    · -- no task has arrived since
      have hlt := h.lt_length hmem
      rw [length_run, submitted_append, List.length_append] at hb
      omega

/-- A step that decides the answer `a` of its task puts the task at the end of the order. -/
theorem Order.extend (h : D.Order s sched order as) {i : Nat} {t : τ} {a : α}
    (ht : (S.run (init s) sched).tasks[i]? = some t)
    (hnone : D.decidedAt (S.run (init s) sched) i = none)
    (hsome : D.decidedAt (S.act (S.run (init s) sched) (.advance i)) i = some a)
    (hne : ∀ j, j ≠ i → D.decidedAt (S.act (S.run (init s) sched) (.advance i)) j =
      D.decidedAt (S.run (init s) sched) j)
    (happ : apply (S.request t) (D.abs (S.run (init s) sched).store) =
      (a, D.abs (S.act (S.run (init s) sched) (.advance i)).store)) :
    D.Order s (sched ++ [.advance i]) (order ++ [i]) (as ++ [a]) := by
  have hi : i ∉ order := fun hi => by
    have := (h.mem i).mp hi
    rw [hnone] at this
    cases this
  have hsub : submitted (sched ++ [Act.advance i]) = submitted sched := by
    rw [submitted_append]
    exact List.append_nil _
  have hreq : (submitted sched)[i]? = some (S.request t) := getElem?_submitted ht
  refine ⟨?_, ?_, ?_, ?_, ?_⟩
  · exact List.nodup_append.mpr ⟨h.nodup, List.nodup_singleton i, fun j hj k hk hjk =>
      hi (List.mem_singleton.mp hk ▸ hjk ▸ hj)⟩
  · intro j
    rw [run_concat]
    by_cases hj : j = i
    · subst hj; simp [hsome]
    · rw [hne j hj, ← h.mem j]
      simp [hj]
  · rw [hsub, run_concat, List.filterMap_append]
    have hlast : [i].filterMap ((submitted sched)[·]?) = [S.request t] := by simp [hreq]
    rw [hlast]
    exact sequential_concat h.seq happ
  · rw [run_concat, List.map_append, List.map_append, ← h.answers, List.map_singleton, hsome,
      List.map_singleton]
    congr 1
    exact List.map_congr_left fun j hj => hne j fun hji => hi (hji ▸ hj)
  · intro pre hpre b c u hu ha hc hmem
    rcases List.mem_append.mp hmem with hmem | hmem
    · rcases prefix_concat hpre with hpre | rfl
      · exact (h.realTime pre hpre b c u hu ha hc hmem).trans (List.sublist_append_left _ _)
      · have hlt := h.lt_length hmem
        rw [length_run, hsub] at hc
        omega
    · obtain rfl := List.mem_singleton.mp hmem
      rcases prefix_concat hpre with hpre | rfl
      · have hb := (h.mem b).mpr (D.decidedAt_of_answered hpre hu ha)
        exact List.Sublist.append (List.singleton_sublist.mpr hb) (List.Sublist.refl _)
      · have hlt := (List.getElem?_eq_some_iff.mp hreq).1
        rw [length_run, hsub] at hc
        omega

/-- A new task decides nothing. -/
theorem decidedAt_submit (D : Decisions S apply) (p : Pool σ τ) (r : ρ) :
    D.decidedAt (S.act p (.submit r)) = D.decidedAt p := by
  funext i
  show ((p.tasks ++ [S.start r])[i]?).bind _ = _
  cases hi : (p.tasks ++ [S.start r])[i]? with
  | none =>
    have hlen := List.getElem?_eq_none_iff.mp hi
    rw [List.length_append] at hlen
    rw [decidedAt, List.getElem?_eq_none (by omega)]
    rfl
  | some t =>
    rcases getElem?_concat hi with ht | ⟨rfl, rfl⟩
    · rw [decidedAt, ht]; rfl
    · rw [decidedAt, List.getElem?_eq_none (Nat.le_refl _)]
      exact D.decided_start _ r

theorem decidedAt_some {p : Pool σ τ} {i : Nat} {t : τ} (hi : p.tasks[i]? = some t) :
    D.decidedAt p i = D.decided p.store t := by
  rw [decidedAt, hi]; rfl

/-- What a step decides for its own task. -/
theorem decidedAt_self {p : Pool σ τ} {i : Nat} {t : τ} (hi : p.tasks[i]? = some t) :
    D.decidedAt (S.act p (.advance i)) i =
      D.decided (S.step i t p.store).2 (S.step i t p.store).1 := by
  rw [act_advance hi, decidedAt, getElem?_set_of_some hi, if_pos rfl]
  rfl

/-- A step of a run decides nothing for the other tasks. -/
theorem decidedAt_ne {i j : Nat} {t : τ} (hi : (S.run (init s) sched).tasks[i]? = some t)
    (hj : j ≠ i) : D.decidedAt (S.act (S.run (init s) sched) (.advance i)) j =
      D.decidedAt (S.run (init s) sched) j := by
  rw [act_advance hi, decidedAt, decidedAt, getElem?_set_of_some hi, if_neg hj]
  cases hu : (S.run (init s) sched).tasks[j]? with
  | none => rfl
  | some u => exact D.decided_stable _ i t j u (Ne.symm hj) (D.ok_run hi) (D.ok_run hu)

/-- Every run has an order of decisions. -/
theorem exists_order (D : Decisions S apply) (s : σ) (sched : List (Act ρ)) :
    ∃ order as, D.Order s sched order as := by
  induction sched using List.reverseRecOn with
  | nil =>
    refine ⟨[], [], List.nodup_nil, ?_, rfl, rfl, ?_⟩
    · intro i
      simp [decidedAt, init]
    · intro _ _ a b _ _ _ _ hb
      cases hb
  | append_singleton sched act ih =>
    obtain ⟨order, as, h⟩ := ih
    cases act with
    | submit r => exact ⟨order, as, h.keep (D.decidedAt_submit _ r) rfl⟩
    | advance i =>
      cases hi : (S.run (init s) sched).tasks[i]? with
      | none =>
        have hact := act_advance_none (S := S) hi
        exact ⟨order, as, h.keep (by rw [hact]) (by rw [hact])⟩
      | some t =>
        have hself := decidedAt_self (D := D) hi
        have hold := decidedAt_some (D := D) hi
        rcases D.point _ i t (D.ok_run hi) with ⟨hdec, habs⟩ | ⟨hnone, a, hsome, happ⟩
        · refine ⟨order, as, h.keep ?_ (by rw [act_advance hi]; exact habs)⟩
          funext j
          by_cases hj : j = i
          · subst hj; rw [hself, hdec, hold]
          · exact decidedAt_ne hi hj
        · exact ⟨order ++ [i], as ++ [a], h.extend hi (hold.trans hnone) (hself.trans hsome)
            (fun j hj => decidedAt_ne hi hj) (by rw [act_advance hi]; exact happ)⟩

/-- If every request of the schedule is answered, there is one order of the requests that agrees
with real time, and the requests one after the other in that order get the same answers and leave
the same state. -/
theorem linearizable (D : Decisions S apply) (s : σ) (sched : List (Act ρ))
    (hall : ∀ t ∈ (S.run (init s) sched).tasks, (S.answer t).isSome) :
    ∃ order as, order.Perm (List.range (submitted sched).length) ∧
      (∀ pre, pre <+: sched → ∀ a b t, (S.run (init s) pre).tasks[a]? = some t →
        (S.answer t).isSome → (submitted pre).length ≤ b → b < (submitted sched).length →
        [a, b].Sublist order) ∧
      sequential apply (order.filterMap ((submitted sched)[·]?)) (D.abs s) =
        (as, D.abs (S.run (init s) sched).store) ∧
      order.map (fun i => ((S.run (init s) sched).tasks[i]?).bind S.answer) = as.map some := by
  obtain ⟨order, as, h⟩ := D.exists_order s sched
  have hdec : ∀ i, i < (submitted sched).length →
      (D.decidedAt (S.run (init s) sched) i).isSome ∧
      ((S.run (init s) sched).tasks[i]?).bind S.answer =
        D.decidedAt (S.run (init s) sched) i := fun i hi => by
    rw [← length_run (S := S) s] at hi
    obtain ⟨a, ha⟩ := Option.isSome_iff_exists.mp (hall _ (List.getElem_mem hi))
    rw [decidedAt, List.getElem?_eq_getElem hi]
    simp [ha, D.decided_answer _ _ _ ha]
  have hmem : ∀ i, i ∈ order ↔ i < (submitted sched).length := fun i =>
    ⟨h.lt_length, fun hi => (h.mem i).mpr (hdec i hi).1⟩
  refine ⟨order, as, ?_, ?_, h.seq, ?_⟩
  · rw [List.perm_ext_iff_of_nodup h.nodup List.nodup_range]
    simpa using hmem
  · intro pre hpre a b t ht ha hle hlt
    exact h.realTime pre hpre a b t ht ha (by rw [length_run]; exact hle) ((hmem b).mpr hlt)
  · rw [← h.answers]
    exact List.map_congr_left fun i hi => (hdec i ((hmem i).mp hi)).2

theorem filterMap_range (l : List τ) : (List.range l.length).filterMap (l[·]?) = l := by
  induction l using List.reverseRecOn with
  | nil => rfl
  | append_singleton l x ih =>
    have hold : (List.range l.length).filterMap ((l ++ [x])[·]?) = l := by
      rw [List.filterMap_congr (g := (l[·]?)) fun i hi => ?_, ih]
      exact List.getElem?_append_left (List.mem_range.mp hi)
    rw [List.length_append, List.length_singleton, List.range_succ, List.filterMap_append, hold]
    simp

/-- If every request is answered, the answers and the state are those of the tasks one after the
other, in some order. -/
theorem serializable (D : Decisions S apply) (s : σ) (sched : List (Act ρ))
    (hall : ∀ t ∈ (S.run (init s) sched).tasks, (S.answer t).isSome) :
    ∃ tasks : List τ, tasks.Perm (S.run (init s) sched).tasks ∧
      S.Serial apply (D.abs s) tasks (D.abs (S.run (init s) sched).store) := by
  obtain ⟨order, as, hperm, -, hseq, hans⟩ := D.linearizable s sched hall
  have hreq : order.filterMap ((submitted sched)[·]?) =
      (order.filterMap ((S.run (init s) sched).tasks[·]?)).map S.request := by
    rw [List.map_filterMap]
    refine List.filterMap_congr fun i _ => ?_
    rw [← requests_init (S := S) s, List.getElem?_map]
  refine ⟨order.filterMap ((S.run (init s) sched).tasks[·]?), ?_, .of_sequential (hreq ▸ hseq) ?_⟩
  · rw [← length_run (S := S) s] at hperm
    have hall := hperm.filterMap ((S.run (init s) sched).tasks[·]?)
    rwa [filterMap_range] at hall
  · rw [← hans, List.map_filterMap, ← List.filterMap_eq_map]
    refine List.filterMap_congr fun i hi => ?_
    have hlt : i < (S.run (init s) sched).tasks.length := by
      rw [length_run]
      exact List.mem_range.mp (hperm.mem_iff.mp hi)
    obtain ⟨a, ha⟩ := Option.isSome_iff_exists.mp (hall _ (List.getElem_mem hlt))
    simp [List.getElem?_eq_getElem hlt, ha]

/-! ## One action -/

/-- What an action does to what is decided, and to the abstract state. -/
inductive Effect (D : Decisions S apply) (p p' : Pool σ τ) : Prop
  | none (hdec : D.decidedAt p' = D.decidedAt p) (habs : D.abs p'.store = D.abs p.store)
  /-- The request of the task with the index `i` takes effect, with the answer `a`. -/
  | one (i : Nat) (t : τ) (a : α) (hp' : p' = S.act p (.advance i)) (ht : p.tasks[i]? = some t)
      (hnone : D.decidedAt p i = .none)
      (hdec : ∀ j, D.decidedAt p' j = if j = i then some a else D.decidedAt p j)
      (happ : apply (S.request t) (D.abs p.store) = (a, D.abs p'.store))

/-- Nothing happens, or one request takes effect. -/
theorem act_effect (D : Decisions S apply) {p : Pool σ τ}
    (h : ∀ i t, p.tasks[i]? = some t → D.Ok p.store i t) (a : Act ρ) : D.Effect p (S.act p a) := by
  cases a with
  | submit r => exact .none (D.decidedAt_submit p r) rfl
  | advance i =>
    cases hi : p.tasks[i]? with
    | none =>
      rw [act_advance_none hi]
      exact .none rfl rfl
    | some t =>
      have hself := decidedAt_self (D := D) hi
      have hold := decidedAt_some (D := D) hi
      have hne : ∀ j, j ≠ i → D.decidedAt (S.act p (.advance i)) j = D.decidedAt p j := by
        intro j hj
        rw [act_advance hi, decidedAt, decidedAt, getElem?_set_of_some hi, if_neg hj]
        cases hu : p.tasks[j]? with
        | none => rfl
        | some u => exact D.decided_stable _ i t j u (Ne.symm hj) (h i t hi) (h j u hu)
      rcases D.point _ i t (h i t hi) with ⟨hdec, habs⟩ | ⟨hnone, a, hsome, happ⟩
      · refine .none (funext fun j => ?_) (by rw [act_advance hi]; exact habs)
        by_cases hj : j = i
        · rw [hj, hself, hdec, hold]
        · exact hne j hj
      · refine .one i t a rfl hi (hold.trans hnone) (fun j => ?_)
          (by rw [act_advance hi]; exact happ)
        split
        · rename_i hj
          rw [hj, hself, hsome]
        · rename_i hj
          exact hne j hj

/-- The invariant rule for the requests that have arrived, what is decided for them, and the
abstract state. -/
theorem effect_induction (D : Decisions S apply) {I : List ρ → (Nat → Option α) → β → Prop}
    (start : I [] (fun _ => none) (D.abs s))
    (submit : ∀ rs d b r, I rs d b → I (rs ++ [r]) d b)
    (one : ∀ rs d b i r a b', rs[i]? = some r → d i = none → apply r b = (a, b') → I rs d b →
      I rs (fun j => if j = i then some a else d j) b') (sched : List (Act ρ)) :
    I (submitted sched) (D.decidedAt (S.run (init s) sched))
      (D.abs (S.run (init s) sched).store) := by
  induction sched using List.reverseRecOn with
  | nil => exact start
  | append_singleton sched a ih =>
    have heff : D.Effect (S.run (init s) sched) (S.act (S.run (init s) sched) a) :=
      D.act_effect (fun _ _ ht => D.ok_run ht) a
    rw [submitted_append, run_concat]
    cases a with
    | submit r =>
      rw [D.decidedAt_submit]
      exact submit _ _ _ r ih
    | advance i =>
      rw [show submitted [Act.advance (ρ := ρ) i] = [] from rfl, List.append_nil]
      cases heff with
      | none hdec habs =>
        rw [hdec, habs]
        exact ih
      | one k t a _ ht hnone hdec happ =>
        rw [funext hdec]
        exact one _ _ _ k _ a _ (getElem?_submitted ht) hnone happ ih

end Decisions

end Sys
