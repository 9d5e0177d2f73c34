import UsageBilling.Lib.Fair
import UsageBilling.Lib.Script
import UsageBilling.Reseed
import UsageBilling.Serial

/-!
# The seed on a live database

Every `docker compose up` runs the seed again (`backend/docker-entrypoint.sh`), also while the
backends serve. Its statements are no transaction, so the requests, and other runs of the seed, come
in between.

* `seedStatements`: the statements of `seed`; `run_seedStatements`: one after the other, they are
  the seed. `seeding P`: the requests and the runs of the seed, interleaved.
* `seed_alone`: a run of the seed with nothing in between is `seed`.
* `Reseeds`: what a statement of the seed does. `LiveEffect`, `act_effect`: what an action does.
* `LiveOk`: the invariant: no run of the seed has failed, and what a statement wrote is still there.
* `seeding_spares`: what the seed leaves as it is, between any two moments of a run.
* `seeding_resets`: what a run of the seed that has ended has written, and what was lost by it.
-/

namespace UsageBilling

open Sys

/-! ## The statements of the seed -/

/-- A statement of `seed.ts`. -/
inductive SeedStatement where
  | upsertProduct (p : Product)
  | upsertCustomer (c : Customer)
  /-- The `deleteMany` of `seedHeavyHistory`. -/
  | deleteHistory
  /-- The `createMany` of `seedHeavyHistory`. -/
  | createHistory
  deriving DecidableEq

/-- What the statement does to the database. -/
def SeedStatement.run (P : Prisma) : SeedStatement → Db Unit
  | .upsertProduct p => Product.upsert P p
  | .upsertCustomer c => Customer.upsert P c
  | .deleteHistory => LedgerEntry.deleteMany heavyConsumption
  | .createHistory => LedgerEntry.createMany P heavyRows

/-- The statements before the `createMany`. -/
def earlyStatements : List SeedStatement :=
  PRODUCTS.map .upsertProduct ++ CUSTOMERS.map .upsertCustomer ++ [.deleteHistory]

/-- The statements of `seed.ts`, in their order. -/
def seedStatements : List SeedStatement := earlyStatements ++ [.createHistory]

/-- With nothing between them, the statements are the seed. -/
theorem run_seedStatements (P : Prisma) :
    seedStatements.forM (SeedStatement.run P) = seed P := by
  simp only [seedStatements, earlyStatements, seed, seedHeavyHistory, List.forM_eq_forM,
    List.forM_append, List.forM_map, List.forM_cons, List.forM_nil, bind_assoc, bind_pure_unit]
  rfl

/-- A request or a run of the seed, between two of its steps. -/
abbrev SeedingTask := Task ⊕ Script Error

/-- The backends, and runs of the seed. -/
def seeding (P : Prisma) :
    Sys Store (Request ⊕ Unit) SeedingTask (Answer ⊕ Except Error Unit) :=
  (server P).sum (Sys.script seedStatements (SeedStatement.run P))

/-- The state after a schedule of requests, runs of the seed and steps that starts in the store
`s`. -/
abbrev serveSeeding (P : Prisma) (s : Store) (sched : List (Act (Request ⊕ Unit))) :
    Pool Store SeedingTask :=
  (seeding P).run (Sys.init s) sched

/-- With nothing between its statements, a run of the seed is the seed. -/
theorem seed_alone (P : Prisma) (s : Store) : ∃ t : Script Error,
    (Sys.script seedStatements (SeedStatement.run P)).run (Sys.init s)
        (.submit () :: List.replicate seedStatements.length (.advance 0)) =
      ⟨((seed P).run s).2, [t]⟩ ∧ t.answer seedStatements = some ((seed P).run s).1 := by
  rw [← run_seedStatements]
  exact script_alone s

/-- The statement of the seed that the action runs. -/
def reseedBy (p : Pool Store SeedingTask) : Act (Request ⊕ Unit) → Option SeedStatement
  | .submit _ => none
  | .advance i => (p.tasks[i]?).bind fun
    | .inl _ => none
    | .inr t => t.next? seedStatements

/-- The row that the action posts, if it is the step of a request that posts one. -/
def postedBy (P : Prisma) (p : Pool Store SeedingTask) : Act (Request ⊕ Unit) → List LedgerEntry
  | .submit _ => []
  | .advance i =>
    match p.tasks[i]? with
    | some (.inl t) => (t.step P p.store).2.ledger.drop p.store.ledger.length
    | _ => []

/-- The rows that the requests post, in order. -/
def posted (P : Prisma) (p : Pool Store SeedingTask) (sched : List (Act (Request ⊕ Unit))) :
    List LedgerEntry :=
  (seeding P).trace (postedBy P) p sched

/-! ## What an action does -/

/-- From `s` to `s'` a statement of the seed ran. -/
inductive Reseeds (P : Prisma) (s : Store) : SeedStatement → Store → Prop
  | product (p : Product) (hp : p ∈ PRODUCTS) :
      Reseeds P s (.upsertProduct p) (s.withProducts (s.products.upsert p))
  | customer (c : Customer) (hc : c ∈ CUSTOMERS)
      (h : ∀ c' ∈ (s.customers.upsert c).rows, 0 ≤ c'.balance) :
      Reseeds P s (.upsertCustomer c) (s.withCustomers (s.customers.upsert c) h)
  | deleted : Reseeds P s .deleteHistory (s.deleteEntries heavyConsumption)
  | created (s' : Store) (h : Appended s heavyRows s') : Reseeds P s .createHistory s'

/-- What an action posts, which statement of the seed it runs, and the store it leaves. -/
inductive LiveEffect (P : Prisma) (s : Store) :
    List LedgerEntry → Option SeedStatement → Store → Prop
  | same : LiveEffect P s [] none s
  | posted (e : LedgerEntry) (s' : Store) (h : Posted P s e s') : LiveEffect P s [e] none s'
  | reseeded (b : SeedStatement) (s' : Store) (h : Reseeds P s b s') :
      LiveEffect P s [] (some b) s'

/-- What the statement wrote, as far as it stays. -/
def SeedStatement.Held (s : Store) : SeedStatement → Prop
  | .upsertProduct p => s.products.find? p.id = some p
  | .upsertCustomer c => (s.customers.find? c.id).isSome
  | .deleteHistory | .createHistory => True

/-- What holds of a task in every reachable state. -/
def SeedingTask.Ok (s : Store) : SeedingTask → Prop
  | .inl t => ∀ e, t.answer = some (.ok e) → heavyConsumption e = false → e ∈ s.ledger
  | .inr t => t.error = none ∧ ∀ b ∈ seedStatements.take t.done, b.Held s

section Effects

variable {P : Prisma} {s s' : Store} {es : List LedgerEntry} {b b' : SeedStatement}
  {o : Option SeedStatement}

theorem mem_seedStatements_product {p : Product}
    (h : .upsertProduct p ∈ seedStatements) : p ∈ PRODUCTS := by
  simpa [seedStatements, earlyStatements] using h

theorem mem_seedStatements_customer {c : Customer}
    (h : .upsertCustomer c ∈ seedStatements) : c ∈ CUSTOMERS := by
  simpa [seedStatements, earlyStatements] using h

theorem createHistory_not_early : SeedStatement.createHistory ∉ earlyStatements := by
  simp [earlyStatements]

/-- The rows that the seed writes are consumptions of the heavy customer. -/
theorem Appended.filter_other (h : Appended s heavyRows s') :
    (s'.ledger.filter fun e => !heavyConsumption e) =
      s.ledger.filter fun e => !heavyConsumption e := by
  obtain ⟨es, hledger, hdata, -⟩ := h.ledger
  have hnil : (es.filter fun e => !heavyConsumption e) = [] := by
    refine List.filter_eq_nil_iff.mpr fun e he => ?_
    simp [heavyConsumption_of_data hdata e he]
  rw [hledger, List.filter_append, hnil, List.append_nil]

/-- The seed leaves the rows alone that are no consumptions of the heavy customer. -/
theorem Reseeds.filter_other (h : Reseeds P s b s') :
    (s'.ledger.filter fun e => !heavyConsumption e) =
      s.ledger.filter fun e => !heavyConsumption e := by
  cases h with
  | product | customer => rfl
  | deleted =>
    rw [deleteEntries_ledger, List.filter_filter]
    simp
  | created _ h => exact h.filter_other

theorem LiveEffect.filter_other (h : LiveEffect P s es o s') :
    (s'.ledger.filter fun e => !heavyConsumption e) =
      (s.ledger.filter fun e => !heavyConsumption e) ++
        es.filter fun e => !heavyConsumption e := by
  cases h with
  | same => simp
  | posted e _ h => rw [h.ledger, List.filter_append]
  | reseeded b _ h => rw [h.filter_other]; simp

/-- A row stays that is no consumption of the heavy customer. -/
theorem LiveEffect.mem_other (h : LiveEffect P s es o s') {e : LedgerEntry} (he : e ∈ s.ledger)
    (hno : heavyConsumption e = false) : e ∈ s'.ledger := by
  have hmem : e ∈ s.ledger.filter fun e => !heavyConsumption e :=
    List.mem_filter.mpr ⟨he, by simp [hno]⟩
  have := h.filter_other ▸ List.mem_append_left _ hmem
  exact (List.mem_filter.mp this).1

/-- If the statement deletes nothing, every row stays. -/
theorem LiveEffect.mem_of_kept (h : LiveEffect P s es o s') (ho : o ≠ some .deleteHistory)
    {e : LedgerEntry} (he : e ∈ s.ledger ++ es) : e ∈ s'.ledger := by
  cases h with
  | same => simpa using he
  | posted e' _ h => rwa [h.ledger]
  | reseeded b _ h =>
    rw [List.append_nil] at he
    cases h with
    | product | customer => exact he
    | deleted => exact absurd rfl ho
    | created _ h =>
      obtain ⟨es, hledger, -⟩ := h.ledger
      rw [hledger]
      exact List.mem_append_left _ he

/-- The counter never goes back, and new rows have ids above it. -/
theorem LiveEffect.fresh (h : LiveEffect P s es o s') : s.seq ≤ s'.seq ∧
    (∀ e ∈ es, s.seq < e.id ∧ e.id ≤ s'.seq) ∧
    ∀ e ∈ s'.ledger, e ∈ s.ledger ∨ s.seq < e.id := by
  cases h with
  | same => exact ⟨Nat.le_refl _, by simp, fun e he => .inl he⟩
  | posted e _ h =>
    have hlt := h.seq_lt
    have hseq := h.seq
    refine ⟨by omega, fun e' he' => ?_, fun e' he' => ?_⟩
    · obtain rfl := List.mem_singleton.mp he'
      omega
    rw [h.ledger] at he'
    rcases List.mem_append.mp he' with he' | he'
    · exact .inl he'
    · obtain rfl := List.mem_singleton.mp he'
      exact .inr h.seq_lt
  | reseeded b _ h =>
    cases h with
    | product | customer => exact ⟨Nat.le_refl _, by simp, fun e he => .inl he⟩
    | deleted => exact ⟨Nat.le_refl _, by simp, fun e he => .inl (List.mem_filter.mp he).1⟩
    | created _ h =>
      obtain ⟨es, hledger, -, hid⟩ := h.ledger
      refine ⟨h.seq_le, by simp, fun e he => ?_⟩
      rw [hledger] at he
      exact (List.mem_append.mp he).imp_right (hid e)

/-- An action moves a balance by the amounts that it posts, unless it sets it. -/
theorem LiveEffect.balance (h : LiveEffect P s es o s') {id : String}
    (ho : ∀ c, o = some (.upsertCustomer c) → c.id ≠ id) :
    s'.customers.find? id = (s.customers.find? id).map fun c =>
      { c with balance := c.balance + (amountsOf id es).sum } := by
  cases h with
  | same => cases s.customers.find? id <;> simp
  | posted e _ h => exact (Postings.one h).find? id
  | reseeded b _ h =>
    have hsame : s'.customers.find? id = s.customers.find? id := by
      cases h with
      | product | deleted => rfl
      | customer c => exact (Table.find?_upsert ..).trans (if_neg (Ne.symm (ho c rfl)))
      | created _ h => rw [h.customers]
    rw [hsame]
    cases s.customers.find? id <;> simp

/-- An action changes no product but by an upsert. -/
theorem LiveEffect.products (h : LiveEffect P s es o s') {id : String}
    (ho : ∀ p, o = some (.upsertProduct p) → p.id ≠ id) :
    s'.products.find? id = s.products.find? id := by
  cases h with
  | same => rfl
  | posted e _ h => rw [h.products]
  | reseeded b _ h =>
    cases h with
    | product p => exact (Table.find?_upsert ..).trans (if_neg (Ne.symm (ho p rfl)))
    | customer | deleted => rfl
    | created _ h => rw [h.products]

theorem Reseeds.held (h : Reseeds P s b s') : b.Held s' := by
  cases h with
  | product p => exact (Table.find?_upsert ..).trans (if_pos rfl)
  | customer c => exact Option.isSome_iff_exists.mpr ⟨c, (Table.find?_upsert ..).trans (if_pos rfl)⟩
  | deleted | created => trivial

theorem LiveEffect.reseeds (h : LiveEffect P s es (some b) s') : Reseeds P s b s' := by
  cases h with
  | reseeded _ _ h => exact h

theorem LiveEffect.find?_isSome (h : LiveEffect P s es o s') {id : String}
    (hsome : (s.customers.find? id).isSome) : (s'.customers.find? id).isSome := by
  by_cases ho : ∀ c, o = some (.upsertCustomer c) → c.id ≠ id
  · rwa [h.balance ho, Option.isSome_map]
  · simp only [not_forall, not_not] at ho
    obtain ⟨c, rfl, rfl⟩ := ho
    exact h.reseeds.held

/-- What a statement of the seed wrote stays: all runs of the seed write the same products. -/
theorem LiveEffect.held (h : LiveEffect P s es o s') (hb : b ∈ seedStatements) (hheld : b.Held s) :
    b.Held s' := by
  match b, hheld with
  | .upsertCustomer c, hheld => exact h.find?_isSome hheld
  | .deleteHistory, _ | .createHistory, _ => trivial
  | .upsertProduct p, hheld =>
    show s'.products.find? p.id = some p
    by_cases ho : ∀ p', o = some (.upsertProduct p') → p'.id ≠ p.id
    · rw [h.products ho]
      exact hheld
    · simp only [not_forall, not_not] at ho
      obtain ⟨p', rfl, hid⟩ := ho
      have hp := mem_seedStatements_product hb
      have hfind : s'.products.find? p'.id = some p' := h.reseeds.held
      cases h.reseeds with
      | product _ hp' =>
        obtain rfl := List.inj_on_of_nodup_map products_nodup hp' hp hid
        exact hfind

theorem LiveEffect.ok (h : LiveEffect P s es o s') {t : SeedingTask} (hok : t.Ok s) : t.Ok s' := by
  cases t with
  | inl t => exact fun e ha hno => h.mem_other (hok e ha hno) hno
  | inr t =>
    exact ⟨hok.1, fun b hb => h.held (List.mem_of_mem_take hb) (hok.2 b hb)⟩

/-- Without a delete, the consumptions of the heavy customer are counted. -/
theorem LiveEffect.heavy_length (h : LiveEffect P s es o s') (ho : o ≠ some .deleteHistory) :
    (s'.ledger.filter heavyConsumption).length = (s.ledger.filter heavyConsumption).length +
      (es.filter heavyConsumption).length +
      HEAVY_EVENT_COUNT * o.toList.count .createHistory := by
  cases h with
  | same => simp
  | posted e _ h => simp [h.ledger, List.filter_append]
  | reseeded b _ h =>
    cases h with
    | product | customer => simp [Store.withProducts, Store.withCustomers]
    | deleted => exact absurd rfl ho
    | created _ h =>
      obtain ⟨es, hledger, hdata, -⟩ := h.ledger
      have hlen : es.length = HEAVY_EVENT_COUNT := by
        rw [← heavyRows_length, ← hdata, List.length_map]
      rw [hledger, List.filter_append,
        List.filter_eq_self.mpr (heavyConsumption_of_data hdata), List.length_append, hlen]
      simp

end Effects

/-! ## Steps -/

/-- The invariant of the reachable states. -/
def LiveOk (p : Pool Store SeedingTask) : Prop := ∀ t ∈ p.tasks, t.Ok p.store

section Steps

variable {P : Prisma} {s s' : Store} {p : Pool Store SeedingTask} {b : SeedStatement}

/-- A step of a request posts a row or writes nothing. -/
theorem step_liveEffect (P : Prisma) (t : Task) (s : Store) :
    LiveEffect P s ((t.step P s).2.ledger.drop s.ledger.length) none (t.step P s).2 := by
  rcases (step_spec P t s).store with heq | ⟨e, hp, -⟩
  · rw [heq, List.drop_length]
    exact .same
  · rw [hp.ledger, List.drop_left]
    exact .posted e _ hp

theorem Task.Step.seedingOk {t t' : Task} (hst : t.Step P s t' s')
    (h : SeedingTask.Ok s (.inl t)) : SeedingTask.Ok s' (.inl t') := by
  intro e ha hno
  rcases hst.store with rfl | ⟨e', hp, ha', -⟩
  · -- nothing was written: the row was found, or answered before
    cases hst with
    | replayed _ _ _ key original _ ho =>
      obtain rfl : original = e := by injection Option.some.inj ha
      exact Store.mem_of_findKey ho
    | answered => exact h e ha hno
    | charged _ _ _ _ _ hch => cases hch with
      | posted _ _ _ _ _ _ _ hp =>
        obtain rfl := Except.ok.inj (Option.some.inj ha)
        exact hp.mem_self
    | credited _ _ _ _ hcr =>
      obtain rfl := Option.some.inj ha
      cases hcr with
      | posted _ _ _ _ _ _ _ hp => exact hp.mem_self
    | _ => cases ha
  · obtain rfl := Except.ok.inj (Option.some.inj (ha'.symm.trans ha))
    exact hp.mem_self

theorem mem_of_next? {t : Script Error} (h : t.next? seedStatements = some b) :
    b ∈ seedStatements :=
  List.mem_of_getElem? (Script.error_of_next? h).2

/-- When the `createMany` comes, all other statements have run. -/
theorem take_createHistory {t : Script Error}
    (h : t.next? seedStatements = some .createHistory) :
    seedStatements.take t.done = earlyStatements := by
  have hget := (Script.error_of_next? h).2
  rw [seedStatements] at hget ⊢
  rcases getElem?_concat hget with hearly | ⟨heq, -⟩
  · exact absurd (List.mem_of_getElem? hearly) createHistory_not_early
  · rw [heq, List.take_left]

/-- No statement of the seed fails. -/
theorem run_statement (hP : P.AcceptsInt32) {t : Script Error} (hok : SeedingTask.Ok s (.inr t))
    (h : t.next? seedStatements = some b) :
    ∃ s', (b.run P).run s = (.ok (), s') ∧ Reseeds P s b s' := by
  have hb := mem_of_next? h
  match b with
  | .upsertProduct p =>
    have hp := mem_seedStatements_product hb
    have hbounds := unitPrice_bounds p hp
    refine ⟨_, ?_, .product p hp⟩
    rw [SeedStatement.run, run_upsertProduct, if_pos (hP p.unitPrice (by omega) (by omega))]
  | .upsertCustomer c =>
    have hc := mem_seedStatements_customer hb
    have hbounds := seedBalance_bounds c hc
    have hcheck : ∀ c' ∈ (s.customers.upsert c).rows, 0 ≤ c'.balance := by
      intro c' hc'
      rcases Table.mem_upsert hc' with rfl | hc'
      · exact hbounds.1
      · exact s.balance_nonneg c' hc'
    exact ⟨_, run_upsertCustomer (hP c.balance (by omega) (by omega)) hcheck,
      .customer c hc hcheck⟩
  | .deleteHistory => exact ⟨_, rfl, .deleted⟩
  | .createHistory =>
    obtain ⟨c, hc, hid⟩ := List.mem_map.mp heavy_mem
    have hheavy : (s.customers.find? HEAVY_CUSTOMER_ID).isSome := by
      have := hok.2 (.upsertCustomer c) (by rw [take_createHistory h]; simp [earlyStatements, hc])
      rwa [SeedStatement.Held, hid] at this
    obtain ⟨s', hrun, happ⟩ : ∃ s', (LedgerEntry.createMany P heavyRows).run s = (.ok (), s') ∧
        Appended s heavyRows s' := by
      refine run_createMany ?_ ?_ hheavy ?_
      all_goals
        intro d hd
        obtain ⟨i, rfl⟩ := mem_heavyRows hd
      · exact heavyRow_ints hP i
      · rfl
      · rfl
    exact ⟨s', hrun, .created s' happ⟩

/-- What an action does, and that it keeps the invariant. -/
theorem act_effect (hP : P.AcceptsInt32) (h : LiveOk p) (a : Act (Request ⊕ Unit)) :
    LiveEffect P p.store (postedBy P p a) (reseedBy p a) ((seeding P).act p a).store ∧
      LiveOk ((seeding P).act p a) := by
  cases a with
  | submit r =>
    refine ⟨.same, fun t ht => ?_⟩
    rcases List.mem_append.mp ht with ht | ht
    · exact h t ht
    · obtain rfl := List.mem_singleton.mp ht
      rcases r with (_ | _) | _
      · exact nofun
      · exact nofun
      · exact ⟨rfl, by simp [seeding, Sys.sum, Sys.script]⟩
  | advance i =>
    cases ht : p.tasks[i]? with
    | none =>
      rw [act_advance_none ht]
      exact ⟨by simpa [postedBy, reseedBy, ht] using .same, h⟩
    | some t =>
      have hok := h t (List.mem_of_getElem? ht)
      rw [act_advance ht]
      obtain ⟨heff, hok'⟩ : LiveEffect P p.store (postedBy P p (.advance i))
          (reseedBy p (.advance i)) ((seeding P).step i t p.store).2 ∧
          SeedingTask.Ok ((seeding P).step i t p.store).2 ((seeding P).step i t p.store).1 := by
        cases t with
        | inl t =>
          simp only [postedBy, reseedBy, ht, Option.bind_some]
          exact ⟨step_liveEffect P t p.store, (step_spec P t p.store).seedingOk hok⟩
        | inr t =>
          simp only [postedBy, reseedBy, ht, Option.bind_some]
          show LiveEffect P p.store [] _ (t.step seedStatements _ p.store).2 ∧
            SeedingTask.Ok (t.step seedStatements (SeedStatement.run P) p.store).2
              (.inr (t.step seedStatements (SeedStatement.run P) p.store).1)
          cases hnext : t.next? seedStatements with
          | none =>
            rw [Script.step_none hnext]
            exact ⟨.same, hok⟩
          | some b =>
            obtain ⟨s', hrun, hre⟩ := run_statement hP hok hnext
            have heff : LiveEffect P p.store [] (some b) s' := .reseeded b s' hre
            rw [Script.step_ok hnext hrun]
            refine ⟨heff, hok.1, fun b' hb' => ?_⟩
            rw [Script.take_succ hnext] at hb'
            rcases List.mem_append.mp hb' with hb' | hb'
            · exact heff.held (List.mem_of_mem_take hb') (hok.2 b' hb')
            · obtain rfl := List.mem_singleton.mp hb'
              exact hre.held
      refine ⟨heff, fun u hu => ?_⟩
      rcases mem_set hu with rfl | hu
      · exact hok'
      · exact heff.ok (h u hu)

end Steps

/-! ## Runs -/

/-- The statements of the seed that run, in order. -/
def reseeds (P : Prisma) (p : Pool Store SeedingTask) (sched : List (Act (Request ⊕ Unit))) :
    List SeedStatement :=
  (seeding P).trace (fun p a => (reseedBy p a).toList) p sched

section Runs

variable {P : Prisma} {s : Store} {p : Pool Store SeedingTask}
  {sched : List (Act (Request ⊕ Unit))}

theorem LiveOk.init (s : Store) : LiveOk (Sys.init s) := fun _ h => by cases h

theorem LiveOk.run (hP : P.AcceptsInt32) (h : LiveOk p) (sched : List (Act (Request ⊕ Unit))) :
    LiveOk ((seeding P).run p sched) := by
  induction sched generalizing p with
  | nil => exact h
  | cons a sched ih => exact ih (act_effect hP h a).2

/-- The rule for what a run posts and which statements of the seed it runs: `C` holds of these. -/
theorem live_induction {R : List LedgerEntry → List SeedStatement → Store → Prop}
    {C : SeedStatement → Prop} (hP : P.AcceptsInt32) (h : LiveOk p)
    (hC : ∀ b ∈ reseeds P p sched, C b) (h₀ : R [] [] p.store)
    (hstep : ∀ es bs s es' o s', R es bs s → (∀ b, o = some b → C b) → LiveEffect P s es' o s' →
      R (es ++ es') (bs ++ o.toList) s') :
    R (posted P p sched) (reseeds P p sched) ((seeding P).run p sched).store := by
  induction sched using List.reverseRecOn with
  | nil => exact h₀
  | append_singleton sched a ih =>
    simp only [reseeds, posted, trace_concat, run_concat] at hC ih ⊢
    refine hstep _ _ _ _ _ _ (ih fun b hb => hC b (List.mem_append_left _ hb)) (fun b hb => ?_)
      (act_effect hP (h.run hP sched) a).1
    exact hC b (List.mem_append_right _ (by rw [hb]; exact List.mem_singleton_self b))

theorem mem_seedStatements_of_reseedBy {a : Act (Request ⊕ Unit)} {b : SeedStatement}
    (h : reseedBy p a = some b) : b ∈ seedStatements := by
  cases a with
  | submit r => cases h
  | advance i =>
    obtain ⟨t, -, ht⟩ := Option.bind_eq_some_iff.mp h
    cases t with
    | inl t => cases ht
    | inr t => exact mem_of_next? ht

theorem mem_seedStatements_of_reseeds (p : Pool Store SeedingTask)
    (sched : List (Act (Request ⊕ Unit))) : ∀ b ∈ reseeds P p sched, b ∈ seedStatements := by
  induction sched generalizing p with
  | nil => exact fun _ h => by cases h
  | cons a sched ih =>
    intro b hb
    rcases List.mem_append.mp hb with hb | hb
    · exact mem_seedStatements_of_reseedBy (Option.mem_toList.mp hb)
    · exact ih _ b hb

/-- The rows that are no consumptions of the heavy customer stay, and those posted are added. -/
theorem LiveOk.filter_other (hP : P.AcceptsInt32) (h : LiveOk p)
    (sched : List (Act (Request ⊕ Unit))) :
    (((seeding P).run p sched).store.ledger.filter fun e => !heavyConsumption e) =
      (p.store.ledger.filter fun e => !heavyConsumption e) ++
        (posted P p sched).filter fun e => !heavyConsumption e := by
  refine live_induction (C := fun _ => True)
    (R := fun es _ s => (s.ledger.filter fun e => !heavyConsumption e) =
      (p.store.ledger.filter fun e => !heavyConsumption e) ++
        es.filter fun e => !heavyConsumption e)
    hP h (fun _ _ => trivial) (by simp) ?_
  intro es bs s es' o s' hR _ heff
  rw [heff.filter_other, hR, List.filter_append, List.append_assoc]

/-- If no statement sets the balance of `id`, the balance follows the amounts posted to it. -/
theorem LiveOk.balance (hP : P.AcceptsInt32) (h : LiveOk p) {id : String}
    (hC : ∀ c, .upsertCustomer c ∈ reseeds P p sched → c.id ≠ id) :
    ((seeding P).run p sched).store.customers.find? id = (p.store.customers.find? id).map fun c =>
      { c with balance := c.balance + (amountsOf id (posted P p sched)).sum } := by
  refine live_induction (C := fun b => ∀ c, b = .upsertCustomer c → c.id ≠ id)
    (R := fun es _ s => s.customers.find? id = (p.store.customers.find? id).map fun c =>
      { c with balance := c.balance + (amountsOf id es).sum })
    hP h (fun b hb c heq => hC c (heq ▸ hb)) (by cases p.store.customers.find? id <;> simp) ?_
  intro es bs s es' o s' hR ho heff
  rw [heff.balance fun c heq => ho _ heq c rfl, hR, sum_amountsOf_append, Option.map_map]
  congr 1
  funext c
  simp only [Function.comp_apply, Int.add_assoc]

theorem LiveOk.products (hP : P.AcceptsInt32) (h : LiveOk p) {id : String}
    (hC : ∀ pr, .upsertProduct pr ∈ reseeds P p sched → pr.id ≠ id) :
    ((seeding P).run p sched).store.products.find? id = p.store.products.find? id := by
  refine live_induction (C := fun b => ∀ pr, b = .upsertProduct pr → pr.id ≠ id)
    (R := fun _ _ s => s.products.find? id = p.store.products.find? id)
    hP h (fun b hb pr heq => hC pr (heq ▸ hb)) rfl ?_
  intro es bs s es' o s' hR ho heff
  rw [heff.products fun pr heq => ho _ heq pr rfl, hR]

/-- New rows have ids above those used before. -/
theorem LiveOk.fresh (hP : P.AcceptsInt32) (h : LiveOk p) (sched : List (Act (Request ⊕ Unit))) :
    p.store.seq ≤ ((seeding P).run p sched).store.seq ∧
    (∀ e ∈ posted P p sched, p.store.seq < e.id ∧
      e.id ≤ ((seeding P).run p sched).store.seq) ∧
    ∀ e ∈ ((seeding P).run p sched).store.ledger, e ∈ p.store.ledger ∨ p.store.seq < e.id := by
  refine live_induction (C := fun _ => True)
    (R := fun es _ s => p.store.seq ≤ s.seq ∧
      (∀ e ∈ es, p.store.seq < e.id ∧ e.id ≤ s.seq) ∧
      ∀ e ∈ s.ledger, e ∈ p.store.ledger ∨ p.store.seq < e.id)
    hP h (fun _ _ => trivial) ⟨Nat.le_refl _, by simp, fun e he => .inl he⟩ ?_
  rintro es bs s es' o s' ⟨hseq, hes, hledger⟩ - heff
  obtain ⟨hseq', hes', hledger'⟩ := heff.fresh
  refine ⟨Nat.le_trans hseq hseq', fun e he => ?_, fun e he => ?_⟩
  · rcases List.mem_append.mp he with he | he
    · have := hes e he
      omega
    · have := hes' e he
      omega
  · rcases hledger' e he with he | hlt
    · exact hledger e he
    · exact .inr (by omega)

/-- Without a delete, every row stays. -/
theorem LiveOk.mem_of_kept (hP : P.AcceptsInt32) (h : LiveOk p)
    (hC : .deleteHistory ∉ reseeds P p sched) {e : LedgerEntry}
    (he : e ∈ p.store.ledger ++ posted P p sched) :
    e ∈ ((seeding P).run p sched).store.ledger := by
  revert he
  refine live_induction (C := fun b => b ≠ .deleteHistory)
    (R := fun es _ s => e ∈ p.store.ledger ++ es → e ∈ s.ledger)
    hP h (fun b hb heq => hC (heq ▸ hb)) (by simp) ?_
  intro es bs s es' o s' hR ho heff he
  rw [← List.append_assoc] at he
  refine heff.mem_of_kept (fun heq => ho _ heq rfl) ?_
  rcases List.mem_append.mp he with he | he
  · exact List.mem_append_left _ (hR he)
  · exact List.mem_append_right _ he

/-- Without a delete, the consumptions of the heavy customer are counted. -/
theorem LiveOk.heavy_length (hP : P.AcceptsInt32) (h : LiveOk p)
    (hC : .deleteHistory ∉ reseeds P p sched) :
    (((seeding P).run p sched).store.ledger.filter heavyConsumption).length =
      (p.store.ledger.filter heavyConsumption).length +
      ((posted P p sched).filter heavyConsumption).length +
      HEAVY_EVENT_COUNT * (reseeds P p sched).count .createHistory := by
  refine live_induction (C := fun b => b ≠ .deleteHistory)
    (R := fun es bs s => (s.ledger.filter heavyConsumption).length =
      (p.store.ledger.filter heavyConsumption).length + (es.filter heavyConsumption).length +
      HEAVY_EVENT_COUNT * bs.count .createHistory)
    hP h (fun b hb heq => hC (heq ▸ hb)) (by simp) ?_
  intro es bs s es' o s' hR ho heff
  rw [heff.heavy_length fun heq => ho _ heq rfl, hR, List.filter_append, List.length_append,
    List.count_append, Nat.mul_add]
  omega

/-- A statement that a run of the seed has behind it ran in a step of the schedule. -/
theorem mem_reseeds_of_done {t : Script Error} (ht : .inr t ∈ (serveSeeding P s sched).tasks)
    {b : SeedStatement} (hb : b ∈ seedStatements.take t.done) :
    b ∈ reseeds P (Sys.init s) sched := by
  induction sched using List.reverseRecOn generalizing t with
  | nil => cases ht
  | append_singleton sched a ih =>
    rw [serveSeeding, run_concat] at ht
    rw [reseeds, trace_concat]
    cases a with
    | submit r =>
      rcases List.mem_append.mp ht with ht | ht
      · exact List.mem_append_left _ (ih ht hb)
      · cases r with
        | inl r => cases List.mem_singleton.mp ht
        | inr r =>
          obtain rfl := Sum.inr.inj (List.mem_singleton.mp ht)
          cases hb
    | advance i =>
      cases hu : (serveSeeding P s sched).tasks[i]? with
      | none =>
        rw [act_advance_none hu] at ht
        exact List.mem_append_left _ (ih ht hb)
      | some u =>
        rw [act_advance hu] at ht
        rcases mem_set ht with heq | ht
        · cases u with
          | inl u => cases heq
          | inr u =>
            obtain rfl := Sum.inr.inj heq
            rcases Script.mem_take_step hb with hb | hnext
            · exact List.mem_append_left _ (ih (List.mem_of_getElem? hu) hb)
            · refine List.mem_append_right _ (Option.mem_toList.mpr ?_)
              rw [reseedBy, hu]
              exact hnext
        · exact List.mem_append_left _ (ih ht hb)

/-- A run of the seed ends, without an error, after as many turns as it has statements. -/
theorem LiveOk.ends (hP : P.AcceptsInt32) (h : LiveOk p) {i : Nat} {t : Script Error}
    (ht : p.tasks[i]? = some (.inr t)) (hn : seedStatements.length ≤ turns i sched) :
    ∃ t' : Script Error, ((seeding P).run p sched).tasks[i]? = some (.inr t') ∧
      t'.answer seedStatements = some (.ok ()) := by
  have hleft : ∀ i (u : SeedingTask) s, (seeding P).answer u = none →
      Sum.elim Task.left (Script.left seedStatements) ((seeding P).step i u s).1 <
        Sum.elim Task.left (Script.left seedStatements) u := by
    intro _ u s ha
    cases u with
    | inl u => exact left_step P u s (Option.map_eq_none_iff.mp ha)
    | inr u => exact Script.left_step (Option.map_eq_none_iff.mp ha)
  have hle : Sum.elim Task.left (Script.left seedStatements) (.inr t : SeedingTask) ≤
      turns i sched := by
    refine Nat.le_trans ?_ hn
    show (if t.error.isNone then seedStatements.length - t.done else 0) ≤ _
    split <;> omega
  obtain ⟨u, hu, ha⟩ := answered_of_turns hleft ht hle
  have hreq : (seeding P).request u = .inr () := by
    have := congrArg (·[i]?) (requests_run (S := seeding P) p sched)
    simp only [List.getElem?_map, hu, Option.map_some] at this
    rw [List.getElem?_append_left (by simpa using (List.getElem?_eq_some_iff.mp ht).1),
      List.getElem?_map, ht] at this
    exact Option.some.inj this
  cases u with
  | inl u => cases hreq
  | inr t' =>
    have herr := (h.run hP sched _ (List.mem_of_getElem? hu)).1
    exact ⟨t', hu, Script.answer_eq_ok herr ((Option.isSome_map ..).symm.trans ha)⟩

end Runs

/-! ## What the seed spares, and what it sets -/

/-- From `p` to `q`, two moments of a run, the requests posted `rows`, and the runs of the seed left
the rest as it was. -/
structure Spared (P : Prisma) (p q : Pool Store SeedingTask) (rows : List LedgerEntry) : Prop where
  /-- No row is lost but consumptions of the heavy customer. -/
  kept : (q.store.ledger.filter fun e => !heavyConsumption e) =
    (p.store.ledger.filter fun e => !heavyConsumption e) ++ rows.filter fun e => !heavyConsumption e
  /-- Nor is a key: its request will not be charged again. -/
  key : ∀ key e, p.store.findKey key = some e → heavyConsumption e = false →
    q.store.findKey key = some e
  answered : ∀ t ∈ q.tasks, ∀ e, (seeding P).answer t = some (.inl (.ok e)) →
    heavyConsumption e = false → e ∈ q.store.ledger
  /-- The balances of the customers that are not seeded follow what was posted. -/
  balance : ∀ id ∉ CUSTOMERS.map (·.id),
    q.store.customers.find? id = (p.store.customers.find? id).map fun c =>
      { c with balance := c.balance + (amountsOf id rows).sum }
  product : ∀ id ∉ PRODUCTS.map (·.id), q.store.products.find? id = p.store.products.find? id

/-- In every interleaving of any requests and any runs of the seed, between any two moments. A run
of the seed ends, and without an error, after as many turns as it has statements. -/
theorem seeding_spares (P : Prisma) (hP : P.AcceptsInt32) (s : Store)
    (sched later : List (Act (Request ⊕ Unit))) :
    Spared P (serveSeeding P s sched) (serveSeeding P s (sched ++ later))
        (posted P (serveSeeding P s sched) later) ∧
      ∀ i t, (serveSeeding P s sched).tasks[i]? = some (.inr t) →
        seedStatements.length ≤ turns i later → ∃ t',
          (serveSeeding P s (sched ++ later)).tasks[i]? = some (.inr t') ∧
          t'.answer seedStatements = some (.ok ()) := by
  have hok : LiveOk (serveSeeding P s sched) := (LiveOk.init s).run hP sched
  have hrun : serveSeeding P s (sched ++ later) =
      (seeding P).run (serveSeeding P s sched) later := run_append _ _ _
  have hmem := mem_seedStatements_of_reseeds (P := P) (serveSeeding P s sched) later
  have hrows := hok.filter_other hP later
  rw [hrun]
  refine ⟨⟨hrows, fun key e hkey hno => ?_, fun t ht e ha hno => ?_, fun id hid => ?_,
    fun id hid => ?_⟩, fun i t ht hn => hok.ends hP ht hn⟩
  · have he : e ∈ (serveSeeding P s sched).store.ledger.filter fun e => !heavyConsumption e :=
      List.mem_filter.mpr ⟨Store.mem_of_findKey hkey, by simp [hno]⟩
    have he' := hrows ▸ List.mem_append_left _ he
    exact Store.findKey_of_mem (List.mem_filter.mp he').1 (Store.key_of_findKey hkey)
  · cases t with
    | inl t =>
      obtain ⟨a, ha, heq⟩ := Option.map_eq_some_iff.mp ha
      obtain rfl := Sum.inl.inj heq
      exact hok.run hP later _ ht e ha hno
    | inr t =>
      obtain ⟨a, -, heq⟩ := Option.map_eq_some_iff.mp ha
      cases heq
  · refine hok.balance hP fun c hc heq => hid ?_
    exact heq ▸ List.mem_map_of_mem (mem_seedStatements_customer (hmem _ hc))
  · refine hok.products hP fun pr hpr heq => hid ?_
    exact heq ▸ List.mem_map_of_mem (mem_seedStatements_product (hmem _ hpr))

/-- A top-up of the heavy customer, then a run of the seed. -/
def toppedUp : List (Act (Request ⊕ Unit)) :=
  [.submit (.inl (.credit ⟨"cust_megascrape", 14⟩)), .advance 0, .submit (.inr ())]

theorem seeding_spares_toppedUp : Spared .sqlite (serveSeeding .sqlite inUse toppedUp)
    (serveSeeding .sqlite inUse (toppedUp ++ List.replicate 20 (.advance 1)))
    (posted .sqlite (serveSeeding .sqlite inUse toppedUp) (List.replicate 20 (.advance 1))) :=
  (seeding_spares .sqlite Prisma.sqlite_acceptsInt32 inUse toppedUp
    (List.replicate 20 (.advance 1))).1

/-- What the runs of the seed have set, in the state after `sched`. -/
structure Reset (P : Prisma) (s : Store) (sched : List (Act (Request ⊕ Unit))) : Prop where
  /-- A seeded customer has the seeded balance and what was posted since the last upsert: what was
  posted before is lost. -/
  balance : ∀ c ∈ CUSTOMERS, ∃ pre a suf, sched = pre ++ a :: suf ∧
    reseedBy (serveSeeding P s pre) a = some (.upsertCustomer c) ∧
    (serveSeeding P s sched).store.customers.find? c.id = some { c with balance := c.balance +
      (amountsOf c.id (posted P (serveSeeding P s (pre ++ [a])) suf)).sum }
  /-- The consumptions of the heavy customer are those posted since the last delete, and the
  fabricated ones of each `createMany` since. -/
  history : ∃ pre a suf, sched = pre ++ a :: suf ∧
    reseedBy (serveSeeding P s pre) a = some .deleteHistory ∧
    (∀ e ∈ posted P (Sys.init s) sched, e ∈ (serveSeeding P s sched).store.ledger ↔
      heavyConsumption e = false ∨ e ∈ posted P (serveSeeding P s (pre ++ [a])) suf) ∧
    ((serveSeeding P s sched).store.ledger.filter heavyConsumption).length =
      ((posted P (serveSeeding P s (pre ++ [a])) suf).filter heavyConsumption).length +
      HEAVY_EVENT_COUNT * (reseeds P (serveSeeding P s (pre ++ [a])) suf).count .createHistory
  product : ∀ pr ∈ PRODUCTS, (serveSeeding P s sched).store.products.find? pr.id = some pr

section Reset

variable {P : Prisma} {s s' : Store} {sched : List (Act (Request ⊕ Unit))} {b : SeedStatement}

/-- A statement that ran has a step in which it ran last. -/
theorem last_reseed (hP : P.AcceptsInt32) (h : b ∈ reseeds P (Sys.init s) sched) :
    ∃ pre a suf, sched = pre ++ a :: suf ∧ reseedBy (serveSeeding P s pre) a = some b ∧
      b ∉ reseeds P (serveSeeding P s (pre ++ [a])) suf ∧ LiveOk (serveSeeding P s (pre ++ [a])) ∧
      Reseeds P (serveSeeding P s pre).store b (serveSeeding P s (pre ++ [a])).store ∧
      serveSeeding P s sched = (seeding P).run (serveSeeding P s (pre ++ [a])) suf ∧
      posted P (Sys.init s) sched = posted P (Sys.init s) (pre ++ [a]) ++
        posted P (serveSeeding P s (pre ++ [a])) suf := by
  obtain ⟨pre, a, suf, rfl, hb, hlast⟩ := last_of_mem_trace h
  have hb : reseedBy (serveSeeding P s pre) a = some b := Option.mem_toList.mp hb
  have hsplit : pre ++ a :: suf = pre ++ [a] ++ suf := by simp
  have heff := (act_effect hP ((LiveOk.init s).run hP pre) a).1
  rw [← run_concat, hb] at heff
  refine ⟨pre, a, suf, rfl, hb, hlast, (LiveOk.init s).run hP _, ?_, ?_, ?_⟩
  · exact heff.reseeds
  · rw [hsplit, serveSeeding, run_append]
  · rw [hsplit, posted, trace_append]
    rfl

/-- In every interleaving of any requests and any runs of the seed, once one of the runs has
ended. -/
theorem seeding_resets (P : Prisma) (hP : P.AcceptsInt32) (s : Store)
    (sched : List (Act (Request ⊕ Unit))) (t : Script Error)
    (ht : .inr t ∈ (serveSeeding P s sched).tasks) (hend : (t.answer seedStatements).isSome) :
    Reset P s sched := by
  have hok := (LiveOk.init s).run hP sched
  have hdone : seedStatements.take t.done = seedStatements :=
    Script.take_of_answer (hok _ ht).1 hend
  have hran : ∀ b ∈ seedStatements, b ∈ reseeds P (Sys.init s) sched := fun b hb =>
    mem_reseeds_of_done ht (hdone.symm ▸ hb)
  refine ⟨fun c hc => ?_, ?_, fun pr hpr => ?_⟩
  · obtain ⟨pre, a, suf, hsched, hb, hlast, hmid, hre, hrun, -⟩ :=
      last_reseed hP (hran (.upsertCustomer c) (by simp [seedStatements, earlyStatements, hc]))
    refine ⟨pre, a, suf, hsched, hb, ?_⟩
    have hset : (serveSeeding P s (pre ++ [a])).store.customers.find? c.id = some c := by
      generalize (serveSeeding P s (pre ++ [a])).store = s' at hre
      cases hre with
      | customer _ _ h => exact (Table.find?_upsert ..).trans (if_pos rfl)
    rw [hrun, hmid.balance hP fun c' hc' hid => ?_, hset]
    · rfl
    · -- the ids of the list are distinct, so no later upsert is of this customer
      have hmem := mem_seedStatements_customer (mem_seedStatements_of_reseeds _ suf _ hc')
      obtain rfl := List.inj_on_of_nodup_map customers_nodup hmem hc hid
      exact hlast hc'
  · obtain ⟨pre, a, suf, hsched, hb, hlast, hmid, hre, hrun, hposted⟩ :=
      last_reseed hP (hran .deleteHistory (by simp [seedStatements, earlyStatements]))
    have hnone : (serveSeeding P s (pre ++ [a])).store.ledger.filter heavyConsumption = [] := by
      generalize (serveSeeding P s (pre ++ [a])).store = s' at hre
      cases hre with
      | deleted =>
        rw [deleteEntries_ledger, List.filter_filter]
        simp
    refine ⟨pre, a, suf, hsched, hb, fun e he => ⟨fun hmem => ?_, fun h => ?_⟩, ?_⟩
    · by_cases hno : heavyConsumption e = false
      · exact .inl hno
      · -- a row of an earlier id would have been deleted, and none has come back
        rw [hposted] at he
        rcases List.mem_append.mp he with he | he
        · have hid := ((LiveOk.init s).fresh hP (pre ++ [a])).2.1 e he
          rw [hrun] at hmem
          rcases (hmid.fresh hP suf).2.2 e hmem with hold | hnew
          · have := List.filter_eq_nil_iff.mp hnone e hold
            exact absurd (by simpa using hno) this
          · have hid' : e.id ≤ (serveSeeding P s (pre ++ [a])).store.seq := hid.2
            omega
        · exact .inr he
    · rcases h with hno | he
      · have hrows := (LiveOk.init s).filter_other hP sched
        have hmem : e ∈ (posted P (Sys.init s) sched).filter fun e => !heavyConsumption e :=
          List.mem_filter.mpr ⟨he, by simp [hno]⟩
        have := hrows ▸ List.mem_append_right _ hmem
        exact (List.mem_filter.mp this).1
      · rw [hrun]
        exact hmid.mem_of_kept hP hlast (List.mem_append_right _ he)
    · rw [hrun, hmid.heavy_length hP hlast, hnone, List.length_nil, Nat.zero_add]
  · exact (hok _ ht).2 (.upsertProduct pr)
      (hdone.symm ▸ by simp [seedStatements, earlyStatements, hpr])

theorem seeding_resets_toppedUp :
    Reset .sqlite inUse (toppedUp ++ List.replicate 20 (.advance 1)) := by
  have hok : LiveOk (serveSeeding .sqlite inUse toppedUp) :=
    (LiveOk.init inUse).run Prisma.sqlite_acceptsInt32 toppedUp
  obtain ⟨t, ht, ha⟩ : ∃ t : Script Error,
      ((seeding .sqlite).run (serveSeeding .sqlite inUse toppedUp)
        (List.replicate 20 (.advance 1))).tasks[1]? = some (.inr t) ∧
      t.answer seedStatements = some (.ok ()) :=
    hok.ends Prisma.sqlite_acceptsInt32 (t := {}) rfl (by decide)
  refine seeding_resets .sqlite Prisma.sqlite_acceptsInt32 inUse _ t ?_ (by rw [ha]; rfl)
  rw [serveSeeding, run_append]
  exact List.mem_of_getElem? ht

end Reset

end UsageBilling
