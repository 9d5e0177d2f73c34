import UsageBilling.Lib.Query
import UsageBilling.Traffic

/-!
# The dashboard: the customers query of the frontend against the deployment

`CustomerList`, `CustomerDetail` and the two forms read one query of `GET /customers`: polled, and
invalidated after each write of this client. The backends serve any other traffic meanwhile, and
their processes may die.

* `customersQuery P`: the query's source. `customersQuery_reads`: a reply is the list of customers
  in the committed store at a moment between the request and the reply.
* `dashboard_history`: what is shown was true at a moment, and a later display at a later one.
* `own_write_shown`: what is shown after an invalidation has every row committed before it.
* `dashboard_converges`: two polls after the last request, the dashboard shows the truth.
-/

namespace UsageBilling

open Sys Query

/-! ## The query -/

/-- `fetchCustomers` of `api.ts` on a reply; `none` if it throws. -/
def fetchCustomers (reply : Reply) : Option (List Customer) :=
  if reply.isOk then
    match reply.body with
    | .api (.customers data) => some data
    | _ => none
  else none

/-- `GET /customers` -/
def customersRequest : HttpRequest := ⟨.customers, .ok (.object [])⟩

/-- React Query's default for `retry`, which `createQueryClient` leaves as it is. -/
def RETRIES : Nat := 3

/-- The query over the running backends. A request of the query whose process dies, or that times
out, is one that fails on the way (`fail`); it writes nothing. -/
def customersQuery (P : Prisma) :
    Source Backends (Act Arrival) Nat (List Customer) where
  world p act := (deployment P).act p act
  ask := .submit (customersRequest, none)
  ticket p := p.tasks.length
  reply p k := ((p.tasks[k]?).bind (deployment P).answer).map fetchCustomers
  retries := RETRIES

/-- The data of `GET /customers` in a state of the backends. -/
def customersNow (P : Prisma) (p : Backends) : Option (List Customer) :=
  fetchCustomers (getCustomers P p.store.committed).reply

/-- The rows of the table. -/
def customerList (s : Store) : List Customer := s.customers.rows.mergeSort byName

/-- The components that read the query, with the backends. -/
abbrev Dashboard := Client Backends (List Customer)

/-- The dashboard after some events; it is opened on the store `s`. -/
def dashboard (P : Prisma) (s : Store) (events : List (Event (Act Arrival))) :
    Dashboard :=
  Client.run (customersQuery P) { server := Sys.init ⟨s, none⟩ } events

section Query

variable {P : Prisma} {p p₀ q : Backends} {k : Nat}

/-- The read fails, if Prisma cannot read a balance, or it is the list of the customers. -/
theorem customersNow_cases (P : Prisma) (p : Backends) :
    customersNow P p = some (customerList p.store.committed) ∨ customersNow P p = none := by
  simp only [customersNow, getCustomers, listCustomers, Txn.run, Txn.reading]
  by_cases hread : (p.store.committed.customers.rows.all fun c => P.column c.balance) = true
  · rw [if_pos hread]
    exact .inl rfl
  · rw [if_neg hread]
    exact .inr rfl

theorem customersNow_some {data : List Customer} (h : customersNow P p = some data) :
    data = customerList p.store.committed := by
  rcases customersNow_cases P p with heq | heq
  · exact Option.some.inj (h.symm.trans heq)
  · rw [heq] at h
    cases h

/-- A request for the customers with the index `k` that arrived before the state `p₀`: it waits for
its first turn, or its reply was computed since. -/
def Awaited (P : Prisma) (p₀ : Backends) (k : Nat) (q : Backends) : Prop :=
  ∃ m, q.tasks[k]? = some m ∧ (m.fault = none ∧ ∀ message, m.fate ≠ .failed message) ∧
    (m.task = .arrived customersRequest ∨
      ∃ p₁, (customersQuery P).Reaches p₀ p₁ ∧ (customersQuery P).Reaches p₁ q ∧
        m.task = .replied customersRequest (getCustomers P p₁.store.committed).reply)

/-- The turn of a request for the customers. -/
theorem step_customers (P : Prisma) (i : Nat) (w : Wal Store) :
    (api P).step i (.arrived customersRequest) w =
      (.replied customersRequest (getCustomers P w.committed).reply, w) := rfl

theorem Awaited.submitted (P : Prisma) (p : Backends) :
    Awaited P ((customersQuery P).world p (customersQuery P).ask) p.tasks.length
      ((customersQuery P).world p (customersQuery P).ask) :=
  ⟨_, List.getElem?_concat_length, ⟨rfl, fun _ h => (by cases h)⟩, .inl rfl⟩

theorem Awaited.act (h : Awaited P p₀ k q) (hq : (customersQuery P).Reaches p₀ q)
    (a : Act Arrival) : Awaited P p₀ k ((customersQuery P).world q a) := by
  obtain ⟨m, hm, hfault, htask⟩ := h
  -- the task as it is, in the next state
  have hkeep : m.task = .arrived customersRequest ∨
      ∃ p₁, (customersQuery P).Reaches p₀ p₁ ∧
        (customersQuery P).Reaches p₁ ((customersQuery P).world q a) ∧
        m.task = .replied customersRequest (getCustomers P p₁.store.committed).reply := by
    refine htask.imp id ?_
    rintro ⟨p₁, hfrom, hto, heq⟩
    exact ⟨p₁, hfrom, hto.world a, heq⟩
  cases a with
  | submit r =>
    have hlt := (List.getElem?_eq_some_iff.mp hm).1
    exact ⟨m, (List.getElem?_append_left hlt).trans hm, hfault, hkeep⟩
  | advance i =>
    cases hu : q.tasks[i]? with
    | none =>
      have hact : (customersQuery P).world q (.advance i) = q := act_advance_none hu
      rw [hact] at hkeep ⊢
      exact ⟨m, hm, hfault, hkeep⟩
    | some u =>
      have hact : (customersQuery P).world q (.advance i) = _ := act_advance hu
      have hget := getElem?_set_of_some hu ((deployment P).step i u q.store).1 k
      by_cases hik : k = i
      · subst hik
        obtain rfl := Option.mem_unique hu hm
        rw [if_pos rfl] at hget
        refine ⟨_, by rw [hact]; exact hget, ?_⟩
        have hst := deployment_step_spec P k u q.store
        generalize (deployment P).step k u q.store = r at hst ⊢
        cases hst with
        | step hf ha =>
          refine ⟨⟨hfault.1, fun _ hfailed => ?_⟩, .inr ⟨q, hq, .world (.refl q) _, ?_⟩⟩
          · exact hfault.2 _ hfailed
          · rcases htask with heq | ⟨_, -, -, heq⟩
            · simp only [heq, step_customers]
            · rw [heq] at ha
              cases ha
        | finished => exact ⟨hfault, hkeep⟩
        | answered => exact ⟨⟨hfault.1, fun _ hfailed => (by cases hfailed)⟩, hkeep⟩
        | died _ hdeath =>
          rw [hfault.1] at hdeath
          cases hdeath
        | failed _ _ htimeout =>
          rw [hfault.1] at htimeout
          cases htimeout
      · rw [if_neg hik] at hget
        exact ⟨m, by rw [hact]; exact hget.trans hm, hfault, hkeep⟩

/-- A request for the customers waits, or its reply was computed since it arrived. -/
theorem awaited_of_reaches
    (h : (customersQuery P).Reaches ((customersQuery P).world p (customersQuery P).ask) q) :
    Awaited P ((customersQuery P).world p (customersQuery P).ask) p.tasks.length q :=
  h.induction (.submitted P p) fun _ a hreach hq => hq.act hreach a

/-- A reply is the list of customers at a moment between the request and the reply. -/
theorem customersQuery_reads (P : Prisma) : (customersQuery P).Reads (customersNow P) := by
  intro p q r hreach hr
  obtain ⟨m, hm, hfault, htask⟩ := awaited_of_reaches hreach
  obtain ⟨reply, ha, rfl⟩ := Option.map_eq_some_iff.mp hr
  rw [show q.tasks[(customersQuery P).ticket p]? = some m from hm, Option.bind_some] at ha
  have hans : (api P).answer m.task = some reply := by
    rcases deployment_answer ha with ⟨-, hans⟩ | ⟨message, hf, -⟩
    · exact hans
    · exact absurd hf (hfault.2 message)
  rcases htask with heq | ⟨p₁, hfrom, hto, heq⟩
  · rw [heq] at hans
    cases hans
  · rw [heq] at hans
    cases hans
    exact ⟨p₁, hfrom, hto, rfl⟩

end Query

/-! ## What is shown -/

section Shown

variable {P : Prisma} {s : Store} {p q : Backends}

/-- From a state to a later one, rows are posted. -/
theorem Traced.postings (h : Traced P s p) (hreach : (customersQuery P).Reaches p q) :
    Traced P s q ∧ ∃ es, Postings P p.store.committed es q.store.committed := by
  refine hreach.induction (I := fun q => Traced P s q ∧ ∃ es, Postings P _ es q.store.committed)
    ⟨h, [], .nil⟩ ?_
  rintro q a - ⟨hq, es, hes⟩
  obtain ⟨es', hes'⟩ := hq.postings_act a
  exact ⟨hq.act a, es ++ es', hes.trans hes'⟩

theorem dashboard_ok (P : Prisma) (s : Store)
    (events : List (Event (Act Arrival))) :
    Ok (customersQuery P) (customersNow P) (Sys.init ⟨s, none⟩) (dashboard P s events) :=
  (Ok.init _).run (customersQuery_reads P) events

/-- In every run: what the dashboard shows was true at a moment, and what it shows later was true
at the same moment or a later one. The rows between these moments are one history of postings. -/
theorem dashboard_history (P : Prisma) (s : Store)
    (events later : List (Event (Act Arrival))) (data data' : List Customer)
    (h : (dashboard P s events).data = some data)
    (h' : (dashboard P s (events ++ later)).data = some data') :
    ∃ es es' es'' s₁ s₂, Postings P s es s₁ ∧ Postings P s₁ es' s₂ ∧
      Postings P s₂ es'' (dashboard P s (events ++ later)).server.store.committed ∧
      data = customerList s₁ ∧ data' = customerList s₂ := by
  rw [dashboard, Client.run_append] at h' ⊢
  obtain ⟨p₁, p₂, hd, hd', h₀₁, h₁₂, h₂⟩ :=
    data_mono (dashboard_ok P s events) (customersQuery_reads P) h later h'
  obtain ⟨hl₁, es, hes⟩ := (Traced.init s).postings h₀₁
  obtain ⟨hl₂, es', hes'⟩ := hl₁.postings h₁₂
  obtain ⟨-, es'', hes''⟩ := hl₂.postings h₂
  exact ⟨es, es', es'', _, _, hes, hes', hes'', customersNow_some hd, customersNow_some hd'⟩

/-- The table is loaded. -/
def loading : List (Event (Act Arrival)) :=
  [.refetch, .world (.advance 0), .world (.advance 0), .receive]

/-- A purchase by the second request, up to its reply. -/
def purchasing : List (Event (Act Arrival)) :=
  [.world (.submit (⟨.consumptionEvents (.single "k"), .ok (.object [("customerId", .string "c1"),
      ("productId", .string "p1"), ("quantity", .number (.finite 1))])⟩, none))] ++
    List.replicate 6 (.world (.advance 1))

/-- A fetch by the third request. -/
def refetched : List (Event (Act Arrival)) :=
  [.world (.advance 2), .world (.advance 2), .receive]

theorem dashboard_history_purchase : ∃ data data' es es' es'' s₁ s₂,
    (dashboard .sqlite (shop 200) loading).data = some data ∧
    (dashboard .sqlite (shop 200) (loading ++ (purchasing ++ .refetch :: refetched))).data =
      some data' ∧
    Postings .sqlite (shop 200) es s₁ ∧ Postings .sqlite s₁ es' s₂ ∧
    Postings .sqlite s₂ es'' (dashboard .sqlite (shop 200)
      (loading ++ (purchasing ++ .refetch :: refetched))).server.store.committed ∧
    data = customerList s₁ ∧ data' = customerList s₂ := by
  have hloaded : (dashboard .sqlite (shop 200) loading).data.isSome := by decide
  have hlater : (dashboard .sqlite (shop 200)
      (loading ++ (purchasing ++ .refetch :: refetched))).data.isSome := by decide
  obtain ⟨data, h⟩ := Option.isSome_iff_exists.mp hloaded
  obtain ⟨data', h'⟩ := Option.isSome_iff_exists.mp hlater
  obtain ⟨es, es', es'', s₁, s₂, hrest⟩ := dashboard_history .sqlite (shop 200) loading
    (purchasing ++ .refetch :: refetched) data data' h h'
  exact ⟨data, data', es, es', es'', s₁, s₂, h, h', hrest⟩

/-- In every run, after an invalidation with data on screen (as a form on a row of the table does
after its POST): the first data that arrives, and all later data, is of a store with every row that
was committed by then. The row of a 201 that a client has received is among them. -/
theorem own_write_shown (P : Prisma) (s : Store)
    (events later : List (Event (Act Arrival))) (data : List Customer)
    (hloaded : (dashboard P s events).data.isSome)
    (hnew : (dashboard P s (events ++ .invalidate :: later)).updates ≠
      (dashboard P s events).updates)
    (hdata : (dashboard P s (events ++ .invalidate :: later)).data = some data) :
    ∃ es es' s₁, Postings P (dashboard P s events).server.store.committed es s₁ ∧
      Postings P s₁ es'
        (dashboard P s (events ++ .invalidate :: later)).server.store.committed ∧
      data = customerList s₁ ∧
      ∀ m ∈ (dashboard P s events).server.tasks, ∀ e,
        (deployment P).answer m = some ⟨201, .api (.entry e)⟩ → e ∈ s₁.ledger := by
  have hok := dashboard_ok P s events
  have hstart : (dashboard P s (events ++ .invalidate :: later)) =
      ((dashboard P s events).start (customersQuery P)).run (customersQuery P) later := by
    rw [dashboard, Client.run_append]
    show Client.run (customersQuery P) ((dashboard P s events).step _ .invalidate) later = _
    obtain ⟨old, hold⟩ := Option.isSome_iff_exists.mp hloaded
    simp [Client.step, hold]
  rw [hstart] at hnew hdata ⊢
  obtain ⟨p₁, hd, hfrom, hto⟩ := fresh_after hok (customersQuery_reads P) later hnew hdata
  obtain ⟨hl, -⟩ := (Traced.init s).postings hok.server
  obtain ⟨hl₁, es, hes⟩ := hl.postings hfrom
  obtain ⟨-, es', hes'⟩ := hl₁.postings hto
  refine ⟨es, es', _, hes, hes', customersNow_some hd, fun m hm e ha => ?_⟩
  rw [hes.ledger]
  obtain ⟨i, hi⟩ := List.mem_iff_getElem?.mp hm
  exact List.mem_append_left _ (hl.created hi ha).1

theorem own_write_shown_purchase : ∃ data es es' s₁,
    Postings .sqlite (dashboard .sqlite (shop 200) (loading ++ purchasing)).server.store.committed
      es s₁ ∧
    Postings .sqlite s₁ es' (dashboard .sqlite (shop 200)
      (loading ++ purchasing ++ .invalidate :: refetched)).server.store.committed ∧
    data = customerList s₁ ∧
    ∀ m ∈ (dashboard .sqlite (shop 200) (loading ++ purchasing)).server.tasks, ∀ e,
      (deployment .sqlite).answer m = some ⟨201, .api (.entry e)⟩ → e ∈ s₁.ledger := by
  have hsome : (dashboard .sqlite (shop 200)
      (loading ++ purchasing ++ .invalidate :: refetched)).data.isSome := by decide
  obtain ⟨data, hdata⟩ := Option.isSome_iff_exists.mp hsome
  exact ⟨data, own_write_shown .sqlite (shop 200) (loading ++ purchasing) refetched data
    (by decide) (by decide) hdata⟩

end Shown

/-! ## Convergence -/

/-- Enough rounds of turns for `n` requests. -/
structure Turns (n : Nat) (rounds : List (List (Act Arrival))) : Prop where
  fair : ∀ round ∈ rounds, Fair n round
  enough : 7 * n ≤ rounds.length

/-- A poll with its attempts: in each of them the requests take some rounds of turns. -/
def poll (attempts : List (List (List (Act Arrival)))) : List (Event (Act Arrival)) :=
  Query.poll (attempts.map List.flatten)

section Convergence

variable {P : Prisma} {p q : Backends} {c : Dashboard} {s : Store} {n : Nat}
  {rounds : List (List (Act Arrival))}

theorem reaches_run (p : Backends) (acts : List (Act Arrival)) :
    (customersQuery P).Reaches p ((deployment P).run p acts) := ⟨acts, rfl⟩

theorem Turns.mono {m : Nat} (h : Turns n rounds) (hle : m ≤ n) : Turns m rounds where
  fair round hround := (h.fair round hround).mono hle
  enough := Nat.le_trans (Nat.mul_le_mul_left 7 hle) h.enough

theorem Turns.submitted (h : Turns n rounds) : submitted rounds.flatten = [] :=
  Progress.submitted_flatten fun round hround => (h.fair round hround).1

/-- All processes have ended, but for requests for the customers. -/
def Quiet (p : Backends) : Prop :=
  ∀ m ∈ p.tasks, m.fate = .running →
    m.task = .arrived customersRequest ∨ ∃ reply, m.task = .replied customersRequest reply

/-- Then nothing is written. -/
theorem Quiet.run {acts : List (Act Arrival)} (h : Quiet p)
    (hsub : submitted acts = []) : ((deployment P).run p acts).store.committed =
      p.store.committed ∧ Quiet ((deployment P).run p acts) := by
  refine run_induction (S := deployment P) (Q := fun _ => False)
    (I := fun q => q.store.committed = p.store.committed ∧ Quiet q) ⟨rfl, h⟩ (by simp [hsub])
    (fun _ _ hr => hr.elim) ?_
  rintro q i m hm ⟨hcommitted, hq⟩
  have hmem := List.mem_of_getElem? hm
  have hquiet := hq m hmem
  have hst := deployment_step_spec P i m q.store
  generalize (deployment P).step i m q.store = r at hst ⊢
  have hrest : ∀ u, (u.fate = .running → u.task = .arrived customersRequest ∨
      ∃ reply, u.task = .replied customersRequest reply) →
      ∀ w, Quiet ⟨w, q.tasks.set i u⟩ := fun u hu w v hv => by
    rcases mem_set hv with rfl | hv
    · exact hu
    · exact hq v hv
  cases hst with
  | finished => exact ⟨hcommitted, hrest m hquiet _⟩
  | died =>
    exact ⟨(committed_disconnect i q.store).trans hcommitted, hrest _ (fun hf => by cases hf) _⟩
  | failed =>
    exact ⟨(committed_disconnect i q.store).trans hcommitted, hrest _ (fun hf => by cases hf) _⟩
  | answered => exact ⟨hcommitted, hrest _ (fun hf => by cases hf) _⟩
  | step hf ha =>
    rcases hquiet hf with heq | ⟨reply, heq⟩
    · simp only [heq, step_customers]
      exact ⟨hcommitted, hrest _ (fun _ => .inr ⟨_, rfl⟩) _⟩
    · rw [heq] at ha
      cases ha

/-- The reply to a request for the customers is there when its task is at its end. -/
theorem Awaited.answered {p₀ : Backends} {k : Nat} (h : Awaited P p₀ k q)
    (hdone : ∀ m ∈ q.tasks, ((deployment P).answer m).isSome ∨
      m.fate = .dead ∧ m.fault = some (.death m.age)) :
    ∃ r, (customersQuery P).reply q k = some r := by
  obtain ⟨m, hm, hfault, -⟩ := h
  rcases hdone m (List.mem_of_getElem? hm) with hans | ⟨-, hdead⟩
  · obtain ⟨reply, hreply⟩ := Option.isSome_iff_exists.mp hans
    refine ⟨fetchCustomers reply, ?_⟩
    show ((q.tasks[k]?).bind (deployment P).answer).map fetchCustomers = _
    rw [hm, Option.bind_some, hreply]
    rfl
  · rw [hfault.1] at hdead
    cases hdead

/-- Postings back to the same store post nothing. -/
theorem eq_of_postings {s s' : Store} {es es' : List LedgerEntry} (h : Postings P s es s')
    (h' : Postings P s' es' s) : s' = s := by
  have hledger := h'.ledger
  rw [h.ledger, List.append_assoc] at hledger
  obtain ⟨rfl, -⟩ := List.append_eq_nil_iff.mp (List.self_eq_append_right.mp hledger)
  generalize hes : ([] : List LedgerEntry) = es at h
  cases h with
  | nil => rfl
  | snoc _ _ => simp at hes

/-- An event sends at most one request. -/
theorem length_step (c : Dashboard) (e : Event (Act Arrival)) (he : e = .refetch ∨ e = .retry) :
    (c.step (customersQuery P) e).server.tasks.length ≤ c.server.tasks.length + 1 := by
  rcases he with rfl | rfl
  · simp only [Client.step]
    split
    · exact Nat.le_succ _
    · exact Nat.le_of_eq (List.length_append ..)
  · simp only [Client.step]
    split
    · exact Nat.le_succ _
    · exact Nat.le_of_eq (List.length_append ..)

theorem backends_attempt (c : Dashboard) (acts : List (Act Arrival)) :
    (c.run (customersQuery P) (attempt acts)).server =
      (deployment P).run (c.step (customersQuery P) .retry).server acts := server_attempt c acts

theorem length_attempt (hturns : Turns n rounds) :
    (c.run (customersQuery P) (attempt rounds.flatten)).server.tasks.length ≤
      c.server.tasks.length + 1 := by
  rw [backends_attempt]
  refine Nat.le_trans (Nat.le_of_eq ?_) (length_step (P := P) c .retry (.inr rfl))
  rw [← List.length_map (f := (deployment P).request), requests_run, hturns.submitted,
    List.append_nil, List.length_map]

/-- The dashboard in a poll, with `k` attempts left: nothing else is served any more. -/
structure Polling (P : Prisma) (s : Store) (n k : Nat) (c : Dashboard) : Prop where
  ok : Ok (customersQuery P) (customersNow P) (Sys.init ⟨s, none⟩) c
  length : c.server.tasks.length + k ≤ n
  tried : Tried (customersQuery P) k c

/-- After the rounds of an attempt the reply to its request is there, and all requests have
ended. -/
theorem Polling.replies {k : Nat} (h : Polling P s n (k + 1) c) (hturns : Turns n rounds) :
    Quiet ((deployment P).run (c.step (customersQuery P) .retry).server rounds.flatten) ∧
      ∀ f, (c.step (customersQuery P) .retry).asking = some f → ∃ r, (customersQuery P).reply
        ((deployment P).run (c.step (customersQuery P) .retry).server rounds.flatten)
        ((customersQuery P).ticket f.asked) = some r := by
  have hlen := length_step (P := P) c .retry (.inr rfl)
  have hok := h.ok.step (customersQuery_reads P) (c.step_spec (customersQuery P) .retry)
  have hlength := h.length
  generalize c.step (customersQuery P) .retry = c' at *
  obtain ⟨hl, -⟩ := (Traced.init s).postings hok.server
  have hfair : ∀ round ∈ rounds, Fair c'.server.tasks.length round := fun round hround =>
    (hturns.fair round hround).mono (by omega)
  have henough := hturns.enough
  obtain ⟨-, hdone⟩ := hl.lock.completes hfair (by omega)
  refine ⟨fun m hm hrun => ?_, fun f hf => ?_⟩
  · rcases hdone m hm with hans | ⟨hdead, -⟩
    · obtain ⟨reply, hreply⟩ := Option.isSome_iff_exists.mp hans
      rcases deployment_answer hreply with ⟨hf, -⟩ | ⟨_, hf, -⟩ <;>
      · rw [hf] at hrun
        cases hrun
    · rw [hdead] at hrun
      cases hrun
  · have hasked := (hok.fetch f (Client.asking_eq_some.mp hf).1).2.2
    exact (awaited_of_reaches (hasked.trans (reaches_run c'.server _))).answered hdone

/-- An attempt leaves one attempt less. -/
theorem Polling.attempt {k : Nat} (h : Polling P s n (k + 1) c) (hturns : Turns n rounds) :
    Polling P s n k (c.run (customersQuery P) (attempt rounds.flatten)) ∧
      Quiet (c.run (customersQuery P) (attempt rounds.flatten)).server := by
  obtain ⟨hquiet, hreply⟩ := h.replies hturns
  refine ⟨⟨h.ok.run (customersQuery_reads P) _, ?_, h.tried.attempt hreply⟩, ?_⟩
  · have hlen := length_attempt (P := P) (c := c) hturns
    have hlength := h.length
    omega
  · rw [backends_attempt]
    exact hquiet

theorem Polling.refetch
    (hok : Ok (customersQuery P) (customersNow P) (Sys.init ⟨s, none⟩) c)
    (hn : c.server.tasks.length + RETRIES + 2 ≤ n) :
    Polling P s n (RETRIES + 1) (c.step (customersQuery P) .refetch) where
  ok := hok.step (customersQuery_reads P) (c.step_spec (customersQuery P) .refetch)
  length := by
    have hlen := length_step (P := P) c .refetch (.inl rfl)
    omega
  tried := tried_refetch hok.failures

/-- After a poll no fetch is in flight, and no other request is running. -/
theorem poll_ends (hok : Ok (customersQuery P) (customersNow P) (Sys.init ⟨s, none⟩) c)
    {attempts : List (List (List (Act Arrival)))} (hattempts : attempts.length = RETRIES + 1)
    (hturns : ∀ rounds ∈ attempts, Turns (c.server.tasks.length + RETRIES + 2) rounds) :
    (c.run (customersQuery P) (poll attempts)).fetch = none ∧
      Quiet (c.run (customersQuery P) (poll attempts)).server ∧
      (c.run (customersQuery P) (poll attempts)).server.tasks.length ≤
        c.server.tasks.length + RETRIES + 2 := by
  obtain ⟨hpolling, hquiet⟩ := run_attempts (S := customersQuery P)
    (attempts.map List.flatten) (c := c.step (customersQuery P) .refetch)
    (J := fun k c' => Polling P s (c.server.tasks.length + RETRIES + 2) k c' ∧
      (k ≤ RETRIES → Quiet c'.server))
    (by
      rw [List.length_map, hattempts]
      exact ⟨.refetch hok (Nat.le_refl _), fun h => absurd h (by decide)⟩)
    (by
      rintro k c' ws hws ⟨h, -⟩
      obtain ⟨rounds, hmem, rfl⟩ := List.mem_map.mp hws
      exact (h.attempt (hturns rounds hmem)).imp_right fun hquiet _ => hquiet)
  exact ⟨hpolling.tried.ended, hquiet (Nat.zero_le _), hpolling.length⟩

/-- Nothing is written any more: the store stays `b`, and so it was when the query last asked. -/
structure Unwritten (b : Store) (c : Dashboard) : Prop where
  quiet : Quiet c.server
  committed : c.server.store.committed = b
  asked : ∀ f, c.fetch = some f → f.asked.store.committed = b

namespace Unwritten

variable {b : Store}

theorem quiet_ask (h : Quiet p) :
    Quiet ((customersQuery P).world p (customersQuery P).ask) := fun m hm hrun => by
  rcases List.mem_append.mp hm with hm | hm
  · exact h m hm hrun
  · obtain rfl := List.mem_singleton.mp hm
    exact .inl rfl

theorem start (h : Unwritten b c) : Unwritten b (c.start (customersQuery P)) where
  quiet := quiet_ask h.quiet
  committed := h.committed
  asked f hf := by
    cases hf
    exact h.committed

theorem retry (h : Unwritten b c) : Unwritten b (c.step (customersQuery P) .retry) := by
  simp only [Client.step]
  split
  · exact h
  · refine ⟨quiet_ask h.quiet, h.committed, fun f hf => ?_⟩
    cases hf
    exact h.committed

/-- The rounds of an attempt, and its reply. -/
theorem attempt (h : Unwritten b c) (hturns : Turns n rounds) :
    Unwritten b (c.run (customersQuery P) (attempt rounds.flatten)) := by
  obtain ⟨hcommitted, hquiet⟩ := h.retry.quiet.run (P := P) hturns.submitted
  refine ⟨?_, ?_, fun f hf => ?_⟩
  · rw [backends_attempt]
    exact hquiet
  · rw [backends_attempt]
    exact hcommitted.trans h.retry.committed
  · obtain ⟨g, hg, heq⟩ := fetch_attempt hf
    rw [heq]
    exact h.retry.asked g hg

/-- A reply was read from the store that nobody has changed. -/
theorem reply (h : Unwritten b c)
    (hok : Ok (customersQuery P) (customersNow P) (Sys.init ⟨s, none⟩) c) {f : Fetch Backends}
    {r : Option (List Customer)} {acts : List (Act Arrival)} (hsub : submitted acts = [])
    (hf : c.fetch = some f)
    (hr : (customersQuery P).reply ((deployment P).run c.server acts)
      ((customersQuery P).ticket f.asked) = some r) :
    r = fetchCustomers (getCustomers P b).reply := by
  obtain ⟨hopen, hstarted, hasked⟩ := hok.fetch f hf
  obtain ⟨p₁, hfrom, hto, rfl⟩ :=
    customersQuery_reads P _ _ _ (hasked.trans (reaches_run c.server acts)) hr
  obtain ⟨hl, -⟩ := (Traced.init s).postings ((hopen.trans hstarted).world (customersQuery P).ask)
  obtain ⟨hl₁, es, hes⟩ := hl.postings hfrom
  obtain ⟨-, es', hes'⟩ := hl₁.postings hto
  have hbegin : ((customersQuery P).world f.asked (customersQuery P).ask).store.committed = b :=
    h.asked f hf
  have hend : ((deployment P).run c.server acts).store.committed = b :=
    (h.quiet.run hsub).1.trans h.committed
  rw [hbegin] at hes
  rw [hend] at hes'
  rw [customersNow, eq_of_postings hes hes']

end Unwritten

/-- A poll when nothing is written any more shows the truth. -/
theorem poll_shows (hok : Ok (customersQuery P) (customersNow P) (Sys.init ⟨s, none⟩) c)
    (hnone : c.fetch = none) (hquiet : Quiet c.server)
    (hn : c.server.tasks.length + RETRIES + 2 ≤ n) {attempts : List (List (List (Act Arrival)))}
    (hattempts : attempts.length = RETRIES + 1) (hturns : ∀ rounds ∈ attempts, Turns n rounds) :
    (c.run (customersQuery P) (poll attempts)).isError =
        (customersNow P (c.run (customersQuery P) (poll attempts)).server).isNone ∧
      ∀ data, customersNow P (c.run (customersQuery P) (poll attempts)).server = some data →
        (c.run (customersQuery P) (poll attempts)).data = some data := by
  have hstart : c.step (customersQuery P) .refetch = c.start (customersQuery P) := by
    simp [Client.step, hnone]
  have hsettled : Unwritten c.server.store.committed c :=
    ⟨hquiet, rfl, fun f hf => by rw [hnone] at hf; cases hf⟩
  have hbegin : Told (fetchCustomers (getCustomers P c.server.store.committed).reply)
      (c.step (customersQuery P) .refetch) := fun hfetch => by
    rw [hstart] at hfetch
    cases hfetch
  obtain ⟨hpolling, hlast, htold⟩ := run_attempts (S := customersQuery P)
    (attempts.map List.flatten) (c := c.step (customersQuery P) .refetch)
    (J := fun k c' => Polling P s n k c' ∧ Unwritten c.server.store.committed c' ∧
      Told (fetchCustomers (getCustomers P c.server.store.committed).reply) c')
    (by
      rw [List.length_map, hattempts]
      exact ⟨.refetch hok hn, hstart ▸ hsettled.start, hbegin⟩)
    (by
      rintro k c' ws hws ⟨h, hs, ht⟩
      obtain ⟨rounds, hmem, rfl⟩ := List.mem_map.mp hws
      refine ⟨(h.attempt (hturns rounds hmem)).1, hs.attempt (hturns rounds hmem),
        ht.attempt fun f hf => ?_⟩
      obtain ⟨r, hr⟩ := (h.replies (hturns rounds hmem)).2 f hf
      have hok' := h.ok.step (customersQuery_reads P) (c'.step_spec (customersQuery P) .retry)
      rw [← hs.retry.reply hok' (hturns rounds hmem).submitted (Client.asking_eq_some.mp hf).1 hr]
      exact hr)
  have hnow : customersNow P (c.run (customersQuery P) (poll attempts)).server =
      fetchCustomers (getCustomers P c.server.store.committed).reply :=
    congrArg (fun b => fetchCustomers (getCustomers P b).reply) hlast.committed
  rw [hnow]
  exact htold hpolling.tried.ended

/-- After any run, let no request arrive but those of two polls; a request that fails is sent again,
up to three times. After the second poll the dashboard shows the customers as they are; it shows an
error exactly if Prisma cannot read a balance. -/
theorem dashboard_converges (P : Prisma) (s : Store) (events : List (Event (Act Arrival)))
    (first second : List (List (List (Act Arrival)))) (n : Nat)
    (hn : (dashboard P s events).server.tasks.length + 2 * (RETRIES + 2) ≤ n)
    (hfirst : first.length = RETRIES + 1) (hsecond : second.length = RETRIES + 1)
    (hturns : ∀ rounds ∈ first ++ second, Turns n rounds) :
    let last := dashboard P s (events ++ poll first ++ poll second)
    last.isError = (customersNow P last.server).isNone ∧
      ∀ data, customersNow P last.server = some data →
        last.data = some data ∧ data = customerList last.server.store.committed := by
  have hok := dashboard_ok P s events
  obtain ⟨hnone, hquiet, hlen⟩ := poll_ends hok hfirst fun rounds hmem =>
    (hturns rounds (List.mem_append_left _ hmem)).mono (by omega)
  have hok₁ := hok.run (customersQuery_reads P) (poll first)
  obtain ⟨herror, hdata⟩ := poll_shows hok₁ hnone hquiet (by omega) hsecond
    fun rounds hmem => hturns rounds (List.mem_append_right _ hmem)
  intro last
  have hlast : last = Client.run (customersQuery P)
      ((dashboard P s events).run (customersQuery P) (poll first)) (poll second) := by
    show dashboard P s (events ++ poll first ++ poll second) = _
    rw [dashboard, Client.run_append, Client.run_append]
    rfl
  rw [hlast]
  exact ⟨herror, fun data h => ⟨hdata data h, customersNow_some h⟩⟩

/-- Enough turns for the purchase and the requests of two polls. -/
def pollRounds (n : Nat) : List (List (List (Act Arrival))) :=
  List.replicate (RETRIES + 1) (List.replicate (7 * n) ((List.range n).map .advance))

theorem submitted_advances (is : List Nat) :
    submitted (is.map fun i => (Act.advance i : Act Arrival)) = [] := by
  induction is with
  | nil => rfl
  | cons i is ih => exact ih

theorem turns_pollRounds {n : Nat} (h : rounds ∈ pollRounds n) : Turns n rounds := by
  obtain rfl := List.eq_of_mem_replicate h
  refine ⟨fun round hround => ?_, by simp⟩
  obtain rfl := List.eq_of_mem_replicate hround
  exact ⟨submitted_advances _, fun i hi => List.mem_map_of_mem (List.mem_range.mpr hi)⟩

theorem dashboard_converges_purchase :
    let last := dashboard .sqlite (shop 200) (purchasing ++ poll (pollRounds 11) ++
      poll (pollRounds 11))
    last.isError = (customersNow .sqlite last.server).isNone ∧
      ∀ data, customersNow .sqlite last.server = some data →
        last.data = some data ∧ data = customerList last.server.store.committed :=
  dashboard_converges .sqlite (shop 200) purchasing (pollRounds 11) (pollRounds 11) 11 (by decide)
    rfl rfl fun rounds h => turns_pollRounds ((List.mem_append.mp h).elim id id)

end Convergence

end UsageBilling
