import UsageBilling.Seed
import UsageBilling.Verdict

/-!
# The seed over a store with traffic

Every `docker compose up` seeds the database again. Between two runs of the seed, requests have
moved balances and written rows.

* `Undisturbed`: what a ledger promises: the seed keeps the difference between each balance and its
  ledger, and every row that a request has written.
* `reseed_undisturbed_iff`: exactly when the seed keeps that.
-/

namespace UsageBilling

/-- The seed ran on `s`, a store reached from the seeded store `s₀`, and left `s'`. -/
structure Undisturbed (s₀ s s' : Store) : Prop where
  drift : ∀ id c c', s.customers.find? id = some c → s'.customers.find? id = some c' →
    c'.balance - (amountsOf id s'.ledger).sum = c.balance - (amountsOf id s.ledger).sum
  kept : ∀ e ∈ s.ledger, e ∉ s₀.ledger → e ∈ s'.ledger

/-- No request has changed what the seed writes: the balances of its customers are the seeded
ones, and no consumption of the heavy customer was charged. -/
structure Untouched (s₀ s : Store) : Prop where
  balance : ∀ c ∈ CUSTOMERS, ∃ c', s.customers.find? c.id = some c' ∧ c'.balance = c.balance
  noHeavy : ∀ e ∈ s.ledger, e ∉ s₀.ledger → heavyConsumption e = false

/-! ## Amounts -/

theorem sum_amountsOf_append (id : String) (es es' : List LedgerEntry) :
    (amountsOf id (es ++ es')).sum = (amountsOf id es).sum + (amountsOf id es').sum := by
  rw [amountsOf, List.filter_append, List.map_append, List.sum_append]
  rfl

theorem sum_amountsOf_filter (id : String) (p : LedgerEntry → Bool) (es : List LedgerEntry) :
    (amountsOf id es).sum =
      (amountsOf id (es.filter p)).sum + (amountsOf id (es.filter fun e => !p e)).sum := by
  induction es with
  | nil => rfl
  | cons e es ih =>
    rw [amountsOf_cons, List.sum_append, ih]
    cases hp : p e with
    | true =>
      rw [List.filter_cons_of_pos hp, List.filter_cons_of_neg (by simp [hp]), amountsOf_cons,
        List.sum_append]
      omega
    | false =>
      rw [List.filter_cons_of_neg (by simp [hp]), List.filter_cons_of_pos (by simp [hp]),
        amountsOf_cons, List.sum_append]
      omega

/-- Rows with the same data have the same amounts. -/
theorem amountsOf_congr {es es' : List LedgerEntry} (id : String)
    (h : es.map (·.toLedgerData) = es'.map (·.toLedgerData)) :
    amountsOf id es = amountsOf id es' := by
  have hdata : ∀ l : List LedgerEntry, amountsOf id l =
      ((l.map (·.toLedgerData)).filter fun d => d.customerId = id).map (·.amount) := fun l => by
    rw [amountsOf, List.filter_map, List.map_map]
    rfl
  rw [hdata, hdata, h]

/-! ## A second run of the seed -/

section Reseed

variable {P : Prisma} {before s₀ s s' : Store} {es : List LedgerEntry}

/-- The rows posted since the first run, and those there were. -/
theorem mem_posted (hps : Postings P s₀ es s) {e : LedgerEntry} :
    e ∈ es ↔ e ∈ s.ledger ∧ e ∉ s₀.ledger := by
  rw [hps.ledger, List.mem_append]
  exact ⟨fun he => ⟨.inr he, Store.not_mem_of_seq_lt (hps.seq_lt e he)⟩,
    fun ⟨he, hn⟩ => he.resolve_left hn⟩

/-- The amounts of a customer's rows after the second run: those of the posted rows that were
deleted are missing. -/
theorem amounts_reseeded (h₀ : Seeded before s₀) (hps : Postings P s₀ es s) (h : Seeded s s')
    (id : String) : (amountsOf id s.ledger).sum =
      (amountsOf id s'.ledger).sum + (amountsOf id (es.filter heavyConsumption)).sum := by
  obtain ⟨hs, hfilter, hdata⟩ := h₀.filter_heavy
  obtain ⟨hs', hfilter', hdata'⟩ := h.filter_heavy
  rw [sum_amountsOf_filter id heavyConsumption s.ledger,
    sum_amountsOf_filter id heavyConsumption s'.ledger, hfilter', h.filter_other, hps.ledger,
    List.filter_append, hfilter, sum_amountsOf_append,
    amountsOf_congr id (hdata.trans hdata'.symm)]
  omega

/-- The second run deletes exactly the posted consumptions of the heavy customer. -/
theorem mem_reseeded (h : Seeded s s') {e : LedgerEntry} (he : e ∈ s.ledger) :
    e ∈ s'.ledger ↔ heavyConsumption e = false := by
  obtain ⟨hs', hledger, -, hid⟩ := h.ledger
  rw [hledger, List.mem_append, List.mem_filter]
  refine ⟨fun hmem => ?_, fun hno => .inl ⟨he, by simp [hno]⟩⟩
  rcases hmem with ⟨-, hno⟩ | hmem
  · simpa using hno
  · exact absurd he (Store.not_mem_of_seq_lt (hid e hmem))

theorem kept_iff (h : Seeded s s') : (∀ e ∈ s.ledger, e ∉ s₀.ledger → e ∈ s'.ledger) ↔
    ∀ e ∈ s.ledger, e ∉ s₀.ledger → heavyConsumption e = false :=
  forall₂_congr fun _ he => imp_congr_right fun _ => mem_reseeded h he

/-- A seeded customer is there in every store reached from the seeded one. -/
theorem seeded_find? (h₀ : Seeded before s₀) (hps : Postings P s₀ es s) {c : Customer}
    (hc : c ∈ CUSTOMERS) : ∃ c', s.customers.find? c.id = some c' := by
  rw [hps.find?, h₀.customer c hc]
  exact ⟨_, rfl⟩

/-- If no row was deleted, the second run keeps the difference to the ledger exactly for the
balances that it does not change. -/
theorem drift_iff (h₀ : Seeded before s₀) (hps : Postings P s₀ es s) (h : Seeded s s')
    (hno : es.filter heavyConsumption = []) :
    (∀ id c c', s.customers.find? id = some c → s'.customers.find? id = some c' →
      c'.balance - (amountsOf id s'.ledger).sum = c.balance - (amountsOf id s.ledger).sum) ↔
    ∀ c ∈ CUSTOMERS, ∃ c', s.customers.find? c.id = some c' ∧ c'.balance = c.balance := by
  have hamounts : ∀ id, (amountsOf id s.ledger).sum = (amountsOf id s'.ledger).sum := fun id => by
    rw [amounts_reseeded h₀ hps h id, hno, amountsOf_nil, List.sum_nil, Int.add_zero]
  refine ⟨fun hdrift c hc => ?_, fun hbal id c c' hfind hfind' => ?_⟩
  · obtain ⟨c₁, hc₁⟩ := seeded_find? h₀ hps hc
    have := hdrift c.id c₁ c hc₁ (h.customer c hc)
    rw [hamounts] at this
    exact ⟨c₁, hc₁, by omega⟩
  · by_cases hid : id ∈ CUSTOMERS.map (·.id)
    · obtain ⟨c₀, hc₀, rfl⟩ := List.mem_map.mp hid
      obtain ⟨c₁, hc₁, hb⟩ := hbal c₀ hc₀
      rw [h.customer c₀ hc₀] at hfind'
      rw [hc₁] at hfind
      obtain rfl := Option.some.inj hfind
      obtain rfl := Option.some.inj hfind'
      rw [hamounts, hb]
    · rw [h.converged.otherCustomer id hid, hfind] at hfind'
      rw [hamounts, Option.some.inj hfind']

end Reseed

/-- A second run of the seed, after any requests, keeps every balance consistent with its ledger
and every row of a request exactly if no request has changed what the seed writes. -/
theorem reseed_undisturbed_iff (P : Prisma) (hP : P.AcceptsInt32) (before : Store)
    (sched : List (Act Request)) :
    let s₀ := ((seed P).run before).2
    let s := (serve P s₀ sched).store
    Undisturbed s₀ s ((seed P).run s).2 ↔ Untouched s₀ s := by
  intro s₀ s
  obtain ⟨s₁, hrun₁, h₀⟩ := run_seed hP before
  obtain ⟨s', hrun', h⟩ := run_seed hP s
  have hs₀ : s₀ = s₁ := by simp only [s₀, hrun₁]
  rw [← hs₀] at h₀
  obtain ⟨es, hps⟩ : ∃ es, Postings P s₀ es s := run_postings P (Sys.init s₀) sched
  have hheavy : (∀ e ∈ s.ledger, e ∉ s₀.ledger → heavyConsumption e = false) →
      es.filter heavyConsumption = [] := fun hno => by
    refine List.filter_eq_nil_iff.mpr fun e he => ?_
    obtain ⟨hmem, hn⟩ := (mem_posted hps).mp he
    rw [hno e hmem hn]
    exact Bool.false_ne_true
  rw [hrun']
  refine ⟨fun hu => ?_, fun hu => ?_⟩
  · have hno := (kept_iff h).mp hu.kept
    exact ⟨(drift_iff h₀ hps h (hheavy hno)).mp hu.drift, hno⟩
  · exact ⟨(drift_iff h₀ hps h (hheavy hu.noHeavy)).mpr hu.balance, (kept_iff h).mpr hu.noHeavy⟩

/-- A top-up that runs alone in a store where its customer exists. -/
theorem serve_credit (P : Prisma) (input : CreditInput) {s : Store} {c : Customer}
    (hread : P.column input.amount = true)
    (hc : s.customers.find? input.customerId = some c)
    (hpos : 0 < input.amount) : ∃ e, e.toLedgerData = creditData input ∧
      Posted P s e (serve P s [.submit (.credit input), .advance 0]).store := by
  have hbal := Store.balance_nonneg_of_find? hc
  obtain ⟨e, -, he, hp⟩ := service_credited hread hc (by omega)
  exact ⟨e, he, by rw [run_credit_alone]; exact hp⟩

/-- A top-up of a customer that is not seeded. -/
theorem reseed_undisturbed_iff_inUse :
    let s₀ := ((seed .sqlite).run inUse).2
    let s := (serve .sqlite s₀ [.submit (.credit ⟨"c1", 10⟩), .advance 0]).store
    Undisturbed s₀ s ((seed .sqlite).run s).2 := by
  refine (reseed_undisturbed_iff .sqlite Prisma.sqlite_acceptsInt32 inUse _).mpr ?_
  obtain ⟨s₀, hrun, h₀⟩ := run_seed Prisma.sqlite_acceptsInt32 inUse
  rw [hrun]
  have hc : s₀.customers.find? "c1" = some ⟨"c1", "Ada", 70⟩ :=
    h₀.converged.otherCustomer "c1" (by decide)
  obtain ⟨e, he, hp⟩ := serve_credit .sqlite ⟨"c1", 10⟩ rfl hc (by decide)
  have hid : e.customerId = "c1" := congrArg LedgerData.customerId he
  refine ⟨fun c hmem => ⟨c, ?_, rfl⟩, fun e' he' hn => ?_⟩
  · have hne : c.id ≠ e.customerId := by
      rw [hid]
      revert c
      decide
    rw [hp.find?_ne hne, h₀.customer c hmem]
  · obtain rfl := hp.eq_of_new he' hn
    simp [heavyConsumption, hid, HEAVY_CUSTOMER_ID]

/-- The second run takes a top-up of a seeded customer away, but keeps its row. -/
theorem reseed_disturbs : ¬ ∀ (P : Prisma), P.AcceptsInt32 → ∀ (before : Store)
    (sched : List (Act Request)),
    let s₀ := ((seed P).run before).2
    let s := (serve P s₀ sched).store
    Undisturbed s₀ s ((seed P).run s).2 := by
  intro hall
  have hu := hall .sqlite Prisma.sqlite_acceptsInt32 inUse
    [.submit (.credit ⟨"cust_acme", 100⟩), .advance 0]
  obtain ⟨s₀, hrun₀, h₀⟩ := run_seed Prisma.sqlite_acceptsInt32 inUse
  have hc : s₀.customers.find? "cust_acme" = some ⟨"cust_acme", "Acme Corp", 100000⟩ :=
    h₀.customer ⟨"cust_acme", "Acme Corp", 100000⟩ (by decide)
  obtain ⟨e, he, hp⟩ := serve_credit .sqlite ⟨"cust_acme", 100⟩ rfl hc (by decide)
  have hid : e.customerId = "cust_acme" := congrArg LedgerData.customerId he
  have hamount : e.amount = 100 := congrArg LedgerData.amount he
  have hcredit : heavyConsumption e = false := by simp [heavyConsumption, hid, HEAVY_CUSTOMER_ID]
  obtain ⟨s', hrun', h⟩ := run_seed Prisma.sqlite_acceptsInt32
    (serve .sqlite s₀ [.submit (.credit ⟨"cust_acme", 100⟩), .advance 0]).store
  simp only [hrun₀, hrun'] at hu
  have hdrift := hu.drift "cust_acme" _ ⟨"cust_acme", "Acme Corp", 100000⟩
    (hid ▸ hp.find?_self (hid ▸ hc)) (h.customer ⟨"cust_acme", "Acme Corp", 100000⟩ (by decide))
  have hsum := amounts_reseeded h₀ (Postings.one hp) h "cust_acme"
  simp only [List.filter_cons, hcredit, Bool.false_eq_true, ↓reduceIte, List.filter_nil,
    amountsOf_nil, List.sum_nil, Int.add_zero] at hsum
  rw [hamount, hsum] at hdrift
  simp only at hdrift
  omega

end UsageBilling
