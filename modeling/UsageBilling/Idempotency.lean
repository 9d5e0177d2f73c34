import UsageBilling.Verdict

/-!
# Idempotency keys

A `consume` with a key is deduplicated by the unique index, at its insert.

* `one_charge_per_key`: the requests that carry a key charge for one row at most.
* `retry_replays_iff`: a retry is answered with the original row exactly if the balance still
  covers the cost. The deduction runs before the insert, so a drained wallet answers 402 first.
* `answered_consumption`: an answered consume has the row of its own request, or of one that
  carries the same key.
-/

namespace UsageBilling

section Keys

variable {P : Prisma} {s s₀ : Store} {sched : List (Act Request)} {input : ConsumeInput}
  {key : String} {r : LedgerEntry}

/-! ## One charge for each key -/

/-- What the requests with the key `key` took from all balances together. -/
def deducted (P : Prisma) (key : String) (s₀ : Store) (sched : List (Act Request)) : Int :=
  -(server P).tally (fun r => r.key = some key) Store.total (Sys.init s₀) sched

/-- The change of the total by the requests with a key is the amount of the row with the key. -/
theorem tally_key (hnew : s₀.findKey key = none) :
    (server P).tally (fun r => r.key = some key) Store.total (Sys.init s₀) sched =
      ((serve P s₀ sched).store.findKey key).elim 0 (·.amount) := by
  have h : 0 + (server P).tally (fun r => r.key = some key) Store.total (Sys.init s₀) sched =
      ((serve P s₀ sched).store.findKey key).elim 0 (·.amount) := by
    refine Sys.tally_induction (S := server P)
      (M := fun p n => n = (p.store.findKey key).elim 0 (·.amount))
      ?_ ?_ ?_
    · simp [Sys.init, hnew]
    · exact fun _ _ _ h => h
    · rintro p n i t - hn
      show n + (if decide (t.request.key = some key) then
        (t.step P p.store).2.total - p.store.total else 0) =
          ((t.step P p.store).2.findKey key).elim 0 (·.amount)
      rcases (step_spec P t p.store).store with heq | ⟨e, hp, -, -, hkey⟩
      · rw [heq]; simpa using hn
      · rw [hp.findKey, hp.total, hkey]
        by_cases hk : t.request.key = some key
        · -- the first row with the key
          have hnone : p.store.findKey key = none :=
            Store.keyFree_some.mp ((hkey.trans hk) ▸ hp.free)
          rw [if_pos (decide_eq_true hk), if_pos hk, hn, hnone]
          simp only [Option.elim]
          omega
        · rw [if_neg (by simpa using hk), if_neg hk, hn, Int.add_zero]
  rwa [Int.zero_add] at h

/-- Whatever the requests do, the ledger has at most one row with a key that was unused; the
requests that carry it took minus the amount of that row (0 if there is none) and are answered 201
with that row only; a replay lookup finds the row; no unique violation is ever answered, and a
charge without a key never meets one. -/
theorem one_charge_per_key (P : Prisma) (s₀ : Store) (sched : List (Act Request)) {key : String}
    (hnew : s₀.findKey key = none) :
    ∃ row : Option LedgerEntry,
      (serve P s₀ sched).store.ledger.filter (fun e => e.idempotencyKey = some key) = row.toList ∧
      deducted P key s₀ sched = -row.elim 0 (·.amount) ∧
      (∀ t ∈ (serve P s₀ sched).tasks, t.request.key = some key → ∀ e,
        t.response = some ⟨201, .entry e⟩ → row = some e) ∧
      (∀ input err, .consume input (.replay err) ∈ (serve P s₀ sched).tasks →
        ∃ k o, input.idempotencyKey = some k ∧ (serve P s₀ sched).store.findKey k = some o ∧
          (Task.consume input (.replay err)).step P (serve P s₀ sched).store =
            (.consume input (.done (.ok o)), (serve P s₀ sched).store)) ∧
      (∀ t ∈ (serve P s₀ sched).tasks, t.answer ≠ some (.error (.prisma .uniqueViolation))) ∧
      ∀ input product, input.idempotencyKey = none →
        ((Txn.transaction (chargeTx P input product)).run (serve P s₀ sched).store).1 ≠
          .error (.prisma .uniqueViolation) := by
  refine ⟨(serve P s₀ sched).store.findKey key, Store.filter_key, by rw [deducted, tally_key hnew],
    ?_, ?_, ?_, ?_⟩
  · intro t ht hk e he
    have hok := serve_ok P s₀ sched t ht
    have ha := Task.answer_of_created he
    exact Store.findKey_of_mem (hok.mem_ledger ha) ((hok.key ha).trans hk)
  · intro input err ht
    obtain ⟨-, -, k, o, hk, ho⟩ := serve_ok P s₀ sched _ ht
    refine ⟨k, o, hk, ho, ?_⟩
    simp only [Task.step, run_replay hk, ho]
  · intro t ht ha
    have := (serve_ok P s₀ sched t ht).not_unique ha
    cases this
  · intro input product hnone hu
    have hch := charge_spec P input product (serve P s₀ sched).store
    rw [hu] at hch
    obtain ⟨-, c, k, o, -, -, hk, -⟩ := hch.key_of_unique rfl
    rw [hnone] at hk
    cases hk

/-- The ledger row of Ada's purchase. -/
def purchaseRow : LedgerEntry :=
  { customerId := "c1", type := .CONSUMPTION, idempotencyKey := some "k", productId := some "p1",
    quantity := some 1, unitPrice := some 100, amount := -100, id := 1 }

/-- Two submits of one purchase whose steps alternate. -/
def doubleFire : List (Act Request) :=
  [.submit (.consume (purchase "c1")), .submit (.consume (purchase "c1")), .advance 0, .advance 1,
    .advance 0, .advance 1, .advance 1]

theorem one_charge_per_key_doubleFire : (shop 200).findKey "k" = none ∧
    ∃ row : Option LedgerEntry,
      (serve .sqlite (shop 200) doubleFire).store.ledger.filter
        (fun e => e.idempotencyKey = some "k") = row.toList ∧
      deducted .sqlite "k" (shop 200) doubleFire = -row.elim 0 (·.amount) :=
  have ⟨row, hrow, hsum, _⟩ := one_charge_per_key .sqlite (shop 200) doubleFire (by decide)
  ⟨by decide, row, hrow, hsum⟩

/-! ## The retry of an answered request -/

/-- A consume whose key has a row and whose charge passes every check but the funds. -/
theorem run_consume_stored {product : Product} {c : Customer}
    (hp : s.products.find? input.productId = some product)
    (hints : (chargeInts input product).all P.int = true)
    (hc : s.customers.find? input.customerId = some c) (hkey : input.idempotencyKey = some key)
    (hr : s.findKey key = some r) :
    (consume P input).run s = (.ok r, s) ↔ cost product input ≤ c.balance := by
  have hout := service_outcome P (.consume input) s
  constructor
  · intro h
    by_contra hlt
    -- a short balance rejects the request
    rw [verdict_short hp (cost_of_chargeInts hints) hc (Int.not_le.mp hlt)] at hout
    have herr := hout.1
    rw [service, h] at herr
    cases herr
  · intro hle
    rw [verdict_replay hp hints hc hle hkey hr] at hout
    obtain ⟨hs, o, ho, ha⟩ := hout
    obtain rfl : r = o := Option.mem_unique hr ho
    exact Prod.ext ha hs

/-- The retry of a request that was answered 201 with the row `r`, in any later state: it is
answered 201 with `r` and changes nothing exactly if the balance covers the cost at that moment. -/
theorem retry_replays_iff (P : Prisma) (s₀ : Store) (sched post : List (Act Request))
    (input : ConsumeInput) (r : LedgerEntry) (hkey : input.idempotencyKey = some key)
    (ht : .consume input (.done (.ok r)) ∈ (serve P s₀ sched).tasks)
    (hs : s = (serve P s₀ (sched ++ post)).store) :
    ∃ product c, s.products.find? input.productId = some product ∧
      s.customers.find? input.customerId = some c ∧
      (Prod.map respondConsume id ((consume P input).run s) = (⟨201, .entry r⟩, s) ↔
        cost product input ≤ c.balance) := by
  obtain ⟨hch, hmem, hr, -⟩ := serve_ok P s₀ sched _ ht
  obtain ⟨es, hes⟩ := run_postings P (serve P s₀ sched) post
  rw [← Sys.run_append, ← hs] at hes
  obtain ⟨product, hp, hints, c, hc⟩ := hch.postings hes
  have hfind := hes.findKey_of_some (Store.findKey_of_mem hmem (hr.trans hkey))
  refine ⟨product, c, hp, hc, ?_⟩
  rw [← run_consume_stored hp hints hc hkey hfind, Prod.ext_iff, Prod.ext_iff]
  exact and_congr respondConsume_created Iff.rfl

/-- A purchase, alone. -/
def purchased : List (Act Request) :=
  [.submit (.consume (purchase "c1")), .advance 0, .advance 0]

theorem retry_replays_shop :
    Prod.map respondConsume id
        ((consume .sqlite (purchase "c1")).run (serve .sqlite (shop 200) purchased).store) =
      (⟨201, .entry purchaseRow⟩, (serve .sqlite (shop 200) purchased).store) := by
  obtain ⟨product, c, hp, hc, h⟩ := retry_replays_iff .sqlite (shop 200) purchased []
    (purchase "c1") purchaseRow rfl (List.mem_singleton.mpr rfl) rfl
  refine h.mpr ?_
  obtain rfl : ⟨"p1", "Widget", 100⟩ = product := Option.some.inj hp
  obtain rfl : ⟨"c1", "Ada", 100⟩ = c := Option.some.inj hc
  decide

/-- The purchase that takes the whole balance cannot be retried: it is refused for lack of
funds. -/
theorem retry_not_always_replayed :
    ¬ ∀ (P : Prisma) (s₀ : Store) (sched post : List (Act Request)) (input : ConsumeInput)
        (key : String) (r : LedgerEntry), input.idempotencyKey = some key → key ≠ "" →
      .consume input (.done (.ok r)) ∈ (serve P s₀ sched).tasks →
      Prod.map respondConsume id ((consume P input).run (serve P s₀ (sched ++ post)).store) =
        (⟨201, .entry r⟩, (serve P s₀ (sched ++ post)).store) := by
  intro h
  have hretry := h .sqlite (shop 100) purchased [] (purchase "c1") "k" purchaseRow rfl (by decide)
    (List.mem_singleton.mpr rfl)
  have hstatus : 402 = 201 := congrArg (fun answer => answer.1.status) hretry
  exact absurd hstatus (by decide)

/-! ## Whose row an answer is -/

/-- The row records this consumption. -/
def Records (input : ConsumeInput) (e : LedgerEntry) : Prop :=
  e.customerId = input.customerId ∧ e.productId = some input.productId ∧
    e.quantity = some input.quantity

/-- From a store without keyed rows: a consume answered 201 has a `CONSUMPTION` row with its own
key, and the row records this request or another one of the run with the same key. So it records
this request if it has no key, or if all requests with its key ask for the same. -/
theorem answered_consumption (P : Prisma) (s₀ : Store) (sched : List (Act Request))
    (input : ConsumeInput) (r : LedgerEntry) (hs₀ : ∀ e ∈ s₀.ledger, e.idempotencyKey = none)
    (ht : .consume input (.done (.ok r)) ∈ (serve P s₀ sched).tasks) :
    r.type = .CONSUMPTION ∧ r.idempotencyKey = input.idempotencyKey ∧
      (∃ other, .consume other ∈ submitted sched ∧
        other.idempotencyKey = input.idempotencyKey ∧ Records other r) ∧
      ((∀ other, .consume other ∈ submitted sched → input.idempotencyKey ≠ none →
        other.idempotencyKey = input.idempotencyKey → other = input) → Records input r) := by
  obtain ⟨-, hmem, hkey, hown⟩ := serve_ok P s₀ sched _ ht
  have hsub : Request.consume input ∈ submitted sched := Sys.request_mem (S := server P) ht
  have hwrites : ∀ {other}, (Request.consume other).Writes (serve P s₀ sched).store r →
      r.type = .CONSUMPTION ∧ Records other r := fun ⟨product, _, he⟩ =>
    ⟨congrArg LedgerData.type he, congrArg LedgerData.customerId he,
      congrArg LedgerData.productId he, congrArg LedgerData.quantity he⟩
  cases hk : input.idempotencyKey with
  | none =>
    obtain ⟨htype, hrec⟩ := hwrites (hown hk)
    exact ⟨htype, hkey.trans hk, ⟨input, hsub, hk, hrec⟩, fun _ => hrec⟩
  | some key =>
    -- a row with a key is new, so a request of the run has written it
    obtain ⟨es, hes, hans⟩ := serve_postings P s₀ sched
    have hes' : r ∈ es := by
      rw [hes.ledger] at hmem
      refine (List.mem_append.mp hmem).resolve_left fun h => ?_
      rw [hs₀ r h, hk] at hkey
      cases hkey
    obtain ⟨t, htask, -, hw⟩ := hans r hes'
    have hreq : t.request ∈ submitted sched := Sys.request_mem (S := server P) htask
    generalize t.request = req at hw hreq
    have hreqkey : r.idempotencyKey = req.key := hw.key
    rw [hkey, hk] at hreqkey
    cases req with
    | credit c => cases hreqkey
    | consume other =>
      obtain ⟨htype, hrec⟩ := hwrites (hw.of_products hes.products)
      have hother : other.idempotencyKey = some key := hreqkey.symm
      exact ⟨htype, hkey.trans hk, ⟨other, hreq, hother, hrec⟩,
        fun h => h other hreq (by simp) hother ▸ hrec⟩

/-- Bob's purchase with the key that Ada's purchase used. -/
def sharedKey : List (Act Request) :=
  purchased ++ [.submit (.consume (purchase "c2")), .advance 1, .advance 1, .advance 1]

theorem answered_consumption_shop : purchaseRow.type = .CONSUMPTION ∧
    ∃ other, .consume other ∈ submitted sharedKey ∧
      other.idempotencyKey = (purchase "c2").idempotencyKey ∧ Records other purchaseRow :=
  have h := answered_consumption .sqlite (shop 100) sharedKey (purchase "c2") purchaseRow
    (by simp [shop, Store.fresh])
    (List.mem_cons_of_mem _ (List.mem_singleton.mpr rfl))
  ⟨h.1, h.2.2.1⟩

/-- With a key of another customer, a consume is answered 201 with the other customer's row. -/
theorem answered_not_always_own :
    ¬ ∀ (P : Prisma) (s₀ : Store) (sched : List (Act Request)) (input : ConsumeInput)
        (r : LedgerEntry), s₀.ledger = [] →
      .consume input (.done (.ok r)) ∈ (serve P s₀ sched).tasks →
      r.type = .CONSUMPTION ∧ Records input r := by
  intro h
  have hbob := h .sqlite (shop 100) sharedKey (purchase "c2") purchaseRow rfl
    (List.mem_cons_of_mem _ (List.mem_singleton.mpr rfl))
  have hid : "c1" = "c2" := hbob.2.1
  exact absurd hid (by decide)

end Keys

end UsageBilling
