import UsageBilling.Server

/-!
# What decides a request

What a request that runs alone does depends on three things in the store only: its product, its
customer, and whether its key is free.

* `verdict P s r`: what the service decides. `verdict_congr`: stores that agree on the three things
  have the same verdict.
* `Verdict.Outcome`: what a verdict does; `service_outcome`: the service does it.
* `Decides`: a charge posts its row or refuses for the funds; `Charge.decides_cases`.
-/

namespace UsageBilling

/-- What becomes of a request. -/
inductive Verdict where
  | reject (err : Error)
  /-- The answer is the row with this key. -/
  | replay (key : String)
  /-- A row with this data is posted. -/
  | post (d : LedgerData)
  deriving DecidableEq

/-- The checks of a charge, in the order in which they fail. -/
def chargeVerdict (P : Prisma) (input : ConsumeInput) (product : Product)
    (customer : Option Customer) (free : Bool) : Verdict :=
  if P.int (cost product input) then
    match customer with
    | none => .reject (customerMissing input.customerId)
    | some c =>
      if cost product input ≤ c.balance then
        if (consumptionData input product).ints.all P.int then
          match input.idempotencyKey, free with
          | some key, false => .replay key
          | _, _ =>
            if (consumptionData input product).ints.all P.column then
              .post (consumptionData input product)
            else .reject (.prisma .intRange)
        else .reject (.prisma .intRange)
      else if P.column c.balance then .reject (.insufficientFunds c.balance (cost product input))
      else .reject (.prisma .intRange)
  else .reject (.prisma .intRange)

/-- The verdict on a credit, from its customer. -/
def creditVerdict (P : Prisma) (input : CreditInput) (customer : Option Customer) : Verdict :=
  if P.int input.amount then
    match customer with
    | none => .reject (.customerNotFound input.customerId)
    | some c =>
      if c.balance + input.amount < 0 then .reject (.prisma .checkViolation)
      else if P.column input.amount then .post (creditData input)
      else .reject (.prisma .intRange)
  else .reject (.prisma .intRange)

/-- The verdict on a request in this store. -/
def verdict (P : Prisma) (s : Store) : Request → Verdict
  | .consume input =>
    match s.products.find? input.productId with
    | none => .reject (productNotFound input.productId)
    | some product =>
      chargeVerdict P input product (s.customers.find? input.customerId)
        (s.keyFree input.idempotencyKey)
  | .credit input => creditVerdict P input (s.customers.find? input.customerId)

/-- What a verdict on a request in the store `s` does. -/
def Verdict.Outcome (P : Prisma) (s : Store) : Verdict → Answer → Store → Prop
  | .reject err, answer, s' => answer = .error err ∧ s' = s
  | .replay key, answer, s' => s' = s ∧ ∃ original, s.findKey key = some original ∧
      answer = .ok original
  | .post d, answer, s' => ∃ e, answer = .ok e ∧ e.toLedgerData = d ∧ Posted P s e s'

/-- The customer whose wallet it is. -/
def Request.customerId : Request → String
  | .consume input => input.customerId
  | .credit input => input.customerId

/-- The transaction of the charge posts a row or refuses for the funds. -/
def Decides (P : Prisma) (s : Store) (input : ConsumeInput) (product : Product) : Prop :=
  P.int (cost product input) = true ∧ ∃ c, s.customers.find? input.customerId = some c ∧
    (cost product input ≤ c.balance ∧ chargeFits P input product = true ∧
        s.keyFree input.idempotencyKey = true ∨
      c.balance < cost product input ∧ P.column c.balance = true)

section Verdict

variable {P : Prisma} {s s' : Store} {r : Request} {answer : Answer}

/-- Stores that agree on the products, on the customer and on the key of a request. -/
theorem verdict_congr (hp : s'.products = s.products)
    (hc : s'.customers.find? r.customerId = s.customers.find? r.customerId)
    (hk : s'.keyFree r.key = s.keyFree r.key) : verdict P s' r = verdict P s r := by
  cases r with
  | consume input =>
    simp only [Request.customerId, Request.key] at hc hk
    simp only [verdict, hp, hc, hk]
  | credit input =>
    simp only [Request.customerId] at hc
    simp only [verdict, hc]

/-- A charge posts its row or refuses for the funds if it decides, and else does neither. -/
theorem Charge.decides_cases {input : ConsumeInput} {product : Product} {r : Answer}
    (h : Charge P input product s r s') :
    (¬ Decides P s input product ∧ s' = s ∧ ∃ err, r = .error err ∧
      ∀ balance required, err ≠ .insufficientFunds balance required) ∨
    (Decides P s input product ∧ s' = s ∧ ∃ c, s.customers.find? input.customerId = some c ∧
      c.balance < cost product input ∧
      r = .error (.insufficientFunds c.balance (cost product input))) ∨
    (Decides P s input product ∧ ∃ e, r = .ok e ∧ e.toLedgerData = consumptionData input product ∧
      Posted P s e s') := by
  cases h with
  | refused href =>
    refine .inl ⟨?_, rfl, _, rfl, fun _ _ => nofun⟩
    rintro ⟨hcost, c, hc, hdec⟩
    rcases href with hno | ⟨-, c', hc', hno⟩
    · rw [hcost] at hno; cases hno
    obtain rfl : c = c' := Option.mem_unique hc hc'
    rcases hdec with ⟨hle, hfits, -⟩ | ⟨hlt, hread⟩
    · rcases hno with ⟨hlt, -⟩ | ⟨-, hno | ⟨-, hno⟩⟩
      · omega
      · rw [← all_chargeInts hcost, ints_of_chargeFits hfits] at hno; cases hno
      · rw [(chargeFits_iff.mp hfits).2] at hno; cases hno
    · rcases hno with ⟨-, hno⟩ | ⟨hle, -⟩
      · rw [hread] at hno; cases hno
      · omega
  | missing hcost hnone =>
    refine .inl ⟨?_, rfl, _, rfl, fun _ _ => nofun⟩
    rintro ⟨-, c, hc, -⟩
    rw [hnone] at hc; cases hc
  | short hcost c hc hlt hread =>
    exact .inr (.inl ⟨⟨hcost, c, hc, .inr ⟨hlt, hread⟩⟩, rfl, c, hc, hlt, rfl⟩)
  | duplicate hints c hc hle key original hkey ho =>
    refine .inl ⟨?_, rfl, _, rfl, fun _ _ => nofun⟩
    rintro ⟨-, c', hc', ⟨-, -, hfree⟩ | ⟨hlt, -⟩⟩
    · rw [hkey, Store.keyFree_some, ho] at hfree; cases hfree
    · obtain rfl : c = c' := Option.mem_unique hc hc'
      omega
  | posted hfits c hc hle e _ he hp =>
    have hkey : e.idempotencyKey = input.idempotencyKey := congrArg LedgerData.idempotencyKey he
    have hfree := hp.free
    rw [hkey] at hfree
    have hcost := (chargeFits_iff.mp hfits).1
    exact .inr (.inr ⟨⟨hcost, c, hc, .inl ⟨hle, hfits, hfree⟩⟩, e, rfl, he, hp⟩)

theorem Charge.outcome {input : ConsumeInput} {product : Product} {err : Error}
    (hp : s.products.find? input.productId = some product)
    (h : Charge P input product s (.error err) s) (hu : isUniqueViolation err = false) :
    verdict P s (.consume input) = .reject err := by
  simp only [verdict, hp, chargeVerdict]
  cases h with
  | refused h =>
    rcases h with hcost | ⟨hcost, c, hc, ⟨hlt, hread⟩ | ⟨hle, hints | ⟨hfree, hno⟩⟩⟩
    · rw [hcost]
      rfl
    · simp only [hcost, hc, ↓reduceIte, if_neg (Int.not_le.mpr hlt), hread, Bool.false_eq_true]
    · simp only [hcost, hc, ↓reduceIte, if_pos hle, hints, Bool.false_eq_true]
    · simp only [hcost, hc, ↓reduceIte, if_pos hle, hfree, hno, Bool.false_eq_true]
      cases input.idempotencyKey <;> simp
  | missing hcost hnone => simp only [hcost, hnone, ↓reduceIte]
  | short hcost c hc hlt hread =>
    simp only [hcost, hc, ↓reduceIte, if_neg (Int.not_le.mpr hlt), hread]
  | duplicate => cases hu

/-- The verdict on a charge that the balance covers and whose key has a row. -/
theorem verdict_replay {input : ConsumeInput} {product : Product} {c : Customer} {key : String}
    {original : LedgerEntry} (hp : s.products.find? input.productId = some product)
    (hints : (chargeInts input product).all P.int = true)
    (hc : s.customers.find? input.customerId = some c) (hle : cost product input ≤ c.balance)
    (hkey : input.idempotencyKey = some key) (ho : s.findKey key = some original) :
    verdict P s (.consume input) = .replay key := by
  have hcost := cost_of_chargeInts hints
  have htaken : s.keyFree (some key) = false := by simp [Store.keyFree, ho]
  rw [all_chargeInts hcost] at hints
  simp only [verdict, hp, chargeVerdict, hcost, hc, ↓reduceIte, if_pos hle, hints, hkey, htaken]

/-- The verdict on a charge that passes every check. -/
theorem verdict_charge {input : ConsumeInput} {product : Product} {c : Customer}
    (hp : s.products.find? input.productId = some product)
    (hfits : chargeFits P input product = true)
    (hc : s.customers.find? input.customerId = some c) (hle : cost product input ≤ c.balance)
    (hfree : s.keyFree input.idempotencyKey = true) :
    verdict P s (.consume input) = .post (consumptionData input product) := by
  obtain ⟨hcost, hread⟩ := chargeFits_iff.mp hfits
  have hints := ints_of_columns hread
  simp only [verdict, hp, chargeVerdict, hcost, hc, ↓reduceIte, if_pos hle, hints, hfree, hread]
  cases input.idempotencyKey <;> rfl

theorem Consumed.outcome {input : ConsumeInput} (h : Consumed P input s answer s') :
    (verdict P s (.consume input)).Outcome P s answer s' := by
  cases h with
  | noProduct hp =>
    simp only [verdict, hp]
    exact ⟨rfl, rfl⟩
  | failed product hp err hch hu =>
    rw [hch.outcome hp hu]
    exact ⟨rfl, rfl⟩
  | replayed product hp hints c hc hle key o hkey ho =>
    rw [verdict_replay hp hints hc hle hkey ho]
    exact ⟨rfl, o, ho, rfl⟩
  | posted product hp e _ hch =>
    cases hch with
    | posted hfits c hc hle _ _ he hpost =>
      have hfree := hpost.free
      rw [show e.idempotencyKey = input.idempotencyKey from
        congrArg LedgerData.idempotencyKey he] at hfree
      rw [verdict_charge hp hfits hc hle hfree]
      exact ⟨e, rfl, he, hpost⟩

theorem Credited.outcome {input : CreditInput} (h : Credited P input s answer s') :
    (verdict P s (.credit input)).Outcome P s answer s' := by
  simp only [verdict, creditVerdict]
  cases h with
  | refused hint =>
    rw [hint]
    exact ⟨rfl, rfl⟩
  | missing hint hc =>
    simp only [hint, ↓reduceIte, hc]
    exact ⟨rfl, rfl⟩
  | overdrawn hint c hc hneg =>
    simp only [hint, ↓reduceIte, hc, if_pos hneg]
    exact ⟨rfl, rfl⟩
  | unreadable hint hno c hc hle =>
    simp only [hint, ↓reduceIte, hc, if_neg (Int.not_lt.mpr hle), hno, Bool.false_eq_true]
    exact ⟨rfl, rfl⟩
  | posted hread c hc hle e s' he hp =>
    simp only [P.int_of_column _ hread, ↓reduceIte, hc, if_neg (Int.not_lt.mpr hle), hread]
    exact ⟨e, rfl, he, hp⟩

/-- The service does what the verdict says. -/
theorem service_outcome (P : Prisma) (r : Request) (s : Store) :
    (verdict P s r).Outcome P s (service P r s).1 (service P r s).2 := by
  cases r with
  | consume input => exact (consume_spec P input s).outcome
  | credit input => exact (credit_spec P input s).outcome

/-- A balance that covers the cost pays for the request. -/
theorem service_paid {input : ConsumeInput} {product : Product} {c : Customer}
    (hp : s.products.find? input.productId = some product)
    (hfits : chargeFits P input product = true)
    (hc : s.customers.find? input.customerId = some c) (hle : cost product input ≤ c.balance)
    (hfree : s.keyFree input.idempotencyKey = true) :
    ∃ e, (service P (.consume input) s).1 = .ok e ∧
      e.toLedgerData = consumptionData input product ∧
      Posted P s e (service P (.consume input) s).2 := by
  have hout := service_outcome P (.consume input) s
  rw [verdict_charge hp hfits hc hle hfree] at hout
  exact hout

/-- A balance below the cost refuses the request, with the balance if Prisma can read it. -/
theorem verdict_short {input : ConsumeInput} {product : Product} {c : Customer}
    (hp : s.products.find? input.productId = some product)
    (hcost : P.int (cost product input) = true) (hc : s.customers.find? input.customerId = some c)
    (hlt : c.balance < cost product input) :
    verdict P s (.consume input) = .reject (if P.column c.balance then
      .insufficientFunds c.balance (cost product input) else .prisma .intRange) := by
  simp only [verdict, hp, chargeVerdict, hcost, hc, ↓reduceIte, if_neg (Int.not_le.mpr hlt)]
  split <;> rfl

theorem service_short {input : ConsumeInput} {product : Product} {c : Customer}
    (hp : s.products.find? input.productId = some product)
    (hcost : P.int (cost product input) = true) (hc : s.customers.find? input.customerId = some c)
    (hlt : c.balance < cost product input) (hread : P.column c.balance = true) :
    service P (.consume input) s =
      (.error (.insufficientFunds c.balance (cost product input)), s) := by
  have hout := service_outcome P (.consume input) s
  rw [verdict_short hp hcost hc hlt, if_pos hread] at hout
  exact Prod.ext hout.1 hout.2

/-- A top-up whose row can be read back and that leaves no negative balance succeeds. -/
theorem service_credited {input : CreditInput} {c : Customer}
    (hread : P.column input.amount = true)
    (hc : s.customers.find? input.customerId = some c) (hle : 0 ≤ c.balance + input.amount) :
    ∃ e, (service P (.credit input) s).1 = .ok e ∧ e.toLedgerData = creditData input ∧
      Posted P s e (service P (.credit input) s).2 := by
  have hout := service_outcome P (.credit input) s
  have hv : verdict P s (.credit input) = .post (creditData input) := by
    simp only [verdict, creditVerdict, P.int_of_column _ hread, hread, hc, ↓reduceIte,
      if_neg (Int.not_lt.mpr hle)]
  rw [hv] at hout
  exact hout

theorem chargeVerdict_post {input : ConsumeInput} {product : Product} {customer : Option Customer}
    {free : Bool} {d : LedgerData} (h : chargeVerdict P input product customer free = .post d) :
    d = consumptionData input product := by
  unfold chargeVerdict at h
  split at h
  · split at h
    · cases h
    · split at h
      · split at h
        · split at h
          · cases h
          · split at h
            · exact (Verdict.post.inj h).symm
            · cases h
        · cases h
      · split at h <;> cases h
  · cases h

theorem creditVerdict_post {input : CreditInput} {customer : Option Customer} {d : LedgerData}
    (h : creditVerdict P input customer = .post d) : d = creditData input := by
  unfold creditVerdict at h
  split at h
  · split at h
    · cases h
    · split at h
      · cases h
      · split at h
        · exact (Verdict.post.inj h).symm
        · cases h
  · cases h

/-- The row of a verdict is the row that the request writes. -/
theorem Request.Writes.of_verdict {e : LedgerEntry} (h : verdict P s r = .post e.toLedgerData) :
    r.Writes s e := by
  cases r with
  | consume input =>
    simp only [verdict] at h
    split at h
    · cases h
    · rename_i product hp
      exact ⟨product, hp, chargeVerdict_post h⟩
  | credit input => exact creditVerdict_post h

theorem Request.Writes.customerId {e : LedgerEntry} (h : r.Writes s e) :
    e.customerId = r.customerId := by
  cases r with
  | consume input =>
    obtain ⟨product, -, he⟩ := h
    exact congrArg LedgerData.customerId he
  | credit input => exact congrArg LedgerData.customerId h

theorem Request.Writes.key {e : LedgerEntry} (h : r.Writes s e) : e.idempotencyKey = r.key := by
  cases r with
  | consume input =>
    obtain ⟨product, -, he⟩ := h
    exact congrArg LedgerData.idempotencyKey he
  | credit input => exact congrArg LedgerData.idempotencyKey h

/-- A replay is of the request's key. -/
theorem key_of_replay {key : String} (h : verdict P s r = .replay key) : r.key = some key := by
  cases r with
  | consume input =>
    simp only [verdict] at h
    split at h
    · cases h
    · unfold chargeVerdict at h
      split at h
      · split at h
        · cases h
        · split at h
          · split at h
            · split at h
              · rename_i hkey _
                rw [Request.key, hkey, Verdict.replay.inj h]
              · split at h <;> cases h
            · cases h
          · split at h <;> cases h
      · cases h
  | credit input =>
    simp only [verdict, creditVerdict] at h
    split at h
    · split at h
      · cases h
      · split at h
        · cases h
        · split at h <;> cases h
    · cases h

/-- A request writes nothing, or it posts its row and is answered with it. A row that it is
answered with is in the ledger. -/
theorem service_cases (P : Prisma) (r : Request) (s : Store) :
    ((service P r s).2 = s ∧ ∀ e, (service P r s).1 = .ok e → e ∈ s.ledger) ∨
    ∃ e, (service P r s).1 = .ok e ∧ r.Writes s e ∧ Posted P s e (service P r s).2 := by
  have h := service_outcome P r s
  cases hv : verdict P s r with
  | reject err =>
    rw [hv] at h
    obtain ⟨ha, hs⟩ := h
    exact .inl ⟨hs, fun e he => by rw [ha] at he; cases he⟩
  | replay key =>
    rw [hv] at h
    obtain ⟨hs, o, ho, ha⟩ := h
    refine .inl ⟨hs, fun e he => ?_⟩
    rw [ha] at he
    cases he
    exact Store.mem_of_findKey ho
  | post d =>
    rw [hv] at h
    obtain ⟨e, ha, rfl, hp⟩ := h
    exact .inr ⟨e, ha, .of_verdict hv, hp⟩

end Verdict

end UsageBilling
