import UsageBilling.Verdict

/-!
# The exact effect of a request that runs alone

* `Request.Pays`: what a request needs to add a row.
* `Request.Row`: the row it adds, column by column; `Adds`: what else changes with it.
* `service_effect`: a request adds its row exactly if it pays, and otherwise it changes nothing.
-/

namespace UsageBilling

/-- The quantity, or the amount. -/
def Request.units : Request → Int
  | .consume input => input.quantity
  | .credit input => input.amount

/-- The numbers of the statements of the request. -/
def Request.ints (s : Store) : Request → List Int
  | .consume input =>
    match s.products.find? input.productId with
    | none => []
    | some product => chargeInts input product
  | .credit input => [input.amount]

/-- In this store the request posts a row: what it names exists, the balance covers it, and its key
is new. -/
def Request.Pays (s : Store) : Request → Prop
  | .consume input => ∃ product c, s.products.find? input.productId = some product ∧
      s.customers.find? input.customerId = some c ∧
      product.unitPrice * input.quantity ≤ c.balance ∧
      ∀ key, input.idempotencyKey = some key → ∀ e ∈ s.ledger, e.idempotencyKey ≠ some key
  | .credit input => ∃ c, s.customers.find? input.customerId = some c

/-- The row is the one that the request asks for, at the price of this store. -/
def Request.Row (s : Store) : Request → LedgerEntry → Prop
  | .consume input, e => ∃ product, s.products.find? input.productId = some product ∧
      e.toLedgerData = {
        customerId := input.customerId
        type := .CONSUMPTION
        idempotencyKey := input.idempotencyKey
        productId := some input.productId
        quantity := some input.quantity
        unitPrice := some product.unitPrice
        amount := -(product.unitPrice * input.quantity) }
  | .credit input, e => e.toLedgerData = {
      customerId := input.customerId
      type := .CREDIT
      idempotencyKey := none
      productId := none
      quantity := none
      unitPrice := none
      amount := input.amount }

/-- From `s` to `s'` the row `e` was added with a new id, the balance of its customer changed by its
amount, and nothing else changed. -/
structure Adds (s : Store) (e : LedgerEntry) (s' : Store) : Prop where
  ledger : s'.ledger = s.ledger ++ [e]
  id : s.seq < e.id
  balance : ∃ c, s.customers.find? e.customerId = some c ∧
    s'.customers.find? e.customerId = some { c with balance := c.balance + e.amount }
  otherCustomers : ∀ id, id ≠ e.customerId → s'.customers.find? id = s.customers.find? id
  products : s'.products = s.products

section Effect

variable {P : Prisma} {s s' : Store} {r : Request} {e : LedgerEntry}

theorem Request.Writes.row (h : r.Writes s e) : r.Row s e := by
  cases r with
  | consume input => exact h
  | credit input => exact h

theorem Posted.adds (h : Posted P s e s') : Adds s e s' where
  ledger := h.ledger
  id := h.seq_lt
  balance := by
    obtain ⟨c, hc⟩ := h.owner
    exact ⟨c, hc, h.find?_self hc⟩
  otherCustomers _ hne := h.find?_ne hne
  products := h.products

theorem keyFree_iff {key : Option String} : s.keyFree key = true ↔
    ∀ k, key = some k → ∀ e ∈ s.ledger, e.idempotencyKey ≠ some k := by
  cases key with
  | none => simp [Store.keyFree]
  | some k => simp [Store.keyFree_some, Store.findKey_eq_none]

/-- A row is posted only if its request pays: the `CHECK` holds of the new balance, and the key of
the row was free. -/
theorem pays_of_posted (hw : r.Writes s e) (hp : Posted P s e s') : r.Pays s := by
  obtain ⟨c, hc⟩ := hp.owner
  have hown : s.customers.find? r.customerId = some c := by rw [← hw.customerId, hc]
  cases r with
  | consume input =>
    obtain ⟨product, hprod, hdata⟩ := hw
    have hcheck := Store.balance_nonneg_of_find? (hp.find?_self hc)
    have hamount : e.amount = -(product.unitPrice * input.quantity) :=
      congrArg LedgerData.amount hdata
    have hkey : e.idempotencyKey = input.idempotencyKey :=
      congrArg LedgerData.idempotencyKey hdata
    refine ⟨product, c, hprod, hown, ?_, keyFree_iff.mp (hkey ▸ hp.free)⟩
    simp only [hamount] at hcheck
    omega
  | credit input => exact ⟨c, hown⟩

/-- A request that pays posts its row. -/
theorem posted_of_pays (hpos : 0 < r.units) (hints : (r.ints s).all P.column = true)
    (h : r.Pays s) : ∃ e, Posted P s e (service P r s).2 := by
  cases r with
  | consume input =>
    obtain ⟨product, c, hprod, hc, hle, hkey⟩ := h
    simp only [Request.ints, hprod] at hints
    obtain ⟨e, -, -, hp⟩ :=
      service_paid hprod (chargeFits_of_columns hints) hc hle (keyFree_iff.mpr hkey)
    exact ⟨e, hp⟩
  | credit input =>
    obtain ⟨c, hc⟩ := h
    have hbal := Store.balance_nonneg_of_find? hc
    have hamount : 0 < input.amount := hpos
    obtain ⟨e, -, -, hp⟩ := service_credited (by simpa [Request.ints] using hints) hc (by omega)
    exact ⟨e, hp⟩

end Effect

/-- A request that runs alone adds a row exactly if it pays; Prisma accepts its numbers and reads
them back, at least if it pays. A row that it adds is its own row and the only one, and without one
the store stays as it was, whatever the outcome. -/
theorem service_effect (P : Prisma) (s : Store) (r : Request) (hpos : 0 < r.units) :
    let s' := (service P r s).2
    ((r.Pays s → (r.ints s).all P.column = true) →
        ((∃ e ∈ s'.ledger, e ∉ s.ledger) ↔ r.Pays s)) ∧
      (∀ e ∈ s'.ledger, e ∉ s.ledger → r.Row s e ∧ Adds s e s') ∧
      ((∀ e ∈ s'.ledger, e ∈ s.ledger) → s' = s) := by
  intro s'
  rcases service_cases P r s with ⟨hs, -⟩ | ⟨e, -, hw, hp⟩
  · change s' = s at hs
    rw [hs]
    refine ⟨fun hints => ⟨fun ⟨e, he, hn⟩ => absurd he hn, fun hpays => ?_⟩,
      fun e he hn => absurd he hn, fun _ => rfl⟩
    obtain ⟨e, hp⟩ := posted_of_pays hpos (hints hpays) hpays
    change Posted P s e s' at hp
    exact ⟨e, hs ▸ hp.mem_self, hp.not_mem⟩
  · change Posted P s e s' at hp
    refine ⟨fun _ => ⟨fun _ => pays_of_posted hw hp, fun _ => ⟨e, hp.mem_self, hp.not_mem⟩⟩,
      fun e' he' hn => ?_, fun hall => absurd (hall e hp.mem_self) hp.not_mem⟩
    obtain rfl := hp.eq_of_new he' hn
    exact ⟨hw.row, hp.adds⟩

theorem service_effect_shop :
    ∃ e ∈ (service .sqlite (.consume (purchase "c1")) (shop 150)).2.ledger, e ∉ (shop 150).ledger :=
  ((service_effect .sqlite (shop 150) (.consume (purchase "c1")) (by decide)).1
    fun _ => by decide).mpr
    ⟨⟨"p1", "Widget", 100⟩, ⟨"c1", "Ada", 150⟩, by decide, by decide, by decide,
      fun _ _ e he => by cases he⟩

end UsageBilling
