import UsageBilling.Store

/-!
# The seed (`backend/prisma/seed.ts`)

The seed upserts the products and the customers of two lists, deletes the `CONSUMPTION` rows of the
heavy customer and inserts fabricated ones. It is no transaction: each statement is one of its own.

* `seed P`: the source's program, without the `createdAt` of the fabricated rows. `run_seed`: it
  ends without an error from every store, and `Seeded` is what it does.
* `Converged`: what is documented of the seed, table by table; `seed_converges`: it does that, and
  a second run changes nothing but the ids of the fabricated rows.
-/

namespace UsageBilling

/-! ## The statements of the seed -/

/-- The store with other products. -/
def Store.withProducts (s : Store) (products : Table Product) : Store := { s with products }

/-- The store without the ledger rows that satisfy `p`. The counter stays. -/
def Store.deleteEntries (s : Store) (p : LedgerEntry → Bool) : Store :=
  have hsub : (s.ledger.filter fun e => !p e).Sublist s.ledger := List.filter_sublist
  { s with
    ledger := s.ledger.filter fun e => !p e
    id_ascending := s.id_ascending.sublist hsub
    id_bound := fun e he => s.id_bound e (hsub.subset he)
    key_nodup := s.key_nodup.sublist (hsub.filterMap _) }

theorem deleteEntries_ledger (s : Store) (p : LedgerEntry → Bool) :
    (s.deleteEntries p).ledger = s.ledger.filter fun e => !p e := rfl

/-- `product.upsert({ where: { id }, create, update })`: both set all columns to those of `p`, and
the row is read back. What Prisma can read back, it has accepted. -/
def Product.upsert (P : Prisma) (p : Product) : Db Unit :=
  Txn.writing fun s =>
    if P.column p.unitPrice then .ok ((), s.withProducts (s.products.upsert p))
    else .error (.prisma .intRange)

/-- `customer.upsert({ where: { id }, create, update })`: both set all columns to those of `c`, and
the row is read back. -/
def Customer.upsert (P : Prisma) (c : Customer) : Db Unit :=
  Txn.writing fun s =>
    if P.column c.balance then
      if h : ∀ c' ∈ (s.customers.upsert c).rows, 0 ≤ c'.balance then
        .ok ((), s.withCustomers (s.customers.upsert c) h)
      else .error (.prisma .checkViolation)
    else .error (.prisma .intRange)

/-- `ledgerEntry.deleteMany({ where })` -/
def LedgerEntry.deleteMany (p : LedgerEntry → Bool) : Db Unit :=
  Txn.writing fun s => .ok ((), s.deleteEntries p)

/-- `ledgerEntry.createMany({ data })`: all rows, in this order, or none. No row is read back. -/
def LedgerEntry.createMany (P : Prisma) (data : List LedgerData) : Db Unit :=
  Txn.transaction (data.forM fun d => do
    let _ ← LedgerEntry.insert P d)

/-! ## The seed -/

/-- The seeded catalog. -/
def PRODUCTS : List Product := [
  { id := "prod_api_call", name := "API Call", unitPrice := 1 },
  { id := "prod_proxy_gb", name := "Proxy Bandwidth (GB)", unitPrice := 250 },
  { id := "prod_residential_gb", name := "Residential Proxy (GB)", unitPrice := 1200 },
  { id := "prod_datacenter_ip", name := "Datacenter IP", unitPrice := 50 },
  { id := "prod_serp_query", name := "SERP Query", unitPrice := 3 },
  { id := "prod_scrape_page", name := "Scraped Page", unitPrice := 8 },
  { id := "prod_storage_gb_month", name := "Storage (GB / month)", unitPrice := 99 },
  { id := "prod_geo_lookup", name := "Geo Lookup", unitPrice := 2 },
  { id := "prod_captcha_solve", name := "CAPTCHA Solve", unitPrice := 35 },
  { id := "prod_session_hour", name := "Sticky Session (hour)", unitPrice := 15 }]

/-- The seeded customers. -/
def CUSTOMERS : List Customer := [
  { id := "cust_acme", name := "Acme Corp", balance := 100000 },
  { id := "cust_globex", name := "Globex", balance := 25000 },
  { id := "cust_initech", name := "Initech", balance := 4200 },
  { id := "cust_umbrella", name := "Umbrella Inc", balance := 500 },
  { id := "cust_hooli", name := "Hooli", balance := 499 },
  { id := "cust_soylent", name := "Soylent", balance := 0 },
  { id := "cust_megascrape", name := "MegaScrape Ltd", balance := 500000 },
  { id := "cust_quietco", name := "QuietCo (no usage)", balance := 10000 }]

/-- The customer with a long history. -/
def HEAVY_CUSTOMER_ID : String := "cust_megascrape"

/-- The number of fabricated consumptions. -/
def HEAVY_EVENT_COUNT : Nat := 420

/-- The `where` of the `deleteMany`. -/
def heavyConsumption (e : LedgerEntry) : Bool :=
  e.customerId = HEAVY_CUSTOMER_ID && e.type = .CONSUMPTION

/-- The fabricated row with the index `i`. -/
def heavyRow (i : Nat) : LedgerData :=
  let product := PRODUCTS.get ⟨i % PRODUCTS.length, Nat.mod_lt _ (by decide)⟩
  let quantity : Int := i % 5 + 1
  let cost := product.unitPrice * quantity
  { customerId := HEAVY_CUSTOMER_ID
    type := .CONSUMPTION
    productId := some product.id
    quantity := some quantity
    unitPrice := some product.unitPrice
    amount := -cost }

/-- The fabricated rows, oldest first. -/
def heavyRows : List LedgerData := (List.range HEAVY_EVENT_COUNT).map heavyRow

/-- `seedHeavyHistory`: the consumptions of the heavy customer are deleted and made up anew. -/
def seedHeavyHistory (P : Prisma) : Db Unit := do
  LedgerEntry.deleteMany heavyConsumption
  LedgerEntry.createMany P heavyRows

/-- `main` of `seed.ts`. -/
def seed (P : Prisma) : Db Unit := do
  PRODUCTS.forM (Product.upsert P)
  CUSTOMERS.forM (Customer.upsert P)
  seedHeavyHistory P

/-! ## The lists -/

theorem products_nodup : (PRODUCTS.map (·.id)).Nodup := by decide

theorem customers_nodup : (CUSTOMERS.map (·.id)).Nodup := by decide

theorem unitPrice_bounds : ∀ p ∈ PRODUCTS, 0 ≤ p.unitPrice ∧ p.unitPrice ≤ 1200 := by decide

theorem seedBalance_bounds : ∀ c ∈ CUSTOMERS, 0 ≤ c.balance ∧ c.balance ≤ 500000 := by decide

theorem heavy_mem : HEAVY_CUSTOMER_ID ∈ CUSTOMERS.map (·.id) := by decide

theorem mem_heavyRows {d : LedgerData} (h : d ∈ heavyRows) : ∃ i, d = heavyRow i := by
  rw [heavyRows, List.mem_map] at h
  obtain ⟨i, -, hi⟩ := h
  exact ⟨i, hi.symm⟩

/-- Prisma accepts the signed 32-bit integers, and reads them back. -/
def Prisma.AcceptsInt32 (P : Prisma) : Prop :=
  ∀ n, -2 ^ 31 ≤ n → n ≤ 2 ^ 31 - 1 → P.column n = true

theorem Prisma.sqlite_acceptsInt32 : Prisma.sqlite.AcceptsInt32 := fun n hl hr => by
  simp only [Prisma.sqlite, decide_eq_true_eq]
  exact ⟨hl, hr⟩

/-- The fabricated rows have small numbers. -/
theorem heavyRow_ints {P : Prisma} (hP : P.AcceptsInt32) (i : Nat) :
    (heavyRow i).ints.all P.int = true := by
  have hprice := unitPrice_bounds _
    (List.get_mem PRODUCTS ⟨i % PRODUCTS.length, Nat.mod_lt _ (by decide)⟩)
  have hquantity : (0 : Int) < i % 5 + 1 ∧ (i : Int) % 5 + 1 ≤ 5 := by omega
  simp only [heavyRow, LedgerData.ints, Option.toList, List.cons_append, List.nil_append,
    List.all_cons, List.all_nil, Bool.and_true, Bool.and_eq_true]
  generalize (PRODUCTS.get _).unitPrice = price at hprice ⊢
  generalize (i : Int) % 5 + 1 = quantity at hquantity ⊢
  have hcost : 0 ≤ price * quantity ∧ price * quantity ≤ 1200 * 5 :=
    ⟨Int.mul_nonneg hprice.1 (by omega),
      Int.mul_le_mul hprice.2 hquantity.2 (by omega) (by omega)⟩
  have hint := fun n hl hr => P.int_of_column n (hP n hl hr)
  exact ⟨hint _ (by omega) (by omega), hint _ (by omega) (by omega),
    hint _ (by omega) (by omega)⟩

/-! ## What the seed does -/

section Seed

variable {P : Prisma} {s s' s'' : Store}

theorem run_upsertProduct (P : Prisma) (p : Product) (s : Store) :
    (Product.upsert P p).run s =
      if P.column p.unitPrice then (.ok (), s.withProducts (s.products.upsert p))
      else (.error (.prisma .intRange), s) := by
  simp only [Product.upsert, Txn.run, Txn.writing]
  cases P.column p.unitPrice <;> rfl

theorem run_upsertProducts (hP : P.AcceptsInt32) (s : Store) :
    ∃ s', (PRODUCTS.forM (Product.upsert P)).run s = (.ok (), s') ∧
      s'.products = s.products.upsertAll PRODUCTS ∧ s'.customers = s.customers ∧
      s'.ledger = s.ledger ∧ s'.seq = s.seq := by
  refine Txn.run_forM (fun done (s' : Store) => s'.products = s.products.upsertAll done ∧
    s'.customers = s.customers ∧ s'.ledger = s.ledger ∧ s'.seq = s.seq) ⟨rfl, rfl, rfl, rfl⟩ ?_
  intro done p s₁ hp h
  have hb := unitPrice_bounds p hp
  refine ⟨s₁.withProducts (s₁.products.upsert p), ?_, ?_, h.2⟩
  · rw [run_upsertProduct, if_pos (hP p.unitPrice (by omega) (by omega))]
  · show s₁.products.upsert p = _
    rw [h.1, Table.upsertAll_concat]

theorem run_upsertCustomer {c : Customer} (hread : P.column c.balance = true)
    (h : ∀ c' ∈ (s.customers.upsert c).rows, 0 ≤ c'.balance) :
    (Customer.upsert P c).run s = (.ok (), s.withCustomers (s.customers.upsert c) h) := by
  simp only [Customer.upsert, Txn.run, Txn.writing, hread, ↓reduceIte, dif_pos h]

theorem run_upsertCustomers (hP : P.AcceptsInt32) (s : Store) :
    ∃ s', (CUSTOMERS.forM (Customer.upsert P)).run s = (.ok (), s') ∧
      s'.products = s.products ∧ s'.customers = s.customers.upsertAll CUSTOMERS ∧
      s'.ledger = s.ledger ∧ s'.seq = s.seq := by
  refine Txn.run_forM (fun done (s' : Store) => s'.products = s.products ∧
    s'.customers = s.customers.upsertAll done ∧ s'.ledger = s.ledger ∧ s'.seq = s.seq)
    ⟨rfl, rfl, rfl, rfl⟩ ?_
  intro done c s₁ hc h
  have hb := seedBalance_bounds c hc
  have hcheck : ∀ c' ∈ (s₁.customers.upsert c).rows, 0 ≤ c'.balance := by
    intro c' hc'
    rcases Table.mem_upsert hc' with rfl | hc'
    · exact hb.1
    · exact s₁.balance_nonneg c' hc'
  refine ⟨_, run_upsertCustomer (hP c.balance (by omega) (by omega)) hcheck, h.1, ?_, h.2.2⟩
  show s₁.customers.upsert c = _
  rw [h.2.1, Table.upsertAll_concat]

/-- From `s` to `s'` rows with these data were appended, and nothing else changed. -/
structure Appended (s : Store) (data : List LedgerData) (s' : Store) : Prop where
  products : s'.products = s.products
  customers : s'.customers = s.customers
  ledger : ∃ es, s'.ledger = s.ledger ++ es ∧ es.map (·.toLedgerData) = data ∧
    ∀ e ∈ es, s.seq < e.id
  seq_le : s.seq ≤ s'.seq

/-- Rows without keys, of a customer who exists, are all inserted. -/
theorem run_createMany {data : List LedgerData} {id : String}
    (hints : ∀ d ∈ data, d.ints.all P.int = true) (hkey : ∀ d ∈ data, d.idempotencyKey = none)
    (hc : (s.customers.find? id).isSome) (hid : ∀ d ∈ data, d.customerId = id) :
    ∃ s', (LedgerEntry.createMany P data).run s = (.ok (), s') ∧ Appended s data s' := by
  obtain ⟨s', hrun, h⟩ : ∃ s', (data.forM fun d => do
      let _ ← LedgerEntry.insert P d).run s = (.ok (), s') ∧ Appended s data s' := by
    refine Txn.run_forM (Appended s) ⟨rfl, rfl, ⟨[], by simp, rfl, by simp⟩, Nat.le_refl _⟩ ?_
    intro done d s₁ hd h
    obtain ⟨es, hledger, hdata, hseq⟩ := h.ledger
    have hfree : s₁.keyFree d.idempotencyKey = true := by rw [hkey d hd]; rfl
    have hlt := P.lt_autoincrement s₁.seq
    refine ⟨s₁.append P d hfree, ?_, h.products, h.customers,
      ⟨es ++ [{ d with id := P.autoincrement s₁.seq }], ?_, ?_, ?_⟩,
      Nat.le_trans h.seq_le (Nat.le_of_lt hlt)⟩
    · have hinsert : (LedgerEntry.insert P d).run s₁ =
          (.ok { d with id := P.autoincrement s₁.seq }, s₁.append P d hfree) := by
        simp only [LedgerEntry.insert, Txn.run, Txn.writing, hints d hd, ↓reduceIte, dif_pos hfree,
          hid d hd, h.customers, hc]
      rw [Txn.run_bind_ok hinsert, Txn.run_pure]
    · show s₁.ledger ++ _ = _
      rw [hledger, List.append_assoc]
    · rw [List.map_append, hdata]
      rfl
    · intro e he
      rcases List.mem_append.mp he with he | he
      · exact hseq e he
      · obtain rfl := List.mem_singleton.mp he
        exact Nat.lt_of_le_of_lt h.seq_le hlt
  exact ⟨s', Txn.transaction_ok hrun, h⟩

/-- What one run of the seed does. -/
structure Seeded (s s' : Store) : Prop where
  products : s'.products = s.products.upsertAll PRODUCTS
  customers : s'.customers = s.customers.upsertAll CUSTOMERS
  ledger : ∃ es, s'.ledger = (s.ledger.filter fun e => !heavyConsumption e) ++ es ∧
    es.map (·.toLedgerData) = heavyRows ∧ ∀ e ∈ es, s.seq < e.id

theorem run_seedHeavyHistory (hP : P.AcceptsInt32)
    (hc : (s.customers.find? HEAVY_CUSTOMER_ID).isSome) :
    ∃ s', (seedHeavyHistory P).run s = (.ok (), s') ∧
      Appended (s.deleteEntries heavyConsumption) heavyRows s' := by
  have hdelete : (LedgerEntry.deleteMany heavyConsumption).run s =
      (.ok (), s.deleteEntries heavyConsumption) := rfl
  rw [seedHeavyHistory, Txn.run_bind_ok hdelete]
  refine run_createMany ?_ ?_ hc ?_
  all_goals
    intro d hd
    obtain ⟨i, rfl⟩ := mem_heavyRows hd
  · exact heavyRow_ints hP i
  · rfl
  · rfl

/-- The seed ends without an error. -/
theorem run_seed (hP : P.AcceptsInt32) (s : Store) :
    ∃ s', (seed P).run s = (.ok (), s') ∧ Seeded s s' := by
  obtain ⟨s₁, hrun₁, hp₁, hc₁, hl₁, hs₁⟩ := run_upsertProducts hP s
  obtain ⟨s₂, hrun₂, hp₂, hc₂, hl₂, hs₂⟩ := run_upsertCustomers hP s₁
  have hheavy : (s₂.customers.find? HEAVY_CUSTOMER_ID).isSome := by
    obtain ⟨c, hc, hid⟩ := List.mem_map.mp heavy_mem
    rw [hc₂, ← hid, show c.id = Keyed.key c from rfl,
      Table.find?_upsertAll_of_mem customers_nodup hc]
    rfl
  obtain ⟨s₃, hrun₃, happ⟩ := run_seedHeavyHistory hP hheavy
  obtain ⟨es, hledger, hdata, hid⟩ := happ.ledger
  refine ⟨s₃, ?_, ?_, ?_, es, ?_, hdata, ?_⟩
  · rw [seed, Txn.run_bind_ok hrun₁, Txn.run_bind_ok hrun₂, hrun₃]
  · exact happ.products.trans (hp₂.trans hp₁)
  · exact happ.customers.trans (hc₂.trans (by rw [hc₁]))
  · rw [hledger, deleteEntries_ledger, hl₂, hl₁]
  · rw [← hs₁, ← hs₂]
    exact hid

/-! ## What is documented of the seed -/

/-- From `s` to `s'` the rows of the seed converged to their values, and nothing else changed. -/
structure Converged (s s' : Store) : Prop where
  product : ∀ p ∈ PRODUCTS, s'.products.find? p.id = some p
  customer : ∀ c ∈ CUSTOMERS, s'.customers.find? c.id = some c
  heavy : (s'.ledger.filter heavyConsumption).map (·.toLedgerData) = heavyRows
  heavy_length : (s'.ledger.filter heavyConsumption).length = HEAVY_EVENT_COUNT
  otherProduct : ∀ id ∉ PRODUCTS.map (·.id), s'.products.find? id = s.products.find? id
  otherCustomer : ∀ id ∉ CUSTOMERS.map (·.id), s'.customers.find? id = s.customers.find? id
  otherRows : (s'.ledger.filter fun e => !heavyConsumption e) =
    s.ledger.filter fun e => !heavyConsumption e
  foreignKey : (∀ e ∈ s.ledger, (s.customers.find? e.customerId).isSome) →
    ∀ e ∈ s'.ledger, (s'.customers.find? e.customerId).isSome

/-- From `s` to `s'` nothing changed but the ids of the fabricated rows. -/
structure SameButIds (s s' : Store) : Prop where
  products : s'.products = s.products
  customers : s'.customers = s.customers
  data : s'.ledger.map (·.toLedgerData) = s.ledger.map (·.toLedgerData)
  otherRows : (s'.ledger.filter fun e => !heavyConsumption e) =
    s.ledger.filter fun e => !heavyConsumption e

theorem heavyRows_length : heavyRows.length = HEAVY_EVENT_COUNT := by
  rw [heavyRows, List.length_map, List.length_range]

/-- The fabricated rows are `CONSUMPTION` rows of the heavy customer. -/
theorem heavyConsumption_of_data {es : List LedgerEntry}
    (hdata : es.map (·.toLedgerData) = heavyRows) : ∀ e ∈ es, heavyConsumption e = true := by
  intro e he
  obtain ⟨i, hi⟩ := mem_heavyRows (hdata ▸ List.mem_map_of_mem he)
  have hid : e.customerId = HEAVY_CUSTOMER_ID := congrArg LedgerData.customerId hi
  have htype : e.type = .CONSUMPTION := congrArg LedgerData.type hi
  simp [heavyConsumption, hid, htype]

namespace Seeded

variable (h : Seeded s s')
include h

theorem filter_heavy : ∃ es, s'.ledger.filter heavyConsumption = es ∧
    es.map (·.toLedgerData) = heavyRows := by
  obtain ⟨es, hledger, hdata, -⟩ := h.ledger
  refine ⟨es, ?_, hdata⟩
  rw [hledger, List.filter_append, List.filter_filter,
    List.filter_eq_self.mpr (heavyConsumption_of_data hdata)]
  simp

theorem filter_other : (s'.ledger.filter fun e => !heavyConsumption e) =
    s.ledger.filter fun e => !heavyConsumption e := by
  obtain ⟨es, hledger, hdata, -⟩ := h.ledger
  have hnil : (es.filter fun e => !heavyConsumption e) = [] := by
    refine List.filter_eq_nil_iff.mpr fun e he => ?_
    simp [heavyConsumption_of_data hdata e he]
  rw [hledger, List.filter_append, List.filter_filter, hnil, List.append_nil]
  simp

theorem product : ∀ p ∈ PRODUCTS, s'.products.find? p.id = some p := by
  intro p hp
  rw [h.products]
  exact Table.find?_upsertAll_of_mem products_nodup hp

theorem customer : ∀ c ∈ CUSTOMERS, s'.customers.find? c.id = some c := by
  intro c hc
  rw [h.customers]
  exact Table.find?_upsertAll_of_mem customers_nodup hc

theorem converged : Converged s s' where
  product := h.product
  customer := h.customer
  heavy := by
    obtain ⟨es, hes, hdata⟩ := h.filter_heavy
    rw [hes, hdata]
  heavy_length := by
    obtain ⟨es, hes, hdata⟩ := h.filter_heavy
    rw [hes, ← heavyRows_length, ← hdata, List.length_map]
  otherProduct id hid := by
    rw [h.products]
    exact Table.find?_upsertAll_of_not_mem hid
  otherCustomer id hid := by
    rw [h.customers]
    exact Table.find?_upsertAll_of_not_mem hid
  otherRows := h.filter_other
  foreignKey hfk e he := by
    obtain ⟨es, hledger, hdata, -⟩ := h.ledger
    rw [hledger] at he
    rcases List.mem_append.mp he with he | he
    · rw [h.customers]
      exact Table.find?_upsertAll_isSome (hfk e (List.mem_filter.mp he).1)
    · obtain ⟨c, hc, hid⟩ := List.mem_map.mp heavy_mem
      have hheavy := heavyConsumption_of_data hdata e he
      simp only [heavyConsumption, Bool.and_eq_true, decide_eq_true_eq] at hheavy
      rw [hheavy.1, ← hid, h.customer c hc]
      rfl

/-- A second run of the seed. -/
theorem again (h' : Seeded s' s'') : SameButIds s' s'' where
  products := by
    rw [h'.products]
    exact Table.upsertAll_of_find? h.product
  customers := by
    rw [h'.customers]
    exact Table.upsertAll_of_find? h.customer
  data := by
    obtain ⟨es, hledger, hdata, -⟩ := h.ledger
    obtain ⟨es', hledger', hdata', -⟩ := h'.ledger
    rw [hledger', h.filter_other, hledger, List.map_append, List.map_append, hdata, hdata']
  otherRows := h'.filter_other

end Seeded

/-- Whatever the store holds, the seed converges to its lists and its fabricated rows and touches
nothing else; a second run gives the same store up to the ids of the fabricated rows. -/
theorem seed_converges (P : Prisma) (hP : P.AcceptsInt32) (s : Store) :
    ∃ s', (seed P).run s = (.ok (), s') ∧ Converged s s' ∧
      ∃ s'', (seed P).run s' = (.ok (), s'') ∧ SameButIds s' s'' := by
  obtain ⟨s', hrun, h⟩ := run_seed hP s
  obtain ⟨s'', hrun', h'⟩ := run_seed hP s'
  exact ⟨s', hrun, h.converged, s'', hrun', h.again h'⟩

/-- A store in use: a product with an old price, the heavy customer with traffic, and others. -/
def inUse : Store where
  products := ⟨[⟨"p1", "Widget", 100⟩, ⟨"prod_api_call", "API Call", 9⟩], by decide⟩
  customers := ⟨[⟨"c1", "Ada", 70⟩, ⟨"cust_megascrape", "MegaScrape Ltd", 5⟩], by decide⟩
  ledger := [
    { id := 1, customerId := "cust_megascrape", type := .CREDIT, amount := 14 },
    { id := 2, customerId := "cust_megascrape", type := .CONSUMPTION, productId := "prod_api_call",
      quantity := some 1, unitPrice := some 9, amount := -9, idempotencyKey := "k" }]
  seq := 2
  balance_nonneg := by decide
  id_ascending := by decide
  id_bound := by decide
  key_nodup := by decide

theorem seed_converges_inUse : ∃ s', (seed .sqlite).run inUse = (.ok (), s') ∧
    s'.customers.find? "c1" = some ⟨"c1", "Ada", 70⟩ :=
  have ⟨s', hrun, h, _⟩ := seed_converges .sqlite Prisma.sqlite_acceptsInt32 inUse
  ⟨s', hrun, h.otherCustomer "c1" (by decide)⟩

end Seed

end UsageBilling
