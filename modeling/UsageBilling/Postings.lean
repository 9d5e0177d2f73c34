import UsageBilling.Store

/-!
# Postings: what the requests do to the store

A successful request posts one ledger row: it appends the row and changes the balance of the row's
customer by the row's amount. Nothing else writes.

* `Posted P s e s'`: one posting, and what it does to each table.
* `Postings P s es s'`: the rows `es` were posted one after the other. The balances follow the
  amounts (`Postings.balance`), and no balance is negative on the way (`Postings.solvent`).
-/

namespace UsageBilling

/-- The customer's rows, oldest first. -/
def Store.ownRows (s : Store) (customerId : String) : List LedgerEntry :=
  s.ledger.filter (·.customerId = customerId)

section Posted

variable {P : Prisma} {s s' s'' : Store}

/-! ## One posting -/

/-- From `s` to `s'` the ledger row `e` was added, and the balance of its customer changed by its
amount. Nothing else changed. -/
structure Posted (P : Prisma) (s : Store) (e : LedgerEntry) (s' : Store) : Prop where
  ledger : s'.ledger = s.ledger ++ [e]
  id : e.id = P.autoincrement s.seq
  seq : s'.seq = e.id
  products : s'.products = s.products
  customers : s'.customers = credit s.customers e.customerId e.amount
  owner : ∃ c, s.customers.find? e.customerId = some c
  free : s.keyFree e.idempotencyKey = true

/-- An `updateMany` that changed a balance, then a `create` of a row with that change, is a
posting. -/
theorem posted_of_append {d : LedgerData} {h} {c : Customer}
    (hc : s.customers.find? d.customerId = some c)
    (hfree : (s.withCustomers (credit s.customers d.customerId d.amount) h).keyFree
      d.idempotencyKey = true) :
    Posted P s { d with id := P.autoincrement s.seq }
      ((s.withCustomers (credit s.customers d.customerId d.amount) h).append P d hfree) :=
  ⟨rfl, rfl, rfl, rfl, rfl, ⟨c, hc⟩, hfree⟩

namespace Posted

variable {e : LedgerEntry} (h : Posted P s e s')
include h

theorem seq_lt : s.seq < e.id := h.id ▸ P.lt_autoincrement s.seq

theorem not_mem : e ∉ s.ledger := Store.not_mem_of_seq_lt h.seq_lt

theorem mem_self : e ∈ s'.ledger := by
  rw [h.ledger]; simp

theorem mem {e' : LedgerEntry} (he' : e' ∈ s.ledger) : e' ∈ s'.ledger := by
  rw [h.ledger]; exact List.mem_append_left _ he'

/-- The only new row. -/
theorem eq_of_new {e' : LedgerEntry} (he' : e' ∈ s'.ledger) (hn : e' ∉ s.ledger) : e' = e := by
  rw [h.ledger] at he'
  exact List.mem_singleton.mp ((List.mem_append.mp he').resolve_left hn)

/-- The balances after a posting. -/
theorem find? (id : String) : s'.customers.find? id = (s.customers.find? id).map fun c =>
    if c.id = e.customerId then { c with balance := c.balance + e.amount } else c := by
  rw [h.customers, find?_credit]

theorem find?_self {c : Customer} (hc : s.customers.find? e.customerId = some c) :
    s'.customers.find? e.customerId = some { c with balance := c.balance + e.amount } := by
  rw [h.customers, find?_credit_self hc]

theorem find?_ne {id : String} (hne : id ≠ e.customerId) :
    s'.customers.find? id = s.customers.find? id := by
  rw [h.customers, find?_credit_ne hne]

theorem find?_isSome (id : String) :
    (s'.customers.find? id).isSome = (s.customers.find? id).isSome := by
  rw [h.find?, Option.isSome_map]

/-- A posting moves the sum of all balances by its amount. -/
theorem total : s'.total = s.total + e.amount := by
  obtain ⟨c, hc⟩ := h.owner
  have hp : ∀ b ∈ s.customers.rows, decide (b.id = e.customerId) = true ↔ b = c := fun b hb => by
    rw [decide_eq_true_eq]
    exact ⟨eq_of_find? hc hb, fun hbc => hbc ▸ Table.key_of_find? hc⟩
  simp only [Store.total, h.customers, credit,
    Table.sum_update (·.balance) hp (Table.mem_of_find? hc), BalanceUpdate.apply]
  omega

/-- The keys after a posting: the new row's key, and those there were. -/
theorem findKey (key : String) : s'.findKey key =
    if e.idempotencyKey = some key then some e else s.findKey key := by
  have hold : e.idempotencyKey = some key → s.findKey key = none := fun hk =>
    Store.keyFree_some.mp (hk ▸ h.free)
  simp only [Store.findKey, h.ledger, List.find?_append] at hold ⊢
  by_cases hk : e.idempotencyKey = some key
  · simp [hold hk, hk]
  · simp [hk]

theorem findKey_of_some {key : String} {o : LedgerEntry} (ho : s.findKey key = some o) :
    s'.findKey key = some o := by
  rw [h.findKey, if_neg, ho]
  intro hk
  have := Store.keyFree_some.mp (hk ▸ h.free)
  rw [ho] at this; cases this

theorem ownRows (id : String) :
    s'.ownRows id = s.ownRows id ++ if e.customerId = id then [e] else [] := by
  rw [Store.ownRows, Store.ownRows, h.ledger, List.filter_append]
  by_cases hid : e.customerId = id <;> simp [hid]

end Posted

end Posted

/-! ## Several postings -/

/-- From `s` to `s'` the rows `es` were posted, in this order. -/
inductive Postings (P : Prisma) (s : Store) : List LedgerEntry → Store → Prop
  | nil : Postings P s [] s
  | snoc {es : List LedgerEntry} {s' s'' : Store} {e : LedgerEntry} (h : Postings P s es s')
      (hp : Posted P s' e s'') : Postings P s (es ++ [e]) s''

/-- The amounts of the rows of one customer. -/
def amountsOf (id : String) (es : List LedgerEntry) : List Int :=
  (es.filter fun e => e.customerId = id).map (·.amount)

@[simp] theorem amountsOf_nil (id : String) : amountsOf id [] = [] := rfl

theorem amountsOf_cons (id : String) (e : LedgerEntry) (es : List LedgerEntry) :
    amountsOf id (e :: es) = (if e.customerId = id then [e.amount] else []) ++ amountsOf id es := by
  by_cases h : e.customerId = id <;> simp [amountsOf, h]

theorem amountsOf_snoc (id : String) (es : List LedgerEntry) (e : LedgerEntry) :
    amountsOf id (es ++ [e]) =
      amountsOf id es ++ if e.customerId = id then [e.amount] else [] := by
  by_cases h : e.customerId = id <;> simp [amountsOf, h]

namespace Postings

variable {P : Prisma} {s s' s'' : Store} {es es' : List LedgerEntry}

theorem one {e : LedgerEntry} (h : Posted P s e s') : Postings P s [e] s' := .snoc .nil h

theorem trans (h : Postings P s es s') (h' : Postings P s' es' s'') :
    Postings P s (es ++ es') s'' := by
  induction h' with
  | nil => rwa [List.append_nil]
  | snoc _ hp ih => rw [← List.append_assoc]; exact .snoc ih hp

theorem ledger (h : Postings P s es s') : s'.ledger = s.ledger ++ es := by
  induction h with
  | nil => rw [List.append_nil]
  | snoc _ hp ih => rw [hp.ledger, ih, List.append_assoc]

theorem products (h : Postings P s es s') : s'.products = s.products := by
  induction h with
  | nil => rfl
  | snoc _ hp ih => rw [hp.products, ih]

theorem seq_le (h : Postings P s es s') : s.seq ≤ s'.seq := by
  induction h with
  | nil => exact Nat.le_refl _
  | snoc _ hp ih => rw [hp.seq]; exact Nat.le_trans ih (Nat.le_of_lt hp.seq_lt)

/-- The new rows have ids above every id used before. -/
theorem seq_lt (h : Postings P s es s') : ∀ e ∈ es, s.seq < e.id := by
  induction h with
  | nil => simp
  | snoc hps hp ih =>
    intro e he
    rcases List.mem_append.mp he with he | he
    · exact ih e he
    · obtain rfl := List.mem_singleton.mp he
      exact Nat.lt_of_le_of_lt hps.seq_le hp.seq_lt

theorem ascending (h : Postings P s es s') : es.Pairwise (·.id < ·.id) := by
  have := s'.id_ascending
  rw [h.ledger] at this
  exact (List.pairwise_append.mp this).2.1

theorem findKey_of_some (h : Postings P s es s') {key : String} {o : LedgerEntry}
    (ho : s.findKey key = some o) : s'.findKey key = some o := by
  induction h with
  | nil => exact ho
  | snoc _ hp ih => exact hp.findKey_of_some ih

/-- The customers stay, and a balance is the balance before plus the amounts posted to it. -/
theorem find? (h : Postings P s es s') (id : String) :
    s'.customers.find? id = (s.customers.find? id).map fun c =>
      { c with balance := c.balance + (amountsOf id es).sum } := by
  induction h with
  | nil => cases s.customers.find? id <;> simp
  | snoc _ hp ih =>
    rw [hp.find?, ih, amountsOf_snoc]
    cases hc : s.customers.find? id with
    | none => rfl
    | some c =>
      have hid : c.id = id := Table.key_of_find? hc
      simp only [Option.map_some, hid, Option.some.injEq, List.sum_append]
      split
      · rename_i heq
        simp [heq, Int.add_assoc]
      · rename_i hne
        simp [Ne.symm hne]

theorem balance (h : Postings P s es s') {id : String} {c : Customer}
    (hc : s.customers.find? id = some c) : ∃ c', s'.customers.find? id = some c' ∧
      c'.balance = c.balance + (amountsOf id es).sum := by
  refine ⟨_, by rw [h.find?, hc]; rfl, rfl⟩

/-- The balance is never negative while the amounts are added one by one. -/
theorem solvent (h : Postings P s es s') {id : String} {c : Customer}
    (hc : s.customers.find? id = some c) : Solvent c.balance (amountsOf id es) := by
  induction h with
  | nil => exact .nil (Store.balance_nonneg_of_find? hc)
  | snoc hps hp ih =>
    rw [amountsOf_snoc]
    split
    · rename_i heq
      refine ih.snoc ?_
      obtain ⟨c', hc', hb⟩ := (Postings.snoc hps hp).balance hc
      have := Store.balance_nonneg_of_find? hc'
      rw [hb, amountsOf_snoc, if_pos heq, List.sum_append, List.sum_singleton] at this
      omega
    · rw [List.append_nil]; exact ih

end Postings

end UsageBilling
