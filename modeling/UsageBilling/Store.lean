import UsageBilling.Lib.Txn
import UsageBilling.Lib.Table
import UsageBilling.Lib.Account

/-!
# The database (`backend/prisma/schema.prisma`) and the Prisma statements on it

* `Store`: the three tables and the counter of `AUTOINCREMENT`. The constraints of the migrations
  (primary keys, `CHECK (balance >= 0)`, the unique index on `idempotencyKey`) are fields, so a
  store that breaks one cannot be built.
* The statements the services run (`findUnique`, `updateMany`, `create`), each a `Db` program: an
  `Int` argument that Prisma does not accept, a constraint that would break, or an `Int` column
  that Prisma cannot read back makes the statement throw.
* `Customer.updateMany_cases`, `LedgerEntry.create_cases`: the ways these statements end.

Amounts are exact integers. SQLite computes two `Int` columns, the balances and the ids of the
ledger. A balance may outgrow what Prisma reads back. The ids are taken to stay within it, so they
are unbounded and no read checks them. The other columns hold what a `create` or an `upsert` has
read back, or what the seed writes, so the reads of products and of stored ledger rows check
nothing. `createdAt` and `updatedAt` are left out: no modelled function reads them.
-/

namespace UsageBilling

/-- What the model takes from Prisma and SQLite as a parameter. -/
structure Prisma where
  /-- `n` is accepted as an `Int` argument. -/
  int : Int → Bool
  /-- `n` is read back from an `Int` column. -/
  column : Int → Bool
  int_of_column : ∀ n, column n = true → int n = true
  /-- The id of the next ledger row, from the largest id used so far (`sqlite_sequence`). -/
  autoincrement : Nat → Nat
  lt_autoincrement : ∀ n, n < autoincrement n

/-- Prisma over SQLite: it passes on 64-bit arguments, but reads an `Int` column as a signed 32-bit
integer. The ids count up by one. -/
def Prisma.sqlite : Prisma where
  int n := decide (-2 ^ 63 ≤ n ∧ n ≤ 2 ^ 63 - 1)
  column n := decide (-2 ^ 31 ≤ n ∧ n ≤ 2 ^ 31 - 1)
  int_of_column n h := by
    simp only [decide_eq_true_eq] at h ⊢
    omega
  autoincrement n := n + 1
  lt_autoincrement := Nat.lt_succ_self

/-! ## Errors -/

/-- The errors of a Prisma statement. -/
inductive PrismaError where
  /-- `P2002`. -/
  | uniqueViolation
  | checkViolation
  | foreignKeyViolation
  /-- An argument that Prisma does not accept, or a column that it cannot read back. -/
  | intRange
  deriving DecidableEq

/-- What a service throws. -/
inductive Error where
  | insufficientFunds (balance required : Int)
  | notFound (message : String)
  | customerNotFound (customerId : String)
  | prisma (err : PrismaError)
  deriving DecidableEq

/-- `isUniqueViolation` of `consumption.service.ts`. -/
def isUniqueViolation (err : Error) : Bool := err = .prisma .uniqueViolation

/-! ## The tables -/

/-- A row of `Product`. -/
structure Product where
  id : String
  name : String
  unitPrice : Int
  deriving DecidableEq

/-- A row of `Customer`. -/
structure Customer where
  id : String
  name : String
  balance : Int
  deriving DecidableEq

instance : Keyed Product String := ⟨Product.id⟩
instance : Keyed Customer String := ⟨Customer.id⟩

@[simp] theorem key_customer (c : Customer) : Keyed.key c = c.id := rfl

/-- The column `type` of the ledger; the backend writes the first two. -/
inductive EntryType where
  | CONSUMPTION
  | CREDIT
  | other (text : String)
  deriving DecidableEq

/-- A ledger row without its id: the `data` of `ledgerEntry.create`. -/
structure LedgerData where
  customerId : String
  type : EntryType
  idempotencyKey : Option String := none
  productId : Option String := none
  quantity : Option Int := none
  unitPrice : Option Int := none
  amount : Int
  deriving DecidableEq

/-- A row of `LedgerEntry`. -/
structure LedgerEntry extends LedgerData where
  id : Nat
  deriving DecidableEq

/-- The `Int` arguments of an insert, and the columns that it reads back. -/
def LedgerData.ints (d : LedgerData) : List Int :=
  d.quantity.toList ++ d.unitPrice.toList ++ [d.amount]

/-- A state of the database. The ledger is in the order of its row ids. -/
@[ext] structure Store where
  products : Table Product
  customers : Table Customer
  ledger : List LedgerEntry
  /-- The largest id that the ledger has used. -/
  seq : Nat
  balance_nonneg : ∀ c ∈ customers.rows, 0 ≤ c.balance
  id_ascending : ledger.Pairwise (·.id < ·.id)
  id_bound : ∀ e ∈ ledger, 0 < e.id ∧ e.id ≤ seq
  key_nodup : (ledger.filterMap (·.idempotencyKey)).Nodup
  deriving DecidableEq

namespace Store

/-- The row of `LedgerEntry_idempotencyKey_key` at `key`. -/
def findKey (s : Store) (key : String) : Option LedgerEntry :=
  s.ledger.find? fun e => e.idempotencyKey = some key

/-- Inserting a row with this key does not break the unique index (`NULL` never does). -/
def keyFree (s : Store) : Option String → Bool
  | none => true
  | some key => (s.findKey key).isNone

/-- The sum of all balances. -/
def total (s : Store) : Int := (s.customers.rows.map (·.balance)).sum

variable {s : Store} {key : String} {e : LedgerEntry} {c : Customer} {id : String}

theorem mem_of_findKey (h : s.findKey key = some e) : e ∈ s.ledger :=
  List.mem_of_find?_eq_some h

theorem key_of_findKey (h : s.findKey key = some e) : e.idempotencyKey = some key := by
  simpa using List.find?_some h

theorem findKey_eq_none : s.findKey key = none ↔ ∀ e ∈ s.ledger, e.idempotencyKey ≠ some key := by
  simp [findKey, List.find?_eq_none]

theorem findKey_of_mem (he : e ∈ s.ledger) (hk : e.idempotencyKey = some key) :
    s.findKey key = some e := by
  cases hf : s.findKey key with
  | none => exact absurd hk (findKey_eq_none.mp hf e he)
  | some e' =>
    have := eq_of_nodup_filterMap s.key_nodup (mem_of_findKey hf) he (key_of_findKey hf) hk
    rw [this]

/-- The unique index: at most one row has the key. -/
theorem filter_key : s.ledger.filter (fun e => e.idempotencyKey = some key) =
    (s.findKey key).toList :=
  filter_eq_of_nodup_filterMap s.key_nodup

theorem keyFree_some : s.keyFree (some key) = true ↔ s.findKey key = none := by
  simp [keyFree]

theorem balance_nonneg_of_find? (h : s.customers.find? id = some c) : 0 ≤ c.balance :=
  s.balance_nonneg c (Table.mem_of_find? h)

/-- A row with an id that the ledger has not used yet is new. -/
theorem not_mem_of_seq_lt (h : s.seq < e.id) : e ∉ s.ledger := fun he => by
  have := (s.id_bound e he).2
  omega

/-- A store whose ledger has no rows yet. -/
def fresh (products : Table Product) (customers : Table Customer)
    (h : ∀ c ∈ customers.rows, 0 ≤ c.balance) : Store where
  products := products
  customers := customers
  ledger := []
  seq := 0
  balance_nonneg := h
  id_ascending := List.Pairwise.nil
  id_bound := by simp
  key_nodup := List.nodup_nil

/-! ## Writes that keep the constraints -/

/-- The store with other customers, if their balances pass the `CHECK`. -/
def withCustomers (s : Store) (customers : Table Customer)
    (h : ∀ c ∈ customers.rows, 0 ≤ c.balance) : Store :=
  { s with customers, balance_nonneg := h }

/-- The store with a new ledger row, whose key is free and whose id comes from `AUTOINCREMENT`. -/
def append (P : Prisma) (s : Store) (d : LedgerData) (h : s.keyFree d.idempotencyKey = true) :
    Store :=
  have hlt := P.lt_autoincrement s.seq
  { s with
    ledger := s.ledger ++ [{ d with id := P.autoincrement s.seq }]
    seq := P.autoincrement s.seq
    id_ascending := by
      refine List.pairwise_append.mpr ⟨s.id_ascending, List.pairwise_singleton _ _, ?_⟩
      intro e he e' he'
      obtain rfl := List.mem_singleton.mp he'
      exact Nat.lt_of_le_of_lt (s.id_bound e he).2 hlt
    id_bound := by
      intro e he
      rcases List.mem_append.mp he with he | he
      · exact ⟨(s.id_bound e he).1, Nat.le_trans (s.id_bound e he).2 (Nat.le_of_lt hlt)⟩
      · obtain rfl := List.mem_singleton.mp he
        exact ⟨Nat.zero_lt_of_lt hlt, Nat.le_refl _⟩
    key_nodup := by
      rw [List.filterMap_append, List.nodup_append]
      refine ⟨s.key_nodup, by cases hd : d.idempotencyKey <;> simp [hd], ?_⟩
      intro k hk k' hk'
      obtain ⟨e, he, hek⟩ := List.mem_filterMap.mp hk
      obtain ⟨e', he', hek'⟩ := List.mem_filterMap.mp hk'
      obtain rfl := List.mem_singleton.mp he'
      rintro rfl
      rw [show d.idempotencyKey = some k from hek', keyFree_some] at h
      exact findKey_eq_none.mp h e he hek }

end Store

/-! ## Statements -/

/-- A program over the database. -/
abbrev Db := Txn Store Error

/-- `product.findUnique({ where: { id } })` -/
def Product.findUnique (id : String) : Db (Option Product) :=
  Txn.reading fun s => .ok (s.products.find? id)

/-- `customer.findUnique({ where: { id } })`: it reads the column `balance`. -/
def Customer.findUnique (P : Prisma) (id : String) : Db (Option Customer) :=
  Txn.reading fun s =>
    match s.customers.find? id with
    | none => .ok none
    | some c => if P.column c.balance then .ok (some c) else .error (.prisma .intRange)

/-- `ledgerEntry.findUnique({ where: { idempotencyKey } })` -/
def LedgerEntry.findUnique (key : String) : Db (Option LedgerEntry) :=
  Txn.reading fun s => .ok (s.findKey key)

/-- The `where` of `customer.updateMany`: an id, and `balance: { gte }` if given. -/
structure CustomerWhere where
  id : String
  balanceGte : Option Int := none

/-- The condition holds of this row. -/
def CustomerWhere.selects (w : CustomerWhere) (c : Customer) : Bool :=
  c.id = w.id && w.balanceGte.all (· ≤ c.balance)

/-- The `data: { balance }` of `customer.updateMany`. -/
inductive BalanceUpdate where
  | increment (n : Int)
  | decrement (n : Int)

/-- The number that the statement binds. -/
def BalanceUpdate.arg : BalanceUpdate → Int
  | .increment n | .decrement n => n

/-- The row after the update. -/
def BalanceUpdate.apply : BalanceUpdate → Customer → Customer
  | .increment n, c => { c with balance := c.balance + n }
  | .decrement n, c => { c with balance := c.balance - n }

/-- The change of the balance. -/
def BalanceUpdate.delta : BalanceUpdate → Int
  | .increment n => n
  | .decrement n => -n

theorem BalanceUpdate.apply_id (d : BalanceUpdate) (c : Customer) : (d.apply c).id = c.id := by
  cases d <;> rfl

theorem BalanceUpdate.apply_eq (d : BalanceUpdate) (c : Customer) :
    d.apply c = { c with balance := c.balance + d.delta } := by
  cases d with
  | increment n => rfl
  | decrement n => simp only [apply, delta, Int.sub_eq_add_neg]

/-- `customer.updateMany({ where, data })`: the number of rows affected. The whole statement fails
if a new balance breaks the `CHECK`. -/
def Customer.updateMany (P : Prisma) (w : CustomerWhere) (d : BalanceUpdate) : Db Nat :=
  Txn.writing fun s =>
    if (d.arg :: w.balanceGte.toList).all P.int then
      let customers := s.customers.update w.selects d.apply d.apply_id
      if h : ∀ c ∈ customers.rows, 0 ≤ c.balance then
        .ok (s.customers.count w.selects, s.withCustomers customers h)
      else .error (.prisma .checkViolation)
    else .error (.prisma .intRange)

/-- The `INSERT` of a ledger row. -/
def LedgerEntry.insert (P : Prisma) (d : LedgerData) : Db LedgerEntry :=
  Txn.writing fun s =>
    if d.ints.all P.int then
      if h : s.keyFree d.idempotencyKey = true then
        if (s.customers.find? d.customerId).isSome then
          .ok ({ d with id := P.autoincrement s.seq }, s.append P d h)
        else .error (.prisma .foreignKeyViolation)
      else .error (.prisma .uniqueViolation)
    else .error (.prisma .intRange)

/-- `ledgerEntry.create({ data })`: the row is inserted and read back. -/
def LedgerEntry.create (P : Prisma) (d : LedgerData) : Db LedgerEntry :=
  Txn.transaction do
    let e ← LedgerEntry.insert P d
    if d.ints.all P.column then pure e else throw (.prisma .intRange)

/-! ## What the statements do -/

section Statements

variable {P : Prisma} {s s' : Store}

@[simp] theorem Product.run_findUnique (id : String) (s : Store) :
    (Product.findUnique id).run s = (.ok (s.products.find? id), s) := rfl

@[simp] theorem LedgerEntry.run_findUnique (key : String) (s : Store) :
    (LedgerEntry.findUnique key).run s = (.ok (s.findKey key), s) := rfl

/-- `credit id n`: the customers after the balance of `id` changed by `n`. -/
def credit (t : Table Customer) (id : String) (n : Int) : Table Customer :=
  t.update (fun c => c.id = id) (BalanceUpdate.increment n).apply (BalanceUpdate.apply_id _)

theorem find?_credit {t : Table Customer} {id id' : String} {n : Int} :
    (credit t id n).find? id' =
      (t.find? id').map fun c => if c.id = id then { c with balance := c.balance + n } else c := by
  simp only [credit, Table.find?_update, decide_eq_true_eq, BalanceUpdate.apply]

theorem find?_credit_self {t : Table Customer} {id : String} {n : Int} {c : Customer}
    (h : t.find? id = some c) :
    (credit t id n).find? id = some { c with balance := c.balance + n } := by
  have hid : c.id = id := Table.key_of_find? h
  simp [find?_credit, h, hid]

theorem find?_credit_ne {t : Table Customer} {id id' : String} {n : Int} (hne : id' ≠ id) :
    (credit t id n).find? id' = t.find? id' := by
  rw [find?_credit]
  cases h : t.find? id' with
  | none => rfl
  | some c =>
    have hid : c.id = id' := Table.key_of_find? h
    simp [hid, hne]

theorem eq_of_find? {t : Table Customer} {id : String} {c c' : Customer}
    (hc : t.find? id = some c) (hc' : c' ∈ t.rows) (hid : c'.id = id) : c' = c := by
  have := Table.find?_of_mem hc'
  rw [key_customer, hid, hc] at this
  exact (Option.some.inj this).symm

/-- The `CHECK` on all rows after one balance changed is the `CHECK` on the new balance. -/
theorem credit_check {id : String} {n : Int} {c : Customer} (hc : s.customers.find? id = some c) :
    (∀ c' ∈ (credit s.customers id n).rows, 0 ≤ c'.balance) ↔ 0 ≤ c.balance + n := by
  refine ⟨fun h => h _ (Table.mem_of_find? (find?_credit_self hc)), fun h c' hc' => ?_⟩
  obtain ⟨c₀, hc₀, rfl⟩ := List.mem_map.mp hc'
  by_cases hid : c₀.id = id
  · obtain rfl := eq_of_find? hc hc₀ hid
    simpa [hid, BalanceUpdate.apply] using h
  · simpa [hid] using s.balance_nonneg c₀ hc₀

namespace CustomerWhere

variable {w : CustomerWhere} {d : BalanceUpdate}

theorem key_of_selects {c : Customer} (h : w.selects c = true) : Keyed.key c = w.id := by
  simp only [selects, Bool.and_eq_true, decide_eq_true_eq] at h
  exact h.1

/-- An update that selects the customer `w.id` changes that balance and nothing else. -/
theorem update_eq_credit {c : Customer} (hc : s.customers.find? w.id = some c)
    (hs : w.selects c = true) :
    s.customers.update w.selects d.apply d.apply_id = credit s.customers w.id d.delta := by
  refine Table.update_congr fun c' hc' => ?_
  by_cases hid : c'.id = w.id
  · obtain rfl := eq_of_find? hc hc' hid
    rw [if_pos hs, if_pos (by simpa using hid), d.apply_eq]
    rfl
  · have hno : w.selects c' = false := by simp [selects, hid]
    simp [hno, hid]

theorem update_eq_self (h : s.customers.count w.selects = 0) :
    s.customers.update w.selects d.apply d.apply_id = s.customers :=
  Table.update_of_forall_not (Table.count_eq_zero.mp h)

end CustomerWhere

theorem Customer.run_updateMany {w : CustomerWhere} {d : BalanceUpdate}
    (hargs : (d.arg :: w.balanceGte.toList).all P.int = true) (t : Table Customer)
    (ht : s.customers.update w.selects d.apply d.apply_id = t) :
    (Customer.updateMany P w d).run s =
      if h : ∀ c ∈ t.rows, 0 ≤ c.balance then
        (.ok (s.customers.count w.selects), s.withCustomers t h)
      else (.error (.prisma .checkViolation), s) := by
  subst ht
  simp only [Customer.updateMany, Txn.run, Txn.writing, hargs, ↓reduceIte]
  by_cases h : ∀ c ∈ (s.customers.update w.selects d.apply d.apply_id).rows, 0 ≤ c.balance
  · simp only [dif_pos h]
  · simp only [dif_neg h]

/-- The ways an `updateMany` of one customer ends: a refused argument, no row affected, a balance
that the `CHECK` refuses, or the balance changed. Only the last one writes. -/
theorem Customer.updateMany_cases (P : Prisma) (w : CustomerWhere) (d : BalanceUpdate) (s : Store) :
    ((d.arg :: w.balanceGte.toList).all P.int = false ∧
      (Customer.updateMany P w d).run s = (.error (.prisma .intRange), s)) ∨
    ((d.arg :: w.balanceGte.toList).all P.int = true ∧
      ((∀ c, s.customers.find? w.id = some c → w.selects c = false) ∧
        (Customer.updateMany P w d).run s = (.ok 0, s) ∨
      ∃ c, s.customers.find? w.id = some c ∧ w.selects c = true ∧
        (c.balance + d.delta < 0 ∧
          (Customer.updateMany P w d).run s = (.error (.prisma .checkViolation), s) ∨
        0 ≤ c.balance + d.delta ∧ ∃ n h, n ≠ 0 ∧
          (Customer.updateMany P w d).run s =
            (.ok n, s.withCustomers (credit s.customers w.id d.delta) h)))) := by
  cases hargs : (d.arg :: w.balanceGte.toList).all P.int with
  | false => exact .inl ⟨rfl, by simp [Customer.updateMany, Txn.run, Txn.writing, hargs]⟩
  | true =>
    refine .inr ⟨rfl, ?_⟩
    have hcount := Table.count_eq_zero_of_key (t := s.customers)
      (fun c => CustomerWhere.key_of_selects (w := w) (c := c))
    by_cases hsel : ∃ c, s.customers.find? w.id = some c ∧ w.selects c = true
    · obtain ⟨c, hc, hs⟩ := hsel
      have hne : s.customers.count w.selects ≠ 0 := fun h => by
        rw [hcount.mp h c hc] at hs; cases hs
      rw [Customer.run_updateMany hargs _ (CustomerWhere.update_eq_credit hc hs)]
      refine .inr ⟨c, hc, hs, ?_⟩
      by_cases hbal : 0 ≤ c.balance + d.delta
      · have hck := (credit_check hc).mpr hbal
        exact .inr ⟨hbal, _, hck, hne, dif_pos hck⟩
      · exact .inl ⟨by omega, dif_neg fun h => hbal ((credit_check hc).mp h)⟩
    · have hsel' : ∀ c, s.customers.find? w.id = some c → w.selects c = false := fun c hc =>
        Bool.eq_false_iff.mpr fun h => hsel ⟨c, hc, h⟩
      have h0 := hcount.mpr hsel'
      rw [Customer.run_updateMany hargs _ (CustomerWhere.update_eq_self h0), h0]
      exact .inl ⟨hsel', dif_pos s.balance_nonneg⟩

/-- What is read back can be an argument. -/
theorem ints_of_columns {ns : List Int} (h : ns.all P.column = true) : ns.all P.int = true :=
  List.all_eq_true.mpr fun n hn => P.int_of_column n (List.all_eq_true.mp h n hn)

/-- The ways an insert ends. -/
theorem LedgerEntry.insert_cases (P : Prisma) (d : LedgerData) (s : Store) :
    (d.ints.all P.int = false ∧
      (LedgerEntry.insert P d).run s = (.error (.prisma .intRange), s)) ∨
    (d.ints.all P.int = true ∧
      (s.keyFree d.idempotencyKey = false ∧
        (LedgerEntry.insert P d).run s = (.error (.prisma .uniqueViolation), s) ∨
      ∃ h : s.keyFree d.idempotencyKey = true,
        (s.customers.find? d.customerId = none ∧
          (LedgerEntry.insert P d).run s = (.error (.prisma .foreignKeyViolation), s) ∨
        (∃ c, s.customers.find? d.customerId = some c) ∧
          (LedgerEntry.insert P d).run s =
            (.ok { d with id := P.autoincrement s.seq }, s.append P d h)))) := by
  simp only [LedgerEntry.insert, Txn.run, Txn.writing]
  cases hints : d.ints.all P.int with
  | false => exact .inl ⟨rfl, by simp⟩
  | true =>
    refine .inr ⟨rfl, ?_⟩
    by_cases hfree : s.keyFree d.idempotencyKey = true
    · refine .inr ⟨hfree, ?_⟩
      cases hc : s.customers.find? d.customerId with
      | none => exact .inl ⟨rfl, by simp [hfree]⟩
      | some c => exact .inr ⟨⟨c, rfl⟩, by simp [hfree]⟩
    · exact .inl ⟨Bool.eq_false_iff.mpr hfree, by simp [hfree]⟩

/-- An insert that fails makes the `create` fail. -/
theorem LedgerEntry.run_create_error {d : LedgerData} {err : Error}
    (h : (LedgerEntry.insert P d).run s = (.error err, s)) :
    (LedgerEntry.create P d).run s = (.error err, s) :=
  Txn.transaction_error (Txn.run_bind_error h)

/-- The ways a `create` ends. -/
theorem LedgerEntry.create_cases (P : Prisma) (d : LedgerData) (s : Store) :
    (d.ints.all P.int = false ∧
      (LedgerEntry.create P d).run s = (.error (.prisma .intRange), s)) ∨
    (d.ints.all P.int = true ∧
      (s.keyFree d.idempotencyKey = false ∧
        (LedgerEntry.create P d).run s = (.error (.prisma .uniqueViolation), s) ∨
      ∃ h : s.keyFree d.idempotencyKey = true,
        (s.customers.find? d.customerId = none ∧
          (LedgerEntry.create P d).run s = (.error (.prisma .foreignKeyViolation), s) ∨
        (∃ c, s.customers.find? d.customerId = some c) ∧
          (d.ints.all P.column = false ∧
            (LedgerEntry.create P d).run s = (.error (.prisma .intRange), s) ∨
          d.ints.all P.column = true ∧
            (LedgerEntry.create P d).run s =
              (.ok { d with id := P.autoincrement s.seq }, s.append P d h))))) := by
  rcases LedgerEntry.insert_cases P d s with
    ⟨hi, hrun⟩ | ⟨hi, ⟨hf, hrun⟩ | ⟨hf, ⟨hn, hrun⟩ | ⟨hc, hrun⟩⟩⟩
  · exact .inl ⟨hi, run_create_error hrun⟩
  · exact .inr ⟨hi, .inl ⟨hf, run_create_error hrun⟩⟩
  · exact .inr ⟨hi, .inr ⟨hf, .inl ⟨hn, run_create_error hrun⟩⟩⟩
  · refine .inr ⟨hi, .inr ⟨hf, .inr ⟨hc, ?_⟩⟩⟩
    cases hread : d.ints.all P.column with
    | false =>
      refine .inl ⟨rfl, ?_⟩
      rw [LedgerEntry.create, Txn.run_transaction, Txn.run_bind_ok hrun, hread]
      rfl
    | true =>
      refine .inr ⟨rfl, Txn.transaction_ok ?_⟩
      rw [Txn.run_bind_ok hrun, hread]
      rfl

end Statements

end UsageBilling
