import UsageBilling.Verdict

/-!
# Balances that Prisma can read

Prisma checks what it is given and what it reads back, but SQLite computes `balance + amount`, and
no write reads the new balance. A balance that outgrows an `Int` makes `GET /customers` fail for all
customers.

* `Store.Readable`: Prisma can read every balance; `getCustomers_readable`: then, and only then, the
  route returns all customers.
* `Task.Room`: the next step of a task leaves a balance that an `Int` can hold.
* `readable_iff`: all balances stay readable exactly if every step of the run has room.
-/

namespace UsageBilling

/-- Prisma reads an `Int` back if it is a signed 32-bit integer. It may accept more than these as
arguments. -/
def Prisma.Int32 (P : Prisma) : Prop := ∀ n, P.column n = true ↔ -2 ^ 31 ≤ n ∧ n ≤ 2 ^ 31 - 1

theorem Prisma.sqlite_int32 : Prisma.sqlite.Int32 := fun n => by
  simp only [Prisma.sqlite, decide_eq_true_eq]

/-- Prisma can read every balance. -/
def Store.Readable (P : Prisma) (s : Store) : Prop :=
  ∀ c ∈ s.customers.rows, P.column c.balance = true

/-- There is room in the balance of the customer for what the next step of the task adds to it, if
that step passes its checks. -/
def Task.Room (P : Prisma) (s : Store) : Task → Prop
  | .credit input none => P.column input.amount = true →
      ∀ c, s.customers.find? input.customerId = some c → c.balance + input.amount ≤ 2 ^ 31 - 1
  | .consume input (.charge product) => chargeFits P input product = true →
      s.keyFree input.idempotencyKey = true →
      ∀ c, s.customers.find? input.customerId = some c → cost product input ≤ c.balance →
        c.balance - cost product input ≤ 2 ^ 31 - 1
  | _ => True

/-- An action of the server has room. -/
def ActRoom (P : Prisma) (p : Pool Store Task) : Act Request → Prop
  | .submit _ => True
  | .advance i => ∀ t, p.tasks[i]? = some t → t.Room P p.store

section Readable

variable {P : Prisma} {s s' : Store} {t t' : Task} {e : LedgerEntry}

theorem getCustomers_readable : s.Readable P ↔
    getCustomers P s = ⟨200, .customers (s.customers.rows.mergeSort byName)⟩ := by
  have hall : s.Readable P ↔ (s.customers.rows.all fun c => P.column c.balance) = true := by
    rw [List.all_eq_true]
    rfl
  rw [hall]
  simp only [getCustomers, listCustomers, Txn.run_reading]
  cases s.customers.rows.all fun c => P.column c.balance <;> simp [serverError]

/-- A posting changes one balance, so this is the only one that it can make unreadable. -/
theorem Posted.keeps_readable (hp : Posted P s e s') (h : s.Readable P) {c : Customer}
    (hc : s.customers.find? e.customerId = some c) :
    s'.Readable P ↔ P.column (c.balance + e.amount) = true := by
  refine ⟨fun h' => h' _ (Table.mem_of_find? (hp.find?_self hc)), fun hint c' hc' => ?_⟩
  have hfind := Table.find?_of_mem hc'
  rw [key_customer] at hfind
  by_cases hid : c'.id = e.customerId
  · rw [hid, hp.find?_self hc] at hfind
    obtain rfl := Option.some.inj hfind
    exact hint
  · rw [hp.find?_ne hid] at hfind
    exact h c' (Table.mem_of_find? hfind)

/-- The new balance passed the `CHECK`, so only the upper end of the range is left. -/
theorem column_iff_le (hP : P.Int32) {n : Int} (hn : 0 ≤ n) :
    P.column n = true ↔ n ≤ 2 ^ 31 - 1 := by
  rw [hP]
  omega

/-- A charge that passes its checks does not fail. -/
theorem Charge.passed {input : ConsumeInput} {product : Product} {c : Customer} {err : Error}
    (h : Charge P input product s (.error err) s)
    (hfits : chargeFits P input product = true)
    (hfree : s.keyFree input.idempotencyKey = true)
    (hc : s.customers.find? input.customerId = some c) (hle : cost product input ≤ c.balance) :
    False := by
  have hdec : Decides P s input product :=
    ⟨(chargeFits_iff.mp hfits).1, c, hc, .inl ⟨hle, hfits, hfree⟩⟩
  rcases h.decides_cases with ⟨hno, -⟩ | ⟨-, -, c', hc', hlt, -⟩ | ⟨-, e, ⟨⟩, -⟩
  · exact hno hdec
  · obtain rfl : c = c' := Option.mem_unique hc hc'
    omega

/-- A step keeps the balances readable exactly if it has room. -/
theorem Task.Step.keeps_readable (hP : P.Int32) (h : s.Readable P) (hst : t.Step P s t' s') :
    s'.Readable P ↔ t.Room P s := by
  cases hst with
  | found | noProduct | replayed | rethrown => exact iff_of_true h trivial
  | answered _ _ ha =>
    refine iff_of_true h ?_
    cases t with
    | consume input phase => cases phase <;> trivial
    | credit input answer => cases answer <;> trivial
  | failed input product _ err hch hu =>
    exact iff_of_true h fun hfits hfree c hc hle => (hch.passed hfits hfree hc hle).elim
  | collided input product _ hints c hc hle key original hkey ho =>
    refine iff_of_true h fun _ hfree => ?_
    rw [hkey, Store.keyFree_some, ho] at hfree
    cases hfree
  | charged input product _ e _ hch =>
    cases hch with
    | posted hfits c hc hle _ _ he hp =>
      have hid : e.customerId = input.customerId := congrArg LedgerData.customerId he
      have hamount : e.amount = -cost product input := congrArg LedgerData.amount he
      have hkey : e.idempotencyKey = input.idempotencyKey :=
        congrArg LedgerData.idempotencyKey he
      have hfree := hp.free
      rw [hkey] at hfree
      rw [hp.keeps_readable h (hid ▸ hc), hamount, column_iff_le hP (by omega)]
      refine ⟨fun hmax _ _ c' hc' _ => ?_, fun hroom => hroom hfits hfree c hc hle⟩
      obtain rfl : c = c' := Option.mem_unique hc hc'
      exact hmax
  | credited input _ answer _ hcr =>
    cases hcr with
    | refused hno =>
      refine iff_of_true h fun hread => ?_
      rw [P.int_of_column _ hread] at hno
      cases hno
    | unreadable _ hno => exact iff_of_true h fun hread => absurd hread (by simp [hno])
    | missing _ hnone =>
      refine iff_of_true h fun _ c hc => ?_
      rw [hnone] at hc; cases hc
    | overdrawn _ c hc hneg =>
      refine iff_of_true h fun _ c' hc' => ?_
      obtain rfl : c = c' := Option.mem_unique hc hc'
      omega
    | posted hread c hc hle e _ he hp =>
      have hid : e.customerId = input.customerId := congrArg LedgerData.customerId he
      have hamount : e.amount = input.amount := congrArg LedgerData.amount he
      rw [hp.keeps_readable h (hid ▸ hc), hamount, column_iff_le hP hle]
      refine ⟨fun hmax _ c' hc' => ?_, fun hroom => hroom hread c hc⟩
      obtain rfl : c = c' := Option.mem_unique hc hc'
      exact hmax

theorem act_readable_iff (hP : P.Int32) (p : Pool Store Task) (a : Act Request)
    (h : p.store.Readable P) : ((server P).act p a).store.Readable P ↔ ActRoom P p a := by
  cases a with
  | submit r => exact iff_of_true h trivial
  | advance i =>
    cases hi : p.tasks[i]? with
    | none =>
      rw [Sys.act_advance_none hi]
      exact iff_of_true h fun t ht => by rw [hi] at ht; cases ht
    | some t =>
      rw [Sys.act_advance hi]
      refine ((step_spec P t p.store).keeps_readable hP h).trans
        ⟨fun hroom u hu => ?_, fun hroom => ?_⟩
      · obtain rfl : t = u := Option.mem_unique hi hu
        exact hroom
      · exact hroom t hi

end Readable

/-- From a store with readable balances, in every interleaving of any requests: all balances stay
readable, so that `GET /customers` returns all customers in every state, exactly if every step of
the run has room. -/
theorem readable_iff (P : Prisma) (hP : P.Int32) (s₀ : Store) (h₀ : s₀.Readable P)
    (sched : List (Act Request)) :
    (∀ pre, pre <+: sched → (serve P s₀ pre).store.Readable P ∧
      getCustomers P (serve P s₀ pre).store =
        ⟨200, .customers ((serve P s₀ pre).store.customers.rows.mergeSort byName)⟩) ↔
    ∀ pre a, pre ++ [a] <+: sched → ActRoom P (serve P s₀ pre) a := by
  rw [← Sys.invariant_iff (S := server P) (I := fun p => p.store.Readable P) (p := Sys.init s₀) h₀
    (fun p a h => act_readable_iff hP p a h) sched]
  refine forall₂_congr fun pre _ => ?_
  rw [← getCustomers_readable, and_self]

/-- A top-up with room. -/
theorem readable_iff_topUp :
    (serve .sqlite (shop 100) [.submit (.credit ⟨"c1", 10⟩), .advance 0]).store.Readable
      .sqlite := by
  refine ((readable_iff .sqlite Prisma.sqlite_int32 (shop 100) (by unfold Store.Readable; decide)
    [.submit (.credit ⟨"c1", 10⟩), .advance 0]).mpr ?_) _ (List.prefix_refl _) |>.1
  rw [Sys.forall_steps_cons, Sys.forall_steps_cons]
  refine ⟨trivial, ?_, Sys.forall_steps_nil.mpr trivial⟩
  rintro t ⟨⟩ - c hc
  obtain rfl : c = ⟨"c1", "Ada", 100⟩ := Option.mem_unique hc (by decide)
  decide

/-- The largest amount that the route accepts on top of a balance of one. -/
theorem not_always_readable : ¬ ∀ (P : Prisma), P.Int32 → ∀ s₀ : Store, s₀.Readable P →
    ∀ sched : List (Act Request), (serve P s₀ sched).store.Readable P := by
  intro h
  have := h .sqlite Prisma.sqlite_int32 (shop 1) (by unfold Store.Readable; decide)
    [.submit (.credit ⟨"c1", 2 ^ 31 - 1⟩), .advance 0]
  revert this
  unfold Store.Readable
  decide

end UsageBilling
