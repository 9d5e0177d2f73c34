import UsageBilling.Serial
import UsageBilling.Verdict

/-!
# The overspend race

Requests that buy the same for one customer race for its balance. As many of them as the balance
covers are charged, no more and no fewer, and the others are refused for lack of funds.

* `FreshKeys`: no request of the customer replays.
* `Raced`: what the customer's requests did, as a relation between two stores; `Raced.paid`,
  `Raced.short` and `Raced.foreign` are one request more in front.
* `overspend_race`: every interleaving.
-/

namespace UsageBilling

/-- What Prisma reads back from an `Int` is a range around 0: with `n` all numbers from `-n` to
`n`. -/
def Prisma.Ranged (P : Prisma) : Prop :=
  ∀ n m, P.column n = true → -n ≤ m → m ≤ n → P.column m = true

theorem Prisma.sqlite_ranged : Prisma.sqlite.Ranged := by
  intro n m hn hl hr
  simp only [Prisma.sqlite, decide_eq_true_eq] at hn ⊢
  omega

/-- The keys of the customer's requests are on no stored row and on no other request. -/
structure FreshKeys (customerId : String) (s : Store) (requests : List Request) : Prop where
  free : ∀ r ∈ requests, r.customerId = customerId → s.keyFree r.key = true
  distinct : requests.Pairwise fun r r' =>
    r.customerId = customerId ∨ r'.customerId = customerId → r.key = r'.key → r.key = none

namespace FreshKeys

variable {P : Prisma} {customerId : String} {s s' : Store} {r : Request} {requests : List Request}

theorem perm {requests' : List Request} (h : FreshKeys customerId s requests)
    (hp : requests.Perm requests') : FreshKeys customerId s requests' where
  free r hr := h.free r (hp.mem_iff.mpr hr)
  distinct := by
    refine (hp.pairwise_iff fun {r r'} hrr' => ?_).mp h.distinct
    exact fun hor heq => heq.trans (hrr' hor.symm heq.symm)

/-- The row of the first request takes no key of the rest. -/
theorem tail {e : LedgerEntry} (h : FreshKeys customerId s (r :: requests)) (hp : Posted P s e s')
    (he : e.idempotencyKey = r.key) : FreshKeys customerId s' requests := by
  obtain ⟨hhead, htail⟩ := List.pairwise_cons.mp h.distinct
  refine ⟨fun r' hr' hid => ?_, htail⟩
  have hold := h.free r' (List.mem_cons_of_mem _ hr') hid
  cases hk : r'.key with
  | none => rfl
  | some key =>
    rw [hk, Store.keyFree_some] at hold
    rw [Store.keyFree_some, hp.findKey, he, if_neg, hold]
    intro hr
    have := hhead r' hr' (.inr hid) (hr.trans hk.symm)
    rw [hr] at this
    cases this

theorem skip (h : FreshKeys customerId s (r :: requests)) : FreshKeys customerId s requests where
  free r' hr' := h.free r' (List.mem_cons_of_mem _ hr')
  distinct := (List.pairwise_cons.mp h.distinct).2

end FreshKeys

/-! ## One request of the race -/

section Request

variable {P : Prisma} {s : Store} {input : ConsumeInput} {product : Product} {c : Customer}

/-- A cost that Prisma reads back makes all numbers of the charge fit. -/
theorem chargeFits_of_cost (hP : P.Ranged) (hprice : 1 ≤ product.unitPrice)
    (hq : 1 ≤ input.quantity) (hcost : P.column (cost product input) = true) :
    chargeFits P input product = true := by
  have hquantity : input.quantity ≤ cost product input :=
    le_mul_of_one_le_left (by omega) hprice
  have hunit : product.unitPrice ≤ cost product input :=
    le_mul_of_one_le_right (by omega) hq
  have hall := fun n => hP _ n hcost
  refine chargeFits_of_columns ?_
  simp only [chargeInts, List.all_cons, List.all_nil, Bool.and_true, Bool.and_eq_true]
  exact ⟨hcost, hall _ (by omega) hquantity, hall _ (by omega) hunit,
    hall _ (by omega) (by omega)⟩

end Request

/-! ## The race -/

/-- The tasks of the customer. -/
def tasksOf (customerId : String) (tasks : List Task) : List Task :=
  tasks.filter (·.request.customerId = customerId)

theorem tasksOf_own {customerId : String} {t : Task} (ht : t.request.customerId = customerId)
    (tasks : List Task) : tasksOf customerId (t :: tasks) = t :: tasksOf customerId tasks := by
  simp [tasksOf, ht]

theorem tasksOf_foreign {customerId : String} {t : Task} (ht : t.request.customerId ≠ customerId)
    (tasks : List Task) : tasksOf customerId (t :: tasks) = tasksOf customerId tasks := by
  simp [tasksOf, ht]

/-- What the tasks of a customer with the balance `b` did between `s` and `s'`: as many as `b`
covers were answered with the rows `added`, and the others were refused. -/
structure Raced (customerId : String) (cost b : Int) (s : Store) (tasks : List Task) (s' : Store)
    (added : List LedgerEntry) : Prop where
  rows : s'.ownRows customerId = s.ownRows customerId ++ added
  answered : ((tasksOf customerId tasks).filterMap Task.row).Perm added
  length : (added.length : Int) = min ((tasksOf customerId tasks).length : Int) (b / cost)
  balance : ∃ c', s'.customers.find? customerId = some c' ∧ c'.balance = b - cost * added.length
  refused : ∀ t ∈ tasksOf customerId tasks, t.row = none → ∃ left,
    t.answer = some (.error (.insufficientFunds left cost)) ∧ 0 ≤ left ∧ left < cost

namespace Raced

variable {P : Prisma} {customerId : String} {cost b : Int} {s s₁ s' : Store} {t : Task}
  {tasks : List Task} {added : List LedgerEntry}

theorem nil {c : Customer} (hc : s.customers.find? customerId = some c) (hk : 1 ≤ cost) :
    Raced customerId cost c.balance s [] s [] where
  rows := (List.append_nil _).symm
  answered := .nil
  length := by
    have hb : 0 ≤ c.balance / cost :=
      Int.ediv_nonneg (Store.balance_nonneg_of_find? hc) (by omega)
    simpa [tasksOf] using hb
  balance := ⟨c, hc, by simp⟩
  refused := by simp [tasksOf]

/-- A task of another customer in front. -/
theorem foreign (h : Raced customerId cost b s₁ tasks s' added)
    (ht : t.request.customerId ≠ customerId)
    (hrows : s₁.ownRows customerId = s.ownRows customerId) :
    Raced customerId cost b s (t :: tasks) s' added := by
  have htasks := tasksOf_foreign ht tasks
  exact ⟨hrows ▸ h.rows, htasks ▸ h.answered, htasks ▸ h.length, h.balance, htasks ▸ h.refused⟩

/-- A charged task in front. -/
theorem paid {e : LedgerEntry} (h : Raced customerId cost (b - cost) s₁ tasks s' added)
    (ht : t.request.customerId = customerId) (ha : t.answer = some (.ok e)) (hk : 1 ≤ cost)
    (hrows : s₁.ownRows customerId = s.ownRows customerId ++ [e]) :
    Raced customerId cost b s (t :: tasks) s' (e :: added) := by
  have hdiv : (b - cost) / cost = b / cost - 1 := by
    have := Int.add_mul_ediv_right b (-1) (show cost ≠ 0 by omega)
    rw [Int.neg_one_mul, ← Int.sub_eq_add_neg] at this
    omega
  refine ⟨?_, ?_, ?_, ?_, ?_⟩
  · rw [h.rows, hrows, List.append_assoc]
    rfl
  · rw [tasksOf_own ht, List.filterMap_cons_some (Task.row_of_ok ha)]
    exact h.answered.cons e
  · have := h.length
    rw [hdiv] at this
    rw [tasksOf_own ht]
    push_cast [List.length_cons]
    omega
  · obtain ⟨c', hc', hb⟩ := h.balance
    refine ⟨c', hc', ?_⟩
    rw [hb, List.length_cons]
    push_cast
    rw [Int.mul_add]
    omega
  · rw [tasksOf_own ht]
    intro u hu hrow
    rcases List.mem_cons.mp hu with rfl | hu
    · rw [Task.row_of_ok ha] at hrow
      cases hrow
    · exact h.refused u hu hrow

/-- A refused task in front. -/
theorem short (h : Raced customerId cost b s tasks s' added)
    (ht : t.request.customerId = customerId)
    (ha : t.answer = some (.error (.insufficientFunds b cost))) (hb : 0 ≤ b) (hlt : b < cost) :
    Raced customerId cost b s (t :: tasks) s' added := by
  have hdiv : b / cost = 0 := Int.ediv_eq_zero_of_lt hb hlt
  refine ⟨h.rows, ?_, ?_, h.balance, ?_⟩
  · rw [tasksOf_own ht, List.filterMap_cons_none (Task.row_of_error ha)]
    exact h.answered
  · have := h.length
    rw [hdiv] at this ⊢
    rw [tasksOf_own ht, List.length_cons]
    omega
  · rw [tasksOf_own ht]
    intro u hu hrow
    rcases List.mem_cons.mp hu with rfl | hu
    · exact ⟨b, ha, hb, hlt⟩
    · exact h.refused u hu hrow

theorem perm {tasks' : List Task} (h : Raced customerId cost b s tasks s' added)
    (hp : tasks.Perm tasks') : Raced customerId cost b s tasks' s' added := by
  have hown : (tasksOf customerId tasks).Perm (tasksOf customerId tasks') := hp.filter _
  refine ⟨h.rows, (hown.filterMap _).symm.trans h.answered, ?_, h.balance, fun t ht =>
    h.refused t (hown.mem_iff.mpr ht)⟩
  rw [← hown.length_eq]
  exact h.length

end Raced

section Race

variable {P : Prisma} {customerId productId : String} {q : Int} {s s' : Store} {product : Product}
  {c : Customer} {tasks : List Task}

/-- One request of the race is charged if the balance covers it, and refused if not. -/
theorem purchase_cases {key : Option String} (hP : P.Ranged)
    (hp : s.products.find? productId = some product)
    (hc : s.customers.find? customerId = some c) (hprice : 1 ≤ product.unitPrice) (hq : 1 ≤ q)
    (hcost : P.column (product.unitPrice * q) = true) (hfree : s.keyFree key = true) {r : Request}
    (hr : r = .consume ⟨customerId, productId, q, key⟩) :
    (∃ e, (service P r s).1 = .ok e ∧ Posted P s e (service P r s).2 ∧
      e.customerId = customerId ∧ e.amount = -(product.unitPrice * q) ∧
      e.idempotencyKey = r.key) ∨
    c.balance < product.unitPrice * q ∧ service P r s =
      (.error (.insufficientFunds c.balance (product.unitPrice * q)), s) := by
  subst hr
  by_cases hle : product.unitPrice * q ≤ c.balance
  · have hfits : chargeFits P ⟨customerId, productId, q, key⟩ product = true :=
      chargeFits_of_cost hP hprice hq hcost
    obtain ⟨e, hans, he, hpost⟩ := service_paid hp hfits hc hle hfree
    exact .inl ⟨e, hans, hpost, congrArg LedgerData.customerId he, congrArg LedgerData.amount he,
      congrArg LedgerData.idempotencyKey he⟩
  · have hb := Store.balance_nonneg_of_find? hc
    have hread : P.column c.balance = true := hP _ _ hcost (by omega) (by omega)
    exact .inr ⟨Int.not_le.mp hle,
      service_short hp (P.int_of_column _ hcost) hc (Int.not_le.mp hle) hread⟩

/-- The tasks of a customer that all buy the same, one after the other. -/
theorem raced_of_served (h : Served P s tasks s') (hP : P.Ranged)
    (hp : s.products.find? productId = some product)
    (hc : s.customers.find? customerId = some c) (hprice : 1 ≤ product.unitPrice) (hq : 1 ≤ q)
    (hcost : P.column (product.unitPrice * q) = true)
    (hreq : ∀ t ∈ tasks, t.request.customerId = customerId →
      ∃ key, t.request = .consume ⟨customerId, productId, q, key⟩)
    (hfresh : FreshKeys customerId s (tasks.map Task.request)) :
    ∃ added, Raced customerId (product.unitPrice * q) c.balance s tasks s' added := by
  have hk : 1 ≤ product.unitPrice * q := one_le_mul_of_one_le_of_one_le hprice hq
  induction h generalizing c with
  | nil s => exact ⟨[], .nil hc hk⟩
  | @cons s s' t tasks ha hs ih =>
    simp only [server_request, server_answer] at ha ih
    have hrest := fun u hu => hreq u (List.mem_cons_of_mem _ hu)
    by_cases ht : t.request.customerId = customerId
    · obtain ⟨key, hr⟩ := hreq t (List.mem_cons_self ..) ht
      have hfree := hfresh.free _ (List.mem_cons_self ..) ht
      rw [hr] at hfree
      rcases purchase_cases hP hp hc hprice hq hcost hfree hr with
        ⟨e, hans, hpost, hown, hamount, hkey⟩ | ⟨hlt, hshort⟩
      · have hc' := hpost.find?_self (hown ▸ hc)
        rw [hown, hamount, ← Int.sub_eq_add_neg] at hc'
        obtain ⟨added, h⟩ := ih (by rw [hpost.products, hp]) hc' hrest (hfresh.tail hpost hkey)
        exact ⟨e :: added, h.paid ht (ha.trans (congrArg some hans)) hk
          (by rw [hpost.ownRows, if_pos hown])⟩
      · rw [hshort] at ha ih
        obtain ⟨added, h⟩ := ih hp hc hrest hfresh.skip
        exact ⟨added, h.short ht ha (Store.balance_nonneg_of_find? hc) hlt⟩
    · rcases service_cases P t.request s with ⟨heq, -⟩ | ⟨e, -, hw, hpost⟩
      · rw [heq] at ih
        obtain ⟨added, h⟩ := ih hp hc hrest hfresh.skip
        exact ⟨added, h.foreign ht rfl⟩
      · have hown : e.customerId ≠ customerId := hw.customerId ▸ ht
        obtain ⟨added, h⟩ := ih (by rw [hpost.products, hp])
          (by rw [hpost.find?_ne (Ne.symm hown), hc]) hrest (hfresh.tail hpost hw.key)
        exact ⟨added, h.foreign ht (by rw [hpost.ownRows, if_neg hown, List.append_nil])⟩

/-- If every request of the customer buys `q` units of the product, then in every schedule that
answers all requests `min N (b / cost)` of these `N` requests are charged and the others are
refused for lack of funds. -/
theorem overspend_race (P : Prisma) (s₀ : Store) (sched : List (Act Request)) (hP : P.Ranged)
    (hp : s₀.products.find? productId = some product)
    (hc : s₀.customers.find? customerId = some c) (hprice : 1 ≤ product.unitPrice) (hq : 1 ≤ q)
    (hcost : P.column (product.unitPrice * q) = true)
    (hreq : ∀ r ∈ submitted sched, r.customerId = customerId →
      ∃ key, r = .consume ⟨customerId, productId, q, key⟩)
    (hfresh : FreshKeys customerId s₀ (submitted sched))
    (hall : ∀ t ∈ (serve P s₀ sched).tasks, t.answer.isSome) :
    ∃ added, Raced customerId (product.unitPrice * q) c.balance s₀ (serve P s₀ sched).tasks
      (serve P s₀ sched).store added := by
  obtain ⟨tasks, hperm, hserved⟩ := serve_serial P s₀ sched hall
  have hsub := requests_perm hperm
  have hreq' : ∀ t ∈ tasks, t.request.customerId = customerId →
      ∃ key, t.request = .consume ⟨customerId, productId, q, key⟩ := fun t ht =>
    hreq _ (hsub.mem_iff.mp (List.mem_map_of_mem ht))
  obtain ⟨added, h⟩ :=
    raced_of_served hserved hP hp hc hprice hq hcost hreq' (hfresh.perm hsub.symm)
  exact ⟨added, h.perm hperm⟩

/-- Three purchases of two units by Ada, who can pay for one of them, with a purchase of Bob in
between. -/
def race : List (Act Request) :=
  [.submit (.consume ⟨"c1", "p1", 2, none⟩), .submit (.consume ⟨"c1", "p1", 2, some "k1"⟩),
    .submit (.consume (purchase "c2")), .submit (.consume ⟨"c1", "p1", 2, none⟩), .advance 0,
    .advance 1, .advance 2, .advance 3, .advance 3, .advance 2, .advance 1, .advance 0]

theorem overspend_race_shop : ∃ added, (added.length : Int) = 1 ∧
    Raced "c1" (100 * 2) 350 (shop 350) (serve .sqlite (shop 350) race).tasks
      (serve .sqlite (shop 350) race).store added :=
  have ⟨added, h⟩ := overspend_race (q := 2) .sqlite (shop 350) race Prisma.sqlite_ranged
    (show (shop 350).products.find? "p1" = some ⟨"p1", "Widget", 100⟩ from rfl)
    (show (shop 350).customers.find? "c1" = some ⟨"c1", "Ada", 350⟩ from rfl)
    (by decide) (by decide) (by decide) (by simp [race, submitted, purchase, Request.customerId])
    ⟨by decide, by simp [race, submitted, purchase, Request.key, Request.customerId]⟩ (by decide)
  ⟨added, h.length.trans (by decide), h⟩

end Race

end UsageBilling
