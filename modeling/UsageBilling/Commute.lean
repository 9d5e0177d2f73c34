import Mathlib.Algebra.Order.BigOperators.Group.List
import UsageBilling.Serial
import UsageBilling.Verdict

/-!
# Affordable requests commute

If the balances cover the costs of all key-less consumes, no order of the steps of these and of any
top-ups makes a difference: all succeed, and the balances and the new rows are the same up to ids.

* `Request.data`, `Request.costTo`, `Request.creditTo`: what a request writes and moves.
* `Request.Workable`: it fails for lack of funds only.
* `Covered`: the invariant, each balance covers the costs to come; `settled_of_served`.
* `affordable_commutes`: every interleaving, and any two of them.
-/

namespace UsageBilling

/-- The data of the row that the request posts. -/
def Request.data (products : Table Product) : Request → Option LedgerData
  | .consume input => (products.find? input.productId).map (consumptionData input)
  | .credit input => some (creditData input)

/-- What the request takes from the balance of the customer. -/
def Request.costTo (products : Table Product) (customerId : String) : Request → Int
  | .consume input =>
    if input.customerId = customerId then
      match products.find? input.productId with
      | some product => cost product input
      | none => 0
    else 0
  | .credit _ => 0

/-- What the request adds to the balance of the customer. -/
def Request.creditTo (customerId : String) : Request → Int
  | .consume _ => 0
  | .credit input => if input.customerId = customerId then input.amount else 0

/-- What the requests charge to the customer, in all. -/
def costsOf (products : Table Product) (customerId : String) (requests : List Request) : Int :=
  (requests.map (Request.costTo products customerId)).sum

/-- What the requests credit to the customer, in all. -/
def creditsOf (customerId : String) (requests : List Request) : Int :=
  (requests.map (Request.creditTo customerId)).sum

/-- A request that only a lack of funds can refuse: a top-up with a positive amount, or a key-less
consume of a positive quantity of a product that costs at least 0; the customer exists, and Prisma
accepts the numbers and reads them back. -/
def Request.Workable (P : Prisma) (s : Store) : Request → Prop
  | .consume input => input.idempotencyKey = none ∧ 1 ≤ input.quantity ∧
      (∃ product, s.products.find? input.productId = some product ∧ 0 ≤ product.unitPrice ∧
        chargeFits P input product = true) ∧
      ∃ c, s.customers.find? input.customerId = some c
  | .credit input => 1 ≤ input.amount ∧ P.column input.amount = true ∧
      ∃ c, s.customers.find? input.customerId = some c

section Request

variable {P : Prisma} {s s' : Store} {r : Request} {customerId : String}

theorem Request.Workable.customer (h : r.Workable P s) :
    ∃ c, s.customers.find? r.customerId = some c := by
  cases r with
  | consume input => exact h.2.2.2
  | credit input => exact h.2.2

theorem Request.Workable.posted {e : LedgerEntry} (h : r.Workable P s) (hp : Posted P s e s') :
    r.Workable P s' := by
  have hcust : ∀ {id c}, s.customers.find? id = some c →
      ∃ c', s'.customers.find? id = some c' := fun hc =>
    Option.isSome_iff_exists.mp (by rw [hp.find?_isSome, hc]; rfl)
  cases r with
  | consume input =>
    obtain ⟨hkey, hq, hprod, c, hc⟩ := h
    exact ⟨hkey, hq, by rw [hp.products]; exact hprod, hcust hc⟩
  | credit input =>
    obtain ⟨hpos, hint, c, hc⟩ := h
    exact ⟨hpos, hint, hcust hc⟩

theorem Request.Workable.costTo_nonneg (h : r.Workable P s) :
    0 ≤ r.costTo s.products customerId := by
  cases r with
  | credit input => exact Int.le_refl 0
  | consume input =>
    obtain ⟨-, hq, ⟨product, hp, hprice, -⟩, -⟩ := h
    simp only [Request.costTo, hp]
    split
    · exact Int.mul_nonneg hprice (by omega)
    · exact Int.le_refl 0

theorem Request.Workable.creditTo_nonneg (h : r.Workable P s) : 0 ≤ r.creditTo customerId := by
  cases r with
  | consume input => exact Int.le_refl 0
  | credit input =>
    obtain ⟨hpos, -⟩ := h
    simp only [Request.creditTo]
    split <;> omega

/-- A workable request that the balance covers succeeds. -/
theorem Request.Workable.served {c : Customer} (h : r.Workable P s)
    (hc : s.customers.find? r.customerId = some c)
    (hle : r.costTo s.products r.customerId ≤ c.balance) :
    ∃ e, (service P r s).1 = .ok e ∧ r.data s.products = some e.toLedgerData ∧
      Posted P s e (service P r s).2 := by
  cases r with
  | consume input =>
    obtain ⟨hkey, hq, ⟨product, hp, hprice, hints⟩, -⟩ := h
    simp only [Request.customerId, Request.costTo, hp, ↓reduceIte] at hc hle
    obtain ⟨e, ha, he, hpost⟩ := service_paid hp hints hc hle (by rw [hkey]; rfl)
    exact ⟨e, ha, by rw [Request.data, hp, he]; rfl, hpost⟩
  | credit input =>
    obtain ⟨hpos, hint, -⟩ := h
    have hb := Store.balance_nonneg_of_find? hc
    obtain ⟨e, ha, he, hpost⟩ := service_credited hint hc (by omega)
    exact ⟨e, ha, by rw [Request.data, he], hpost⟩

/-- The amount of the row is what the request moves. -/
theorem Request.amount_of_data {d : LedgerData} (h : r.data s.products = some d)
    (customerId : String) :
    (if d.customerId = customerId then d.amount else 0) =
      r.creditTo customerId - r.costTo s.products customerId := by
  cases r with
  | consume input =>
    obtain ⟨product, hp, rfl⟩ := Option.map_eq_some_iff.mp h
    by_cases hid : input.customerId = customerId <;>
      simp [Request.creditTo, Request.costTo, hp, consumptionData, hid]
  | credit input =>
    obtain rfl := Option.some.inj h
    by_cases hid : input.customerId = customerId <;>
      simp [Request.creditTo, Request.costTo, creditData, hid]

end Request

/-! ## The requests one after the other -/

/-- What the tasks did between `s₀` and `s`: each was answered 201 with one of the rows `added`,
which are those of the requests, and each balance moved by its top-ups and costs. -/
structure Settled (s₀ : Store) (requests : List Request) (tasks : List Task) (s : Store)
    (added : List LedgerEntry) : Prop where
  created : ∀ t ∈ tasks, ∃ e, t.response = some ⟨201, .entry e⟩
  answered : (tasks.filterMap Task.row).Perm added
  ledger : s.ledger = s₀.ledger ++ added
  data : (added.map fun e => some e.toLedgerData).Perm (requests.map (Request.data s₀.products))
  balance : ∀ id, s.customers.find? id = (s₀.customers.find? id).map fun c =>
    { c with balance := c.balance + creditsOf id requests - costsOf s₀.products id requests }

section Settled

variable {P : Prisma} {s s' : Store} {r : Request} {requests : List Request} {tasks : List Task}
  {customerId : String}

theorem costsOf_cons (products : Table Product) : costsOf products customerId (r :: requests) =
    r.costTo products customerId + costsOf products customerId requests := List.sum_cons

theorem costsOf_perm {requests' : List Request} (products : Table Product)
    (h : requests.Perm requests') :
    costsOf products customerId requests = costsOf products customerId requests' :=
  (h.map _).sum_eq

theorem creditsOf_cons : creditsOf customerId (r :: requests) =
    r.creditTo customerId + creditsOf customerId requests := List.sum_cons

theorem creditsOf_perm {requests' : List Request} (h : requests.Perm requests') :
    creditsOf customerId requests = creditsOf customerId requests' :=
  (h.map _).sum_eq

theorem costsOf_nonneg (h : ∀ r ∈ requests, r.Workable P s) :
    0 ≤ costsOf s.products customerId requests := by
  refine List.sum_nonneg fun n hn => ?_
  obtain ⟨r, hr, rfl⟩ := List.mem_map.mp hn
  exact (h r hr).costTo_nonneg

/-- The rows of the requests sum up to what the requests move. -/
theorem sum_amountsOf {es : List LedgerEntry}
    (h : requests.map (Request.data s.products) = es.map fun e => some e.toLedgerData) :
    (amountsOf customerId es).sum =
      creditsOf customerId requests - costsOf s.products customerId requests := by
  induction es generalizing requests with
  | nil =>
    obtain rfl := List.map_eq_nil_iff.mp h
    rfl
  | cons e es ih =>
    cases requests with
    | nil => cases h
    | cons r requests =>
      obtain ⟨hr, hrest⟩ := List.cons.inj h
      have hamount := Request.amount_of_data hr customerId
      rw [creditsOf_cons, costsOf_cons, amountsOf_cons, List.sum_append, ih hrest]
      split at hamount
      · rename_i heq
        rw [if_pos heq, List.sum_singleton]
        omega
      · rename_i hne
        rw [if_neg hne, List.sum_nil]
        omega

/-- Each balance covers the costs of the requests to come. -/
def Covered (s : Store) (requests : List Request) : Prop :=
  ∀ id c, s.customers.find? id = some c → costsOf s.products id requests ≤ c.balance

theorem Covered.head {c : Customer} (h : Covered s (r :: requests))
    (hrest : ∀ r ∈ requests, r.Workable P s) (hc : s.customers.find? r.customerId = some c) :
    r.costTo s.products r.customerId ≤ c.balance := by
  have hsum := h _ c hc
  have hpos : 0 ≤ costsOf s.products r.customerId requests := costsOf_nonneg hrest
  rw [costsOf_cons] at hsum
  omega

/-- The first request takes only what it costs. -/
theorem Covered.tail {e : LedgerEntry} (h : Covered s (r :: requests)) (hr : r.Workable P s)
    (hdata : r.data s.products = some e.toLedgerData) (hp : Posted P s e s') :
    Covered s' requests := by
  intro id c₁ hc₁
  rw [hp.find?] at hc₁
  obtain ⟨c, hc, rfl⟩ := Option.map_eq_some_iff.mp hc₁
  have hid : c.id = id := Table.key_of_find? hc
  have hsum := h id c hc
  have hmove := Request.amount_of_data hdata id
  have hcredit : 0 ≤ r.creditTo id := hr.creditTo_nonneg
  rw [costsOf_cons] at hsum
  rw [hp.products, hid]
  by_cases hown : e.customerId = id
  · rw [if_pos hown] at hmove
    rw [if_pos hown.symm]
    show _ ≤ c.balance + e.amount
    omega
  · rw [if_neg hown] at hmove
    rw [if_neg (Ne.symm hown)]
    omega

/-- Workable requests that the balances cover all succeed. -/
theorem postings_of_served (h : Served P s tasks s')
    (hwork : ∀ r ∈ tasks.map Task.request, r.Workable P s)
    (hfunds : Covered s (tasks.map Task.request)) :
    ∃ es, Postings P s es s' ∧ (tasks.map Task.answer = es.map fun e => some (.ok e)) ∧
      (tasks.map Task.request).map (Request.data s.products) =
        es.map fun e => some e.toLedgerData := by
  induction h with
  | nil s => exact ⟨[], .nil, rfl, rfl⟩
  | @cons s s' t tasks ha hs ih =>
    simp only [server_request, server_answer] at ha ih
    have ht := hwork t.request (List.mem_cons_self ..)
    have hrest := fun r hr => hwork r (List.mem_cons_of_mem _ hr)
    obtain ⟨c, hc⟩ := ht.customer
    obtain ⟨e, hans, hdata, hpost⟩ := ht.served hc (hfunds.head hrest hc)
    obtain ⟨es, hps, hanss, hdatas⟩ :=
      ih (fun r hr => (hrest r hr).posted hpost) (hfunds.tail ht hdata hpost)
    rw [hpost.products] at hdatas
    refine ⟨e :: es, (Postings.one hpost).trans hps, ?_, ?_⟩
    · rw [List.map_cons, List.map_cons, ha, hans, hanss]
    · rw [List.map_cons, List.map_cons, List.map_cons, hdata, hdatas]

theorem filterMap_row {es : List LedgerEntry}
    (h : tasks.map Task.answer = es.map fun e => some (.ok e)) : tasks.filterMap Task.row = es := by
  induction tasks generalizing es with
  | nil => exact (List.map_eq_nil_iff.mp h.symm).symm
  | cons t tasks ih =>
    cases es with
    | nil => cases h
    | cons e es =>
      obtain ⟨ha, hrest⟩ := List.cons.inj h
      rw [List.filterMap_cons_some (Task.row_of_ok ha), ih hrest]

theorem Settled.perm {requests' : List Request} {tasks' : List Task} {added : List LedgerEntry}
    (h : Settled s requests tasks s' added) (hr : requests.Perm requests')
    (ht : tasks.Perm tasks') : Settled s requests' tasks' s' added where
  created t hmem := h.created t (ht.mem_iff.mpr hmem)
  answered := (ht.filterMap _).symm.trans h.answered
  ledger := h.ledger
  data := h.data.trans (hr.map _)
  balance id := by rw [h.balance, creditsOf_perm hr, costsOf_perm _ hr]

theorem settled_of_served (h : Served P s tasks s')
    (hwork : ∀ r ∈ tasks.map Task.request, r.Workable P s)
    (hfunds : Covered s (tasks.map Task.request)) :
    ∃ added, Settled s (tasks.map Task.request) tasks s' added := by
  obtain ⟨es, hps, hans, hdata⟩ := postings_of_served h hwork hfunds
  refine ⟨es, ?_, .of_eq (filterMap_row hans), hps.ledger, .of_eq hdata.symm, fun id => ?_⟩
  · intro t ht
    have hmem : t.answer ∈ es.map fun e => some (.ok e) := hans ▸ List.mem_map_of_mem ht
    obtain ⟨e, -, he⟩ := List.mem_map.mp hmem
    exact ⟨e, Task.response_of_ok he.symm⟩
  · rw [hps.find?, sum_amountsOf hdata]
    congr 1
    funext c
    rw [Int.add_sub_assoc]

/-- The requests of a schedule, if they are workable and the balances cover their costs. -/
theorem serve_settled {s₀ : Store} {sched : List (Act Request)}
    (hwork : ∀ r ∈ submitted sched, r.Workable P s₀)
    (hfunds : ∀ c ∈ s₀.customers.rows, costsOf s₀.products c.id (submitted sched) ≤ c.balance)
    (hall : ∀ t ∈ (serve P s₀ sched).tasks, t.answer.isSome) :
    ∃ added, Settled s₀ (submitted sched) (serve P s₀ sched).tasks (serve P s₀ sched).store
      added := by
  obtain ⟨tasks, hperm, hserved⟩ := serve_serial P s₀ sched hall
  have hsub := requests_perm hperm
  obtain ⟨added, h⟩ := settled_of_served hserved
    (fun r hr => hwork r (hsub.mem_iff.mp hr))
    (fun id c hc => by
      have hid : c.id = id := Table.key_of_find? hc
      rw [costsOf_perm _ hsub, ← hid]
      exact hfunds c (Table.mem_of_find? hc))
  exact ⟨added, h.perm hsub hperm⟩

/-- If the requests are workable and each balance covers the costs of its customer's consumes,
then no request is ever refused; a schedule that answers them all adds one row for each and moves
each balance by the top-ups and the costs; two such schedules of the same requests leave the same
balances and the same new rows up to ids. -/
theorem affordable_commutes (P : Prisma) (s₀ : Store) (sched : List (Act Request))
    (hwork : ∀ r ∈ submitted sched, r.Workable P s₀)
    (hfunds : ∀ c ∈ s₀.customers.rows, costsOf s₀.products c.id (submitted sched) ≤ c.balance) :
    (∀ t ∈ (serve P s₀ sched).tasks, t.answer.isSome → ∃ e, t.response = some ⟨201, .entry e⟩) ∧
    ((∀ t ∈ (serve P s₀ sched).tasks, t.answer.isSome) →
      ∃ added, Settled s₀ (submitted sched) (serve P s₀ sched).tasks (serve P s₀ sched).store
        added ∧
      ∀ sched', (submitted sched').Perm (submitted sched) →
        (∀ t ∈ (serve P s₀ sched').tasks, t.answer.isSome) →
        (∀ id, (serve P s₀ sched').store.customers.find? id =
          (serve P s₀ sched).store.customers.find? id) ∧
        ∃ added', (serve P s₀ sched').store.ledger = s₀.ledger ++ added' ∧
          (added'.map (·.toLedgerData)).Perm (added.map (·.toLedgerData))) := by
  refine ⟨fun t ht ha => ?_, fun hall => ?_⟩
  · -- the task keeps its answer when the run is completed
    obtain ⟨post, hsub, hall⟩ := serve_completes P s₀ sched
    rw [← hsub] at hwork hfunds
    obtain ⟨added, h⟩ := serve_settled hwork hfunds hall
    obtain ⟨i, hi⟩ := List.mem_iff_getElem?.mp ht
    have hlast : (serve P s₀ (sched ++ post)).tasks[i]? = some t := by
      rw [serve, Sys.run_append]
      exact Sys.answered_run hi ha
    exact h.created t (List.mem_of_getElem? hlast)
  · obtain ⟨added, h⟩ := serve_settled hwork hfunds hall
    refine ⟨added, h, fun sched' hperm hall' => ?_⟩
    obtain ⟨added', h'⟩ := serve_settled (fun r hr => hwork r (hperm.mem_iff.mp hr))
      (fun c hc => by rw [costsOf_perm _ hperm]; exact hfunds c hc) hall'
    have hdata := (h'.perm hperm (.refl _)).data.trans h.data.symm
    refine ⟨fun id => ?_, added', h'.ledger, ?_⟩
    · rw [h.balance, (h'.perm hperm (.refl _)).balance]
    · have hrows : ((added'.map (·.toLedgerData)).map some).Perm
          ((added.map (·.toLedgerData)).map some) := by
        rw [List.map_map, List.map_map]
        exact hdata
      exact (List.map_perm_map_iff (Option.some_injective _)).mp hrows

/-- A purchase of Ada that her balance covers, and two top-ups. -/
def burst : List (Act Request) :=
  [.submit (.consume ⟨"c1", "p1", 2, none⟩), .submit (.credit ⟨"c1", 30⟩),
    .submit (.credit ⟨"c2", 5⟩), .advance 0, .advance 1, .advance 0, .advance 2]

theorem affordable_commutes_burst : ∃ added, Settled (shop 200) (submitted burst)
    (serve .sqlite (shop 200) burst).tasks (serve .sqlite (shop 200) burst).store added :=
  have ⟨added, h, _⟩ := (affordable_commutes .sqlite (shop 200) burst
    (by
      have hp : (shop 200).products.find? "p1" = some ⟨"p1", "Widget", 100⟩ := rfl
      have hc : (shop 200).customers.find? "c1" = some ⟨"c1", "Ada", 200⟩ := rfl
      have hc' : (shop 200).customers.find? "c2" = some ⟨"c2", "Bob", 200⟩ := rfl
      simp only [burst, submitted, List.forall_mem_cons]
      exact ⟨⟨rfl, by decide, ⟨_, hp, by decide, by decide⟩, _, hc⟩,
        ⟨by decide, by decide, _, hc⟩, ⟨by decide, by decide, _, hc'⟩, by simp⟩)
    (by decide)).2 (by decide)
  ⟨added, h⟩

end Settled

end UsageBilling
