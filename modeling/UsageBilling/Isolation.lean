import Mathlib.Order.Monotone.Defs
import UsageBilling.Lib.Linear
import UsageBilling.Verdict

/-!
# Customers do not see each other

All customers share one ledger table, one id sequence and one index of keys. If no key of a
customer's requests is used by another customer, the other customers' requests change nothing for
it but ids.

* `Similar`: a store of the full run and one of the run of the customer's requests alone look the
  same to the customer, up to the renaming of ids.
* `Similar.step`, `Similar.foreign`: one request keeps this.
* `customer_isolation`: the two runs.
-/

namespace UsageBilling

/-- The row with its id renamed. -/
def LedgerEntry.rename (f : Nat → Nat) (e : LedgerEntry) : LedgerEntry := { e with id := f e.id }

/-- The answer with the id of its row renamed. -/
def renameAnswer (f : Nat → Nat) (answer : Answer) : Answer := answer.map (LedgerEntry.rename f)

/-- The answers of the customer's requests. -/
def answersOf (customerId : String) (requests : List Request) (answers : List Answer) :
    List Answer :=
  ((requests.zip answers).filter fun p => p.1.customerId = customerId).map (·.2)

/-- The stores look the same to the customer `a`, whose keys are `own`: `s` is a store of the full
run, and `s'` of the run of the requests of `a` alone. -/
structure Similar (a : String) (own : String → Prop) (f : Nat → Nat) (s s' : Store) : Prop where
  products : s.products = s'.products
  customer : s.customers.find? a = s'.customers.find? a
  rows : s.ownRows a = (s'.ownRows a).map (LedgerEntry.rename f)
  /-- The customer's keys are on its own rows only. -/
  keys : ∀ e ∈ s.ledger, ∀ key, own key → e.idempotencyKey = some key → e.customerId = a
  keys' : ∀ e ∈ s'.ledger, ∀ key, own key → e.idempotencyKey = some key → e.customerId = a

section Isolation

variable {P : Prisma} {a : String} {own : String → Prop} {f : Nat → Nat} {s s' : Store}
  {r : Request} {key : String}

/-- A key that only the customer's rows can have is looked up among them. -/
theorem findKey_ownRows
    (h : ∀ e ∈ s.ledger, e.idempotencyKey = some key → e.customerId = a) :
    s.findKey key = (s.ownRows a).find? fun e => e.idempotencyKey = some key := by
  rw [Store.findKey, Store.ownRows, List.find?_filter]
  generalize s.ledger = l at h
  induction l with
  | nil => rfl
  | cons e l ih =>
    have ih := ih fun e he => h e (List.mem_cons_of_mem _ he)
    by_cases hk : e.idempotencyKey = some key
    · have := h e (List.mem_cons_self ..) hk
      simp [hk, this]
    · simp [hk, ih]

theorem Similar.findKey (h : Similar a own f s s') (hkey : own key) :
    s.findKey key = (s'.findKey key).map (LedgerEntry.rename f) := by
  rw [findKey_ownRows fun e he => h.keys e he key hkey,
    findKey_ownRows fun e he => h.keys' e he key hkey, h.rows, List.find?_map]
  rfl

theorem Similar.verdict (h : Similar a own f s s') (hr : r.customerId = a)
    (hown : ∀ key, r.key = some key → own key) : verdict P s r = verdict P s' r := by
  refine verdict_congr h.products (by rw [hr]; exact h.customer) ?_
  cases hk : r.key with
  | none => rfl
  | some key =>
    rw [Store.keyFree, Store.keyFree, h.findKey (hown key hk)]
    cases s'.findKey key <;> rfl

/-- A posted row keeps the customer's keys on its own rows. -/
theorem Posted.keys {e : LedgerEntry} (hp : Posted P s e s')
    (h : ∀ e ∈ s.ledger, ∀ key, own key → e.idempotencyKey = some key → e.customerId = a)
    (he : ∀ key, own key → e.idempotencyKey = some key → e.customerId = a) :
    ∀ e ∈ s'.ledger, ∀ key, own key → e.idempotencyKey = some key → e.customerId = a := by
  rw [hp.ledger]
  intro e' he'
  rcases List.mem_append.mp he' with he' | he'
  · exact h e' he'
  · obtain rfl := List.mem_singleton.mp he'
    exact he

/-- A request of another customer keeps the stores similar. -/
theorem Similar.foreign (h : Similar a own f s s') (hr : r.customerId ≠ a)
    (hown : ∀ key, r.key = some key → ¬ own key) : Similar a own f (service P r s).2 s' := by
  rcases service_cases P r s with ⟨heq, -⟩ | ⟨e, -, hw, hp⟩
  · rw [heq]
    exact h
  · have he : e.customerId ≠ a := hw.customerId ▸ hr
    refine ⟨hp.products.trans h.products, ?_, ?_, ?_, h.keys'⟩
    · rw [hp.find?_ne (Ne.symm he)]
      exact h.customer
    · rw [hp.ownRows, if_neg he, List.append_nil]
      exact h.rows
    · exact hp.keys h.keys fun key hkey hek => absurd hkey (hown key (hw.key ▸ hek))

theorem rename_congr {g : Nat → Nat} {e : LedgerEntry} (h : f e.id = g e.id) :
    e.rename f = e.rename g := by
  rw [LedgerEntry.rename, LedgerEntry.rename, h]

/-- A request of the customer has the same answer in both stores, and they stay similar. The
renaming changes only at the id of the new row. -/
theorem Similar.step (h : Similar a own f s s') (hr : r.customerId = a)
    (hown : ∀ key, r.key = some key → own key) :
    ∃ g, (∀ n ≤ s'.seq, g n = f n) ∧ Similar a own g (service P r s).2 (service P r s').2 ∧
      (service P r s).1 = renameAnswer g (service P r s').1 := by
  have hout := service_outcome P r s
  have hout' := service_outcome P r s'
  rw [h.verdict hr hown] at hout
  cases hv : UsageBilling.verdict P s' r with
  | reject err =>
    rw [hv] at hout hout'
    obtain ⟨ha, hs⟩ := hout
    obtain ⟨ha', hs'⟩ := hout'
    rw [ha, hs, ha', hs']
    exact ⟨f, fun _ _ => rfl, h, rfl⟩
  | replay key =>
    rw [hv] at hout hout'
    obtain ⟨hs, o, ho, ha⟩ := hout
    obtain ⟨hs', o', ho', ha'⟩ := hout'
    have hkey := h.findKey (hown key (key_of_replay hv))
    rw [ho, ho'] at hkey
    rw [ha, hs, ha', hs']
    exact ⟨f, fun _ _ => rfl, h, congrArg Except.ok (Option.some.inj hkey)⟩
  | post d =>
    rw [hv] at hout hout'
    obtain ⟨e, ha, rfl, hp⟩ := hout
    obtain ⟨e', ha', hdata, hp'⟩ := hout'
    have hcust : e'.customerId = a :=
      (Request.Writes.of_verdict (hdata ▸ hv)).customerId.trans hr
    have hcust' : e.customerId = a := hdata ▸ hcust
    have hfix : ∀ n ≤ s'.seq, Function.update f e'.id e.id n = f n := fun n hn =>
      Function.update_of_ne (by have := hp'.seq_lt; omega) ..
    have hnew : e = e'.rename (Function.update f e'.id e.id) := by
      rw [LedgerEntry.rename, Function.update_self, hdata]
    refine ⟨Function.update f e'.id e.id, hfix, ⟨?_, ?_, ?_, ?_, ?_⟩, ?_⟩
    · rw [hp.products, hp'.products]
      exact h.products
    · rw [hp.find?, hp'.find?, h.customer, hcust, hcust', ← hdata]
    · rw [hp.ownRows, hp'.ownRows, if_pos hcust, if_pos hcust', List.map_append, h.rows]
      congr 1
      · refine List.map_congr_left fun x hx => ?_
        have := (s'.id_bound x (List.mem_filter.mp hx).1).2
        exact rename_congr (hfix x.id this).symm
      · exact congrArg (fun x => [x]) hnew
    · exact hp.keys h.keys fun _ _ _ => hcust'
    · exact hp'.keys h.keys' fun _ _ _ => hcust
    · rw [ha, ha']
      exact congrArg Except.ok hnew

theorem renameAnswer_congr {g : Nat → Nat} {answer : Answer}
    (h : ∀ e, answer = .ok e → f e.id = g e.id) :
    renameAnswer f answer = renameAnswer g answer := by
  cases answer with
  | error err => rfl
  | ok e => exact congrArg Except.ok (rename_congr (h e rfl))

/-- The id counter does not go back, and it covers the row of an answer. -/
theorem service_seq (P : Prisma) (r : Request) (s : Store) : s.seq ≤ (service P r s).2.seq ∧
    ∀ e, (service P r s).1 = .ok e → e.id ≤ (service P r s).2.seq := by
  rcases service_cases P r s with ⟨heq, hmem⟩ | ⟨e, ha, -, hp⟩
  · rw [heq]
    exact ⟨Nat.le_refl _, fun e he => (s.id_bound e (hmem e he)).2⟩
  · rw [ha, hp.seq]
    refine ⟨Nat.le_of_lt hp.seq_lt, fun e' he' => ?_⟩
    cases he'
    exact Nat.le_refl _

theorem answersOf_cons_own {requests : List Request} {answer : Answer} {answers : List Answer}
    (hr : r.customerId = a) :
    answersOf a (r :: requests) (answer :: answers) = answer :: answersOf a requests answers := by
  simp [answersOf, hr]

theorem answersOf_cons_foreign {requests : List Request} {answer : Answer}
    {answers : List Answer} (hr : r.customerId ≠ a) :
    answersOf a (r :: requests) (answer :: answers) = answersOf a requests answers := by
  simp [answersOf, hr]

/-- The run of all requests and the run of the customer's requests, from similar stores. -/
theorem Similar.run (h : Similar a own f s s') (requests : List Request)
    (hown : ∀ r ∈ requests, ∀ key, r.key = some key → (r.customerId = a ↔ own key)) :
    ∃ g, (∀ n ≤ s'.seq, g n = f n) ∧
      Similar a own g (sequential (service P) requests s).2
        (sequential (service P) (requests.filter (·.customerId = a)) s').2 ∧
      answersOf a requests (sequential (service P) requests s).1 =
        (sequential (service P) (requests.filter (·.customerId = a)) s').1.map
          (renameAnswer g) := by
  induction requests generalizing f s s' with
  | nil => exact ⟨f, fun _ _ => rfl, h, rfl⟩
  | cons r requests ih =>
    have hrest : ∀ r ∈ requests, ∀ key, r.key = some key → (r.customerId = a ↔ own key) :=
      fun r' hr' => hown r' (List.mem_cons_of_mem _ hr')
    have hkey := hown r (List.mem_cons_self ..)
    by_cases hr : r.customerId = a
    · obtain ⟨g, hg, hsim, hans⟩ := h.step (P := P) hr fun key hk => (hkey key hk).mp hr
      obtain ⟨k, hk, hsim', hans'⟩ := ih hsim hrest
      obtain ⟨hseq, hrow⟩ := service_seq P r s'
      refine ⟨k, fun n hn => (hk n (Nat.le_trans hn hseq)).trans (hg n hn), ?_, ?_⟩
      · rw [List.filter_cons_of_pos (by simpa using hr)]
        exact hsim'
      · -- the answer's row is old when the renaming changes again
        have hlast : renameAnswer g (service P r s').1 = renameAnswer k (service P r s').1 :=
          renameAnswer_congr fun e he => (hk e.id (hrow e he)).symm
        rw [List.filter_cons_of_pos (by simpa using hr)]
        simp only [sequential, List.map_cons]
        rw [answersOf_cons_own hr, hans', hans, hlast]
    · obtain ⟨k, hk, hsim', hans'⟩ :=
        ih (h.foreign (P := P) hr fun key hk hkown => hr ((hkey key hk).mpr hkown)) hrest
      refine ⟨k, hk, ?_, ?_⟩
      · rw [List.filter_cons_of_neg (by simpa using hr)]
        exact hsim'
      · rw [List.filter_cons_of_neg (by simpa using hr)]
        simp only [sequential]
        rw [answersOf_cons_foreign hr, hans']

theorem ownRows_ascending (s : Store) (a : String) :
    (s.ownRows a).Pairwise fun e e' => e.id < e'.id :=
  s.id_ascending.filter _

/-- The renaming keeps the order of the ids of the customer's rows. -/
theorem Similar.strictMonoOn (h : Similar a own f s s') :
    StrictMonoOn f {n | ∃ e ∈ s'.ownRows a, e.id = n} := by
  have hren := ownRows_ascending s a
  rw [h.rows, List.pairwise_map] at hren
  have hasc := ownRows_ascending s' a
  rintro _ ⟨e, he, rfl⟩ _ ⟨e', he', rfl⟩ hlt
  obtain ⟨i, hi, rfl⟩ := List.mem_iff_getElem.mp he
  obtain ⟨j, hj, rfl⟩ := List.mem_iff_getElem.mp he'
  rcases Nat.lt_trichotomy i j with hij | rfl | hij
  · exact List.pairwise_iff_getElem.mp hren i j hi hj hij
  · omega
  · have := List.pairwise_iff_getElem.mp hasc j i hj hi hij
    omega

/-- If no key of the requests of the customer `a` is used by a request or a stored row of another
customer, the run of all requests and the run of the requests of `a` give `a` the same answers, the
same balance and the same rows, up to a renaming of ids that keeps their order and the ids of the
rows there were. -/
theorem customer_isolation (P : Prisma) (s : Store) (requests : List Request) (a : String)
    (hkeys : ∀ r ∈ requests, r.customerId = a → ∀ key, r.key = some key →
      (∀ r' ∈ requests, r'.key = some key → r'.customerId = a) ∧
      ∀ e ∈ s.ledger, e.idempotencyKey = some key → e.customerId = a) :
    ∃ f : Nat → Nat, (∀ n ≤ s.seq, f n = n) ∧
      StrictMonoOn f {n | ∃ e ∈
        (sequential (service P) (requests.filter (·.customerId = a)) s).2.ownRows a, e.id = n} ∧
      answersOf a requests (sequential (service P) requests s).1 =
        (sequential (service P) (requests.filter (·.customerId = a)) s).1.map (renameAnswer f) ∧
      (sequential (service P) requests s).2.customers.find? a =
        (sequential (service P) (requests.filter (·.customerId = a)) s).2.customers.find? a ∧
      (sequential (service P) requests s).2.ownRows a =
        ((sequential (service P) (requests.filter (·.customerId = a)) s).2.ownRows a).map
          (LedgerEntry.rename f) := by
  let own : String → Prop := fun key => ∃ r ∈ requests, r.customerId = a ∧ r.key = some key
  have hstored : ∀ e ∈ s.ledger, ∀ key, own key → e.idempotencyKey = some key →
      e.customerId = a := fun e he key ⟨r, hr, hra, hrk⟩ hek => (hkeys r hr hra key hrk).2 e he hek
  have hid : s.ownRows a = (s.ownRows a).map (LedgerEntry.rename id) := (List.map_id _).symm
  have hsim : Similar a own id s s := ⟨rfl, rfl, hid, hstored, hstored⟩
  obtain ⟨f, hf, hfinal, hans⟩ := hsim.run (P := P) requests
    fun r hr key hk => ⟨fun hra => ⟨r, hr, hra, hk⟩, fun ⟨r', hr', hra', hrk'⟩ =>
      (hkeys r' hr' hra' key hrk').1 r hr hk⟩
  exact ⟨f, hf, hfinal.strictMonoOn, hans, hfinal.customer, hfinal.rows⟩

/-- Ada's purchase and its retry, with requests of Bob in between. -/
def mixedRequests : List Request :=
  [.credit ⟨"c2", 50⟩, .consume (purchase "c1"), .consume ⟨"c2", "p1", 2, none⟩,
    .consume (purchase "c1")]

theorem customer_isolation_shop :
    ∃ f : Nat → Nat, answersOf "c1" mixedRequests
        (sequential (service .sqlite) mixedRequests (shop 200)).1 =
      (sequential (service .sqlite) [.consume (purchase "c1"), .consume (purchase "c1")]
        (shop 200)).1.map (renameAnswer f) :=
  have ⟨f, _, _, hans, _⟩ := customer_isolation .sqlite (shop 200) mixedRequests "c1" (by
    simp [mixedRequests, purchase, Request.customerId, Request.key, shop, Store.fresh])
  ⟨f, hans⟩

end Isolation

end UsageBilling
