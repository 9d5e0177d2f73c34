import UsageBilling.LoadTest

/-!
# The verdict of the load test

After the storm, `scripts/load-test.mjs` compares the drop of the customer's balance with the
purchases that were answered with a 201.

* `LoadTest.Served`: what one POST does at the backends; `served`: it does that.
* `Storm.Billed`: what the backends keep: the balance has dropped by the cost of each POST that took
  effect. `Billed.effect`: one request takes effect.
* `loadTest_sound`: what the verdict says, in every run.
-/

namespace UsageBilling

open Js Sys

/-! ## One POST at the backends -/

/-- What a POST of the storm does to a store in which the customer is `c`. -/
inductive LoadTest.Served (P : Prisma) (T : LoadTest) (s : Store) (c : Customer) :
    Reply × Store → Prop
  | charged (e : LedgerEntry) (s' : Store) (hp : Posted P s e s')
      (hcustomer : e.customerId = T.customerId) (hamount : e.amount = -T.cost) :
      Served P T s c (⟨201, .api (.entry e)⟩, s')
  | refused (reply : Reply) (hstatus : reply.status ≠ 201)
      (hshort : reply.status = 402 → c.balance < T.cost) : Served P T s c (reply, s)

section Served

variable {P : Prisma} {T : LoadTest} {s : Store} {c : Customer}

/-- A charge is refused for the funds only if the balance does not cover it. -/
theorem short_of_reject {input : ConsumeInput} {product : Product} {balance required : Int}
    (hp : s.products.find? input.productId = some product)
    (hc : s.customers.find? input.customerId = some c)
    (h : verdict P s (.consume input) = .reject (.insufficientFunds balance required)) :
    c.balance < cost product input := by
  simp only [verdict, hp, hc, chargeVerdict] at h
  by_contra hle
  rw [if_pos (Int.not_lt.mp hle)] at h
  split at h
  · split at h
    · split at h
      · cases h
      · split at h <;> cases h
    · cases h
  · cases h

/-- What `respondConsume` makes of an error. -/
theorem status_of_error (err : Error) : (respondConsume (.error err)).reply.status ≠ 201 ∧
    ((respondConsume (.error err)).reply.status = 402 →
      ∃ balance required, err = .insufficientFunds balance required) := by
  cases err with
  | insufficientFunds balance required =>
    exact ⟨by simp [respondConsume, Response.reply], fun _ => ⟨balance, required, rfl⟩⟩
  | _ => exact ⟨by simp [respondConsume, serverError, Response.reply],
      fun h => by simp [respondConsume, serverError, Response.reply] at h⟩

theorem served (hp : s.products.find? T.product.id = some T.product)
    (hc : s.customers.find? T.customerId = some c) : T.Served P s c (app P T.request s) := by
  rw [app_first]
  cases hparse : parseConsume T.attempt.rawKey T.attempt.body.json with
  | error response =>
    have hf : T.request.first P s = .answer response.reply := by
      simp only [HttpRequest.first, LoadTest.request, Attempt.request, hparse]
    rw [hf]
    have hstatus : response.reply.status = 400 := parseConsume_error hparse
    exact .refused _ (by rw [hstatus]; decide) (fun h => by rw [hstatus] at h; cases h)
  | ok input =>
    have hf : T.request.first P s = .serve (.consume input) := by
      simp only [HttpRequest.first, LoadTest.request, Attempt.request, hparse]
    obtain ⟨hcustomer, hproduct, hquantity, -⟩ := parse_request hparse
    have hcustomer : input.customerId = T.customerId := hcustomer
    have hproduct : input.productId = T.product.id := hproduct
    have hkey : input.idempotencyKey = none := key_of_parseConsume hparse
    have hcost : cost T.product input = T.cost := by
      have hq : ((T.QTY : Int) : ℚ) = (input.quantity : Int) := Number.finite.inj hquantity
      rw [cost, LoadTest.cost, Int.cast_inj.mp hq]
    have hp' : s.products.find? input.productId = some T.product := hproduct ▸ hp
    have hc' : s.customers.find? input.customerId = some c := hcustomer ▸ hc
    have hout := service_outcome P (.consume input) s
    rw [hf]
    simp only [First.finish, Request.respond]
    generalize service P (.consume input) s = r at hout ⊢
    obtain ⟨answer, s'⟩ := r
    cases hv : verdict P s (.consume input) with
    | reject err =>
      rw [hv] at hout
      obtain ⟨rfl, rfl⟩ := hout
      obtain ⟨hne, hshort⟩ := status_of_error err
      refine .refused _ hne fun h => ?_
      obtain ⟨balance, required, rfl⟩ := hshort h
      exact hcost ▸ short_of_reject hp' hc' hv
    | replay key =>
      have hkey' := key_of_replay hv
      rw [show Request.key (.consume input) = none from hkey] at hkey'
      cases hkey'
    | post d =>
      rw [hv] at hout
      obtain ⟨e, rfl, rfl, hpost⟩ := hout
      obtain ⟨product, hfind, hdata⟩ := Request.Writes.of_verdict hv
      obtain rfl := Option.mem_unique hp' hfind
      refine .charged e s' hpost ?_ ?_
      · exact (congrArg LedgerData.customerId hdata).trans hcustomer
      · rw [← hcost]
        exact congrArg LedgerData.amount hdata

end Served

/-! ## What the backends keep -/

/-- The POST has taken effect as a purchase, whether or not its process lived to say so. -/
def Post.charged (P : Prisma) (p : Backends) (q : Post) : Bool :=
  (q.ticket.bind ((deploymentDecisions P).decidedAt p)).any (·.status = 201)

/-- From the moment when the balance was `b` and the customer had some rows: each POST that took
effect has added a row and lowered the balance by the cost. `s` has the products. -/
structure Storm.Billed (P : Prisma) (T : LoadTest) (s : Store) (b : Int) (rows : Nat)
    (x : Storm) : Prop where
  traced : Traced P s x.backends
  tickets : ∀ (k : Nat) q t, x.posts[k]? = some q → q.ticket = some t →
    ∃ fault, (requestsOf P x.backends)[t]? = some (T.request, fault)
  one : ∀ (k k' : Nat) q q' t, x.posts[k]? = some q → x.posts[k']? = some q' →
    q.ticket = some t → q'.ticket = some t → k = k'
  /-- No other request for the customer is running. -/
  others : ∀ (t : Nat) m, x.backends.tasks[t]? = some m →
    ((deployment P).request m).1.account = some T.customerId →
    (∃ q ∈ x.posts, q.ticket = some t) ∨ m.fate ≠ .running
  balance : ∃ c, x.backends.store.committed.customers.find? T.customerId = some c ∧
    c.balance = b - T.cost * x.posts.countP (Post.charged P x.backends)
  rows : (x.backends.store.committed.ownRows T.customerId).length =
    rows + x.posts.countP (Post.charged P x.backends)
  answers : ∀ q ∈ x.posts, ∀ o, q.outcome = some o → o ≠ .error → ∃ t reply,
    q.ticket = some t ∧ (deploymentDecisions P).decidedAt x.backends t = some reply ∧
      reply.outcome = o
  funded : T.COUNT * T.cost ≤ b → ∀ q ∈ x.posts, ∀ t reply, q.ticket = some t →
    (deploymentDecisions P).decidedAt x.backends t = some reply → reply.status ≠ 402

namespace Storm.Billed

variable {P : Prisma} {T : LoadTest} {s : Store} {b : Int} {rows : Nat} {x : Storm}

theorem product (h : x.Billed P T s b rows)
    (hp : s.products.find? T.product.id = some T.product) :
    x.backends.store.committed.products.find? T.product.id = some T.product := by
  obtain ⟨es, hes, -⟩ := h.traced.rows
  rw [hes.products, hp]

theorem ticket_lt (h : x.Billed P T s b rows) {k : Nat} {q : Post} {t : Nat}
    (hq : x.posts[k]? = some q) (ht : q.ticket = some t) : t < x.backends.tasks.length := by
  obtain ⟨fault, hreq⟩ := h.tickets k q t hq ht
  rw [← length_requestsOf P]
  exact (List.getElem?_eq_some_iff.mp hreq).1

/-- The request of a POST, at the backends. -/
theorem request_of_ticket (h : x.Billed P T s b rows) {k : Nat} {q : Post} {t : Nat}
    {m : DeploymentTask} (hq : x.posts[k]? = some q) (ht : q.ticket = some t)
    (hm : x.backends.tasks[t]? = some m) : ((deployment P).request m).1 = T.request := by
  obtain ⟨fault, hreq⟩ := h.tickets k q t hq ht
  rw [requestsOf, List.getElem?_map, hm] at hreq
  rw [Option.some.inj hreq]

/-- After the POST at the place `k` took effect with a reply. -/
theorem charged_decided (h : x.Billed P T s b rows) {p : Backends} {k t : Nat} {q : Post}
    {reply : Reply} (hq : x.posts[k]? = some q) (ht : q.ticket = some t)
    (hnone : (deploymentDecisions P).decidedAt x.backends t = none)
    (hdec : ∀ j, (deploymentDecisions P).decidedAt p j =
      if j = t then some reply else (deploymentDecisions P).decidedAt x.backends j) :
    x.posts.countP (Post.charged P p) =
      x.posts.countP (Post.charged P x.backends) + if reply.status = 201 then 1 else 0 := by
  have hold : Post.charged P x.backends q = false := by simp [Post.charged, ht, hnone]
  have hnew : Post.charged P p q = decide (reply.status = 201) := by
    simp [Post.charged, ht, hdec]
  have hrest : ∀ (j : Nat) q', j ≠ k → x.posts[j]? = some q' →
      Post.charged P p q' = Post.charged P x.backends q' := fun j q' hj hq' => by
    cases ht' : q'.ticket with
    | none => simp [Post.charged, ht']
    | some t' =>
      have hne : t' ≠ t := fun heq => hj (h.one j k q' q t hq' hq (heq ▸ ht') ht)
      simp [Post.charged, ht', hdec, hne]
  by_cases hstatus : reply.status = 201
  · rw [if_pos hstatus]
    exact countP_flip hq hold (by rw [hnew, hstatus]; rfl) hrest
  · rw [if_neg hstatus, Nat.add_zero]
    refine List.countP_congr fun q' hq' => ?_
    obtain ⟨j, hj⟩ := List.mem_iff_getElem?.mp hq'
    by_cases hjk : j = k
    · rw [hjk] at hj
      obtain rfl := Option.mem_unique hq hj
      rw [hold, hnew, decide_eq_false hstatus]
    · rw [hrest j q' hjk hj]

/-- A decision that is not that of a POST leaves them all. -/
theorem charged_other {p : Backends} {t : Nat} {reply : Reply}
    (hother : ∀ q ∈ x.posts, q.ticket ≠ some t)
    (hdec : ∀ j, (deploymentDecisions P).decidedAt p j =
      if j = t then some reply else (deploymentDecisions P).decidedAt x.backends j) :
    x.posts.countP (Post.charged P p) = x.posts.countP (Post.charged P x.backends) := by
  refine List.countP_congr fun q hq => ?_
  cases ht : q.ticket with
  | none => simp [Post.charged, ht]
  | some t' =>
    have hne : t' ≠ t := fun heq => hother q hq (heq ▸ ht)
    simp [Post.charged, ht, hdec, hne]

/-- A process that has ended takes no steps. -/
theorem act_ended {p : Backends} {i : Nat} {m : DeploymentTask} (hm : p.tasks[i]? = some m)
    (hf : m.fate ≠ .running) : (deployment P).act p (.advance i) = p := by
  have hstep : (deployment P).step i m p.store = (m, p.store) := by
    have hst := deployment_step_spec P i m p.store
    generalize (deployment P).step i m p.store = r at hst ⊢
    cases hst with
    | finished => rfl
    | _ => exact absurd ‹_› hf
  rw [act_advance hm, hstep]
  obtain ⟨hlt, hget⟩ := List.getElem?_eq_some_iff.mp hm
  rw [← hget, List.set_getElem_self]

/-- A balance that covers all purchases covers the next one. -/
theorem covers {b balance cost : Int} {n count : Nat} (hb : count * cost ≤ b)
    (hbalance : balance = b - cost * n) (hn : n < count) (hnonneg : 0 ≤ balance) :
    cost ≤ balance := by
  by_cases hcost : cost ≤ 0
  · omega
  · have hle : cost * (n + 1) ≤ cost * count :=
      Int.mul_le_mul_of_nonneg_left (by omega) (by omega)
    rw [Int.mul_add, Int.mul_one] at hle
    rw [Int.mul_comm] at hb
    omega

/-- What the backends keep of the purchases when nothing happens, or one request takes effect. -/
theorem effect (h : x.Billed P T s b rows) (hp : s.products.find? T.product.id = some T.product)
    (hlen : x.posts.length ≤ T.COUNT) {p : Backends}
    (heff : (deploymentDecisions P).Effect x.backends p) :
    (∃ c, p.store.committed.customers.find? T.customerId = some c ∧
      c.balance = b - T.cost * x.posts.countP (Post.charged P p)) ∧
    (p.store.committed.ownRows T.customerId).length =
      rows + x.posts.countP (Post.charged P p) ∧
    (T.COUNT * T.cost ≤ b → ∀ q ∈ x.posts, ∀ t reply, q.ticket = some t →
      (deploymentDecisions P).decidedAt p t = some reply → reply.status ≠ 402) := by
  obtain ⟨c, hc, hb⟩ := h.balance
  cases heff with
  | none hdec habs =>
    have hcommitted : p.store.committed = x.backends.store.committed := habs
    have hcharged : Post.charged P p = Post.charged P x.backends := by
      funext q
      simp only [Post.charged, hdec]
    rw [hcommitted, hcharged, hdec]
    exact ⟨⟨c, hc, hb⟩, h.rows, h.funded⟩
  | one i m reply hp' hm hnone hdec happ =>
    have happ : app P ((deployment P).request m).1 x.backends.store.committed =
        (reply, p.store.committed) := happ
    by_cases hticket : ∃ q ∈ x.posts, q.ticket = some i
    · -- the purchase of a POST
      obtain ⟨q, hq, ht⟩ := hticket
      obtain ⟨k, hk⟩ := List.mem_iff_getElem?.mp hq
      have hcharged := h.charged_decided hk ht hnone hdec
      have hserved := served (h.product hp) hc (P := P)
      rw [← h.request_of_ticket hk ht hm, happ] at hserved
      -- the other POSTs keep their replies
      have hfunded : (T.COUNT * T.cost ≤ b → reply.status ≠ 402) → T.COUNT * T.cost ≤ b →
          ∀ q ∈ x.posts, ∀ t reply', q.ticket = some t →
            (deploymentDecisions P).decidedAt p t = some reply' → reply'.status ≠ 402 := by
        intro hreply hb q' hq' t reply' ht' hdec'
        rw [hdec] at hdec'
        split at hdec'
        · cases hdec'
          exact hreply hb
        · exact h.funded hb q' hq' t reply' ht' hdec'
      generalize hr : (reply, p.store.committed) = r at hserved
      cases hserved with
      | charged e s' hpost hcustomer hamount =>
        obtain ⟨rfl, rfl⟩ := Prod.mk.inj hr
        rw [if_pos rfl] at hcharged
        rw [hcharged]
        refine ⟨⟨_, hcustomer ▸ hpost.find?_self (hcustomer ▸ hc), ?_⟩, ?_,
          hfunded fun _ => by simp⟩
        · simp only [hamount, hb]
          push_cast
          rw [Int.mul_add]
          omega
        · rw [hpost.ownRows, if_pos hcustomer, List.length_append, h.rows, List.length_singleton]
          omega
      | refused reply' hstatus hshort =>
        obtain ⟨rfl, hsame⟩ := Prod.mk.inj hr
        rw [if_neg hstatus, Nat.add_zero] at hcharged
        rw [hcharged, hsame]
        refine ⟨⟨c, hc, hb⟩, h.rows, hfunded fun hfund h402 => ?_⟩
        have hlt := hshort h402
        -- the balance still covers this POST
        have hfew : x.posts.countP (Post.charged P x.backends) < x.posts.length :=
          Nat.lt_of_le_of_ne List.countP_le_length fun heq => by
            have hall := List.countP_eq_length.mp heq q hq
            simp [Post.charged, ht, hnone] at hall
        exact absurd (covers hfund hb (Nat.lt_of_lt_of_le hfew hlen)
          (Store.balance_nonneg_of_find? hc)) (Int.not_le.mpr hlt)
    · have hother : ∀ q ∈ x.posts, q.ticket ≠ some i := fun q hq ht => hticket ⟨q, hq, ht⟩
      have hcharged := charged_other hother hdec
      have haccount : ((deployment P).request m).1.account ≠ some T.customerId := fun hacc => by
        rcases h.others i m hm hacc with hq | hf
        · exact hticket hq
        · -- a process that has ended decides nothing
          have hsame := hdec i
          have hp' : p = (deployment P).act x.backends (.advance i) := hp'
          rw [hp', act_ended hm hf, hnone, if_pos rfl] at hsame
          cases hsame
      obtain ⟨hfind, hrows⟩ := app_foreign P x.backends.store.committed haccount
      rw [happ] at hfind hrows
      rw [hcharged]
      refine ⟨⟨c, hfind.trans hc, hb⟩, (congrArg List.length hrows).trans h.rows, ?_⟩
      intro hfunded q hq t reply' ht hreply
      rw [hdec, if_neg fun heq => hother q hq (ht.trans (congrArg some heq))] at hreply
      exact h.funded hfunded q hq t reply' ht hreply

/-- The requests of the deployment after an action. -/
theorem tickets_act (h : x.Billed P T s b rows) (a : Act Arrival) {k : Nat}
    {q : Post} {t : Nat} (hq : x.posts[k]? = some q) (ht : q.ticket = some t) : ∃ fault,
      (requestsOf P ((deployment P).act x.backends a))[t]? = some (T.request, fault) := by
  obtain ⟨fault, hreq⟩ := h.tickets k q t hq ht
  refine ⟨fault, ?_⟩
  rw [requestsOf_act, List.getElem?_append_left (List.getElem?_eq_some_iff.mp hreq).1]
  exact hreq

/-- What is decided stays decided. -/
theorem answers_act (h : x.Billed P T s b rows) {p : Backends}
    (heff : (deploymentDecisions P).Effect x.backends p) : ∀ q ∈ x.posts, ∀ o,
      q.outcome = some o → o ≠ .error → ∃ t reply, q.ticket = some t ∧
        (deploymentDecisions P).decidedAt p t = some reply ∧ reply.outcome = o := by
  intro q hq o ho hne
  obtain ⟨t, reply, ht, hdec, hout⟩ := h.answers q hq o ho hne
  refine ⟨t, reply, ht, ?_, hout⟩
  cases heff with
  | none hdec' => rw [hdec', hdec]
  | one i m reply' _ _ hnone hdec' =>
    rw [hdec', if_neg, hdec]
    intro heq
    rw [heq, hnone] at hdec
    cases hdec

/-- A request of another client arrives, or a request takes a turn. -/
theorem act (h : x.Billed P T s b rows) (hp : s.products.find? T.product.id = some T.product)
    (hlen : x.posts.length ≤ T.COUNT) {a : Act Arrival}
    (ha : ∀ r, a = .submit r → r.1.account ≠ some T.customerId) :
    Storm.Billed P T s b rows { x with backends := (deployment P).act x.backends a } := by
  have heff := (deploymentDecisions P).act_effect h.traced.lock.ok a
  obtain ⟨hbalance, hrows, hfunded⟩ := h.effect hp hlen heff
  refine ⟨h.traced.act a, fun k q t hq ht => h.tickets_act a hq ht, h.one, ?_, hbalance, hrows,
    h.answers_act heff, hfunded⟩
  intro t m hm hacc
  cases a with
  | submit r =>
    rcases getElem?_concat hm with hm | ⟨-, rfl⟩
    · exact h.others t m hm hacc
    · exact absurd hacc (ha r rfl)
  | advance i =>
    simp only at hm
    cases hi : x.backends.tasks[i]? with
    | none =>
      rw [act_advance_none hi] at hm
      exact h.others t m hm hacc
    | some u =>
      by_cases hf : u.fate = .running
      · rw [act_advance hi, getElem?_set_of_some hi] at hm
        split at hm
        · rename_i heq
          cases hm
          rw [(deployment P).request_step] at hacc
          rcases h.others i u hi hacc with hq | hend
          · exact .inl (heq ▸ hq)
          · exact absurd hf hend
        · exact h.others t m hm hacc
      · rw [act_ended hi hf] at hm
        exact h.others t m hm hacc

/-- A POST arrives. -/
theorem arrive (h : x.Billed P T s b rows) {k : Nat} {q : Post} (hq : x.posts[k]? = some q)
    (hnone : q.ticket = none) (fault : Option (Fault String)) : Storm.Billed P T s b rows
      { x with
        backends := (deployment P).act x.backends (.submit (T.request, fault))
        posts := x.posts.set k { q with ticket := some x.backends.tasks.length } } := by
  have hdec : (deploymentDecisions P).decidedAt
      ((deployment P).act x.backends (.submit (T.request, fault))) =
      (deploymentDecisions P).decidedAt x.backends :=
    (deploymentDecisions P).decidedAt_submit x.backends (T.request, fault)
  have hposts := getElem?_set_of_some hq { q with ticket := some x.backends.tasks.length }
  have hfresh : (deploymentDecisions P).decidedAt x.backends x.backends.tasks.length = none := by
    rw [Decisions.decidedAt, List.getElem?_eq_none (Nat.le_refl _)]
    rfl
  have hcharged : Post.charged P ((deployment P).act x.backends (.submit (T.request, fault))) =
      Post.charged P x.backends := by
    funext q
    simp only [Post.charged, hdec]
  have hcount : (x.posts.set k { q with ticket := some x.backends.tasks.length }).countP
      (Post.charged P x.backends) = x.posts.countP (Post.charged P x.backends) :=
    countP_set_eq hq (by simp [Post.charged, hnone, hfresh])
  -- the ticket of a POST that arrived before is older
  have hold : ∀ (j : Nat) r t, x.posts[j]? = some r → r.ticket = some t →
      t ≠ x.backends.tasks.length := fun j r t hr ht => Nat.ne_of_lt (h.ticket_lt hr ht)
  refine ⟨h.traced.act (.submit (T.request, fault)), ?_, ?_, ?_, ?_, ?_, ?_, ?_⟩
  · intro j r t hr ht
    rw [hposts] at hr
    split at hr
    · cases hr
      cases ht
      refine ⟨fault, ?_⟩
      rw [requestsOf_act, ← length_requestsOf P]
      exact List.getElem?_concat_length
    · exact h.tickets_act _ hr ht
  · intro j j' r r' t hr hr' ht ht'
    rw [hposts] at hr hr'
    split at hr
    · rename_i hj
      cases hr
      cases ht
      split at hr'
      · rename_i hj'
        exact hj.trans hj'.symm
      · exact absurd rfl (hold j' r' _ hr' ht')
    · split at hr'
      · cases hr'
        cases ht'
        exact absurd rfl (hold j r _ hr ht)
      · exact h.one j j' r r' t hr hr' ht ht'
  · intro t m hm hacc
    rcases getElem?_concat hm with hm | ⟨ht, -⟩
    · refine (h.others t m hm hacc).imp ?_ id
      rintro ⟨r, hr, ht⟩
      obtain ⟨j, hj⟩ := List.mem_iff_getElem?.mp hr
      have hne : j ≠ k := fun heq => by
        rw [heq] at hj
        rw [Option.mem_unique hj hq, hnone] at ht
        cases ht
      exact ⟨r, List.mem_of_getElem? (i := j) (by rw [hposts, if_neg hne, hj]), ht⟩
    · exact .inl ⟨_, List.mem_of_getElem? (i := k) (by rw [hposts, if_pos rfl]),
        congrArg some ht.symm⟩
  · simp only [hcharged, hcount]
    exact h.balance
  · simp only [hcharged, hcount]
    exact h.rows
  · intro r hr o ho hne
    rw [hdec]
    rcases mem_set hr with rfl | hr
    · obtain ⟨t, reply, ht, -⟩ := h.answers q (List.mem_of_getElem? hq) o ho hne
      rw [hnone] at ht
      cases ht
    · exact h.answers r hr o ho hne
  · intro hfund r hr t reply ht hreply
    rw [hdec] at hreply
    rcases mem_set hr with rfl | hr
    · cases ht
      rw [hfresh] at hreply
      cases hreply
    · exact h.funded hfund r hr t reply ht hreply

/-- A POST is counted by its reply, or as an error. -/
theorem settle (h : x.Billed P T s b rows) {w k : Nat} {q : Post} {o : Outcome}
    (hq : x.posts[k]? = some q) (ho : o ≠ .error → ∃ t reply, q.ticket = some t ∧
      (deploymentDecisions P).decidedAt x.backends t = some reply ∧ reply.outcome = o) :
    (x.settle w k q o).Billed P T s b rows := by
  have hposts := getElem?_set_of_some hq { q with outcome := some o }
  have hcount : (x.posts.set k { q with outcome := some o }).countP (Post.charged P x.backends) =
      x.posts.countP (Post.charged P x.backends) := countP_set_eq hq rfl
  -- the tickets stay
  have hkeep : ∀ (j : Nat) r, (x.posts.set k { q with outcome := some o })[j]? = some r →
      ∃ r', x.posts[j]? = some r' ∧ r'.ticket = r.ticket := fun j r hr => by
    rw [hposts] at hr
    split at hr
    · rename_i hj
      cases hr
      exact ⟨q, hj ▸ hq, rfl⟩
    · exact ⟨r, hr, rfl⟩
  refine ⟨h.traced, ?_, ?_, ?_, ?_, ?_, ?_, ?_⟩
  · intro j r t hr ht
    obtain ⟨r', hr', heq⟩ := hkeep j r hr
    exact h.tickets j r' t hr' (heq.trans ht)
  · intro j j' r r' t hr hr' ht ht'
    obtain ⟨u, hu, heq⟩ := hkeep j r hr
    obtain ⟨u', hu', heq'⟩ := hkeep j' r' hr'
    exact h.one j j' u u' t hu hu' (heq.trans ht) (heq'.trans ht')
  · intro t m hm hacc
    refine (h.others t m hm hacc).imp ?_ id
    rintro ⟨r, hr, ht⟩
    obtain ⟨j, hj⟩ := List.mem_iff_getElem?.mp hr
    by_cases hjk : j = k
    · refine ⟨{ q with outcome := some o }, List.mem_of_getElem? (i := k) ?_, ?_⟩
      · exact (hposts k).trans (if_pos rfl)
      · rw [hjk] at hj
        rw [← Option.mem_unique hj hq]
        exact ht
    · exact ⟨r, List.mem_of_getElem? (i := j) ((hposts j).trans ((if_neg hjk).trans hj)), ht⟩
  · simp only [Storm.settle, hcount]
    exact h.balance
  · simp only [Storm.settle, hcount]
    exact h.rows
  · intro r hr o' ho' hne
    rcases mem_set hr with rfl | hr
    · cases ho'
      exact ho hne
    · exact h.answers r hr o' ho' hne
  · intro hfund r hr t reply ht hreply
    obtain ⟨j, hj⟩ := List.mem_iff_getElem?.mp hr
    obtain ⟨r', hr', heq⟩ := hkeep j r hj
    exact h.funded hfund r' (List.mem_of_getElem? hr') t reply (heq.trans ht) hreply

/-- A worker posts. -/
theorem post (h : x.Billed P T s b rows) (next : Nat) (workers : List Worker) :
    Storm.Billed P T s b rows
      { x with next := next, posts := x.posts ++ [{}], workers := workers } := by
  have hcount : (x.posts ++ [({ } : Post)]).countP (Post.charged P x.backends) =
      x.posts.countP (Post.charged P x.backends) := by
    rw [List.countP_append]
    rfl
  refine ⟨h.traced, ?_, ?_, ?_, ?_, ?_, ?_, ?_⟩
  · intro j r t hr ht
    rcases getElem?_concat hr with hr | ⟨-, rfl⟩
    · exact h.tickets j r t hr ht
    · cases ht
  · intro j j' r r' t hr hr' ht ht'
    rcases getElem?_concat hr with hr | ⟨-, rfl⟩
    · rcases getElem?_concat hr' with hr' | ⟨-, rfl⟩
      · exact h.one j j' r r' t hr hr' ht ht'
      · cases ht'
    · cases ht
  · intro t m hm hacc
    refine (h.others t m hm hacc).imp ?_ id
    rintro ⟨r, hr, ht⟩
    exact ⟨r, List.mem_append_left _ hr, ht⟩
  · simp only [hcount]
    exact h.balance
  · simp only [hcount]
    exact h.rows
  · intro r hr o ho hne
    rcases List.mem_append.mp hr with hr | hr
    · exact h.answers r hr o ho hne
    · rw [List.mem_singleton.mp hr] at ho
      cases ho
  · intro hfund r hr t reply ht
    rcases List.mem_append.mp hr with hr | hr
    · exact h.funded hfund r hr t reply ht
    · rw [List.mem_singleton.mp hr] at ht
      cases ht

theorem step (h : x.Billed P T s b rows) (hcounted : x.Counted T)
    (hp : s.products.find? T.product.id = some T.product) {e : StormEvent}
    (he : ∀ r, e = .traffic (.submit r) → r.1.account ≠ some T.customerId) :
    (x.step P T e).Billed P T s b rows := by
  have hst := step_spec P T x e
  generalize x.step P T e = x' at hst ⊢
  cases hst with
  | traffic a => exact h.act hp (hcounted.sent ▸ hcounted.bound) fun r hr => he r (hr ▸ rfl)
  | post w hw hlt => exact h.post _ _
  | finish w hw hge =>
    exact ⟨h.traced, h.tickets, h.one, h.others, h.balance, h.rows, h.answers, h.funded⟩
  | arrive k fault q hq hnone => exact h.arrive hq hnone fault
  | reply w k q t reply hw hq ht hr =>
    refine h.settle hq fun hne => ?_
    rcases decidedAt_of_reply hr with hdec | ⟨-, message, rfl⟩
    · exact ⟨t, reply, ht, hdec, rfl⟩
    · -- a timeout is counted as an error
      exact absurd rfl hne
  | lose w k q hw hq => exact h.settle hq fun hne => absurd rfl hne
  | idle => exact h

end Storm.Billed

/-! ## The verdict -/

/-- The balance that the script reads is the customer's. -/
theorem LoadTest.balance_some {P : Prisma} {T : LoadTest} {p : Backends} {b : Int}
    (h : T.balance P p = some b) :
    ∃ c, p.store.committed.customers.find? T.customerId = some c ∧ c.balance = b := by
  obtain ⟨data, hdata, hrow⟩ := Option.bind_eq_some_iff.mp h
  obtain ⟨c, hc, rfl⟩ := Option.map_eq_some_iff.mp hrow
  rw [customersNow_some hdata] at hc
  have hmem : c ∈ p.store.committed.customers.rows :=
    List.mem_mergeSort.mp (List.mem_of_find?_eq_some hc)
  have hid : c.id = T.customerId := by simpa using List.find?_some hc
  exact ⟨c, hid ▸ Table.find?_of_mem hmem, rfl⟩

/-- The script reads the balance of its customer if Prisma can read all balances. -/
theorem LoadTest.balance_of_find? {P : Prisma} {T : LoadTest} {p : Backends} {c : Customer}
    (hread : (p.store.committed.customers.rows.all fun c => P.column c.balance) = true)
    (hc : p.store.committed.customers.find? T.customerId = some c) :
    T.balance P p = some c.balance := by
  have hdata : customersNow P p = some (customerList p.store.committed) := by
    simp only [customersNow, getCustomers, listCustomers, Txn.run, Txn.reading, if_pos hread]
    rfl
  have hmem : c ∈ customerList p.store.committed :=
    List.mem_mergeSort.mpr (Table.mem_of_find? hc)
  have hid : c.id = T.customerId := Table.key_of_find? hc
  cases hrow : (customerList p.store.committed).find? fun c => c.id = T.customerId with
  | none => simpa [hid] using List.find?_eq_none.mp hrow c hmem
  | some c' =>
    have hmem' := List.mem_mergeSort.mp (List.mem_of_find?_eq_some hrow)
    have hid' : c'.id = T.customerId := by simpa using List.find?_some hrow
    have hc' := Table.find?_of_mem hmem'
    rw [show Keyed.key c' = T.customerId from hid'] at hc'
    obtain rfl := Option.mem_unique hc hc'
    rw [LoadTest.balance, hdata, Option.bind_some, hrow]
    rfl

/-- What the script may rely on, when the workers have finished. `before` and `after` are the
balances that it reads. -/
structure LoadTest.Sound (P : Prisma) (T : LoadTest) (p : Backends) (x : Storm)
    (before after : Int) : Prop where
  /-- Each purchase was sent, and counted once. -/
  counted : 0 < T.CONCURRENCY →
    x.status.ok + x.status.insufficient + x.status.error = T.COUNT
  /-- The customer's new rows: one for each purchase counted as ok, and for some of those counted as
  errors. -/
  rows : ∃ new, (x.backends.store.committed.ownRows T.customerId).length =
      (p.store.committed.ownRows T.customerId).length + new ∧
    x.status.ok ≤ new ∧ new ≤ x.status.ok + x.status.error ∧
    before - after = T.cost * new ∧
    (x.consistent T before after = true ↔ T.cost = 0 ∨ new = x.status.ok)
  /-- If the balance covers all purchases, none is refused for the funds. -/
  funded : T.COUNT * T.cost ≤ before → x.status.insufficient = 0

namespace Storm

variable {P : Prisma} {T : LoadTest} {s : Store} {p : Backends} {x : Storm} {b : Int} {rows : Nat}

theorem Billed.init {c : Customer} (h : Traced P s p)
    (hc : p.store.committed.customers.find? T.customerId = some c)
    (hended : ∀ m ∈ p.tasks, ((deployment P).request m).1.account = some T.customerId →
      m.fate ≠ .running) :
    (Storm.init T p).Billed P T s c.balance (p.store.committed.ownRows T.customerId).length where
  traced := h
  tickets k q t hq := by cases hq
  one k k' q q' t hq := by cases hq
  others t m hm hacc := .inr (hended m (List.mem_of_getElem? hm) hacc)
  balance := ⟨c, hc, by simp [Storm.init]⟩
  rows := rfl
  answers q hq := by cases hq
  funded _ q hq := by cases hq

/-- In every state of the storm. -/
theorem run_ok (hp : s.products.find? T.product.id = some T.product)
    {events : List StormEvent} (hcounted : x.Counted T) (h : x.Billed P T s b rows)
    (hothers : ∀ r, .traffic (.submit r) ∈ events → r.1.account ≠ some T.customerId) :
    (events.foldl (step P T) x).Counted T ∧ (events.foldl (step P T) x).Billed P T s b rows := by
  induction events generalizing x with
  | nil => exact ⟨hcounted, h⟩
  | cons e events ih =>
    refine ih (hcounted.step e) (h.step hcounted hp fun r hr => ?_) fun r hr => ?_
    · exact hothers r (hr ▸ List.mem_cons_self)
    · exact hothers r (List.mem_cons_of_mem e hr)

/-- A POST that was counted as ok took effect. -/
theorem Billed.charged_of_ok (h : x.Billed P T s b rows) {q : Post} (hq : q ∈ x.posts)
    (ho : q.outcome = some .ok) : Post.charged P x.backends q = true := by
  obtain ⟨t, reply, ht, hdec, hout⟩ := h.answers q hq .ok ho (by decide)
  have hstatus : reply.status = 201 := by
    unfold Reply.outcome at hout
    split at hout
    · assumption
    · split at hout <;> cases hout
  simp [Post.charged, ht, hdec, hstatus]

/-- A POST that was counted as refused for the funds did not take effect. -/
theorem Billed.status_of_insufficient (h : x.Billed P T s b rows) {q : Post} (hq : q ∈ x.posts)
    (ho : q.outcome = some .insufficient) : ∃ t reply, q.ticket = some t ∧
      (deploymentDecisions P).decidedAt x.backends t = some reply ∧ reply.status = 402 := by
  obtain ⟨t, reply, ht, hdec, hout⟩ := h.answers q hq .insufficient ho (by decide)
  refine ⟨t, reply, ht, hdec, ?_⟩
  unfold Reply.outcome at hout
  split at hout
  · cases hout
  · split at hout
    · assumption
    · cases hout

end Storm

/-- In every run of the load test, from any state of the deployment in which no other request for
the customer is running, while other clients buy for other customers, POSTs and replies get lost and
processes die: each charged purchase lowers the balance by the cost, and the verdict is EXACT if and
only if no purchase was charged that the script counted as an error, or purchases are free. -/
theorem loadTest_sound (P : Prisma) (s : Store) (sched : List (Act Arrival))
    (T : LoadTest) (events : List StormEvent) (before after : Int)
    (hp : s.products.find? T.product.id = some T.product)
    (hended : ∀ m ∈ (deployed P s sched).tasks,
      ((deployment P).request m).1.account = some T.customerId → m.fate ≠ .running)
    (hothers : ∀ r, .traffic (.submit r) ∈ events → r.1.account ≠ some T.customerId)
    (hdone : (Storm.run P T (deployed P s sched) events).done = true)
    (hbefore : T.balance P (deployed P s sched) = some before)
    (hafter : T.balance P (Storm.run P T (deployed P s sched) events).backends = some after) :
    T.Sound P (deployed P s sched) (Storm.run P T (deployed P s sched) events) before after := by
  obtain ⟨c, hc, rfl⟩ := LoadTest.balance_some hbefore
  have htraced : Traced P s (deployed P s sched) := (Traced.init s).run sched
  obtain ⟨hcounted, hbilled⟩ :=
    Storm.run_ok hp (.init T _) (.init htraced hc hended) hothers
  change (Storm.run P T (deployed P s sched) events).Counted T at hcounted
  change (Storm.run P T (deployed P s sched) events).Billed P T s _ _ at hbilled
  generalize Storm.run P T (deployed P s sched) events = x at *
  obtain ⟨c', hc', rfl⟩ := LoadTest.balance_some hafter
  obtain ⟨c'', hc'', hbalance⟩ := hbilled.balance
  obtain rfl := Option.mem_unique hc' hc''
  have hok := hcounted.status .ok
  have herror := hcounted.status .error
  have hinsufficient := hcounted.status .insufficient
  simp only [Status.of] at hok herror hinsufficient
  refine ⟨hcounted.total hdone, ⟨_, hbilled.rows, ?_, ?_, ?_, ?_⟩, fun hfund => ?_⟩
  · rw [hok]
    exact List.countP_mono_left fun q hq ho => hbilled.charged_of_ok hq (by simpa using ho)
  · rw [hok, herror]
    refine countP_le_add fun q hq hcharged => ?_
    -- a charged purchase was counted as ok or as an error
    cases ho : q.outcome with
    | none => exact absurd ho (hcounted.outcome_of_done hdone hq)
    | some o =>
      cases o with
      | ok => exact .inl (by simp)
      | error => exact .inr (by simp)
      | insufficient =>
        obtain ⟨t, reply, ht, hdec, hstatus⟩ := hbilled.status_of_insufficient hq ho
        simp [Post.charged, ht, hdec, hstatus] at hcharged
  · omega
  · have hdrop : c.balance - c'.balance =
        T.cost * (x.posts.countP (Post.charged P x.backends) : Int) := by omega
    rw [Storm.consistent, Bool.and_eq_true, decide_eq_true_eq, decide_eq_true_eq,
      and_iff_left (Store.balance_nonneg_of_find? hc'), hdrop, Int.mul_comm]
    by_cases hcost : T.cost = 0
    · simp [hcost]
    · rw [Int.mul_eq_mul_left_iff hcost, or_iff_right hcost]
      omega
  · rw [hinsufficient, List.countP_eq_zero]
    intro q hq ho
    obtain ⟨t, reply, ht, hdec, hstatus⟩ :=
      hbilled.status_of_insufficient hq (by simpa using ho)
    exact hbilled.funded hfund q hq t reply ht hdec hstatus

/-- Three purchases of Ada by two workers. -/
def smallTest : LoadTest where
  customerId := "c1"
  product := ⟨"p1", "Widget", 100⟩
  COUNT := 3
  CONCURRENCY := 2
  QTY := 1

/-- The reply to the second purchase gets lost, after its commit; the dashboard is read
meanwhile. -/
def lossy : List StormEvent :=
  [.turn 0, .turn 1, .arrive 0 none, .traffic (.submit (customersRequest, none)), .arrive 1 none] ++
    List.replicate 6 (.traffic (.advance 0)) ++ [.reply 0, .turn 0, .traffic (.advance 1)] ++
    List.replicate 6 (.traffic (.advance 2)) ++ [.lose 1, .turn 1, .arrive 2 none] ++
    List.replicate 6 (.traffic (.advance 3)) ++ [.reply 0, .turn 0]

theorem loadTest_sound_lossy :
    (Storm.run .sqlite smallTest (deployed .sqlite (shop 350) []) lossy).consistent smallTest
      350 50 = false ∧
    smallTest.Sound .sqlite (deployed .sqlite (shop 350) [])
      (Storm.run .sqlite smallTest (deployed .sqlite (shop 350) []) lossy) 350 50 := by
  refine ⟨by decide +kernel, loadTest_sound .sqlite (shop 350) [] smallTest lossy 350 50 (by decide)
    (fun m hm => by cases hm) (fun r hr => ?_) (by decide +kernel)
    (LoadTest.balance_of_find? (c := ⟨"c1", "Ada", 350⟩) (by decide) (by decide))
    (LoadTest.balance_of_find? (c := ⟨"c1", "Ada", 50⟩) (by decide +kernel) (by decide +kernel))⟩
  simp [lossy] at hr
  subst hr
  decide

end UsageBilling
