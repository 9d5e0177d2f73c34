import UsageBilling.Lib.Compose
import UsageBilling.Seed
import UsageBilling.Verdict

/-!
# Prices that change while requests run

A `consume` looks its product up before its `$transaction`, and the seed upserts products on a live
store. An upsert between the two steps leaves the request with the old price.

* `live P`: the requests of `server P` and any upserts of products, interleaved.
* `Priced`: what a step charges, or refuses for the funds, has the price in force. `priced_iff`: it
  has exactly if the price that the task looked up is in force.
* `holdsPrice_run`: the prices that tasks hold stay in force if no upsert changes one of them.
* `pricesInForce_iff`: when all steps of a run charge the prices in force.
-/

namespace UsageBilling

/-- The upserts of products, each a statement of its own. -/
def upserts (P : Prisma) : Sys Store Product (Product × Option (Except Error Unit))
    (Except Error Unit) :=
  Sys.atomic fun product s => (Product.upsert P product).run s

/-- A request or an upsert, between two of its steps. -/
abbrev LiveTask := Task ⊕ Product × Option (Except Error Unit)

/-- The services, while products are upserted. -/
def live (P : Prisma) : Sys Store (Request ⊕ Product) LiveTask (Answer ⊕ Except Error Unit) :=
  (server P).sum (upserts P)

/-- The state after a schedule of requests, upserts and steps that starts in the store `s`. -/
abbrev serveLive (P : Prisma) (s : Store) (sched : List (Act (Request ⊕ Product))) :
    Pool Store LiveTask :=
  (live P).run (Sys.init s) sched

/-- Without upserts, this is the server. -/
theorem serveLive_inl (P : Prisma) (s : Store) (sched : List (Act Request)) :
    serveLive P s (sched.map (Act.map .inl)) =
      ⟨(serve P s sched).store, (serve P s sched).tasks.map .inl⟩ :=
  Sys.run_inl (Sys.init s) sched

/-- The step of a task from `(t, s)` to `(t', s')` charges the price in force, and refuses for the
funds by the price in force. -/
structure Priced (P : Prisma) (t : LiveTask) (s : Store) (t' : LiveTask) (s' : Store) : Prop where
  row : ∀ e ∈ s'.ledger, e ∉ s.ledger → e.type = .CONSUMPTION →
    ∃ productId product quantity, e.productId = some productId ∧
      s'.products.find? productId = some product ∧ e.quantity = some quantity ∧
      e.unitPrice = some product.unitPrice ∧ e.amount = -(product.unitPrice * quantity)
  shortage : ∀ input balance required, (live P).request t = .inl (.consume input) →
    (live P).answer t = none →
    (live P).answer t' = some (.inl (.error (.insufficientFunds balance required))) →
    ∃ product, s'.products.find? input.productId = some product ∧
      required = product.unitPrice * input.quantity

/-- The price of `product`, which the request has looked up, is in force. -/
def InForce (s : Store) (input : ConsumeInput) (product : Product) : Prop :=
  ∃ current, s.products.find? input.productId = some current ∧
    current.unitPrice = product.unitPrice

/-- If the next step of the task decides a charge, its price is in force. -/
def ChargesInForce (P : Prisma) (s : Store) (t : LiveTask) : Prop :=
  ∀ input product, t = .inl (.consume input (.charge product)) → Decides P s input product →
    InForce s input product

/-- The action is no upsert that changes a price between its lookup and its charge. -/
def KeepsPrices (P : Prisma) (p : Pool Store LiveTask) : Act (Request ⊕ Product) → Prop
  | .submit _ => True
  | .advance i => ∀ new, p.tasks[i]? = some (.inr (new, none)) → P.column new.unitPrice = true →
      ∀ input product, .inl (.consume input (.charge product)) ∈ p.tasks →
        input.productId = new.id → new.unitPrice = product.unitPrice

section Steps

variable {P : Prisma} {s s' : Store} {t t' : Task} {input : ConsumeInput} {product : Product}

/-- The replay phase of a task has caught a unique violation. -/
def CaughtUnique (t : LiveTask) : Prop :=
  ∀ input err, t = .inl (.consume input (.replay err)) → err = .prisma .uniqueViolation

/-- A step that writes nothing and does not refuse for the funds. -/
theorem Priced.quiet {t t' : LiveTask} (h : (live P).answer t = none → ∀ balance required,
    (live P).answer t' ≠ some (.inl (.error (.insufficientFunds balance required)))) :
    Priced P t s t' s where
  row _ he hn := absurd he hn
  shortage _ balance required _ hnone ha := absurd ha (h hnone balance required)

/-- A charge that posts its row is `Priced` exactly if the price it read is in force. -/
theorem priced_charged {e : LedgerEntry} (he : e.toLedgerData = consumptionData input product)
    (hp : Posted P s e s') :
    Priced P (.inl (.consume input (.charge product))) s
        (.inl (.consume input (.done (.ok e)))) s' ↔
      InForce s input product := by
  have hprod : e.productId = some input.productId := congrArg LedgerData.productId he
  have hquantity : e.quantity = some input.quantity := congrArg LedgerData.quantity he
  have hprice : e.unitPrice = some product.unitPrice := congrArg LedgerData.unitPrice he
  have hamount : e.amount = -(product.unitPrice * input.quantity) := congrArg LedgerData.amount he
  refine ⟨fun h => ?_, fun ⟨current, hcur, hin⟩ => ⟨fun e' he' hn _ => ?_, ?_⟩⟩
  · obtain ⟨productId, current, _, hid, hcur, -, hcurPrice, -⟩ :=
      h.row e hp.mem_self hp.not_mem (congrArg LedgerData.type he)
    obtain rfl := Option.mem_unique hprod hid
    rw [hp.products] at hcur
    exact ⟨current, hcur, (Option.mem_unique hprice hcurPrice).symm⟩
  · obtain rfl := hp.eq_of_new he' hn
    exact ⟨_, current, _, hprod, by rw [hp.products, hcur], hquantity, by rw [hprice, hin],
      by rw [hamount, hin]⟩
  · rintro _ _ _ - - ⟨⟩

/-- So is a refusal for the funds: its cost is positive, so the price is all that can differ. -/
theorem priced_short {c : Customer} (hc : s.customers.find? input.customerId = some c)
    (hlt : c.balance < cost product input) :
    Priced P (.inl (.consume input (.charge product))) s (.inl (.consume input
      (.done (.error (.insufficientFunds c.balance (cost product input)))))) s ↔
      InForce s input product := by
  have hbal := s.balance_nonneg_of_find? hc
  refine ⟨fun h => ?_, fun ⟨current, hcur, hin⟩ => ⟨fun e he hn => absurd he hn, ?_⟩⟩
  · obtain ⟨current, hcur, hreq⟩ := h.shortage input _ _ rfl rfl rfl
    refine ⟨current, hcur, (Int.eq_of_mul_eq_mul_right ?_ hreq).symm⟩
    rintro hzero
    rw [cost, hzero] at hlt
    omega
  · rintro _ _ _ ⟨⟩ - ⟨⟩
    exact ⟨current, hcur, by rw [hin, cost]⟩

theorem chargesInForce_charge :
    ChargesInForce P s (.inl (.consume input (.charge product))) ↔
      (Decides P s input product → InForce s input product) := by
  refine ⟨fun h => h input product rfl, fun h _ _ heq => ?_⟩
  cases heq
  exact h

/-- A step of a request is `Priced` exactly if the price of the charge that it decides is in
force. -/
theorem Task.Step.priced_iff (hst : t.Step P s t' s') (hok : CaughtUnique (.inl t)) :
    Priced P (.inl t) s (.inl t') s' ↔ ChargesInForce P s (.inl t) := by
  cases hst with
  | found => exact iff_of_true (.quiet (by rintro _ _ _ ⟨⟩)) (by rintro _ _ ⟨⟩)
  | noProduct => exact iff_of_true (.quiet (by rintro _ _ _ ⟨⟩)) (by rintro _ _ ⟨⟩)
  | replayed => exact iff_of_true (.quiet (by rintro _ _ _ ⟨⟩)) (by rintro _ _ ⟨⟩)
  | rethrown input err =>
    -- the error that is thrown again is no refusal for the funds
    obtain rfl := hok input err rfl
    exact iff_of_true (.quiet (by rintro _ _ _ ⟨⟩)) (by rintro _ _ ⟨⟩)
  | answered _ _ ha =>
    refine iff_of_true (.quiet fun hnone => ?_) fun input product heq => ?_
    · rw [show t.answer = none by simpa [live, Sys.sum] using hnone] at ha
      cases ha
    · cases heq
      cases ha
  | collided input product _ hints c hc hle key original hkey ho =>
    -- the key is taken, so the charge does not decide
    refine iff_of_true (.quiet (by rintro _ _ _ ⟨⟩)) (chargesInForce_charge.mpr fun hdec => ?_)
    have hch : Charge P input product s _ s := .duplicate hints c hc hle key original hkey ho
    rcases hch.decides_cases with ⟨hno, -⟩ | ⟨-, -, _, -, -, hr⟩ | ⟨-, _, hr, -⟩
    · exact absurd hdec hno
    · cases hr
    · cases hr
  | failed input product _ err hch hu =>
    rw [chargesInForce_charge]
    rcases hch.decides_cases with ⟨hno, -, _, ⟨⟩, hne⟩ | ⟨hdec, -, c, hc, hlt, ⟨⟩⟩ | ⟨-, _, ⟨⟩, -⟩
    · refine iff_of_true (.quiet fun _ balance required ha => ?_) fun hdec => absurd hdec hno
      cases ha
      exact hne balance required rfl
    · rw [priced_short hc hlt, forall_prop_of_true hdec]
  | charged input product _ e _ hch =>
    rw [chargesInForce_charge]
    rcases hch.decides_cases with ⟨-, -, _, ⟨⟩, -⟩ | ⟨-, -, _, -, -, ⟨⟩⟩ | ⟨hdec, _, ⟨⟩, he, hp⟩
    rw [priced_charged he hp, forall_prop_of_true hdec]
  | credited input _ answer _ hcr =>
    -- a top-up posts a row of another type
    refine iff_of_true ⟨fun e he hn hcons => ?_, ?_⟩ (by rintro _ _ ⟨⟩)
    · cases hcr with
      | posted _ c hc hle e' _ hdata hp =>
        obtain rfl := hp.eq_of_new he hn
        rw [show e.type = .CREDIT from congrArg LedgerData.type hdata] at hcons
        cases hcons
      | _ => exact absurd he hn
    · rintro _ _ _ ⟨⟩

/-- An upsert writes its product, or nothing. -/
theorem upsert_step (P : Prisma) (i : Nat) (u : Product × Option (Except Error Unit)) (s : Store) :
    ((live P).step i (.inr u) s).2 = s ∨ ∃ new, u = (new, none) ∧ P.column new.unitPrice = true ∧
      ((live P).step i (.inr u) s).2 = s.withProducts (s.products.upsert new) := by
  rcases u with ⟨new, answer⟩
  cases answer with
  | some _ => exact .inl rfl
  | none =>
    have hstep : ((live P).step i (.inr (new, none)) s).2 = ((Product.upsert P new).run s).2 := rfl
    rw [hstep, run_upsertProduct]
    by_cases hint : P.column new.unitPrice = true
    · rw [if_pos hint]
      exact .inr ⟨new, rfl, hint, rfl⟩
    · rw [if_neg hint]
      exact .inl rfl

theorem upsert_ledger (P : Prisma) (i : Nat) (u : Product × Option (Except Error Unit))
    (s : Store) : ((live P).step i (.inr u) s).2.ledger = s.ledger := by
  rcases upsert_step P i u s with heq | ⟨new, -, -, heq⟩
  · rw [heq]
  · rw [heq]
    rfl

/-- Every step, exactly under its condition. -/
theorem live_priced_iff {t : LiveTask} (hok : CaughtUnique t) (i : Nat) (s : Store) :
    Priced P t s ((live P).step i t s).1 ((live P).step i t s).2 ↔ ChargesInForce P s t := by
  cases t with
  | inl t => exact (step_spec P t s).priced_iff hok
  | inr u =>
    refine iff_of_true ⟨fun e he hn => ?_, ?_⟩ nofun
    · rw [upsert_ledger] at he
      exact absurd he hn
    · rintro _ _ _ ⟨⟩

end Steps

/-! ## Runs -/

section Runs

variable {P : Prisma} {s₀ : Store} {sched : List (Act (Request ⊕ Product))}

/-- A new `consume` is before its lookup. -/
theorem live_start {r : Request ⊕ Product} {input : ConsumeInput} {phase : ConsumePhase}
    (h : (live P).start r = .inl (.consume input phase)) : phase = .lookup := by
  rcases r with (_ | _) | _ <;> cases h
  rfl

theorem Task.Step.caughtUnique {t t' : Task} {s s' : Store} (hst : t.Step P s t' s')
    (h : CaughtUnique (.inl t)) : CaughtUnique (.inl t') := by
  rintro input err ⟨⟩
  cases hst with
  | collided => rfl
  | answered => exact h input err rfl

theorem caughtUnique_run : ∀ t ∈ (serveLive P s₀ sched).tasks, CaughtUnique t := by
  refine Sys.reach_tasks_induction (S := live P) (J := fun _ => CaughtUnique) ?_ ?_ ?_
  · intro _ r input err heq
    cases live_start heq
  · intro pre i t _ _ h
    cases t with
    | inl t => exact (step_spec P t _).caughtUnique h
    | inr u => exact nofun
  · exact fun _ _ _ _ _ _ _ h => h

/-- The price that the task has looked up, if it has not charged it yet, is in force. -/
def HoldsPrice (s : Store) (t : LiveTask) : Prop :=
  ∀ input product, t = .inl (.consume input (.charge product)) → InForce s input product

theorem InForce.of_products {s s' : Store} {input : ConsumeInput} {product : Product}
    (hp : s'.products = s.products) (h : InForce s input product) : InForce s' input product := by
  rwa [InForce, hp]

/-- An upsert keeps the prices in force that it does not change. -/
theorem InForce.upsert {s : Store} {input : ConsumeInput} {product new : Product}
    (h : InForce s input product)
    (hkeep : input.productId = new.id → new.unitPrice = product.unitPrice) :
    InForce (s.withProducts (s.products.upsert new)) input product := by
  by_cases hid : input.productId = new.id
  · exact ⟨new, (Table.find?_upsert ..).trans (if_pos hid), hkeep hid⟩
  · obtain ⟨current, hcur, hin⟩ := h
    exact ⟨current, ((Table.find?_upsert ..).trans (if_neg hid)).trans hcur, hin⟩

/-- A step of a request leaves the products as they are. -/
theorem Task.Step.products {t t' : Task} {s s' : Store} (hst : t.Step P s t' s') :
    s'.products = s.products := by
  rcases hst.store with rfl | ⟨e, hp, -⟩
  · rfl
  · exact hp.products

theorem Task.Step.holdsPrice {t t' : Task} {s s' : Store} (hst : t.Step P s t' s')
    (h : HoldsPrice s (.inl t)) : HoldsPrice s' (.inl t') := by
  rintro input product ⟨⟩
  cases hst with
  | found _ _ _ hp => exact ⟨product, hp, rfl⟩
  | answered => exact h input product rfl

/-- If no action changes a price that is held, all held prices stay in force. -/
theorem holdsPrice_run
    (hkeep : ∀ pre a, pre ++ [a] <+: sched → KeepsPrices P (serveLive P s₀ pre) a) :
    ∀ t ∈ (serveLive P s₀ sched).tasks, HoldsPrice (serveLive P s₀ sched).store t := by
  refine Sys.reach_tasks_induction (S := live P) ?_ ?_ ?_
  · intro _ r input product heq
    cases live_start heq
  · intro pre i t _ _ h
    cases t with
    | inl t => exact (step_spec P t _).holdsPrice h
    | inr u => exact nofun
  · intro pre i t u hpre hi hu h input product heq
    subst heq
    cases t with
    | inl t =>
      have hprod := (step_spec P t (serveLive P s₀ pre).store).products
      exact (h input product rfl).of_products hprod
    | inr w =>
      rcases upsert_step P i w (serveLive P s₀ pre).store with heq | ⟨new, rfl, hint, heq⟩
      · rw [heq]
        exact h input product rfl
      · rw [heq]
        exact (h input product rfl).upsert (hkeep pre _ hpre new hi hint input product hu)

end Runs

/-- Every step of the run charges, and refuses for the funds by, the price in force. -/
def PricesInForce (P : Prisma) (s₀ : Store) (sched : List (Act (Request ⊕ Product))) : Prop :=
  ∀ pre i t, pre ++ [.advance i] <+: sched → (serveLive P s₀ pre).tasks[i]? = some t →
    Priced P t (serveLive P s₀ pre).store ((live P).step i t (serveLive P s₀ pre).store).1
      ((live P).step i t (serveLive P s₀ pre).store).2

/-- In every interleaving of any requests and upserts of products: the prices charged are those in
force exactly if each transaction that decides a charge finds the price that was looked up. They are
if no upsert changes a price between its lookup and its charge. -/
theorem pricesInForce_iff (P : Prisma) (s₀ : Store) (sched : List (Act (Request ⊕ Product))) :
    (PricesInForce P s₀ sched ↔ ∀ pre i t, pre ++ [.advance i] <+: sched →
      (serveLive P s₀ pre).tasks[i]? = some t → ChargesInForce P (serveLive P s₀ pre).store t) ∧
    ((∀ pre a, pre ++ [a] <+: sched → KeepsPrices P (serveLive P s₀ pre) a) →
      PricesInForce P s₀ sched) := by
  have hiff : PricesInForce P s₀ sched ↔ ∀ pre i t, pre ++ [.advance i] <+: sched →
      (serveLive P s₀ pre).tasks[i]? = some t → ChargesInForce P (serveLive P s₀ pre).store t :=
    forall₃_congr fun pre i t => imp_congr_right fun _ => imp_congr_right fun hi =>
      live_priced_iff (caughtUnique_run t (List.mem_of_getElem? hi)) i _
  refine ⟨hiff, fun hkeep => hiff.mpr fun pre i t hpre hi input product heq _ => ?_⟩
  have hpre' : ∀ pre' a, pre' ++ [a] <+: pre → KeepsPrices P (serveLive P s₀ pre') a :=
    fun pre' a h => hkeep pre' a (h.trans ((List.prefix_append _ _).trans hpre))
  exact holdsPrice_run hpre' t (List.mem_of_getElem? hi) input product heq

/-- A price that changes before the purchase looks it up. -/
theorem pricesInForce_iff_raised : PricesInForce .sqlite (shop 500)
    [.submit (.inr ⟨"p1", "Widget", 200⟩), .advance 0,
      .submit (.inl (.consume (purchase "c1"))), .advance 1, .advance 1] := by
  refine (pricesInForce_iff .sqlite (shop 500) _).2 ?_
  simp only [Sys.forall_steps_cons, Sys.forall_steps_nil, and_true]
  refine ⟨trivial, ?_, trivial, ?_, ?_⟩
  · rintro new - - input product hmem
    cases List.mem_singleton.mp hmem
  · rintro new ⟨⟩
  · rintro new ⟨⟩

/-- The price doubles between the lookup and the charge, and the row has the old one. -/
theorem not_always_in_force : ¬ ∀ (P : Prisma) (s₀ : Store)
    (sched : List (Act (Request ⊕ Product))), PricesInForce P s₀ sched := by
  intro h
  have hp := h .sqlite (shop 500)
    [.submit (.inl (.consume (purchase "c1"))), .advance 0,
      .submit (.inr ⟨"p1", "Widget", 200⟩), .advance 1, .advance 0]
    [.submit (.inl (.consume (purchase "c1"))), .advance 0,
      .submit (.inr ⟨"p1", "Widget", 200⟩), .advance 1] 0 _ (List.prefix_refl _) rfl
  obtain ⟨_, product, _, ⟨⟩, hfind, -, hprice, -⟩ := hp.row
    { consumptionData (purchase "c1") ⟨"p1", "Widget", 100⟩ with id := 1 } (by decide) (by decide)
    rfl
  obtain rfl : product = ⟨"p1", "Widget", 200⟩ := Option.mem_unique hfind (by decide)
  cases hprice

end UsageBilling
