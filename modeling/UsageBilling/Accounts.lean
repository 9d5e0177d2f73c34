import UsageBilling.Traffic

/-!
# The ledger as the record of the requests

Whatever the processes do, each row of the ledger is the work of one request, and what a client was
told is what the ledger says.

* `AppEffect`: what one request does when it runs alone: it writes its row, repeats one, or writes
  nothing. `app_effect`: it does one of these.
* `Accounts`: the requests that took effect, each with the row that it wrote.
  `deployed_accounts`: in every run there are such accounts.
* `deployment_accounts`: what they say to the clients.
-/

namespace UsageBilling

open Sys

/-! ## One request -/

/-- The request asks for the row. -/
def HttpRequest.Asks (P : Prisma) (s : Store) (req : HttpRequest) (e : LedgerEntry) : Prop :=
  ∃ r, req.first P s = .serve r ∧ r.Writes s e

/-- What a request that runs alone in the store `s` replies, and the store it leaves. -/
inductive AppEffect (P : Prisma) (req : HttpRequest) (s : Store) : Reply → Store → Prop
  | wrote (e : LedgerEntry) (s' : Store) (hp : Posted P s e s') (hask : req.Asks P s e) :
      AppEffect P req s ⟨201, .api (.entry e)⟩ s'
  | repeated (e : LedgerEntry) (key : String) (hkey : req.key = some key)
      (ho : s.findKey key = some e) : AppEffect P req s ⟨201, .api (.entry e)⟩ s
  | refused (reply : Reply) (hstatus : reply.status ≠ 201) : AppEffect P req s reply s

section App

variable {P : Prisma} {req : HttpRequest} {s s' : Store} {e : LedgerEntry}

theorem not_created_of_not_ok {reply : Reply} (h : reply.isOk = false) : reply.status ≠ 201 := by
  intro hstatus
  rw [Reply.isOk, hstatus] at h
  cases h

theorem app_effect (P : Prisma) (req : HttpRequest) (s : Store) :
    AppEffect P req s (app P req s).1 (app P req s).2 := by
  rw [app_first]
  cases hf : req.first P s with
  | answer reply =>
    refine .refused reply fun hstatus => ?_
    have hok : reply.isOk = true := by rw [Reply.isOk, hstatus]; rfl
    rw [(ok_of_first hf hok).1] at hstatus
    cases hstatus
  | list input =>
    refine .refused _ fun (hstatus : (pageReply P input s).status = 201) => ?_
    have hok : (pageReply P input s).isOk = true := by rw [Reply.isOk, hstatus]; rfl
    rw [status_of_page hok] at hstatus
    cases hstatus
  | serve r =>
    have hout := service_outcome P r s
    simp only [First.finish]
    generalize service P r s = out at hout ⊢
    obtain ⟨answer, s'⟩ := out
    cases hv : verdict P s r with
    | reject err =>
      rw [hv] at hout
      obtain ⟨rfl, rfl⟩ := hout
      exact .refused _ (not_created_of_not_ok not_ok_of_error)
    | replay key =>
      rw [hv] at hout
      obtain ⟨rfl, e, ho, rfl⟩ := hout
      rw [respond_created.mpr rfl]
      exact .repeated e key ((key_of_first hf).symm.trans (key_of_replay hv)) ho
    | post d =>
      rw [hv] at hout
      obtain ⟨e, rfl, rfl, hp⟩ := hout
      rw [respond_created.mpr rfl]
      exact .wrote e s' hp ⟨r, hf, .of_verdict hv⟩

/-- The prices of the products stay, and so does what a request asks for. -/
theorem HttpRequest.Asks.of_products (hp : s'.products = s.products) (h : req.Asks P s e) :
    req.Asks P s' e := by
  obtain ⟨r, hf, hw⟩ := h
  exact ⟨r, first_serve hf s', hw.of_products hp⟩

end App

/-! ## The accounts of a run -/

/-- The requests `rs` have arrived, `d` is what is decided for them, and `b` is the store. `writers`
are those that took effect, in this order, each with the row that it wrote. -/
structure Accounts (P : Prisma) (s : Store) (rs : List Arrival)
    (d : Nat → Option Reply) (b : Store) (writers : List (Nat × LedgerEntry)) : Prop where
  once : (writers.map Prod.fst).Nodup
  postings : Postings P s (writers.map Prod.snd) b
  wrote : ∀ i e, (i, e) ∈ writers → d i = some ⟨201, .api (.entry e)⟩ ∧
    ∃ r, rs[i]? = some r ∧ r.1.Asks P s e
  replies : ∀ i reply, d i = some reply → reply.status = 201 → ∃ r e, rs[i]? = some r ∧
    reply = ⟨201, .api (.entry e)⟩ ∧
    ((i, e) ∈ writers ∨ ∃ key, r.1.key = some key ∧ b.findKey key = some e)

section Accounts

variable {P : Prisma} {s b b' : Store} {rs : List Arrival}
  {d : Nat → Option Reply} {writers : List (Nat × LedgerEntry)}

theorem Accounts.submit (h : Accounts P s rs d b writers) (r : Arrival) :
    Accounts P s (rs ++ [r]) d b writers where
  once := h.once
  postings := h.postings
  wrote i e he := by
    obtain ⟨hd, r', hr, hask⟩ := h.wrote i e he
    exact ⟨hd, r', List.getElem?_append_left (List.getElem?_eq_some_iff.mp hr).1 ▸ hr, hask⟩
  replies i reply hd hstatus := by
    obtain ⟨r', e, hr, hrest⟩ := h.replies i reply hd hstatus
    exact ⟨r', e, List.getElem?_append_left (List.getElem?_eq_some_iff.mp hr).1 ▸ hr, hrest⟩

/-- One more decision keeps those there were. -/
theorem Accounts.decided_old {i j : Nat} {a reply : Reply} (hnone : d i = none)
    (hd : d j = some reply) : (if j = i then some a else d j) = some reply := by
  rw [if_neg, hd]
  rintro rfl
  rw [hnone] at hd
  cases hd

/-- One request takes effect. -/
theorem Accounts.decide (h : Accounts P s rs d b writers) {i : Nat} {r : Arrival}
    {reply : Reply} (hr : rs[i]? = some r) (hnone : d i = none)
    (heff : AppEffect P r.1 b reply b') : ∃ writers',
      Accounts P s rs (fun j => if j = i then some reply else d j) b' writers' := by
  cases heff with
  | wrote e _ hp hask =>
    have hi : i ∉ writers.map Prod.fst := fun hmem => by
      obtain ⟨w, hw, rfl⟩ := List.mem_map.mp hmem
      rw [(h.wrote w.1 w.2 hw).1] at hnone
      cases hnone
    refine ⟨writers ++ [(i, e)], ?_, ?_, ?_, ?_⟩
    · rw [List.map_append, List.nodup_append]
      exact ⟨h.once, List.nodup_singleton i, fun j hj k hk hjk =>
        hi ((hjk.trans (List.mem_singleton.mp hk) : j = i) ▸ hj)⟩
    · rw [List.map_append]
      exact .snoc h.postings hp
    · intro j e' hmem
      rcases List.mem_append.mp hmem with hmem | hmem
      · obtain ⟨hd, hrest⟩ := h.wrote j e' hmem
        exact ⟨decided_old hnone hd, hrest⟩
      · obtain ⟨rfl, rfl⟩ := Prod.mk.inj (List.mem_singleton.mp hmem)
        exact ⟨if_pos rfl, r, hr, hask.of_products h.postings.products.symm⟩
    · intro j reply hd hstatus
      by_cases hj : j = i
      · subst hj
        simp only [↓reduceIte, Option.some.injEq] at hd
        exact ⟨r, e, hr, hd.symm, .inl (by simp)⟩
      · simp only [if_neg hj] at hd
        obtain ⟨r', e', hr', heq, hrest⟩ := h.replies j reply hd hstatus
        refine ⟨r', e', hr', heq, hrest.imp (List.mem_append_left _) ?_⟩
        rintro ⟨key, hkey, ho⟩
        exact ⟨key, hkey, hp.findKey_of_some ho⟩
  | repeated e key hkey ho =>
    refine ⟨writers, h.once, h.postings, ?_, ?_⟩
    · intro j e' hmem
      obtain ⟨hd, hrest⟩ := h.wrote j e' hmem
      exact ⟨decided_old hnone hd, hrest⟩
    · intro j reply hd hstatus
      by_cases hj : j = i
      · subst hj
        simp only [↓reduceIte, Option.some.injEq] at hd
        exact ⟨r, e, hr, hd.symm, .inr ⟨key, hkey, ho⟩⟩
      · simp only [if_neg hj] at hd
        exact h.replies j reply hd hstatus
  | refused _ hne =>
    refine ⟨writers, h.once, h.postings, ?_, ?_⟩
    · intro j e' hmem
      obtain ⟨hd, hrest⟩ := h.wrote j e' hmem
      exact ⟨decided_old hnone hd, hrest⟩
    · intro j reply' hd hstatus
      by_cases hj : j = i
      · subst hj
        simp only [↓reduceIte, Option.some.injEq] at hd
        exact absurd (hd ▸ hstatus) hne
      · simp only [if_neg hj] at hd
        exact h.replies j reply' hd hstatus

/-- In every run there are accounts of the requests that took effect. -/
theorem deployed_accounts (P : Prisma) (s : Store) (sched : List (Act Arrival)) : ∃ writers,
      Accounts P s (submitted sched) ((deploymentDecisions P).decidedAt (deployed P s sched))
        (deployed P s sched).store.committed writers := by
  refine (deploymentDecisions P).effect_induction (s := ⟨s, none⟩)
    (I := fun rs d b => ∃ writers, Accounts P s rs d b writers) ?_ ?_ ?_ sched
  · exact ⟨[], List.nodup_nil, .nil, fun _ _ h => (by cases h), fun _ _ h => (by cases h)⟩
  · rintro rs d b r ⟨writers, h⟩
    exact ⟨writers, h.submit r⟩
  · rintro rs d b i r reply b' hr hnone happ ⟨writers, h⟩
    have heff := app_effect P r.1 b
    rw [happ] at heff
    exact h.decide hr hnone heff

/-- In every run of the deployment, whatever processes die and whatever times out: the new rows of
the ledger are those that some of the requests asked for, one row each, in the order in which they
took effect. A reply says so: who got a 201 wrote the row in it, or has a key under which the row
is; who got another reply wrote nothing. -/
theorem deployment_accounts (P : Prisma) (s : Store) (sched : List (Act Arrival)) :
    ∃ writers : List (Nat × LedgerEntry), (writers.map Prod.fst).Nodup ∧
      Postings P s (writers.map Prod.snd) (deployed P s sched).store.committed ∧
      (∀ i e, (i, e) ∈ writers → ∃ r, (submitted sched)[i]? = some r ∧ r.1.Asks P s e) ∧
      ∀ i m reply, (deployed P s sched).tasks[i]? = some m → (deployment P).answer m = some reply →
        if reply.status = 201 then ∃ e, reply = ⟨201, .api (.entry e)⟩ ∧
          ((i, e) ∈ writers ∨ ∃ key, ((deployment P).request m).1.key = some key ∧
            (deployed P s sched).store.committed.findKey key = some e)
        else i ∉ writers.map Prod.fst := by
  obtain ⟨writers, h⟩ := deployed_accounts P s sched
  refine ⟨writers, h.once, h.postings, fun i e he => (h.wrote i e he).2,
    fun i m reply hm ha => ?_⟩
  have hd := decidedAt_of_reply (P := P) (p := deployed P s sched) (i := i) (by rw [hm]; exact ha)
  split
  · rename_i hstatus
    have hd := hd.resolve_right fun ⟨_, message, heq⟩ => by
      rw [heq] at hstatus
      cases hstatus
    obtain ⟨r, e, hr, heq, hrest⟩ := h.replies i reply hd hstatus
    refine ⟨e, heq, hrest.imp_right ?_⟩
    rintro ⟨key, hkey, ho⟩
    have hreq : (deployment P).request m = r :=
      Option.some.inj ((getElem?_submitted hm).symm.trans hr)
    exact ⟨key, hreq ▸ hkey, ho⟩
  · rename_i hstatus
    intro hmem
    obtain ⟨w, hw, rfl⟩ := List.mem_map.mp hmem
    have hwrote := (h.wrote w.1 w.2 hw).1
    rcases hd with hd | ⟨hnone, -⟩
    · exact hstatus (Option.some.inj (hwrote.symm.trans hd) ▸ rfl)
    · rw [hnone] at hwrote
      cases hwrote

end Accounts

end UsageBilling
