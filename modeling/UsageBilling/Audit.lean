import UsageBilling.Server

/-!
# The ledger explains the balances

Whatever requests run, in whatever order their steps come, each balance is the starting balance
plus the amounts of the customer's new rows, and it is never negative on the way (`Audited`).
The ledger is append-only.
-/

namespace UsageBilling

/-- The rows `added` to `s₀` explain the balances of `s`. -/
structure Audited (s₀ s : Store) (added : List LedgerEntry) : Prop where
  ledger : s.ledger = s₀.ledger ++ added
  ascending : added.Pairwise (·.id < ·.id)
  fresh : ∀ e ∈ added, s₀.seq < e.id
  /-- The customers are those of `s₀`, each with its balance plus the amounts of its new rows. -/
  balance : ∀ id, s.customers.find? id =
    (s₀.customers.find? id).map fun c => { c with balance := c.balance + (amountsOf id added).sum }
  solvent : ∀ c ∈ s₀.customers.rows, Solvent c.balance (amountsOf c.id added)

theorem Postings.audited {P : Prisma} {s₀ s : Store} {es : List LedgerEntry}
    (h : Postings P s₀ es s) : Audited s₀ s es where
  ledger := h.ledger
  ascending := h.ascending
  fresh := h.seq_lt
  balance := h.find?
  solvent _ hc := h.solvent (Table.find?_of_mem hc)

/-- After any schedule the new rows explain the balances; no later step changes or removes a row;
each new row is the answer of a request that writes it, and each answered row is in the ledger. -/
theorem ledger_audit (P : Prisma) (s₀ : Store) (pre post : List (Act Request)) :
    ∃ added, Audited s₀ (serve P s₀ pre).store added ∧
      (∃ later, (serve P s₀ (pre ++ post)).store.ledger =
        (serve P s₀ pre).store.ledger ++ later) ∧
      (∀ e ∈ added, ∃ t ∈ (serve P s₀ pre).tasks, t.answer = some (.ok e) ∧
        t.request.Writes s₀ e) ∧
      ∀ t ∈ (serve P s₀ pre).tasks, ∀ e, t.answer = some (.ok e) →
        e ∈ (serve P s₀ pre).store.ledger := by
  obtain ⟨added, hadd, hans⟩ := serve_postings P s₀ pre
  obtain ⟨later, hlater⟩ := run_postings P (serve P s₀ pre) post
  refine ⟨added, hadd.audited, ⟨later, ?_⟩, hans, fun t ht e ha => ?_⟩
  · rw [serve, Sys.run_append]
    exact hlater.ledger
  · exact (serve_ok P s₀ pre t ht).mem_ledger ha

end UsageBilling
