import UsageBilling.Lib.Txn

/-!
# Transactions that run statement by statement under one write lock

* `Wal`: the last committed store, and the writer that holds the lock with the store it sees. A
  read outside a transaction sees the committed store.
* `Tx`: where a transaction of two statements is. The first statement takes the lock and waits
  while another writer holds it; the second one runs on the writer's own store; then the
  transaction commits or rolls back and frees the lock.
* `Tx.step_spec`: a transaction that keeps `Tx.Ok` ends like `Txn.transaction` on the committed
  store, whatever other writers try meanwhile (`Tx.Ok.of_step`).
* `Tx.step_left`, `Tx.step_moves`, `Tx.step_writer`: a step is nearer to the end or waits, it waits
  only while another transaction holds the lock, and it leaves the lock free or its own.
-/

/-- A database with one write lock. -/
structure Wal (σ : Type) where
  committed : σ
  /-- The writer that holds the lock, and the store with its uncommitted writes. -/
  writer : Option (Nat × σ) := none

namespace Wal

variable {σ ε α : Type}

/-- A first write of the transaction `i`: it takes the lock if it is free. `none`: it waits. -/
def lock (w : Wal σ) (i : Nat) (x : Txn σ ε α) : Option (Except ε α × Wal σ) :=
  match w.writer with
  | none => some ((x.run w.committed).1, ⟨w.committed, some (i, (x.run w.committed).2)⟩)
  | some _ => none

/-- A later statement of the transaction `i`, which holds the lock. -/
def statement (w : Wal σ) (i : Nat) (x : Txn σ ε α) : Option (Except ε α × Wal σ) :=
  match w.writer with
  | none => none
  | some (j, s) =>
    if j = i then some ((x.run s).1, ⟨w.committed, some (i, (x.run s).2)⟩) else none

/-- The writer `i` commits: its store is the committed one, and the lock is free. -/
def commit (w : Wal σ) (i : Nat) : Wal σ :=
  match w.writer with
  | none => w
  | some (j, s) => if j = i then ⟨s, none⟩ else w

/-- The writer `i` rolls back: what it has written is dropped, and the lock is free. -/
def rollback (w : Wal σ) (i : Nat) : Wal σ :=
  match w.writer with
  | none => w
  | some (j, _) => if j = i then ⟨w.committed, none⟩ else w

variable {w : Wal σ} {i j : Nat} {s : σ} {x : Txn σ ε α}

theorem lock_free (h : w.writer = none) :
    w.lock i x = some ((x.run w.committed).1, ⟨w.committed, some (i, (x.run w.committed).2)⟩) := by
  simp only [lock, h]

theorem lock_held (h : w.writer = some (j, s)) : w.lock i x = none := by
  simp only [lock, h]

theorem statement_own (h : w.writer = some (i, s)) :
    w.statement i x = some ((x.run s).1, ⟨w.committed, some (i, (x.run s).2)⟩) := by
  simp only [statement, h, if_pos]

theorem statement_held (h : w.writer = some (j, s)) (hne : i ≠ j) : w.statement i x = none := by
  simp only [statement, h, if_neg (Ne.symm hne)]

theorem commit_own (h : w.writer = some (i, s)) : w.commit i = ⟨s, none⟩ := by
  simp only [commit, h, if_pos]

theorem commit_held (h : w.writer = some (j, s)) (hne : i ≠ j) : w.commit i = w := by
  simp only [commit, h, if_neg (Ne.symm hne)]

theorem rollback_own (h : w.writer = some (i, s)) : w.rollback i = ⟨w.committed, none⟩ := by
  simp only [rollback, h, if_pos]

theorem rollback_held (h : w.writer = some (j, s)) (hne : i ≠ j) : w.rollback i = w := by
  simp only [rollback, h, if_neg (Ne.symm hne)]

/-- Who holds the lock after a rollback held it before, and is not the one that rolled back. -/
theorem writer_of_rollback (h : (w.rollback i).writer = some (j, s)) :
    j ≠ i ∧ w.writer = some (j, s) := by
  unfold rollback at h
  split at h
  · rename_i hnone
    rw [hnone] at h
    cases h
  · rename_i k s' hw
    split at h
    · cases h
    · rename_i hne
      rw [hw] at h
      cases h
      exact ⟨hne, hw⟩

end Wal

/-- Where a transaction of two statements is. -/
inductive Tx (β ε α : Type) where
  /-- Before the first statement, without the lock. -/
  | first
  /-- Before the second statement, with the result of the first one. -/
  | second (b : β)
  /-- Before the commit or the rollback. -/
  | finish (r : Except ε α)

namespace Tx

variable {σ ε α β : Type}

/-- The next step of the transaction `i` with the body `x >>= f`: its new place, or its result. -/
def step (i : Nat) (x : Txn σ ε β) (f : β → Txn σ ε α) :
    Tx β ε α → Wal σ → (Tx β ε α ⊕ Except ε α) × Wal σ
  | .first, w =>
    match w.lock i x with
    | none => (.inl .first, w)
    | some (.ok b, w') => (.inl (.second b), w')
    | some (.error e, w') => (.inl (.finish (.error e)), w')
  | .second b, w =>
    match w.statement i (f b) with
    | none => (.inl (.second b), w)
    | some (r, w') => (.inl (.finish r), w')
  | .finish (.ok a), w => (.inr (.ok a), w.commit i)
  | .finish (.error e), w => (.inr (.error e), w.rollback i)

/-- The transaction `i` holds the lock after its first statement, and its store is the one that
its body has made of the committed store so far. -/
def Ok (i : Nat) (x : Txn σ ε β) (f : β → Txn σ ε α) (w : Wal σ) : Tx β ε α → Prop
  | .first => True
  | .second b => ∃ s, w.writer = some (i, s) ∧ x.run w.committed = (.ok b, s)
  | .finish r => ∃ s, w.writer = some (i, s) ∧ (x >>= f).run w.committed = (r, s)

variable {i j : Nat} {x : Txn σ ε β} {f : β → Txn σ ε α} {tx : Tx β ε α} {w : Wal σ} {s : σ}

/-- While another transaction holds the lock, a step changes nothing. -/
theorem step_held (h : w.writer = some (j, s)) (hne : i ≠ j) : (tx.step i x f w).2 = w := by
  unfold step
  split
  · rw [Wal.lock_held h]
  · rw [Wal.statement_held h hne]
  · exact Wal.commit_held h hne
  · exact Wal.rollback_held h hne

/-- The committed store and the lock holder stay, so the holder's invariant stays. -/
theorem Ok.of_step {γ δ : Type} {y : Txn σ ε γ} {g : γ → Txn σ ε δ} {tx' : Tx γ ε δ}
    (h : tx'.Ok j y g w) (hne : i ≠ j) : tx'.Ok j y g (tx.step i x f w).2 := by
  match tx', h with
  | .first, _ => trivial
  | .second b, ⟨s, hw, hy⟩ => rw [step_held hw hne]; exact ⟨s, hw, hy⟩
  | .finish r, ⟨s, hw, hy⟩ => rw [step_held hw hne]; exact ⟨s, hw, hy⟩

/-- A step commits nothing, or it ends the transaction: the result and the committed store are
those of the body as one atomic transaction. -/
theorem step_spec (h : tx.Ok i x f w) :
    (∃ tx' w', tx.step i x f w = (.inl tx', w') ∧ tx'.Ok i x f w' ∧ w'.committed = w.committed) ∨
    ∃ r w', tx.step i x f w = (.inr r, w') ∧
      (Txn.transaction (x >>= f)).run w.committed = (r, w'.committed) := by
  match tx, h with
  | .first, _ =>
    left
    simp only [step]
    cases hw : w.writer with
    | some p =>
      rw [Wal.lock_held hw]
      exact ⟨.first, w, rfl, trivial, rfl⟩
    | none =>
      rw [Wal.lock_free hw]
      cases hx : x.run w.committed with
      | mk r s =>
      cases r with
      | ok b => exact ⟨.second b, _, rfl, ⟨s, rfl, hx⟩, rfl⟩
      | error e => exact ⟨.finish (.error e), _, rfl, ⟨s, rfl, Txn.run_bind_error hx⟩, rfl⟩
  | .second b, ⟨s, hw, hx⟩ =>
    left
    refine ⟨.finish ((f b).run s).1, ⟨w.committed, some (i, ((f b).run s).2)⟩, ?_, ?_, rfl⟩
    · rw [step, Wal.statement_own hw]
    · exact ⟨((f b).run s).2, rfl, Txn.run_bind_ok hx⟩
  | .finish (.ok a), ⟨s, hw, hx⟩ =>
    right
    refine ⟨.ok a, ⟨s, none⟩, ?_, Txn.transaction_ok hx⟩
    rw [step, Wal.commit_own hw]
  | .finish (.error e), ⟨s, hw, hx⟩ =>
    right
    refine ⟨.error e, ⟨w.committed, none⟩, ?_, Txn.transaction_error hx⟩
    rw [step, Wal.rollback_own hw]

/-! ## Waiting for the lock -/

/-- The transaction is past its first statement. -/
def holds : Tx β ε α → Bool
  | .first => false
  | _ => true

/-- The steps that are left without the waiting. -/
def left : Tx β ε α → Nat
  | .first => 3
  | .second _ => 2
  | .finish _ => 1

/-- A step waits and changes nothing, or it brings the transaction nearer to its end. -/
theorem step_left (i : Nat) (x : Txn σ ε β) (f : β → Txn σ ε α) (tx : Tx β ε α) (w : Wal σ) :
    tx.step i x f w = (.inl tx, w) ∨
    (∃ tx' w', tx.step i x f w = (.inl tx', w') ∧ tx'.left < tx.left) ∨
    ∃ r w', tx.step i x f w = (.inr r, w') := by
  cases tx with
  | first =>
    simp only [step]
    cases hl : w.lock i x with
    | none => exact .inl rfl
    | some r =>
      obtain ⟨r, w'⟩ := r
      cases r with
      | ok b => exact .inr (.inl ⟨_, _, rfl, by simp [left]⟩)
      | error e => exact .inr (.inl ⟨_, _, rfl, by simp [left]⟩)
  | second b =>
    simp only [step]
    cases hs : w.statement i (f b) with
    | none => exact .inl rfl
    | some r => exact .inr (.inl ⟨_, _, rfl, by simp [left]⟩)
  | finish r =>
    cases r with
    | ok a => exact .inr (.inr ⟨_, _, rfl⟩)
    | error e => exact .inr (.inr ⟨_, _, rfl⟩)

/-- With the lock free or its own, a transaction does not wait. -/
theorem step_moves (h : tx.Ok i x f w) (hw : w.writer = none ∨ tx.holds = true) :
    tx.step i x f w ≠ (.inl tx, w) := by
  match tx, h with
  | .first, _ =>
    have hfree : w.writer = none := hw.resolve_right (by simp [holds])
    simp only [step, Wal.lock_free hfree]
    cases x.run w.committed with
    | mk r s => cases r <;> simp
  | .second b, ⟨s, hs, _⟩ => simp [step, Wal.statement_own hs]
  | .finish (.ok a), _ => simp [step]
  | .finish (.error e), _ => simp [step]

/-- After a step the lock is as before, or held by a transaction past its first statement, or
free at the end. -/
theorem step_writer (h : tx.Ok i x f w) :
    tx.step i x f w = (.inl tx, w) ∨
    (∃ tx' s c, tx.step i x f w = (.inl tx', ⟨c, some (i, s)⟩) ∧ tx'.holds = true) ∨
    ∃ r c, tx.step i x f w = (.inr r, ⟨c, none⟩) := by
  match tx, h with
  | .first, _ =>
    simp only [step]
    cases hw : w.writer with
    | some p =>
      rw [Wal.lock_held hw]
      exact .inl rfl
    | none =>
      rw [Wal.lock_free hw]
      cases x.run w.committed with
      | mk r s => cases r <;> exact .inr (.inl ⟨_, _, _, rfl, rfl⟩)
  | .second b, ⟨s, hs, _⟩ =>
    rw [step, Wal.statement_own hs]
    exact .inr (.inl ⟨_, _, _, rfl, rfl⟩)
  | .finish (.ok a), ⟨s, hs, _⟩ =>
    rw [step, Wal.commit_own hs]
    exact .inr (.inr ⟨_, _, rfl⟩)
  | .finish (.error e), ⟨s, hs, _⟩ =>
    rw [step, Wal.rollback_own hs]
    exact .inr (.inr ⟨_, _, rfl⟩)

end Tx
