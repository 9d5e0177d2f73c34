/-!
# Programs over a shared store, and transactions

A program of type `Txn σ ε α` reads and writes a store of type `σ` and ends with a value or an
error. An error keeps the writes made before it: only `transaction` undoes them.

* `Txn.run`: what a program does when nothing else runs.
* `transaction body`: `body` as one step that is atomic and all or nothing.
* `transaction_ok`, `transaction_error`: the two ways a transaction ends.
* `run_forM`: the loop rule.
-/

/-- A program over a store `σ` that ends with an `α` or an error `ε`. -/
def Txn (σ ε α : Type) : Type := σ → Except ε α × σ

namespace Txn

variable {σ ε α β : Type}

/-- Runs the program alone from the store `s`. -/
def run (x : Txn σ ε α) (s : σ) : Except ε α × σ := x s

instance : Monad (Txn σ ε) where
  pure a := fun s => (.ok a, s)
  bind x f := fun s =>
    match x s with
    | (.ok a, s') => f a s'
    | (.error e, s') => (.error e, s')

instance : MonadExceptOf ε (Txn σ ε) where
  throw e := fun s => (.error e, s)
  tryCatch x handle := fun s =>
    match x s with
    | (.ok a, s') => (.ok a, s')
    | (.error e, s') => handle e s'

/-- A statement that reads the store. -/
def reading (f : σ → Except ε α) : Txn σ ε α := fun s => (f s, s)

/-- A statement that writes the store; if it fails, it writes nothing. -/
def writing (f : σ → Except ε (α × σ)) : Txn σ ε α := fun s =>
  match f s with
  | .ok (a, s') => (.ok a, s')
  | .error e => (.error e, s)

/-- Commits the store that `body` leaves, or rolls back to the store at its start if `body`
throws. -/
def transaction (body : Txn σ ε α) : Txn σ ε α := fun s =>
  match body s with
  | (.ok a, s') => (.ok a, s')
  | (.error e, _) => (.error e, s)

variable {x : Txn σ ε α} {f : α → Txn σ ε β} {s s' : σ} {a : α} {e : ε}

@[simp] theorem run_pure (a : α) (s : σ) : (pure a : Txn σ ε α).run s = (.ok a, s) := rfl

@[simp] theorem run_throw (e : ε) (s : σ) : (throw e : Txn σ ε α).run s = (.error e, s) := rfl

@[simp] theorem run_reading (g : σ → Except ε α) (s : σ) : (reading g).run s = (g s, s) := rfl

theorem run_bind (x : Txn σ ε α) (f : α → Txn σ ε β) (s : σ) :
    (x >>= f).run s = match x.run s with
      | (.ok a, s') => (f a).run s'
      | (.error e, s') => (.error e, s') := rfl

theorem run_tryCatch (x : Txn σ ε α) (handle : ε → Txn σ ε α) (s : σ) :
    (tryCatch x handle).run s = match x.run s with
      | (.ok a, s') => (.ok a, s')
      | (.error e, s') => (handle e).run s' := rfl

theorem run_transaction (x : Txn σ ε α) (s : σ) :
    (transaction x).run s = match x.run s with
      | (.ok a, s') => (.ok a, s')
      | (.error e, _) => (.error e, s) := rfl

theorem run_bind_ok (h : x.run s = (.ok a, s')) : (x >>= f).run s = (f a).run s' := by
  rw [run_bind, h]

theorem run_bind_error (h : x.run s = (.error e, s')) : (x >>= f).run s = (.error e, s') := by
  rw [run_bind, h]

theorem run_tryCatch_ok {handle : ε → Txn σ ε α} (h : x.run s = (.ok a, s')) :
    (tryCatch x handle).run s = (.ok a, s') := by
  rw [run_tryCatch, h]

theorem run_tryCatch_error {handle : ε → Txn σ ε α} (h : x.run s = (.error e, s')) :
    (tryCatch x handle).run s = (handle e).run s' := by
  rw [run_tryCatch, h]

/-- A transaction whose body returns commits the body's store. -/
theorem transaction_ok (h : x.run s = (.ok a, s')) : (transaction x).run s = (.ok a, s') := by
  rw [run_transaction, h]

/-- A transaction whose body throws leaves the store as it was. -/
theorem transaction_error (h : x.run s = (.error e, s')) :
    (transaction x).run s = (.error e, s) := by
  rw [run_transaction, h]

/-- The loop rule: `I done s` holds after the rounds of `done`, and no round throws. -/
theorem run_forM {g : α → Txn σ ε PUnit} {as : List α} (I : List α → σ → Prop) (h₀ : I [] s)
    (hround : ∀ done a s, a ∈ as → I done s →
      ∃ s', (g a).run s = (.ok ⟨⟩, s') ∧ I (done ++ [a]) s') :
    ∃ s', (as.forM g).run s = (.ok ⟨⟩, s') ∧ I as s' := by
  suffices h : ∀ done s, I done s → (∀ a ∈ as, ∀ done s, I done s →
      ∃ s', (g a).run s = (.ok ⟨⟩, s') ∧ I (done ++ [a]) s') →
      ∃ s', (as.forM g).run s = (.ok ⟨⟩, s') ∧ I (done ++ as) s' from
    h [] s h₀ fun a ha done s => hround done a s ha
  clear h₀ hround
  induction as with
  | nil => exact fun done s h _ => ⟨s, rfl, by rwa [List.append_nil]⟩
  | cons a as ih =>
    intro done s h hround
    obtain ⟨s₁, hrun, h₁⟩ := hround a List.mem_cons_self done s h
    obtain ⟨s₂, hrest, h₂⟩ :=
      ih (done ++ [a]) s₁ h₁ fun b hb => hround b (List.mem_cons_of_mem _ hb)
    refine ⟨s₂, ?_, by rwa [List.append_assoc] at h₂⟩
    show (g a >>= fun _ => as.forM g).run s = _
    rw [run_bind_ok hrun, hrest]

end Txn
