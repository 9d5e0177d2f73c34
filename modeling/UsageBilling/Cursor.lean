import UsageBilling.Pagination

/-!
# A page at any cursor

`listUsageEvents` documents its cursor as the seek `WHERE id < cursor`. The route accepts every
positive integer, also the id of another customer's row and an id that no row has.

* `seekPage`: the page of the documented seek.
* `run_listUsageEvents_cursor`: the page that the service returns for any cursor.
* `listUsageEvents_seek_iff`: exactly when the two are the same.
-/

namespace UsageBilling

/-- The first `limit` of the rows `rest`, with the cursor of the next page if there are more. -/
def pageOf (rest : List LedgerEntry) (limit : Nat) : UsageEventsPage where
  data := rest.take limit
  nextCursor := if limit < rest.length then (rest.take limit).getLast?.map (·.id) else none

/-- The customer's rows with `id < cursor`, newest first. -/
def Store.olderThan (s : Store) (customerId : String) (cursor : Int) : List LedgerEntry :=
  (s.rowsOf customerId).filter fun e => (e.id : Int) < cursor

/-- `WHERE id < cursor ORDER BY id DESC LIMIT limit` -/
def seekPage (s : Store) (customerId : String) (cursor : Int) (limit : Nat) : UsageEventsPage :=
  pageOf (s.olderThan customerId cursor) limit

section Cursor

variable {P : Prisma} {s : Store} {customerId : String} {cursor : Int} {limit : Nat}

/-- The service's page, from the rows that `upToCursor` selects, without the first one. -/
theorem run_listUsageEvents_cursor (s : Store) (customerId : String) (limit : Nat)
    (hint : P.int cursor = true) :
    (listUsageEvents P { customerId, cursor := some cursor, limit }).run s =
      (.ok (pageOf (((s.rowsOf customerId).filter (s.upToCursor cursor)).drop 1) limit), s) := by
  have hrows : (s.ledger.filter fun e => e.customerId = customerId && s.upToCursor cursor e).reverse
      = (s.rowsOf customerId).filter (s.upToCursor cursor) := by
    rw [Store.rowsOf, List.filter_reverse, List.filter_filter]
    simp only [Bool.and_comm]
  simp only [listUsageEvents, Txn.run_bind, LedgerEntry.findMany, Txn.run_reading, hint, ↓reduceIte,
    hrows, Txn.run_pure, gt_iff_lt, probe_length, probe_take, pageOf]

/-- The rows up to a cursor that is the id of some row. -/
theorem filter_upToCursor (h : ∃ e ∈ s.ledger, (e.id : Int) = cursor) :
    (s.rowsOf customerId).filter (s.upToCursor cursor) =
      (s.rowsOf customerId).filter fun e => (e.id : Int) ≤ cursor := by
  obtain ⟨e₀, he₀, rfl⟩ := h
  refine List.filter_congr fun e _ => ?_
  rw [upToCursor_eq ⟨e₀, he₀, rfl⟩, decide_eq_decide, Int.ofNat_le]

/-- A cursor that no row has selects nothing. -/
theorem upToCursor_absent (h : ¬ ∃ e ∈ s.ledger, (e.id : Int) = cursor) (e : LedgerEntry) :
    s.upToCursor cursor e = false := by
  have hnone : s.ledger.find? (fun c => (c.id : Int) = cursor) = none := by
    rw [List.find?_eq_none]
    intro e he heq
    exact h ⟨e, he, by simpa using heq⟩
  rw [Store.upToCursor, hnone, Option.any_none]

theorem rowsOf_descending_int (s : Store) (customerId : String) :
    (s.rowsOf customerId).Pairwise fun a b => (b.id : Int) < a.id :=
  (rowsOf_descending s customerId).imp fun h => Int.ofNat_lt.mpr h

/-- A cursor that is the customer's own row. -/
theorem selected_own (h : ∃ e ∈ s.rowsOf customerId, (e.id : Int) = cursor) :
    ((s.rowsOf customerId).filter (s.upToCursor cursor)).drop 1 =
      s.olderThan customerId cursor := by
  obtain ⟨e, he, rfl⟩ := h
  rw [filter_upToCursor ⟨e, mem_ledger_of_rowsOf he, rfl⟩,
    filter_le_of_mem (rowsOf_descending_int s customerId) he]
  rfl

/-- Any other cursor loses rows: the newest one of the documented page, or all of them. -/
theorem selected_foreign (h : ¬ ∃ e ∈ s.rowsOf customerId, (e.id : Int) = cursor) :
    ((s.rowsOf customerId).filter (s.upToCursor cursor)).drop 1 =
        (s.olderThan customerId cursor).drop 1 ∨
      ((s.rowsOf customerId).filter (s.upToCursor cursor)).drop 1 = [] := by
  by_cases hrow : ∃ e ∈ s.ledger, (e.id : Int) = cursor
  · left
    rw [filter_upToCursor hrow, Store.olderThan, filter_le_of_not_mem]
    exact fun e he heq => h ⟨e, he, heq⟩
  · right
    rw [List.filter_eq_nil_iff.mpr fun e _ => by simp [upToCursor_absent hrow e]]
    rfl

theorem olderThan_eq_nil : s.olderThan customerId cursor = [] ↔
    ∀ e ∈ s.rowsOf customerId, cursor ≤ e.id := by
  rw [Store.olderThan, List.filter_eq_nil_iff]
  refine forall₂_congr fun e _ => ?_
  rw [decide_eq_true_eq, Int.not_lt]

/-- A page shows its first row. -/
theorem head?_pageOf (hlimit : 1 ≤ limit) (rest : List LedgerEntry) :
    (pageOf rest limit).data.head? = rest.head? := by
  obtain ⟨n, rfl⟩ := Nat.exists_eq_add_of_le' hlimit
  cases rest <;> rfl

/-- No page of other rows shows the newest one of `older`. -/
theorem pageOf_ne {older rest : List LedgerEntry} (hlimit : 1 ≤ limit)
    (hdesc : older.Pairwise fun a b => b.id < a.id) (hne : older ≠ [])
    (hrest : rest = older.drop 1 ∨ rest = []) : pageOf rest limit ≠ pageOf older limit := by
  intro heq
  have hhead : rest.head? = older.head? := by
    rw [← head?_pageOf hlimit rest, heq, head?_pageOf hlimit]
  obtain ⟨e, older, rfl⟩ := List.exists_cons_of_ne_nil hne
  rcases hrest with rfl | rfl
  · have he := List.mem_of_head? hhead
    have := List.rel_of_pairwise_cons hdesc he
    omega
  · cases hhead

end Cursor

/-- For every cursor that Prisma accepts, the page is the documented seek exactly if the cursor is
the id of one of the customer's rows, or the customer has no older row. -/
theorem listUsageEvents_seek_iff (P : Prisma) (s : Store) (customerId : String) (cursor : Int)
    (limit : Nat) (hlimit : 1 ≤ limit) (hint : P.int cursor = true) :
    ((listUsageEvents P { customerId, cursor := some cursor, limit }).run s).1 =
        .ok (seekPage s customerId cursor limit) ↔
      (∃ e ∈ s.ledger, e.customerId = customerId ∧ (e.id : Int) = cursor) ∨
        ∀ e ∈ s.ledger, e.customerId = customerId → cursor ≤ e.id := by
  have hown : (∃ e ∈ s.ledger, e.customerId = customerId ∧ (e.id : Int) = cursor) ↔
      ∃ e ∈ s.rowsOf customerId, (e.id : Int) = cursor := by
    simp only [mem_rowsOf, and_assoc]
  have hnone : (∀ e ∈ s.ledger, e.customerId = customerId → cursor ≤ e.id) ↔
      s.olderThan customerId cursor = [] := by
    rw [olderThan_eq_nil]
    simp only [mem_rowsOf, and_imp]
  rw [run_listUsageEvents_cursor s customerId limit hint, hown, hnone, Except.ok.injEq, seekPage]
  by_cases hrow : ∃ e ∈ s.rowsOf customerId, (e.id : Int) = cursor
  · rw [selected_own hrow]
    exact ⟨fun _ => .inl hrow, fun _ => rfl⟩
  · have hsel := selected_foreign hrow
    have hdesc := (rowsOf_descending s customerId).filter fun e => (e.id : Int) < cursor
    refine ⟨fun heq => .inr ?_, fun h => ?_⟩
    · by_contra hne
      exact pageOf_ne hlimit hdesc hne hsel heq
    · have hnil := h.resolve_left hrow
      rw [hnil, List.drop_nil, or_self] at hsel
      rw [hsel, hnil]

/-- Ada's rows have the ids 1 and 3, and Bob's row between them has the id 2. -/
def sharedLedger : Store :=
  (serve .sqlite (shop 100) [.submit (.credit ⟨"c1", 10⟩), .advance 0,
    .submit (.credit ⟨"c2", 20⟩), .advance 1, .submit (.credit ⟨"c1", 30⟩), .advance 2]).store

theorem listUsageEvents_seek_iff_own :
    ((listUsageEvents .sqlite { customerId := "c1", cursor := some 3, limit := 25 }).run
      sharedLedger).1 = .ok (seekPage sharedLedger "c1" 3 25) :=
  (listUsageEvents_seek_iff .sqlite sharedLedger "c1" 3 25 (by decide) (by decide)).mpr
    (.inl (by decide))

/-- At the id of Bob's row, Ada's page misses her older row. -/
theorem listUsageEvents_not_seek : ¬ ∀ (P : Prisma) (s : Store) (customerId : String) (cursor : Int)
    (limit : Nat), 1 ≤ limit → 1 ≤ cursor → P.int cursor = true →
    ((listUsageEvents P { customerId, cursor := some cursor, limit }).run s).1 =
      .ok (seekPage s customerId cursor limit) := by
  intro h
  have := h .sqlite sharedLedger "c1" 2 25 (by decide) (by decide) (by decide)
  revert this
  decide

end UsageBilling
