import UsageBilling.Lib.Seek
import UsageBilling.Server

/-!
# Paging through the usage history

`usageWalk` follows `nextCursor` over `GET /customers/:id/usage-events` while other requests run
between the pages.

* `getUsageEvents_page`: one page, from what follows its cursor in the customer's rows.
* `usageWalk_complete`: the pages together are the rows of the customer at the first page.
-/

namespace UsageBilling

/-- The customer's rows, newest first. -/
def Store.rowsOf (s : Store) (customerId : String) : List LedgerEntry :=
  (s.ledger.filter (·.customerId = customerId)).reverse

section Rows

variable {P : Prisma} {s s' : Store} {customerId : String} {cursor : Option Nat}
  {rest : List LedgerEntry}

theorem rowsOf_descending (s : Store) (customerId : String) :
    (s.rowsOf customerId).Pairwise fun a b => b.id < a.id := by
  rw [Store.rowsOf, List.pairwise_reverse]
  exact s.id_ascending.filter _

theorem mem_rowsOf {e : LedgerEntry} :
    e ∈ s.rowsOf customerId ↔ e ∈ s.ledger ∧ e.customerId = customerId := by
  rw [Store.rowsOf, List.mem_reverse, List.mem_filter, decide_eq_true_eq]

theorem mem_ledger_of_rowsOf {e : LedgerEntry} (h : e ∈ s.rowsOf customerId) : e ∈ s.ledger :=
  (mem_rowsOf.mp h).1

/-- New rows come in front. -/
theorem Postings.rowsOf {es : List LedgerEntry} (h : Postings P s es s') (customerId : String) :
    s.rowsOf customerId <:+ s'.rowsOf customerId := by
  rw [Store.rowsOf, Store.rowsOf, h.ledger, List.filter_append, List.reverse_append]
  exact List.suffix_append _ _

/-- The row of the cursor, when rows follow it. -/
theorem mem_ledger_of_rest {c : Nat} (h : Rest (·.id) (some c) (s.rowsOf customerId) rest) :
    ∃ e ∈ s.ledger, e.id = c := by
  obtain ⟨front, e, hrows, hid⟩ := h
  exact ⟨e, mem_ledger_of_rowsOf (by rw [hrows]; simp), hid⟩

/-! ## One page -/

theorem upToCursor_eq {c : Nat} (hc : ∃ e ∈ s.ledger, e.id = c) (e : LedgerEntry) :
    s.upToCursor (c : Int) e = decide (e.id ≤ c) := by
  unfold Store.upToCursor
  cases hfind : s.ledger.find? fun e => (e.id : Int) = (c : Int) with
  | none =>
    obtain ⟨e', he', hid⟩ := hc
    have := List.find?_eq_none.mp hfind e' he'
    simp [hid] at this
  | some e' =>
    have hid : e'.id = c := by simpa using List.find?_some hfind
    rw [Option.any_some, hid]

/-- The rows that a page reads: the page and one more row, if there is one. -/
theorem run_findMany (take : Nat) (hrest : Rest (·.id) cursor (s.rowsOf customerId) rest)
    (hint : ∀ c, cursor = some c → P.int (c : Int) = true) :
    (LedgerEntry.findMany P customerId (cursor.map fun c : Nat => (c : Int)) take).run s =
      (.ok (rest.take take), s) := by
  have hseek := hrest.seek_eq (rowsOf_descending s customerId)
  cases cursor with
  | none =>
    simp only [LedgerEntry.findMany, Txn.run_reading, Option.map_none, ← hseek, seek,
      Store.rowsOf]
  | some c =>
    have hfilter : (s.ledger.filter fun e => e.customerId = customerId && s.upToCursor c e) =
        (s.ledger.filter (·.customerId = customerId)).filter fun e => e.id ≤ c := by
      rw [List.filter_filter]
      refine List.filter_congr fun e _ => ?_
      rw [upToCursor_eq (mem_ledger_of_rest hrest), Bool.and_comm]
    simp only [LedgerEntry.findMany, Txn.run_reading, Option.map_some, hint c rfl, ↓reduceIte,
      hfilter, ← hseek, seek, Store.rowsOf, List.filter_reverse]

/-- One page of the service. -/
theorem run_listUsageEvents (limit : Nat)
    (hrest : Rest (·.id) cursor (s.rowsOf customerId) rest)
    (hint : ∀ c, cursor = some c → P.int (c : Int) = true) :
    (listUsageEvents P { customerId, cursor := cursor.map fun c : Nat => (c : Int), limit }).run s =
      (.ok { data := rest.take limit,
             nextCursor := if limit < rest.length then (rest.take limit).getLast?.map (·.id)
              else none }, s) := by
  simp only [listUsageEvents, Txn.run_bind, run_findMany (limit + 1) hrest hint, Txn.run_pure,
    gt_iff_lt, probe_length, probe_take]

/-- Prisma refuses a cursor outside the range of `Int`. -/
theorem run_listUsageEvents_refused {input : UsageEventsInput} {c : Int}
    (hc : input.cursor = some c) (hint : P.int c = false) :
    (listUsageEvents P input).run s = (.error (.prisma .intRange), s) := by
  simp only [listUsageEvents, Txn.run_bind, LedgerEntry.findMany, hc, hint, Txn.run_reading,
    Bool.false_eq_true, ↓reduceIte]

/-- The query of a page of `size` rows. -/
def pageQuery (size : Nat) (cursor : Option Nat) : UsageQuery where
  limit := some (.finite ((size : Int) : ℚ))
  cursor := cursor.map fun c : Nat => .finite ((c : Int) : ℚ)

theorem parseUsageQuery_page {size : Nat} (hsize : 1 ≤ size) (hcur : ∀ c, cursor = some c → 0 < c) :
    parseUsageQuery customerId (pageQuery size cursor) =
      .ok { customerId, cursor := cursor.map fun c : Nat => (c : Int),
            limit := min size MAX_USAGE_LIMIT } := by
  have hlimit : (Js.Number.finite ((size : Int) : ℚ)).notPositiveInteger = false := by
    rw [Js.Number.notPositiveInteger_intCast, decide_eq_false_iff_not]
    omega
  simp only [parseUsageQuery, pageQuery, hlimit, Bool.false_eq_true, ↓reduceIte,
    Js.Number.toInt_intCast, Int.toNat_natCast]
  cases cursor with
  | none => rfl
  | some c =>
    have hc : (Js.Number.finite ((c : Int) : ℚ)).notPositiveInteger = false := by
      have := hcur c rfl
      rw [Js.Number.notPositiveInteger_intCast, decide_eq_false_iff_not]
      omega
    simp only [Option.map_some, parseUsageQuery.parseCursor, hc, Bool.false_eq_true, ↓reduceIte,
      Js.Number.toInt_intCast]

/-- One page of the route. -/
theorem getUsageEvents_page {size : Nat} (hsize : 1 ≤ size)
    (hcustomer : (s.customers.find? customerId).isSome)
    (hrest : Rest (·.id) cursor (s.rowsOf customerId) rest)
    (hint : ∀ c, cursor = some c → P.int (c : Int) = true) :
    getUsageEvents P customerId (pageQuery size cursor) s =
      ⟨200, .page { data := rest.take (min size MAX_USAGE_LIMIT),
                    nextCursor := if min size MAX_USAGE_LIMIT < rest.length
                      then (rest.take (min size MAX_USAGE_LIMIT)).getLast?.map (·.id)
                      else none }⟩ := by
  have hpos : ∀ c, cursor = some c → 0 < c := by
    rintro c rfl
    obtain ⟨e, he, rfl⟩ := mem_ledger_of_rest hrest
    exact (s.id_bound e he).1
  simp only [getUsageEvents, parseUsageQuery_page hsize hpos, hcustomer, ↓reduceIte,
    run_listUsageEvents (min size MAX_USAGE_LIMIT) hrest hint]

end Rows

/-! ## The walk -/

/-- Follows `nextCursor` until it is null: page `k` has the size `sizes k`, and after it the
schedule `between k` runs. `none` if more than `fuel` pages are needed, or a request fails. -/
def usageWalk (P : Prisma) (customerId : String) (sizes : Nat → Nat)
    (between : Nat → List (Act Request)) :
    Nat → Nat → Option Nat → Pool Store Task → Option (List UsageEventsPage)
  | 0, _, _, _ => none
  | fuel + 1, k, cursor, p =>
    match getUsageEvents P customerId (pageQuery (sizes k) cursor) p.store with
    | ⟨200, .page page⟩ =>
      match page.nextCursor with
      | none => some [page]
      | some c =>
        (usageWalk P customerId sizes between fuel (k + 1) (some c)
          ((server P).run p (between k))).map (page :: ·)
    | _ => none

/-- The pages from page `k` on hold the rows `rest`: every page but the last is full and has a next
cursor. -/
structure Pages (sizes : Nat → Nat) (k : Nat) (rest : List LedgerEntry)
    (pages : List UsageEventsPage) : Prop where
  data : pages.flatMap (·.data) = rest
  length : pages.length ≤ max 1 rest.length
  full : ∀ i page, pages[i]? = some page → i + 1 < pages.length →
    page.data.length = min (sizes (k + i)) MAX_USAGE_LIMIT ∧ page.nextCursor.isSome
  last : ∃ page, pages.getLast? = some page ∧ page.nextCursor = none

section Walk

variable {P : Prisma} {customerId : String} {sizes : Nat → Nat}
  {between : Nat → List (Act Request)} {k fuel : Nat} {cursor : Option Nat}
  {p : Pool Store Task} {rest : List LedgerEntry}

theorem Pages.one : Pages sizes k rest [{ data := rest, nextCursor := none }] where
  data := by simp
  length := by simp
  full i page _ hi := by simp at hi
  last := ⟨_, rfl, rfl⟩

/-- A full page in front of the pages of the other rows. -/
theorem Pages.cons {n c : Nat} {pages : List UsageEventsPage}
    (hn : n = min (sizes k) MAX_USAGE_LIMIT) (hpos : 0 < n) (hlt : n < rest.length)
    (h : Pages sizes (k + 1) (rest.drop n) pages) :
    Pages sizes k rest ({ data := rest.take n, nextCursor := some c } :: pages) where
  data := by rw [List.flatMap_cons, h.data, List.take_append_drop]
  length := by
    have := h.length
    rw [List.length_drop] at this
    rw [List.length_cons]
    omega
  full i page hi hlen := by
    cases i with
    | zero =>
      obtain rfl := Option.some.inj hi
      exact ⟨by rw [List.length_take, Nat.min_eq_left (by omega), hn, Nat.add_zero], rfl⟩
    | succ i =>
      rw [List.length_cons] at hlen
      rw [show k + (i + 1) = k + 1 + i by omega]
      exact h.full i page hi (by omega)
  last := by
    obtain ⟨page, hpage, hnone⟩ := h.last
    exact ⟨page, by rw [List.getLast?_cons, hpage]; rfl, hnone⟩

/-- The walk from a cursor that `rest` follows gives the pages of `rest`. -/
theorem usageWalk_pages (hsize : ∀ k, 1 ≤ sizes k)
    (hfuel : max 1 rest.length ≤ fuel) (hcustomer : (p.store.customers.find? customerId).isSome)
    (hrest : Rest (·.id) cursor (p.store.rowsOf customerId) rest)
    (hint : ∀ c, cursor = some c → P.int (c : Int) = true)
    (hid : ∀ e ∈ rest, P.int (e.id : Int) = true) :
    ∃ pages, usageWalk P customerId sizes between fuel k cursor p = some pages ∧
      Pages sizes k rest pages := by
  induction fuel generalizing k cursor p rest with
  | zero => omega
  | succ fuel ih =>
    have hpos : 0 < min (sizes k) MAX_USAGE_LIMIT := by
      have := hsize k
      simp only [MAX_USAGE_LIMIT]
      omega
    rw [usageWalk, getUsageEvents_page (hsize k) hcustomer hrest hint]
    generalize hn : min (sizes k) MAX_USAGE_LIMIT = n at hpos
    by_cases hlt : n < rest.length
    · -- a full page: the next one starts after its last row
      obtain ⟨e, he, hlast, hnext⟩ := hrest.next hpos hlt
      obtain ⟨es, hes⟩ := run_postings P p (between k)
      have hcustomer' :
          (((server P).run p (between k)).store.customers.find? customerId).isSome := by
        rw [hes.find?, Option.isSome_map]
        exact hcustomer
      have hfuel' : max 1 (rest.drop n).length ≤ fuel := by
        rw [List.length_drop]
        omega
      obtain ⟨pages, hpages, h⟩ : ∃ pages, usageWalk P customerId sizes between fuel (k + 1)
          (some e.id) ((server P).run p (between k)) = some pages ∧
          Pages sizes (k + 1) (rest.drop n) pages :=
        ih hfuel' hcustomer' (hnext.grow (hes.rowsOf customerId))
          (fun c hc => Option.some.inj hc ▸ hid e he) fun e he => hid e (List.mem_of_mem_drop he)
      refine ⟨⟨rest.take n, some e.id⟩ :: pages, ?_, h.cons hn.symm hpos hlt⟩
      simp only [hlt, ↓reduceIte, hlast, Option.map_some, hpages]
    · refine ⟨[⟨rest, none⟩], ?_, .one⟩
      simp only [hlt, ↓reduceIte, List.take_of_length_le (Nat.le_of_not_lt hlt)]

/-- Whatever requests run between the pages, the walk ends after at most `max 1 n` requests, where
`n` is the number of the customer's rows at the first one, and its pages are exactly these rows,
each once and in strictly descending order of their ids. The ids are in the range of `Int`. -/
theorem usageWalk_complete (P : Prisma) (customerId : String) (sizes : Nat → Nat)
    (between : Nat → List (Act Request)) (p : Pool Store Task) (hsize : ∀ k, 1 ≤ sizes k)
    (hcustomer : (p.store.customers.find? customerId).isSome)
    (hid : ∀ e ∈ p.store.rowsOf customerId, P.int (e.id : Int) = true) :
    ∃ pages, usageWalk P customerId sizes between
        (max 1 (p.store.rowsOf customerId).length) 0 none p = some pages ∧
      Pages sizes 0 (p.store.rowsOf customerId) pages ∧
      (p.store.rowsOf customerId).Pairwise fun a b => b.id < a.id := by
  obtain ⟨pages, hpages, h⟩ : ∃ pages, usageWalk P customerId sizes between
      (max 1 (p.store.rowsOf customerId).length) 0 none p = some pages ∧
      Pages sizes 0 (p.store.rowsOf customerId) pages :=
    usageWalk_pages hsize (Nat.le_refl _) hcustomer rfl (fun c hc => by cases hc) hid
  exact ⟨pages, hpages, h, rowsOf_descending _ _⟩

/-- Three top-ups of Ada, whose steps run at once. -/
def topUps : List (Act Request) :=
  [.submit (.credit ⟨"c1", 10⟩), .advance 0, .submit (.credit ⟨"c1", 20⟩), .advance 1,
    .submit (.credit ⟨"c1", 30⟩), .advance 2]

theorem usageWalk_complete_topUps :
    ∃ pages, usageWalk .sqlite "c1" (fun _ => 2)
        (fun _ => [.submit (.consume (purchase "c1")), .advance 3, .advance 3]) 3 0 none
        (serve .sqlite (shop 100) topUps) = some pages ∧
      pages.flatMap (·.data) = (serve .sqlite (shop 100) topUps).store.rowsOf "c1" :=
  have ⟨pages, hpages, h, _⟩ := usageWalk_complete .sqlite "c1" (fun _ => 2)
    (fun _ => [.submit (.consume (purchase "c1")), .advance 3, .advance 3])
    (serve .sqlite (shop 100) topUps) (fun _ => by decide) (by decide) (by decide)
  ⟨pages, hpages, h.data⟩

end Walk

end UsageBilling
