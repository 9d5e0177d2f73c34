import UsageBilling.Lib.InfiniteQuery
import UsageBilling.Pagination

/-!
# The usage history on screen (`frontend/src/UsageHistory.tsx`)

`UsageHistory` is an infinite query over `GET /customers/:id/usage-events`. The page that it shows
was fetched in parts, at different moments, from a ledger that grows meanwhile.

* `fetchUsageEvents`: the request of one page; `usageEvents`: the query's source. The server's
  steps are those of `server P`: any requests of any clients.
* `Loaded`: the pages are one contiguous piece of the customer's rows, and the cursor after them is
  where the piece ends. `loaded_invariant`: this is an invariant of the query.
* `rows_contiguous`: what is displayed, in every state the component can reach.
-/

namespace UsageBilling

open InfiniteQuery

/-- The page size that the component asks for. -/
def PAGE_SIZE : Nat := 25

/-- `fetchUsageEvents(customerId, cursor, PAGE_SIZE)`: an answer other than a 200 is thrown. -/
def fetchUsageEvents (P : Prisma) (customerId : String) (cursor : Option Nat) (s : Store) :
    Option UsageEventsPage :=
  match getUsageEvents P customerId (pageQuery PAGE_SIZE cursor) s with
  | ⟨200, .page page⟩ => some page
  | _ => none

/-- The `queryFn` and the `getNextPageParam` of the component, over the running backend. -/
def usageEvents (P : Prisma) (customerId : String) :
    Source (Pool Store Task) (Act Request) UsageEventsPage Nat where
  world p act := (server P).act p act
  page p cursor := fetchUsageEvents P customerId cursor p.store
  next lastPage := lastPage.nextCursor

/-- The component, with the backend that it polls. -/
abbrev UsageHistory := Client (Pool Store Task) UsageEventsPage

/-- The component of one customer after some events; it is mounted while the backend is in the
state `p`. -/
def usageHistory (P : Prisma) (customerId : String) (p : Pool Store Task)
    (events : List (Event (Act Request))) : UsageHistory :=
  Client.run (usageEvents P customerId) { server := p } events

/-- The rows of the table. An error is shown instead of the rows. -/
def UsageHistory.rows (h : UsageHistory) : List LedgerEntry :=
  if h.isError then [] else h.pages.flatMap (·.data)

/-- The button for more rows is shown with the rows if there is a next page. -/
def UsageHistory.hasNextPage (h : UsageHistory) : Bool :=
  h.pages.getLast?.any (·.nextCursor.isSome)

/-! ## One contiguous piece -/

/-- The pages are one contiguous piece of `rows`: what follows it is after the cursor of the next
page, and nothing follows the last page. -/
def Loaded (S : Source (Pool Store Task) (Act Request) UsageEventsPage Nat)
    (rows : List LedgerEntry) (pages : List UsageEventsPage) : Prop :=
  ∃ front rest, rows = front ++ pages.flatMap (·.data) ++ rest ∧
    match S.param pages with
    | none => rest = []
    | some cursor => Rest (·.id) cursor rows rest

section Loaded

variable {P : Prisma} {customerId : String} {s : Store} {cursor : Option Nat}
  {rows rows' rest : List LedgerEntry} {page : UsageEventsPage} {pages : List UsageEventsPage}
  {S : Source (Pool Store Task) (Act Request) UsageEventsPage Nat}

theorem Loaded.nil (rows : List LedgerEntry) : Loaded S rows [] := ⟨[], rows, rfl, rfl⟩

/-- New rows come in front of the piece, and do not change what follows it. -/
theorem Loaded.grow (h : Loaded S rows pages) (hgrow : rows <:+ rows') : Loaded S rows' pages := by
  by_cases hnil : pages = []
  · subst hnil
    exact .nil rows'
  · obtain ⟨front, rest, hrows, hrest⟩ := h
    obtain ⟨newer, hnewer⟩ := id hgrow
    refine ⟨newer ++ front, rest, by rw [← hnewer, hrows]; simp only [List.append_assoc], ?_⟩
    rw [Source.param, List.getLast?_eq_some_getLast hnil] at hrest ⊢
    cases hnext : S.next (pages.getLast hnil) with
    | none => simpa only [hnext, Option.map_none] using hrest
    | some c =>
      simp only [hnext, Option.map_some] at hrest ⊢
      exact hrest.grow hgrow

/-- A request of a page where the cursor is a row of the customer. -/
theorem parse_page (hrest : Rest (·.id) cursor (s.rowsOf customerId) rest) :
    parseUsageQuery customerId (pageQuery PAGE_SIZE cursor) =
      .ok { customerId, cursor := cursor.map fun c : Nat => (c : Int), limit := PAGE_SIZE } := by
  refine parseUsageQuery_page (by decide) ?_
  rintro c rfl
  obtain ⟨e, he, rfl⟩ := mem_ledger_of_rest hrest
  exact (s.id_bound e he).1

/-- A page that was fetched is the next `PAGE_SIZE` rows after its cursor. -/
theorem page_of_fetch (hrest : Rest (·.id) cursor (s.rowsOf customerId) rest)
    (h : fetchUsageEvents P customerId cursor s = some page) :
    page = { data := rest.take PAGE_SIZE,
             nextCursor := if PAGE_SIZE < rest.length
              then (rest.take PAGE_SIZE).getLast?.map (·.id) else none } := by
  simp only [fetchUsageEvents, getUsageEvents, parse_page hrest] at h
  by_cases hcustomer : (s.customers.find? customerId).isSome = true
  · rw [if_pos hcustomer] at h
    by_cases hint : ∀ c, cursor = some c → P.int (c : Int) = true
    · rw [run_listUsageEvents PAGE_SIZE hrest hint] at h
      exact (Option.some.inj h).symm
    · simp only [not_forall, Bool.not_eq_true] at hint
      obtain ⟨c, rfl, hc⟩ := hint
      rw [run_listUsageEvents_refused rfl hc] at h
      cases h
  · rw [if_neg hcustomer] at h
    cases h

/-- One more page extends the piece. -/
theorem Loaded.snoc (h : Loaded (usageEvents P customerId) (s.rowsOf customerId) pages)
    (hparam : (usageEvents P customerId).param pages = some cursor)
    (hpage : fetchUsageEvents P customerId cursor s = some page) :
    Loaded (usageEvents P customerId) (s.rowsOf customerId) (pages ++ [page]) := by
  obtain ⟨front, rest, hrows, hrest⟩ := h
  rw [hparam] at hrest
  obtain rfl := page_of_fetch hrest hpage
  refine ⟨front, rest.drop PAGE_SIZE, ?_, ?_⟩
  · rw [List.flatMap_append, List.flatMap_singleton, hrows]
    simp only [List.append_assoc, List.take_append_drop]
  · rw [Source.param_concat]
    simp only [usageEvents]
    by_cases hlt : PAGE_SIZE < rest.length
    · obtain ⟨e, -, hlast, hnext⟩ := hrest.next (by decide) hlt
      simp only [if_pos hlt, hlast, Option.map_some]
      exact hnext
    · simp only [if_neg hlt, Option.map_none]
      exact List.drop_of_length_le (Nat.le_of_not_lt hlt)

end Loaded

theorem loaded_invariant (P : Prisma) (customerId : String) :
    Invariant (usageEvents P customerId)
      fun p pages => Loaded (usageEvents P customerId) (p.store.rowsOf customerId) pages where
  nil p := .nil _
  world p act pages h := by
    obtain ⟨es, hes⟩ := run_postings P p [act]
    exact h.grow (hes.rowsOf customerId)
  page p pages cursor page h hparam hpage := h.snoc hparam hpage

/-! ## What is displayed -/

/-- `shown` is one contiguous piece of the ledger of a customer, newest first. -/
structure Contiguous (s : Store) (customerId : String) (shown : List LedgerEntry) : Prop where
  own : ∀ e ∈ shown, e ∈ s.ledger ∧ e.customerId = customerId
  descending : shown.Pairwise fun a b => b.id < a.id
  /-- No row between two of them is missing. -/
  between : ∀ a ∈ shown, ∀ b ∈ shown, ∀ e ∈ s.ledger, e.customerId = customerId →
    a.id ≤ e.id → e.id ≤ b.id → e ∈ shown

/-- A row that is not newer than one of the middle part is in it or behind it. -/
theorem mem_of_not_newer {front shown rest : List LedgerEntry} {b e : LedgerEntry}
    (hdesc : (front ++ shown ++ rest).Pairwise fun a b => b.id < a.id) (hb : b ∈ shown)
    (he : e ∈ front ++ shown ++ rest) (hle : e.id ≤ b.id) : e ∈ shown ++ rest := by
  rw [List.append_assoc] at hdesc he
  rcases List.mem_append.mp he with he | he
  · have := (List.pairwise_append.mp hdesc).2.2 e he b (List.mem_append_left _ hb)
    omega
  · exact he

theorem contiguous_of_rows {s : Store} {customerId : String} {front shown rest : List LedgerEntry}
    (h : s.rowsOf customerId = front ++ shown ++ rest) : Contiguous s customerId shown := by
  have hdesc := h ▸ rowsOf_descending s customerId
  refine ⟨fun e he => mem_rowsOf.mp (by rw [h]; simp [he]), ?_, ?_⟩
  · rw [List.append_assoc] at hdesc
    exact (List.pairwise_append.mp (List.pairwise_append.mp hdesc).2.1).1
  · intro a ha b hb e he hid hae heb
    have hmem := mem_of_not_newer hdesc hb (h ▸ mem_rowsOf.mpr ⟨he, hid⟩) heb
    rcases List.mem_append.mp hmem with hmem | hmem
    · exact hmem
    · have := (List.pairwise_append.mp hdesc).2.2 a (List.mem_append_right _ ha) e hmem
      omega

/-- Whatever load-mores, polls, cancelled or failed fetches and requests of any clients came before,
the displayed rows are one contiguous piece of the customer's ledger. If rows are displayed without
the button for more rows, all older rows are displayed too. -/
theorem rows_contiguous (P : Prisma) (customerId : String) (p : Pool Store Task)
    (events : List (Event (Act Request))) :
    let h := usageHistory P customerId p events
    Contiguous h.server.store customerId h.rows ∧
      (h.rows ≠ [] → h.hasNextPage = false → ∀ b ∈ h.rows, ∀ e ∈ h.server.store.ledger,
        e.customerId = customerId → e.id ≤ b.id → e ∈ h.rows) := by
  intro h
  have hloaded : Loaded (usageEvents P customerId) (h.server.store.rowsOf customerId) h.pages :=
    run_invariant (loaded_invariant P customerId) p events
  obtain ⟨front, rest, hrows, hrest⟩ := hloaded
  unfold UsageHistory.rows
  split
  · exact ⟨⟨by simp, .nil, by simp⟩, by simp⟩
  · refine ⟨contiguous_of_rows hrows, fun hne hmore b hb e he hid hle => ?_⟩
    have hlast : (usageEvents P customerId).param h.pages = none :=
      Source.param_eq_none _ (by rintro hnil; simp [hnil] at hne) hmore
    rw [hlast] at hrest
    have hmem := mem_of_not_newer (hrows ▸ rowsOf_descending _ customerId) hb
      (hrows ▸ mem_rowsOf.mpr ⟨he, hid⟩) hle
    rwa [show rest = [] from hrest, List.append_nil] at hmem

/-- Top-ups of one customer by the requests with these indices. -/
def creditsBy (indices : List Nat) : List (Act Request) :=
  indices.flatMap fun i => [.submit (.credit ⟨"c1", 10⟩), .advance i]

-- Two pages of 30 rows are loaded. A poll follows a top-up, and another top-up commits between the
-- requests of its pages: that row is not shown yet.
example :
    (usageHistory .sqlite "c1" (serve .sqlite (shop 100) (creditsBy (List.range 30)))
      ([.refetch, .respond, .receive, .loadMore, .respond, .receive] ++
        (creditsBy [30]).map .world ++ [.refetch, .respond, .receive] ++
        (creditsBy [31]).map .world ++ [.respond, .receive])).rows.map (·.id) =
      (List.range 31).map (31 - ·) := by
  decide +kernel

end UsageBilling
