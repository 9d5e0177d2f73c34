import Mathlib.Data.List.Induction

/-!
# An infinite query: pages that a client loads from a server that changes

The client holds the pages it has loaded and runs at most one fetch at a time. A fetch extends a
list of pages, one request after the other, and replaces the loaded pages at its end.

* `Source`: the server's side: its steps, the answer to the request of a page, and the cursor of
  the page after a given one.
* `Client.step`: the client's side (`refetch`, `loadMore`, `cancel`, `fail`), the two ends of a
  request (`respond`, `receive`), and a step of the server at any time (`world`).
* `run_invariant`: the invariant rule. What holds of a list of pages, stays when the server takes
  a step, and is kept by one more page, holds of the loaded pages of every reachable client.
-/

namespace InfiniteQuery

/-- The server that a client loads pages of type `π` from: `σ` is its state, `ω` its steps. -/
structure Source (σ ω π κ : Type) where
  world : σ → ω → σ
  /-- The page at a cursor (`none`: the first page). The result is `none` if the request fails. -/
  page : σ → Option κ → Option π
  /-- The cursor of the page after this one, unless it is the last page. -/
  next : π → Option κ

/-- A fetch in flight: it extends the pages `base` up to `target` pages. -/
structure Fetch (π : Type) where
  base : List π
  target : Nat
  /-- The answer on its way to the client; `some none` is an error. -/
  answer : Option (Option π) := none

/-- The query of a client, with the server it asks. -/
structure Client (σ π : Type) where
  server : σ
  /-- The loaded pages; none before the first fetch has ended. -/
  pages : List π := []
  fetch : Option (Fetch π) := none
  /-- The last fetch that ended has failed. -/
  isError : Bool := false

/-- What happens to the query. -/
inductive Event (ω : Type) where
  | world (w : ω)
  /-- A poll, or an invalidation. -/
  | refetch
  | loadMore
  /-- The server computes the answer to the request of the fetch, maybe again. -/
  | respond
  /-- The answer reaches the client. -/
  | receive
  | cancel
  | fail

variable {σ ω π κ : Type}

namespace Source

variable (S : Source σ ω π κ)

/-- The cursor of the page after `pages`: no cursor for the first page, and `none` after the last
page. -/
def param (pages : List π) : Option (Option κ) :=
  match pages.getLast? with
  | none => some none
  | some last => (S.next last).map some

/-- `hasNextPage` -/
def hasNextPage (pages : List π) : Bool := pages.getLast?.any fun last => (S.next last).isSome

theorem param_concat (pages : List π) (page : π) :
    S.param (pages ++ [page]) = (S.next page).map some := by
  simp only [param, List.getLast?_concat]

/-- After loaded pages that are not the last ones there is a cursor. -/
theorem param_eq_none {pages : List π} (hne : pages ≠ []) (h : S.hasNextPage pages = false) :
    S.param pages = none := by
  rw [param, hasNextPage] at *
  rw [List.getLast?_eq_some_getLast hne] at h ⊢
  simpa using h

end Source

namespace Client

variable (S : Source σ ω π κ)

/-- A page has been received: the fetch goes on from `base`, or it ends and replaces the pages. -/
def received (c : Client σ π) (base : List π) (target : Nat) : Client σ π :=
  if base.length < target ∧ (S.param base).isSome then { c with fetch := some ⟨base, target, none⟩ }
  else { c with pages := base, fetch := none, isError := false }

/-- The query after an event. -/
def step (c : Client σ π) : Event ω → Client σ π
  | .world w => { c with server := S.world c.server w }
  | .refetch =>
    match c.fetch with
    | some _ => c
    | none => { c with fetch := some ⟨[], max 1 c.pages.length, none⟩ }
  | .loadMore =>
    match c.fetch with
    | some _ => c
    | none =>
      if S.hasNextPage c.pages then { c with fetch := some ⟨c.pages, c.pages.length + 1, none⟩ }
      else c
  | .respond =>
    match c.fetch with
    | none => c
    | some f =>
      match S.param f.base with
      | none => c
      | some cursor => { c with fetch := some { f with answer := some (S.page c.server cursor) } }
  | .receive =>
    match c.fetch with
    | some ⟨base, target, some (some page)⟩ => c.received S (base ++ [page]) target
    | some ⟨_, _, some none⟩ => { c with fetch := none, isError := true }
    | _ => c
  | .cancel => { c with fetch := none }
  | .fail =>
    match c.fetch with
    | none => c
    | some _ => { c with fetch := none, isError := true }

/-- The client after some events. -/
def run (c : Client σ π) (events : List (Event ω)) : Client σ π := events.foldl (step S) c

end Client

/-! ## The invariant rule -/

/-- What makes `I` an invariant of the pages that a client loads from `S`. -/
structure Invariant (S : Source σ ω π κ) (I : σ → List π → Prop) : Prop where
  nil : ∀ s, I s []
  /-- Stale pages stay good. -/
  world : ∀ s w pages, I s pages → I (S.world s w) pages
  page : ∀ s pages cursor page, I s pages → S.param pages = some cursor →
    S.page s cursor = some page → I s (pages ++ [page])

variable {S : Source σ ω π κ} {I : σ → List π → Prop}

/-- `I` holds of the loaded pages and of what a fetch has put together, with the page on its way. -/
structure Client.Ok (I : σ → List π → Prop) (c : Client σ π) : Prop where
  pages : I c.server c.pages
  base : ∀ f, c.fetch = some f → I c.server f.base
  answer : ∀ f page, c.fetch = some f → f.answer = some (some page) →
    I c.server (f.base ++ [page])

namespace Client.Ok

variable {c : Client σ π}

theorem init (hI : Invariant S I) (s : σ) : Ok I { server := s } where
  pages := hI.nil s
  base f h := by cases h
  answer f page h := by cases h

/-- The end of a fetch. -/
theorem stop (h : c.Ok I) (isError : Bool) : Ok I { c with fetch := none, isError } where
  pages := h.pages
  base f hf := by cases hf
  answer f page hf := by cases hf

/-- A fetch with no answer on its way. -/
theorem request (h : c.Ok I) {base : List π} {target : Nat} (hbase : I c.server base) :
    Ok I { c with fetch := some ⟨base, target, none⟩ } where
  pages := h.pages
  base f hf := by cases hf; exact hbase
  answer f page hf ha := by cases hf; cases ha

theorem received (h : c.Ok I) {base : List π} {target : Nat} (hbase : I c.server base) :
    (c.received S base target).Ok I := by
  unfold Client.received
  split
  · exact h.request hbase
  · exact ⟨hbase, fun f hf => (by cases hf), fun f page hf => (by cases hf)⟩

theorem step (hI : Invariant S I) (h : c.Ok I) (e : Event ω) : (c.step S e).Ok I := by
  cases e with
  | world w =>
    exact ⟨hI.world _ w _ h.pages, fun f hf => hI.world _ w _ (h.base f hf),
      fun f page hf ha => hI.world _ w _ (h.answer f page hf ha)⟩
  | refetch =>
    simp only [Client.step]
    split
    · exact h
    · exact h.request (hI.nil _)
  | loadMore =>
    simp only [Client.step]
    split
    · exact h
    · split
      · exact h.request h.pages
      · exact h
  | respond =>
    simp only [Client.step]
    cases hf : c.fetch with
    | none => exact h
    | some f =>
      cases hparam : S.param f.base with
      | none => simpa only [hparam] using h
      | some cursor =>
        simp only [hparam]
        refine ⟨h.pages, fun g hg => ?_, fun g page hg ha => ?_⟩
        · cases hg
          exact h.base f hf
        · cases hg
          exact hI.page _ _ cursor page (h.base f hf) hparam (Option.some.inj ha)
  | receive =>
    simp only [Client.step]
    split
    · rename_i base target page hf
      exact h.received (h.answer _ page hf rfl)
    · exact h.stop true
    · exact h
  | cancel => exact h.stop c.isError
  | fail =>
    simp only [Client.step]
    split
    · exact h
    · exact h.stop true

end Client.Ok

theorem Client.run_ok (hI : Invariant S I) {c : Client σ π} (h : c.Ok I) (events : List (Event ω)) :
    (c.run S events).Ok I := by
  induction events generalizing c with
  | nil => exact h
  | cons e events ih => exact ih (h.step hI e)

/-- The invariant rule: `I` holds of the loaded pages of every reachable client. -/
theorem run_invariant (hI : Invariant S I) (s : σ) (events : List (Event ω)) :
    I (Client.run S { server := s } events).server (Client.run S { server := s } events).pages :=
  (Client.run_ok hI (.init hI s) events).pages

end InfiniteQuery
