import Mathlib.Data.List.Induction

/-!
# A polled query: what a client shows of a server that changes

The client shows the data of its last successful fetch and runs at most one fetch at a time: a poll
joins the fetch in flight, an invalidation replaces it (but the very first fetch stays). A fetch
whose request fails waits and sends it again, a bounded number of times; only then it is an error.

* `Source`: the server's side: its steps, the request of a fetch, and the reply to it.
* `Source.Reads`: a reply is what `read` says of some state between the request and the reply.
* `Client.step`: the client's side. A fetch carries the server's states at which it started and at
  which its last request was sent; these states only number the moments of a run.
* `Ok.run`: in every reachable client, the data is what `read` says of an earlier state, and not
  of one after the start of the fetch in flight.
* `data_mono`: the data never goes back in time. `fresh_after`: data that arrives after a fetch
  has started anew is not older than that start.
* `poll`: a poll with all its attempts. `Tried`: after them the fetch has ended. `Told`: if all
  replies to it are the same, that one is shown. `run_attempts`: the rule for both.
-/

namespace Query

/-- The server that a client reads `α` from: `σ` is its state, `ω` its steps, and `κ` names a
request. -/
structure Source (σ ω κ α : Type) where
  world : σ → ω → σ
  /-- The step in which the client's request arrives. -/
  ask : ω
  /-- The name of a request that arrives in this state. -/
  ticket : σ → κ
  /-- The reply, if it is there; `some none` is an error. -/
  reply : σ → κ → Option (Option α)
  /-- How often a fetch sends a failed request again. -/
  retries : Nat

/-- A fetch in flight. -/
structure Fetch (σ : Type) where
  started : σ
  /-- The state in which its last request arrived. -/
  asked : σ
  /-- How many of its requests have failed. -/
  failures : Nat := 0
  /-- Its last request has failed, and it waits to send the next one. -/
  waiting : Bool := false

/-- What the client shows, and the server that it reads from. -/
structure Client (σ α : Type) where
  server : σ
  /-- The data of the last successful fetch. -/
  data : Option α := none
  fetch : Option (Fetch σ) := none
  isError : Bool := false
  /-- The number of successful fetches. -/
  updates : Nat := 0

/-- What happens to the query. -/
inductive Event (ω : Type) where
  | world (w : ω)
  /-- A poll, or the mount of a component. -/
  | refetch
  | invalidate
  /-- The fetch has waited, and sends its request again. -/
  | retry
  /-- The reply reaches the client. -/
  | receive
  /-- The request is lost, or its reply is. -/
  | fail

variable {σ ω κ α : Type}

/-- The server goes from `s` to `s'`. -/
def Source.Reaches (S : Source σ ω κ α) (s s' : σ) : Prop :=
  ∃ ws : List ω, s' = ws.foldl S.world s

/-- A reply is what `read` says of a state between the request and the reply. -/
def Source.Reads (S : Source σ ω κ α) (read : σ → Option α) : Prop :=
  ∀ s s' r, S.Reaches (S.world s S.ask) s' → S.reply s' (S.ticket s) = some r →
    ∃ s₁, S.Reaches (S.world s S.ask) s₁ ∧ S.Reaches s₁ s' ∧ read s₁ = r

namespace Source.Reaches

variable {S : Source σ ω κ α} {s s' s'' : σ}

theorem refl (s : σ) : S.Reaches s s := ⟨[], rfl⟩

theorem trans (h : S.Reaches s s') (h' : S.Reaches s' s'') : S.Reaches s s'' := by
  obtain ⟨ws, rfl⟩ := h
  obtain ⟨ws', rfl⟩ := h'
  exact ⟨ws ++ ws', by rw [List.foldl_append]⟩

theorem world (h : S.Reaches s s') (w : ω) : S.Reaches s (S.world s' w) := h.trans ⟨[w], rfl⟩

/-- The invariant rule. -/
theorem induction {I : σ → Prop} (h : S.Reaches s s') (hs : I s)
    (step : ∀ s₁ w, S.Reaches s s₁ → I s₁ → I (S.world s₁ w)) : I s' := by
  obtain ⟨ws, rfl⟩ := h
  induction ws using List.reverseRecOn with
  | nil => exact hs
  | append_singleton ws w ih =>
    rw [List.foldl_append]
    exact step _ w ⟨ws, rfl⟩ ih

end Source.Reaches

namespace Client

variable (S : Source σ ω κ α)

/-- A new fetch. An error is forgotten if there is no data yet. -/
def start (c : Client σ α) : Client σ α :=
  { c with
    server := S.world c.server S.ask
    fetch := some { started := c.server, asked := c.server }
    isError := c.isError && c.data.isSome }

/-- A request of the fetch has failed: it is sent again later, or the fetch ends. -/
def failed (c : Client σ α) (f : Fetch σ) : Client σ α :=
  if f.failures < S.retries then
    { c with fetch := some { f with failures := f.failures + 1, waiting := true } }
  else { c with fetch := none, isError := true }

/-- A reply to the request of the fetch. -/
def received (c : Client σ α) (f : Fetch σ) : Option α → Client σ α
  | none => c.failed S f
  | some a => { c with data := some a, fetch := none, isError := false, updates := c.updates + 1 }

/-- The request of the fetch is sent again. -/
def resend (c : Client σ α) (f : Fetch σ) : Client σ α :=
  { c with
    server := S.world c.server S.ask
    fetch := some { f with asked := c.server, waiting := false } }

/-- The fetch whose request is under way. -/
def asking (c : Client σ α) : Option (Fetch σ) := c.fetch.filter fun f => !f.waiting

/-- The fetch that waits to send its request again. -/
def resting (c : Client σ α) : Option (Fetch σ) := c.fetch.filter fun f => f.waiting

/-- The query after an event. -/
def step (c : Client σ α) : Event ω → Client σ α
  | .world w => { c with server := S.world c.server w }
  | .refetch => if c.fetch.isSome then c else c.start S
  | .invalidate => if c.fetch.isSome && c.data.isNone then c else c.start S
  | .retry =>
    match c.resting with
    | none => c
    | some f => c.resend S f
  | .receive =>
    match c.asking with
    | none => c
    | some f =>
      match S.reply c.server (S.ticket f.asked) with
      | none => c
      | some r => c.received S f r
  | .fail =>
    match c.asking with
    | none => c
    | some f => c.failed S f

/-- The client after some events. -/
def run (c : Client σ α) (events : List (Event ω)) : Client σ α := events.foldl (step S) c

variable {S} {c : Client σ α}

theorem run_append (c : Client σ α) (events events' : List (Event ω)) :
    c.run S (events ++ events') = (c.run S events).run S events' := List.foldl_append ..

theorem asking_eq_some {f : Fetch σ} :
    c.asking = some f ↔ c.fetch = some f ∧ f.waiting = false := by
  simp [asking, Option.filter_eq_some_iff]

theorem resting_eq_some {f : Fetch σ} :
    c.resting = some f ↔ c.fetch = some f ∧ f.waiting = true := by
  simp [resting, Option.filter_eq_some_iff]

/-- An event leaves the client as it is, but for the server; or it starts a fetch, sends a request
again or waits to do so, ends the fetch without data, or ends it with data. -/
inductive Step (S : Source σ ω κ α) (c : Client σ α) : Client σ α → Prop
  | stay : Step S c c
  | world (w : ω) : Step S c { c with server := S.world c.server w }
  | start : Step S c (c.start S)
  | retry (f : Fetch σ) (hf : c.fetch = some f) : Step S c (c.resend S f)
  | wait (f : Fetch σ) (hf : c.fetch = some f) (h : f.failures < S.retries) : Step S c
      { c with fetch := some { f with failures := f.failures + 1, waiting := true } }
  | stop (isError : Bool) : Step S c { c with fetch := none, isError }
  | update (f : Fetch σ) (a : α) (hf : c.fetch = some f)
      (h : S.reply c.server (S.ticket f.asked) = some (some a)) : Step S c
      { c with data := some a, fetch := none, isError := false, updates := c.updates + 1 }

theorem Step.failed {f : Fetch σ} (hf : c.fetch = some f) : c.Step S (c.failed S f) := by
  unfold Client.failed
  split
  · exact .wait f hf ‹_›
  · exact .stop true

theorem step_spec (S : Source σ ω κ α) (c : Client σ α) (e : Event ω) : c.Step S (c.step S e) := by
  cases e with
  | world w => exact .world w
  | refetch =>
    simp only [step]
    split
    · exact .stay
    · exact .start
  | invalidate =>
    simp only [step]
    split
    · exact .stay
    · exact .start
  | retry =>
    simp only [step]
    cases hf : c.resting with
    | none => exact .stay
    | some f => exact .retry f (resting_eq_some.mp hf).1
  | receive =>
    simp only [step]
    cases hf : c.asking with
    | none => exact .stay
    | some f =>
      have hfetch := (asking_eq_some.mp hf).1
      simp only []
      split
      · exact .stay
      · rename_i r h
        cases r with
        | none => exact .failed hfetch
        | some a => exact .update f a hfetch h
  | fail =>
    simp only [step]
    cases hf : c.asking with
    | none => exact .stay
    | some f => exact .failed (asking_eq_some.mp hf).1

/-- A reply changes nothing at the server. -/
theorem server_receive : (c.step S .receive).server = c.server := by
  simp only [step]
  split
  · rfl
  · split
    · rfl
    · rename_i r _
      cases r with
      | none =>
        simp only [received, failed]
        split <;> rfl
      | some a => rfl

/-- A fetch that goes on after a reply has asked what it had asked. -/
theorem fetch_receive {f : Fetch σ} (h : (c.step S .receive).fetch = some f) :
    ∃ g, c.fetch = some g ∧ f.asked = g.asked := by
  simp only [step] at h
  split at h
  · exact ⟨f, h, rfl⟩
  · rename_i g hg
    have hfetch := (asking_eq_some.mp hg).1
    split at h
    · exact ⟨f, h, rfl⟩
    · rename_i r _
      cases r with
      | none =>
        simp only [received, failed] at h
        split at h
        · cases h
          exact ⟨g, hfetch, rfl⟩
        · cases h
      | some a => cases h

end Client

/-! ## When the data was read -/

/-- The invariant of a client that was opened in the state `s₀`: in which order its moments came. -/
structure Ok (S : Source σ ω κ α) (read : σ → Option α) (s₀ : σ) (c : Client σ α) : Prop where
  server : S.Reaches s₀ c.server
  data : ∀ a, c.data = some a → ∃ s₁, read s₁ = some a ∧ S.Reaches s₀ s₁ ∧
    S.Reaches s₁ c.server ∧ ∀ f, c.fetch = some f → S.Reaches s₁ f.started
  fetch : ∀ f, c.fetch = some f → S.Reaches s₀ f.started ∧ S.Reaches f.started f.asked ∧
    S.Reaches (S.world f.asked S.ask) c.server
  failures : ∀ f, c.fetch = some f → f.failures ≤ S.retries

section Ok

variable {S : Source σ ω κ α} {read : σ → Option α} {s₀ : σ} {c c' : Client σ α}

theorem Ok.init (s : σ) : Ok S read s { server := s } where
  server := .refl s
  data _ h := by cases h
  fetch _ h := by cases h
  failures _ h := by cases h

/-- The reply that arrives was read after the start of the fetch. -/
theorem Ok.reply (h : Ok S read s₀ c) (hread : S.Reads read) {f : Fetch σ} {a : α}
    (hf : c.fetch = some f) (hr : S.reply c.server (S.ticket f.asked) = some (some a)) :
    ∃ s₁, read s₁ = some a ∧ S.Reaches f.started s₁ ∧ S.Reaches s₁ c.server := by
  obtain ⟨-, hstarted, hasked⟩ := h.fetch f hf
  obtain ⟨s₁, hfrom, hto, hs⟩ := hread _ _ _ hasked hr
  exact ⟨s₁, hs, (hstarted.world S.ask).trans hfrom, hto⟩

theorem Ok.step (h : Ok S read s₀ c) (hread : S.Reads read) (hst : c.Step S c') :
    Ok S read s₀ c' := by
  cases hst with
  | stay => exact h
  | world w =>
    refine ⟨h.server.world w, fun a ha => ?_, fun f hf => ?_, h.failures⟩
    · obtain ⟨s₁, hs, hfrom, hto, hbefore⟩ := h.data a ha
      exact ⟨s₁, hs, hfrom, hto.world w, hbefore⟩
    · obtain ⟨hfrom, hstarted, hasked⟩ := h.fetch f hf
      exact ⟨hfrom, hstarted, hasked.world w⟩
  | start =>
    refine ⟨h.server.world S.ask, fun a ha => ?_, fun f hf => ?_, fun f hf => ?_⟩
    · obtain ⟨s₁, hs, hfrom, hto, -⟩ := h.data a ha
      refine ⟨s₁, hs, hfrom, hto.world S.ask, fun f hf => ?_⟩
      cases hf
      exact hto
    · cases hf
      exact ⟨h.server, .refl _, .refl _⟩
    · cases hf
      exact Nat.zero_le _
  | retry f hf =>
    refine ⟨h.server.world S.ask, fun a ha => ?_, fun g hg => ?_, fun g hg => ?_⟩
    · obtain ⟨s₁, hs, hfrom, hto, hbefore⟩ := h.data a ha
      refine ⟨s₁, hs, hfrom, hto.world S.ask, fun g hg => ?_⟩
      cases hg
      exact hbefore f hf
    · cases hg
      obtain ⟨hfrom, hstarted, hasked⟩ := h.fetch f hf
      exact ⟨hfrom, (hstarted.world S.ask).trans hasked, .refl _⟩
    · cases hg
      exact h.failures f hf
  | wait f hf hlt =>
    refine ⟨h.server, fun a ha => ?_, fun g hg => ?_, fun g hg => ?_⟩
    · obtain ⟨s₁, hs, hfrom, hto, hbefore⟩ := h.data a ha
      refine ⟨s₁, hs, hfrom, hto, fun g hg => ?_⟩
      cases hg
      exact hbefore f hf
    · cases hg
      exact h.fetch f hf
    · cases hg
      exact hlt
  | stop isError =>
    refine ⟨h.server, fun a ha => ?_, fun f hf => (by cases hf), fun f hf => (by cases hf)⟩
    obtain ⟨s₁, hs, hfrom, hto, -⟩ := h.data a ha
    exact ⟨s₁, hs, hfrom, hto, fun f hf => (by cases hf)⟩
  | update f a hf hr =>
    refine ⟨h.server, fun b hb => ?_, fun g hg => (by cases hg), fun g hg => (by cases hg)⟩
    cases hb
    obtain ⟨s₁, hs, hfrom, hto⟩ := h.reply hread hf hr
    exact ⟨s₁, hs, (h.fetch f hf).1.trans hfrom, hto, fun g hg => (by cases hg)⟩

theorem Ok.run (h : Ok S read s₀ c) (hread : S.Reads read) (events : List (Event ω)) :
    Ok S read s₀ (c.run S events) := by
  induction events generalizing c with
  | nil => exact h
  | cons e events ih => exact ih (h.step hread (c.step_spec S e))

end Ok

/-! ## Fresh data -/

/-- From some moment on: the server has been at `s₀`, a fetch in flight started later, and so was
the data read, unless it is still the data of the update with the number `old`. -/
structure Since (S : Source σ ω κ α) (read : σ → Option α) (s₀ : σ) (old : Option Nat)
    (c : Client σ α) : Prop where
  server : S.Reaches s₀ c.server
  fetch : ∀ f, c.fetch = some f → S.Reaches s₀ f.started
  data : ∀ a, c.data = some a → some c.updates = old ∨
    ∃ s₁, read s₁ = some a ∧ S.Reaches s₀ s₁ ∧ S.Reaches s₁ c.server
  updates : ∀ n, old = some n → n ≤ c.updates

section Since

variable {S : Source σ ω κ α} {read : σ → Option α} {c c' : Client σ α} {s s₀ : σ}
  {old : Option Nat}

/-- The data stays as old as it is when the server takes a step. -/
theorem Since.data_world (h : Since S read s₀ old c) (w : ω) (a : α) (ha : c.data = some a) :
    some c.updates = old ∨
      ∃ s₁, read s₁ = some a ∧ S.Reaches s₀ s₁ ∧ S.Reaches s₁ (S.world c.server w) := by
  rcases h.data a ha with hold | ⟨s₁, hs, hfrom, hto⟩
  · exact .inl hold
  · exact .inr ⟨s₁, hs, hfrom, hto.world w⟩

theorem Since.step (h : Since S read s₀ old c) (hok : Ok S read s c) (hread : S.Reads read)
    (hst : c.Step S c') : Since S read s₀ old c' := by
  cases hst with
  | stay => exact h
  | world w => exact ⟨h.server.world w, h.fetch, h.data_world w, h.updates⟩
  | start =>
    refine ⟨h.server.world S.ask, fun f hf => ?_, h.data_world S.ask, h.updates⟩
    cases hf
    exact h.server
  | retry f hf =>
    refine ⟨h.server.world S.ask, fun g hg => ?_, h.data_world S.ask, h.updates⟩
    cases hg
    exact h.fetch f hf
  | wait f hf =>
    refine ⟨h.server, fun g hg => ?_, h.data, h.updates⟩
    cases hg
    exact h.fetch f hf
  | stop isError => exact ⟨h.server, fun f hf => (by cases hf), h.data, h.updates⟩
  | update f a hf hr =>
    refine ⟨h.server, fun g hg => (by cases hg), fun b hb => ?_,
      fun n hn => Nat.le_succ_of_le (h.updates n hn)⟩
    cases hb
    obtain ⟨s₁, hs, hfrom, hto⟩ := hok.reply hread hf hr
    exact .inr ⟨s₁, hs, (h.fetch f hf).trans hfrom, hto⟩

theorem Since.run (h : Since S read s₀ old c) (hok : Ok S read s c) (hread : S.Reads read)
    (events : List (Event ω)) : Since S read s₀ old (c.run S events) := by
  induction events generalizing c with
  | nil => exact h
  | cons e events ih =>
    exact ih (h.step hok hread (c.step_spec S e)) (hok.step hread (c.step_spec S e))

/-- The data never goes back in time. -/
theorem data_mono (hok : Ok S read s c) (hread : S.Reads read) {a a' : α} (ha : c.data = some a)
    (events : List (Event ω)) (ha' : (c.run S events).data = some a') :
    ∃ s₁ s₁', read s₁ = some a ∧ read s₁' = some a' ∧ S.Reaches s s₁ ∧ S.Reaches s₁ s₁' ∧
      S.Reaches s₁' (c.run S events).server := by
  obtain ⟨s₁, hs, hopen, hto, hbefore⟩ := hok.data a ha
  have h : Since S read s₁ none c := by
    refine ⟨hto, hbefore, fun b hb => .inr ⟨s₁, ?_, .refl _, hto⟩, fun n hn => (by cases hn)⟩
    rw [← hb, ha]
    exact hs
  rcases (h.run hok hread events).data a' ha' with hold | ⟨s₁', hs', hfrom, hto'⟩
  · cases hold
  · exact ⟨s₁, s₁', hs, hs', hopen, hfrom, hto'⟩

/-- After a new start of the fetch, the data that arrives is not older than that start. -/
theorem fresh_after (hok : Ok S read s c) (hread : S.Reads read) (events : List (Event ω))
    (hnew : ((c.start S).run S events).updates ≠ c.updates) {a : α}
    (ha : ((c.start S).run S events).data = some a) :
    ∃ s₁, read s₁ = some a ∧ S.Reaches c.server s₁ ∧
      S.Reaches s₁ ((c.start S).run S events).server := by
  have h : Since S read c.server (some c.updates) (c.start S) := by
    refine ⟨.world (.refl _) S.ask, fun f hf => ?_, fun _ _ => .inl rfl, fun n hn => ?_⟩
    · cases hf
      exact .refl _
    · cases hn
      exact Nat.le_refl _
  rcases (h.run (hok.step hread .start) hread events).data a ha with hold | hnew'
  · exact absurd (Option.some.inj hold) hnew
  · exact hnew'

end Since

/-! ## A poll with all its attempts -/

/-- A fetch that waits sends its request again; then the server takes some steps, and the reply is
received. -/
def attempt (ws : List ω) : List (Event ω) := .retry :: ws.map .world ++ [.receive]

/-- A poll, or the fetch that it joins, with its attempts. -/
def poll (attempts : List (List ω)) : List (Event ω) := .refetch :: attempts.flatMap attempt

/-- The fetch has ended, or it ends with one of the next `k` attempts. -/
def Tried (S : Source σ ω κ α) (k : Nat) (c : Client σ α) : Prop :=
  ∀ f, c.fetch = some f → f.failures ≤ S.retries ∧ S.retries < f.failures + k

/-- When the fetch has ended, the client shows the reply. -/
def Told (r : Option α) (c : Client σ α) : Prop :=
  c.fetch = none → c.isError = r.isNone ∧ ∀ a, r = some a → c.data = some a

section Poll

variable {S : Source σ ω κ α} {c : Client σ α} {f : Fetch σ} {r : Option α} {k : Nat} {ws : List ω}

theorem run_world (c : Client σ α) (ws : List ω) :
    c.run S (ws.map .world) = { c with server := ws.foldl S.world c.server } := by
  induction ws generalizing c with
  | nil => rfl
  | cons w ws ih => exact ih { c with server := S.world c.server w }

theorem run_attempt (c : Client σ α) (ws : List ω) : c.run S (attempt ws) =
    ({ c.step S .retry with
      server := ws.foldl S.world (c.step S .retry).server } : Client σ α).step S .receive := by
  rw [attempt, List.cons_append]
  show Client.run S (c.step S .retry) (ws.map .world ++ [.receive]) = _
  rw [Client.run_append, run_world]
  rfl

theorem server_attempt (c : Client σ α) (ws : List ω) :
    (c.run S (attempt ws)).server = ws.foldl S.world (c.step S .retry).server := by
  rw [run_attempt, Client.server_receive]

theorem fetch_attempt (h : (c.run S (attempt ws)).fetch = some f) :
    ∃ g, (c.step S .retry).fetch = some g ∧ f.asked = g.asked := by
  rw [run_attempt] at h
  obtain ⟨g, hg, hasked⟩ := Client.fetch_receive h
  exact ⟨g, hg, hasked⟩

/-- Without a fetch, an attempt does nothing. -/
theorem run_attempt_idle (h : c.fetch = none) :
    c.run S (attempt ws) = { c with server := ws.foldl S.world c.server } := by
  have hretry : c.step S .retry = c := by simp [Client.step, Client.resting, h]
  rw [run_attempt, hretry]
  simp [Client.step, Client.asking, h]

/-- After a `retry` the request of the fetch is under way. -/
theorem asking_retry (h : c.fetch = some f) :
    ∃ g, (c.step S .retry).asking = some g ∧ g.failures = f.failures := by
  cases hw : f.waiting with
  | true =>
    have hrest : c.resting = some f := Client.resting_eq_some.mpr ⟨h, hw⟩
    simp only [Client.step, hrest]
    exact ⟨_, Client.asking_eq_some.mpr ⟨rfl, rfl⟩, rfl⟩
  | false =>
    have hrest : c.resting = none := by simp [Client.resting, h, hw]
    simp only [Client.step, hrest]
    exact ⟨f, Client.asking_eq_some.mpr ⟨h, hw⟩, rfl⟩

/-- An attempt whose reply is there. -/
theorem run_attempt_reply (h : (c.step S .retry).asking = some f)
    (hr : S.reply (ws.foldl S.world (c.step S .retry).server) (S.ticket f.asked) = some r) :
    c.run S (attempt ws) = ({ c.step S .retry with
      server := ws.foldl S.world (c.step S .retry).server } : Client σ α).received S f r := by
  rw [run_attempt]
  generalize hc : ({ c.step S .retry with
    server := ws.foldl S.world (c.step S .retry).server } : Client σ α) = c'
  have hask : c'.asking = some f := by rw [← hc]; exact h
  have hr' : S.reply c'.server (S.ticket f.asked) = some r := by rw [← hc]; exact hr
  simp only [Client.step, hask, hr']

theorem Tried.received (h : S.retries < f.failures + (k + 1)) :
    Tried S k (c.received S f r) := by
  cases r with
  | none =>
    simp only [Client.received, Client.failed]
    split
    · rename_i hmore
      intro g hg
      cases hg
      exact ⟨hmore, by simp only; omega⟩
    · intro g hg
      cases hg
  | some a =>
    intro g hg
    cases hg

theorem told_received : Told r (c.received S f r) := by
  cases r with
  | none =>
    simp only [Client.received, Client.failed]
    split
    · intro h
      cases h
    · exact fun _ => ⟨rfl, fun a ha => by cases ha⟩
  | some a => exact fun _ => ⟨rfl, fun b hb => hb⟩

/-- An attempt, if the reply to its request is there: one attempt less is left, and if the reply is
`r`, so is what is shown in the end. -/
theorem Tried.attempt (h : Tried S (k + 1) c)
    (hreply : ∀ f, (c.step S .retry).asking = some f → ∃ r',
      S.reply (ws.foldl S.world (c.step S .retry).server) (S.ticket f.asked) = some r') :
    Tried S k (c.run S (attempt ws)) := by
  cases hf : c.fetch with
  | none =>
    rw [run_attempt_idle hf]
    intro g hg
    rw [show c.fetch = some g from hg] at hf
    cases hf
  | some f =>
    obtain ⟨-, hlt⟩ := h f hf
    obtain ⟨g, hg, hfailures⟩ := asking_retry (S := S) hf
    obtain ⟨r', hr⟩ := hreply g hg
    rw [run_attempt_reply hg hr]
    exact .received (by omega)

theorem Told.attempt (h : Told r c)
    (hreply : ∀ f, (c.step S .retry).asking = some f →
      S.reply (ws.foldl S.world (c.step S .retry).server) (S.ticket f.asked) = some r) :
    Told r (c.run S (attempt ws)) := by
  cases hf : c.fetch with
  | none =>
    rw [run_attempt_idle hf]
    exact h
  | some f =>
    obtain ⟨g, hg, -⟩ := asking_retry (S := S) hf
    rw [run_attempt_reply hg (hreply g hg)]
    exact told_received

/-- The rule for the attempts of a poll: `J k` holds with `k` attempts left. -/
theorem run_attempts {J : Nat → Client σ α → Prop} (attempts : List (List ω))
    (h : J attempts.length c)
    (step : ∀ k c ws, ws ∈ attempts → J (k + 1) c → J k (c.run S (Query.attempt ws))) :
    J 0 (c.run S (attempts.flatMap Query.attempt)) := by
  induction attempts generalizing c with
  | nil => exact h
  | cons ws attempts ih =>
    rw [List.flatMap_cons, Client.run_append]
    exact ih (step _ c ws List.mem_cons_self h)
      fun k c' ws' hws' => step k c' ws' (List.mem_cons_of_mem ws hws')

/-- At the start of a poll all attempts are left. -/
theorem tried_refetch (hle : ∀ f, c.fetch = some f → f.failures ≤ S.retries) :
    Tried S (S.retries + 1) (c.step S .refetch) := by
  intro f hf
  simp only [Client.step] at hf
  split at hf
  · exact ⟨hle f hf, by omega⟩
  · cases hf
    exact ⟨Nat.zero_le _, by simp only; omega⟩

theorem Tried.ended (h : Tried S 0 c) : c.fetch = none := by
  cases hf : c.fetch with
  | none => rfl
  | some f =>
    have := h f hf
    omega

end Poll

end Query
