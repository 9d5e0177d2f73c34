import UsageBilling.Dashboard
import UsageBilling.Submission

/-!
# The load test (`scripts/load-test.mjs`)

Some workers post `COUNT` purchases of one customer and count the answers. The backends serve any
requests of other customers meanwhile, a POST may get lost on its way or back, and the processes may
die.

* `Storm.step`: one event of the write storm. `Storm.Step`, `step_spec`: what a step can do.
* `Storm.Counted`: what the workers keep: each POST is awaited by one worker, or was counted.
  `Counted.total`: when all workers have finished, `COUNT` purchases were counted.
-/

namespace UsageBilling

open Js Sys

/-! ## The script -/

/-- What the script has chosen and is told by its environment. -/
structure LoadTest where
  customerId : String
  product : Product
  COUNT : Nat
  CONCURRENCY : Nat
  QTY : Int

namespace LoadTest

/-- What one purchase costs. -/
def cost (T : LoadTest) : Int := T.product.unitPrice * T.QTY

/-- A POST of the storm; it has no idempotency key. -/
def attempt (T : LoadTest) : Attempt where
  idempotencyKey := none
  body := { customerId := T.customerId, productId := T.product.id, quantity := .finite T.QTY }

/-- The POST of a worker. -/
def request (T : LoadTest) : HttpRequest := T.attempt.request

/-- `(await getJson("/customers")).data.find((c) => c.id === customer.id).balance`; `none` if it
throws. -/
def balance (T : LoadTest) (P : Prisma) (p : Backends) : Option Int :=
  (customersNow P p).bind fun data =>
    (data.find? fun c => c.id = T.customerId).map (·.balance)

end LoadTest

/-- How the script counts a purchase. -/
inductive Outcome where
  | ok
  | insufficient
  | error
  deriving DecidableEq

/-- What a reply is counted as. -/
def Reply.outcome (reply : Reply) : Outcome :=
  if reply.status = 201 then .ok else if reply.status = 402 then .insufficient else .error

/-- The counters of the script. -/
structure Status where
  ok : Nat := 0
  insufficient : Nat := 0
  error : Nat := 0

namespace Status

/-- The counters after one more purchase. -/
def add (status : Status) : Outcome → Status
  | .ok => { status with ok := status.ok + 1 }
  | .insufficient => { status with insufficient := status.insufficient + 1 }
  | .error => { status with error := status.error + 1 }

/-- The counter of an outcome. -/
def of (status : Status) : Outcome → Nat
  | .ok => status.ok
  | .insufficient => status.insufficient
  | .error => status.error

theorem of_add (status : Status) (o o' : Outcome) :
    (status.add o).of o' = status.of o' + if o = o' then 1 else 0 := by
  cases o <;> cases o' <;> rfl

end Status

/-- Where a worker stands. -/
inductive Worker where
  /-- Before the condition of its loop. -/
  | ready
  /-- It awaits the POST at this place. -/
  | waiting (place : Nat)
  | finished
  deriving DecidableEq

/-- A POST of the storm. -/
structure Post where
  /-- The index of its request, once it has arrived. -/
  ticket : Option Nat := none
  /-- What it was counted as. -/
  outcome : Option Outcome := none

/-- The script with its POSTs, and the backends. -/
structure Storm where
  next : Nat := 0
  status : Status := {}
  workers : List Worker
  posts : List Post := []
  backends : Backends

/-- What happens while the load test runs. -/
inductive StormEvent where
  /-- A request of another client arrives, or a request takes a turn. -/
  | traffic (a : Act Arrival)
  /-- A worker comes to the condition of its loop. -/
  | turn (worker : Nat)
  /-- The POST at this place arrives. -/
  | arrive (place : Nat) (fault : Option (Fault String))
  /-- The reply to the worker's POST reaches the script. -/
  | reply (worker : Nat)
  /-- The `fetch` of the worker throws; its POST may still arrive. -/
  | lose (worker : Nat)

namespace Storm

/-- The workers start, with the backends in the state `p`. -/
def init (T : LoadTest) (p : Backends) : Storm where
  workers := List.replicate T.CONCURRENCY .ready
  backends := p

/-- The POST that a worker awaits, and its place. -/
def awaited (x : Storm) (w : Nat) : Option (Nat × Post) :=
  match x.workers[w]? with
  | some (.waiting k) => (x.posts[k]?).map (k, ·)
  | _ => none

/-- A POST is counted, and its worker goes on. -/
def settle (x : Storm) (w k : Nat) (q : Post) (o : Outcome) : Storm :=
  { x with
    status := x.status.add o
    posts := x.posts.set k { q with outcome := some o }
    workers := x.workers.set w .ready }

/-- The load test after an event. -/
def step (P : Prisma) (T : LoadTest) (x : Storm) : StormEvent → Storm
  | .traffic a => { x with backends := (deployment P).act x.backends a }
  | .turn w =>
    match x.workers[w]? with
    | some .ready =>
      if x.next < T.COUNT then
        { x with
          next := x.next + 1
          posts := x.posts ++ [{}]
          workers := x.workers.set w (.waiting x.posts.length) }
      else { x with workers := x.workers.set w .finished }
    | _ => x
  | .arrive k fault =>
    match x.posts[k]? with
    | some { ticket := none, outcome } =>
      { x with
        backends := (deployment P).act x.backends (.submit (T.request, fault))
        posts := x.posts.set k { ticket := some x.backends.tasks.length, outcome } }
    | _ => x
  | .reply w =>
    match x.awaited w with
    | some (k, q) =>
      match (q.ticket.bind (x.backends.tasks[·]?)).bind (deployment P).answer with
      | some reply => x.settle w k q reply.outcome
      | none => x
    | none => x
  | .lose w =>
    match x.awaited w with
    | some (k, q) => x.settle w k q .error
    | none => x

/-- The storm after some events. -/
def run (P : Prisma) (T : LoadTest) (p : Backends) (events : List StormEvent) : Storm :=
  events.foldl (step P T) (init T p)

/-- `Promise.all` of the workers has resolved. -/
def done (x : Storm) : Bool := x.workers.all (· = .finished)

/-- `consistent`, from the balances before and after the storm. -/
def consistent (T : LoadTest) (x : Storm) (before after : Int) : Bool :=
  x.status.ok * T.cost = before - after && 0 ≤ after

end Storm

namespace Storm

/-! ## What a step can do -/

/-- A step of the storm by an event. -/
inductive Step (P : Prisma) (T : LoadTest) (x : Storm) : StormEvent → Storm → Prop
  | traffic (a : Act Arrival) :
      Step P T x (.traffic a) { x with backends := (deployment P).act x.backends a }
  | post (w : Nat) (hw : x.workers[w]? = some .ready) (hlt : x.next < T.COUNT) :
      Step P T x (.turn w)
        { x with
          next := x.next + 1
          posts := x.posts ++ [{}]
          workers := x.workers.set w (.waiting x.posts.length) }
  | finish (w : Nat) (hw : x.workers[w]? = some .ready) (hge : T.COUNT ≤ x.next) :
      Step P T x (.turn w) { x with workers := x.workers.set w .finished }
  | arrive (k : Nat) (fault : Option (Fault String)) (q : Post) (hq : x.posts[k]? = some q)
      (hnone : q.ticket = none) :
      Step P T x (.arrive k fault)
        { x with
          backends := (deployment P).act x.backends (.submit (T.request, fault))
          posts := x.posts.set k { q with ticket := some x.backends.tasks.length } }
  | reply (w k : Nat) (q : Post) (t : Nat) (reply : Reply)
      (hw : x.workers[w]? = some (.waiting k)) (hq : x.posts[k]? = some q)
      (ht : q.ticket = some t)
      (hr : (x.backends.tasks[t]?).bind (deployment P).answer = some reply) :
      Step P T x (.reply w) (x.settle w k q reply.outcome)
  | lose (w k : Nat) (q : Post) (hw : x.workers[w]? = some (.waiting k))
      (hq : x.posts[k]? = some q) : Step P T x (.lose w) (x.settle w k q .error)
  | idle (e : StormEvent) : Step P T x e x

variable {P : Prisma} {T : LoadTest} {x : Storm}

theorem awaited_some {w k : Nat} {q : Post} (h : x.awaited w = some (k, q)) :
    x.workers[w]? = some (.waiting k) ∧ x.posts[k]? = some q := by
  unfold awaited at h
  split at h
  · rename_i k' hw
    obtain ⟨q', hq, heq⟩ := Option.map_eq_some_iff.mp h
    cases heq
    exact ⟨hw, hq⟩
  · cases h

theorem step_spec (P : Prisma) (T : LoadTest) (x : Storm) (e : StormEvent) :
    Step P T x e (x.step P T e) := by
  cases e with
  | traffic a => exact .traffic a
  | turn w =>
    simp only [step]
    split
    · rename_i hw
      split
      · exact .post w hw ‹_›
      · exact .finish w hw (Nat.not_lt.mp ‹_›)
    · exact .idle _
  | arrive k fault =>
    simp only [step]
    split
    · rename_i outcome hq
      exact .arrive k fault _ hq rfl
    · exact .idle _
  | reply w =>
    simp only [step]
    split
    · rename_i k q ha
      obtain ⟨hw, hq⟩ := awaited_some ha
      split
      · rename_i reply hr
        rw [Option.bind_assoc] at hr
        obtain ⟨t, ht, hr⟩ := Option.bind_eq_some_iff.mp hr
        exact .reply w k q t reply hw hq ht hr
      · exact .idle _
    · exact .idle _
  | lose w =>
    simp only [step]
    split
    · rename_i k q ha
      obtain ⟨hw, hq⟩ := awaited_some ha
      exact .lose w k q hw hq
    · exact .idle _

/-! ## What the workers keep -/

/-- Each POST is awaited by one worker, or counted. -/
structure Counted (T : LoadTest) (x : Storm) : Prop where
  sent : x.posts.length = x.next
  bound : x.next ≤ T.COUNT
  workers : x.workers.length = T.CONCURRENCY
  status : ∀ o, x.status.of o = x.posts.countP fun q => q.outcome = some o
  waiting : ∀ w k : Nat, x.workers[w]? = some (.waiting k) →
    ∃ q, x.posts[k]? = some q ∧ q.outcome = none
  awaited : ∀ (k : Nat) q, x.posts[k]? = some q → q.outcome = none →
    ∃ w : Nat, x.workers[w]? = some (.waiting k)
  one : ∀ w w' k : Nat, x.workers[w]? = some (.waiting k) →
    x.workers[w']? = some (.waiting k) → w = w'
  finished : ∀ w : Nat, x.workers[w]? = some .finished → T.COUNT ≤ x.next

namespace Counted

theorem init (T : LoadTest) (p : Backends) : (Storm.init T p).Counted T := by
  have hready : ∀ (w : Nat) v, (Storm.init T p).workers[w]? = some v → v = .ready :=
    fun w v h => List.eq_of_mem_replicate (List.mem_of_getElem? (l := List.replicate _ _) h)
  refine ⟨rfl, Nat.zero_le _, List.length_replicate, fun o => ?_, ?_, ?_, ?_, ?_⟩
  · cases o <;> rfl
  · intro w k h
    cases hready w _ h
  · intro k q h
    cases h
  · intro w w' k h
    cases hready w _ h
  · intro w h
    cases hready w _ h

/-- The worker of a settled POST. -/
theorem settle (h : x.Counted T) {w k : Nat} {q : Post} (o : Outcome)
    (hw : x.workers[w]? = some (.waiting k)) (hq : x.posts[k]? = some q) :
    (x.settle w k q o).Counted T := by
  have hnone : q.outcome = none := by
    obtain ⟨q', hq', hnone⟩ := h.waiting w k hw
    rwa [Option.mem_unique hq hq']
  have hworkers := getElem?_set_of_some hw .ready
  have hposts := getElem?_set_of_some hq { q with outcome := some o }
  refine ⟨?_, h.bound, ?_, fun o' => ?_, ?_, ?_, ?_, ?_⟩
  · exact (List.length_set ..).trans h.sent
  · exact (List.length_set ..).trans h.workers
  · show (x.status.add o).of o' = _
    rw [Status.of_add, h.status]
    by_cases ho : o = o'
    · rw [if_pos ho]
      exact (countP_set_succ hq (by simp [hnone]) (by simp [ho])).symm
    · rw [if_neg ho]
      exact (countP_set_eq hq (by simp [hnone, ho])).symm
  · intro w' k' hw'
    rw [Storm.settle, hworkers] at hw'
    split at hw'
    · cases hw'
    · rename_i hne
      have hkk : k' ≠ k := fun heq => hne (h.one w' w k (heq ▸ hw') hw)
      obtain ⟨q', hq', hnone'⟩ := h.waiting w' k' hw'
      exact ⟨q', by rw [Storm.settle, hposts, if_neg hkk, hq'], hnone'⟩
  · intro k' q' hq' hnone'
    rw [Storm.settle, hposts] at hq'
    split at hq'
    · cases hq'
      cases hnone'
    · rename_i hne
      obtain ⟨w', hw'⟩ := h.awaited k' q' hq' hnone'
      have hww : w' ≠ w := fun heq => by
        rw [heq, hw] at hw'
        cases hw'
        exact hne rfl
      exact ⟨w', by rw [Storm.settle, hworkers, if_neg hww, hw']⟩
  · intro w₁ w₂ k' h₁ h₂
    rw [Storm.settle, hworkers] at h₁ h₂
    split at h₁
    · cases h₁
    · split at h₂
      · cases h₂
      · exact h.one w₁ w₂ k' h₁ h₂
  · intro w' hw'
    rw [Storm.settle, hworkers] at hw'
    split at hw'
    · cases hw'
    · exact h.finished w' hw'

/-- A worker without a POST in flight goes on. -/
theorem turn (h : x.Counted T) {w : Nat} (hw : x.workers[w]? = some .ready) {v : Worker}
    (hv : ∀ k, v ≠ .waiting k) (hfin : v = .finished → T.COUNT ≤ x.next) :
    Counted T { x with workers := x.workers.set w v } := by
  have hworkers := getElem?_set_of_some hw v
  refine ⟨h.sent, h.bound, (List.length_set ..).trans h.workers, h.status, ?_, ?_, ?_, ?_⟩
  · intro w' k hw'
    rw [hworkers] at hw'
    split at hw'
    · exact absurd (Option.some.inj hw') (hv k)
    · exact h.waiting w' k hw'
  · intro k q hq hnone
    obtain ⟨w', hw'⟩ := h.awaited k q hq hnone
    have hne : w' ≠ w := fun heq => by
      rw [heq, hw] at hw'
      cases hw'
    exact ⟨w', by rw [hworkers, if_neg hne, hw']⟩
  · intro w₁ w₂ k h₁ h₂
    rw [hworkers] at h₁ h₂
    split at h₁
    · exact absurd (Option.some.inj h₁) (hv k)
    · split at h₂
      · exact absurd (Option.some.inj h₂) (hv k)
      · exact h.one w₁ w₂ k h₁ h₂
  · intro w' hw'
    rw [hworkers] at hw'
    split at hw'
    · exact hfin (Option.some.inj hw')
    · exact h.finished w' hw'

/-- A worker posts. -/
theorem post (h : x.Counted T) {w : Nat} (hw : x.workers[w]? = some .ready)
    (hlt : x.next < T.COUNT) : Counted T
      { x with
        next := x.next + 1
        posts := x.posts ++ [{}]
        workers := x.workers.set w (.waiting x.posts.length) } := by
  have hworkers := getElem?_set_of_some hw (.waiting x.posts.length)
  have hfresh : ∀ w' : Nat, x.workers[w']? ≠ some (.waiting x.posts.length) := fun w' hw' => by
    obtain ⟨q, hq, -⟩ := h.waiting w' _ hw'
    exact Nat.lt_irrefl _ (List.getElem?_eq_some_iff.mp hq).1
  refine ⟨?_, hlt, (List.length_set ..).trans h.workers, fun o => ?_, ?_, ?_, ?_, ?_⟩
  · rw [List.length_append, h.sent]
    rfl
  · rw [List.countP_append, h.status o]
    rfl
  · intro w' k hw'
    rw [hworkers] at hw'
    split at hw'
    · cases hw'
      exact ⟨{}, List.getElem?_concat_length, rfl⟩
    · obtain ⟨q, hq, hnone⟩ := h.waiting w' k hw'
      exact ⟨q, (List.getElem?_append_left (List.getElem?_eq_some_iff.mp hq).1).trans hq, hnone⟩
  · intro k q hq hnone
    rcases getElem?_concat hq with hq | ⟨rfl, -⟩
    · obtain ⟨w', hw'⟩ := h.awaited k q hq hnone
      have hne : w' ≠ w := fun heq => by
        rw [heq, hw] at hw'
        cases hw'
      exact ⟨w', by rw [hworkers, if_neg hne, hw']⟩
    · exact ⟨w, by rw [hworkers, if_pos rfl]⟩
  · intro w₁ w₂ k h₁ h₂
    rw [hworkers] at h₁ h₂
    split at h₁
    · rename_i heq
      split at h₂
      · rename_i heq'
        exact heq.trans heq'.symm
      · cases h₁
        exact absurd h₂ (hfresh w₂)
    · split at h₂
      · cases h₂
        exact absurd h₁ (hfresh w₁)
      · exact h.one w₁ w₂ k h₁ h₂
  · intro w' hw'
    rw [hworkers] at hw'
    split at hw'
    · cases hw'
    · exact Nat.le_succ_of_le (h.finished w' hw')

/-- The arrival of a POST is not seen by the script. -/
theorem arrive (h : x.Counted T) {k : Nat} {q : Post} (hq : x.posts[k]? = some q) (q' : Post)
    (ho : q'.outcome = q.outcome) (p : Backends) :
    Counted T { x with backends := p, posts := x.posts.set k q' } := by
  have hposts := getElem?_set_of_some hq q'
  refine ⟨(List.length_set ..).trans h.sent, h.bound, h.workers, fun o => ?_, ?_, ?_, h.one,
    h.finished⟩
  · rw [h.status]
    exact (countP_set_eq hq (by rw [ho])).symm
  · intro w k' hw
    obtain ⟨r, hr, hnone⟩ := h.waiting w k' hw
    by_cases hk : k' = k
    · subst hk
      obtain rfl := Option.mem_unique hq hr
      exact ⟨q', by rw [hposts, if_pos rfl], ho.trans hnone⟩
    · exact ⟨r, by rw [hposts, if_neg hk, hr], hnone⟩
  · intro k' r hr hnone
    rw [hposts] at hr
    split at hr
    · rename_i hk
      cases hr
      subst hk
      exact h.awaited k' q hq (ho ▸ hnone)
    · exact h.awaited k' r hr hnone

theorem step (h : x.Counted T) (e : StormEvent) : (x.step P T e).Counted T := by
  have hst := step_spec P T x e
  generalize x.step P T e = x' at hst ⊢
  cases hst with
  | traffic a =>
    exact ⟨h.sent, h.bound, h.workers, h.status, h.waiting, h.awaited, h.one, h.finished⟩
  | post w hw hlt => exact h.post hw hlt
  | finish w hw hge => exact h.turn hw (by simp) fun _ => hge
  | arrive k fault q hq hnone =>
    exact h.arrive hq { q with ticket := some x.backends.tasks.length } rfl _
  | reply w k q t reply hw hq ht hr => exact h.settle _ hw hq
  | lose w k q hw hq => exact h.settle _ hw hq
  | idle => exact h

/-- Each POST has one outcome, or none yet. -/
theorem countP_outcome (posts : List Post) : posts.length =
    posts.countP (fun q => q.outcome = some .ok) +
      posts.countP (fun q => q.outcome = some .insufficient) +
      posts.countP (fun q => q.outcome = some .error) + posts.countP (·.outcome = none) := by
  induction posts with
  | nil => rfl
  | cons q posts ih =>
    simp only [List.countP_cons, List.length_cons, ih]
    rcases hq : q.outcome with _ | o
    · simp
      omega
    · cases o <;> simp <;> omega

theorem outcome_of_done (h : x.Counted T) (hdone : x.done = true) {q : Post} (hq : q ∈ x.posts) :
    q.outcome ≠ none := by
  intro hnone
  obtain ⟨k, hk⟩ := List.mem_iff_getElem?.mp hq
  obtain ⟨w, hw⟩ := h.awaited k q hk hnone
  have hfin := List.all_eq_true.mp hdone _ (List.mem_of_getElem? hw)
  cases of_decide_eq_true hfin

/-- When all workers have finished, each of the `COUNT` purchases was counted once. -/
theorem total (h : x.Counted T) (hdone : x.done = true) (hworkers : 0 < T.CONCURRENCY) :
    x.status.ok + x.status.insufficient + x.status.error = T.COUNT := by
  have hlt : 0 < x.workers.length := h.workers ▸ hworkers
  have hfin := List.all_eq_true.mp hdone _ (List.getElem_mem hlt)
  have hcount := h.finished 0 (by rw [List.getElem?_eq_getElem hlt, of_decide_eq_true hfin])
  have hbound := h.bound
  have hsent := h.sent
  have hnone : x.posts.countP (·.outcome = none) = 0 :=
    List.countP_eq_zero.mpr fun q hq => by simpa using h.outcome_of_done hdone hq
  have htotal := countP_outcome x.posts
  have hok := h.status .ok
  have hinsufficient := h.status .insufficient
  have herror := h.status .error
  simp only [Status.of] at hok hinsufficient herror
  omega

end Counted

end Storm

end UsageBilling
