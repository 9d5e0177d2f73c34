import UsageBilling.Js
import Mathlib.Data.List.Nodup
import Mathlib.Data.List.Range
import Mathlib.Tactic.IntervalCases

/-!
# `ConsumeForm` (`frontend/src/ConsumeForm.tsx`) and its attempts

The form as a state machine over edits, submits, failures, retries and successes. React Query
keeps the `mutationFn` of the newest render while the mutation is pending, and a retry calls it;
the key comes from a ref, which only a submit changes.

* `FormState.step`: one event. `runForm`: the state after some events, with the history of the
  submissions and attempts.
* `SameSubmissions`: every attempt of a submission is the same request, at most three of them, none
  after a 402, and no two submissions share a key.
* `same_submissions_iff`: this holds exactly if each retry finds the form as it was submitted.
-/

namespace UsageBilling

open Js

/-! ## `api.ts` -/

/-- The body that the form posts. -/
structure ConsumeRequest where
  customerId : String
  productId : String
  quantity : Number
  deriving DecidableEq

/-- The POST that `consume` of `api.ts` sends. -/
structure Attempt where
  /-- The `Idempotency-Key` header; an empty key sets none. -/
  idempotencyKey : Option String
  body : ConsumeRequest
  deriving DecidableEq

/-- The `Idempotency-Key` header; `consume` leaves it out for an empty key. -/
def keyHeader (idempotencyKey : String) : Option String :=
  if idempotencyKey = "" then none else some idempotencyKey

/-- The attempt that `consume(req, idempotencyKey)` sends. -/
def consumeAttempt (req : ConsumeRequest) (idempotencyKey : String) : Attempt :=
  ⟨keyHeader idempotencyKey, req⟩

/-- What `consume` throws. -/
inductive Failure where
  /-- 402 -/
  | insufficientFunds (balance required : Int)
  | other (message : String)
  deriving DecidableEq

/-- `err instanceof InsufficientFundsError` -/
def Failure.isInsufficientFunds : Failure → Bool
  | .insufficientFunds _ _ => true
  | .other _ => false

/-! ## The form -/

/-- The state that a render's closure captures. -/
structure Fields where
  customerId : String
  productId : String
  quantity : String
  deriving DecidableEq

/-- The argument of `consume` in the `mutationFn` of a render. -/
def Fields.request (fields : Fields) : ConsumeRequest :=
  { customerId := fields.customerId, productId := fields.productId,
    quantity := .ofString fields.quantity }

/-- The mutation. While it is pending it holds the fields of its `mutationFn` and the number of
failures so far. -/
inductive Mutation where
  | idle
  | inFlight (mutationFn : Fields) (failureCount : Nat)
  /-- Before a retry. -/
  | waiting (mutationFn : Fields) (failureCount : Nat)
  | success
  | error (err : Failure)
  deriving DecidableEq

/-- An attempt has failed, and its retry is to come. -/
def Mutation.isWaiting : Mutation → Bool
  | .waiting _ _ => true
  | _ => false

/-- `mutation.isPending` -/
def Mutation.isPending : Mutation → Bool
  | .inFlight _ _ | .waiting _ _ => true
  | _ => false

/-- `retry` of the mutation. -/
def retry (failureCount : Nat) (err : Failure) : Bool :=
  !err.isInsufficientFunds && failureCount < 2

/-- What was sent, by the number of the submission it belongs to. -/
inductive Sent where
  | attempt (submission : Nat) (attempt : Attempt)
  /-- An attempt was answered 402. -/
  | denied (submission : Nat)
  deriving DecidableEq

/-- The component, its mutation, and what has been submitted and sent so far. -/
structure FormState where
  presetCustomerId : Option String
  fields : Fields
  /-- `idempotencyKey.current` -/
  idempotencyKey : String := ""
  mutation : Mutation := .idle
  /-- For each submit: its key, and the body of the form at that moment. -/
  submissions : List Attempt := []
  sent : List Sent := []
  deriving DecidableEq

/-- What happens to the form. -/
inductive FormEvent where
  | editCustomer (customerId : String)
  | editProduct (productId : String)
  | editQuantity (quantity : String)
  /-- A render for another reason, such as fresh data of a query. -/
  | render
  | submit
  | fail (err : Failure)
  | retry
  | succeed
  deriving DecidableEq

namespace FormState

/-- The form when it is mounted. -/
def init (presetCustomerId : Option String) : FormState where
  presetCustomerId
  fields := { customerId := presetCustomerId.getD "", productId := "", quantity := "1" }

/-- A render of the form: a pending mutation gets the closure of this render. -/
def render (s : FormState) : FormState :=
  { s with
    mutation := match s.mutation with
      | .inFlight _ n => .inFlight s.fields n
      | .waiting _ n => .waiting s.fields n
      | mutation => mutation }

/-- `quantityValid`, with the exact number that the text writes: nothing is rounded to a double. -/
def quantityValid (quantity : String) : Bool :=
  let quantityNum := Number.ofString quantity
  quantityNum.isInteger && !quantityNum.nonpositive && !(trim quantity).isEmpty

/-- `canSubmit` -/
def canSubmit (s : FormState) : Bool :=
  s.fields.customerId ≠ "" && s.fields.productId ≠ "" && quantityValid s.fields.quantity &&
    !s.mutation.isPending

/-- The number of the last submission. -/
def current (s : FormState) : Nat := s.submissions.length - 1

/-- `mutationFn` is called: it reads the key from the ref. -/
def call (s : FormState) (mutationFn : Fields) (failureCount : Nat) : FormState :=
  { s with
    mutation := .inFlight mutationFn failureCount
    sent := s.sent ++ [.attempt s.current (consumeAttempt mutationFn.request s.idempotencyKey)] }

/-- `onSubmit`; `uuid n` is the `n`-th value of `crypto.randomUUID()`. -/
def onSubmit (uuid : Nat → String) (s : FormState) : FormState :=
  if s.canSubmit then
    let key := uuid s.submissions.length
    { s with
      idempotencyKey := key
      submissions := s.submissions ++ [consumeAttempt s.fields.request key] }.call s.fields 0
  else s

/-- The attempt fails. -/
def fail (s : FormState) (err : Failure) : FormState :=
  match s.mutation with
  | .inFlight mutationFn n =>
    { s with
      mutation := if UsageBilling.retry n err then .waiting mutationFn (n + 1) else .error err
      sent := if err.isInsufficientFunds then s.sent ++ [.denied s.current] else s.sent }
  | _ => s

/-- React Query calls the `mutationFn` again, with the variables of the mutation. -/
def retry (s : FormState) : FormState :=
  match s.mutation with
  | .waiting mutationFn n => s.call mutationFn n
  | _ => s

/-- The attempt succeeds: `onSuccess` clears product and quantity. -/
def succeed (s : FormState) : FormState :=
  match s.mutation with
  | .inFlight _ _ =>
    { s with mutation := .success, fields := { s.fields with productId := "", quantity := "1" } }
  | _ => s

/-- The form after an event. -/
def step (uuid : Nat → String) (s : FormState) : FormEvent → FormState
  | .editCustomer customerId =>
    -- a preset customer is shown as text, without a selector
    if s.presetCustomerId.isSome then s
    else { s with fields := { s.fields with customerId } }.render
  | .editProduct productId => { s with fields := { s.fields with productId } }.render
  | .editQuantity quantity => { s with fields := { s.fields with quantity } }.render
  | .render => s.render
  | .submit => s.onSubmit uuid
  | .fail err => s.fail err
  | .retry => s.retry
  | .succeed => s.succeed

/-- If a retry is next, the form is as it was when it was submitted. -/
def RetryUnchanged (s : FormState) : Prop :=
  s.mutation.isWaiting = true → s.submissions.getLast?.map (·.body) = some s.fields.request

instance (s : FormState) : Decidable s.RetryUnchanged := inferInstanceAs (Decidable (_ → _))

end FormState

/-- The form after some events. -/
def runForm (uuid : Nat → String) (presetCustomerId : Option String) (events : List FormEvent) :
    FormState :=
  events.foldl (FormState.step uuid) (.init presetCustomerId)

/-- The attempts of a submission. -/
def attemptsOf (i : Nat) (sent : List Sent) : List Attempt :=
  sent.filterMap fun
    | .attempt j a => if j = i then some a else none
    | .denied _ => none

/-- Every attempt of one submission is the same submission. -/
structure SameSubmissions (s : FormState) : Prop where
  same : ∀ i a, .attempt i a ∈ s.sent → s.submissions[i]? = some a
  atMostThree : ∀ i, (attemptsOf i s.sent).length ≤ 3
  notAfterDenied : s.sent.Pairwise fun x y => ∀ i a, x = .denied i → y ≠ .attempt i a
  keys : (s.submissions.map (·.idempotencyKey)).Nodup

/-! ## The history of the submissions -/

/-- What every reachable state knows about its history, besides the bodies of the retries. -/
structure History (uuid : Nat → String) (submissions : List Attempt) (sent : List Sent) : Prop where
  minted : submissions.map (·.idempotencyKey) =
    (List.range submissions.length).map fun i => keyHeader (uuid i)
  unsent : ∀ i, submissions.length ≤ i → attemptsOf i sent = []
  atMostThree : ∀ i, (attemptsOf i sent).length ≤ 3
  notAfterDenied : sent.Pairwise fun x y => ∀ i a, x = .denied i → y ≠ .attempt i a
  denied_lt : ∀ i, .denied i ∈ sent → i < submissions.length

section History

variable {uuid : Nat → String} {submissions : List Attempt} {sent : List Sent} {i : Nat}

@[simp] theorem attemptsOf_attempt (j : Nat) (a : Attempt) :
    attemptsOf i (sent ++ [.attempt j a]) = attemptsOf i sent ++ if j = i then [a] else [] := by
  by_cases h : j = i <;> simp [attemptsOf, h]

@[simp] theorem attemptsOf_denied (j : Nat) :
    attemptsOf i (sent ++ [.denied j]) = attemptsOf i sent := by
  simp [attemptsOf]

theorem History.nil : History uuid [] [] :=
  ⟨rfl, fun _ _ => rfl, fun _ => by simp [attemptsOf], List.Pairwise.nil, fun _ h => by cases h⟩

/-- A submit. -/
theorem History.submit (h : History uuid submissions sent) (body : ConsumeRequest) :
    History uuid (submissions ++ [⟨keyHeader (uuid submissions.length), body⟩]) sent where
  minted := by
    rw [List.map_append, h.minted, List.length_append, List.length_singleton, List.range_succ,
      List.map_append]
    rfl
  unsent i hi := h.unsent i (by rw [List.length_append] at hi; omega)
  atMostThree := h.atMostThree
  notAfterDenied := h.notAfterDenied
  denied_lt i hi := by
    have := h.denied_lt i hi
    rw [List.length_append]
    omega

/-- An attempt of a submission that was not denied and has two attempts at most. -/
theorem History.attempt (h : History uuid submissions sent) (hi : i < submissions.length)
    (hdenied : .denied i ∉ sent) (hlen : (attemptsOf i sent).length ≤ 2) (a : Attempt) :
    History uuid submissions (sent ++ [.attempt i a]) where
  minted := h.minted
  unsent j hj := by
    rw [attemptsOf_attempt, h.unsent j hj, if_neg (by omega)]
    rfl
  atMostThree j := by
    rw [attemptsOf_attempt, List.length_append]
    by_cases hij : i = j
    · subst hij
      rw [if_pos rfl, List.length_singleton]
      omega
    · rw [if_neg hij]
      exact h.atMostThree j
  notAfterDenied := by
    refine List.pairwise_append.mpr ⟨h.notAfterDenied, List.pairwise_singleton _ _, ?_⟩
    rintro x hx y hy j b rfl rfl
    obtain ⟨rfl, -⟩ := Sent.attempt.inj (List.mem_singleton.mp hy)
    exact hdenied hx
  denied_lt j hj := by
    rcases List.mem_append.mp hj with hj | hj
    · exact h.denied_lt j hj
    · cases List.mem_singleton.mp hj

/-- A 402 answer of a submission. -/
theorem History.denied (h : History uuid submissions sent) (hi : i < submissions.length) :
    History uuid submissions (sent ++ [.denied i]) where
  minted := h.minted
  unsent j hj := by rw [attemptsOf_denied, h.unsent j hj]
  atMostThree j := by rw [attemptsOf_denied]; exact h.atMostThree j
  notAfterDenied := by
    refine List.pairwise_append.mpr ⟨h.notAfterDenied, List.pairwise_singleton _ _, ?_⟩
    rintro x hx y hy j b - rfl
    cases List.mem_singleton.mp hy
  denied_lt j hj := by
    rcases List.mem_append.mp hj with hj | hj
    · exact h.denied_lt j hj
    · obtain rfl := Sent.denied.inj (List.mem_singleton.mp hj)
      exact hi

theorem keyHeader_injective {k k' : String} (h : keyHeader k = keyHeader k') : k = k' := by
  unfold keyHeader at h
  split at h <;> split at h
  · subst_vars; rfl
  · cases h
  · cases h
  · exact Option.some.inj h

/-- Keys of different submissions differ, as `crypto.randomUUID` never repeats. -/
theorem History.keys (h : History uuid submissions sent) (huuid : Function.Injective uuid) :
    (submissions.map (·.idempotencyKey)).Nodup := by
  rw [h.minted]
  exact List.nodup_range.map fun i j hij => huuid (keyHeader_injective hij)

end History

/-! ## The invariant of the form -/

/-- The last submission has the key of the ref, and it was not denied. -/
def FormState.Live (s : FormState) : Prop :=
  (∃ last, s.submissions.getLast? = some last ∧
    last.idempotencyKey = keyHeader s.idempotencyKey) ∧ .denied s.current ∉ s.sent

/-- A pending mutation calls the newest closure, and counts its failures. -/
def FormState.MutationOk (s : FormState) : Prop :=
  match s.mutation with
  | .inFlight mutationFn n =>
    s.Live ∧ n ≤ 2 ∧ (attemptsOf s.current s.sent).length = n + 1 ∧ mutationFn = s.fields
  | .waiting mutationFn n =>
    s.Live ∧ n ≤ 2 ∧ (attemptsOf s.current s.sent).length = n ∧ mutationFn = s.fields
  | _ => True

/-- The invariant of the form. -/
structure FormState.Ok (uuid : Nat → String) (s : FormState) : Prop where
  history : History uuid s.submissions s.sent
  mutation : s.MutationOk

namespace FormState

variable {uuid : Nat → String} {s : FormState} {fields : Fields}

theorem Live.lt (h : s.Live) : s.current < s.submissions.length := by
  obtain ⟨⟨last, hlast, -⟩, -⟩ := h
  have hne : s.submissions ≠ [] := by
    intro hnil
    rw [hnil] at hlast
    cases hlast
  have := List.length_pos_iff.mpr hne
  unfold current
  omega

theorem Ok.init (preset : Option String) : (init preset).Ok uuid := ⟨.nil, trivial⟩

/-- An edit and the render that follows. -/
theorem Ok.edit (h : s.Ok uuid) : { s with fields }.render.Ok uuid := by
  refine ⟨h.history, ?_⟩
  have hm := h.mutation
  unfold MutationOk at hm ⊢
  simp only [render]
  cases hmut : s.mutation with
  | inFlight mutationFn n | waiting mutationFn n =>
    rw [hmut] at hm
    exact ⟨hm.1, hm.2.1, hm.2.2.1, rfl⟩
  | _ => trivial

/-- A call of the newest `mutationFn`. -/
theorem Ok.call (h : History uuid s.submissions s.sent) (hlive : s.Live) {n : Nat} (hn : n ≤ 2)
    (hlen : (attemptsOf s.current s.sent).length = n) : (s.call s.fields n).Ok uuid := by
  refine ⟨h.attempt hlive.lt hlive.2 (by omega) _, ⟨hlive.1, ?_⟩, hn, ?_, rfl⟩
  · intro hmem
    rcases List.mem_append.mp hmem with hmem | hmem
    · exact hlive.2 hmem
    · cases List.mem_singleton.mp hmem
  · show (attemptsOf s.current (s.sent ++ [_])).length = n + 1
    rw [attemptsOf_attempt, if_pos rfl, List.length_append, hlen, List.length_singleton]

theorem Ok.onSubmit (h : s.Ok uuid) : (s.onSubmit uuid).Ok uuid := by
  unfold FormState.onSubmit
  split
  · have hlen : (s.submissions ++ [consumeAttempt s.fields.request
        (uuid s.submissions.length)]).length - 1 = s.submissions.length := by simp
    refine Ok.call (h.history.submit s.fields.request) ⟨⟨_, List.getLast?_concat, rfl⟩, ?_⟩
      (Nat.zero_le _) ?_
    · intro hmem
      have := h.history.denied_lt _ hmem
      simp only [current, hlen] at this
      omega
    · rw [current, hlen, h.history.unsent _ (Nat.le_refl _)]
      rfl
  · exact h

theorem Ok.fail (h : s.Ok uuid) (err : Failure) : (s.fail err).Ok uuid := by
  have hm := h.mutation
  unfold MutationOk at hm
  unfold FormState.fail
  cases hmut : s.mutation with
  | inFlight mutationFn n =>
    rw [hmut] at hm
    obtain ⟨hlive, hn, hlen, hfn⟩ := hm
    cases err with
    | insufficientFunds balance required => exact ⟨h.history.denied hlive.lt, trivial⟩
    | other message =>
      by_cases hlt : n < 2
      · have hretry : UsageBilling.retry n (.other message) = true := by
          simp [UsageBilling.retry, Failure.isInsufficientFunds, hlt]
        simp only [hretry, ↓reduceIte]
        exact ⟨h.history, hlive, hlt, hlen, hfn⟩
      · have hretry : UsageBilling.retry n (.other message) = false := by
          simp [UsageBilling.retry, Failure.isInsufficientFunds, hlt]
        simp only [hretry, Bool.false_eq_true, ↓reduceIte]
        exact ⟨h.history, trivial⟩
  | _ => exact h

/-- Before a retry. -/
theorem Ok.waiting (h : s.Ok uuid) {mutationFn : Fields} {n : Nat}
    (hmut : s.mutation = .waiting mutationFn n) :
    s.Live ∧ n ≤ 2 ∧ (attemptsOf s.current s.sent).length = n ∧ mutationFn = s.fields := by
  have hm := h.mutation
  unfold MutationOk at hm
  rwa [hmut] at hm

theorem Ok.retry (h : s.Ok uuid) : s.retry.Ok uuid := by
  unfold FormState.retry
  cases hmut : s.mutation with
  | waiting mutationFn n =>
    obtain ⟨hlive, hn, hlen, rfl⟩ := h.waiting hmut
    exact .call h.history hlive hn hlen
  | _ => exact h

theorem Ok.succeed (h : s.Ok uuid) : s.succeed.Ok uuid := by
  unfold FormState.succeed
  split
  · exact ⟨h.history, trivial⟩
  · exact h

theorem Ok.step (h : s.Ok uuid) (e : FormEvent) : (s.step uuid e).Ok uuid := by
  cases e with
  | editCustomer customerId =>
    simp only [FormState.step]
    split
    · exact h
    · exact h.edit
  | editProduct productId => exact h.edit
  | editQuantity quantity => exact h.edit
  | render => exact h.edit
  | submit => exact h.onSubmit
  | fail err => exact h.fail err
  | retry => exact h.retry
  | succeed => exact h.succeed

end FormState

theorem runForm_concat (uuid : Nat → String) (preset : Option String) (events : List FormEvent)
    (e : FormEvent) :
    runForm uuid preset (events ++ [e]) = (runForm uuid preset events).step uuid e := by
  rw [runForm, runForm, List.foldl_append]
  rfl

/-- Every reachable form is `Ok`. -/
theorem runForm_ok (uuid : Nat → String) (preset : Option String) (events : List FormEvent) :
    (runForm uuid preset events).Ok uuid := by
  induction events using List.reverseRecOn with
  | nil => exact .init preset
  | append_singleton events e ih =>
    rw [runForm_concat]
    exact ih.step e

/-! ## Which attempts are the submitted request -/

namespace FormState

variable {uuid : Nat → String} {s : FormState}

/-- The history only grows. -/
theorem step_history (uuid : Nat → String) (s : FormState) (e : FormEvent) :
    s.submissions <+: (s.step uuid e).submissions ∧ s.sent <+: (s.step uuid e).sent := by
  cases e with
  | editCustomer customerId =>
    simp only [step]
    split <;> exact ⟨List.prefix_refl _, List.prefix_refl _⟩
  | submit =>
    simp only [step, onSubmit]
    split
    · exact ⟨List.prefix_append _ _, List.prefix_append _ _⟩
    · exact ⟨List.prefix_refl _, List.prefix_refl _⟩
  | fail err =>
    simp only [step, fail]
    split
    · refine ⟨List.prefix_refl _, ?_⟩
      show s.sent <+: if err.isInsufficientFunds then s.sent ++ [.denied s.current] else s.sent
      split
      · exact List.prefix_append _ _
      · exact List.prefix_refl _
    · exact ⟨List.prefix_refl _, List.prefix_refl _⟩
  | retry =>
    simp only [step, retry]
    split
    · exact ⟨List.prefix_refl _, List.prefix_append _ _⟩
    · exact ⟨List.prefix_refl _, List.prefix_refl _⟩
  | succeed =>
    simp only [step, succeed]
    split <;> exact ⟨List.prefix_refl _, List.prefix_refl _⟩
  | _ => exact ⟨List.prefix_refl _, List.prefix_refl _⟩

/-- The attempt of a retry has the key of the last submission, and the body of the form. -/
theorem Ok.retry_sent (h : s.Ok uuid) (hw : s.mutation.isWaiting = true) :
    ∃ last, s.submissions[s.current]? = some last ∧ s.submissions.getLast? = some last ∧
      s.retry.sent = s.sent ++ [.attempt s.current ⟨last.idempotencyKey, s.fields.request⟩] := by
  unfold FormState.retry
  cases hmut : s.mutation with
  | waiting mutationFn n =>
    obtain ⟨⟨⟨last, hlast, hkey⟩, -⟩, -, -, rfl⟩ := h.waiting hmut
    refine ⟨last, ?_, hlast, ?_⟩
    · rw [← hlast, List.getLast?_eq_getElem?]
      rfl
    · rw [hkey]
      rfl
  | _ => rw [hmut] at hw; cases hw

/-- Every attempt is what its submission was in the form. -/
def Same (s : FormState) : Prop := ∀ i a, .attempt i a ∈ s.sent → s.submissions[i]? = some a

theorem Same.onSubmit (h : s.Same) : (s.onSubmit uuid).Same := by
  unfold FormState.onSubmit
  split
  · intro i a ha
    have hlen : (s.submissions ++ [consumeAttempt s.fields.request
        (uuid s.submissions.length)]).length - 1 = s.submissions.length := by simp
    rcases List.mem_append.mp ha with ha | ha
    · have := h i a ha
      exact (List.getElem?_append_left (List.getElem?_eq_some_iff.mp this).1).trans this
    · obtain ⟨rfl, rfl⟩ := Sent.attempt.inj (List.mem_singleton.mp ha)
      simp only [current, hlen]
      exact List.getElem?_concat_length
  · exact h

theorem Same.fail (h : s.Same) (err : Failure) : (s.fail err).Same := by
  unfold FormState.fail
  split
  · intro i a ha
    refine h i a ?_
    change Sent.attempt i a ∈
      (if err.isInsufficientFunds then s.sent ++ [.denied s.current] else s.sent) at ha
    split at ha
    · simpa using ha
    · exact ha
  · exact h

theorem retry_of_not_waiting (h : s.mutation.isWaiting = false) : s.retry = s := by
  unfold FormState.retry
  split
  · rename_i hmut
    rw [hmut] at h
    cases h
  · rfl

theorem retry_submissions (s : FormState) : s.retry.submissions = s.submissions := by
  unfold FormState.retry
  split <;> rfl

/-- A retry of an unchanged form sends what was submitted. -/
theorem Same.retry (h : s.Same) (hok : s.Ok uuid) (hbody : s.RetryUnchanged) : s.retry.Same := by
  cases hw : s.mutation.isWaiting with
  | false =>
    rw [retry_of_not_waiting hw]
    exact h
  | true =>
    obtain ⟨last, hget, hlast, hsent⟩ := hok.retry_sent hw
    have hbody := hbody hw
    rw [hlast] at hbody
    intro i a ha
    rw [retry_submissions]
    rw [hsent] at ha
    rcases List.mem_append.mp ha with ha | ha
    · exact h i a ha
    · obtain ⟨rfl, rfl⟩ := Sent.attempt.inj (List.mem_singleton.mp ha)
      rw [hget, ← Option.some.inj hbody]

/-- Only a retry can send something else than what was submitted. -/
theorem Same.step (h : s.Same) (hok : s.Ok uuid) {e : FormEvent}
    (he : e = .retry → s.RetryUnchanged) : (s.step uuid e).Same := by
  cases e with
  | editCustomer customerId =>
    simp only [FormState.step]
    split <;> exact h
  | submit => exact h.onSubmit
  | fail err => exact h.fail err
  | retry => exact h.retry hok (he rfl)
  | succeed =>
    simp only [FormState.step, succeed]
    split <;> exact h
  | _ => exact h

end FormState

/-- The history of a run only grows. -/
theorem runForm_history (uuid : Nat → String) (preset : Option String)
    (events post : List FormEvent) :
    (runForm uuid preset events).submissions <+:
        (runForm uuid preset (events ++ post)).submissions ∧
      (runForm uuid preset events).sent <+: (runForm uuid preset (events ++ post)).sent := by
  induction post using List.reverseRecOn with
  | nil =>
    rw [List.append_nil]
    exact ⟨List.prefix_refl _, List.prefix_refl _⟩
  | append_singleton post e ih =>
    rw [← List.append_assoc, runForm_concat]
    obtain ⟨hsub, hsent⟩ := FormState.step_history uuid (runForm uuid preset (events ++ post)) e
    exact ⟨ih.1.trans hsub, ih.2.trans hsent⟩

theorem runForm_same {uuid : Nat → String} {preset : Option String} {events : List FormEvent}
    (h : ∀ k, events[k]? = some .retry →
      (runForm uuid preset (events.take k)).RetryUnchanged) :
    (runForm uuid preset events).Same := by
  induction events using List.reverseRecOn with
  | nil => exact fun i a ha => by cases ha
  | append_singleton events e ih =>
    rw [runForm_concat]
    refine (ih fun k hk => ?_).step (runForm_ok uuid preset events) fun he => ?_
    · have hlt := (List.getElem?_eq_some_iff.mp hk).1
      have := h k (by rw [List.getElem?_append_left hlt]; exact hk)
      rwa [List.take_append_of_le_length (Nat.le_of_lt hlt)] at this
    · have := h events.length (by rw [List.getElem?_concat_length, he])
      rwa [List.take_left'] at this
      rfl

/-- In every run of the form, all attempts of a submission are the same request, as it was in the
form at the submit, exactly if every retry finds the form unchanged. The key, the number of
attempts and the stop after a 402 need nothing. -/
theorem same_submissions_iff (uuid : Nat → String) (huuid : Function.Injective uuid)
    (preset : Option String) (events : List FormEvent) :
    SameSubmissions (runForm uuid preset events) ↔
      ∀ k, events[k]? = some .retry →
        (runForm uuid preset (events.take k)).RetryUnchanged := by
  have hok := runForm_ok uuid preset events
  refine ⟨fun h k hk hw => ?_, fun h => ?_⟩
  · obtain ⟨last, hget, hlast, hsent⟩ := (runForm_ok uuid preset (events.take k)).retry_sent hw
    have htake : events.take (k + 1) = events.take k ++ [.retry] := by
      rw [List.take_add_one, hk]
      rfl
    -- the retry's attempt and its submission are still in the history at the end
    obtain ⟨-, hsub⟩ := runForm_history uuid preset (events.take (k + 1)) (events.drop (k + 1))
    obtain ⟨hsubs, -⟩ := runForm_history uuid preset (events.take k) (events.drop k)
    rw [List.take_append_drop] at hsub hsubs
    rw [htake, runForm_concat] at hsub
    have hmem : Sent.attempt (runForm uuid preset (events.take k)).current
        ⟨last.idempotencyKey, (runForm uuid preset (events.take k)).fields.request⟩ ∈
          (runForm uuid preset events).sent := by
      refine hsub.subset ?_
      show _ ∈ (runForm uuid preset (events.take k)).retry.sent
      rw [hsent]
      exact List.mem_append_right _ (List.mem_singleton.mpr rfl)
    have hsame := h.same _ _ hmem
    obtain ⟨later, hlater⟩ := hsubs
    have hlt := (List.getElem?_eq_some_iff.mp hget).1
    rw [← hlater, List.getElem?_append_left hlt, hget] at hsame
    rw [hlast, Option.map_some, Option.some.inj hsame]
  · exact ⟨runForm_same h, hok.history.atMostThree, hok.history.notAfterDenied,
      hok.history.keys huuid⟩

/-- Keys that never repeat. -/
def sampleUuid (n : Nat) : String := String.ofList (List.replicate (n + 1) 'k')

theorem sampleUuid_injective : Function.Injective sampleUuid := fun m n h => by
  have hlen := congrArg String.length h
  simpa [sampleUuid] using hlen

/-- A submission that fails twice, is retried twice and succeeds. -/
def steady : List FormEvent :=
  [.editCustomer "c1", .editProduct "p1", .submit, .fail (.other "network blip"), .retry,
    .fail (.other "network blip"), .retry, .succeed]

theorem same_submissions_steady : SameSubmissions (runForm sampleUuid none steady) := by
  refine (same_submissions_iff sampleUuid sampleUuid_injective none steady).mpr fun k hk => ?_
  have hlt : k < 8 := (List.getElem?_eq_some_iff.mp hk).1
  interval_cases k <;> first | (simp [steady] at hk; done) | decide +kernel

/-- A submission of one unit whose quantity is edited to 5 before the retry. -/
def drifted : List FormEvent :=
  [.editCustomer "c1", .editProduct "p1", .submit, .fail (.other "network blip"),
    .editQuantity "5", .retry]

/-- The retry of an edited form posts the edited body under the key of the first attempt. -/
theorem retry_not_always_same :
    ¬ ∀ (uuid : Nat → String), Function.Injective uuid → ∀ (preset : Option String)
        (events : List FormEvent), SameSubmissions (runForm uuid preset events) := by
  intro h
  have hsame := (h sampleUuid sampleUuid_injective none drifted).same 0
    ⟨some "k", ⟨"c1", "p1", .finite 5⟩⟩ (by decide +kernel)
  exact absurd hsame (by decide +kernel)

end UsageBilling
