import Mathlib.Algebra.Order.Round
import Mathlib.Data.Rat.Floor
import Mathlib.Tactic.Positivity
import Mathlib.Tactic.Linarith
import Mathlib.Tactic.NormNum
import Mathlib.Tactic.Ring
import UsageBilling.Verdict

/-!
# `CreditForm` (`frontend/src/CreditForm.tsx`) against the credits route

The operator enters major units as text; the form posts minor units. Numbers are exact rationals
(`Number(amount)` and `* 100` do not round), and `Math.round` is `round` (a tie goes up). Instead
of asking whether the cents are an integer, the form allows a distance of `1e-9` to the rounded
value. The amount is an `<input type="number" min="0.01" step="0.01">`: before `onSubmit` the
browser checks these two, in its own way (`Browser`).

* `TopUpForm`: the form's text and whether its mutation is pending; `canSubmit`, `onSubmit`,
  `click`.
* `TopUpForm.Agrees`: the form allows the amounts of whole cents, and the wallet is credited by what
  was typed.
* `creditForm_agrees_iff`: the amounts at which it does.
-/

namespace UsageBilling

open Js

/-! ## The form -/

/-- What the model takes from the browser: its constraint validation of the input. -/
structure Browser where
  /-- The input is valid at this number, so a click on the button submits the form. -/
  valid : ℚ → Bool
  /-- `min="0.01"` -/
  min_le : ∀ m, valid m = true → 1 / 100 ≤ m
  /-- `step="0.01"`: whole steps from `min` on are valid. -/
  valid_of_steps : ∀ n : ℕ, valid (1 / 100 + n / 100) = true

/-- A browser that checks the steps in exact arithmetic. -/
def Browser.exact : Browser where
  valid m := decide (1 / 100 ≤ m) && decide ((100 * m).den = 1)
  min_le m h := by
    rw [Bool.and_eq_true, decide_eq_true_eq] at h
    exact h.1
  valid_of_steps n := by
    have hcents : 100 * (1 / 100 + (n : ℚ) / 100) = ((n + 1 : ℕ) : ℚ) := by push_cast; ring
    rw [hcents, Rat.den_natCast, Bool.and_eq_true, decide_eq_true_eq]
    refine ⟨?_, rfl⟩
    have : (0 : ℚ) ≤ n / 100 := by positivity
    linarith

/-- The state of the form. -/
structure TopUpForm where
  /-- The text of the input. -/
  amount : String
  /-- `mutation.isPending` -/
  isPending : Bool := false

namespace TopUpForm

/-- `Number(amount)`, as the exact number that the text writes: nothing is rounded to a double. -/
def major (f : TopUpForm) : Number := .ofString f.amount

/-- `major * 100` -/
def cents (major : ℚ) : ℚ := major * 100

/-- `Math.round(cents)`; no form with a number that is not finite submits it. -/
def minorUnits (f : TopUpForm) : Int :=
  match f.major with
  | .finite major => round (cents major)
  | _ => 0

/-- `Math.abs(cents - minorUnits) < 1e-9` -/
def nearCent (major : ℚ) : Bool := |cents major - round (cents major)| < 1 / 10 ^ 9

/-- The text is not blank, and it is a finite positive number near a whole cent. -/
def amountValid (f : TopUpForm) : Bool :=
  !(trim f.amount).isEmpty &&
    match f.major with
    | .finite major => 0 < major && nearCent major
    | _ => false

/-- The button is enabled. -/
def canSubmit (f : TopUpForm) : Bool := f.amountValid && !f.isPending

/-- The argument of `mutate`, if `onSubmit` calls it. -/
def onSubmit (f : TopUpForm) : Option Int := if f.canSubmit then some f.minorUnits else none

/-- A click on the button: the browser calls `onSubmit` if the input is valid. A text that is no
finite number leaves the input empty, and the button disabled. -/
def click (B : Browser) (f : TopUpForm) : Option Int :=
  match f.major with
  | .finite major => if B.valid major then f.onSubmit else none
  | _ => none

/-- The body that `creditWallet` of `api.ts` posts. -/
def creditBody (amount : Int) : Json := .object [("amount", .number (.finite amount))]

/-- The form and the server agree on the amount `m`: the form allows exactly the positive amounts of
whole cents, and what it posts passes the route and credits the wallet by what was typed. -/
structure Agrees (P : Prisma) (B : Browser) (f : TopUpForm) (m : ℚ) : Prop where
  allows : (f.click B).isSome ↔ 0 < m ∧ ∃ n : ℤ, 100 * m = n
  posts : ∀ n, f.click B = some n → (n : ℚ) = 100 * m
  passes : ∀ n, f.click B = some n → ∀ customerId,
    parseCredit customerId (creditBody n) = .ok { customerId, amount := n }
  credits : ∀ n, f.click B = some n → ∀ s customerId c,
    s.customers.find? customerId = some c →
    ∃ e c', (postCredits P customerId (creditBody n) s).1 = ⟨201, .entry e⟩ ∧
      (e.amount : ℚ) = 100 * m ∧
      (postCredits P customerId (creditBody n) s).2.customers.find? customerId = some c' ∧
      (c'.balance : ℚ) = c.balance + 100 * m

end TopUpForm

/-! ## The route on the form's body -/

section Route

variable {P : Prisma} {s : Store} {customerId : String} {n : Int}

theorem parseCredit_creditBody (customerId : String) (n : Int) :
    parseCredit customerId (TopUpForm.creditBody n) =
      if n ≤ 0 then .error (invalidRequest "amount must be a positive integer (minor units)")
      else .ok { customerId, amount := n } := by
  have hfield : (TopUpForm.creditBody n).field "amount" = some (.number (.finite n)) := rfl
  simp only [parseCredit, hfield, Json.positiveInteger?, Number.notPositiveInteger_intCast,
    Number.toInt_intCast, decide_eq_true_eq]
  by_cases hn : n ≤ 0
  · rw [if_pos hn, if_pos hn]
  · rw [if_neg hn, if_neg hn]

/-- A posted amount that Prisma reads back credits the wallet. -/
theorem postCredits_credited {c : Customer} (hn : 0 < n) (hread : P.column n = true)
    (hc : s.customers.find? customerId = some c) :
    ∃ e, (postCredits P customerId (TopUpForm.creditBody n) s).1 = ⟨201, .entry e⟩ ∧
      e.amount = n ∧
      (postCredits P customerId (TopUpForm.creditBody n) s).2.customers.find? customerId =
        some { c with balance := c.balance + n } := by
  have hparse := parseCredit_creditBody customerId n
  rw [if_neg (by omega)] at hparse
  have hbal := s.balance_nonneg_of_find? hc
  let input : CreditInput := { customerId, amount := n }
  have hread' : P.column input.amount = true := hread
  obtain ⟨e, hans, he, hp⟩ := service_credited hread' hc (show 0 ≤ c.balance + n by omega)
  have hid : e.customerId = customerId := congrArg LedgerData.customerId he
  have hamount : e.amount = n := congrArg LedgerData.amount he
  rw [postCredits_parsed hparse]
  refine ⟨e, ?_, hamount, ?_⟩
  · exact respondCredit_created.mpr hans
  · have hself := hp.find?_self (hid ▸ hc)
    rw [hid, hamount] at hself
    exact hself

end Route

/-! ## When they agree -/

namespace TopUpForm

variable {P : Prisma} {B : Browser} {amount : String} {m : ℚ} {n : Int}

theorem ofString_blank (h : trim amount = []) : Number.ofString amount = .finite 0 := by
  rw [Number.ofString, h]

/-- The rounded cents are within the tolerance if any whole cents are. -/
theorem nearCent_iff : nearCent m = true ↔ ∃ k : ℤ, |100 * m - k| < 1 / 10 ^ 9 := by
  rw [nearCent, decide_eq_true_eq, cents, mul_comm m 100]
  exact ⟨fun h => ⟨_, h⟩, fun ⟨k, hk⟩ => lt_of_le_of_lt (round_le _ k) hk⟩

/-- `canSubmit` of the amount `m`. A blank text is `0`. -/
theorem canSubmit_iff (h : Number.ofString amount = .finite m) :
    (TopUpForm.mk amount false).canSubmit = true ↔
      0 < m ∧ ∃ k : ℤ, |100 * m - k| < 1 / 10 ^ 9 := by
  have hmajor : (TopUpForm.mk amount false).major = .finite m := h
  simp only [canSubmit, amountValid, hmajor, ← nearCent_iff, Bool.not_false, Bool.and_true,
    Bool.and_eq_true, Bool.not_eq_true', decide_eq_true_eq, and_iff_right_iff_imp]
  rintro ⟨hpos, -⟩
  refine Bool.eq_false_iff.mpr fun hblank => ?_
  have h0 := ofString_blank (List.isEmpty_iff.mp hblank)
  rw [h0] at h
  obtain rfl := Number.finite.inj h
  exact lt_irrefl _ hpos

/-- A click posts the rounded cents, if the browser and the form allow the amount. -/
theorem click_eq (h : Number.ofString amount = .finite m) :
    (TopUpForm.mk amount false).click B = some n ↔
      (B.valid m = true ∧ (TopUpForm.mk amount false).canSubmit = true) ∧
        n = round (100 * m) := by
  have hmajor : (TopUpForm.mk amount false).major = .finite m := h
  simp only [click, hmajor, onSubmit, minorUnits, cents, mul_comm m 100]
  by_cases hvalid : B.valid m = true
  · by_cases hcan : (TopUpForm.mk amount false).canSubmit = true
    · simp [hvalid, hcan, eq_comm]
    · simp [hcan]
  · simp [hvalid]

theorem isSome_click (h : Number.ofString amount = .finite m) :
    ((TopUpForm.mk amount false).click B).isSome ↔
      B.valid m = true ∧ (TopUpForm.mk amount false).canSubmit = true := by
  rw [Option.isSome_iff_exists]
  exact ⟨fun ⟨n, hn⟩ => ((click_eq h).mp hn).1, fun hok => ⟨_, (click_eq h).mpr ⟨hok, rfl⟩⟩⟩

/-- An amount of whole cents is its own rounding. -/
theorem round_cents (hn : 100 * m = n) : round (100 * m) = n := by
  rw [hn, round_intCast]

theorem near_of_cents (hn : 100 * m = n) : |100 * m - n| < 1 / 10 ^ 9 := by
  rw [hn, sub_self, abs_zero]
  norm_num

theorem pos_of_cents (hpos : 0 < m) (hn : 100 * m = n) : 0 < n := by
  have : (0 : ℚ) < n := by rw [← hn]; positivity
  exact_mod_cast this

/-- Every browser finds positive whole cents valid: they are steps from `min` on. -/
theorem valid_of_cents (hpos : 0 < m) (hn : 100 * m = n) : B.valid m = true := by
  obtain ⟨k, rfl⟩ : ∃ k : ℕ, n = k + 1 := ⟨(n - 1).toNat, by have := pos_of_cents hpos hn; omega⟩
  have hm : m = 1 / 100 + (k : ℚ) / 100 := by
    push_cast at hn
    linarith
  rw [hm]
  exact B.valid_of_steps k

/-- Positive whole cents that Prisma reads back. -/
theorem agrees_of_cents (h : Number.ofString amount = .finite m) (hpos : 0 < m) (hn : 100 * m = n)
    (hread : P.column n = true) : Agrees P B ⟨amount, false⟩ m := by
  have hsub : ∀ k, (TopUpForm.mk amount false).click B = some k → k = n := fun k hk => by
    rw [((click_eq h).mp hk).2, round_cents hn]
  have hn0 := pos_of_cents hpos hn
  refine ⟨?_, ?_, ?_, ?_⟩
  · rw [isSome_click h, canSubmit_iff h]
    exact ⟨fun _ => ⟨hpos, n, hn⟩, fun _ =>
      ⟨valid_of_cents hpos hn, hpos, n, near_of_cents hn⟩⟩
  · intro k hk
    rw [hsub k hk, hn]
  · intro k hk customerId
    obtain rfl := hsub k hk
    rw [parseCredit_creditBody, if_neg (by omega)]
  · intro k hk s customerId c hc
    obtain rfl := hsub k hk
    obtain ⟨e, hcreated, hamount, hfind⟩ := postCredits_credited hn0 hread hc
    exact ⟨e, _, hcreated, by rw [hamount, hn], hfind, by push_cast; rw [hn]⟩

/-- Amounts that the browser or the form refuses, and that have no whole cents or are not
positive. -/
theorem agrees_of_refused (h : Number.ofString amount = .finite m)
    (hcents : ¬ (0 < m ∧ ∃ n : ℤ, 100 * m = n))
    (hno : ¬ (B.valid m = true ∧ (TopUpForm.mk amount false).canSubmit = true)) :
    Agrees P B ⟨amount, false⟩ m := by
  have hsub : ∀ k, (TopUpForm.mk amount false).click B ≠ some k := fun k hk =>
    hno ((click_eq h).mp hk).1
  exact ⟨iff_of_false (fun hsome => hno ((isSome_click h).mp hsome)) hcents,
    fun k hk => absurd hk (hsub k), fun k hk => absurd hk (hsub k),
    fun k hk => absurd hk (hsub k)⟩

/-- A form that submits and agrees has whole cents that Prisma reads back. -/
theorem Agrees.cents (h : Number.ofString amount = .finite m) (ha : Agrees P B ⟨amount, false⟩ m)
    (hok : B.valid m = true ∧ (TopUpForm.mk amount false).canSubmit = true) :
    ∃ n : ℤ, 100 * m = n ∧ P.column n = true := by
  obtain ⟨-, n, hn⟩ := ha.allows.mp ((isSome_click h).mpr hok)
  refine ⟨n, hn, ?_⟩
  have hsub : (TopUpForm.mk amount false).click B = some n :=
    (click_eq h).mpr ⟨hok, (round_cents hn).symm⟩
  -- any store with a customer shows it
  obtain ⟨e, -, hcreated, -⟩ := ha.credits n hsub (shop 0) "c1" ⟨"c1", "Ada", 0⟩ rfl
  have hparse := ha.passes n hsub "c1"
  rw [postCredits_parsed hparse, Prod.map_fst] at hcreated
  have hans := respondCredit_created.mp hcreated
  have hspec := credit_spec P { customerId := "c1", amount := n } (shop 0)
  rw [show ((creditWallet P _).run (shop 0)).1 = .ok e from hans] at hspec
  cases hspec with
  | posted hread => exact hread

end TopUpForm

/-- The form and the server agree exactly on the amounts below `min`, those that the browser
refuses, those of whole cents that Prisma reads back, and those at least `1e-9` away from all whole
cents. -/
theorem creditForm_agrees_iff (P : Prisma) (B : Browser) {amount : String} {m : ℚ}
    (h : Number.ofString amount = .finite m) :
    TopUpForm.Agrees P B ⟨amount, false⟩ m ↔
      m < 1 / 100 ∨ B.valid m = false ∨ (∃ n : ℤ, 100 * m = n ∧ P.column n = true) ∨
        ∀ k : ℤ, 1 / 10 ^ 9 ≤ |100 * m - k| := by
  have hcan := TopUpForm.canSubmit_iff h
  refine ⟨fun ha => ?_, ?_⟩
  · by_cases hok : B.valid m = true ∧ (TopUpForm.mk amount false).canSubmit = true
    · exact .inr (.inr (.inl (ha.cents h hok)))
    · by_cases hvalid : B.valid m = true
      · have hpos : 0 < m := lt_of_lt_of_le (by norm_num) (B.min_le m hvalid)
        have hno : ¬ ∃ k : ℤ, |100 * m - k| < 1 / 10 ^ 9 := fun hnear =>
          hok ⟨hvalid, hcan.mpr ⟨hpos, hnear⟩⟩
        exact .inr (.inr (.inr fun k => not_lt.mp fun hk => hno ⟨k, hk⟩))
      · exact .inr (.inl (Bool.eq_false_iff.mpr hvalid))
  · -- what the browser refuses is not of whole cents
    have hinvalid : B.valid m = false → TopUpForm.Agrees P B ⟨amount, false⟩ m := fun hno =>
      TopUpForm.agrees_of_refused h
        (fun ⟨hpos, n, hn⟩ => by rw [TopUpForm.valid_of_cents hpos hn] at hno; cases hno)
        (fun hok => by rw [hok.1] at hno; cases hno)
    rintro (hm | hno | ⟨n, hn, hread⟩ | hfar)
    · exact hinvalid (Bool.eq_false_iff.mpr fun hvalid =>
        absurd (B.min_le m hvalid) (not_le.mpr hm))
    · exact hinvalid hno
    · by_cases hpos : 0 < m
      · exact TopUpForm.agrees_of_cents h hpos hn hread
      · exact TopUpForm.agrees_of_refused h (fun hc => hpos hc.1)
          (fun hok => hpos (hcan.mp hok.2).1)
    · exact TopUpForm.agrees_of_refused h
        (fun ⟨_, n, hn⟩ => absurd (TopUpForm.near_of_cents hn) (not_lt.mpr (hfar n)))
        (fun hok => by
          obtain ⟨_, k, hk⟩ := hcan.mp hok.2
          exact absurd hk (not_lt.mpr (hfar k)))

theorem creditForm_agrees_iff_dollars :
    TopUpForm.Agrees .sqlite .exact ⟨"1.5", false⟩ (3 / 2) :=
  (creditForm_agrees_iff .sqlite .exact (by decide +kernel)).mpr
    (.inr (.inr (.inl ⟨150, by norm_num, by decide⟩)))

/-- Thirty million in whole cents is more than Prisma reads back. -/
theorem creditForm_disagrees : ¬ ∀ (amount : String) (m : ℚ),
    Number.ofString amount = .finite m →
      TopUpForm.Agrees .sqlite .exact ⟨amount, false⟩ m := by
  intro h
  have hm : Number.ofString "30000000" = .finite 30000000 := by decide +kernel
  have hcents : 100 * (30000000 : ℚ) = (3000000000 : ℤ) := by norm_num
  have hok : Browser.exact.valid 30000000 = true ∧
      (TopUpForm.mk "30000000" false).canSubmit = true :=
    ⟨TopUpForm.valid_of_cents (by norm_num) hcents,
      (TopUpForm.canSubmit_iff hm).mpr
        ⟨by norm_num, 3000000000, TopUpForm.near_of_cents hcents⟩⟩
  obtain ⟨n, hn, hread⟩ := (h "30000000" 30000000 hm).cents hm hok
  obtain rfl : n = 3000000000 := by exact_mod_cast hn.symm.trans hcents
  revert hread
  decide

end UsageBilling
