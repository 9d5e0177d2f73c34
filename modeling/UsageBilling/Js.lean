import Mathlib.Algebra.Order.Ring.Rat
import Mathlib.Algebra.Order.Ring.Cast

/-!
# JavaScript values that reach the routes

* `Number`: a number, with exact rationals for the finite ones.
* `Number.ofString`: `Number(text)`, without the rounding to a double.
* `Json`: a parsed JSON value; `field` is `body.name`, `none` for `undefined`.
-/

namespace UsageBilling.Js

/-- A JavaScript number. -/
inductive Number where
  | nan
  | infinity (negative : Bool)
  | finite (q : ℚ)
  deriving DecidableEq

namespace Number

/-- `Number.isInteger(x)` -/
def isInteger : Number → Bool
  | .finite q => q.den = 1
  | _ => false

/-- `x <= 0` -/
def nonpositive : Number → Bool
  | .nan => false
  | .infinity negative => negative
  | .finite q => q ≤ 0

/-- The integer that `isInteger` found. -/
def toInt : Number → Int
  | .finite q => q.num
  | _ => 0

/-- `!Number.isInteger(x) || x <= 0`, as the routes refuse it. -/
def notPositiveInteger (x : Number) : Bool := !x.isInteger || x.nonpositive

@[simp] theorem toInt_intCast (n : Int) : (finite (n : ℚ)).toInt = n := by simp [toInt]

theorem notPositiveInteger_intCast (n : Int) :
    (finite (n : ℚ)).notPositiveInteger = decide (n ≤ 0) := by
  simp [notPositiveInteger, isInteger, nonpositive, Int.cast_nonpos]

/-- A number that the routes accept is a positive integer. -/
theorem pos_of_accepted {x : Number} (h : x.notPositiveInteger = false) :
    0 < x.toInt ∧ x = .finite (x.toInt : ℚ) := by
  cases x with
  | finite q =>
    simp only [notPositiveInteger, isInteger, nonpositive, Bool.or_eq_false_iff,
      Bool.not_eq_false', decide_eq_true_eq, decide_eq_false_iff_not] at h
    exact ⟨Rat.num_pos.mpr (lt_of_not_ge h.2), by rw [toInt, Rat.den_eq_one_iff q |>.mp h.1]⟩
  | _ => cases h

end Number

/-! ## Text -/

/-- White space and line terminators. -/
def isSpace (c : Char) : Bool :=
  c.toNat ∈ [0x09, 0x0A, 0x0B, 0x0C, 0x0D, 0x20, 0xA0, 0x1680, 0x2028, 0x2029, 0x202F, 0x205F,
    0x3000, 0xFEFF] || (0x2000 ≤ c.toNat && c.toNat ≤ 0x200A)

/-- `text.trim()` -/
def trim (text : String) : List Char :=
  ((text.toList.dropWhile isSpace).reverse.dropWhile isSpace).reverse

/-- The value of a digit in this base. -/
def digit? (base : Nat) (c : Char) : Option Nat :=
  let d := if '0' ≤ c ∧ c ≤ '9' then c.toNat - '0'.toNat
    else if 'a' ≤ c ∧ c ≤ 'z' then c.toNat - 'a'.toNat + 10
    else if 'A' ≤ c ∧ c ≤ 'Z' then c.toNat - 'A'.toNat + 10
    else base
  if d < base then some d else none

/-- The value of a nonempty run of digits. -/
def digits? (base : Nat) (cs : List Char) : Option Nat :=
  if cs.isEmpty then none
  else cs.foldlM (fun n c => (digit? base c).map (n * base + ·)) 0

/-- The part after `e`. -/
def exponent? : List Char → Option Int
  | [] => some 0
  | _ :: '-' :: cs => (digits? 10 cs).map fun n => -(n : Int)
  | _ :: '+' :: cs => (digits? 10 cs).map fun n => (n : Int)
  | _ :: cs => (digits? 10 cs).map fun n => (n : Int)

/-- An unsigned decimal literal: digits with an optional point, and an optional exponent. -/
def decimal? (cs : List Char) : Option ℚ :=
  let (mantissa, exponent) := cs.span fun c => c ≠ 'e' && c ≠ 'E'
  let (whole, fraction) := mantissa.span (· ≠ '.')
  (digits? 10 (whole ++ fraction.drop 1)).bind fun m =>
    (exponent? exponent).map fun e =>
      let e := e - ((fraction.drop 1).length : Int)
      mkRat (m * 10 ^ e.toNat) (10 ^ (-e).toNat)

/-- An unsigned literal: `Infinity` or a decimal. -/
def unsigned (negative : Bool) (cs : List Char) : Number :=
  if cs = "Infinity".toList then .infinity negative
  else
    match decimal? cs with
    | none => .nan
    | some q => .finite (if negative then -q else q)

/-- A literal after its `0x`, `0o` or `0b`. -/
def ofRadix (base : Nat) (cs : List Char) : Number :=
  match digits? base cs with
  | none => .nan
  | some n => .finite n

/-- `Number(text)`, but for the rounding: a text with more digits than a double holds keeps its
exact value. -/
def Number.ofString (text : String) : Number :=
  match trim text with
  | [] => .finite 0
  | '0' :: 'x' :: cs | '0' :: 'X' :: cs => ofRadix 16 cs
  | '0' :: 'o' :: cs | '0' :: 'O' :: cs => ofRadix 8 cs
  | '0' :: 'b' :: cs | '0' :: 'B' :: cs => ofRadix 2 cs
  | '-' :: cs => unsigned true cs
  | '+' :: cs => unsigned false cs
  | cs => unsigned false cs

example : Number.ofString " 1.50e1 " = .finite 15 := by decide +kernel

/-! ## JSON -/

/-- A parsed JSON value. -/
inductive Json where
  | null
  | bool (b : Bool)
  | number (x : Number)
  | string (s : String)
  | array (items : List Json)
  | object (fields : List (String × Json))

/-- An object or an array: what the strict parser of `express.json()` accepts. -/
def Json.isContainer : Json → Bool
  | .array _ | .object _ => true
  | _ => false

/-- `value.name`, `none` for `undefined`. -/
def Json.field (name : String) : Json → Option Json
  | .object fields => (fields.find? fun f => f.1 = name).map (·.2)
  | _ => none

/-- `typeof value === "string" && value.length > 0` -/
def Json.nonemptyString? : Option Json → Option String
  | some (.string s) => if s = "" then none else some s
  | _ => none

/-- `typeof value === "number" && Number.isInteger(value) && value > 0` -/
def Json.positiveInteger? : Option Json → Option Int
  | some (.number x) => if x.notPositiveInteger then none else some x.toInt
  | _ => none

theorem Json.pos_of_positiveInteger? {value : Option Json} {n : Int}
    (h : Json.positiveInteger? value = some n) : 0 < n := by
  unfold Json.positiveInteger? at h
  split at h
  · split at h
    · cases h
    · rename_i hx
      cases h
      exact (Number.pos_of_accepted (Bool.eq_false_iff.mpr hx)).1
  · cases h

end UsageBilling.Js
