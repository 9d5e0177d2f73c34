import Mathlib.Data.List.Basic
import Mathlib.Order.Lattice

/-!
# Paging by a seek on a descending key

A list is served newest first, in strictly descending order of a key. A page starts after the row
whose key is the cursor, so it does not move when new rows are put in front.

* `seek key cursor rows`: the rows from the cursor's row on, without that row.
* `Rest key cursor rows rest`: `rest` is what follows the cursor. `Rest.seek_eq`, `Rest.grow` and
  `Rest.next`: a seek finds it, new rows do not change it, and the last row of a page is the next
  cursor.
* `probe_length`, `probe_take`: one row more than the page says if there is a next page.
* `filter_le_of_mem`, `filter_le_of_not_mem`: the rows up to a key, and the rows before it.
-/

section Seek

variable {α : Type} {key : α → Nat}

/-- The rows after the row with the key `cursor`; all rows if there is no cursor. -/
def seek (key : α → Nat) : Option Nat → List α → List α
  | none, rows => rows
  | some c, rows => (rows.filter fun a => key a ≤ c).drop 1

/-- `rest` follows the cursor in `rows`. -/
def Rest (key : α → Nat) (cursor : Option Nat) (rows rest : List α) : Prop :=
  match cursor with
  | none => rows = rest
  | some c => ∃ front x, rows = front ++ x :: rest ∧ key x = c

variable {rows rows' rest : List α} {cursor : Option Nat} {n c : Nat}

theorem Rest.seek_eq (h : Rest key cursor rows rest)
    (hdesc : rows.Pairwise fun a b => key b < key a) : seek key cursor rows = rest := by
  cases cursor with
  | none => exact h
  | some c =>
    obtain ⟨front, x, rfl, rfl⟩ := h
    rw [List.pairwise_append] at hdesc
    obtain ⟨-, hrest, hfront⟩ := hdesc
    have hnone : front.filter (fun a => key a ≤ key x) = [] := by
      refine List.filter_eq_nil_iff.mpr fun a ha => ?_
      have := hfront a ha x (by simp)
      simpa using this
    have hall : (x :: rest).filter (fun a => key a ≤ key x) = x :: rest := by
      refine List.filter_eq_self.mpr fun a ha => ?_
      rcases List.mem_cons.mp ha with rfl | ha
      · simp
      · have := List.rel_of_pairwise_cons hrest ha
        simp only [decide_eq_true_eq]
        omega
    rw [seek, List.filter_append, hnone, hall]
    rfl

/-- New rows in front do not change what follows a cursor. -/
theorem Rest.grow (h : Rest key (some c) rows rest) (hgrow : rows <:+ rows') :
    Rest key (some c) rows' rest := by
  obtain ⟨front, x, rfl, hx⟩ := h
  obtain ⟨newer, rfl⟩ := hgrow
  exact ⟨newer ++ front, x, by rw [List.append_assoc], hx⟩

/-- The key of the last row of a page of `n` rows is the cursor of the next page. -/
theorem Rest.next (h : Rest key cursor rows rest) (hn : 0 < n) (hlt : n < rest.length) :
    ∃ x ∈ rest, (rest.take n).getLast? = some x ∧
      Rest key (some (key x)) rows (rest.drop n) := by
  obtain ⟨front, hrows⟩ : ∃ front, rows = front ++ rest := by
    cases cursor with
    | none => exact ⟨[], h⟩
    | some c =>
      obtain ⟨front, x, rfl, -⟩ := h
      exact ⟨front ++ [x], by simp⟩
  have hne : rest.take n ≠ [] := by
    intro hnil
    have := congrArg List.length hnil
    rw [List.length_take, List.length_nil] at this
    omega
  refine ⟨(rest.take n).getLast hne, List.mem_of_mem_take (List.getLast_mem hne),
    List.getLast?_eq_some_getLast hne, front ++ (rest.take n).dropLast, _, ?_, rfl⟩
  rw [hrows, List.append_assoc]
  congr 1
  rw [← List.singleton_append, ← List.append_assoc, List.dropLast_append_getLast,
    List.take_append_drop]

theorem probe_length : n < (rest.take (n + 1)).length ↔ n < rest.length := by
  rw [List.length_take]
  omega

/-- The probe row is cut off. -/
theorem probe_take : (if n < rest.length then (rest.take (n + 1)).take n
    else rest.take (n + 1)) = rest.take n := by
  split
  · rw [List.take_take, Nat.min_eq_left (by omega)]
  · rw [List.take_of_length_le (by omega), List.take_of_length_le (by omega)]

/-! ## Any cursor -/

variable {κ : Type} [LinearOrder κ] {col : α → κ} {x : α} {k : κ}

/-- A row with the key is the first one up to this key. -/
theorem filter_le_of_mem (hdesc : rows.Pairwise fun a b => col b < col a) (hx : x ∈ rows) :
    rows.filter (fun a => col a ≤ col x) = x :: rows.filter fun a => col a < col x := by
  induction rows with
  | nil => cases hx
  | cons a rows ih =>
    obtain ⟨hhead, htail⟩ := List.pairwise_cons.mp hdesc
    rcases List.mem_cons.mp hx with rfl | hx
    · have hlt : ∀ b ∈ rows, decide (col b ≤ col x) = decide (col b < col x) := fun b hb =>
        decide_eq_decide.mpr ⟨fun _ => hhead b hb, le_of_lt⟩
      rw [List.filter_cons_of_pos (by simp), List.filter_cons_of_neg (by simp),
        List.filter_congr hlt]
    · have hgt := hhead x hx
      rw [List.filter_cons_of_neg (by simpa using hgt), List.filter_cons_of_neg
        (by simpa using le_of_lt hgt), ih htail hx]

theorem filter_le_of_not_mem (h : ∀ a ∈ rows, col a ≠ k) :
    rows.filter (fun a => col a ≤ k) = rows.filter fun a => col a < k :=
  List.filter_congr fun a ha =>
    decide_eq_decide.mpr ⟨fun hle => lt_of_le_of_ne hle (h a ha), le_of_lt⟩

end Seek
