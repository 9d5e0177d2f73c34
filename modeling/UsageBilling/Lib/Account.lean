import Mathlib.Data.List.Nodup
import Mathlib.Algebra.BigOperators.Group.List.Basic
import Mathlib.Algebra.Ring.Int.Defs

/-!
# Accounts kept by postings

An account starts with a balance `b` and changes by signed postings only.

* `Solvent b xs`: the balance is never negative while the postings `xs` are added one by one.
* `eq_of_nodup_filterMap`, `filter_eq_of_nodup_filterMap`: in a journal whose optional keys are
  distinct, a key names one entry.
* `countP_set_eq`, `countP_set_succ`, `countP_flip`: the number of entries that satisfy a condition,
  when one entry changes, or the condition changes at one entry. `countP_le_add`: a condition that
  implies one of two others.
-/

/-- Adding `xs` to `b` one by one gives only nonnegative partial sums. -/
def Solvent (b : Int) (xs : List Int) : Prop := ∀ n, 0 ≤ b + (xs.take n).sum

namespace Solvent

variable {b x : Int} {xs : List Int}

theorem nil (h : 0 ≤ b) : Solvent b [] := fun n => by simpa using h

/-- One more posting keeps an account solvent if the new balance is nonnegative. -/
theorem snoc (h : Solvent b xs) (hx : 0 ≤ b + xs.sum + x) : Solvent b (xs ++ [x]) := by
  intro n
  by_cases hn : n ≤ xs.length
  · rw [List.take_append_of_le_length hn]; exact h n
  · rw [List.take_of_length_le (by simp; omega), List.sum_append, List.sum_singleton]
    omega

end Solvent

/-- Two entries with one key are the same entry, if the keys of a journal are distinct. -/
theorem eq_of_nodup_filterMap {α κ : Type} {key : α → Option κ} {l : List α}
    (hn : (l.filterMap key).Nodup) {a b : α} {k : κ} (ha : a ∈ l) (hb : b ∈ l)
    (hka : key a = some k) (hkb : key b = some k) : a = b := by
  induction l with
  | nil => simp at ha
  | cons c l ih =>
    have htail : (l.filterMap key).Nodup := by
      cases hc : key c <;> simp_all
    have hhead : ∀ d ∈ l, key d = some k → key c ≠ some k := by
      intro d hd hkd hkc
      rw [List.filterMap_cons_some hkc, List.nodup_cons] at hn
      exact hn.1 (List.mem_filterMap.mpr ⟨d, hd, hkd⟩)
    rcases List.mem_cons.mp ha with hac | hal <;> rcases List.mem_cons.mp hb with hbc | hbl
    · rw [hac, hbc]
    · exact absurd (hac ▸ hka) (hhead b hbl hkb)
    · exact absurd (hbc ▸ hkb) (hhead a hal hka)
    · exact ih htail hal hbl

theorem filter_eq_of_nodup_filterMap {α κ : Type} [DecidableEq κ] {key : α → Option κ} {l : List α}
    (hn : (l.filterMap key).Nodup) {k : κ} :
    (l.filter fun a => key a = some k) = (l.find? fun a => key a = some k).toList := by
  induction l with
  | nil => rfl
  | cons c l ih =>
    by_cases hc : key c = some k
    · -- no other entry has the key
      have hnone : ∀ a ∈ l, ¬ decide (key a = some k) = true := fun a ha hka => by
        rw [List.filterMap_cons_some hc, List.nodup_cons] at hn
        exact hn.1 (List.mem_filterMap.mpr ⟨a, ha, of_decide_eq_true hka⟩)
      rw [List.filter_cons_of_pos (by simpa using hc), List.find?_cons_of_pos (by simpa using hc),
        List.filter_eq_nil_iff.mpr hnone]
      rfl
    · have htail : (l.filterMap key).Nodup := by
        cases hk : key c <;> simp_all
      rw [List.filter_cons_of_neg (by simpa using hc), List.find?_cons_of_neg (by simpa using hc),
        ih htail]

section Count

variable {α : Type} {p p' : α → Bool} {l : List α} {k : Nat} {a b : α}

theorem countP_set_eq (hk : l[k]? = some a) (h : p b = p a) :
    (l.set k b).countP p = l.countP p := by
  obtain ⟨hlt, ha⟩ := List.getElem?_eq_some_iff.mp hk
  rw [List.countP_set hlt, ha, h]
  split
  · have hpos : 0 < l.countP p := List.countP_pos_iff.mpr ⟨a, List.mem_of_getElem? hk, ‹_›⟩
    omega
  · rfl

theorem countP_set_succ (hk : l[k]? = some a) (ha : p a = false) (hb : p b = true) :
    (l.set k b).countP p = l.countP p + 1 := by
  obtain ⟨hlt, hget⟩ := List.getElem?_eq_some_iff.mp hk
  rw [List.countP_set hlt, hget, ha, hb]
  rfl

theorem countP_flip (hk : l[k]? = some a) (ha : p a = false) (ha' : p' a = true)
    (hrest : ∀ j b, j ≠ k → l[j]? = some b → p' b = p b) : l.countP p' = l.countP p + 1 := by
  induction l generalizing k with
  | nil => cases hk
  | cons c l ih =>
    cases k with
    | zero =>
      obtain rfl : c = a := Option.some.inj hk
      have htail : l.countP p' = l.countP p := List.countP_congr fun b hb => by
        obtain ⟨j, hj⟩ := List.mem_iff_getElem?.mp hb
        rw [hrest (j + 1) b (Nat.succ_ne_zero j) hj]
      rw [List.countP_cons_of_pos ha', List.countP_cons_of_neg (by simp [ha]), htail]
    | succ k =>
      have hc : p' c = p c := hrest 0 c (Nat.succ_ne_zero k).symm rfl
      have htail := ih hk fun j b hj hb => hrest (j + 1) b (by omega) hb
      rw [List.countP_cons, List.countP_cons, htail, hc]
      omega

theorem countP_le_add {q r : α → Bool} (h : ∀ a ∈ l, p a = true → q a = true ∨ r a = true) :
    l.countP p ≤ l.countP q + l.countP r := by
  induction l with
  | nil => exact Nat.le_refl _
  | cons c l ih =>
    have htail := ih fun a ha => h a (List.mem_cons_of_mem c ha)
    have hhead := h c List.mem_cons_self
    simp only [List.countP_cons]
    cases hp : p c <;> cases hq : q c <;> cases hr : r c <;> simp_all <;> omega

end Count
