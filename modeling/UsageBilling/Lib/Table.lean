import Mathlib.Data.List.Nodup
import Mathlib.Algebra.BigOperators.Group.List.Basic
import Mathlib.Algebra.Ring.Int.Defs

/-!
# Tables with a primary key

A table is a list of rows, no two of which have the same key (`Keyed.key`).

* `find? k`: the row with key `k`.
* `update p f`: `UPDATE ... SET f WHERE p`; `count p` is the number of rows affected.
* `find?_update` is what an update does to each row, and `sum_update` what it does to the sum of
  a column, when `p` selects the row with one key only.
* `upsert a`: the row with the key of `a` becomes `a`, or `a` is added. `upsertAll` upserts a list
  of rows; `upsertAll_of_find?`: it changes nothing the second time.
-/

/-- Rows of type `α` have a primary key of type `κ`. -/
class Keyed (α : Type) (κ : outParam Type) where
  key : α → κ

/-- Rows with distinct keys. -/
@[ext] structure Table (α : Type) {κ : Type} [Keyed α κ] where
  rows : List α
  nodup : (rows.map Keyed.key).Nodup

namespace Table

open Keyed

variable {α κ : Type} [Keyed α κ]

instance [DecidableEq α] : DecidableEq (Table α) := fun t u =>
  decidable_of_iff (t.rows = u.rows) Table.ext_iff.symm

/-- The number of rows that satisfy `p`. -/
def count (t : Table α) (p : α → Bool) : Nat := t.rows.countP p

/-- The rows that satisfy `p` are changed by `f`, which keeps the key. -/
def update (t : Table α) (p : α → Bool) (f : α → α) (hf : ∀ a, key (f a) = key a) : Table α where
  rows := t.rows.map fun a => if p a then f a else a
  nodup := by
    have : (t.rows.map fun a => if p a then f a else a).map key = t.rows.map key := by
      rw [List.map_map]
      refine List.map_congr_left fun a _ => ?_
      by_cases h : p a <;> simp [h, hf]
    rw [this]; exact t.nodup

variable {t : Table α} {p : α → Bool} {f : α → α} {hf : ∀ a, key (f a) = key a} {a : α} {k : κ}

theorem update_of_forall_not (h : ∀ a ∈ t.rows, p a = false) : t.update p f hf = t := by
  apply Table.ext
  conv_rhs => rw [← List.map_id t.rows]
  exact List.map_congr_left fun a ha => by simp [h a ha]

theorem count_eq_zero : t.count p = 0 ↔ ∀ a ∈ t.rows, p a = false := by
  simp [count, List.countP_eq_zero]

/-- Two updates of the row with key `k` agree if they agree on that row. -/
theorem update_congr {q : α → Bool} {g : α → α} {hg : ∀ a, key (g a) = key a}
    (h : ∀ a ∈ t.rows, (if p a then f a else a) = if q a then g a else a) :
    t.update p f hf = t.update q g hg :=
  Table.ext (List.map_congr_left h)

/-- The sum of the column `g` after an update of the row `a` only. -/
theorem sum_update (g : α → Int) (hp : ∀ b ∈ t.rows, p b ↔ b = a) (ha : a ∈ t.rows) :
    ((t.update p f hf).rows.map g).sum = (t.rows.map g).sum + (g (f a) - g a) := by
  have hn : t.rows.Nodup := t.nodup.of_map
  simp only [update]
  generalize t.rows = rows at hp ha hn
  induction rows with
  | nil => simp at ha
  | cons b bs ih =>
    rw [List.nodup_cons] at hn
    simp only [List.map_cons, List.sum_cons]
    rcases List.mem_cons.mp ha with rfl | hab
    · -- the rest of the rows is unchanged
      have hrest : bs.map (fun b => if p b then f b else b) = bs := by
        conv_rhs => rw [← List.map_id bs]
        refine List.map_congr_left fun c hc => ?_
        have hca : ¬ p c := fun h => hn.1 ((hp c (by simp [hc])).mp h ▸ hc)
        simp [hca]
      rw [hrest, if_pos ((hp a (by simp)).mpr rfl)]
      omega
    · have hb : ¬ p b := fun h => hn.1 ((hp b (by simp)).mp h ▸ hab)
      rw [if_neg hb, ih (fun c hc => hp c (by simp [hc])) hab hn.2]
      omega

/-! ## The row with a given key -/

variable [DecidableEq κ]

/-- The row with key `k`. -/
def find? (t : Table α) (k : κ) : Option α := t.rows.find? fun a => key a = k

theorem mem_of_find? (h : t.find? k = some a) : a ∈ t.rows :=
  List.mem_of_find?_eq_some h

theorem key_of_find? (h : t.find? k = some a) : key a = k := by
  simpa using List.find?_some h

theorem find?_of_mem (h : a ∈ t.rows) : t.find? (key a) = some a := by
  have inj := List.inj_on_of_nodup_map t.nodup
  cases hc : t.find? (key a) with
  | none => simpa using List.find?_eq_none.mp hc a h
  | some b => rw [inj (mem_of_find? hc) h (key_of_find? hc)]

/-- An update changes the row with key `k` if it satisfies `p`, and no key. -/
theorem find?_update : (t.update p f hf).find? k =
    (t.find? k).map fun a => if p a then f a else a := by
  have hkey : ((fun a => decide (key a = k)) ∘ fun a => if p a then f a else a) =
      fun a => decide (key a = k) := by
    funext a; by_cases h : p a <;> simp [h, hf]
  simp only [find?, update, List.find?_map, hkey]

/-- An update that selects no row but the one with key `k` affects at most that row. -/
theorem count_eq_zero_of_key (hp : ∀ a, p a → key a = k) :
    t.count p = 0 ↔ ∀ a, t.find? k = some a → p a = false := by
  rw [count_eq_zero]
  refine ⟨fun h a ha => h a (mem_of_find? ha), fun h a ha => ?_⟩
  by_contra hc
  have hpa : p a := by simpa using hc
  have := h a (hp a hpa ▸ find?_of_mem ha)
  simp [hpa] at this

/-! ## Inserting or replacing rows -/

/-- `INSERT ... ON CONFLICT (key) DO UPDATE` of all columns: the row with the key of `a` becomes
`a`, or `a` is added. -/
def upsert (t : Table α) (a : α) : Table α where
  rows := if (t.find? (key a)).isSome then t.rows.map fun b => if key b = key a then a else b
    else t.rows ++ [a]
  nodup := by
    split
    · have : (t.rows.map fun b => if key b = key a then a else b).map key = t.rows.map key := by
        rw [List.map_map]
        refine List.map_congr_left fun b _ => ?_
        by_cases h : key b = key a <;> simp [h]
      rw [this]; exact t.nodup
    · rename_i hnone
      have hfree : key a ∉ t.rows.map key := fun hmem => by
        obtain ⟨b, hb, hkey⟩ := List.mem_map.mp hmem
        rw [← hkey, find?_of_mem hb] at hnone
        exact hnone rfl
      rw [List.map_append, List.map_singleton, ← List.concat_eq_append]
      exact t.nodup.concat hfree

theorem find?_upsert (t : Table α) (a : α) (k : κ) :
    (t.upsert a).find? k = if k = key a then some a else t.find? k := by
  by_cases hsome : (t.find? (key a)).isSome = true
  · have hrows : (t.upsert a).rows = t.rows.map fun b => if key b = key a then a else b :=
      if_pos hsome
    have hkey : ((fun b => decide (key b = k)) ∘ fun b => if key b = key a then a else b) =
        fun b => decide (key b = k) := by
      funext b
      by_cases h : key b = key a <;> simp [h]
    rw [find?, hrows, List.find?_map, hkey]
    obtain ⟨b, hb⟩ := Option.isSome_iff_exists.mp hsome
    by_cases hk : k = key a
    · subst hk
      have hbk := key_of_find? hb
      rw [find?] at hb
      simp [hb, hbk]
    · rw [if_neg hk, find?]
      cases hc : t.rows.find? fun b => decide (key b = k) with
      | none => rfl
      | some c =>
        have hck : key c = k := by simpa using List.find?_some hc
        rw [Option.map_some, if_neg (hck ▸ hk)]
  · have hrows : (t.upsert a).rows = t.rows ++ [a] := if_neg hsome
    rw [Bool.not_eq_true, Option.isSome_eq_false_iff, Option.isNone_iff_eq_none] at hsome
    rw [find?, hrows, List.find?_append]
    by_cases hk : k = key a
    · subst hk
      rw [find?] at hsome
      simp [hsome]
    · simp [hk, Ne.symm hk, find?]

theorem mem_upsert {b : α} (h : b ∈ (t.upsert a).rows) : b = a ∨ b ∈ t.rows := by
  have hb := find?_of_mem h
  rw [find?_upsert] at hb
  split at hb
  · exact .inl (Option.some.inj hb).symm
  · exact .inr (mem_of_find? hb)

/-- A row that is there already. -/
theorem upsert_of_find? (h : t.find? (key a) = some a) : t.upsert a = t := by
  refine Table.ext ?_
  have hrows : (t.upsert a).rows = t.rows.map fun b => if key b = key a then a else b :=
    if_pos (h ▸ rfl)
  rw [hrows]
  conv_rhs => rw [← List.map_id t.rows]
  refine List.map_congr_left fun b hb => ?_
  by_cases hk : key b = key a
  · rw [if_pos hk]
    have := find?_of_mem hb
    rw [hk, h] at this
    exact Option.some.inj this
  · rw [if_neg hk]; rfl

/-- Upserts of the rows `as`, one after the other. -/
def upsertAll (t : Table α) (as : List α) : Table α := as.foldl upsert t

variable {as : List α}

theorem upsertAll_concat : t.upsertAll (as ++ [a]) = (t.upsertAll as).upsert a := by
  rw [upsertAll, List.foldl_append]; rfl

theorem find?_upsertAll_of_not_mem (h : k ∉ as.map key) : (t.upsertAll as).find? k = t.find? k := by
  induction as generalizing t with
  | nil => rfl
  | cons b bs ih =>
    rw [List.map_cons, List.mem_cons, not_or] at h
    rw [upsertAll, List.foldl_cons, ← upsertAll, ih h.2, find?_upsert, if_neg h.1]

theorem find?_upsertAll_of_mem (hn : (as.map key).Nodup) (ha : a ∈ as) :
    (t.upsertAll as).find? (key a) = some a := by
  induction as generalizing t with
  | nil => cases ha
  | cons b bs ih =>
    rw [List.map_cons, List.nodup_cons] at hn
    rw [upsertAll, List.foldl_cons, ← upsertAll]
    rcases List.mem_cons.mp ha with rfl | ha
    · rw [find?_upsertAll_of_not_mem hn.1, find?_upsert, if_pos rfl]
    · exact ih hn.2 ha

/-- A key that is there stays. -/
theorem find?_upsertAll_isSome (h : (t.find? k).isSome) : ((t.upsertAll as).find? k).isSome := by
  induction as generalizing t with
  | nil => exact h
  | cons b bs ih =>
    refine ih (t := t.upsert b) ?_
    rw [find?_upsert]
    split
    · rfl
    · exact h

/-- Upserts of rows that are there already change nothing. -/
theorem upsertAll_of_find? (h : ∀ a ∈ as, t.find? (key a) = some a) : t.upsertAll as = t := by
  induction as with
  | nil => rfl
  | cons b bs ih =>
    rw [upsertAll, List.foldl_cons, upsert_of_find? (h b List.mem_cons_self), ← upsertAll]
    exact ih fun a ha => h a (List.mem_cons_of_mem _ ha)

end Table
