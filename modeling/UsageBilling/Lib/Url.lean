import Mathlib.Data.List.Forall2
import Mathlib.Data.List.TakeWhile
import UsageBilling.Lib.Percent

/-!
# Targets of HTTP requests: paths, queries, and the patterns of routes

* `text`, `segments`: a path as text, and its segments; `segments_text`: the round trip.
* `target`, `split`: a path with its query, and the two apart; `split_target`: the round trip.
* `Writes`: a segment stands for a text. `Spells`: a target stands for the texts of a path and the
  names and values of a query, however its escapes are chosen. `spells_encode`: percent-encoding
  gives such a target. `Spells.behind`: what is left without the first segment.
* `Ordinary`: the texts that every server takes as a segment.
* `Segment`, `pattern`, `params`: a pattern of literals and named parameters, and what its
  parameters match.
-/

namespace Url

/-- Each segment after a slash. -/
def text (segments : List (List Char)) : List Char := segments.flatMap ('/' :: ·)

/-- The segments of a text that begins with a slash. -/
def segments (path : List Char) : List (List Char) := (path.splitOn '/').drop 1

theorem splitOn_text {seg : List Char} {segs : List (List Char)} (hseg : '/' ∉ seg)
    (h : ∀ seg ∈ segs, '/' ∉ seg) : (seg ++ text segs).splitOn '/' = seg :: segs := by
  induction segs generalizing seg with
  | nil =>
    rw [text, List.flatMap_nil, List.append_nil, List.splitOn_eq_singleton hseg]
  | cons s segs ih =>
    rw [text, List.flatMap_cons, List.cons_append, List.splitOn_append_cons_self_of_not_mem hseg]
    exact congrArg (seg :: ·)
      (ih (h s List.mem_cons_self) fun s' h' => h s' (List.mem_cons_of_mem s h'))

theorem segments_text {segs : List (List Char)} (h : ∀ seg ∈ segs, '/' ∉ seg) :
    segments (text segs) = segs := by
  have hsplit := splitOn_text List.not_mem_nil h
  rw [List.nil_append] at hsplit
  rw [segments, hsplit, List.drop_succ_cons, List.drop_zero]

theorem not_mem_text {c : Char} {segs : List (List Char)} (hc : c ≠ '/')
    (h : ∀ seg ∈ segs, c ∉ seg) : c ∉ text segs := by
  intro hmem
  obtain ⟨seg, hseg, hin⟩ := List.mem_flatMap.mp hmem
  rcases List.mem_cons.mp hin with heq | hin
  · exact hc heq
  · exact h seg hseg hin

/-! ## Queries -/

/-- A path with its query. No question mark stands before an empty query. -/
def target (segs : List (List Char)) (query : List Char) : List Char :=
  text segs ++ if query.isEmpty then [] else '?' :: query

/-- The path and the query of a target. -/
def split (target : List Char) : List Char × List Char :=
  (target.takeWhile (· ≠ '?'), (target.dropWhile (· ≠ '?')).drop 1)

theorem split_target {segs : List (List Char)} (h : ∀ seg ∈ segs, '?' ∉ seg)
    (query : List Char) : split (target segs query) = (text segs, query) := by
  have hmem : '?' ∉ text segs := not_mem_text (by decide) h
  rw [target]
  split
  · rename_i hquery
    rw [List.isEmpty_iff] at hquery
    have hall : ∀ c ∈ text segs, decide (c ≠ '?') = true := fun c hc =>
      decide_eq_true fun heq => hmem (heq ▸ hc)
    rw [List.append_nil, Url.split, List.takeWhile_eq_self_iff.mpr hall,
      List.dropWhile_eq_nil_iff.mpr hall, hquery]
    rfl
  · obtain ⟨hfront, hrest⟩ := Percent.span_separator hmem query
    rw [Url.split, hfront, hrest]
    rfl

/-! ## What a target stands for -/

/-- Letters, digits and the hyphen, in which the literals of a route are written. -/
def isWord (c : Char) : Bool := c.isAlphanum || c = '-'

/-- A segment that stands for a text: its characters are kept ones and those of escapes, and a text
of word characters is written as it is. -/
structure Writes (keep : Char → Bool) (seg text : List Char) : Prop where
  written : ∀ c ∈ seg, keep c = true ∨ Percent.isEscape c = true
  decode : Percent.decode seg = some text
  word : text.all isWord = true → seg = text

/-- A target that stands for these texts, one in each segment of its path, and for these names and
values in its query. -/
def Spells (keep plain : Char → Bool) (t : List Char) (texts : List (List Char))
    (pairs : List (List Char × List Char)) : Prop :=
  ∃ segs, t = target segs (Percent.formText plain pairs) ∧ List.Forall₂ (Writes keep) segs texts

section Spells

variable {keep plain : Char → Bool} {t seg first : List Char} {texts : List (List Char)}
  {pairs : List (List Char × List Char)}

theorem writes_encode (hkeep : keep '%' = false) (hword : ∀ c, isWord c = true → keep c = true)
    (text : List Char) : Writes keep (Percent.encode keep text) text where
  written _ hc := (Percent.mem_encode hc).imp_left And.left
  decode := Percent.decode_encode hkeep text
  word h := Percent.encode_of_kept fun c hc => hword c (List.all_eq_true.mp h c hc)

theorem spells_encode (hkeep : keep '%' = false) (hword : ∀ c, isWord c = true → keep c = true)
    (texts : List (List Char)) (pairs : List (List Char × List Char)) :
    Spells keep plain (target (texts.map (Percent.encode keep)) (Percent.formText plain pairs))
      texts pairs := by
  refine ⟨_, rfl, ?_⟩
  induction texts with
  | nil => exact .nil
  | cons text texts ih => exact .cons (writes_encode hkeep hword text) ih

/-- A first segment of word characters can be taken off as text. -/
theorem Spells.behind (hword : first.all isWord = true)
    (h : Spells keep plain t (first :: texts) pairs) :
    ∃ rest, t = '/' :: first ++ rest ∧ Spells keep plain rest texts pairs := by
  obtain ⟨segs, rfl, hsegs⟩ := h
  cases hsegs with
  | cons hfirst hsegs =>
    rename_i seg segs
    obtain rfl : seg = first := hfirst.word hword
    refine ⟨target segs (Percent.formText plain pairs), ?_, segs, rfl, hsegs⟩
    rw [target, target, text, List.flatMap_cons, List.append_assoc]
    rfl

/-- A separator is no character of a segment. -/
theorem Writes.not_mem {text : List Char} {c : Char} (h : Writes keep seg text)
    (hkeep : keep c = false) (hescape : Percent.isEscape c = false) : c ∉ seg := by
  intro hc
  rcases h.written c hc with hc | hc
  · rw [hkeep] at hc
    cases hc
  · rw [hescape] at hc
    cases hc

theorem Spells.decode (hslash : keep '/' = false) (hquestion : keep '?' = false)
    (h : Spells keep plain t texts pairs) :
    (segments (split t).1).mapM Percent.decode = some texts ∧
      (split t).2 = Percent.formText plain pairs := by
  obtain ⟨segs, rfl, hsegs⟩ := h
  have hnot : ∀ c, keep c = false → Percent.isEscape c = false → ∀ seg ∈ segs, c ∉ seg := by
    intro c hkeep hescape
    induction hsegs with
    | nil => exact List.forall_mem_nil _
    | cons hfirst _ ih => exact List.forall_mem_cons.mpr ⟨hfirst.not_mem hkeep hescape, ih⟩
  rw [split_target (hnot '?' hquestion (by decide)),
    segments_text (hnot '/' hslash (by decide))]
  refine ⟨?_, rfl⟩
  clear hnot
  induction hsegs with
  | nil => rfl
  | cons hfirst _ ih => rw [List.mapM_cons, hfirst.decode, ih]; rfl

end Spells

/-- A text that every server takes as a segment: it is not empty, has no NUL, and no part of it
between slashes is a dot segment. -/
def Ordinary (text : List Char) : Prop :=
  text ≠ [] ∧ Char.ofNat 0 ∉ text ∧ ∀ part ∈ text.splitOn '/', part ≠ ['.'] ∧ part ≠ ['.', '.']

instance : DecidablePred Ordinary := fun _ => inferInstanceAs (Decidable (_ ∧ _ ∧ _))

/-! ## Patterns -/

/-- A segment of a pattern. -/
inductive Segment where
  /-- This text, in either case. -/
  | literal (text : List Char)
  /-- Any text, under this name. -/
  | param (name : List Char)
  deriving DecidableEq

/-- The segment that a text writes, with a colon before the name of a parameter. -/
def Segment.ofText : List Char → Segment
  | ':' :: name => .param name
  | text => .literal text

/-- The segments of a pattern such as `/items/:id`. -/
def pattern (path : String) : List Segment := (segments path.toList).map Segment.ofText

/-- The parameters of a pattern that matches these texts, with their values. -/
def params : List Segment → List (List Char) → Option (List (List Char × List Char))
  | [], [] => some []
  | .literal literal :: pattern, text :: texts =>
    if text.map Char.toLower = literal.map Char.toLower then params pattern texts else none
  | .param name :: pattern, text :: texts => (params pattern texts).map ((name, text) :: ·)
  | _, _ => none

end Url
