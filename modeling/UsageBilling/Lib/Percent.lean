/-!
# Percent-encoding

* `encode keep`: a text with each character outside the set `keep` replaced by its UTF-8 bytes in
  hexadecimal. `decode`: back, `none` if the text is malformed.
* `decode_encode`: the round trip, for every set without `%`.
* `not_mem_encode`: a separator outside the set does not occur in an encoded text.
* `formEncode`, `formDecode`: the same with `+` for a space. `formText`, `formPairs`: a query, and
  its names and values; `formPairs_formText`: the round trip.
-/

namespace Percent

/-- The upper-case hexadecimal digit of this value. -/
def hexDigit (n : Nat) : Char := if n < 10 then Char.ofNat (48 + n) else Char.ofNat (55 + n)

/-- The value of a hexadecimal digit, of either case. -/
def hexValue? (c : Char) : Option Nat :=
  if '0' ≤ c ∧ c ≤ '9' then some (c.toNat - 48)
  else if 'A' ≤ c ∧ c ≤ 'F' then some (c.toNat - 55)
  else if 'a' ≤ c ∧ c ≤ 'f' then some (c.toNat - 87)
  else none

/-- The escape of a byte. -/
def encodeByte (b : UInt8) : List Char := ['%', hexDigit (b.toNat / 16), hexDigit (b.toNat % 16)]

/-- A kept character, or the escapes of its bytes. -/
def encodeChar (keep : Char → Bool) (c : Char) : List Char :=
  if keep c then [c] else (String.utf8EncodeChar c).flatMap encodeByte

/-- The encoding of a text. -/
def encode (keep : Char → Bool) (text : List Char) : List Char := text.flatMap (encodeChar keep)

/-- The bytes of an encoded text. -/
def bytes? : List Char → Option (List UInt8)
  | [] => some []
  | c :: cs =>
    if c = '%' then
      match cs with
      | high :: low :: cs =>
        (hexValue? high).bind fun h => (hexValue? low).bind fun l =>
          (bytes? cs).map (UInt8.ofNat (16 * h + l) :: ·)
      | _ => none
    else (bytes? cs).map (String.utf8EncodeChar c ++ ·)

/-- The text of the bytes, if they are UTF-8. -/
def decode (cs : List Char) : Option (List Char) :=
  (bytes? cs).bind fun bs => (bs.toByteArray.utf8Decode?).map Array.toList

/-! ## The round trip -/

section RoundTrip

variable {keep : Char → Bool} {c : Char} {cs : List Char}

theorem hexValue_hexDigit : ∀ n < 16, hexValue? (hexDigit n) = some n := by decide

theorem bytes_encodeByte (b : UInt8) (cs : List Char) :
    bytes? (encodeByte b ++ cs) = (bytes? cs).map (b :: ·) := by
  have hb : b.toNat < 256 := b.toNat_lt
  have hval : 16 * (b.toNat / 16) + b.toNat % 16 = b.toNat := Nat.div_add_mod ..
  simp only [encodeByte, List.cons_append, List.nil_append, bytes?, ↓reduceIte,
    hexValue_hexDigit (b.toNat / 16) (by omega), hexValue_hexDigit (b.toNat % 16) (by omega),
    Option.bind_some, hval, UInt8.ofNat_toNat]

theorem bytes_encodeBytes (bs : List UInt8) (cs : List Char) :
    bytes? (bs.flatMap encodeByte ++ cs) = (bytes? cs).map (bs ++ ·) := by
  induction bs with
  | nil => simp
  | cons b bs ih =>
    rw [List.flatMap_cons, List.append_assoc, bytes_encodeByte, ih, Option.map_map]
    rfl

theorem bytes_char (h : c ≠ '%') (cs : List Char) :
    bytes? (c :: cs) = (bytes? cs).map (String.utf8EncodeChar c ++ ·) := by
  rw [bytes?.eq_def]
  simp only [if_neg h]

/-- Encoded or kept, a character gives its UTF-8 bytes. -/
theorem bytes_encodeChar (hkeep : keep '%' = false) (c : Char) (cs : List Char) :
    bytes? (encodeChar keep c ++ cs) = (bytes? cs).map (String.utf8EncodeChar c ++ ·) := by
  rw [encodeChar]
  by_cases h : keep c = true
  · rw [if_pos h]
    refine bytes_char (fun hc => ?_) cs
    rw [hc, hkeep] at h
    cases h
  · rw [if_neg h, bytes_encodeBytes]

theorem bytes_encode (hkeep : keep '%' = false) (text : List Char) :
    bytes? (encode keep text) = some (text.flatMap String.utf8EncodeChar) := by
  induction text with
  | nil => rfl
  | cons c text ih =>
    rw [encode, List.flatMap_cons, bytes_encodeChar hkeep]
    rw [encode] at ih
    rw [ih, List.flatMap_cons]
    rfl

theorem decode_of_bytes {text : List Char}
    (h : bytes? cs = some (text.flatMap String.utf8EncodeChar)) : decode cs = some text := by
  have hutf8 : (text.flatMap String.utf8EncodeChar).toByteArray.utf8Decode? = some text.toArray :=
    List.utf8Decode?_utf8Encode
  rw [decode, h, Option.bind_some, hutf8]
  rfl

/-- Every text comes back. -/
theorem decode_encode (hkeep : keep '%' = false) (text : List Char) :
    decode (encode keep text) = some text :=
  decode_of_bytes (bytes_encode hkeep text)

end RoundTrip

/-! ## What occurs in an encoded text -/

section Mem

variable {keep : Char → Bool} {c : Char} {text : List Char}

/-- An upper-case hexadecimal digit or the percent sign. -/
def isEscape (c : Char) : Bool := c = '%' || ('0' ≤ c && c ≤ '9') || ('A' ≤ c && c ≤ 'F')

theorem isEscape_hexDigit : ∀ n < 16, isEscape (hexDigit n) = true := by decide

theorem isEscape_of_encodeByte {b : UInt8} (h : c ∈ encodeByte b) : isEscape c = true := by
  have hb : b.toNat < 256 := b.toNat_lt
  simp only [encodeByte, List.mem_cons, List.not_mem_nil, or_false] at h
  rcases h with rfl | rfl | rfl
  · decide
  · exact isEscape_hexDigit _ (by omega)
  · exact isEscape_hexDigit _ (by omega)

/-- A character of an encoded text is kept, or part of an escape. -/
theorem mem_encode (h : c ∈ encode keep text) : (keep c = true ∧ c ∈ text) ∨ isEscape c = true := by
  obtain ⟨d, hd, hc⟩ := List.mem_flatMap.mp h
  rw [encodeChar] at hc
  split at hc
  · rename_i hkeep
    obtain rfl := List.mem_singleton.mp hc
    exact .inl ⟨hkeep, hd⟩
  · obtain ⟨b, -, hb⟩ := List.mem_flatMap.mp hc
    exact .inr (isEscape_of_encodeByte hb)

theorem not_mem_encode (hkeep : keep c = false) (hescape : isEscape c = false)
    (text : List Char) : c ∉ encode keep text := by
  intro h
  rcases mem_encode h with ⟨hc, -⟩ | hc
  · rw [hkeep] at hc
    cases hc
  · rw [hescape] at hc
    cases hc

/-- Kept texts stay as they are. -/
theorem encode_of_kept (h : ∀ c ∈ text, keep c = true) : encode keep text = text := by
  induction text with
  | nil => rfl
  | cons c text ih =>
    rw [encode, List.flatMap_cons, encodeChar, if_pos (h c List.mem_cons_self)]
    exact congrArg (c :: ·) (ih fun d hd => h d (List.mem_cons_of_mem c hd))

end Mem

/-! ## Queries -/

/-- The encoding of a name or a value in a query: a space is a `+`. -/
def formEncode (keep : Char → Bool) (text : List Char) : List Char :=
  text.flatMap fun c => if c = ' ' then ['+'] else encodeChar keep c

/-- A `+` is a space; a malformed text is left as it is. -/
def formDecode (cs : List Char) : List Char :=
  let plain := cs.map fun c => if c = '+' then ' ' else c
  (decode plain).getD plain

section Form

variable {keep : Char → Bool}

/-- The form encoding, after the `+` are spaces again. -/
theorem plain_formEncode (hplus : keep '+' = false) (text : List Char) :
    (formEncode keep text).map (fun c => if c = '+' then ' ' else c) =
      text.flatMap fun c => if c = ' ' then [' '] else encodeChar keep c := by
  rw [formEncode, List.map_flatMap]
  congr 1
  funext c
  by_cases hc : c = ' '
  · simp [hc]
  · rw [if_neg hc, if_neg hc]
    refine (List.map_congr_left fun d hd => ?_).trans (List.map_id _)
    have hmem : d ∈ encode keep [c] := by simpa [encode] using hd
    have hne : d ≠ '+' := fun h => not_mem_encode hplus (by decide) [c] (h ▸ hmem)
    rw [if_neg hne]
    rfl

/-- Every name and every value of a query comes back. -/
theorem formDecode_formEncode (hkeep : keep '%' = false) (hplus : keep '+' = false)
    (text : List Char) : formDecode (formEncode keep text) = text := by
  have hbytes : bytes? (text.flatMap fun c => if c = ' ' then [' '] else encodeChar keep c) =
      some (text.flatMap String.utf8EncodeChar) := by
    induction text with
    | nil => rfl
    | cons c text ih =>
      rw [List.flatMap_cons]
      by_cases hc : c = ' '
      · rw [if_pos hc, List.singleton_append, bytes_char (by decide), ih, hc]
        rfl
      · rw [if_neg hc, bytes_encodeChar hkeep, ih]
        rfl
  rw [formDecode, plain_formEncode hplus, decode_of_bytes hbytes]
  rfl

/-- A separator outside the set does not occur. -/
theorem not_mem_formEncode {c : Char} (hkeep : keep c = false) (hescape : isEscape c = false)
    (hplus : c ≠ '+') (text : List Char) : c ∉ formEncode keep text := by
  intro h
  obtain ⟨d, -, hc⟩ := List.mem_flatMap.mp h
  split at hc
  · exact hplus (List.mem_singleton.mp hc)
  · exact not_mem_encode hkeep hescape [d] (by simpa [encode] using hc)

/-- A query: each name, `=`, its value, with `&` between them. -/
def formText (keep : Char → Bool) (pairs : List (List Char × List Char)) : List Char :=
  ['&'].intercalate (pairs.map fun p => formEncode keep p.1 ++ '=' :: formEncode keep p.2)

/-- The names and the values of a query. A part without `=` is a name with the empty value. -/
def formPairs (query : List Char) : List (List Char × List Char) :=
  ((query.splitOn '&').filter (!·.isEmpty)).map fun part =>
    (formDecode (part.takeWhile (· ≠ '=')), formDecode ((part.dropWhile (· ≠ '=')).drop 1))

/-- A text up to a separator, and the text after it. -/
theorem span_separator {c : Char} {front : List Char} (h : c ∉ front) (rest : List Char) :
    (front ++ c :: rest).takeWhile (· ≠ c) = front ∧
      (front ++ c :: rest).dropWhile (· ≠ c) = c :: rest := by
  have hfront : ∀ d ∈ front, decide (d ≠ c) = true := fun d hd =>
    decide_eq_true fun hdc => h (hdc ▸ hd)
  rw [List.takeWhile_append_of_pos hfront, List.dropWhile_append_of_pos hfront]
  simp

/-- Every query comes back. -/
theorem formPairs_formText (hkeep : keep '%' = false) (hplus : keep '+' = false)
    (hand : keep '&' = false) (heq : keep '=' = false) (pairs : List (List Char × List Char)) :
    formPairs (formText keep pairs) = pairs := by
  have hnot : ∀ part ∈ pairs.map fun p => formEncode keep p.1 ++ '=' :: formEncode keep p.2,
      '&' ∉ part ∧ (!part.isEmpty) = true := by
    intro part hpart
    obtain ⟨p, -, rfl⟩ := List.mem_map.mp hpart
    have hname := not_mem_formEncode hand (by decide) (by decide) p.1
    have hvalue := not_mem_formEncode hand (by decide) (by decide) p.2
    simp [hname, hvalue]
  rw [formPairs, formText]
  by_cases hnil : pairs = []
  · subst hnil
    rfl
  rw [List.splitOn_intercalate _ (fun part hpart => (hnot part hpart).1) (by simpa using hnil),
    List.filter_eq_self.mpr fun part hpart => (hnot part hpart).2, List.map_map]
  refine (List.map_congr_left fun p _ => ?_).trans (List.map_id pairs)
  have hspan := span_separator (not_mem_formEncode heq (by decide) (by decide) p.1)
    (formEncode keep p.2)
  simp only [Function.comp_apply, hspan.1, hspan.2, List.drop_succ_cons, List.drop_zero,
    formDecode_formEncode hkeep hplus]
  rfl

end Form

end Percent
