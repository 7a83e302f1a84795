import Mathlib.Data.FinEnum
import Mathlib.Data.List.DropRight
import GaugeDesk.Lib.Ascii

/-!
# Requests of HTTP/1.1

A reader of requests from bytes: lines end with CR LF and have neither byte of
their own, the head ends with an empty line, and the body has the length that the
head states.  What follows the body is the next request's:

    a request written field by field, with anything after it
      → is read with its method, target, fields and body, and the rest is left  (parseRequest_render)

Values of fields are read without the blanks around them.
-/

namespace Http1

open List Nat

def crlf : List UInt8 := [13, 10]

structure Request where
  method : List UInt8
  target : List UInt8
  fields : List (List UInt8 × List UInt8)
  body : List UInt8
deriving DecidableEq, Repr

/-! ## Reading -/

/-- The lines before the first empty one, and what follows it. -/
def headLines : List UInt8 → List UInt8 → Option (List (List UInt8) × List UInt8)
  | _, [] => none
  | line, b :: rest =>
    if b = 13 then
      match rest with
      | [] => none
      | c :: rest =>
        if c ≠ 10 then none
        else if line = [] then some ([], rest)
        else (headLines [] rest).map fun read => (line :: read.1, read.2)
    else if b = 10 then none
    else headLines (line ++ [b]) rest

/-- A character of a token. -/
def isTokenByte (b : UInt8) : Bool :=
  (48 ≤ b && b ≤ 57) || (65 ≤ b && b ≤ 90) || (97 ≤ b && b ≤ 122) ||
    [33, 35, 36, 37, 38, 39, 42, 43, 45, 46, 94, 95, 96, 124, 126].contains b

/-- A method or a field name. -/
def IsToken (bytes : List UInt8) : Prop := bytes ≠ [] ∧ ∀ b ∈ bytes, isTokenByte b = true

/-- A request target: no blank and no control byte. -/
def IsTarget (bytes : List UInt8) : Prop := bytes ≠ [] ∧ ∀ b ∈ bytes, 32 < b ∧ b ≠ 127

/-- A field value: no line break and no zero byte. -/
def IsValue (bytes : List UInt8) : Prop := 13 ∉ bytes ∧ 10 ∉ bytes ∧ 0 ∉ bytes

instance : DecidablePred IsToken := fun _ => inferInstanceAs (Decidable (_ ∧ _))
instance : DecidablePred IsTarget := fun _ => inferInstanceAs (Decidable (_ ∧ _))
instance : DecidablePred IsValue := fun _ => inferInstanceAs (Decidable (_ ∧ _ ∧ _))

def parseRequestLine (line : List UInt8) : Option (List UInt8 × List UInt8) :=
  match line.splitOn 32 with
  | [method, target, version] =>
    if IsToken method ∧ IsTarget target ∧ version = utf8 "HTTP/1.1" then some (method, target) else none
  | _ => none

def isBlank (b : UInt8) : Bool := b = 32 || b = 9

/-- A value without the blanks around it. -/
def trimBlanks (bytes : List UInt8) : List UInt8 := (bytes.dropWhile isBlank).rdropWhile isBlank

def parseField (line : List UInt8) : Option (List UInt8 × List UInt8) :=
  match line.dropWhile (· ≠ 58) with
  | [] => none
  | _ :: value =>
    if IsToken (line.takeWhile (· ≠ 58)) ∧ IsValue value then
      some (line.takeWhile (· ≠ 58), trimBlanks value)
    else none

def lower (b : UInt8) : UInt8 := if 65 ≤ b ∧ b ≤ 90 then b + 32 else b

/-- The values of the fields of a name, whatever its case. -/
def valuesOf (name : String) (fields : List (List UInt8 × List UInt8)) : List (List UInt8) :=
  (fields.filter fun field => field.1.map lower = utf8 name).map Prod.snd

def parseDecimal (bytes : List UInt8) : Option Nat :=
  if bytes ≠ [] ∧ ∀ b ∈ bytes, 48 ≤ b ∧ b ≤ 57 then
    some (Nat.ofDigitChars 10 (bytes.map fun b => Char.ofNat b.toNat) 0)
  else none

/-- The length of the body by its head.  Lengths that are stated twice and transfer codings are
refused. -/
def bodyLength (fields : List (List UInt8 × List UInt8)) : Option Nat :=
  if valuesOf "transfer-encoding" fields ≠ [] then none
  else
    match valuesOf "content-length" fields with
    | [] => some 0
    | [value] => parseDecimal value
    | _ => none

/-- The first request of the bytes, and the bytes after it. -/
def parseRequest (bytes : List UInt8) : Option (Request × List UInt8) := do
  let (lines, rest) ← headLines [] bytes
  let line :: fieldLines := lines | none
  let (method, target) ← parseRequestLine line
  let fields ← fieldLines.mapM parseField
  let length ← bodyLength fields
  if rest.length < length then none
  else some (⟨method, target, fields, rest.take length⟩, rest.drop length)

/-! ## Writing -/

def requestLine (method target : List UInt8) : List UInt8 :=
  method ++ 32 :: (target ++ 32 :: utf8 "HTTP/1.1")

def fieldLine (field : List UInt8 × List UInt8) : List UInt8 := field.1 ++ 58 :: 32 :: field.2

/-- A request with a blank after the colon of each field. -/
def render (method target : List UInt8) (fields : List (List UInt8 × List UInt8)) (body : List UInt8) :
    List UInt8 :=
  (requestLine method target :: fields.map fieldLine).flatMap (fun line => line ++ crlf) ++ crlf ++ body

/-! ## Lines -/

variable {b : UInt8}

theorem headLines_cons {line rest : List UInt8} (hcr : b ≠ 13) (hlf : b ≠ 10) :
    headLines line (b :: rest) = headLines (line ++ [b]) rest := by
  rw [headLines.eq_def]
  simp [hcr, hlf]

theorem headLines_line {line bytes rest : List UInt8} (hcr : 13 ∉ bytes) (hlf : 10 ∉ bytes) :
    headLines line (bytes ++ crlf ++ rest) =
      if line ++ bytes = [] then some ([], rest)
      else (headLines [] rest).map fun read => ((line ++ bytes) :: read.1, read.2) := by
  induction bytes generalizing line with
  | nil => simp [headLines, crlf]
  | cons b bytes ih =>
    rw [mem_cons, not_or] at hcr hlf
    rw [cons_append, cons_append, headLines_cons (Ne.symm hcr.1) (Ne.symm hlf.1),
      ih hcr.2 hlf.2, append_assoc, singleton_append]

/-- **Lines without a line break are read back**, up to the empty one. -/
theorem headLines_lines {lines : List (List UInt8)} (rest : List UInt8)
    (h : ∀ line ∈ lines, line ≠ [] ∧ 13 ∉ line ∧ 10 ∉ line) :
    headLines [] (lines.flatMap (fun line => line ++ crlf) ++ crlf ++ rest) = some (lines, rest) := by
  induction lines with
  | nil => exact headLines_line not_mem_nil not_mem_nil
  | cons line lines ih =>
    obtain ⟨⟨hne, hcr, hlf⟩, h⟩ := forall_mem_cons.mp h
    rw [flatMap_cons, append_assoc, append_assoc, headLines_line hcr hlf, nil_append,
      if_neg hne, ← append_assoc, ih h]
    rfl

theorem isTokenByte_ne (h : isTokenByte b = true) :
    b ≠ 13 ∧ b ≠ 10 ∧ b ≠ 32 ∧ b ≠ 58 := by
  refine ⟨?_, ?_, ?_, ?_⟩
  all_goals
    rintro rfl
    revert h
    decide

section
variable {method target body : List UInt8} {fields : List (List UInt8 × List UInt8)}
  {field : List UInt8 × List UInt8}

theorem IsToken.notMem (h : IsToken method) :
    13 ∉ method ∧ 10 ∉ method ∧ 32 ∉ method ∧ 58 ∉ method :=
  ⟨fun hm => (isTokenByte_ne (h.2 _ hm)).1 rfl, fun hm => (isTokenByte_ne (h.2 _ hm)).2.1 rfl,
    fun hm => (isTokenByte_ne (h.2 _ hm)).2.2.1 rfl, fun hm => (isTokenByte_ne (h.2 _ hm)).2.2.2 rfl⟩

theorem IsTarget.notMem (h : IsTarget target) : 13 ∉ target ∧ 10 ∉ target ∧ 32 ∉ target := by
  refine ⟨fun hm => ?_, fun hm => ?_, fun hm => ?_⟩
  all_goals
    have hlt := (h.2 _ hm).1
    revert hlt
    decide

theorem parseRequestLine_requestLine (hm : IsToken method) (ht : IsTarget target) :
    parseRequestLine (requestLine method target) = some (method, target) := by
  have hversion : 32 ∉ utf8 "HTTP/1.1" := by decide
  have hsplit : (requestLine method target).splitOn 32 = [method, target, utf8 "HTTP/1.1"] := by
    unfold requestLine
    rw [splitOn_append_cons_self, splitOn_append_cons_self,
      splitOn_eq_singleton hm.notMem.2.2.1, splitOn_eq_singleton ht.notMem.2.2,
      splitOn_eq_singleton hversion]
    rfl
  unfold parseRequestLine
  rw [hsplit]
  simp only [hm, ht, and_self, if_true]

theorem trimBlanks_blank (bytes : List UInt8) : trimBlanks (32 :: bytes) = trimBlanks bytes := by
  unfold trimBlanks
  rw [dropWhile_cons_of_pos (by decide)]

theorem parseField_fieldLine (hname : IsToken field.1) (hvalue : IsValue field.2) :
    parseField (fieldLine field) = some (field.1, trimBlanks field.2) := by
  have hcolon : ∀ b ∈ field.1, decide (b ≠ 58) = true := by
    intro b hb
    have hne : b ≠ 58 := (isTokenByte_ne (hname.2 b hb)).2.2.2
    simpa using hne
  have htake : (fieldLine field).takeWhile (· ≠ 58) = field.1 := by
    unfold fieldLine
    rw [takeWhile_append_of_pos hcolon, takeWhile_cons_of_neg (by decide), append_nil]
  have hdrop : (fieldLine field).dropWhile (· ≠ 58) = 58 :: 32 :: field.2 := by
    unfold fieldLine
    rw [dropWhile_append_of_pos hcolon, dropWhile_cons_of_neg (by decide)]
  have hblank : IsValue (32 :: field.2) := by
    unfold IsValue at hvalue ⊢
    simpa using hvalue
  unfold parseField
  rw [hdrop, htake]
  simp only [hname, hblank, and_self, if_true, trimBlanks_blank]

theorem mapM_parseField (hf : ∀ field ∈ fields, IsToken field.1 ∧ IsValue field.2) :
    (fields.map fieldLine).mapM parseField =
      some (fields.map fun field => (field.1, trimBlanks field.2)) := by
  induction fields with
  | nil => rfl
  | cons field fields ih =>
    obtain ⟨⟨hname, hvalue⟩, hf⟩ := forall_mem_cons.mp hf
    rw [map_cons, mapM_cons, parseField_fieldLine hname hvalue, ih hf]
    rfl

/-- **A written request is read back**, and what follows it is left. -/
theorem parseRequest_render (rest : List UInt8) (hm : IsToken method) (ht : IsTarget target)
    (hf : ∀ field ∈ fields, IsToken field.1 ∧ IsValue field.2)
    (hlength : bodyLength (fields.map fun field => (field.1, trimBlanks field.2)) = some body.length) :
    parseRequest (render method target fields body ++ rest) =
      some (⟨method, target, fields.map fun field => (field.1, trimBlanks field.2), body⟩, rest) := by
  have hversion : 13 ∉ utf8 "HTTP/1.1" ∧ 10 ∉ utf8 "HTTP/1.1" := by decide
  have hline : requestLine method target ≠ [] ∧ 13 ∉ requestLine method target ∧
      10 ∉ requestLine method target := by
    unfold requestLine
    refine ⟨by simp, ?_, ?_⟩
    · simp [hm.notMem.1, ht.notMem.1, hversion.1]
    · simp [hm.notMem.2.1, ht.notMem.2.1, hversion.2]
  have hlines : ∀ line ∈ requestLine method target :: fields.map fieldLine,
      line ≠ [] ∧ 13 ∉ line ∧ 10 ∉ line := by
    intro line hmem
    rcases mem_cons.mp hmem with rfl | hmem
    · exact hline
    · obtain ⟨field, hfield, rfl⟩ := mem_map.mp hmem
      obtain ⟨hname, hcr, hlf, -⟩ := hf field hfield
      unfold fieldLine
      refine ⟨by simp, ?_, ?_⟩
      · simp [hname.notMem.1, hcr]
      · simp [hname.notMem.2.1, hlf]
  have hbytes : render method target fields body ++ rest =
      (requestLine method target :: fields.map fieldLine).flatMap (fun line => line ++ crlf) ++ crlf ++
        (body ++ rest) := by
    unfold render
    rw [append_assoc]
  unfold parseRequest
  rw [hbytes, headLines_lines (body ++ rest) hlines]
  simp only [Option.bind_eq_bind, Option.bind_some, parseRequestLine_requestLine hm ht, mapM_parseField hf,
    hlength]
  rw [if_neg (by simp), take_left, drop_left]

end

/-! ## Names and numbers of texts -/

theorem isTokenByte_ascii (h : isTokenByte b = true) : b.toNat < 128 := by
  simp only [isTokenByte, Bool.or_eq_true, Bool.and_eq_true, decide_eq_true_eq, contains_iff_mem,
    UInt8.le_iff_toNat_le, mem_cons, not_mem_nil, or_false, ← UInt8.toNat_inj, UInt8.reduceToNat] at h
  omega

variable (n : Nat) {c : Char}

theorem lower_byte (h : c.toNat < 128) :
    lower c.byte = c.toLower.byte ∧ c.toLower.toNat < 128 := by
  have key : ∀ n, n < 128 → lower (Char.ofNat n).byte = (Char.ofNat n).toLower.byte ∧
      (Char.ofNat n).toLower.toNat < 128 := by
    decide
  have hc := key c.toNat h
  rwa [Char.ofNat_toNat] at hc

theorem map_lower_utf8 {s : String} (h : ∀ c ∈ s.toList, c.toNat < 128) :
    (utf8 s).map lower = utf8 (String.ofList (s.toList.map Char.toLower)) := by
  have hlower : ∀ c ∈ (String.ofList (s.toList.map Char.toLower)).toList, c.toNat < 128 := by
    intro c hc
    rw [String.toList_ofList] at hc
    obtain ⟨d, hd, rfl⟩ := mem_map.mp hc
    exact (lower_byte (h d hd)).2
  rw [utf8_of_ascii h, utf8_of_ascii hlower, String.toList_ofList, List.map_map, List.map_map]
  exact map_congr_left fun c hc => (lower_byte (h c hc)).1

theorem trimBlanks_of_free {bytes : List UInt8} (h : ∀ b ∈ bytes, isBlank b = false) :
    trimBlanks bytes = bytes := by
  have hdrop : bytes.dropWhile isBlank = bytes := by
    cases bytes with
    | nil => rfl
    | cons b bytes => exact dropWhile_cons_of_neg (by rw [h b mem_cons_self]; decide)
  unfold trimBlanks
  rw [hdrop, rdropWhile_eq_self_iff]
  intro hne
  rw [h _ (getLast_mem hne)]
  decide

theorem utf8_toString : utf8 (toString n) = (toDigits 10 n).map Char.byte := by
  have hascii : ∀ c ∈ (toString n).toList, c.toNat < 128 := by
    intro c hc
    have hdigit := Delimited.isDigit_of_mem_toString hc
    simp only [Char.isDigit, Bool.and_eq_true, decide_eq_true_eq] at hdigit
    exact lt_of_le_of_lt (show c.toNat ≤ 57 from hdigit.2) (by decide)
  rw [utf8_of_ascii hascii, toString_eq_repr, toList_repr]

theorem byte_digit (h : c.isDigit = true) : 48 ≤ c.byte ∧ c.byte ≤ 57 ∧
    Char.ofNat c.byte.toNat = c := by
  simp only [Char.isDigit, Bool.and_eq_true, decide_eq_true_eq] at h
  have hlow : 48 ≤ c.toNat := h.1
  have hhigh : c.toNat ≤ 57 := h.2
  have hbyte := toNat_byte (c := c) (by omega)
  refine ⟨?_, ?_, ?_⟩
  · rw [UInt8.le_iff_toNat_le, hbyte]
    exact hlow
  · rw [UInt8.le_iff_toNat_le, hbyte]
    exact hhigh
  · rw [hbyte, Char.ofNat_toNat]

/-- **A decimal number is read back.** -/
theorem parseDecimal_toString : parseDecimal (utf8 (toString n)) = some n := by
  have hdigits : ∀ c ∈ toDigits 10 n, c.isDigit = true :=
    fun c hc => isDigit_of_mem_toDigits (by decide) (by decide) hc
  have hbytes : ∀ b ∈ (toDigits 10 n).map Char.byte, 48 ≤ b ∧ b ≤ 57 := by
    intro b hb
    obtain ⟨c, hc, rfl⟩ := mem_map.mp hb
    exact ⟨(byte_digit (hdigits c hc)).1, (byte_digit (hdigits c hc)).2.1⟩
  have hback : ((toDigits 10 n).map Char.byte).map (fun b => Char.ofNat b.toNat) =
      toDigits 10 n := by
    rw [List.map_map]
    exact (map_congr_left fun c hc => (byte_digit (hdigits c hc)).2.2).trans (map_id _)
  unfold parseDecimal
  rw [utf8_toString, if_pos ⟨by simp, hbytes⟩, hback, ofDigitChars_ten_toDigits]

theorem mem_utf8_toString {n : Nat} (h : b ∈ utf8 (toString n)) : 48 ≤ b := by
  rw [utf8_toString] at h
  obtain ⟨c, hc, rfl⟩ := mem_map.mp h
  exact (byte_digit (isDigit_of_mem_toDigits (by decide) (by decide) hc)).1

theorem trimBlanks_toString : trimBlanks (utf8 (toString n)) = utf8 (toString n) := by
  refine trimBlanks_of_free fun b hb => ?_
  have hlow := UInt8.le_iff_toNat_le.mp (mem_utf8_toString hb)
  unfold isBlank
  rw [Bool.or_eq_false_iff, decide_eq_false_iff_not, decide_eq_false_iff_not]
  constructor
  · rintro rfl
    exact absurd hlow (by decide)
  · rintro rfl
    exact absurd hlow (by decide)

theorem isValue_toString : IsValue (utf8 (toString n)) :=
  ⟨fun hm => absurd (mem_utf8_toString hm) (by decide),
    fun hm => absurd (mem_utf8_toString hm) (by decide),
    fun hm => absurd (mem_utf8_toString hm) (by decide)⟩

end Http1
