import GaugeDesk.Lib.Http1
import GaugeDesk.Lib.OrderedMap

/-!
# Relay transport: the request encoder

`encode_request` of `http_stream.rs`.  The encoder states `host` and
`content-length` itself and leaves out a caller's own, as well as a
`transfer-encoding`.  What it writes for a method, a path and headers in the grammar
of HTTP/1.1 is one request, which ends where its body ends:

    parseRequest (bytes ++ rest) = some (the request of the arguments, rest)  (encodeRequest_one_request)
-/

namespace GaugeDesk.Relay

open Http1 List

/-- `std::io::Error`, by its kind. -/
inductive StreamError where
  | invalidData (message : String)
  | other (message : String)
deriving DecidableEq, Repr

abbrev Headers := Std.TreeMap String String

/-- A header that would break its line. -/
def breaksLine (header : String × String) : Bool :=
  header.1.toList.any (fun c => c == '\r' || c == '\n' || c == ':') ||
    header.2.toList.any fun c => c == '\r' || c == '\n'

/-- A header that the encoder states itself. -/
def ownedName (name : String) : Bool :=
  eqIgnoreAsciiCase name "content-length" || eqIgnoreAsciiCase name "transfer-encoding" ||
    eqIgnoreAsciiCase name "host"

/-- The headers of the caller that are written. -/
def passed (headers : Headers) : List (String × String) :=
  headers.toList.filter fun header => !ownedName header.1

def encodeRequestHead (method path : String) (headers : Headers) (contentLength : Nat) :
    Except StreamError (List UInt8) :=
  if method = "" ∨ path.toList.head? ≠ some '/' then
    .error (.invalidData "request needs a method and an absolute path")
  else if headers.toList.any breaksLine then
    .error (.invalidData "header name or value contains a control byte")
  else
    .ok (utf8 (method ++ " " ++ path ++ " HTTP/1.1\r\nhost: gaugewright-home\r\n") ++
      (passed headers).flatMap (fun header => utf8 (header.1 ++ ": " ++ header.2 ++ "\r\n")) ++
      utf8 ("content-length: " ++ toString contentLength ++ "\r\n\r\n"))

def encodeRequest (method path : String) (headers : Headers) (body : Option (List UInt8)) :
    Except StreamError (List UInt8) :=
  (encodeRequestHead method path headers (body.elim 0 List.length)).map fun out =>
    match body with
    | some bytes => out ++ bytes
    | none => out

/-! ## The written request -/

/-- The fields of the request, as they are written. -/
def writtenFields (headers : Headers) (contentLength : Nat) : List (List UInt8 × List UInt8) :=
  (utf8 "host", utf8 "gaugewright-home") ::
    ((passed headers).map (fun header => (utf8 header.1, utf8 header.2)) ++
      [(utf8 "content-length", utf8 (toString contentLength))])

theorem fieldLine_utf8 (name value : String) :
    utf8 (name ++ ": " ++ value ++ "\r\n") = fieldLine (utf8 name, utf8 value) ++ crlf := by
  have hcolon : utf8 ": " = [58, 32] := by decide
  have hcrlf : utf8 "\r\n" = crlf := by decide
  rw [utf8_append, utf8_append, utf8_append, hcolon, hcrlf, fieldLine]
  simp

/-- The encoder writes the request line, the fields and an empty line. -/
theorem encodeRequestHead_eq {method path : String} {headers : Headers} {contentLength : Nat}
    {bytes : List UInt8} (h : encodeRequestHead method path headers contentLength = .ok bytes) :
    bytes = render (utf8 method) (utf8 path) (writtenFields headers contentLength) [] ∧
      ∀ header ∈ headers.toList, breaksLine header = false := by
  unfold encodeRequestHead at h
  split at h
  · cases h
  split at h
  · cases h
  · rename_i hany
    have hkeep : ∀ header ∈ headers.toList, breaksLine header = false := by
      simpa using hany
    refine ⟨?_, hkeep⟩
    rw [← Except.ok.inj h]
    have hblank : utf8 " " = [32] := by decide
    have hstart : utf8 " HTTP/1.1\r\nhost: gaugewright-home\r\n" =
        32 :: utf8 "HTTP/1.1" ++ crlf ++ (fieldLine (utf8 "host", utf8 "gaugewright-home") ++ crlf) := by
      decide
    have hend : utf8 ("content-length: " ++ toString contentLength ++ "\r\n\r\n") =
        fieldLine (utf8 "content-length", utf8 (toString contentLength)) ++ crlf ++ crlf := by
      have hname : utf8 "content-length: " = utf8 "content-length" ++ [58, 32] := by decide
      have hcrlf : utf8 "\r\n\r\n" = crlf ++ crlf := by decide
      rw [utf8_append, utf8_append, hname, hcrlf, fieldLine]
      simp
    have hheaders : (passed headers).flatMap
          (fun header => utf8 (header.1 ++ ": " ++ header.2 ++ "\r\n")) =
        ((passed headers).map fun header => (utf8 header.1, utf8 header.2)).flatMap
          fun field => fieldLine field ++ crlf := by
      rw [flatMap_map]
      exact flatMap_congr fun header _ => fieldLine_utf8 header.1 header.2
    rw [utf8_append, utf8_append, utf8_append, hblank, hstart, hend, hheaders]
    simp only [render, writtenFields, requestLine, map_cons, map_append, map_nil,
      flatMap_cons, flatMap_append, flatMap_nil, flatMap_map, append_assoc,
      cons_append, nil_append, append_nil]

/-! ## Reading it back -/

section
variable {headers : Headers} {contentLength : Nat}

/-- Values pass the encoder without a line break. -/
theorem isValue_of_breaksLine {header : String × String} (h : breaksLine header = false)
    (hzero : 0 ∉ utf8 header.2) : IsValue (utf8 header.2) := by
  simp only [breaksLine, Bool.or_eq_false_iff, any_eq_false, Bool.or_eq_true, beq_iff_eq,
    not_or] at h
  have hcr : '\r'.byte ∉ utf8 header.2 := fun hm =>
    (h.2 _ ((mem_utf8_ascii (by decide) header.2).mp hm)).1 rfl
  have hlf : '\n'.byte ∉ utf8 header.2 := fun hm =>
    (h.2 _ ((mem_utf8_ascii (by decide) header.2).mp hm)).2 rfl
  exact ⟨hcr, hlf, hzero⟩

theorem filter_passed (hnames : ∀ header ∈ headers.toList, IsToken (utf8 header.1)) {other : String}
    (hother : other.toList.map Char.toLower = other.toList)
    (howned : ∀ name, eqIgnoreAsciiCase name other = true → ownedName name = true) :
    valuesOf other ((passed headers).map fun header => (utf8 header.1, trimBlanks (utf8 header.2))) =
      [] := by
  unfold valuesOf
  rw [map_eq_nil_iff, filter_eq_nil_iff]
  intro field hfield
  obtain ⟨header, hheader, rfl⟩ := mem_map.mp hfield
  obtain ⟨hmem, hpass⟩ := mem_filter.mp hheader
  rw [decide_eq_true_eq]
  intro heq
  -- a name that reads as another in lower case is that name in some case
  have hsame : eqIgnoreAsciiCase header.1 other = true := by
    have hascii := ascii_of_utf8 fun b hb => isTokenByte_ascii ((hnames header hmem).2 b hb)
    rw [map_lower_utf8 hascii] at heq
    have htext := congrArg String.toList (utf8_injective heq)
    rw [String.toList_ofList] at htext
    unfold eqIgnoreAsciiCase
    rw [htext, hother]
    exact beq_self_eq_true _
  rw [howned _ hsame] at hpass
  cases hpass

/-- The fields of the request, as they are read. -/
def readFields (headers : Headers) (contentLength : Nat) : List (List UInt8 × List UInt8) :=
  (utf8 "host", utf8 "gaugewright-home") ::
    ((passed headers).map (fun header => (utf8 header.1, trimBlanks (utf8 header.2))) ++
      [(utf8 "content-length", utf8 (toString contentLength))])

theorem map_trimBlanks_writtenFields :
    (writtenFields headers contentLength).map (fun field => (field.1, trimBlanks field.2)) =
      readFields headers contentLength := by
  have hhost : trimBlanks (utf8 "gaugewright-home") = utf8 "gaugewright-home" := by decide
  unfold writtenFields readFields
  simp only [map_cons, map_append, List.map_map, map_nil, Function.comp_def, hhost,
    trimBlanks_toString]

/-- The head states the length of the body, once. -/
theorem bodyLength_readFields (hnames : ∀ header ∈ headers.toList, IsToken (utf8 header.1)) :
    bodyLength (readFields headers contentLength) = some contentLength := by
  have hsplit : ∀ other, valuesOf other (readFields headers contentLength) =
      valuesOf other [(utf8 "host", utf8 "gaugewright-home")] ++
        (valuesOf other ((passed headers).map fun header =>
          (utf8 header.1, trimBlanks (utf8 header.2))) ++
        valuesOf other [(utf8 "content-length", utf8 (toString contentLength))]) := by
    intro other
    unfold valuesOf readFields
    rw [← map_append, ← map_append, ← filter_append, ← filter_append]
    rfl
  have hcoding : valuesOf "transfer-encoding" (readFields headers contentLength) = [] := by
    rw [hsplit, filter_passed hnames (by decide) fun name hname => by simp [ownedName, hname]]
    have hhost : ¬ (utf8 "host").map lower = utf8 "transfer-encoding" := by decide
    have hlength : ¬ (utf8 "content-length").map lower = utf8 "transfer-encoding" := by decide
    simp [valuesOf, hhost, hlength]
  have hlength : valuesOf "content-length" (readFields headers contentLength) =
      [utf8 (toString contentLength)] := by
    rw [hsplit, filter_passed hnames (by decide) fun name hname => by simp [ownedName, hname]]
    have hhost : ¬ (utf8 "host").map lower = utf8 "content-length" := by decide
    have hsame : (utf8 "content-length").map lower = utf8 "content-length" := by decide
    simp [valuesOf, hhost, hsame]
  unfold bodyLength
  rw [hcoding, hlength]
  exact parseDecimal_toString contentLength

end

/-- **An encoded request is one request of HTTP/1.1**, for a method and header names that are tokens,
a path without blanks and controls and values without a zero byte.  It has the given method, path and
body, the encoder's host and length and the headers of the caller other than these, and what follows
it is left for the next. -/
theorem encodeRequest_one_request (method path : String) (headers : Headers)
    (body : Option (List UInt8)) (bytes rest : List UInt8)
    (h : encodeRequest method path headers body = .ok bytes) (hmethod : IsToken (utf8 method))
    (hpath : IsTarget (utf8 path))
    (hheaders : ∀ header ∈ headers.toList, IsToken (utf8 header.1) ∧ 0 ∉ utf8 header.2) :
    parseRequest (bytes ++ rest) =
      some (⟨utf8 method, utf8 path, readFields headers (body.getD []).length, body.getD []⟩, rest) := by
  have hlength : body.elim 0 List.length = (body.getD []).length := by cases body <;> rfl
  unfold encodeRequest at h
  cases hhead : encodeRequestHead method path headers (body.elim 0 List.length) with
  | error e =>
    rw [hhead] at h
    cases h
  | ok out =>
    obtain ⟨rfl, hlines⟩ := encodeRequestHead_eq hhead
    rw [hhead, hlength] at h
    have hbytes : bytes = render (utf8 method) (utf8 path)
        (writtenFields headers (body.getD []).length) (body.getD []) := by
      rw [← Except.ok.inj h]
      cases body with
      | none => rfl
      | some b => simp [render]
    have hnames := fun header hm => (hheaders header hm).1
    have hfields : ∀ field ∈ writtenFields headers (body.getD []).length,
        IsToken field.1 ∧ IsValue field.2 := by
      intro field hfield
      rcases mem_cons.mp hfield with rfl | hfield
      · decide +kernel
      rcases mem_append.mp hfield with hfield | hfield
      · obtain ⟨header, hheader, rfl⟩ := mem_map.mp hfield
        have hmem := (mem_filter.mp hheader).1
        exact ⟨hnames header hmem, isValue_of_breaksLine (hlines header hmem) (hheaders header hmem).2⟩
      · have hname : IsToken (utf8 "content-length") := by decide +kernel
        rw [mem_singleton.mp hfield]
        exact ⟨hname, isValue_toString _⟩
    have hbody : bodyLength ((writtenFields headers (body.getD []).length).map fun field =>
        (field.1, trimBlanks field.2)) = some (body.getD []).length := by
      rw [map_trimBlanks_writtenFields]
      exact bodyLength_readFields hnames
    rw [hbytes, parseRequest_render rest hmethod hpath hfields hbody, map_trimBlanks_writtenFields]

def sampleHeaders : Headers := .ofList [("accept", "*/*")]

theorem encodeRequest_one_request_post :
    ∃ bytes, encodeRequest "POST" "/notes" sampleHeaders (some [1, 2]) = .ok bytes ∧
      ∀ rest, parseRequest (bytes ++ rest) =
        some (⟨utf8 "POST", utf8 "/notes", readFields sampleHeaders ([1, 2] : List UInt8).length, [1, 2]⟩,
          rest) := by
  have hok : (encodeRequest "POST" "/notes" sampleHeaders (some [1, 2])).isOk = true := by
    decide +kernel
  cases h : encodeRequest "POST" "/notes" sampleHeaders (some [1, 2]) with
  | error e =>
    rw [h] at hok
    cases hok
  | ok bytes =>
    refine ⟨bytes, rfl, fun rest => ?_⟩
    have hread := encodeRequest_one_request _ _ _ _ bytes rest h (by decide +kernel) (by decide +kernel)
      (by decide +kernel)
    rwa [Option.getD_some] at hread

/-- A `Host` of the caller is accepted and not sent. -/
theorem caller_host_left_out :
    ∃ bytes, encodeRequest "GET" "/" (.ofList [("Host", "elsewhere")]) none = .ok bytes ∧
      parseRequest bytes = some (⟨utf8 "GET", utf8 "/", [(utf8 "host", utf8 "gaugewright-home"),
        (utf8 "content-length", utf8 "0")], []⟩, []) := by
  refine ⟨utf8 "GET / HTTP/1.1\r\nhost: gaugewright-home\r\ncontent-length: 0\r\n\r\n", ?_, ?_⟩
  · decide +kernel
  · decide +kernel

end GaugeDesk.Relay
