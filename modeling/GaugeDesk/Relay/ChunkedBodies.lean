import GaugeDesk.Core.Trimmed
import GaugeDesk.Relay.ResponseSafety
import GaugeDesk.Lib.History

/-!
# Relay transport: chunked bodies

`Chunked bytes body` is the grammar of chunked bodies.  What the reader consumes of
a body is a sequence of chunks with a last one of size zero, but the two bytes after
the data of a chunk are not looked at, and a size may have a sign or blanks around it:

    calls that complete a chunked body → what they consumed is chunks  (readOut_taken)
    such chunks are in the grammar exactly when each is closed by CR LF
      and each size is written in digits only  (chunked_iff)
-/

namespace GaugeDesk.Relay

open Http1 ResponseReader List Option Except

variable {buffer buffer' decoded decoded' header out body : List UInt8} {size n : Nat}
  {reader reader' : ResponseReader} {action : Action}

/-! ## The grammar -/

def hexSize (digits : List Char) : Nat := digits.foldl (fun n c => n * 16 + (Hex.value c).getD 0) 0

/-- A line with a size in hexadecimal digits and, after a semicolon, an extension. -/
def ChunkHeader (header : List UInt8) (size : Nat) : Prop :=
  find crlf (header ++ crlf) = some header.length ∧
    ∃ digits extension, fromUtf8 header = some (digits ++ extension) ∧ digits ≠ [] ∧
      (∀ c ∈ digits, (Hex.value c).isSome = true) ∧ hexSize digits = size ∧
      ∀ c ∈ extension.head?, c = ';'

/-- A chunked body, and its data. -/
inductive Chunked : List UInt8 → List UInt8 → Prop
  | last {header : List UInt8} (h : ChunkHeader header 0) : Chunked (header ++ crlf ++ crlf) []
  | chunk {header data rest body : List UInt8} (h : ChunkHeader header data.length)
      (hdata : data ≠ []) (hrest : Chunked rest body) :
      Chunked (header ++ crlf ++ (data ++ (crlf ++ rest))) (data ++ body)

/-! ## What the reader takes -/

structure Chunk where
  header : List UInt8
  data : List UInt8
  mark : List UInt8

/-- The header is a line that the reader finds the size of the data in; any two bytes follow the
data. -/
structure Chunk.Taken (c : Chunk) : Prop where
  size : Sized c.header c.data.length
  data : c.data ≠ []
  mark : c.mark.length = 2

def Chunk.bytes (c : Chunk) : List UInt8 := c.header ++ crlf ++ (c.data ++ c.mark)

/-- Chunks, and the header of the last one. -/
def consumed (chunks : List Chunk) (last : List UInt8) : List UInt8 :=
  chunks.flatMap Chunk.bytes ++ (last ++ crlf ++ crlf)

/-- The text of the size has digits only: no sign, and no blanks around it. -/
def BareSize (header : List UInt8) : Prop :=
  ∀ text, fromUtf8 header = some text → ∀ c ∈ text.takeWhile (· ≠ ';'), (Hex.value c).isSome = true

/-! ## Sizes -/

theorem hexDigit_range {c : Char} {v : Nat} (h : Hex.value c = some v) :
    v < 16 ∧ 48 ≤ c.toNat ∧ c.toNat ≤ 102 ∧ c.toNat ≠ 59 := by
  have hle : ∀ a b : Char, a ≤ b ↔ a.toNat ≤ b.toNat := fun a b => UInt32.le_iff_toNat_le
  have hcodes : '0'.toNat = 48 ∧ '9'.toNat = 57 ∧ 'a'.toNat = 97 ∧ 'f'.toNat = 102 ∧
    'A'.toNat = 65 ∧ 'F'.toNat = 70 := by decide
  simp only [Hex.value, Bool.and_eq_true, decide_eq_true_eq, hle, hcodes] at h
  split at h
  · obtain rfl := some.inj h
    omega
  · split at h
    · obtain rfl := some.inj h
      omega
    · split at h
      · obtain rfl := some.inj h
        omega
      · cases h

section
variable {digits : List Char} (h : ∀ c ∈ digits, (Hex.value c).isSome = true)
include h

theorem mapM_digitValue :
    digits.mapM (digitValue 16) = some (digits.map fun c => (Hex.value c).getD 0) := by
  induction digits with
  | nil => rfl
  | cons c digits ih =>
    obtain ⟨v, hv⟩ := isSome_iff_exists.mp (h c mem_cons_self)
    have hdigit : digitValue 16 c = some v := by
      rw [digitValue, hv, filter_some, if_pos (decide_eq_true (hexDigit_range hv).1)]
    rw [mapM_cons, hdigit, ih fun c hc => h c (mem_cons_of_mem _ hc), map_cons, hv]
    rfl

theorem fromStrRadix_digits :
    fromStrRadix 16 64 (trim digits) = some n ↔ digits ≠ [] ∧ hexSize digits = n ∧ n < 2 ^ 64 := by
  have hrange : ∀ c ∈ digits, 48 ≤ c.toNat ∧ c.toNat ≤ 102 := by
    intro c hc
    obtain ⟨v, hv⟩ := isSome_iff_exists.mp (h c hc)
    exact ⟨(hexDigit_range hv).2.1, (hexDigit_range hv).2.2.1⟩
  have hblank : ∀ c ∈ digits, isWhitespace c = false := by
    intro c hc
    have := hrange c hc
    simp only [isWhitespace, Bool.or_eq_false_iff, Bool.and_eq_false_iff, decide_eq_false_iff_not,
      beq_eq_false_iff_ne]
    omega
  have htrim : trim digits = digits := trim_of_trimmed
    ⟨fun c hc => hblank c (mem_of_mem_head? hc), fun c hc => hblank c (mem_of_mem_getLast? hc)⟩
  have hsign : digits.head? ≠ some '+' := by
    intro hplus
    have := (hrange '+' (mem_of_mem_head? hplus)).1
    revert this
    decide
  rw [htrim, fromStrRadix]
  simp only [if_neg hsign, mapM_digitValue h, bind_eq_bind, bind_some, foldl_map]
  by_cases hne : digits = []
  · simp [hne]
  · rw [if_neg hne]
    show (if hexSize digits < 2 ^ 64 then some (hexSize digits) else none) = some n ↔ _
    by_cases hlt : hexSize digits < 2 ^ 64
    · rw [if_pos hlt, some.injEq]
      exact ⟨fun he => ⟨hne, he, he ▸ hlt⟩, fun he => he.2.1⟩
    · rw [if_neg hlt]
      exact iff_of_false nofun fun he => hlt (he.2.1 ▸ he.2.2)

theorem takeWhile_digits {extension : List Char} (hext : ∀ c ∈ extension.head?, c = ';') :
    (digits ++ extension).takeWhile (· ≠ ';') = digits := by
  rw [takeWhile_append_of_pos]
  · cases extension with
    | nil => simp
    | cons c extension =>
      obtain rfl := hext c rfl
      simp
  · intro c hc
    obtain ⟨v, hv⟩ := isSome_iff_exists.mp (h c hc)
    rw [decide_eq_true_eq]
    rintro rfl
    exact (hexDigit_range hv).2.2.2 rfl

end

theorem chunkSize_eq_ok (h : chunkSize header = .ok size) : ∃ text, fromUtf8 header = some text ∧
    fromStrRadix 16 64 (trim (text.takeWhile (· ≠ ';'))) = some size := by
  unfold chunkSize at h
  split at h
  · cases h
  · next text htext =>
    split at h
    · cases h
    · next hsize =>
      cases h
      exact ⟨text, htext, hsize⟩

/-- A header that the reader takes is in the grammar when its size has digits only. -/
theorem chunkHeader_iff (h : Sized header size) : ChunkHeader header n ↔ n = size ∧ BareSize header := by
  obtain ⟨text, htext, hsize⟩ := chunkSize_eq_ok h.2
  constructor
  · rintro ⟨-, digits, extension, htext', hne, hdigits, rfl, hext⟩
    obtain rfl := some.inj (htext.symm.trans htext')
    rw [takeWhile_digits hdigits hext, fromStrRadix_digits hdigits] at hsize
    refine ⟨hsize.2.1, fun text ht => ?_⟩
    obtain rfl := some.inj (htext.symm.trans ht)
    rw [takeWhile_digits hdigits hext]
    exact hdigits
  · rintro ⟨rfl, hbare⟩
    rw [fromStrRadix_digits (hbare text htext)] at hsize
    refine ⟨h.1, _, text.dropWhile (· ≠ ';'), ?_, hsize.1, hbare text htext, hsize.2.1, fun c hc => ?_⟩
    · rw [takeWhile_append_dropWhile]
      exact htext
    · have := head?_dropWhile_not (· ≠ ';') text
      rw [hc] at this
      simpa using this

/-- A line that is found before CR LF is the only one. -/
theorem line_unique {header' rest rest' : List UInt8} (h : find crlf (header ++ crlf) = some header.length)
    (h' : find crlf (header' ++ crlf) = some header'.length)
    (heq : header ++ crlf ++ rest = header' ++ crlf ++ rest') : header = header' ∧ rest = rest' := by
  have hlength : header.length = header'.length := by
    have hfind := find_append h rest
    rw [heq, find_append h' rest'] at hfind
    exact (some.inj hfind).symm
  rw [append_assoc, append_assoc] at heq
  obtain ⟨rfl, hrest⟩ := append_inj heq hlength
  exact ⟨rfl, append_cancel_left hrest⟩

/-- **What the reader consumes is in the grammar** exactly when the data of each chunk is closed by
CR LF and each size is written in digits only. -/
theorem chunked_iff {chunks : List Chunk} {last : List UInt8} (hchunks : ∀ c ∈ chunks, c.Taken)
    (hlast : Sized last 0) : Chunked (consumed chunks last) body ↔ body = chunks.flatMap Chunk.data ∧
      (∀ c ∈ chunks, c.mark = crlf ∧ BareSize c.header) ∧ BareSize last := by
  induction chunks generalizing body with
  | nil =>
    simp only [consumed, flatMap_nil, nil_append, not_mem_nil, false_imp_iff,
      implies_true, true_and]
    constructor
    · intro h
      generalize hbytes : last ++ crlf ++ crlf = whole at h
      cases h with
      | last h =>
        obtain ⟨rfl, -⟩ := line_unique hlast.1 h.1 hbytes
        exact ⟨rfl, ((chunkHeader_iff hlast).mp h).2⟩
      | chunk h hdata =>
        obtain ⟨rfl, -⟩ := line_unique hlast.1 h.1 hbytes
        exact absurd (length_eq_zero_iff.mp ((chunkHeader_iff hlast).mp h).1) hdata
    · rintro ⟨rfl, hbare⟩
      exact .last ((chunkHeader_iff hlast).mpr ⟨rfl, hbare⟩)
  | cons c chunks ih =>
    obtain ⟨hc, hchunks⟩ := forall_mem_cons.mp hchunks
    have hbytes : consumed (c :: chunks) last =
        c.header ++ crlf ++ (c.data ++ (c.mark ++ consumed chunks last)) := by
      simp only [consumed, flatMap_cons, Chunk.bytes, append_assoc]
    rw [hbytes, flatMap_cons, forall_mem_cons]
    constructor
    · intro h
      generalize hwhole : c.header ++ crlf ++ (c.data ++ (c.mark ++ consumed chunks last)) = whole at h
      cases h with
      | last h =>
        obtain ⟨rfl, -⟩ := line_unique hc.size.1 h.1 hwhole
        exact absurd (length_eq_zero_iff.mp ((chunkHeader_iff hc.size).mp h).1.symm) hc.data
      | chunk h hdata hrest =>
        obtain ⟨rfl, htail⟩ := line_unique hc.size.1 h.1 hwhole
        obtain ⟨hlength, hbare⟩ := (chunkHeader_iff hc.size).mp h
        obtain ⟨rfl, hmarked⟩ := append_inj htail hlength.symm
        obtain ⟨hmark, rfl⟩ := append_inj hmarked hc.mark
        obtain ⟨rfl, hmarks, hlast⟩ := (ih hchunks).mp hrest
        exact ⟨rfl, ⟨⟨hmark, hbare⟩, hmarks⟩, hlast⟩
    · rintro ⟨rfl, ⟨⟨hmark, hbare⟩, hmarks⟩, hlast⟩
      rw [hmark]
      exact .chunk ((chunkHeader_iff hc.size).mpr ⟨rfl, hbare⟩) hc.data
        ((ih hchunks).mpr ⟨rfl, hmarks, hlast⟩)

/-! ## Reading -/

/-- What was taken of a body: chunks and, once it is complete, the header of the last one. -/
structure Taken where
  chunks : List Chunk
  last : Option (List UInt8)
  chunk : ∀ c ∈ chunks, c.Taken
  sized : ∀ header ∈ last, Sized header 0

def Taken.bytes (t : Taken) : List UInt8 :=
  t.chunks.flatMap Chunk.bytes ++ t.last.elim [] (· ++ crlf ++ crlf)

def Taken.data (t : Taken) : List UInt8 := t.chunks.flatMap Chunk.data

def Taken.none : Taken := ⟨[], .none, nofun, nofun⟩

variable {t : Taken}

theorem chunkLoop_taken {rounds : Nat} {result : Except StreamError Bool}
    (hlast : t.last = .none) (hdata : out ++ decoded = t.data)
    (h : chunkLoop rounds buffer decoded = .ok (result, buffer', decoded')) :
    ∃ t' : Taken, t'.bytes ++ buffer' = t.bytes ++ buffer ∧ out ++ decoded' = t'.data ∧
      (result = .ok true ↔ t'.last.isSome = true) := by
  induction rounds generalizing t buffer decoded with
  | zero =>
    cases h
    exact ⟨t, rfl, hdata, by simp [hlast]⟩
  | succ rounds ih =>
    simp only [chunkLoop, bind_eq_ok] at h
    obtain ⟨step, hstep, h⟩ := h
    cases (chunkStep_returns buffer).of_ok hstep with
    | wait | failed =>
      cases h
      exact ⟨t, rfl, hdata, by simp [hlast]⟩
    | finish header rest hbuffer hsize =>
      cases h
      refine ⟨⟨t.chunks, some header, t.chunk, fun x hx => some.inj hx ▸ hsize⟩, ?_, hdata, by simp⟩
      simp [Taken.bytes, hlast, hbuffer]
    | chunk header data mark rest hbuffer hsize hne hmark =>
      simp only [bind_eq_ok, extend, ite_eq_ok] at h
      obtain ⟨_, ⟨-, rfl⟩, h⟩ := h
      have hchunk : ∀ c ∈ t.chunks ++ [⟨header, data, mark⟩], c.Taken := by
        rw [forall_mem_concat]
        exact ⟨t.chunk, hsize, hne, hmark⟩
      obtain ⟨t', hbytes, hdata', hresult⟩ := ih (t := ⟨t.chunks ++ [⟨header, data, mark⟩], t.last,
        hchunk, t.sized⟩) hlast (by simp [← append_assoc, hdata, Taken.data]) h
      refine ⟨t', ?_, hdata', hresult⟩
      rw [hbytes, hbuffer]
      simp [Taken.bytes, Chunk.bytes, hlast]

/-- The reader is in a chunked body: `t` was taken of it, and `out` was handed out. -/
def Reading (t : Taken) (out : List UInt8) (reader : ResponseReader) : Prop :=
  ∃ state, reader.body = some state ∧ state.framing = .chunked ∧
    state.complete = t.last.isSome ∧ out ++ state.decoded = t.data

section
variable (hr : Reading t out reader)
include hr

theorem Reading.takeHead : ResponseReader.takeHead reader = .ok (.ok none, reader) := by
  obtain ⟨state, hbody, -⟩ := hr
  simp only [ResponseReader.takeHead, hbody, isSome_some, if_true]

theorem advance_reading {result : Except StreamError Unit}
    (h : advance reader = .ok (result, reader')) :
    ∃ t' : Taken, t'.bytes ++ reader'.buffer = t.bytes ++ reader.buffer ∧ Reading t' out reader' := by
  obtain ⟨state, hbody, hframing, hcomplete, hdata⟩ := hr
  by_cases hdone : state.complete = true
  · simp only [advance, hbody, hdone, if_true] at h
    cases h
    exact ⟨t, rfl, state, hbody, hframing, hcomplete, hdata⟩
  · rw [Bool.not_eq_true] at hdone
    rw [advance_chunked hbody hdone hframing] at h
    obtain ⟨⟨result', buffer', decoded'⟩, hloop, h⟩ := bind_eq_ok.mp h
    have hlast : t.last = .none := by simpa [hdone] using hcomplete
    obtain ⟨t', hbytes, hdata', hresult⟩ := chunkLoop_taken hlast hdata hloop
    cases result' with
    | error e =>
      cases h
      refine ⟨t', hbytes, _, rfl, hframing, ?_, hdata'⟩
      simpa [hdone] using hresult
    | ok complete =>
      cases h
      refine ⟨t', hbytes, _, rfl, hframing, ?_, hdata'⟩
      cases complete <;> simpa using hresult

/-! ## Calls -/

/-- What a call hands out of a body, whether the body is over with it, and the reader it leaves. -/
def Action.output (action : Action) (reader : ResponseReader) :
    Except Panic ((List UInt8 × Bool) × ResponseReader) :=
  match action with
  | .readBody => (ResponseReader.readBody reader).map fun read =>
    (match read.1 with
      | .ok (.chunk bytes) => (bytes, false)
      | .ok .finished => ([], true)
      | _ => ([], false), read.2)
  | .take => (ResponseReader.take reader).map fun read =>
    (match read.1 with
      | .ok (some response) => (response.body, true)
      | _ => ([], false), read.2)
  | action => (action.run reader).map fun reader => (([], false), reader)

/-- What calls hand out of a body that the last of them completes, and the reader it leaves. -/
def readOut (reader : ResponseReader) : List Action → Option (List UInt8 × ResponseReader)
  | [] => none
  | action :: actions =>
    match action.output reader with
    | .error _ => none
    | .ok ((bytes, true), reader') => if actions = [] then some (bytes, reader') else none
    | .ok ((bytes, false), reader') =>
      (readOut reader' actions).map fun out => (bytes ++ out.1, out.2)

def Action.bytes : Action → List UInt8
  | .feed bytes => bytes
  | _ => []

/-- `read_body` hands out what is decoded, and then the end. -/
theorem readBody_reading {result : Except StreamError BodyPart}
    (h : ResponseReader.readBody reader = .ok (result, reader')) :
    ∃ t' : Taken, t'.bytes ++ reader'.buffer = t.bytes ++ reader.buffer ∧
      match result with
      | .ok (.chunk bytes) => Reading t' (out ++ bytes) reader'
      | .ok .finished => t'.last.isSome = true ∧ out = t'.data
      | _ => Reading t' out reader' := by
  simp only [ResponseReader.readBody, bind_eq_ok] at h
  obtain ⟨⟨advanced, reader₁⟩, hadvance, h⟩ := h
  obtain ⟨t', hbytes, hr'⟩ := advance_reading hr hadvance
  cases advanced with
  | error e =>
    cases h
    exact ⟨t', hbytes, hr'⟩
  | ok u =>
    obtain ⟨state, hbody, hframing, hcomplete, hdata⟩ := hr'
    simp only [hbody] at h
    split at h
    · cases h
      exact ⟨t', hbytes, _, rfl, hframing, hcomplete, by rw [← hdata]; simp⟩
    · next hempty =>
      rw [Decidable.not_not] at hempty
      split at h
      · next hdone =>
        cases h
        exact ⟨t', hbytes, hcomplete.symm.trans hdone, by rw [← hdata, hempty, append_nil]⟩
      · cases h
        exact ⟨t', hbytes, state, hbody, hframing, hcomplete, hdata⟩

/-- `take` hands out what is decoded once the body is complete. -/
theorem take_reading {result : Except StreamError (Option HttpResponse)} (h : ResponseReader.take reader = .ok (result, reader')) :
    ∃ t' : Taken, t'.bytes ++ reader'.buffer = t.bytes ++ reader.buffer ∧
      match result with
      | .ok (some response) => t'.last.isSome = true ∧ out ++ response.body = t'.data
      | _ => Reading t' out reader' := by
  unfold ResponseReader.take at h
  split at h
  · simp only [takeBody, bind_eq_ok] at h
    obtain ⟨⟨advanced, reader₁⟩, hadvance, h⟩ := h
    obtain ⟨t', hbytes, hr'⟩ := advance_reading hr hadvance
    cases advanced with
    | error e =>
      cases h
      exact ⟨t', hbytes, hr'⟩
    | ok u =>
      simp only at h
      split at h
      · cases h
        exact ⟨t', hbytes, hr'⟩
      · next hdone =>
        split at h
        · cases h
        · obtain ⟨state, hbody, hframing, hcomplete, hdata⟩ := hr'
          simp only [hbody] at h
          cases h
          refine ⟨t', hbytes, ?_, hdata⟩
          rw [hbody, any_some, Decidable.not_not] at hdone
          exact hcomplete.symm.trans hdone
  · -- without a head, and in a body, there is none to take
    simp only [hr.takeHead, bind, Except.bind] at h
    cases h
    exact ⟨t, rfl, hr⟩

/-- A call in a chunked body takes more of it, and completes it once all of it is handed out. -/
theorem output_reading {bytes : List UInt8} {last : Bool}
    (h : action.output reader = .ok ((bytes, last), reader')) :
    ∃ t' : Taken, t'.bytes ++ reader'.buffer = t.bytes ++ (reader.buffer ++ action.bytes) ∧
      if last then t'.last.isSome = true ∧ out ++ bytes = t'.data
      else Reading t' (out ++ bytes) reader' := by
  cases action with
  | feed bytes =>
    obtain ⟨read, hcall, he⟩ := map_eq_ok.mp h
    obtain ⟨⟨u, reader₁⟩, hfeed, rfl⟩ := map_eq_ok.mp hcall
    simp only [ResponseReader.feed, bind_eq_ok, extend, ite_eq_ok] at hfeed
    obtain ⟨_, ⟨-, rfl⟩, hfeed⟩ := hfeed
    cases hfeed
    cases he
    rw [append_nil]
    exact ⟨t, rfl, hr⟩
  | sentRequest method =>
    cases h
    simp only [Action.bytes, append_nil]
    exact ⟨t, rfl, hr⟩
  | takeHead =>
    simp only [Action.output, Action.run, hr.takeHead] at h
    cases h
    simp only [Action.bytes, append_nil]
    exact ⟨t, rfl, hr⟩
  | readBody =>
    obtain ⟨⟨result, reader₁⟩, hcall, he⟩ := map_eq_ok.mp h
    obtain ⟨t', hbytes, hr'⟩ := readBody_reading hr hcall
    simp only [Action.bytes, append_nil]
    cases result with
    | error e =>
      cases he
      rw [append_nil]
      exact ⟨t', hbytes, hr'⟩
    | ok read =>
      cases read with
      | chunk bytes =>
        cases he
        exact ⟨t', hbytes, hr'⟩
      | pending | finished =>
        cases he
        rw [append_nil]
        exact ⟨t', hbytes, hr'⟩
  | take =>
    obtain ⟨⟨result, reader₁⟩, hcall, he⟩ := map_eq_ok.mp h
    obtain ⟨t', hbytes, hr'⟩ := take_reading hr hcall
    simp only [Action.bytes, append_nil]
    rcases result with e | _ | response
    · cases he
      rw [append_nil]
      exact ⟨t', hbytes, hr'⟩
    · cases he
      rw [append_nil]
      exact ⟨t', hbytes, hr'⟩
    · cases he
      exact ⟨t', hbytes, hr'⟩

theorem readOut_taken {calls : List Action} (h : readOut reader calls = some (body, reader')) :
    ∃ t' : Taken, t.bytes ++ (reader.buffer ++ calls.flatMap Action.bytes) = t'.bytes ++ reader'.buffer ∧
      t'.last.isSome = true ∧ out ++ body = t'.data := by
  induction calls generalizing reader t out body with
  | nil => cases h
  | cons action calls ih =>
    rw [flatMap_cons, ← append_assoc reader.buffer]
    unfold readOut at h
    split at h
    · cases h
    · next bytes reader₁ houtput =>
      split at h
      · next hnil =>
        cases h
        subst hnil
        obtain ⟨t', hbytes, hlast, hdata⟩ := output_reading hr houtput
        exact ⟨t', by rw [flatMap_nil, append_nil, hbytes], hlast, hdata⟩
      · cases h
    · next bytes reader₁ houtput =>
      obtain ⟨⟨body', reader₂⟩, hrest, he⟩ := map_eq_some_iff.mp h
      cases he
      obtain ⟨t₁, hbytes, hr₁⟩ := output_reading hr houtput
      obtain ⟨t', hbytes', hlast, hdata⟩ := ih hr₁ hrest
      refine ⟨t', ?_, hlast, by rw [← hdata, append_assoc]⟩
      rw [← append_assoc, ← hbytes, append_assoc, hbytes']

end

/-- **What completes a chunked body.**  From the head of a chunked response on, taken by `take_head` or
within `take`, in every run of calls of which the last completes the body: the bytes consumed since
the head are chunks and a last one of size zero, with the data that the calls handed out as the body.
They are in the grammar of chunked bodies exactly when the two bytes after the data of each chunk are
CR LF and each size is written in digits only, neither of which the reader checks. -/
theorem chunked_body_consumed (start reader reader' : ResponseReader) (head : ResponseHead)
    (first : Action) (calls : List Action) (body : List UInt8)
    (hfirst : first = .takeHead ∨ first = .take ∧ start.head = none)
    (hhead : ResponseReader.takeHead start = .ok (.ok (some head), reader))
    (hchunked : reader.body = some (.new .chunked))
    (h : readOut start (first :: calls) = some (body, reader')) :
    ∃ chunks last, (∀ c ∈ chunks, c.Taken) ∧ Sized last 0 ∧
      reader.buffer ++ calls.flatMap Action.bytes = consumed chunks last ++ reader'.buffer ∧
      body = chunks.flatMap Chunk.data ∧
      (Chunked (consumed chunks last) body ↔
        (∀ c ∈ chunks, c.mark = crlf ∧ BareSize c.header) ∧ BareSize last) := by
  have hreading : ∀ head, Reading Taken.none [] { reader with head } :=
    fun head => ⟨_, hchunked, rfl, rfl, rfl⟩
  obtain ⟨t, hbytes, hlast, hdata⟩ : ∃ t : Taken,
      reader.buffer ++ calls.flatMap Action.bytes = t.bytes ++ reader'.buffer ∧
        t.last.isSome = true ∧ body = t.data := by
    rcases hfirst with rfl | ⟨rfl, hnone⟩
    · have houtput : Action.takeHead.output start = .ok (([], false), reader) := by
        simp only [Action.output, Action.run, hhead, Except.map]
      simp only [readOut, houtput] at h
      obtain ⟨⟨body', reader₁⟩, hrest, he⟩ := map_eq_some_iff.mp h
      cases he
      exact readOut_taken (hreading reader.head) hrest
    · -- `take` goes on in the body whose head it took
      have htake : ResponseReader.take start = ResponseReader.take { reader with head := some head } := by
        unfold ResponseReader.take
        rw [if_neg (by rw [hnone]; exact Bool.false_ne_true), hhead]
        rfl
      have hsame : readOut start (.take :: calls) =
          readOut { reader with head := some head } (.take :: calls) := by
        simp only [readOut, Action.output, htake]
      rw [hsame] at h
      have htaken := readOut_taken (hreading (some head)) h
      exact htaken
  obtain ⟨last, hlast⟩ := isSome_iff_exists.mp hlast
  have hconsumed : t.bytes = consumed t.chunks last := by
    rw [Taken.bytes, hlast]
    rfl
  have hsized : Sized last 0 := t.sized last hlast
  refine ⟨t.chunks, last, t.chunk, hsized, hconsumed ▸ hbytes, hdata, ?_⟩
  rw [chunked_iff t.chunk hsized]
  exact and_iff_right hdata

/-- A reader that was fed a chunked response with the given text for a body. -/
def fedChunked (text : String) : ResponseReader :=
  { ResponseReader.new with
    buffer := utf8 ("HTTP/1.1 200 OK\r\ntransfer-encoding: chunked\r\n\r\n" ++ text) }

theorem chunked_body_consumed_closed :
    ∃ reader', readOut (fedChunked "2\r\nab\r\n0\r\n\r\n") [.take] = some (utf8 "ab", reader') ∧
      ∃ (chunks : List Chunk) (last : List UInt8), (∀ c ∈ chunks, c.Taken) ∧ Sized last 0 ∧
        utf8 "ab" = chunks.flatMap Chunk.data := by
  have hread : (readOut (fedChunked "2\r\nab\r\n0\r\n\r\n") [.take]).map Prod.fst = some (utf8 "ab") := by
    decide +kernel
  have htook : (ResponseReader.takeHead (fedChunked "2\r\nab\r\n0\r\n\r\n")).map
      (fun read => (read.1.map isSome, read.2.body)) =
        .ok (.ok true, some (.new .chunked)) := by
    decide +kernel
  obtain ⟨⟨body, reader'⟩, hout, rfl⟩ := map_eq_some_iff.mp hread
  obtain ⟨⟨result, reader⟩, hhead, he⟩ := map_eq_ok.mp htook
  obtain ⟨hresult, hbody⟩ := Prod.mk.inj he
  obtain ⟨head, rfl, hsome⟩ := map_eq_ok.mp hresult
  obtain ⟨head, rfl⟩ := isSome_iff_exists.mp hsome
  obtain ⟨chunks, last, hchunks, hlast, -, hdata, -⟩ := chunked_body_consumed _ reader reader' head
    .take [] _ (.inr ⟨rfl, rfl⟩) hhead hbody hout
  exact ⟨reader', hout, chunks, last, hchunks, hlast, hdata⟩

/-- The reader completes a body whose first chunk is not closed, and the bytes are in no reading a
chunked body. -/
theorem unclosed_chunk_accepted :
    (readOut (fedChunked "2\r\nabXX0\r\n\r\n") [.take]).map (fun read => (read.1, read.2.buffer)) =
        some (utf8 "ab", []) ∧
      ∀ body, ¬ Chunked (utf8 "2\r\nabXX0\r\n\r\n") body := by
  refine ⟨by decide +kernel, fun body h => ?_⟩
  have hbytes : utf8 "2\r\nabXX0\r\n\r\n" =
      consumed [⟨utf8 "2", utf8 "ab", utf8 "XX"⟩] (utf8 "0") := by decide +kernel
  rw [hbytes, chunked_iff] at h
  · have hmark := (h.2.1 _ mem_cons_self).1
    revert hmark
    decide +kernel
  · rw [forall_mem_singleton]
    exact ⟨⟨by decide +kernel, by decide +kernel⟩, by decide +kernel, by decide +kernel⟩
  · exact ⟨by decide +kernel, by decide +kernel⟩

end GaugeDesk.Relay
