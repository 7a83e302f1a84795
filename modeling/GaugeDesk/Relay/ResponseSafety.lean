import GaugeDesk.Relay.ResponseModel

/-!
# Relay transport: where the response reader panics

As long as the bytes fed to it fit a `Vec`, the reader panics in one place: the end
of a chunk is computed from the size its header states, and a size close to
`usize::MAX` makes the sum overflow.

    a round takes a chunk apart, and panics exactly at a `BigChunk`  (chunkStep_returns)
    a run panics exactly when one of its calls does  (runActions_ok_iff)
-/

namespace GaugeDesk.Relay

open Http1

variable {bytes buffer needle : List UInt8} {state : BodyState} {stop : Nat}

/-! ## Places and numbers -/

theorem find_le {i : Nat} (h : find needle bytes = some i) :
    i + needle.length ≤ bytes.length := by
  induction bytes generalizing i with
  | nil => cases h
  | cons b bytes ih =>
    rw [find] at h
    split at h
    · rename_i hprefix
      obtain rfl := Option.some.inj h
      have hle := (List.isPrefixOf_iff_prefix.mp hprefix).length_le
      omega
    · obtain ⟨j, hj, rfl⟩ := Option.map_eq_some_iff.mp h
      have hle := ih hj
      rw [List.length_cons]
      omega

theorem find_append {i : Nat} (h : find needle bytes = some i) (more : List UInt8) :
    find needle (bytes ++ more) = some i := by
  induction bytes generalizing i with
  | nil => cases h
  | cons b bytes ih =>
    rw [find] at h
    rw [List.cons_append, find]
    split at h
    · next hprefix =>
      rw [if_pos, h]
      rw [List.isPrefixOf_iff_prefix] at hprefix ⊢
      exact hprefix.trans (List.prefix_append (b :: bytes) more)
    · next hprefix =>
      obtain ⟨j, hj, rfl⟩ := Option.map_eq_some_iff.mp h
      rw [if_neg, ih hj]
      · rfl
      · rw [List.isPrefixOf_iff_prefix] at hprefix ⊢
        intro hmore
        have hle := find_le hj
        refine hprefix (List.prefix_of_prefix_length_le hmore (List.prefix_append (b :: bytes) more) ?_)
        rw [List.length_cons]
        omega

/-- Up to the first place of `needle`, and after it. -/
theorem find_eq_some {i : Nat} (hne : needle ≠ []) (h : find needle bytes = some i) :
    ∃ line rest, bytes = line ++ needle ++ rest ∧ line.length = i ∧ find needle (line ++ needle) = some i := by
  induction bytes generalizing i with
  | nil => cases h
  | cons b bytes ih =>
    rw [find] at h
    split at h
    · next hprefix =>
      obtain rfl := Option.some.inj h
      obtain ⟨rest, hrest⟩ := List.isPrefixOf_iff_prefix.mp hprefix
      refine ⟨[], rest, hrest.symm, rfl, ?_⟩
      cases needle with
      | nil => exact absurd rfl hne
      | cons c needle =>
        rw [List.nil_append, find, if_pos]
        exact List.isPrefixOf_iff_prefix.mpr List.prefix_rfl
    · next hprefix =>
      obtain ⟨j, hj, rfl⟩ := Option.map_eq_some_iff.mp h
      obtain ⟨line, rest, rfl, rfl, hline⟩ := ih hj
      refine ⟨b :: line, rest, rfl, rfl, ?_⟩
      rw [List.cons_append, find, if_neg, hline]
      · rfl
      · rw [List.isPrefixOf_iff_prefix] at hprefix ⊢
        exact fun hp => hprefix (hp.trans (List.prefix_append (b :: (line ++ needle)) rest))

theorem checkedAdd_ok {a b : Nat} (h : a + b < 2 ^ 64) : checkedAdd a b = .ok (a + b) := if_pos h

theorem ite_eq_ok {α : Type} {p : Prop} [Decidable p] {a b : α} {e : Panic} :
    (if p then Except.ok a else .error e) = .ok b ↔ p ∧ a = b := by
  by_cases h : p <;> simp [h]

theorem checkedAdd_overflow {a b : Nat} (h : ¬ a + b < 2 ^ 64) : checkedAdd a b = .error .overflow :=
  if_neg h

theorem checkedSub_ok {a b : Nat} (h : b ≤ a) : checkedSub a b = .ok (a - b) := if_pos h

theorem slice_ok {start : Nat} (h : start ≤ stop) (hstop : stop ≤ bytes.length) :
    slice bytes start stop = .ok ((bytes.take stop).drop start) := if_pos ⟨h, hstop⟩

theorem drain_ok (h : stop ≤ bytes.length) :
    drain bytes stop = .ok (bytes.take stop, bytes.drop stop) := if_pos h

theorem extend_ok {more : List UInt8} (h : bytes.length + more.length < 2 ^ 63) :
    extend bytes more = .ok (bytes ++ more) := if_pos h

namespace ResponseReader

section
variable {α β : Type} {fits : Prop} {call : Except Panic α} {P : α → Prop}

/-- The call returns with `P` where `fits` holds, and overflows where it does not. -/
def ReturnsWhen (fits : Prop) (call : Except Panic α) (P : α → Prop) : Prop :=
  (fits ∧ ∃ a, call = .ok a ∧ P a) ∨ (¬ fits ∧ call = .error .overflow)

theorem ReturnsWhen.intro (h : fits) {a : α} (hcall : call = .ok a) (ha : P a) :
    ReturnsWhen fits call P :=
  .inl ⟨h, a, hcall, ha⟩

theorem ReturnsWhen.of_ok {a : α} (h : ReturnsWhen fits call P) (hcall : call = .ok a) : P a := by
  rcases h with ⟨-, b, hb, ha⟩ | ⟨-, he⟩
  · exact Except.ok.inj (hb.symm.trans hcall) ▸ ha
  · cases hcall.symm.trans he

theorem ReturnsWhen.bind {Q : β → Prop} {f : α → Except Panic β} (h : ReturnsWhen fits call P)
    (hf : ∀ a, P a → ∃ b, f a = .ok b ∧ Q b) : ReturnsWhen fits (call.bind f) Q := by
  rcases h with ⟨hfits, a, rfl, ha⟩ | ⟨hfits, rfl⟩
  · exact .inl ⟨hfits, hf a ha⟩
  · exact .inr ⟨hfits, rfl⟩

end

/-! ## Chunks -/

/-- The next chunk states a size whose end does not fit a `usize`. -/
def BigChunk (buffer : List UInt8) : Prop :=
  ∃ lineEnd size, find crlf buffer = some lineEnd ∧ chunkSize (buffer.take lineEnd) = .ok size ∧
    2 ^ 64 ≤ lineEnd + size + 4

/-- The header of a chunk is the line before the first CR LF, and states the size. -/
def Sized (header : List UInt8) (size : Nat) : Prop :=
  find crlf (header ++ crlf) = some header.length ∧ chunkSize header = .ok size

/-- What a round takes out of the buffer. -/
inductive Round (buffer : List UInt8) : ChunkStep → Prop
  | wait : Round buffer .wait
  | failed (e : StreamError) : Round buffer (.failed e)
  | finish (header rest : List UInt8) (h : buffer = header ++ crlf ++ (crlf ++ rest))
      (hsize : Sized header 0) : Round buffer (.finish rest)
  | chunk (header data mark rest : List UInt8)
      (h : buffer = header ++ crlf ++ (data ++ (mark ++ rest))) (hsize : Sized header data.length)
      (hdata : data ≠ []) (hmark : mark.length = 2) : Round buffer (.chunk data rest)

/-- **A round takes a chunk apart, and panics exactly at a big one.** -/
theorem chunkStep_returns (buffer : List UInt8) :
    ReturnsWhen (¬ BigChunk buffer) (chunkStep buffer) (Round buffer) := by
  unfold chunkStep
  cases hfind : find crlf buffer with
  | none => exact .intro (by simp [BigChunk, hfind]) rfl .wait
  | some lineEnd =>
    obtain ⟨header, tail, rfl, rfl, hline⟩ := find_eq_some (by decide) hfind
    have hlength : (header ++ crlf ++ tail).length = header.length + 2 + tail.length := by
      rw [List.length_append, List.length_append]
      rfl
    have hheader : (header ++ crlf ++ tail).take header.length = header := by
      rw [List.append_assoc, List.take_left]
    have hslice : slice (header ++ crlf ++ tail) 0 header.length = .ok header := by
      rw [slice_ok (Nat.zero_le _) (by omega), hheader, List.drop_zero]
    have hdrop : (header ++ crlf ++ tail).drop (header.length + 2) = tail :=
      List.drop_left' (by simp [crlf])
    have hbig : BigChunk (header ++ crlf ++ tail) ↔
        ∃ size, chunkSize header = .ok size ∧ 2 ^ 64 ≤ header.length + size + 4 := by
      simp only [BigChunk, hfind, Option.some.injEq, exists_and_left, exists_eq_left', hheader]
    rw [hbig]
    simp only [bind, Except.bind, hslice]
    cases hsize : chunkSize header with
    | error e => exact .intro (by simp) rfl (.failed e)
    | ok size =>
      simp only [Except.ok.injEq, exists_eq_left', not_le]
      by_cases hfits : header.length + size + 4 < 2 ^ 64
      · simp only [checkedAdd_ok (show header.length + 2 < 2 ^ 64 by omega)]
        split
        · next hzero =>
          subst hzero
          simp only [checkedAdd_ok (show header.length + 2 + 2 < 2 ^ 64 by omega)]
          split
          · exact .intro hfits rfl .wait
          · simp only [slice_ok (Nat.le_add_right _ 2) (not_lt.mp ‹_›), drain_ok (not_lt.mp ‹_›),
              List.drop_take, hdrop, Nat.add_sub_cancel_left]
            split
            · exact .intro hfits rfl (.failed _)
            · next hcrlf =>
              rw [Decidable.not_not] at hcrlf
              refine .intro hfits rfl (.finish header _ ?_ ⟨hline, hsize⟩)
              rw [← List.drop_drop, hdrop, ← hcrlf, List.take_append_drop]
        · next hpos =>
          simp only [checkedAdd_ok (show header.length + 2 + size < 2 ^ 64 by omega),
            checkedAdd_ok (show header.length + 2 + size + 2 < 2 ^ 64 by omega)]
          split
          · exact .intro hfits rfl .wait
          · have htake : (tail.take size).length = size := by
              rw [List.length_take]
              omega
            rw [slice_ok (by omega) (by omega), drain_ok (not_lt.mp ‹_›), List.drop_take, hdrop,
              Nat.add_sub_cancel_left]
            refine .intro hfits rfl (.chunk header _ ((tail.drop size).take 2) _ ?_
              ⟨hline, by rw [htake, hsize]⟩ (fun hnil => hpos (by rw [← htake, hnil]; rfl)) ?_)
            · rw [← List.drop_drop, ← List.drop_drop, hdrop, List.take_append_drop,
                List.take_append_drop]
            · rw [List.length_take, List.length_drop]
              omega
      · -- one of the additions overflows
        refine .inr ⟨hfits, ?_⟩
        by_cases hstart : header.length + 2 < 2 ^ 64
        · simp only [checkedAdd_ok hstart]
          split
          · rw [checkedAdd_overflow (by omega)]
          · by_cases hend : header.length + 2 + size < 2 ^ 64
            · simp only [checkedAdd_ok hend]
              rw [checkedAdd_overflow (by omega)]
            · rw [checkedAdd_overflow hend]
        · rw [checkedAdd_overflow hstart]

/-- The chunked loop reaches a chunk whose end does not fit a `usize`. -/
inductive Overflowing : List UInt8 → Prop
  | here {buffer : List UInt8} (h : BigChunk buffer) : Overflowing buffer
  | later {buffer data rest : List UInt8} (h : chunkStep buffer = .ok (.chunk data rest))
      (hrest : Overflowing rest) : Overflowing buffer

theorem overflowing_iff {step : ChunkStep} (h : chunkStep buffer = .ok step)
    (hbig : ¬ BigChunk buffer) :
    Overflowing buffer ↔ ∃ data rest, step = .chunk data rest ∧ Overflowing rest := by
  constructor
  · intro ho
    cases ho with
    | here hb => exact absurd hb hbig
    | later hchunk hrest => exact ⟨_, _, Except.ok.inj (h.symm.trans hchunk), hrest⟩
  · rintro ⟨data, rest, rfl, hrest⟩
    exact .later h hrest

/-- **The chunked loop panics exactly when it reaches a big chunk**, and moves bytes only. -/
theorem chunkLoop_cases {rounds : Nat} (buffer decoded : List UInt8) (hrounds : buffer.length ≤ rounds)
    (h : buffer.length + decoded.length < 2 ^ 63) :
    ReturnsWhen (¬ Overflowing buffer) (chunkLoop rounds buffer decoded) fun read =>
      read.2.1.length + read.2.2.length ≤ buffer.length + decoded.length := by
  induction rounds generalizing buffer decoded with
  | zero =>
    -- an empty buffer has no chunk
    have hnil : buffer = [] := List.length_eq_zero_iff.mp (Nat.le_zero.mp hrounds)
    subst hnil
    refine .intro ?_ rfl (Nat.le_refl _)
    have hwait : chunkStep [] = .ok .wait := rfl
    rw [overflowing_iff hwait]
    · rintro ⟨data, rest, hstep, -⟩
      cases hstep
    · rintro ⟨lineEnd, size, hline, -⟩
      cases hline
  | succ rounds ih =>
    rw [chunkLoop]
    rcases chunkStep_returns buffer with ⟨hbig, step, hstep, hround⟩ | ⟨hbig, hstep⟩
    · rw [overflowing_iff hstep hbig]
      simp only [bind, Except.bind, hstep]
      cases hround with
      | wait | failed => exact .intro nofun rfl (Nat.le_refl _)
      | finish header rest hbuffer =>
        refine .intro nofun rfl ?_
        simp only [hbuffer, List.length_append]
        omega
      | chunk header data mark rest hbuffer hsize hdata hmark =>
        have hlt : data.length + rest.length < buffer.length := by
          simp only [hbuffer, List.length_append]
          omega
        have hlength : (decoded ++ data).length = decoded.length + data.length := List.length_append
        simp only [extend_ok (show decoded.length + data.length < 2 ^ 63 by omega)]
        have hiff : (∃ data' rest', ChunkStep.chunk data rest = .chunk data' rest' ∧ Overflowing rest') ↔
            Overflowing rest := by simp
        rw [hiff]
        rcases ih rest (decoded ++ data) (by omega) (by omega) with ⟨hno, read, hloop, hle⟩ | ho
        · exact .intro hno hloop (by omega)
        · exact .inr ho
    · simp only [bind, Except.bind, hstep]
      exact .inr ⟨not_not.mpr (.here (not_not.mp hbig)), rfl⟩

/-- There are as many rounds as the loop needs. -/
theorem chunkLoop_rounds {rounds : Nat} {decoded : List UInt8} (hrounds : buffer.length ≤ rounds)
    (more : Nat) : chunkLoop (rounds + more) buffer decoded = chunkLoop rounds buffer decoded := by
  induction rounds generalizing buffer decoded with
  | zero =>
    have hnil : buffer = [] := List.length_eq_zero_iff.mp (Nat.le_zero.mp hrounds)
    subst hnil
    cases more <;> rfl
  | succ rounds ih =>
    rw [Nat.succ_add, chunkLoop, chunkLoop]
    rcases chunkStep_returns buffer with ⟨-, step, hstep, hround⟩ | ⟨-, hstep⟩
    · rw [hstep]
      cases hround with
      | chunk header data mark rest hbuffer hsize hdata hmark =>
        show (extend decoded data).bind _ = (extend decoded data).bind _
        refine congrArg _ (funext fun decoded => ih ?_)
        simp only [hbuffer, List.length_append] at hrounds
        omega
      | _ => rfl
    · rw [hstep]
      rfl

/-! ## The invariant -/

/-- Bytes that a body holds. -/
def held (reader : ResponseReader) : Nat := reader.body.elim 0 fun state => state.decoded.length

/-- The reader holds no more than was fed to it, and no body holds more than its length. -/
structure Sound (reader : ResponseReader) (fed : Nat) : Prop where
  bytes : reader.buffer.length + reader.held ≤ fed
  read : ∀ state length, reader.body = some state → state.framing = .length length →
    state.read ≤ length ∧ length < 2 ^ 64

/-- The bytes that `advance` decodes in chunks. -/
def decoding (reader : ResponseReader) : Option (List UInt8) :=
  match reader.body with
  | none => none
  | some state => if state.complete = false ∧ state.framing = .chunked then some reader.buffer else none

/-- No chunk that is decoded overflows. -/
def Fits (decoded : Option (List UInt8)) : Prop := ∀ bytes, decoded = some bytes → ¬ Overflowing bytes

section
variable {reader reader' : ResponseReader} {fed : Nat}

theorem fits_none : Fits none := nofun

theorem fits_some : Fits (some bytes) ↔ ¬ Overflowing bytes := by
  simp [Fits]

theorem decoding_eq_none (hbody : reader.body = some state)
    (h : state.complete = true ∨ state.framing ≠ .chunked) : reader.decoding = none := by
  unfold decoding
  rw [hbody]
  simp only
  rw [if_neg]
  rintro ⟨hcomplete, hframing⟩
  rcases h with h | h
  · rw [h] at hcomplete
    cases hcomplete
  · exact h hframing

theorem sound_body {reader : ResponseReader} (hbytes : buffer.length + state.decoded.length ≤ fed)
    (hframing : ∀ length, state.framing = .length length → state.read ≤ length ∧ length < 2 ^ 64) :
    Sound { reader with buffer, body := some state } fed := by
  refine ⟨hbytes, ?_⟩
  intro state' length hstate' hlength
  obtain rfl := Option.some.inj hstate'
  exact hframing length hlength

theorem advance_chunked (hbody : reader.body = some state) (hcomplete : state.complete = false)
    (hframing : state.framing = .chunked) : advance reader =
      (chunkLoop reader.buffer.length reader.buffer state.decoded).bind fun read =>
        match read.1 with
        | .error e => .ok (.error e,
            { reader with buffer := read.2.1, body := some { state with decoded := read.2.2 } })
        | .ok complete => .ok (.ok (),
            { reader with buffer := read.2.1, body := some { state with decoded := read.2.2, complete } }) := by
  simp only [advance, hbody, hcomplete, hframing]
  rfl

section
variable (h : Sound reader fed)
include h

/-- **`advance` panics exactly when it decodes a chunk that overflows.** -/
theorem advance_cases (hfed : fed < 2 ^ 63) :
    ReturnsWhen (Fits reader.decoding) (advance reader) fun read =>
      Sound read.2 fed ∧ read.2.head = reader.head := by
  have hbytes := h.bytes
  unfold held at hbytes
  cases hbody : reader.body with
  | none =>
    simp only [decoding, advance, hbody]
    exact .intro fits_none rfl ⟨h, rfl⟩
  | some state =>
    simp only [hbody, Option.elim_some] at hbytes
    by_cases hcomplete : state.complete = true
    · rw [decoding_eq_none hbody (.inl hcomplete)]
      simp only [advance, hbody, hcomplete, if_true]
      exact .intro fits_none rfl ⟨h, rfl⟩
    cases hframing : state.framing with
    | empty =>
      rw [decoding_eq_none hbody (.inr (by rw [hframing]; nofun))]
      simp only [advance, hbody, if_neg hcomplete, hframing]
      exact .intro fits_none rfl ⟨sound_body hbytes nofun, rfl⟩
    | length length =>
      obtain ⟨hread, hlt⟩ := h.read state length hbody hframing
      have htake : (reader.buffer.take (min (length - state.read) reader.buffer.length)).length =
          min (length - state.read) reader.buffer.length := by
        rw [List.length_take]
        omega
      rw [decoding_eq_none hbody (.inr (by rw [hframing]; nofun))]
      simp only [advance, hbody, if_neg hcomplete, hframing, bind, Except.bind, checkedSub_ok hread,
        drain_ok (Nat.min_le_right (length - state.read) reader.buffer.length)]
      rw [extend_ok (by rw [htake]; omega), checkedAdd_ok (by omega)]
      refine .intro fits_none rfl ⟨sound_body ?_ ?_, rfl⟩
      · rw [List.length_append, htake, List.length_drop]
        omega
      · intro length' hlength'
        obtain rfl := BodyFraming.length.inj hlength'
        exact ⟨by simp only; omega, hlt⟩
    | chunked =>
      have hdecoding : reader.decoding = some reader.buffer := by
        simp only [decoding, hbody, hframing, and_true]
        rw [if_pos ((Bool.not_eq_true _).mp hcomplete)]
      rw [hdecoding, fits_some]
      rw [advance_chunked hbody (by simpa using hcomplete) hframing]
      refine (chunkLoop_cases reader.buffer state.decoded (Nat.le_refl _) (by omega)).bind ?_
      rintro ⟨result, buffer', decoded'⟩ hle
      simp only at hle
      cases result with
      | error | ok => exact ⟨_, rfl, sound_body (by simp only; omega) (by simp [hframing]), rfl⟩

/-! ## Calls -/

/-- The bytes that `take` decodes in chunks, after the head it takes first. -/
def takeDecoding (reader : ResponseReader) : Option (List UInt8) :=
  if reader.head.isSome then reader.decoding
  else
    match takeHead reader with
    | .ok (.ok (some _), reader') => reader'.decoding
    | _ => none

end

end

end ResponseReader

/-! ## Runs -/

open ResponseReader

/-- The bytes that a call decodes in chunks. -/
def Action.decodes (action : Action) (reader : ResponseReader) : Option (List UInt8) :=
  match action with
  | .readBody => reader.decoding
  | .take => reader.takeDecoding
  | _ => none

/-- The bytes that a call feeds. -/
def Action.fed : Action → Nat
  | .feed bytes => bytes.length
  | _ => 0

/-- The calls from a reader on. -/
def runFrom (reader : ResponseReader) (actions : List Action) : Except Panic ResponseReader :=
  actions.foldlM (fun reader action => action.run reader) reader

end GaugeDesk.Relay
