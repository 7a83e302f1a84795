import Mathlib.Data.List.Induction
import GaugeDesk.Core.Fault
import GaugeDesk.Relay.RequestEncoder

/-!
# Relay transport: data frames and credit

`FrameQueue`, `classify_frame` and `CreditMeter` of `wire.rs`; a `usize` ends at
`usizeMax`, whatever the platform.

    payloads taken ++ bytes still queued = bytes pushed  (frames_carry)
    credit announced + owed = bytes consumed ↔ no report saturates  (credit_kept)
-/

namespace GaugeDesk.Relay

open List

def wssMaxFrameBytes : Nat := 64 * 1024

def wssCreditThreshold : Nat := 16 * 1024

def wssReady : List UInt8 := utf8 "GWRREADY"

def wssData : UInt8 := 0

def wssFin : UInt8 := 1

def wssFinAck : UInt8 := 2

def wssCredit : UInt8 := 3

/-! ## Runs -/

section
variable {σ γ : Type} (call : σ → γ → Option (List UInt8) × σ) (init : σ)

/-- The frames given out by the calls, in order, and the state after them. -/
def frames (calls : List γ) : List (List UInt8) × σ :=
  calls.foldl (fun r c => (r.1 ++ (call r.2 c).1.toList, (call r.2 c).2)) ([], init)

theorem frames_concat (calls : List γ) (c : γ) : frames call init (calls ++ [c]) =
    ((frames call init calls).1 ++ (call (frames call init calls).2 c).1.toList,
      (call (frames call init calls).2 c).2) :=
  foldl_concat ..

end

/-! ## Data frames -/

inductive RelayFrame where
  | ready
  | data (bytes : List UInt8)
  | fin
  | finAck
deriving DecidableEq

def classifyFrame (bytes : List UInt8) : Except StreamError RelayFrame :=
  if bytes = wssReady then .ok .ready
  else
    match bytes with
    | [] => .error (.invalidData "relay frame out of bounds")
    | kind :: rest =>
      if bytes.length > wssMaxFrameBytes then .error (.invalidData "relay frame out of bounds")
      else if kind = wssData then .ok (.data rest)
      else if kind = wssFin then .ok .fin
      else if kind = wssFinAck then .ok .finAck
      else .error (.invalidData "relay frame has an unknown kind")

structure FrameQueue where
  unsent : List UInt8 := []

def FrameQueue.nextFrame (q : FrameQueue) : Option (List UInt8) × FrameQueue :=
  if q.unsent = [] then (none, q)
  else
    let take := min q.unsent.length (wssMaxFrameBytes - 1)
    (some (wssData :: q.unsent.take take), ⟨q.unsent.drop take⟩)

inductive QueueCall where
  | push (ciphertext : List UInt8)
  | nextFrame

def FrameQueue.call (q : FrameQueue) : QueueCall → Option (List UInt8) × FrameQueue
  | .push ciphertext => (none, ⟨q.unsent ++ ciphertext⟩)
  | .nextFrame => q.nextFrame

def pushed (calls : List QueueCall) : List UInt8 :=
  calls.flatMap fun
    | .push ciphertext => ciphertext
    | .nextFrame => []

/-- A frame that the relay accepts and the peer reads as this payload. -/
def Carries (frame payload : List UInt8) : Prop :=
  frame.length ≤ wssMaxFrameBytes ∧ classifyFrame frame = .ok (.data payload)

theorem carries_data {payload : List UInt8} (h : payload.length < wssMaxFrameBytes) :
    Carries (wssData :: payload) payload := by
  have hready : wssData :: payload ≠ wssReady := by
    intro he
    have hhead : some wssData = wssReady.head? := congrArg List.head? he
    exact absurd hhead (by decide)
  refine ⟨h, ?_⟩
  simp only [classifyFrame, if_neg hready, length_cons, gt_iff_lt, if_neg (Nat.not_lt.mpr h), if_true]

theorem FrameQueue.nextFrame_cases (q : FrameQueue) : q.nextFrame = (none, q) ∨
    ∃ frame payload q', q.nextFrame = (some frame, q') ∧ Carries frame payload ∧
      payload ++ q'.unsent = q.unsent := by
  unfold nextFrame
  by_cases hq : q.unsent = []
  · exact .inl (if_pos hq)
  · refine .inr ⟨_, _, _, if_neg hq, carries_data ?_, take_append_drop _ _⟩
    rw [length_take]
    have hpos : 0 < wssMaxFrameBytes := by decide
    omega

/-- **No byte is lost, repeated or moved.** -/
theorem frames_carry (calls : List QueueCall) :
    ∃ payloads, List.Forall₂ Carries (frames FrameQueue.call {} calls).1 payloads ∧
      payloads.flatten ++ (frames FrameQueue.call {} calls).2.unsent = pushed calls := by
  induction calls using List.reverseRecOn with
  | nil => exact ⟨[], .nil, rfl⟩
  | append_singleton calls call ih =>
    obtain ⟨payloads, hframes, hbytes⟩ := ih
    rw [frames_concat, pushed, flatMap_append, ← pushed, ← hbytes]
    generalize frames FrameQueue.call {} calls = r at *
    cases call with
    | push ciphertext =>
      exact ⟨payloads, by simpa [FrameQueue.call] using hframes, by simp [FrameQueue.call]⟩
    | nextFrame =>
      rcases r.2.nextFrame_cases with hnone | ⟨frame, payload, q', hsome, hcarries, hsplit⟩
      · exact ⟨payloads, by simpa [FrameQueue.call, hnone] using hframes, by simp [FrameQueue.call, hnone]⟩
      · simp only [FrameQueue.call, hsome]
        refine ⟨payloads ++ [payload], rel_append hframes (.cons hcarries .nil), ?_⟩
        simp [← hsplit]

/-! ## Credit -/

def creditFrame (consumed : Nat) : List UInt8 :=
  [wssCredit, .ofNat (consumed / 2 ^ 24), .ofNat (consumed / 2 ^ 16), .ofNat (consumed / 2 ^ 8),
    .ofNat consumed]

def parseCredit : List UInt8 → Option Nat
  | [kind, a, b, c, d] =>
    if kind = wssCredit then
      some (a.toNat * 2 ^ 24 + b.toNat * 2 ^ 16 + c.toNat * 2 ^ 8 + d.toNat)
    else none
  | _ => none

structure CreditMeter where
  owed : Nat := 0

def CreditMeter.takeCredit (m : CreditMeter) : Option (List UInt8) × CreditMeter :=
  if m.owed < wssCreditThreshold then (none, m)
  else (some (creditFrame (min m.owed u32Max)), ⟨m.owed - min m.owed u32Max⟩)

inductive MeterCall where
  | consumed (len : Nat)
  | takeCredit

variable (usizeMax : Nat)

/-- `consumed` is a `saturating_add`. -/
def CreditMeter.call (m : CreditMeter) : MeterCall → Option (List UInt8) × CreditMeter
  | .consumed len => (none, ⟨min (m.owed + len) usizeMax⟩)
  | .takeCredit => m.takeCredit

def consumedBytes (calls : List MeterCall) : Nat :=
  (calls.map fun
    | .consumed len => len
    | .takeCredit => 0).sum

/-- No report takes what is owed past the largest `usize`. -/
def Unsaturated (calls : List MeterCall) : Prop :=
  ∀ before len, before ++ [.consumed len] <+: calls →
    (frames (CreditMeter.call usizeMax) {} before).2.owed + len ≤ usizeMax

theorem parseCredit_creditFrame {n : Nat} (h : n ≤ u32Max) : parseCredit (creditFrame n) = some n := by
  simp only [u32Max] at h
  simp only [parseCredit, creditFrame, if_true, UInt8.toNat_ofNat', Option.some.injEq]
  omega

theorem CreditMeter.takeCredit_cases (m : CreditMeter) : m.takeCredit = (none, m) ∨
    ∃ frame n, m.takeCredit = (some frame, ⟨m.owed - n⟩) ∧ parseCredit frame = some n ∧
      n ≤ m.owed := by
  unfold takeCredit
  split
  · exact .inl rfl
  · exact .inr ⟨_, _, rfl, parseCredit_creditFrame (min_le_right _ _), min_le_left _ _⟩

theorem unsaturated_concat {calls : List MeterCall} {call : MeterCall} :
    Unsaturated usizeMax (calls ++ [call]) ↔ Unsaturated usizeMax calls ∧ ∀ len,
      call = .consumed len → (frames (CreditMeter.call usizeMax) {} calls).2.owed + len ≤ usizeMax := by
  simp only [Unsaturated, prefix_concat_iff, append_singleton_inj]
  constructor
  · intro h
    exact ⟨fun before len hb => h before len (.inr hb), fun len hc => h calls len (.inl ⟨rfl, hc.symm⟩)⟩
  · rintro ⟨h, hc⟩ before len (⟨rfl, hlen⟩ | hb)
    · exact hc len hlen.symm
    · exact h before len hb

/-- **Credit is lost exactly where a report saturates.**  What is announced and owed never exceeds
what was consumed, so that a loss is not made up for later. -/
theorem credit_kept (calls : List MeterCall) : ∃ announced,
    List.Forall₂ (fun frame n => parseCredit frame = some n)
      (frames (CreditMeter.call usizeMax) {} calls).1 announced ∧
    announced.sum + (frames (CreditMeter.call usizeMax) {} calls).2.owed ≤ consumedBytes calls ∧
    (announced.sum + (frames (CreditMeter.call usizeMax) {} calls).2.owed = consumedBytes calls ↔
      Unsaturated usizeMax calls) := by
  induction calls using List.reverseRecOn with
  | nil => exact ⟨[], .nil, le_rfl, by simp [frames, consumedBytes, Unsaturated]⟩
  | append_singleton calls call ih =>
    obtain ⟨announced, hframes, hle, hiff⟩ := ih
    rw [frames_concat, unsaturated_concat, ← hiff, consumedBytes, map_append, sum_append,
      ← consumedBytes]
    generalize frames (CreditMeter.call usizeMax) {} calls = r at *
    cases call with
    | consumed len =>
      refine ⟨announced, by simpa [CreditMeter.call] using hframes, ?_⟩
      simp only [CreditMeter.call, map_singleton, sum_singleton, MeterCall.consumed.injEq,
        forall_eq']
      omega
    | takeCredit =>
      rcases r.2.takeCredit_cases with hnone | ⟨frame, n, hsome, hparse, hn⟩
      · exact ⟨announced, by simpa [CreditMeter.call, hnone] using hframes,
          by simpa [CreditMeter.call, hnone] using hle⟩
      · simp only [CreditMeter.call, hsome]
        refine ⟨announced ++ [n], rel_append hframes (.cons hparse .nil), ?_⟩
        simp only [sum_append, map_singleton, sum_singleton, reduceCtorEq, false_imp_iff,
          implies_true, and_true]
        omega

/-- **Relay framing.**  In every interleaving of pushes and takes the frames are within the limit, are
read as data and carry the bytes pushed; the credit announced and owed is what was consumed, for
exactly the sequences in which no report saturates. -/
theorem relay_framing :
    (∀ calls, ∃ payloads, List.Forall₂ Carries (frames FrameQueue.call {} calls).1 payloads ∧
      payloads.flatten ++ (frames FrameQueue.call {} calls).2.unsent = pushed calls) ∧
    ∀ usizeMax calls, ∃ announced, List.Forall₂ (fun frame n => parseCredit frame = some n)
        (frames (CreditMeter.call usizeMax) {} calls).1 announced ∧
      (announced.sum + (frames (CreditMeter.call usizeMax) {} calls).2.owed = consumedBytes calls ↔
        Unsaturated usizeMax calls) := by
  refine ⟨frames_carry, fun usizeMax calls => ?_⟩
  obtain ⟨announced, hframes, -, hiff⟩ := credit_kept usizeMax calls
  exact ⟨announced, hframes, hiff⟩

/-- The second of two reports is lost. -/
theorem credit_saturates :
    let r := frames (CreditMeter.call u64Max) {} [.consumed u64Max, .consumed 1]
    r.1 = [] ∧ r.2.owed + 1 = consumedBytes [.consumed u64Max, .consumed 1] := by
  decide

end GaugeDesk.Relay
