import Hdf.Core.Base
import Hdf.Lib.CircularBuffer
import Hdf.Lib.Runs

/-!
# The render buffer

What is to be played is written into a circular buffer, from which the DMA controller reads. The
offset up to which has been written is a 32-bit counter that is never reduced. Where the
controller is comes from its driver.

Only the rendering of a stream is considered. What is in the source buffer of a call, after its byte
order has been changed, comes with the call, and whether the driver answers.

## Main results

* `plays_of_runs`: it is so after every run of such calls
* `passes_end`: a call that writes behind the end of the buffer
-/

namespace Hdf.Audio.Render

open Hdf.Core Hdf.Circular

/-- `enum AudioFormat`. -/
inductive AudioFormat where
  | pcm8Bit | pcm16Bit | pcm24Bit | pcm32Bit | aacMain | aacLc | aacLd | aacEld | aacHeV1 | aacHeV2
  | g711a | g711u | g726
  deriving DecidableEq, Repr

/-- `struct AudioPcmHwParams` for a stream that is rendered. -/
structure AudioPcmHwParams where
  channels : ℕ
  format : AudioFormat
  period : ℕ
  deriving DecidableEq, Repr

/-- The configuration of a stream: the sizes of a frame and of the buffer. -/
structure RenderInfo where
  frameSize : ℕ
  cirBufSize : ℕ
  deriving DecidableEq, Repr

/-- `enum CriBuffStatus`. -/
inductive CriBuffStatus where
  | normal | full | empty
  deriving DecidableEq, Repr

/-- `MIN_PERIOD_SIZE`. -/
def minPeriodSize : ℕ := 2 * 1024

/-- `MAX_PERIOD_SIZE`. -/
def maxPeriodSize : ℕ := 1024 * 8

/-- `PERIOD_COUNT`. -/
def periodCount : ℕ := 4

/-- `MIN_BUFF_SIZE`. -/
def minBuffSize : ℕ := 16 * 1024

/-- `MAX_BUFF_SIZE`. -/
def maxBuffSize : ℕ := 128 * 1024

/-- `AudioFramatToBitWidth`. -/
def audioFramatToBitWidth : AudioFormat → Option ℕ
  | .pcm16Bit => some 16
  | .pcm24Bit => some 24
  | _ => none

/-- `AudioSetRenderBufInfo`: the size of the buffer. -/
def audioSetRenderBufInfo (bitWidth channels period : ℕ) : Option ℕ :=
  if period < minPeriodSize ∨ maxPeriodSize < period then none
  else
    let periodSize := period * bitWidth * channels / 8
    let size := periodCount * periodSize
    if size < minBuffSize ∨ maxBuffSize < size then none else some size

/-- `AudioHwParams`, if the DMA channel has been requested. -/
def audioHwParams (param : AudioPcmHwParams) : Option RenderInfo :=
  if param.channels < 1 ∨ 2 < param.channels then none
  else (audioFramatToBitWidth param.format).bind fun bitWidth =>
    (audioSetRenderBufInfo bitWidth param.channels param.period).map fun cirBufSize =>
      ⟨param.channels * bitWidth / 8, cirBufSize⟩

/-- The buffer, and the offset up to which has been written. -/
structure Ring where
  wbufOffSet : ℕ
  mem : ℕ → UInt8

/-- `AudioDmaBuffStatus`. All numbers have 32 bits. -/
def audioDmaBuffStatus (info : RenderInfo) (pointer : Option ℕ) (wbufOffSet trafBufSize : ℕ) :
    CriBuffStatus :=
  match pointer with
  | none => .full
  | some pointer =>
    let rptr := pointer * info.frameSize % 2 ^ 32
    let dataAvailable := (wbufOffSet + 2 ^ 32 - rptr) % 2 ^ 32 % info.cirBufSize
    let residual := info.cirBufSize - dataAvailable
    if trafBufSize < residual then .normal else .full

/-- The bytes of a call. -/
def trafBufSize (info : RenderInfo) (frames : ℕ) : ℕ := frames * info.frameSize % 2 ^ 32

/-- `AudioPcmWrite`, with the status that it stores. `memcpy_s` fails for a destination of no
bytes. -/
def audioPcmWrite (info : RenderInfo) (pointer : Option ℕ) (frames : ℕ) (buf : ℕ → UInt8)
    (ring : Ring) : HdfStatus × Option CriBuffStatus × Ring :=
  let traf := trafBufSize info frames
  if audioDmaBuffStatus info pointer ring.wbufOffSet traf ≠ .normal then
    (.success, some .full, ring)
  else if info.cirBufSize < traf ∨ traf = 0 then (.failure, none, ring)
  else
    let wPtr := ring.wbufOffSet % info.cirBufSize
    (.success, some .normal,
      ⟨(ring.wbufOffSet + traf) % 2 ^ 32, store ring.mem wPtr traf buf⟩)

/-! ### Runs -/

/-- The buffer, the bytes that have been written so far, their number, and the number of frames that
the DMA controller has read. -/
structure State where
  ring : Ring
  stream : ℕ → UInt8
  written : ℕ
  played : ℕ

/-- Frames are written, or the DMA controller goes on. -/
inductive Action where
  | write (frames : ℕ) (buf : ℕ → UInt8) (answers : Bool)
  | play (frames : ℕ)

/-- What the driver of the DMA controller returns. -/
def pointerOf (dmaPointer : ℕ → ℕ) (answers : Bool) (s : State) : Option ℕ :=
  if answers then some (dmaPointer s.played) else none

/-- The DMA controller only reads what has been written. -/
def step (info : RenderInfo) (dmaPointer : ℕ → ℕ) (action : Action) (s : State) : Option State :=
  match action with
  | .write frames buf answers =>
    let result := audioPcmWrite info (pointerOf dmaPointer answers s) frames buf s.ring
    if result.2.1 = some .normal then
      some ⟨result.2.2, store s.stream s.written (trafBufSize info frames) buf,
        s.written + trafBufSize info frames, s.played⟩
    else some { s with ring := result.2.2 }
  | .play frames =>
    if (s.played + frames) * info.frameSize ≤ s.written then
      some { s with played := s.played + frames }
    else none

/-- The state after `AudioRenderPrepare`. -/
def prepared (mem stream : ℕ → UInt8) : State := ⟨⟨0, mem⟩, stream, 0, 0⟩

/-- The driver returns a number of frames that is not ahead of what has been read, and that names
the same place in the buffer. The place itself is such a number, and so is the number of frames. -/
def Follows (info : RenderInfo) (dmaPointer : ℕ → ℕ) : Prop :=
  ∀ played, dmaPointer played ≤ played ∧
    Nat.ModEq (info.cirBufSize / info.frameSize) (dmaPointer played) played

/-- If there is room for the bytes of a call, then they do not pass the end of the buffer, and the
number of bytes has 32 bits unless the size of the buffer is a power of two. -/
def Orderly (info : RenderInfo) (action : Action) (s : State) : Prop :=
  match action with
  | .write frames _ answers => answers = true →
      s.written + trafBufSize info frames < s.played * info.frameSize + info.cirBufSize →
      s.written % info.cirBufSize + trafBufSize info frames ≤ info.cirBufSize ∧
        (info.cirBufSize ∣ 2 ^ 32 ∨ s.written + trafBufSize info frames < 2 ^ 32)
  | .play _ => True

instance (info : RenderInfo) (action : Action) (s : State) : Decidable (Orderly info action s) :=
  match action with
  | .write frames _ answers => inferInstanceAs (Decidable (answers = true →
      s.written + trafBufSize info frames < s.played * info.frameSize + info.cirBufSize →
      s.written % info.cirBufSize + trafBufSize info frames ≤ info.cirBufSize ∧
        (info.cirBufSize ∣ 2 ^ 32 ∨ s.written + trafBufSize info frames < 2 ^ 32)))
  | .play _ => inferInstanceAs (Decidable True)

/-- What has been written and not yet been read is in the buffer, nothing behind the buffer has
changed, and calls that would overwrite what has not yet been read are refused. -/
structure Plays (info : RenderInfo) (dmaPointer : ℕ → ℕ) (first s : State) : Prop where
  unread : Unread info.cirBufSize s.ring.mem (s.played * info.frameSize) s.written s.stream
  outside : ∀ j, info.cirBufSize ≤ j → s.ring.mem j = first.ring.mem j
  refuses : ∀ frames buf answers,
    s.played * info.frameSize + info.cirBufSize < s.written + trafBufSize info frames →
    audioPcmWrite info (pointerOf dmaPointer answers s) frames buf s.ring =
      (.success, some .full, s.ring)

/-! ### Configurations -/

/-- The buffer of a stream consists of frames. -/
structure RenderInfo.Valid (info : RenderInfo) : Prop where
  frame : 0 < info.frameSize
  frames : info.frameSize ∣ info.cirBufSize
  large : minBuffSize ≤ info.cirBufSize
  small : info.cirBufSize ≤ maxBuffSize

theorem RenderInfo.Valid.pos {info : RenderInfo} (valid : info.Valid) : 0 < info.cirBufSize :=
  Nat.lt_of_lt_of_le (by decide) valid.large

theorem audioSetRenderBufInfo_eq_some {bitWidth channels period size : ℕ}
    (accepted : audioSetRenderBufInfo bitWidth channels period = some size) :
    size = periodCount * (period * bitWidth * channels / 8) ∧
      minBuffSize ≤ size ∧ size ≤ maxBuffSize := by
  rw [audioSetRenderBufInfo] at accepted
  split at accepted
  · cases accepted
  · dsimp only at accepted
    split at accepted
    · cases accepted
    · rename_i sizes
      cases accepted
      rw [not_or, Nat.not_lt, Nat.not_lt] at sizes
      exact ⟨rfl, sizes⟩

theorem valid_of_accepted {param : AudioPcmHwParams} {info : RenderInfo}
    (accepted : audioHwParams param = some info) : info.Valid := by
  rw [audioHwParams] at accepted
  split at accepted
  · cases accepted
  · rename_i channels
    obtain ⟨bitWidth, format, rest⟩ := Option.bind_eq_some_iff.mp accepted
    obtain ⟨size, buffer, rfl⟩ := Option.map_eq_some_iff.mp rest
    obtain ⟨sizeEq, large, small⟩ := audioSetRenderBufInfo_eq_some buffer
    have width : bitWidth = 16 ∨ bitWidth = 24 := by
      cases h : param.format <;> simp [h, audioFramatToBitWidth] at format <;> omega
    have number : param.channels = 1 ∨ param.channels = 2 := by omega
    have frames : param.channels * bitWidth / 8 ∣ size ∧ 0 < param.channels * bitWidth / 8 := by
      refine ⟨⟨periodCount * param.period, ?_⟩, ?_⟩
      · rw [sizeEq, periodCount]
        rcases width with rfl | rfl <;> rcases number with one | two <;> simp only [*] <;> omega
      · rcases width with rfl | rfl <;> omega
    exact ⟨frames.2, frames.1, large, small⟩

/-! ### What a call finds -/

section

variable {info : RenderInfo} {dmaPointer : ℕ → ℕ} {first s t : State} {frames : ℕ}
  {buf : ℕ → UInt8} {answers : Bool}

/-- What calls keep. -/
structure Kept (info : RenderInfo) (first s : State) : Prop where
  offset : s.ring.wbufOffSet = s.written % 2 ^ 32
  counts : info.cirBufSize ∣ 2 ^ 32 ∨ s.written < 2 ^ 32
  behind : s.played * info.frameSize ≤ s.written
  room : s.written < s.played * info.frameSize + info.cirBufSize
  unread : Unread info.cirBufSize s.ring.mem (s.played * info.frameSize) s.written s.stream
  outside : ∀ j, info.cirBufSize ≤ j → s.ring.mem j = first.ring.mem j

/-- The place that the driver names, in bytes. -/
theorem Follows.bytes (follows : Follows info dmaPointer) (valid : info.Valid) (played : ℕ) :
    dmaPointer played * info.frameSize ≤ played * info.frameSize ∧
      Nat.ModEq info.cirBufSize (dmaPointer played * info.frameSize) (played * info.frameSize) := by
  obtain ⟨le, same⟩ := follows played
  refine ⟨Nat.mul_le_mul_right _ le, ?_⟩
  have scaled := same.mul_right' info.frameSize
  rwa [Nat.div_mul_cancel valid.frames] at scaled

/-- The difference of two counters is that of what they count, modulo a divisor of their range, or
if the first one has not wrapped around. -/
theorem sub_counters {size read written : ℕ} (le : read ≤ written)
    (counts : size ∣ 2 ^ 32 ∨ written < 2 ^ 32) :
    (written % 2 ^ 32 + 2 ^ 32 - read % 2 ^ 32) % 2 ^ 32 % size = (written - read) % size := by
  have low := Nat.mod_lt read (Nat.two_pow_pos 32)
  rcases counts with dvd | small
  · rw [Nat.mod_mod_of_dvd _ dvd]
    have sum : Nat.ModEq (2 ^ 32) (written % 2 ^ 32 + 2 ^ 32 - read % 2 ^ 32 + read % 2 ^ 32)
        (written - read + read % 2 ^ 32) := by
      rw [Nat.sub_add_cancel (Nat.le_add_left_of_le (Nat.le_of_lt low)), Nat.ModEq,
        Nat.add_mod_right, Nat.mod_mod, Nat.add_mod_mod, Nat.sub_add_cancel le]
    exact (sum.add_right_cancel' _).of_dvd dvd
  · rw [Nat.mod_eq_of_lt small, Nat.mod_eq_of_lt (Nat.lt_of_le_of_lt le small),
      Nat.add_comm written, Nat.add_sub_assoc le, Nat.add_mod_left,
      Nat.mod_eq_of_lt (Nat.lt_of_le_of_lt (Nat.sub_le ..) small)]

/-- The number of bytes that are found to be available. -/
theorem Kept.dataAvailable (kept : Kept info first s) (valid : info.Valid)
    (follows : Follows info dmaPointer) :
    (s.ring.wbufOffSet + 2 ^ 32 - dmaPointer s.played * info.frameSize % 2 ^ 32) % 2 ^ 32 %
      info.cirBufSize = s.written - s.played * info.frameSize := by
  obtain ⟨le, same⟩ := follows.bytes valid s.played
  have less : s.written - s.played * info.frameSize < info.cirBufSize := by
    have := kept.room
    have := kept.behind
    omega
  rw [kept.offset, sub_counters (le.trans kept.behind) kept.counts, ← Nat.mod_eq_of_lt less]
  -- the driver may count less by whole turns
  have sum : Nat.ModEq info.cirBufSize
      (s.written - dmaPointer s.played * info.frameSize + dmaPointer s.played * info.frameSize)
      (s.written - s.played * info.frameSize + dmaPointer s.played * info.frameSize) := by
    rw [Nat.sub_add_cancel (le.trans kept.behind)]
    refine Nat.ModEq.trans ?_ (Nat.ModEq.add_left _ same.symm)
    rw [Nat.sub_add_cancel kept.behind]
  exact sum.add_right_cancel' _

/-- A call finds that there is room if and only if there is. -/
theorem Kept.status (kept : Kept info first s) (valid : info.Valid)
    (follows : Follows info dmaPointer) (traf : ℕ) :
    audioDmaBuffStatus info (pointerOf dmaPointer answers s) s.ring.wbufOffSet traf = .normal ↔
      answers = true ∧ s.written + traf < s.played * info.frameSize + info.cirBufSize := by
  cases answers with
  | false =>
    refine iff_of_false ?_ (fun both => Bool.false_ne_true both.1)
    exact CriBuffStatus.noConfusion
  | true =>
    have behind := kept.behind
    have normal_iff (room : Prop) [Decidable room] :
        (if room then CriBuffStatus.normal else .full) = .normal ↔ room := by
      split <;> simp [*]
    rw [pointerOf, if_pos rfl, audioDmaBuffStatus, kept.dataAvailable valid follows, normal_iff,
      and_iff_right rfl]
    omega

/-- A call without room, or without an answer of the driver, is refused. -/
theorem Kept.write_of_full (kept : Kept info first s) (valid : info.Valid)
    (follows : Follows info dmaPointer)
    (full : ¬(answers = true ∧
      s.written + trafBufSize info frames < s.played * info.frameSize + info.cirBufSize)) :
    audioPcmWrite info (pointerOf dmaPointer answers s) frames buf s.ring =
      (.success, some .full, s.ring) := by
  rw [audioPcmWrite]
  exact if_pos (mt (kept.status valid follows _).mp full)

/-- A call with room writes its bytes, if it has any. -/
theorem Kept.write_of_room (kept : Kept info first s) (valid : info.Valid)
    (follows : Follows info dmaPointer) (answered : answers = true)
    (room : s.written + trafBufSize info frames <
      s.played * info.frameSize + info.cirBufSize) :
    audioPcmWrite info (pointerOf dmaPointer answers s) frames buf s.ring =
      if trafBufSize info frames = 0 then (.failure, none, s.ring)
      else (.success, some .normal, ⟨(s.ring.wbufOffSet + trafBufSize info frames) % 2 ^ 32,
        store s.ring.mem (s.ring.wbufOffSet % info.cirBufSize) (trafBufSize info frames) buf⟩) := by
  have behind := kept.behind
  have inside : ¬ info.cirBufSize < trafBufSize info frames := by omega
  rw [audioPcmWrite]
  dsimp only
  rw [if_neg (not_not_intro ((kept.status valid follows _).mpr ⟨answered, room⟩))]
  simp only [inside, false_or]

/-- The place of the next byte. -/
theorem Kept.place (kept : Kept info first s) :
    s.ring.wbufOffSet % info.cirBufSize = s.written % info.cirBufSize := by
  rw [kept.offset]
  rcases kept.counts with dvd | small
  · exact Nat.mod_mod_of_dvd _ dvd
  · rw [Nat.mod_eq_of_lt small]

theorem Kept.write (kept : Kept info first s) (valid : info.Valid)
    (follows : Follows info dmaPointer) (orderly : Orderly info (.write frames buf answers) s)
    (stepped : step info dmaPointer (.write frames buf answers) s = some t) :
    Kept info first t := by
  rw [step] at stepped
  by_cases room : answers = true ∧
      s.written + trafBufSize info frames < s.played * info.frameSize + info.cirBufSize
  · obtain ⟨inside, counts⟩ := orderly room.1 room.2
    rw [kept.write_of_room valid follows room.1 room.2, kept.place] at stepped
    by_cases empty : trafBufSize info frames = 0
    · simp only [if_pos empty, reduceCtorEq, if_false, Option.some.injEq] at stepped
      exact stepped ▸ kept
    simp only [if_neg empty, if_true, Option.some.injEq] at stepped
    subst stepped
    have fits : s.written + trafBufSize info frames ≤
        s.played * info.frameSize + info.cirBufSize := Nat.le_of_lt room.2
    exact {
      offset := by rw [kept.offset, Nat.mod_add_mod]
      counts := counts
      behind := kept.behind.trans (Nat.le_add_right ..)
      room := room.2
      unread := kept.unread.store fits inside
      outside := fun j outside => (store_outside inside outside).trans (kept.outside j outside) }
  · rw [kept.write_of_full valid follows room] at stepped
    simp only [Option.some.injEq, reduceCtorEq, if_false] at stepped
    exact stepped ▸ kept

theorem Kept.play (kept : Kept info first s)
    (stepped : step info dmaPointer (.play frames) s = some t) : Kept info first t := by
  rw [step] at stepped
  split at stepped
  · rename_i behind
    cases stepped
    have le : s.played * info.frameSize ≤ (s.played + frames) * info.frameSize :=
      Nat.mul_le_mul_right _ (Nat.le_add_right ..)
    exact { kept with
      behind := behind
      room := Nat.lt_of_lt_of_le kept.room (Nat.add_le_add_right le _)
      unread := kept.unread.advance le }
  · cases stepped

theorem Kept.prepared (valid : info.Valid) (mem stream : ℕ → UInt8) :
    Kept info (prepared mem stream) (prepared mem stream) where
  offset := rfl
  counts := .inr (Nat.two_pow_pos 32)
  behind := Nat.le_of_eq (Nat.zero_mul _)
  room := Nat.lt_of_lt_of_le valid.pos (Nat.le_add_left ..)
  unread _ _ below := absurd below (Nat.not_lt_zero _)
  outside _ _ := rfl

end

/-- After every run whose calls meet the condition, what has not been read is in the buffer. -/
theorem plays_of_runs {param : AudioPcmHwParams} {info : RenderInfo}
    (accepted : audioHwParams param = some info) {dmaPointer : ℕ → ℕ}
    (follows : Follows info dmaPointer) {mem stream : ℕ → UInt8} {actions : List Action}
    (orderly : Meets (step info dmaPointer) (Orderly info) (prepared mem stream) actions)
    {s : State} (ran : runs (step info dmaPointer) (prepared mem stream) actions = some s) :
    Plays info dmaPointer (prepared mem stream) s := by
  have valid := valid_of_accepted accepted
  have kept : Kept info (prepared mem stream) s := by
    refine runs_invariant (fun action s t kept orderly stepped => ?_)
      (Kept.prepared valid mem stream) orderly ran
    cases action with
    | write frames buf answers => exact kept.write valid follows orderly stepped
    | play frames => exact kept.play stepped
  refine ⟨kept.unread, kept.outside, fun frames buf answers full => ?_⟩
  refine kept.write_of_full valid follows fun both => ?_
  exact Nat.lt_asymm full both.2

/-! ### Some runs -/

/-- A stream of two channels with sixteen bits each. -/
def stereo16 : AudioPcmHwParams := ⟨2, .pcm16Bit, 2048⟩

theorem accepted_stereo16 : audioHwParams stereo16 = some ⟨4, 32768⟩ := by decide

/-- The place of the DMA controller in the buffer. -/
def place (played : ℕ) : ℕ := played % 8192

theorem follows_place : Follows ⟨4, 32768⟩ place :=
  fun played => ⟨Nat.mod_le played 8192, Nat.mod_modEq played 8192⟩

/-- The buffer is filled in four calls, one of which is refused, and written again from its
begin. -/
def orderlyRun : List Action :=
  [.write 4096 (fun _ => 1) true, .write 4096 (fun _ => 2) true, .play 4096,
    .write 4096 (fun _ => 3) true, .play 4096, .write 2048 (fun _ => 4) true]

theorem plays_orderlyRun : ∃ s,
    runs (step ⟨4, 32768⟩ place) (prepared (fun _ => 0) fun _ => 0) orderlyRun = some s ∧
    Plays ⟨4, 32768⟩ place (prepared (fun _ => 0) fun _ => 0) s := by
  have ran :
      (runs (step ⟨4, 32768⟩ place) (prepared (fun _ => 0) fun _ => 0) orderlyRun).isSome := by
    decide +kernel
  obtain ⟨s, ran⟩ := Option.isSome_iff_exists.mp ran
  exact ⟨s, ran, plays_of_runs accepted_stereo16 follows_place (by decide +kernel) ran⟩

/-- Calls of 12000 bytes, the last of which begins 8768 bytes before the end of the buffer. -/
def passingRun : List Action :=
  [.write 3000 (fun _ => 1) true, .write 3000 (fun _ => 2) true, .play 6000,
    .write 3000 (fun _ => 3) true]

/-- A call is accepted whose bytes pass the end of the buffer. They are written behind it, and not
at its begin, where they will be read. -/
theorem passes_end : ∃ s,
    runs (step ⟨4, 32768⟩ place) (prepared (fun _ => 0) fun _ => 0) passingRun = some s ∧
    s.ring.mem 32768 = 3 ∧ s.ring.mem 0 = 1 ∧ s.stream 32768 = 3 ∧
    ¬Plays ⟨4, 32768⟩ place (prepared (fun _ => 0) fun _ => 0) s := by
  have ran : ((runs (step ⟨4, 32768⟩ place) (prepared (fun _ => 0) fun _ => 0) passingRun).map
      fun s => (s.ring.mem 32768, s.ring.mem 0, s.stream 32768)) = some (3, 1, 3) := by
    decide +kernel
  obtain ⟨s, ran, bytes⟩ := Option.map_eq_some_iff.mp ran
  simp only [Prod.mk.injEq] at bytes
  refine ⟨s, ran, bytes.1, bytes.2.1, bytes.2.2, fun plays => ?_⟩
  have outside := plays.outside 32768 (Nat.le_refl _)
  rw [bytes.1] at outside
  exact absurd outside (by decide)

end Hdf.Audio.Render
