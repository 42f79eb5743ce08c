import WriterAgent.Foundations.FloatRepr
import WriterAgent.Foundations.Pipes

/-!
# Frames of the subprocess pipes

`plugin/scripting/ipc.py`: a message is one payload behind its length as four
bytes, the most significant first.  `read_frame_payload` reads a frame with
the accumulating reader of `read_pickle_frame_with_timeout`, which collects
what `select` reports until it has the bytes it wants.
-/

namespace WriterAgent.Scripting.IpcFrames

open PyText Pipes List

abbrev Bytes := List UInt8

def frameHeaderSize : ℕ := 4

/-- `struct.pack("!I", n)` of a number below `2 ^ 32`. -/
def packLength (n : ℕ) : Bytes :=
  [UInt8.ofNat (n / 2 ^ 24), UInt8.ofNat (n / 2 ^ 16), UInt8.ofNat (n / 2 ^ 8), UInt8.ofNat n]

/-- `struct.unpack("!I", header)[0]` of four bytes. -/
def unpackLength (header : Bytes) : ℕ :=
  header.foldl (fun n byte => n * 2 ^ 8 + byte.toNat) 0

def hexDigit (n : ℕ) : Char :=
  ("0123456789abcdef".toList).getD n '0'

/-- One byte of the `repr` of bytes. -/
def byteRepr (quote : Char) (byte : UInt8) : Text :=
  let c := Char.ofNat byte.toNat
  if c = quote ∨ c = '\\' then ['\\', c]
  else if c = '\t' then "\\t".toList
  else if c = '\n' then "\\n".toList
  else if c = '\r' then "\\r".toList
  else if byte.toNat < 32 ∨ 127 ≤ byte.toNat then
    ['\\', 'x', hexDigit (byte.toNat / 16), hexDigit (byte.toNat % 16)]
  else [c]

/-- `repr` of bytes: single quotes, unless only they occur. -/
def bytesRepr (bytes : Bytes) : Text :=
  let single := Char.ofNat 39
  let double := Char.ofNat 34
  let has (c : Char) := bytes.any fun byte => byte.toNat == c.toNat
  let quote := if has single && !has double then double else single
  'b' :: quote :: (bytes.flatMap (byteRepr quote) ++ [quote])

inductive IpcError where
  | frame (message : Text)
  | timeoutExpired
  | struct
  deriving DecidableEq, Repr

def InvalidSize (maxPayloadBytes : Option ℕ) (size : ℕ) : Prop :=
  size = 0 ∨ ∃ cap ∈ maxPayloadBytes, cap < size

instance (maxPayloadBytes : Option ℕ) (size : ℕ) : Decidable (InvalidSize maxPayloadBytes size) :=
  inferInstanceAs (Decidable (_ ∨ _))

/-- `_validate_frame_size`: the message of the error. -/
def validateFrameSize (size : ℕ) (maxPayloadBytes : Option ℕ) (frameLabel : Text) :
    Except Text Unit :=
  if InvalidSize maxPayloadBytes size then
    .error ("Invalid ".toList ++ frameLabel ++ " size: ".toList ++ natText size ++
      " (header=".toList ++ bytesRepr (packLength size) ++ ")".toList)
  else .ok ()

def frameOf (payload : Bytes) : Bytes := packLength payload.length ++ payload

/-- `pack_pickle_frame` with the pickling as a parameter. -/
def packPickleFrame {μ : Type*} (dumps : μ → Bytes) (message : μ)
    (maxPayloadBytes : Option ℕ) : Except IpcError Bytes :=
  let payload := dumps message
  if ∃ cap ∈ maxPayloadBytes, cap < payload.length then
    .error (.frame ("Pickle frame exceeds maximum payload size: ".toList ++ natText payload.length))
  else if 2 ^ 32 ≤ payload.length then .error .struct
  else .ok (frameOf payload)

/-- `_unread_pipe_bytes` on a pipe that can be made non-blocking: at most `n`
bytes, of what is there already. -/
def unreadPipeBytes (n : ℕ) : Pipe UInt8 → Bytes × Pipe UInt8
  | .piece first more :: rest => ((first :: more).take n, behind ((first :: more).drop n) rest)
  | pipe => ([], pipe)

/-- `_read_exact`, with the bytes collected so far. -/
def readExact (n : ℕ) : Bytes → Pipe UInt8 → Except IpcError Bytes × Pipe UInt8
  | buf, [] => (.ok buf, [])
  | buf, turn :: rest =>
    if n ≤ buf.length then (.ok buf, turn :: rest)
    else
      match turn with
      | .expired => (.error .timeoutExpired, rest)
      | .quiet alive => if alive then readExact n buf rest else (.ok buf, rest)
      | .piece first more =>
        let chunk := (first :: more).take (n - buf.length)
        match (first :: more).drop (n - buf.length) with
        | [] => readExact n (buf ++ chunk) rest
        -- The chunk was all that was wanted.
        | next :: later => (.ok (buf ++ chunk), .piece next later :: rest)

/-- `read_frame_payload` with `_read_exact` as the reader. -/
def readFramePayload (maxPayloadBytes : Option ℕ) (frameLabel : Text) (pipe : Pipe UInt8) :
    Except IpcError (Option Bytes) × Pipe UInt8 :=
  match readExact frameHeaderSize [] pipe with
  | (.error error, pipe) => (.error error, pipe)
  | (.ok header, pipe) =>
    if header = [] ∨ header.length < frameHeaderSize then (.ok none, pipe)
    else
      let size := unpackLength header
      match validateFrameSize size maxPayloadBytes frameLabel with
      | .error message =>
        let (rest, pipe) := unreadPipeBytes 512 pipe
        (.error (.frame (message ++ " stdout_rest=".toList ++ bytesRepr rest)), pipe)
      | .ok () =>
        match readExact size [] pipe with
        | (.error error, pipe) => (.error error, pipe)
        | (.ok payload, pipe) =>
          if payload.length < size then (.ok none, pipe) else (.ok (some payload), pipe)

/-- What so many calls return, one after another on the same pipe. -/
def readFrames (maxPayloadBytes : Option ℕ) (frameLabel : Text) :
    ℕ → Pipe UInt8 → List (Except IpcError (Option Bytes))
  | 0, _ => []
  | calls + 1, pipe =>
    let (answer, pipe) := readFramePayload maxPayloadBytes frameLabel pipe
    answer :: readFrames maxPayloadBytes frameLabel calls pipe

theorem readExact_enough {n : ℕ} {buf : Bytes} (pipe : Pipe UInt8) (enough : n ≤ buf.length) :
    readExact n buf pipe = (.ok buf, pipe) := by
  cases pipe with
  | nil => rfl
  | cons turn rest =>
    unfold readExact
    rw [if_pos enough]

theorem readExact_delivered {n : ℕ} {buf : Bytes} {pipe : Pipe UInt8} (inTime : InTime pipe)
    (wants : buf.length ≤ n) :
    ∃ left, readExact n buf pipe = (.ok (buf ++ (delivered pipe).take (n - buf.length)), left) ∧
      Delivers left ((delivered pipe).drop (n - buf.length)) := by
  induction pipe generalizing buf with
  | nil =>
    refine ⟨[], ?_, ⟨inTime, by simp⟩⟩
    simp [readExact]
  | cons turn rest induction =>
    by_cases enough : n ≤ buf.length
    · have nothing : n - buf.length = 0 := by omega
      rw [readExact_enough _ enough, nothing]
      exact ⟨turn :: rest, by simp, ⟨inTime, by simp⟩⟩
    cases turn with
    | expired => exact absurd rfl (inTime _ mem_cons_self).1
    | quiet alive =>
      cases alive with
      | false => exact absurd rfl (inTime _ mem_cons_self).2
      | true =>
        obtain ⟨left, reads, delivers⟩ := induction inTime.of_cons wants
        refine ⟨left, ?_, delivers⟩
        rw [readExact, if_neg enough]
        exact reads
    | piece first more =>
      rw [readExact, if_neg enough]
      cases cut : (first :: more).drop (n - buf.length) with
      | nil =>
        have whole : (first :: more).length ≤ n - buf.length :=
          drop_eq_nil_iff.1 cut
        have chunk : (first :: more).take (n - buf.length) = first :: more :=
          take_of_length_le whole
        have sum : (buf ++ first :: more).length =
            buf.length + (first :: more).length := length_append
        obtain ⟨left, reads, delivers⟩ :=
          @induction (buf ++ first :: more) inTime.of_cons (by omega)
        have less : n - (buf ++ first :: more).length =
            n - buf.length - (first :: more).length := by omega
        refine ⟨left, ?_, ?_⟩
        · simp only [chunk, delivered_cons, Turn.items]
          rw [reads, take_append, chunk, less, append_assoc]
        · rw [delivered_cons, Turn.items, drop_append, cut, ← less]
          exact delivers
      | cons next later =>
        have inside : n - buf.length ≤ (first :: more).length := by
          have some := congrArg List.length cut
          rw [length_drop, length_cons (a := next)] at some
          omega
        refine ⟨.piece next later :: rest, ?_, ?_⟩
        · simp only [delivered_cons, Turn.items, take_append_of_le_length inside]
        · refine ⟨inTime.of_cons.behind (next :: later), ?_⟩
          rw [delivered_cons, delivered_cons, Turn.items, Turn.items,
            drop_append_of_le_length inside, cut]

variable {bytes payload : Bytes} {payloads : List Bytes}

theorem readExact_spec {pipe : Pipe UInt8} (delivers : Delivers pipe bytes) (n : ℕ) :
    ∃ left, readExact n [] pipe = (.ok (bytes.take n), left) ∧ Delivers left (bytes.drop n) := by
  obtain ⟨left, reads, rest⟩ := @readExact_delivered n [] pipe delivers.inTime (Nat.zero_le n)
  rw [delivers.items, length_nil] at reads rest
  exact ⟨left, reads, rest⟩

theorem unpackLength_packLength {n : ℕ} (small : n < 2 ^ 32) : unpackLength (packLength n) = n := by
  simp only [unpackLength, packLength, foldl_cons, foldl_nil, UInt8.toNat_ofNat']
  omega

@[simp] theorem length_packLength (n : ℕ) : (packLength n).length = frameHeaderSize := rfl

variable (cap : ℕ) (frameLabel : Text) {pipe : Pipe UInt8}

theorem readFramePayload_header {size : ℕ} {behind : Bytes} (small : size < 2 ^ 32)
    (delivers : Delivers pipe (packLength size ++ behind)) :
    ∃ left, Delivers left behind ∧ readFramePayload (some cap) frameLabel pipe =
        match validateFrameSize size (some cap) frameLabel with
        | .error message =>
          (.error (.frame (message ++ " stdout_rest=".toList ++
            bytesRepr (unreadPipeBytes 512 left).1)), (unreadPipeBytes 512 left).2)
        | .ok () =>
          match readExact size [] left with
          | (.error error, pipe) => (.error error, pipe)
          | (.ok payload, pipe) =>
            if payload.length < size then (.ok none, pipe) else (.ok (some payload), pipe) := by
  obtain ⟨left, reads, rest⟩ := readExact_spec delivers frameHeaderSize
  have header : (packLength size ++ behind).take frameHeaderSize = packLength size := rfl
  refine ⟨left, rest, ?_⟩
  rw [readFramePayload, reads, header]
  simp only [length_packLength, lt_irrefl, or_false, unpackLength_packLength small]
  rw [if_neg (by simp [packLength])]

theorem validateFrameSize_ok {size : ℕ} (positive : size ≠ 0) (fits : size ≤ cap) :
    validateFrameSize size (some cap) frameLabel = .ok () := by
  rw [validateFrameSize]
  simp [InvalidSize, positive, fits]

theorem readFramePayload_frame {rest : Bytes} (notEmpty : payload ≠ [])
    (fits : payload.length ≤ cap) (small : cap < 2 ^ 32)
    (delivers : Delivers pipe (frameOf payload ++ rest)) :
    ∃ left, readFramePayload (some cap) frameLabel pipe = (.ok (some payload), left) ∧
      Delivers left rest := by
  rw [frameOf, append_assoc] at delivers
  obtain ⟨left, behind, reads⟩ := readFramePayload_header cap frameLabel
    (lt_of_le_of_lt fits small) delivers
  obtain ⟨last, readsPayload, delivered⟩ := readExact_spec behind payload.length
  have positive : payload.length ≠ 0 := fun none => notEmpty (eq_nil_of_length_eq_zero none)
  rw [take_left] at readsPayload
  rw [drop_left] at delivered
  refine ⟨last, ?_, delivered⟩
  simp only [reads, validateFrameSize_ok cap frameLabel positive fits, readsPayload,
    lt_irrefl, if_false]

theorem readFramePayload_cut (fits : payload.length ≤ cap) (small : cap < 2 ^ 32)
    (cut : bytes <+: frameOf payload) (short : bytes.length < (frameOf payload).length)
    (delivers : Delivers pipe bytes) :
    ∃ left, readFramePayload (some cap) frameLabel pipe = (.ok none, left) ∧ Delivers left [] := by
  by_cases inHeader : bytes.length < frameHeaderSize
  · obtain ⟨left, reads, rest⟩ := readExact_spec delivers frameHeaderSize
    rw [take_of_length_le (le_of_lt inHeader)] at reads
    rw [drop_of_length_le (le_of_lt inHeader)] at rest
    refine ⟨left, ?_, rest⟩
    rw [readFramePayload, reads]
    simp only [inHeader, or_true, if_true]
  · have header : packLength payload.length <+: bytes :=
      prefix_of_prefix_length_le (prefix_append _ _) cut (not_lt.1 inHeader)
    obtain ⟨front, rfl⟩ := header
    have inPayload : front.length < payload.length := by simpa [frameOf] using short
    obtain ⟨left, behind, reads⟩ := readFramePayload_header cap frameLabel
      (lt_of_le_of_lt fits small) delivers
    obtain ⟨last, readsPayload, delivered⟩ := readExact_spec behind payload.length
    have positive : payload.length ≠ 0 := Nat.ne_of_gt (Nat.zero_lt_of_lt inPayload)
    rw [take_of_length_le (le_of_lt inPayload)] at readsPayload
    rw [drop_of_length_le (le_of_lt inPayload)] at delivered
    refine ⟨last, ?_, delivered⟩
    simp only [reads, validateFrameSize_ok cap frameLabel positive fits, readsPayload,
      if_pos inPayload]

theorem readFramePayload_end (delivers : Delivers pipe []) :
    ∃ left, readFramePayload (some cap) frameLabel pipe = (.ok none, left) ∧ Delivers left [] := by
  obtain ⟨left, reads, rest⟩ := readExact_spec delivers frameHeaderSize
  refine ⟨left, ?_, rest⟩
  rw [readFramePayload, reads]
  simp

theorem readFrames_end (delivers : Delivers pipe []) (calls : ℕ) :
    readFrames (some cap) frameLabel calls pipe = List.replicate calls (.ok none) := by
  induction calls generalizing pipe with
  | zero => rfl
  | succ calls induction =>
    obtain ⟨left, reads, rest⟩ := readFramePayload_end cap frameLabel delivers
    simp only [readFrames, reads, induction rest, replicate_succ]

def streamOf (payloads : List Bytes) : Bytes := payloads.flatMap frameOf

/-- The payloads whose frames end within the first `n` bytes. -/
def wholeWithin : ℕ → List Bytes → List Bytes
  | _, [] => []
  | n, payload :: rest =>
    if (frameOf payload).length ≤ n then
      payload :: wholeWithin (n - (frameOf payload).length) rest
    else []

theorem wholeWithin_of_le {n : ℕ} (all : (streamOf payloads).length ≤ n) :
    wholeWithin n payloads = payloads := by
  induction payloads generalizing n with
  | nil => rfl
  | cons payload rest induction =>
    have sum : (streamOf (payload :: rest)).length =
        (frameOf payload).length + (streamOf rest).length := by
      simp [streamOf]
    rw [wholeWithin, if_pos (by omega), induction (by omega)]

/-- Payloads that can be sent: none is empty or above the cap. -/
def Sendable (cap : ℕ) (payloads : List Bytes) : Prop :=
  ∀ payload ∈ payloads, payload ≠ [] ∧ payload.length ≤ cap

theorem readFrames_take (sendable : Sendable cap payloads) (small : cap < 2 ^ 32) {n : ℕ}
    (delivers : Delivers pipe ((streamOf payloads).take n)) (more : ℕ) :
    readFrames (some cap) frameLabel ((wholeWithin n payloads).length + (1 + more)) pipe =
      (wholeWithin n payloads).map (fun payload => .ok (some payload)) ++
        List.replicate (1 + more) (.ok none) := by
  induction payloads generalizing n pipe with
  | nil =>
    have none : Delivers pipe [] := by simpa [streamOf] using delivers
    simpa [wholeWithin] using readFrames_end cap frameLabel none (1 + more)
  | cons payload rest induction =>
    obtain ⟨notEmpty, fits⟩ := sendable payload mem_cons_self
    have stream : streamOf (payload :: rest) = frameOf payload ++ streamOf rest := by
      simp [streamOf]
    rw [stream] at delivers
    by_cases whole : (frameOf payload).length ≤ n
    · rw [take_append, take_of_length_le whole] at delivers
      obtain ⟨left, reads, behind⟩ := readFramePayload_frame cap frameLabel
        notEmpty fits small delivers
      have later := induction (fun other member => sendable other (mem_cons_of_mem _ member)) behind
      rw [wholeWithin, if_pos whole, length_cons, Nat.add_right_comm, readFrames, reads]
      simp only [later, map_cons, cons_append]
    · rw [take_append_of_le_length (by omega)] at delivers
      obtain ⟨left, reads, behind⟩ := readFramePayload_cut cap frameLabel
        fits small ( take_prefix n _)
        (by rw [length_take]; omega) delivers
      rw [wholeWithin, if_neg whole, length_nil, Nat.zero_add, Nat.add_comm 1 more,
        readFrames, reads]
      simp only [readFrames_end cap frameLabel behind, map_nil, nil_append, replicate_succ]

/-- What calls of `read_frame_payload` on one pipe return. -/
structure FramesRead (cap : ℕ) (frameLabel : Text) : Prop where
  /-- The payloads come in order, and then none, in whatever pieces their
  frames arrive. -/
  whole : ∀ payloads, Sendable cap payloads → ∀ pipe, Delivers pipe (streamOf payloads) →
    ∀ more, readFrames (some cap) frameLabel (payloads.length + (1 + more)) pipe =
      payloads.map (fun payload => .ok (some payload)) ++ List.replicate (1 + more) (.ok none)
  /-- Of a stream that ends early the whole frames come, and then none. -/
  cut : ∀ payloads, Sendable cap payloads → ∀ n pipe, Delivers pipe ((streamOf payloads).take n) →
    ∀ more, readFrames (some cap) frameLabel ((wholeWithin n payloads).length + (1 + more)) pipe =
      (wholeWithin n payloads).map (fun payload => .ok (some payload)) ++
        List.replicate (1 + more) (.ok none)
  /-- A length that no frame has is an error, and all that is taken from what
  follows it is shown there. -/
  invalid : ∀ size < 2 ^ 32, InvalidSize (some cap) size → ∀ behind pipe,
    Delivers pipe (packLength size ++ behind) →
    ∃ message shown left, readFramePayload (some cap) frameLabel pipe =
        (.error (.frame (message ++ " stdout_rest=".toList ++ bytesRepr shown)), left) ∧
      validateFrameSize size (some cap) frameLabel = .error message ∧
      shown.length ≤ 512 ∧ shown <+: behind ∧ Delivers left (behind.drop shown.length)

theorem unreadPipeBytes_spec (delivers : Delivers pipe bytes) (n : ℕ) :
    (unreadPipeBytes n pipe).1.length ≤ n ∧ (unreadPipeBytes n pipe).1 <+: bytes ∧
      Delivers (unreadPipeBytes n pipe).2 (bytes.drop (unreadPipeBytes n pipe).1.length) := by
  have nothing : ([] : Bytes).length ≤ n ∧ [] <+: bytes ∧ Delivers pipe (bytes.drop 0) :=
    ⟨Nat.zero_le n, nil_prefix, delivers⟩
  cases pipe with
  | nil => exact nothing
  | cons turn rest =>
    cases turn with
    | quiet | expired => exact nothing
    | piece first more =>
      have joined : (first :: more) ++ delivered rest = bytes := delivers.items
      rw [← joined]
      refine ⟨length_take_le _ _, ( take_prefix n _).trans (prefix_append _ _),
        delivers.inTime.of_cons.behind _, ?_⟩
      rw [unreadPipeBytes, delivered_behind, length_take]
      by_cases part : n ≤ (first :: more).length
      · rw [Nat.min_eq_left part, drop_append_of_le_length part]
      · have whole : (first :: more).length ≤ n := le_of_lt (not_le.1 part)
        rw [Nat.min_eq_right whole, drop_of_length_le whole, drop_left, nil_append]

theorem framesRead (small : cap < 2 ^ 32) : FramesRead cap frameLabel where
  whole := by
    intro payloads sendable pipe delivers more
    have all : (streamOf payloads).take (streamOf payloads).length = streamOf payloads :=
      take_length
    have reads := readFrames_take cap frameLabel sendable small (all.symm ▸ delivers) more
    rwa [wholeWithin_of_le (le_refl _)] at reads
  cut := by
    intro payloads sendable n pipe delivers more
    exact readFrames_take cap frameLabel sendable small delivers more
  invalid := by
    intro size packable invalid behind pipe delivers
    obtain ⟨left, rest, reads⟩ := readFramePayload_header cap frameLabel packable delivers
    obtain ⟨few, front, others⟩ := unreadPipeBytes_spec rest 512
    have error : ∃ message, validateFrameSize size (some cap) frameLabel = .error message := by
      rw [validateFrameSize, if_pos invalid]
      exact ⟨_, rfl⟩
    obtain ⟨message, isError⟩ := error
    rw [isError] at reads
    exact ⟨message, _, _, reads, isError, few, front, others⟩

/-- Frames of at most sixteen bytes. -/
theorem framesRead_sixteen : FramesRead 16 "IPC frame".toList :=
  framesRead 16 "IPC frame".toList (by decide)

/-- Behind a length of zero the frame of a payload is taken for the error
message, and the next call finds the end of the stream. -/
theorem invalid_consumes_payload :
    Delivers [.piece 0 [0, 0, 0, 0, 0, 0, 1, 7]] (packLength 0 ++ frameOf [7]) ∧
      ¬ Delivers (readFramePayload (some 16) "IPC frame".toList
        [.piece 0 [0, 0, 0, 0, 0, 0, 1, 7]]).2 (frameOf [7]) ∧
      (readFrames (some 16) "IPC frame".toList 2
        [.piece 0 [0, 0, 0, 0, 0, 0, 1, 7]])[1]? = some (.ok none) := by
  refine ⟨⟨?_, by decide⟩, ?_, by decide +kernel⟩
  · intro turn member
    rw [mem_singleton.1 member]
    exact ⟨by simp, by simp⟩
  · intro delivers
    exact absurd delivers.items (by decide +kernel)

theorem readExact_taken {n : ℕ} {buf out : Bytes} {pipe left : Pipe UInt8}
    (reads : readExact n buf pipe = (.ok out, left)) :
    ∃ taken, out = buf ++ taken ∧ delivered pipe = taken ++ delivered left ∧
      (buf.length ≤ n → out.length ≤ n) := by
  induction pipe generalizing buf with
  | nil =>
    cases reads
    exact ⟨[], (append_nil _).symm, rfl, id⟩
  | cons turn rest ih =>
    unfold readExact at reads
    by_cases enough : n ≤ buf.length
    · rw [if_pos enough] at reads
      cases reads
      exact ⟨[], (append_nil _).symm, rfl, id⟩
    rw [if_neg enough] at reads
    cases turn with
    | expired => cases reads
    | quiet alive =>
      cases alive with
      | false =>
        cases reads
        exact ⟨[], (append_nil _).symm, rfl, id⟩
      | true => exact ih reads
    | piece first more =>
      have parts := take_append_drop (n - buf.length) (first :: more)
      have few := length_take_le (n - buf.length) (first :: more)
      simp only [delivered_cons, Turn.items]
      cases cut : (first :: more).drop (n - buf.length) with
      | nil =>
        simp only [cut] at reads
        obtain ⟨taken, whole, gone, short⟩ := ih reads
        rw [cut, append_nil] at parts
        rw [parts] at whole short few
        refine ⟨first :: more ++ taken, by rw [whole, append_assoc], by rw [gone, append_assoc], ?_⟩
        intro wants
        exact short (by rw [length_append]; omega)
      | cons next later =>
        simp only [cut] at reads
        cases reads
        refine ⟨_, rfl, ?_, fun wants => ?_⟩
        · rw [delivered_cons, Turn.items, ← append_assoc, ← cut, parts]
        · rw [length_append]
          omega

theorem packLength_unpackLength {header : Bytes} (four : header.length = frameHeaderSize) :
    packLength (unpackLength header) = header := by
  obtain _ | ⟨a, _ | ⟨b, _ | ⟨c, _ | ⟨d, _ | _⟩⟩⟩⟩ := header <;> cases four
  have small := fun byte : UInt8 => byte.toNat_lt
  have := small a
  have := small b
  have := small c
  have := small d
  simp only [unpackLength, packLength, foldl_cons, foldl_nil, cons.injEq, ← UInt8.toNat_inj,
    UInt8.toNat_ofNat']
  refine ⟨?_, ?_, ?_, ?_, trivial⟩ <;> omega

theorem readFramePayload_sound {maxPayloadBytes : Option ℕ} {frameLabel : Text} {payload : Bytes}
    {pipe left : Pipe UInt8}
    (reads : readFramePayload maxPayloadBytes frameLabel pipe = (.ok (some payload), left)) :
    ¬ InvalidSize maxPayloadBytes payload.length ∧
      delivered pipe = frameOf payload ++ delivered left := by
  unfold readFramePayload at reads
  split at reads
  · cases reads
  · rename_i header behind readsHeader
    obtain ⟨_, rfl, front, few⟩ := readExact_taken readsHeader
    split_ifs at reads with short
    · cases reads
    have four := Nat.le_antisymm (few (Nat.zero_le _)) (not_lt.mp (not_or.mp short).2)
    simp only [validateFrameSize] at reads
    split_ifs at reads with invalid
    · cases reads
    simp only at reads
    split at reads
    · cases reads
    · rename_i body last readsBody
      obtain ⟨_, rfl, rest, fits⟩ := readExact_taken readsBody
      split_ifs at reads with cut
      · cases reads
      cases reads
      have size := Nat.le_antisymm (fits (Nat.zero_le _)) (not_lt.mp cut)
      rw [frameOf, size, packLength_unpackLength four, front, rest, append_assoc]
      exact ⟨invalid, rfl⟩

/-- **Accepted frames.** Payloads that calls in a row return have valid sizes,
and their frames stand one after another at the front of the stream. -/
theorem readFrames_sound (maxPayloadBytes : Option ℕ) (frameLabel : Text) (pipe : Pipe UInt8)
    (payloads : List Bytes)
    (reads : readFrames maxPayloadBytes frameLabel payloads.length pipe =
      payloads.map fun payload => .ok (some payload)) :
    (∀ payload ∈ payloads, ¬ InvalidSize maxPayloadBytes payload.length) ∧
      streamOf payloads <+: delivered pipe := by
  induction payloads generalizing pipe with
  | nil => exact ⟨fun _ member => absurd member not_mem_nil, nil_prefix⟩
  | cons payload rest ih =>
    obtain ⟨first, later⟩ := List.cons.inj reads
    obtain ⟨valid, front⟩ := readFramePayload_sound (Prod.ext first rfl)
    obtain ⟨others, inRest⟩ := ih _ later
    refine ⟨?_, ?_⟩
    · intro other member
      rcases mem_cons.mp member with rfl | inOthers
      · exact valid
      · exact others other inOthers
    · rw [front]
      exact (prefix_append_right_inj _).mpr inRest

theorem readFrames_sound_split :
    (∀ payload ∈ ([[7], [1, 2]] : List Bytes), ¬ InvalidSize (some 16) payload.length) ∧
      streamOf [[7], [1, 2]] <+: delivered [.piece 0 [0, 0], .quiet true, .piece 1 [7, 0, 0, 0, 2, 1],
        .piece 2 [9, 9], .expired] :=
  readFrames_sound (some 16) "IPC frame".toList _ _ (by decide +kernel)

end WriterAgent.Scripting.IpcFrames
