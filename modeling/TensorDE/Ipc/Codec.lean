import TensorDE.Lib.Codec
import TensorDE.Lib.Framing

namespace TensorDE.Ipc

open Codec List

def maxFrameSize : Nat := 1024 * 1024

def frameHeaderSize : Nat := 4

inductive CodecError where
  | frameTooLarge
  | deserialize
deriving DecidableEq

/-- The frame around a serialized value; a length within the limit fits the `u32` of the header. -/
def encodeInto (payload : Bytes) : Except CodecError Bytes :=
  if payload.length > maxFrameSize then .error .frameTooLarge else .ok (toLe frameHeaderSize payload.length ++ payload)

section Decoder

variable {T : Type} (parse : Bytes → Option T)

/-- One round of the decoder's loop on the bytes it has not consumed. -/
def frameAt (remaining : Bytes) : Next T CodecError :=
  if remaining.length < frameHeaderSize then .need
  else
    let payloadLen := ofLe (remaining.take frameHeaderSize)
    if payloadLen > maxFrameSize then .bad .frameTooLarge
    else if remaining.length < frameHeaderSize + payloadLen then .need
    else
      match parse ((remaining.drop frameHeaderSize).take payloadLen) with
      | none => .bad .deserialize
      | some value => .frame (frameHeaderSize + payloadLen) value

variable {parse} {s rest : Bytes} {size : Nat} {v : T} {e : CodecError}

structure Front (parse : Bytes → Option T) (s : Bytes) (v : T) (rest : Bytes) : Prop where
  split : ∃ header payload, s = header ++ payload ++ rest ∧ header.length = frameHeaderSize ∧
    ofLe header = payload.length ∧ payload.length ≤ maxFrameSize ∧ parse payload = some v

theorem front_of_frameAt (h : frameAt parse s = .frame size v) :
    Front parse s v (s.drop size) ∧ frameHeaderSize ≤ size ∧ size ≤ s.length := by
  unfold frameAt at h
  split at h
  · cases h
  · dsimp only at h
    split at h
    · cases h
    · split at h
      · cases h
      · split at h
        · cases h
        · rename_i value hparse
          obtain ⟨rfl, rfl⟩ := Next.frame.inj h
          refine ⟨⟨s.take frameHeaderSize, (s.drop frameHeaderSize).take (ofLe (s.take frameHeaderSize)), ?_, ?_, ?_, ?_, hparse⟩,
            Nat.le_add_right _ _, by omega⟩
          · rw [← drop_drop, append_assoc, take_append_drop, take_append_drop]
          · rw [length_take]
            omega
          · grind
          · rw [length_take]
            omega

theorem frameAt_of_front (h : Front parse s v rest) :
    frameAt parse s = .frame (s.length - rest.length) v ∧ s.drop (s.length - rest.length) = rest := by
  obtain ⟨header, payload, rfl, hheader, hcount, hmax, hparse⟩ := h.split
  have hdrop : (header ++ payload ++ rest).drop frameHeaderSize = payload ++ rest := by
    rw [← hheader, append_assoc, drop_left]
  have hlength : (header ++ payload ++ rest).length = frameHeaderSize + payload.length + rest.length := by
    rw [length_append, length_append, hheader]
  rw [hlength, Nat.add_sub_cancel]
  constructor
  · unfold frameAt
    grind
  · rw [← drop_drop, hdrop, drop_left]

theorem frameAt_append_bad (h : frameAt parse s = .bad e) (more : Bytes) : frameAt parse (s ++ more) = .bad e := by
  grind [frameAt]

theorem Front.append (h : Front parse s v rest) (more : Bytes) : Front parse (s ++ more) v (rest ++ more) := by
  obtain ⟨header, payload, rfl, hrest⟩ := h.split
  exact ⟨header, payload, by simp only [append_assoc], hrest⟩

def frames (parse : Bytes → Option T) : Framing UInt8 T CodecError where
  next := frameAt parse
  frame_size {s size v} h := by
    obtain ⟨-, hheader, hle⟩ := front_of_frameAt h
    grind [frameHeaderSize]
  frame_append {s size v} more h := by
    obtain ⟨hfront, -, hle⟩ := front_of_frameAt h
    rw [(frameAt_of_front (hfront.append more)).1]
    grind
  bad_append more h := frameAt_append_bad h more

inductive Framed (parse : Bytes → Option T) : Bytes → List T → Bytes → Prop where
  | nil (rest : Bytes) : Framed parse rest [] rest
  | cons {s after rest : Bytes} {v : T} {vs : List T} :
    Front parse s v after → Framed parse after vs rest → Framed parse s (v :: vs) rest

/-- The decoder takes the frames up to the first place where none stands. -/
theorem framed_scan (parse : Bytes → Option T) (s : Bytes) :
    ∃ rest, Framed parse s ((frames parse).scan s).1 rest ∧ ∀ v after, ¬Front parse rest v after := by
  have hnone : ∀ {s : Bytes}, (∀ size v, (frames parse).next s ≠ .frame size v) → ∀ v after, ¬Front parse s v after :=
    fun h v after hfront => h _ v (frameAt_of_front hfront).1
  induction s using Framing.scan.induct (frames parse) with
  | case1 s hnext =>
    rw [Framing.scan_need hnext]
    exact ⟨s, .nil s, hnone fun size v heq => by cases hnext.symm.trans heq⟩
  | case2 s e hnext =>
    rw [Framing.scan_bad hnext]
    exact ⟨s, .nil s, hnone fun size v heq => by cases hnext.symm.trans heq⟩
  | case3 s size v hnext ih =>
    obtain ⟨rest, hframed, hrest⟩ := ih
    rw [Framing.scan_frame hnext]
    exact ⟨rest, .cons (front_of_frameAt hnext).1 hframed, hrest⟩

theorem scan_front (h : Front parse s v rest) : (frames parse).scan s =
    (v :: ((frames parse).scan rest).1, ((frames parse).scan rest).2) := by
  obtain ⟨hnext, hdrop⟩ := frameAt_of_front h
  rw [Framing.scan_frame hnext, hdrop]

theorem scan_no_front (h : ∀ v after, ¬Front parse s v after) : ((frames parse).scan s).1 = [] := by
  cases hnext : (frames parse).next s with
  | need => rw [Framing.scan_need hnext]
  | bad e => rw [Framing.scan_bad hnext]
  | frame size v => exact absurd (front_of_frameAt hnext).1 (h v _)

theorem Framed.scan {vs : List T} (h : Framed parse s vs rest) :
    ((frames parse).scan s).1 = vs ++ ((frames parse).scan rest).1 := by
  induction h with
  | nil rest => rfl
  | cons hfront _ ih => rw [scan_front hfront, ih, cons_append]

theorem front_encodeInto {payload frame : Bytes} (h : encodeInto payload = .ok frame) (hparse : parse payload = some v)
    (rest : Bytes) : Front parse (frame ++ rest) v rest := by
  unfold encodeInto at h
  split at h
  · cases h
  · rename_i hmax
    cases h
    refine ⟨toLe frameHeaderSize payload.length, payload, rfl, length_toLe _ _, ofLe_toLe ?_, by omega, hparse⟩
    rw [maxFrameSize] at hmax
    rw [frameHeaderSize]
    omega

end Decoder

structure FrameDecoder where
  buffer : Bytes

namespace FrameDecoder

def new : FrameDecoder := ⟨[]⟩

/-- The values are filled in up to the frame that fails, and only a success compacts the buffer. -/
def pushInto {T : Type} (parse : Bytes → Option T) (decoder : FrameDecoder) (bytes : Bytes) :
    FrameDecoder × List T × Except CodecError Unit :=
  let buffer := decoder.buffer ++ bytes
  match (frames parse).scan buffer with
  | (values, .ok remaining) => (⟨remaining⟩, values, .ok ())
  | (values, .error e) => (⟨buffer⟩, values, .error e)

def bufferedBytes (decoder : FrameDecoder) : Nat := decoder.buffer.length

end FrameDecoder

end TensorDE.Ipc
