/-
  File:      Wirebone/Http2/MapStream.lean
  Subject:   THE MAP STREAM, from `encode_map_frame` to the reader at the other end.

  A map message is dumped, compressed and put behind a 4-byte little-endian length. The frames go
  into the buffer of a stream and leave it in pieces that know nothing of frames.

  * `mapHeader` -- the header of a frame of `encodeMapFrame`, as a format of `Lib/Framing`;
  * `readMapFrames` -- the reader: a length, that many octets, decompressed, and again;
  * **`mapStream_framed`** -- what was returned and what is unsent are the frames in order, the
    reader finds the messages, and the end-of-file flag stands where the stream has been ended.
-/
import Wirebone.Http2.Session
import Wirebone.Lib.Framing
import Wirebone.Netmap

namespace Wirebone

open ByteString Framing Lts

/-! ## 1. Frames -/

/-- A little-endian number. -/
def readLength : Bytes → Nat
  | [] => 0
  | b :: bs => b.toNat + 256 * readLength bs

theorem readLength_lengthBytes (n : Nat) (h : n < 2 ^ 32) :
    readLength (lengthBytes (UInt32.ofNat n)) = n := by
  have hn : (UInt32.ofNat n).toNat = n := UInt32.toNat_ofNat_of_lt' h
  simp only [readLength, lengthBytes, UInt32.toNat_toUInt8, UInt32.toNat_shiftRight, hn,
    Nat.shiftRight_eq_div_pow]
  have h8 : (8 : UInt32).toNat % 32 = 8 := by decide
  have h16 : (16 : UInt32).toNat % 32 = 16 := by decide
  have h24 : (24 : UInt32).toNat % 32 = 24 := by decide
  rw [h8, h16, h24]
  omega

/-- The header of a map frame. -/
def mapHeader : Header UInt8 where
  width := 4
  bound := 2 ^ 32
  write n := lengthBytes (UInt32.ofNat n)
  read := readLength
  width_pos := by decide
  write_length _ := rfl
  read_write := readLength_lengthBytes

/-- A reader that takes a length and decompresses that many octets, again and again: the texts it
    finds, and what is left. -/
def readMapFrames (Z : Zstd) (b : Bytes) : Option (List Bytes) × Bytes :=
  let r := unframe mapHeader b.length b
  (r.1.mapM Z.decompress, r.2)

/-! ## 2. Reading frames back -/

section Frames

variable {Z : Zstd} {dump : Json → Bytes} {m : Json} {ms : List Json} {f : Bytes} {fs : List Bytes}

/-- A frame is a header and the compressed text. -/
theorem encodeMapFrame_ok (h : encodeMapFrame Z dump m = .ok f) :
    ∃ payload, Z.compress (dump m) = some payload ∧ f = frame mapHeader payload := by
  unfold encodeMapFrame at h
  split at h
  · cases h
  · split at h
    · cases h
    · rename_i payload hc
      cases h
      exact ⟨payload, hc, rfl⟩

/-- The frames of a list of messages are those of their compressed texts. -/
theorem frames_payloads (h : List.Forall₂ (fun m f => encodeMapFrame Z dump m = .ok f) ms fs)
    (hZ : ∀ x c, Z.compress x = some c → Z.decompress c = some x)
    (hsize : ∀ m ∈ ms, ∀ c, Z.compress (dump m) = some c → c.length < 2 ^ 32) :
    ∃ ps : List Bytes, fs = ps.map (frame mapHeader) ∧ (∀ p ∈ ps, p.length < mapHeader.bound) ∧
      ps.map Z.decompress = ms.map fun m => some (dump m) := by
  induction h with
  | nil => exact ⟨[], rfl, fun p hp => (nomatch hp), rfl⟩
  | @cons m f ms fs hm _ ih =>
    obtain ⟨p, hp, rfl⟩ := encodeMapFrame_ok hm
    obtain ⟨ps, rfl, hlen, hdec⟩ := ih fun m' hm' => hsize m' (List.mem_cons_of_mem _ hm')
    refine ⟨p :: ps, rfl, ?_, ?_⟩
    · intro q hq
      rcases List.mem_cons.mp hq with rfl | hq
      · exact hsize m List.mem_cons_self _ hp
      · exact hlen q hq
    · rw [List.map_cons, List.map_cons, hZ _ _ hp, hdec]

/-- Decompressing a list of payloads. -/
theorem mapM_decompress {ps texts : List Bytes} (h : ps.map Z.decompress = texts.map some) :
    ps.mapM Z.decompress = some texts := by
  induction ps generalizing texts with
  | nil =>
    cases texts with
    | nil => rfl
    | cons t texts => cases h
  | cons p ps ih =>
    cases texts with
    | nil => cases h
    | cons t texts =>
      obtain ⟨hp, hps⟩ := List.cons.inj h
      rw [List.mapM_cons, hp, ih hps]
      rfl

/-- **The reader finds the messages** in a stream of their frames, and a first part of them in a
    first part of it. -/
theorem readMapFrames_frames (h : List.Forall₂ (fun m f => encodeMapFrame Z dump m = .ok f) ms fs)
    (hZ : ∀ x c, Z.compress x = some c → Z.decompress c = some x)
    (hsize : ∀ m ∈ ms, ∀ c, Z.compress (dump m) = some c → c.length < 2 ^ 32) :
    readMapFrames Z fs.flatten = (some (ms.map dump), []) ∧
      ∀ b, b <+: fs.flatten → ∃ n, (readMapFrames Z b).1 = some ((ms.map dump).take n) := by
  obtain ⟨ps, rfl, hlen, hdec⟩ := frames_payloads h hZ hsize
  have hdec' : ps.map Z.decompress = (ms.map dump).map some := by
    rw [hdec, List.map_map]
    rfl
  refine ⟨?_, ?_⟩
  · have hread := unframe_frames hlen (length_le_flatten (H := mapHeader) ps)
    simp only [readMapFrames, hread, mapM_decompress hdec']
  · intro b hb
    obtain ⟨rest, hrest⟩ := unframe_of_part hlen b.length hb
    refine ⟨(unframe mapHeader b.length b).1.length, mapM_decompress ?_⟩
    -- the payloads found are the first of them, and so are their texts
    rw [List.map_take, ← hdec', ← hrest, List.map_append, List.take_append_of_le_length (by simp),
      List.take_of_length_le (by simp)]

end Frames

/-! ## 3. The stream -/

/-- **The map stream, end to end.** For a stream opened with the frame of `m₀` on which the frames of
    `ms` are queued, in any run: what was returned and what is unsent are the frames, in order; the
    reader finds the messages in them, and the first of them in what was returned; `data_read`
    raises the end-of-file flag exactly where the stream has been ended and nothing is left. For a
    plain answer it does so exactly where nothing is left. -/
theorem mapStream_framed (Z : Zstd) (dump : Json → Bytes)
    (hZ : ∀ x c, Z.compress x = some c → Z.decompress c = some x) (s₀ : Session) (id : Int)
    (hopen : (s₀.streams id).isSome = true) (status : Nat) (m₀ : Json) (f₀ : Bytes)
    (hfirst : encodeMapFrame Z dump m₀ = .ok f₀) (es : List H2Event) (s : Session)
    (hrun : Continued id (replyStreamStart id status f₀ s₀) es s) (ms : List Json)
    (hpushed : List.Forall₂ (fun m f => encodeMapFrame Z dump m = .ok f) ms (queued id es))
    (hsize : ∀ m ∈ m₀ :: ms, ∀ c, Z.compress (dump m) = some c → c.length < 2 ^ 32) :
    (∃ st, s.streams id = some st ∧
      s.sent id ++ st.unsent = (f₀ :: queued id es).flatten ∧
      readMapFrames Z (s.sent id ++ st.unsent) = (some ((m₀ :: ms).map dump), []) ∧
      (∃ n, (readMapFrames Z (s.sent id)).1 = some (((m₀ :: ms).map dump).take n)) ∧
      ∀ length, (dataRead length st).1.eof = true ↔
        finished id es = true ∧ (dataRead length st).2.unsent = []) ∧
    ∀ status' ctype body es' s', Continued id (reply id status' ctype body s₀) es' s' →
      ∃ st', s'.streams id = some st' ∧
        s'.sent id ++ st'.unsent = body ++ (queued id es').flatten ∧
        ∀ length, (dataRead length st').1.eof = true ↔ (dataRead length st').2.unsent = [] := by
  refine ⟨?_, ?_⟩
  · obtain ⟨st, hst⟩ := session_stream (open_start hopen status f₀) hrun
    have hframes : List.Forall₂ (fun m f => encodeMapFrame Z dump m = .ok f) (m₀ :: ms)
        (f₀ :: queued id es) := .cons hfirst hpushed
    obtain ⟨hall, hpart⟩ := readMapFrames_frames hframes hZ hsize
    have hbytes : s.sent id ++ st.unsent = (f₀ :: queued id es).flatten := hst.bytes
    refine ⟨st, hst.stream, hbytes, by rw [hbytes, hall], hpart _ ⟨st.unsent, hbytes⟩, ?_⟩
    intro length
    rw [hst.eof length]
    simp only [Bool.false_eq_true, false_or]
  · intro status' ctype body es' s' hrun'
    obtain ⟨st', hst'⟩ := session_stream (open_reply hopen status' ctype body) hrun'
    refine ⟨st', hst'.stream, hst'.bytes, ?_⟩
    intro length
    rw [hst'.eof length]
    simp only [true_or, true_and]

/-- What zstd makes of a short text that does not compress: a frame of one raw block. -/
def zstdRaw : Zstd where
  compress x :=
    if x.length < 256 then
      let n := x.length
      some ([0x28, 0xb5, 0x2f, 0xfd, 0x20, UInt8.ofNat n, UInt8.ofNat (8 * n + 1),
        UInt8.ofNat ((8 * n + 1) / 256), 0] ++ x)
    else none
  decompress c := if c.take 5 = [0x28, 0xb5, 0x2f, 0xfd, 0x20] then some (c.drop 9) else none

theorem zstdRaw_inverts (x c : Bytes) (h : zstdRaw.compress x = some c) : zstdRaw.decompress c = some x := by
  simp only [zstdRaw] at h
  split at h
  · cases h
    rfl
  · cases h

/-- The printer on the smallest values. -/
def atomText : Json → Bytes
  | .bool true => ascii "true"
  | .bool false => ascii "false"
  | _ => ascii "null"

/-- The frame of a text of four letters. -/
def shortFrame (text : Bytes) : Bytes := [13, 0, 0, 0, 0x28, 0xb5, 0x2f, 0xfd, 0x20, 4, 33, 0, 0] ++ text

/-- A read that ends inside the header, a push, reads across the frames, and the end. -/
def mapStreamRun : List H2Event :=
  [.read 1 3, .push 1 (shortFrame (ascii "null")), .read 1 20, .finish 1, .read 1 100]

theorem mapStream_framed_sample :
    ∃ s st, Continued 1 (replyStreamStart 1 200 (shortFrame (ascii "true")) (onBeginHeaders 1 {}))
        mapStreamRun s ∧ s.streams 1 = some st ∧
      readMapFrames zstdRaw (s.sent 1 ++ st.unsent) = (some [ascii "true", ascii "null"], []) ∧
      ((dataRead 8 st).1.eof = true ↔
        finished 1 mapStreamRun = true ∧ (dataRead 8 st).2.unsent = []) := by
  have hexec : (exec (checked h2Step fun _ e => e.continues 1)
      (replyStreamStart 1 200 (shortFrame (ascii "true")) (onBeginHeaders 1 {})) mapStreamRun).isSome =
      true := by decide +kernel
  obtain ⟨s, hs⟩ := Option.isSome_iff_exists.mp hexec
  have hrun := guarded_of_exec hs
  have hpushed : List.Forall₂ (fun m f => encodeMapFrame zstdRaw atomText m = .ok f) [.null]
      (queued 1 mapStreamRun) := .cons rfl .nil
  have hsize : ∀ m ∈ [Json.bool true, .null], ∀ c, zstdRaw.compress (atomText m) = some c →
      c.length < 2 ^ 32 := by
    intro m hm c hc
    rcases List.mem_cons.mp hm with rfl | hm
    · cases hc
      decide
    · rw [List.mem_singleton.mp hm] at hc
      cases hc
      decide
  obtain ⟨⟨st, hst, _, hread, _, heof⟩, _⟩ := mapStream_framed zstdRaw atomText zstdRaw_inverts
    (onBeginHeaders 1 {}) 1 rfl 200 (.bool true) (shortFrame (ascii "true")) rfl mapStreamRun s hrun
    [.null] hpushed hsize
  exact ⟨s, st, hrun, hst, hread, heof 8⟩

end Wirebone
