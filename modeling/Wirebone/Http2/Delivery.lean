/-
  File:      Wirebone/Http2/Delivery.lean
  Subject:   FROM THE HANDLER TO THE CLIENT: a map on its way through all the layers.

  A map is queued on a stream of the session. nghttp2 asks the streams for octets, makes frames of them and
  hands these to `send_cb` in pieces; `NoiseConn::write` seals the pieces, the transport cuts the records,
  the client reads with the sizes it likes, finds the frames again, and in the frames of the stream the
  maps. The requests of the client run the other way all the while.

  * `Nghttp2` -- how frames are written and found again, a parameter;
  * `Pipe`, `PipeStep` -- the session, what nghttp2 has framed, and the two ends of the connection;
  * `Pipe.Sound` -- what has been written and what has not are the frames, in order;
  * `Conveyed` -- the frames of a stream hold what `data_read` has returned of it;
  * `conveyed_step` -- every step keeps both, whatever the other streams do;
  * **`maps_delivered`** -- what the client finds on the stream is the first of the maps queued on it, and
    nothing gets stuck on the way.
-/
import Wirebone.Http2.MapStream
import Wirebone.Lib.Delimited
import Wirebone.Noise.Duplex

namespace Wirebone

open ByteString Delimited Lts Socket

/-! ## 1. Frames -/

structure H2Frame where
  type : UInt8
  flags : UInt8 := 0
  id : Int := 0
  payload : Bytes := []

/-- A `DATA` frame; the flag is `NGHTTP2_FLAG_END_STREAM`. -/
def H2Frame.data (id : Int) (bytes : Bytes) (eof : Bool) : H2Frame :=
  { type := 0, flags := if eof then 1 else 0, id, payload := bytes }

/-- A stream has 31 bits on the wire, a length 24. -/
def H2Frame.Fits (f : H2Frame) : Prop := (0 ≤ f.id ∧ f.id < 2 ^ 31) ∧ f.payload.length < 2 ^ 24

/-- The frames of nghttp2: how one is written, and what the other end takes off the front of its octets. -/
structure Nghttp2 where
  write : H2Frame → Bytes
  next : Bytes → Option (H2Frame × Bytes)

/-- **Frames are found again**: whole, and not before they are whole. -/
def Nghttp2.Reads (N : Nghttp2) : Prop := Takes H2Frame.Fits N.write N.next

/-- The frames that the other end finds. -/
def Nghttp2.found (N : Nghttp2) (b : Bytes) : List H2Frame := takeMany N.next b.length b

/-- What a frame brings to a stream, and whether it ends it. -/
def H2Frame.dataOn (id : Int) (f : H2Frame) : Bytes := if f.type = 0 ∧ f.id = id then f.payload else []

def H2Frame.endsOn (id : Int) (f : H2Frame) : Bool := decide (f.type = 0 ∧ f.id = id ∧ f.flags = 1)

def streamData (id : Int) (fs : List H2Frame) : Bytes := fs.flatMap (·.dataOn id)

def streamEnded (id : Int) (fs : List H2Frame) : Bool := fs.any (·.endsOn id)

/-! ## 2. The layers -/

structure Pipe where
  session : Session := {}
  /-- The frames nghttp2 has made, oldest first, and those of their octets that `send_cb` has not had. -/
  frames : List H2Frame := []
  outbox : Bytes := []
  duplex : Duplex

def Pipe.emit (N : Nghttp2) (p : Pipe) (fs : List H2Frame) : Pipe :=
  { p with frames := p.frames ++ fs, outbox := p.outbox ++ (fs.map N.write).flatten }

/-- The frame that a `data_read` makes. -/
def ReadResult.frames (id : Int) : ReadResult → List H2Frame
  | .deferred => []
  | .data bytes eof => [.data id bytes eof]

inductive PipeEvent where
  /-- A callback of nghttp2 or a call of the handlers; `data_read` is the next one. -/
  | session (e : H2Event)
  /-- nghttp2 asks a stream for at most `length` octets. -/
  | data (id : Int) (length : Nat)
  /-- A frame of another type: settings, headers, window updates. -/
  | control (f : H2Frame)
  /-- `send_cb` gets the next `n` octets; `sends` is how many bytes each `send` moves. -/
  | send (n : Nat) (sends : List Nat)
  /-- The client reads; `cut` is how the transport cuts what is in flight. -/
  | recv (n : Int) (cut : List Bytes)
  /-- The client writes, or the server reads. -/
  | up (ev : LinkEvent)

def H2Event.isRead : H2Event → Bool
  | .read _ _ => true
  | _ => false

/-- The steps of a connection whose transport does not fail. -/
inductive PipeStep (N : Nghttp2) (C : Crypto) : Pipe → PipeEvent → Pipe → Prop where
  | session (p : Pipe) (e : H2Event) (s : Session) (hread : e.isRead = false)
      (h : h2Step p.session e = some s) : PipeStep N C p (.session e) { p with session := s }
  | data (p : Pipe) (id : Int) (length : Nat) (st : H2Stream) (s : Session) (hid : 0 < id ∧ id < 2 ^ 31)
      (hlen : length < 2 ^ 24) (hst : p.session.streams id = some st)
      (h : h2Step p.session (.read id length) = some s) :
      PipeStep N C p (.data id length) (Pipe.emit N { p with session := s } ((dataRead length st).1.frames id))
  | control (p : Pipe) (f : H2Frame) (htype : f.type ≠ 0) (hf : f.Fits) :
      PipeStep N C p (.control f) (p.emit N [f])
  | send (p : Pipe) (n : Nat) (sends : List Nat) (l : Link)
      (h : LinkStep C p.duplex.downLink (.write (p.outbox.take n) sends) l) :
      PipeStep N C p (.send n sends) { p with outbox := p.outbox.drop n, duplex := p.duplex.putDown l }
  | recv (p : Pipe) (n : Int) (cut : List Bytes) (l : Link)
      (h : LinkStep C p.duplex.downLink (.read n cut) l) :
      PipeStep N C p (.recv n cut) { p with duplex := p.duplex.putDown l }
  | up (p : Pipe) (ev : LinkEvent) (l : Link) (h : LinkStep C p.duplex.upLink ev l) :
      PipeStep N C p (.up ev) { p with duplex := p.duplex.putUp l }

/-- What the event is to the session. -/
def PipeEvent.h2 : PipeEvent → List H2Event
  | .session e => [e]
  | .data id length => [.read id length]
  | _ => []

def h2Events (es : List PipeEvent) : List H2Event := es.flatMap (·.h2)

/-- The event leaves the stream `id` open. -/
def PipeEvent.continues (id : Int) : PipeEvent → Bool
  | .session e => e.continues id
  | _ => true

/-- The event only moves octets that are there. -/
def PipeEvent.idle : PipeEvent → Bool
  | .data _ _ => true
  | .send _ _ => true
  | .recv _ _ => true
  | _ => false

/-- The connection after the handshake. -/
def Pipe.start (R S : NoiseResult) : Pipe := { duplex := Duplex.start R S }

/-- The connection after `reply_stream_start`. -/
def Pipe.answered (p : Pipe) (id : Int) (status : Nat) (first : Bytes) : Pipe :=
  { p with session := replyStreamStart id status first p.session }

/-! ## 3. What is on the wire -/

/-- **What has been written and what has not are the frames, in order.** -/
structure Pipe.Sound (N : Nghttp2) (C : Crypto) (p : Pipe) : Prop where
  wire : p.duplex.downLink.input ++ p.outbox = (p.frames.map N.write).flatten
  fits : ∀ f ∈ p.frames, f.Fits
  duplex : p.duplex.Sound C

section Wire

variable {N : Nghttp2} {C : Crypto} {p p' : Pipe} {e : PipeEvent}

theorem Pipe.Sound.emit (h : p.Sound N C) {fs : List H2Frame} (hfs : ∀ f ∈ fs, f.Fits) :
    (p.emit N fs).Sound N C := by
  refine ⟨?_, ?_, h.duplex⟩
  · show p.duplex.downLink.input ++ (p.outbox ++ _) = ((p.frames ++ fs).map N.write).flatten
    rw [← List.append_assoc, h.wire, List.map_append, List.flatten_append]
  · intro f hf
    rcases List.mem_append.mp hf with hf | hf
    · exact h.fits f hf
    · exact hfs f hf

theorem dataRead_length (length : Nat) (st : H2Stream) : (dataRead length st).1.bytes.length ≤ length := by
  unfold dataRead
  by_cases hempty : st.outOff ≥ st.out.length
  · rw [if_pos hempty]
    split
    · exact Nat.zero_le _
    · split
      · exact Nat.zero_le _
      · exact Nat.zero_le _
  · rw [if_neg hempty]
    have htake : ((st.out.drop st.outOff).take (min length (st.out.length - st.outOff))).length ≤ length := by
      rw [List.length_take]
      omega
    simp only
    split
    · exact htake
    · exact htake

theorem readResult_fits {r : ReadResult} {id : Int} {length : Nat} (hid : 0 < id ∧ id < 2 ^ 31)
    (hr : r.bytes.length ≤ length) (hlen : length < 2 ^ 24) : ∀ f ∈ r.frames id, f.Fits := by
  cases r with
  | deferred => exact List.forall_mem_nil _
  | data bytes eof =>
    intro f hf
    rw [List.mem_singleton.mp hf]
    exact ⟨⟨hid.1.le, hid.2⟩, Nat.lt_of_le_of_lt hr hlen⟩

/-- A write adds its buffer to what has been written, a read nothing. -/
theorem linkStep_input {l l' : Link} {ev : LinkEvent} (h : LinkStep C l ev l') :
    l'.input = l.input ++ ev.buffer := by
  cases h with
  | write buf sends hflows =>
    unfold Link.input Link.afterWrite
    simp only [List.map_append, List.map_cons, List.map_nil, List.flatten_append, List.flatten_singleton]
    rfl
  | read n cut hn hcut hdel hleft => exact (List.append_nil _).symm

/-- **Every step keeps the wire in order.** -/
theorem pipeStep_sound (hC : C.AeadInverts) (h : PipeStep N C p e p') (hp : p.Sound N C) :
    p'.Sound N C := by
  cases h with
  | session e s hread h => exact ⟨hp.wire, hp.fits, hp.duplex⟩
  | data id length st s hid hlen hst h =>
    have hs : Pipe.Sound N C { p with session := s } := ⟨hp.wire, hp.fits, hp.duplex⟩
    exact hs.emit (readResult_fits hid (dataRead_length length st) hlen)
  | control f htype hf =>
    refine hp.emit fun g hg => ?_
    rw [List.mem_singleton.mp hg]
    exact hf
  | send n sends l h =>
    refine ⟨?_, hp.fits, duplexStep_sound hC (.down _ _ _ h) hp.duplex⟩
    show l.input ++ p.outbox.drop n = _
    rw [linkStep_input h, ← hp.wire, List.append_assoc]
    show _ ++ (p.outbox.take n ++ p.outbox.drop n) = _
    rw [List.take_append_drop]
  | recv n cut l h =>
    refine ⟨?_, hp.fits, duplexStep_sound hC (.down _ _ _ h) hp.duplex⟩
    show l.input ++ p.outbox = _
    rw [linkStep_input h, ← hp.wire]
    exact congrArg (· ++ p.outbox) (List.append_nil _)
  | up ev l h => exact ⟨hp.wire, hp.fits, duplexStep_sound hC (.up _ _ _ h) hp.duplex⟩

/-- **What the client finds** are the first of the frames; all of them, once it has read everything. -/
theorem Pipe.Sound.found (h : p.Sound N C) (hN : N.Reads) :
    N.found p.duplex.clientGot.flatten <+: p.frames ∧
      (p.outbox = [] → p.duplex.clientGot.flatten = p.duplex.downLink.input →
        N.found p.duplex.clientGot.flatten = p.frames) := by
  have hgot : p.duplex.clientGot.flatten <+: p.duplex.downLink.input := h.duplex.2.got_input
  refine ⟨takeMany_part hN h.fits _ ?_, ?_⟩
  · rw [← h.wire]
    exact hgot.trans (List.prefix_append _ _)
  · intro hout hall
    have hwire := h.wire
    rw [hout, List.append_nil] at hwire
    rw [hall, hwire]
    exact takeMany_items hN h.fits (hN.length_le h.fits)

end Wire

/-! ## 4. What is on a stream -/

/-- **The frames of a stream hold what `data_read` has returned of it**, and end it only where it has been
    ended. -/
structure Conveyed (id : Int) (opened : Bytes) (es : List PipeEvent) (p : Pipe) : Prop where
  stream : ∃ st, Open id opened false (h2Events es) p.session st
  data : streamData id p.frames = p.session.sent id
  ends : streamEnded id p.frames = true → finished id (h2Events es) = true

section Stream

variable {N : Nghttp2} {C : Crypto} {p p' : Pipe} {e : PipeEvent} {id : Int} {opened : Bytes}
  {es : List PipeEvent}

theorem h2Events_concat (es : List PipeEvent) (e : PipeEvent) : h2Events (es ++ [e]) = h2Events es ++ e.h2 := by
  rw [h2Events, List.flatMap_append, List.flatMap_singleton]
  rfl

theorem streamData_append (id : Int) (fs gs : List H2Frame) :
    streamData id (fs ++ gs) = streamData id fs ++ streamData id gs := List.flatMap_append

theorem streamEnded_append (id : Int) (fs gs : List H2Frame) :
    streamEnded id (fs ++ gs) = (streamEnded id fs || streamEnded id gs) := List.any_append

/-- What a `data_read` brings to its own stream, and to another one. -/
theorem readResult_data (id : Int) (r : ReadResult) :
    streamData id (r.frames id) = r.bytes ∧ streamEnded id (r.frames id) = r.eof := by
  cases r with
  | deferred => exact ⟨rfl, rfl⟩
  | data bytes eof =>
    have hon : (H2Frame.data id bytes eof).dataOn id = bytes := if_pos ⟨rfl, rfl⟩
    refine ⟨(List.append_nil _).trans hon, ?_⟩
    cases eof with
    | false => simp [ReadResult.frames, streamEnded, H2Frame.endsOn, H2Frame.data, ReadResult.eof]
    | true => simp [ReadResult.frames, streamEnded, H2Frame.endsOn, H2Frame.data, ReadResult.eof]

theorem readResult_other {i : Int} (hi : i ≠ id) (r : ReadResult) :
    streamData id (r.frames i) = [] ∧ streamEnded id (r.frames i) = false := by
  cases r with
  | deferred => exact ⟨rfl, rfl⟩
  | data bytes eof =>
    have hon : (H2Frame.data i bytes eof).dataOn id = [] := if_neg fun h => hi h.2
    refine ⟨(List.append_nil _).trans hon, ?_⟩
    simp [ReadResult.frames, streamEnded, H2Frame.endsOn, H2Frame.data, hi]

/-- What the other events leave of the record of a stream. -/
theorem h2Step_sent {s s' : Session} {e : H2Event} (hread : e.isRead = false) (hc : e.continues id = true)
    (h : h2Step s e = some s') : s'.sent id = s.sent id := by
  cases e with
  | headers i | close i =>
    cases h
    rfl
  | reply i status ctype body =>
    have hne : id ≠ i := (of_decide_eq_true hc).symm
    simp only [h2Step, reply] at h
    split at h
    · cases h
      rfl
    · cases h
      exact (submitResponse_other hne status ctype false _).2
  | start i status first =>
    have hne : id ≠ i := (of_decide_eq_true hc).symm
    simp only [h2Step, replyStreamStart] at h
    split at h
    · cases h
      rfl
    · cases h
      exact (submitResponse_other hne status (ascii "application/json") true _).2
  | push i data =>
    simp only [h2Step, pushData] at h
    split at h
    · cases h
      rfl
    · cases h
      rfl
  | finish i =>
    simp only [h2Step, endStream] at h
    split at h
    · cases h
      rfl
    · cases h
      rfl
  | read i length => cases hread

/-- A step that the session does not see, with frames that are not of the stream. -/
theorem Conveyed.frame (h : Conveyed id opened es p) (he : e.h2 = []) (hs : p'.session = p.session)
    {fs : List H2Frame} (hfs : p'.frames = p.frames ++ fs) (hdata : streamData id fs = [])
    (hends : streamEnded id fs = false) : Conveyed id opened (es ++ [e]) p' := by
  have hev : h2Events (es ++ [e]) = h2Events es := by
    rw [h2Events_concat, he, List.append_nil]
  refine ⟨?_, ?_, ?_⟩
  · rw [hev, hs]
    exact h.stream
  · rw [hfs, hs, streamData_append, hdata, List.append_nil]
    exact h.data
  · rw [hfs, hev, streamEnded_append, hends, Bool.or_false]
    exact h.ends

/-- nghttp2 asks a stream. -/
theorem Conveyed.asks (h : Conveyed id opened es p) {i : Int} {length : Nat} {st : H2Stream} {s : Session}
    (hst : p.session.streams i = some st) (hs : h2Step p.session (.read i length) = some s) :
    Conveyed id opened (es ++ [.data i length])
      (Pipe.emit N { p with session := s } ((dataRead length st).1.frames i)) := by
  obtain ⟨st₀, hopen⟩ := h.stream
  have hev : h2Events (es ++ [.data i length]) = h2Events es ++ [.read i length] := h2Events_concat _ _
  have hsent : s.sent = putAt p.session.sent i (p.session.sent i ++ (dataRead length st).1.bytes) := by
    simp only [h2Step, hst, Option.map_some, Option.some.injEq] at hs
    rw [← hs]
  have hframes : (Pipe.emit N { p with session := s } ((dataRead length st).1.frames i)).frames =
      p.frames ++ (dataRead length st).1.frames i := rfl
  refine ⟨?_, ?_, ?_⟩
  · rw [hev]
    exact open_step hopen rfl hs
  · rw [hframes, streamData_append, h.data]
    show _ = s.sent id
    rw [hsent]
    by_cases hi : i = id
    · subst hi
      rw [putAt_self, (readResult_data i _).1]
    · rw [putAt_other (Ne.symm hi), (readResult_other hi _).1, List.append_nil]
  · rw [hframes, streamEnded_append, hev, finished_quiet rfl]
    intro hend
    rcases Bool.or_eq_true_iff.mp hend with hend | hend
    · exact h.ends hend
    · by_cases hi : i = id
      · subst hi
        rw [(readResult_data i _).2] at hend
        cases hopen.stream.symm.trans hst
        rcases ((hopen.eof length).mp hend).1 with hplain | hfin
        · cases hplain
        · exact hfin
      · rw [(readResult_other hi _).2] at hend
        cases hend

/-- **Every step keeps what is on a stream**, whatever the other streams do. -/
theorem conveyed_step (h : Conveyed id opened es p) (hc : e.continues id = true) (hs : PipeStep N C p e p') :
    Conveyed id opened (es ++ [e]) p' := by
  have hnil := List.append_nil p.frames
  cases hs with
  | session e s hread hs =>
    obtain ⟨st, hopen⟩ := h.stream
    have hev : h2Events (es ++ [.session e]) = h2Events es ++ [e] := h2Events_concat _ _
    refine ⟨?_, ?_, ?_⟩
    · rw [hev]
      exact open_step hopen hc hs
    · exact h.data.trans (h2Step_sent hread hc hs).symm
    · intro hend
      rw [hev, finished_append, h.ends hend, Bool.true_or]
  | data i length st s hid hlen hst hs => exact h.asks hst hs
  | control f htype hf =>
    have hdata : f.dataOn id = [] := if_neg fun h => htype h.1
    have hends : f.endsOn id = false := decide_eq_false fun h => htype h.1
    exact h.frame rfl rfl rfl ((List.append_nil _).trans hdata) ((Bool.or_false _).trans hends)
  | send n sends l hl => exact h.frame rfl rfl hnil.symm rfl rfl
  | recv n cut l hl => exact h.frame rfl rfl hnil.symm rfl rfl
  | up ev l hl => exact h.frame rfl rfl hnil.symm rfl rfl

end Stream

/-! ## 5. Nothing gets stuck -/

/-- The runs in which what is there is moved on, and nothing new is queued. -/
abbrev Idle (N : Nghttp2) (C : Crypto) : Pipe → List PipeEvent → Pipe → Prop :=
  Run (Guarded (PipeStep N C) fun _ e => e.idle = true)

section Idle

variable {N : Nghttp2} {C : Crypto} {p p' : Pipe} {id : Int} {opened : Bytes} {es es' : List PipeEvent}

/-- Such a run leaves every stream open, and queues nothing. -/
theorem Idle.continued (id : Int) (h : Idle N C p es p') :
    Run (Guarded (PipeStep N C) fun _ e => e.continues id = true) p es p' ∧ queued id (h2Events es) = [] := by
  refine ⟨h.mono fun _ e _ hs => ⟨?_, hs.2⟩, ?_⟩
  · have hidle := hs.1
    cases e with
    | session e => cases hidle
    | data | control | send | recv | up => rfl
  · refine h.inv (I := fun es _ => queued id (h2Events es) = []) rfl ?_
    intro es p e p' hes hs
    have hone : queued id e.h2 = [] := by
      have hidle := hs.1
      cases e with
      | session e => cases hidle
      | data | control | send | recv | up => rfl
    rw [h2Events_concat, queued, List.flatMap_append]
    exact (congrArg₂ (· ++ ·) hes hone).trans (List.append_nil _)

/-- **A stream with octets gives some.** -/
theorem dataRead_some {length : Nat} {st : H2Stream} (hlen : 0 < length) (hne : st.unsent ≠ []) :
    (dataRead length st).1.bytes ≠ [] := by
  have hlt : ¬ st.outOff ≥ st.out.length := fun hge => hne (List.drop_of_length_le hge)
  have htake : (st.out.drop st.outOff).take (min length (st.out.length - st.outOff)) ≠ [] := by
    rw [← List.length_pos_iff, List.length_take, List.length_drop]
    omega
  unfold dataRead
  simp only [if_neg hlt]
  split
  · exact htake
  · exact htake

/-- nghttp2 asks until the stream has nothing left. -/
theorem asks_all (hid : 0 < id ∧ id < 2 ^ 31) (h : Conveyed id opened es p) :
    ∃ es' p', Idle N C p es' p' ∧ Conveyed id opened (es ++ es') p' ∧
      ∃ st, p'.session.streams id = some st ∧ st.unsent = [] := by
  obtain ⟨st, hopen⟩ := h.stream
  -- on the octets that are left
  generalize hm : st.unsent.length = m
  induction m using Nat.strong_induction_on generalizing p es st with
  | _ m ih =>
    by_cases hnone : st.unsent = []
    · exact ⟨[], p, .start, by rwa [List.append_nil], st, hopen.stream, hnone⟩
    · obtain ⟨s, hs⟩ : ∃ s, h2Step p.session (.read id 1) = some s := by
        simp only [h2Step, hopen.stream, Option.map_some, Option.some.injEq, exists_eq']
      have hstep := PipeStep.data (N := N) (C := C) p id 1 st s hid (by decide) hopen.stream hs
      have hnext := h.asks (N := N) hopen.stream hs
      have hev : h2Events (es ++ [.data id 1]) = h2Events es ++ [.read id 1] := h2Events_concat _ _
      have hopen' := open_read hopen hs
      rw [← hev] at hopen'
      have hsplit := (dataRead_splits 1 st hopen.offset).1
      have hpos := List.length_pos_iff.mpr (dataRead_some Nat.one_pos hnone)
      have hless : (dataRead 1 st).2.unsent.length < m := by
        rw [← hm, ← hsplit, List.length_append]
        omega
      obtain ⟨es', p', hrun, hconv, hend⟩ := ih _ hless hnext _ hopen' rfl
      refine ⟨_, p', (Run.step .start ⟨rfl, hstep⟩).trans hrun, ?_, hend⟩
      rw [List.nil_append, ← List.append_assoc]
      exact hconv

/-- The client reads everything that has been written. -/
theorem reads_all {l : Link} {ls : List LinkEvent}
    (h : Run (Guarded (LinkStep C) fun _ e => e.isRead = true) p.duplex.downLink ls l) :
    ∃ es', Idle N C p es' { p with duplex := p.duplex.putDown l } := by
  induction h with
  | start => exact ⟨[], .start⟩
  | @step ls l l' ev _ hs ih =>
    obtain ⟨es', hrun⟩ := ih
    obtain ⟨hread, hstep⟩ := hs
    cases ev with
    | write buf sends => cases hread
    | read n cut => exact ⟨_, hrun.step ⟨rfl, .recv _ n cut l' hstep⟩⟩

/-- **From every state, what is there gets to the client.** -/
theorem delivers_all (hC : C.AeadInverts) (hid : 0 < id ∧ id < 2 ^ 31) (hp : p.Sound N C)
    (h : Conveyed id opened es p) :
    ∃ es' p', Idle N C p es' p' ∧ (∃ st, p'.session.streams id = some st ∧ st.unsent = []) ∧
      p'.outbox = [] ∧ p'.duplex.clientGot.flatten = p'.duplex.downLink.input := by
  obtain ⟨es₁, p₁, hrun₁, _, hst⟩ := asks_all (N := N) (C := C) hid h
  have hp₁ : p₁.Sound N C :=
    hrun₁.inv_state (I := fun p => p.Sound N C) hp fun _ _ _ hp hs => pipeStep_sound hC hs.2 hp
  -- everything goes to `send_cb` at once
  have hlink := LinkStep.write (C := C) p₁.duplex.downLink (p₁.outbox.take p₁.outbox.length) []
    (List.forall_mem_nil _)
  have hsend := PipeStep.send (N := N) p₁ p₁.outbox.length [] _ hlink
  have hp₂ := pipeStep_sound hC hsend hp₁
  obtain ⟨ls, l, hreads, hwritten, hgot⟩ := hp₂.duplex.2.drains hC
  obtain ⟨es₃, hrun₃⟩ := reads_all (N := N) hreads
  refine ⟨_, _, (hrun₁.step ⟨rfl, hsend⟩).trans hrun₃, hst, List.drop_length, ?_⟩
  refine hgot.trans ?_
  unfold Link.input
  rw [← hwritten]
  rfl

end Idle

/-! ## 6. The maps of a stream -/

section Maps

variable {N : Nghttp2} {C : Crypto} {p p' : Pipe} {id : Int} {opened : Bytes} {es es' : List PipeEvent}

theorem start_pipe {R S : NoiseResult} (htx : R.txKey = S.rxKey) (hrx : R.rxKey = S.txKey) :
    (Pipe.start R S).Sound N C := ⟨rfl, List.forall_mem_nil _, start_sound htx hrx⟩

/-- A stream that has had no data is answered. -/
theorem conveyed_start (hopen : (p.session.streams id).isSome = true)
    (hfresh : ∀ f ∈ p.frames, f.type = 0 → f.id ≠ id) (status : Nat) (first : Bytes) :
    Conveyed id first [] (p.answered id status first) := by
  obtain ⟨st, hst⟩ := Option.isSome_iff_exists.mp hopen
  have hsent : (replyStreamStart id status first p.session).sent id = [] := by
    simp only [replyStreamStart, hst, submitResponse, putAt_self]
  refine ⟨open_start hopen status first, ?_, ?_⟩
  · show streamData id p.frames = (replyStreamStart id status first p.session).sent id
    rw [hsent]
    exact List.flatMap_eq_nil_iff.mpr fun f hf => if_neg fun h => hfresh f hf h.1 h.2
  · intro hend
    obtain ⟨f, hf, hends⟩ := List.any_eq_true.mp hend
    obtain ⟨htype, hid, _⟩ := of_decide_eq_true hends
    exact absurd hid (hfresh f hf htype)

/-- **Both invariants, over every run.** -/
theorem conveyed_run (hC : C.AeadInverts) (hp : p.Sound N C) (h : Conveyed id opened es p)
    (hrun : Run (Guarded (PipeStep N C) fun _ e => e.continues id = true) p es' p') :
    p'.Sound N C ∧ Conveyed id opened (es ++ es') p' := by
  refine hrun.inv (I := fun es' p' => p'.Sound N C ∧ Conveyed id opened (es ++ es') p') ?_ ?_
  · rw [List.append_nil]
    exact ⟨hp, h⟩
  · intro es' p e p' hinv hs
    rw [← List.append_assoc]
    exact ⟨pipeStep_sound hC hs.2 hinv.1, conveyed_step hinv.2 hs.1 hs.2⟩

/-- What was framed of a stream is the front of what was queued, and all of it where nothing is left. -/
theorem Conveyed.queued (h : Conveyed id opened es p) :
    streamData id p.frames <+: (opened :: queued id (h2Events es)).flatten ∧
      ∀ st, p.session.streams id = some st → st.unsent = [] →
        streamData id p.frames = (opened :: queued id (h2Events es)).flatten := by
  obtain ⟨st, hopen⟩ := h.stream
  rw [h.data]
  refine ⟨⟨st.unsent, hopen.bytes⟩, ?_⟩
  intro st' hst' hnone
  cases hopen.stream.symm.trans hst'
  have hbytes := hopen.bytes
  rw [hnone, List.append_nil] at hbytes
  exact hbytes

theorem streamData_mono (id : Int) {fs gs : List H2Frame} (h : fs <+: gs) : streamData id fs <+: streamData id gs := by
  obtain ⟨rest, rfl⟩ := h
  rw [streamData_append]
  exact List.prefix_append _ _

theorem streamEnded_mono {fs gs : List H2Frame} (h : fs <+: gs) (hend : streamEnded id fs = true) :
    streamEnded id gs = true := by
  obtain ⟨rest, rfl⟩ := h
  rw [streamEnded_append, hend, Bool.true_or]

end Maps

/-- **A map reaches its client.** On a connection that has come through the handshake, let a stream be
    answered with the frame of `m₀`, and the frames of `ms` be queued on it, among whatever else happens:
    other streams, other frames, requests of the client, pieces and cuts of any sizes. Then the frames that
    the client finds are the first of those nghttp2 has made; the data among them on that stream is the
    front of what was queued, its reader finds the first of the messages in it, and no end of the stream
    where the stream has not been ended. And when what is there is moved on, the client will find all of
    them. -/
theorem maps_delivered (Z : Zstd) (dump : Json → Bytes) (N : Nghttp2) (C : Crypto)
    (hZ : ∀ x c, Z.compress x = some c → Z.decompress c = some x) (hN : N.Reads) (hC : C.AeadInverts)
    (R S : NoiseResult) (htx : R.txKey = S.rxKey) (hrx : R.rxKey = S.txKey) (es₀ : List PipeEvent)
    (p₀ : Pipe) (hrun₀ : Run (PipeStep N C) (Pipe.start R S) es₀ p₀) (id : Int)
    (hid : 0 < id ∧ id < 2 ^ 31) (hopen : (p₀.session.streams id).isSome = true)
    (hfresh : ∀ f ∈ p₀.frames, f.type = 0 → f.id ≠ id) (status : Nat) (m₀ : Json) (f₀ : Bytes)
    (hfirst : encodeMapFrame Z dump m₀ = .ok f₀) (es : List PipeEvent) (p : Pipe)
    (hrun : Run (Guarded (PipeStep N C) fun _ e => e.continues id = true) (p₀.answered id status f₀) es p)
    (ms : List Json)
    (hpushed : List.Forall₂ (fun m f => encodeMapFrame Z dump m = .ok f) ms (queued id (h2Events es)))
    (hsize : ∀ m ∈ m₀ :: ms, ∀ c, Z.compress (dump m) = some c → c.length < 2 ^ 32) :
    N.found p.duplex.clientGot.flatten <+: p.frames ∧
      streamData id (N.found p.duplex.clientGot.flatten) <+: (f₀ :: queued id (h2Events es)).flatten ∧
      (∃ n, (readMapFrames Z (streamData id (N.found p.duplex.clientGot.flatten))).1 =
        some (((m₀ :: ms).map dump).take n)) ∧
      (streamEnded id (N.found p.duplex.clientGot.flatten) = true → finished id (h2Events es) = true) ∧
      ∃ es' p', Idle N C p es' p' ∧
        readMapFrames Z (streamData id (N.found p'.duplex.clientGot.flatten)) =
          (some ((m₀ :: ms).map dump), []) := by
  have hp₀ : p₀.Sound N C :=
    hrun₀.inv_state (I := fun p => p.Sound N C) (start_pipe htx hrx) fun _ _ _ hp hs => pipeStep_sound hC hs hp
  have hanswered : (p₀.answered id status f₀).Sound N C := ⟨hp₀.wire, hp₀.fits, hp₀.duplex⟩
  obtain ⟨hp, hconv⟩ := conveyed_run hC hanswered (conveyed_start hopen hfresh status f₀) hrun
  have hframes : List.Forall₂ (fun m f => encodeMapFrame Z dump m = .ok f) (m₀ :: ms)
      (f₀ :: queued id (h2Events es)) := .cons hfirst hpushed
  obtain ⟨hall, hpart⟩ := readMapFrames_frames hframes hZ hsize
  have hfound := (hp.found hN).1
  have hfront := (streamData_mono id hfound).trans hconv.queued.1
  refine ⟨hfound, hfront, hpart _ hfront, fun hend => hconv.ends (streamEnded_mono hfound hend), ?_⟩
  -- the way to the client
  obtain ⟨es', p', hidle, ⟨st, hst, hnone⟩, hout, hgot⟩ := delivers_all hC hid hp hconv
  obtain ⟨hcont, hquiet⟩ := Idle.continued id hidle
  obtain ⟨hp', hconv'⟩ := conveyed_run hC hp hconv hcont
  have hqueued : queued id (h2Events (es ++ es')) = queued id (h2Events es) := by
    rw [h2Events, List.flatMap_append, queued, List.flatMap_append]
    exact (congrArg (queued id (h2Events es) ++ ·) hquiet).trans (List.append_nil _)
  refine ⟨es', p', hidle, ?_⟩
  rw [(hp'.found hN).2 hout hgot, hconv'.queued.2 st hst hnone, List.nil_append, hqueued, hall]

/-- The nine octets in front of a payload: its length, the type, the flags and the stream. -/
def frameHeader (f : H2Frame) : Bytes :=
  bigEndian 3 f.payload.length ++ [f.type, f.flags] ++ bigEndian 4 f.id.toNat

/-- Frames as HTTP/2 has them on the wire. -/
def wireFrames : Nghttp2 where
  write f := frameHeader f ++ f.payload
  next b :=
    let n := ofBigEndian (b.take 3)
    if b.length < 9 + n ∨ b.length < 9 then none
    else
      some ({ type := b.getD 3 0, flags := b.getD 4 0, id := ofBigEndian ((b.drop 5).take 4)
              payload := (b.drop 9).take n }, (b.drop 9).drop n)

/-- What `next` sees of a frame. -/
theorem next_frame (f : H2Frame) (x : Bytes) (hf : f.Fits) :
    wireFrames.next (frameHeader f ++ x) =
      if x.length < f.payload.length then none
      else some ({ f with payload := x.take f.payload.length }, x.drop f.payload.length) := by
  obtain ⟨⟨hlow, hhigh⟩, hlen⟩ := hf
  have hn : ofBigEndian ((frameHeader f ++ x).take 3) = f.payload.length := by
    refine (ofBigEndian_bigEndian 3 f.payload.length).trans ?_
    omega
  have hi : ((ofBigEndian (((frameHeader f ++ x).drop 5).take 4) : Nat) : Int) = f.id := by
    refine (congrArg _ (ofBigEndian_bigEndian 4 f.id.toNat)).trans ?_
    omega
  have hsize : (frameHeader f ++ x).length = 9 + x.length := by
    rw [List.length_append]
    rfl
  simp only [wireFrames, hn, hi, hsize]
  by_cases hshort : x.length < f.payload.length
  · rw [if_pos hshort, if_pos (by omega)]
  · rw [if_neg hshort, if_neg (by omega)]
    rfl

theorem wireFrames_reads : wireFrames.Reads := by
  refine ⟨?_, ?_, fun f _ h => ?_, rfl⟩
  · intro f rest hf
    show wireFrames.next (frameHeader f ++ f.payload ++ rest) = _
    rw [List.append_assoc, next_frame f _ hf, List.length_append, if_neg (by omega), List.take_left,
      List.drop_left]
  · intro f b hf hpart hne
    obtain ⟨rest, hrest⟩ := hpart
    change b ++ rest = frameHeader f ++ f.payload at hrest
    have hlen : b.length < (frameHeader f ++ f.payload).length := by
      rw [← hrest, List.length_append]
      have := List.length_pos_iff.mpr fun hnil : rest = [] => hne (by rwa [hnil, List.append_nil] at hrest)
      omega
    by_cases hshort : b.length < 9
    · exact if_pos (.inr hshort)
    · -- the header is complete, so the payload is not
      obtain ⟨x, rfl⟩ : frameHeader f <+: b :=
        List.prefix_of_prefix_length_le (List.prefix_append _ _) ⟨rest, hrest⟩ (Nat.le_of_not_lt hshort)
      rw [List.length_append, List.length_append] at hlen
      rw [next_frame f x hf, if_pos (by omega)]
  · cases h

/-- The stream is asked for three octets before the second map is queued; a ping goes between. -/
def deliveryRun : List PipeEvent :=
  [.data 1 3, .session (.push 1 (shortFrame (ascii "null"))), .control { type := 6 }]

theorem maps_delivered_sample :
    ∃ p₀ p, Run (PipeStep wireFrames .sample) (Pipe.start {} {}) [.session (.headers 1)] p₀ ∧
      Run (Guarded (PipeStep wireFrames .sample) fun _ e => e.continues 1 = true)
        (p₀.answered 1 200 (shortFrame (ascii "true"))) deliveryRun p ∧
      ∃ es' p', Idle wireFrames .sample p es' p' ∧
        readMapFrames zstdRaw (streamData 1 (wireFrames.found p'.duplex.clientGot.flatten)) =
          (some [ascii "true", ascii "null"], []) := by
  have hbegin := PipeStep.session (N := wireFrames) (C := .sample) (Pipe.start {} {}) (.headers 1) _ rfl rfl
  generalize hp₀ : ({ Pipe.start {} {} with session := onBeginHeaders 1 {} } : Pipe) = p₀
  have hrun₀ : Run (PipeStep wireFrames .sample) (Pipe.start {} {}) [.session (.headers 1)] p₀ := by
    rw [← hp₀]
    exact Run.step .start hbegin
  obtain ⟨p₁, hdata⟩ : ∃ p₁, PipeStep wireFrames .sample (p₀.answered 1 200 (shortFrame (ascii "true")))
      (.data 1 3) p₁ := by
    rw [← hp₀]
    exact ⟨_, .data _ 1 3 _ _ (by decide) (by decide) rfl rfl⟩
  have hpush := PipeStep.session (N := wireFrames) (C := .sample) p₁ (.push 1 (shortFrame (ascii "null"))) _
    rfl rfl
  have hping := PipeStep.control (N := wireFrames) (C := .sample)
    { p₁ with session := pushData 1 (shortFrame (ascii "null")) p₁.session } { type := 6 } (by decide)
    ⟨by decide, by decide⟩
  have hrun : Run (Guarded (PipeStep wireFrames .sample) fun _ e => e.continues 1 = true)
      (p₀.answered 1 200 (shortFrame (ascii "true"))) deliveryRun _ :=
    Run.step (Run.step (Run.step .start ⟨rfl, hdata⟩) ⟨rfl, hpush⟩) ⟨rfl, hping⟩
  have hpushed : List.Forall₂ (fun m f => encodeMapFrame zstdRaw atomText m = .ok f) [.null]
      (queued 1 (h2Events deliveryRun)) := .cons rfl .nil
  have hsize : ∀ m ∈ [Json.bool true, .null], ∀ c, zstdRaw.compress (atomText m) = some c →
      c.length < 2 ^ 32 := by
    intro m hm c hc
    rcases List.mem_cons.mp hm with rfl | hm
    · cases hc
      decide
    · rw [List.mem_singleton.mp hm] at hc
      cases hc
      decide
  obtain ⟨_, _, _, _, hend⟩ := maps_delivered zstdRaw atomText wireFrames .sample zstdRaw_inverts
    wireFrames_reads ⟨sampleOpen_seal, sampleSeal_length⟩ {} {} rfl rfl _ p₀ hrun₀ 1 (by decide)
    (by rw [← hp₀]; rfl) (by rw [← hp₀]; exact List.forall_mem_nil _) 200 (.bool true)
    (shortFrame (ascii "true")) rfl deliveryRun _ hrun [.null] hpushed hsize
  exact ⟨p₀, _, hrun₀, hrun, hend⟩

end Wirebone
