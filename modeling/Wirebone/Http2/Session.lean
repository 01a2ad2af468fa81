/-
  File:      Wirebone/Http2/Session.lean
  Subject:   http2_session.cpp: the response side of a stream.

  The handlers put octets into a stream's buffer; nghttp2 asks for them by `data_read`, as many at
  a time as it likes. Request headers and bodies, and what nghttp2 does with the answers, are not
  part of this model.

  * `H2Stream`, `dataRead` -- the buffer, its offset and its two flags;
  * `reply`, `replyStreamStart`, `pushData`, `endStream`, `onBeginHeaders`, `onClose`;
  * `Session`, `h2Step` -- the machine, with a record of what `data_read` has returned;
  * **`session_stream`** -- after a stream is opened, nothing is lost, repeated or reordered, and
    the flags say whether it has been ended.
-/
import Wirebone.Lib.ByteString
import Wirebone.Lib.Lts

namespace Wirebone

open ByteString Lts

/-! ## 1. A stream -/

structure H2Stream where
  out : Bytes := []
  outOff : Nat := 0
  streaming : Bool := false
  ended : Bool := false

/-- The octets that `data_read` has not returned yet. -/
def H2Stream.unsent (st : H2Stream) : Bytes := st.out.drop st.outOff

inductive ReadResult where
  /-- `NGHTTP2_ERR_DEFERRED`. -/
  | deferred
  /-- The octets, and whether `NGHTTP2_DATA_FLAG_EOF` is raised. -/
  | data (bytes : Bytes) (eof : Bool)

def ReadResult.bytes : ReadResult → Bytes
  | .deferred => []
  | .data bytes _ => bytes

def ReadResult.eof : ReadResult → Bool
  | .deferred => false
  | .data _ eof => eof

def dataRead (length : Nat) (st : H2Stream) : ReadResult × H2Stream :=
  if st.outOff ≥ st.out.length then
    if st.ended && !st.streaming then (.data [] true, st)
    else if st.streaming && !st.ended then (.deferred, st)
    else (.data [] true, st)
  else
    let n := min length (st.out.length - st.outOff)
    let bytes := (st.out.drop st.outOff).take n
    let st := { st with outOff := st.outOff + n }
    if st.outOff ≥ st.out.length then
      (.data bytes (!st.streaming || st.ended), { st with out := [], outOff := 0 })
    else (.data bytes false, st)

/-! ## 2. A session -/

structure Session where
  streams : Int → Option H2Stream := fun _ => none
  /-- `status_buf_` and `ctype_buf_`. -/
  statusBuf : Int → Option Bytes := fun _ => none
  ctypeBuf : Int → Option Bytes := fun _ => none
  /-- What `data_read` has returned of a stream since it was opened. -/
  sent : Int → Bytes := fun _ => []

/-- The map with one entry replaced. -/
def putAt {α : Type} (m : Int → α) (id : Int) (a : α) : Int → α := fun i => if i = id then a else m i

theorem putAt_self {α : Type} (m : Int → α) (id : Int) (a : α) : putAt m id a id = a := if_pos rfl

theorem putAt_other {α : Type} {m : Int → α} {id i : Int} {a : α} (h : i ≠ id) : putAt m id a i = m i :=
  if_neg h

def onBeginHeaders (id : Int) (s : Session) : Session :=
  { s with streams := putAt s.streams id (some {}) }

def onClose (id : Int) (s : Session) : Session := { s with streams := putAt s.streams id none }

def submitResponse (id : Int) (status : Nat) (ctype : Bytes) (streaming : Bool) (s : Session) : Session :=
  match s.streams id with
  | none => s
  | some st =>
    { s with
      streams := putAt s.streams id (some { st with streaming })
      statusBuf := putAt s.statusBuf id (some (decimal status))
      ctypeBuf := putAt s.ctypeBuf id (some ctype)
      sent := putAt s.sent id [] }

def reply (id : Int) (status : Nat) (ctype body : Bytes) (s : Session) : Session :=
  match s.streams id with
  | none => s
  | some st =>
    let st := { st with out := body, outOff := 0, ended := true, streaming := false }
    submitResponse id status ctype false { s with streams := putAt s.streams id (some st) }

def replyStreamStart (id : Int) (status : Nat) (first : Bytes) (s : Session) : Session :=
  match s.streams id with
  | none => s
  | some st =>
    let st := { st with out := first, outOff := 0, streaming := true, ended := false }
    submitResponse id status (ascii "application/json") true
      { s with streams := putAt s.streams id (some st) }

def pushData (id : Int) (data : Bytes) (s : Session) : Session :=
  match s.streams id with
  | none => s
  | some st => { s with streams := putAt s.streams id (some { st with out := st.out ++ data }) }

def endStream (id : Int) (s : Session) : Session :=
  match s.streams id with
  | none => s
  | some st => { s with streams := putAt s.streams id (some { st with ended := true, streaming := false }) }

inductive H2Event where
  | headers (id : Int)
  | reply (id : Int) (status : Nat) (ctype body : Bytes)
  | start (id : Int) (status : Nat) (first : Bytes)
  | push (id : Int) (data : Bytes)
  | finish (id : Int)
  /-- nghttp2 asks for at most `length` octets. -/
  | read (id : Int) (length : Nat)
  | close (id : Int)

def h2Step (s : Session) : H2Event → Option Session
  | .headers id => some (onBeginHeaders id s)
  | .reply id status ctype body => some (Wirebone.reply id status ctype body s)
  | .start id status first => some (replyStreamStart id status first s)
  | .push id data => some (pushData id data s)
  | .finish id => some (endStream id s)
  | .read id length =>
    (s.streams id).map fun st =>
      let r := dataRead length st
      { s with
        streams := putAt s.streams id (some r.2)
        sent := putAt s.sent id (s.sent id ++ r.1.bytes) }
  | .close id => some (onClose id s)

/-- The event leaves the stream `id` open: only its octets are moved. -/
def H2Event.continues (id : Int) : H2Event → Bool
  | .headers i => decide (i ≠ id)
  | .reply i _ _ _ => decide (i ≠ id)
  | .start i _ _ => decide (i ≠ id)
  | .close i => decide (i ≠ id)
  | _ => true

/-- What the event queues on the stream, and whether it ends it. -/
def H2Event.queues (id : Int) : H2Event → List Bytes
  | .push i data => if i = id then [data] else []
  | _ => []

def H2Event.ends (id : Int) : H2Event → Bool
  | .finish i => decide (i = id)
  | _ => false

def queued (id : Int) (es : List H2Event) : List Bytes := es.flatMap (·.queues id)

def finished (id : Int) (es : List H2Event) : Bool := es.any (·.ends id)

/-! ## 3. Reading -/

/-- **One `data_read`**: what it returns and what it leaves make up what there was. -/
theorem dataRead_splits (length : Nat) (st : H2Stream) (h : st.outOff ≤ st.out.length) :
    (dataRead length st).1.bytes ++ (dataRead length st).2.unsent = st.unsent ∧
      (dataRead length st).2.outOff ≤ (dataRead length st).2.out.length ∧
      (dataRead length st).2.ended = st.ended ∧ (dataRead length st).2.streaming = st.streaming := by
  unfold dataRead
  by_cases hempty : st.outOff ≥ st.out.length
  · simp only [if_pos hempty]
    split
    · exact ⟨rfl, h, rfl, rfl⟩
    · split
      · exact ⟨rfl, h, rfl, rfl⟩
      · exact ⟨rfl, h, rfl, rfl⟩
  · simp only [if_neg hempty]
    by_cases hdrained : st.outOff + min length (st.out.length - st.outOff) ≥ st.out.length
    · simp only [if_pos hdrained]
      refine ⟨?_, Nat.le_refl 0, trivial, trivial⟩
      show (st.out.drop st.outOff).take _ ++ [].drop 0 = _
      rw [List.drop_nil, List.append_nil, List.take_of_length_le]
      · rfl
      · rw [List.length_drop]
        omega
    · simp only [if_neg hdrained]
      refine ⟨?_, by omega, trivial, trivial⟩
      show (st.out.drop st.outOff).take _ ++ st.out.drop (st.outOff + _) = _
      rw [← List.drop_drop, List.take_append_drop]
      rfl

/-- **The end-of-file flag** of a stream that streams until it is ended. -/
theorem dataRead_eof (length : Nat) (st : H2Stream) (hflags : st.streaming = !st.ended) :
    (dataRead length st).1.eof = true ↔ st.ended = true ∧ (dataRead length st).2.unsent = [] := by
  unfold dataRead
  by_cases hempty : st.outOff ≥ st.out.length
  · have hnone : st.unsent = [] := List.drop_of_length_le hempty
    cases hended : st.ended
    · simp [if_pos hempty, hflags, hended, ReadResult.eof]
    · simp [if_pos hempty, hflags, hended, ReadResult.eof, hnone]
  · simp only [if_neg hempty]
    by_cases hdrained : st.outOff + min length (st.out.length - st.outOff) ≥ st.out.length
    · simp only [if_pos hdrained]
      cases hended : st.ended
      · simp [hflags, hended, ReadResult.eof, H2Stream.unsent]
      · simp [hflags, hended, ReadResult.eof, H2Stream.unsent]
    · simp only [if_neg hdrained]
      simp only [ReadResult.eof, H2Stream.unsent, List.drop_eq_nil_iff, Bool.false_eq_true, false_iff,
        not_and]
      exact fun _ => hdrained

/-! ## 4. An open stream -/

/-- **The invariant of an open stream**: what was returned and what is unsent make up what was put
    in; it streams until it is ended. -/
structure Open (id : Int) (opened : Bytes) (plain : Bool) (es : List H2Event) (s : Session)
    (st : H2Stream) : Prop where
  stream : s.streams id = some st
  bytes : s.sent id ++ st.unsent = opened ++ (queued id es).flatten
  offset : st.outOff ≤ st.out.length
  ended : st.ended = (plain || finished id es)
  streaming : st.streaming = !st.ended

section Steps

variable {id : Int} {opened : Bytes} {plain : Bool} {es : List H2Event} {s s' : Session} {st : H2Stream}
  {e : H2Event}

theorem queued_append (id : Int) (es : List H2Event) (e : H2Event) :
    (queued id (es ++ [e])).flatten = (queued id es).flatten ++ (e.queues id).flatten := by
  rw [queued, List.flatMap_append, List.flatten_append]
  simp [queued]

theorem finished_append (id : Int) (es : List H2Event) (e : H2Event) :
    finished id (es ++ [e]) = (finished id es || e.ends id) := by
  simp [finished]

theorem queued_quiet (hq : e.queues id = []) :
    (queued id (es ++ [e])).flatten = (queued id es).flatten := by
  rw [queued_append, hq, List.flatten_nil, List.append_nil]

theorem finished_quiet (hf : e.ends id = false) : finished id (es ++ [e]) = finished id es := by
  rw [finished_append, hf, Bool.or_false]

/-- A step that leaves the stream and its record alone, and queues nothing on it. -/
theorem Open.frame (h : Open id opened plain es s st) (hst : s'.streams id = s.streams id)
    (hsent : s'.sent id = s.sent id) (hq : e.queues id = []) (hf : e.ends id = false) :
    Open id opened plain (es ++ [e]) s' st := by
  refine ⟨hst.trans h.stream, ?_, h.offset, ?_, h.streaming⟩
  · rw [hsent, h.bytes, queued_quiet hq]
  · rw [h.ended, finished_quiet hf]

/-- An answer on another stream. -/
theorem submitResponse_other {i : Int} (hne : id ≠ i) (status : Nat) (ctype : Bytes) (streaming : Bool)
    (s : Session) :
    (submitResponse i status ctype streaming s).streams id = s.streams id ∧
      (submitResponse i status ctype streaming s).sent id = s.sent id := by
  unfold submitResponse
  split
  · exact ⟨rfl, rfl⟩
  · exact ⟨putAt_other hne, putAt_other hne⟩

theorem open_read {length : Nat} (h : Open id opened plain es s st)
    (hs : h2Step s (.read id length) = some s') :
    Open id opened plain (es ++ [.read id length]) s' (dataRead length st).2 := by
  simp only [h2Step, h.stream, Option.map_some, Option.some.injEq] at hs
  obtain rfl := hs
  obtain ⟨hbytes, hoff, hended, hstreaming⟩ := dataRead_splits length st h.offset
  refine ⟨putAt_self _ _ _, ?_, hoff, ?_, ?_⟩
  · show putAt s.sent id _ id ++ _ = _
    rw [putAt_self, List.append_assoc, hbytes, h.bytes, queued_quiet rfl]
  · rw [hended, h.ended, finished_quiet rfl]
  · rw [hstreaming, hended, h.streaming]

theorem open_push {data : Bytes} (h : Open id opened plain es s st)
    (hs : h2Step s (.push id data) = some s') :
    Open id opened plain (es ++ [.push id data]) s' { st with out := st.out ++ data } := by
  simp only [h2Step, pushData, h.stream, Option.some.injEq] at hs
  obtain rfl := hs
  refine ⟨putAt_self _ _ _, ?_, ?_, ?_, h.streaming⟩
  · have hq : (H2Event.push id data).queues id = [data] := if_pos rfl
    have hunsent : ({ st with out := st.out ++ data } : H2Stream).unsent = st.unsent ++ data :=
      List.drop_append_of_le_length h.offset
    rw [hunsent, ← List.append_assoc, h.bytes, queued_append, hq]
    simp
  · show st.outOff ≤ (st.out ++ data).length
    rw [List.length_append]
    have := h.offset
    omega
  · rw [finished_quiet rfl]
    exact h.ended

theorem open_finish (h : Open id opened plain es s st) (hs : h2Step s (.finish id) = some s') :
    Open id opened plain (es ++ [.finish id]) s' { st with ended := true, streaming := false } := by
  simp only [h2Step, endStream, h.stream, Option.some.injEq] at hs
  obtain rfl := hs
  refine ⟨putAt_self _ _ _, ?_, h.offset, ?_, rfl⟩
  · show s.sent id ++ st.unsent = _
    rw [h.bytes, queued_quiet rfl]
  · have hends : (H2Event.finish id).ends id = true := decide_eq_true rfl
    rw [finished_append, hends, Bool.or_true, Bool.or_true]

/-- **One step of the session**, seen from an open stream. -/
theorem open_step (h : Open id opened plain es s st) (hc : e.continues id = true)
    (hs : h2Step s e = some s') : ∃ st', Open id opened plain (es ++ [e]) s' st' := by
  cases e with
  | headers i =>
    have hne : id ≠ i := (of_decide_eq_true hc).symm
    obtain rfl := Option.some.inj hs
    exact ⟨st, h.frame (putAt_other hne) rfl rfl rfl⟩
  | close i =>
    have hne : id ≠ i := (of_decide_eq_true hc).symm
    obtain rfl := Option.some.inj hs
    exact ⟨st, h.frame (putAt_other hne) rfl rfl rfl⟩
  | reply i status ctype body =>
    have hne : id ≠ i := (of_decide_eq_true hc).symm
    simp only [h2Step, reply] at hs
    split at hs
    · obtain rfl := Option.some.inj hs
      exact ⟨st, h.frame rfl rfl rfl rfl⟩
    · obtain rfl := Option.some.inj hs
      obtain ⟨h1, h2⟩ := submitResponse_other hne status ctype false _
      exact ⟨st, h.frame (h1.trans (putAt_other hne)) h2 rfl rfl⟩
  | start i status first =>
    have hne : id ≠ i := (of_decide_eq_true hc).symm
    simp only [h2Step, replyStreamStart] at hs
    split at hs
    · obtain rfl := Option.some.inj hs
      exact ⟨st, h.frame rfl rfl rfl rfl⟩
    · obtain rfl := Option.some.inj hs
      obtain ⟨h1, h2⟩ := submitResponse_other hne status (ascii "application/json") true _
      exact ⟨st, h.frame (h1.trans (putAt_other hne)) h2 rfl rfl⟩
  | push i data =>
    by_cases hi : i = id
    · subst hi
      exact ⟨_, open_push h hs⟩
    · have hq : (H2Event.push i data).queues id = [] := if_neg hi
      simp only [h2Step, pushData] at hs
      split at hs
      · obtain rfl := Option.some.inj hs
        exact ⟨st, h.frame rfl rfl hq rfl⟩
      · obtain rfl := Option.some.inj hs
        exact ⟨st, h.frame (putAt_other (Ne.symm hi)) rfl hq rfl⟩
  | finish i =>
    by_cases hi : i = id
    · subst hi
      exact ⟨_, open_finish h hs⟩
    · have hf : (H2Event.finish i).ends id = false := decide_eq_false hi
      simp only [h2Step, endStream] at hs
      split at hs
      · obtain rfl := Option.some.inj hs
        exact ⟨st, h.frame rfl rfl rfl hf⟩
      · obtain rfl := Option.some.inj hs
        exact ⟨st, h.frame (putAt_other (Ne.symm hi)) rfl rfl hf⟩
  | read i length =>
    by_cases hi : i = id
    · subst hi
      exact ⟨_, open_read h hs⟩
    · obtain ⟨st', _, rfl⟩ := Option.map_eq_some_iff.mp hs
      exact ⟨st, h.frame (putAt_other (Ne.symm hi)) (putAt_other (Ne.symm hi)) rfl rfl⟩

end Steps

/-! ## 5. Over whole runs -/

/-- The runs in which the stream stays open. -/
abbrev Continued (id : Int) : Session → List H2Event → Session → Prop :=
  Run (Guarded (Of h2Step) fun _ e => e.continues id = true)

/-- A stream that exists is opened by an answer. -/
theorem open_start {id : Int} {s : Session} (hopen : (s.streams id).isSome = true) (status : Nat)
    (first : Bytes) : ∃ st, Open id first false [] (replyStreamStart id status first s) st := by
  obtain ⟨st, hst⟩ := Option.isSome_iff_exists.mp hopen
  refine ⟨{ st with out := first, outOff := 0, streaming := true, ended := false }, ?_⟩
  simp only [replyStreamStart, hst, submitResponse, putAt_self]
  refine ⟨putAt_self _ _ _, ?_, Nat.zero_le _, rfl, rfl⟩
  show putAt s.sent id [] id ++ first = _
  rw [putAt_self]
  exact (List.append_nil first).symm

theorem open_reply {id : Int} {s : Session} (hopen : (s.streams id).isSome = true) (status : Nat)
    (ctype body : Bytes) : ∃ st, Open id body true [] (reply id status ctype body s) st := by
  obtain ⟨st, hst⟩ := Option.isSome_iff_exists.mp hopen
  refine ⟨{ st with out := body, outOff := 0, ended := true, streaming := false }, ?_⟩
  simp only [reply, hst, submitResponse, putAt_self]
  refine ⟨putAt_self _ _ _, ?_, Nat.zero_le _, rfl, rfl⟩
  show putAt s.sent id [] id ++ body = _
  rw [putAt_self]
  exact (List.append_nil body).symm

/-- **In every run an open stream keeps its octets**, whatever happens to the other streams. -/
theorem session_stream {id : Int} {opened : Bytes} {plain : Bool} {s s' : Session} {es : List H2Event}
    (h : ∃ st, Open id opened plain [] s st) (hrun : Continued id s es s') :
    ∃ st, Open id opened plain es s' st := by
  refine hrun.inv (I := fun es s => ∃ st, Open id opened plain es s st) h ?_
  rintro es s e s' ⟨st, hst⟩ hs
  exact open_step hst hs.1 hs.2

/-- In such a run, `data_read` raises the end-of-file flag exactly where the stream has been ended,
    or was a plain answer, and nothing is left. -/
theorem Open.eof {id : Int} {opened : Bytes} {plain : Bool} {s : Session} {es : List H2Event}
    {st : H2Stream} (h : Open id opened plain es s st) (length : Nat) :
    (dataRead length st).1.eof = true ↔
      (plain = true ∨ finished id es = true) ∧ (dataRead length st).2.unsent = [] := by
  rw [dataRead_eof length st h.streaming, h.ended, Bool.or_eq_true]

end Wirebone
