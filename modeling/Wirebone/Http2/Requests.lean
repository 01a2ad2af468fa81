/-
  File:      Wirebone/Http2/Requests.lean
  Subject:   http2_session.cpp: the request side of a session.

  nghttp2 takes the frames of all streams apart and calls back, for one stream and then for another. A
  `Stream` is allocated when its request begins, hung into nghttp2's own table as a raw pointer, and owned
  by `streams_`; the callbacks find it again through the table.

  * `Callback`, `Requests.allows` -- the calls of nghttp2, and the order it promises for one stream;
  * `Requests.handle` -- the callbacks, over a heap: an access through a pointer to a stream that has been
    freed is counted;
  * `draft` -- what a stream has said since its request began, read off the callbacks;
  * `Requests.Sound` -- the invariant: every pointer that can be reached is the one `streams_` owns;
  * **`requests_separate`** -- in every interleaving the handler is called once for each end of a request,
    with the method, the path and the body of that very stream, and nothing freed is touched;
  * `route` -- where the handler of `serve_h2` takes it.
-/
import Wirebone.Http2.Session

namespace Wirebone

open ByteString Lts

/-! ## 1. The callbacks -/

/-- `frame->hd.type`. -/
inductive FrameType where
  | headers
  | data
  | other
  deriving DecidableEq

/-- `frame->headers.cat`. -/
inductive HeadersCat where
  | request
  | response
  | pushResponse
  | headers
  deriving DecidableEq

inductive Callback where
  | beginHeaders (id : Int) (type : FrameType) (cat : HeadersCat)
  | header (id : Int) (type : FrameType) (name value : Bytes)
  | data (id : Int) (bytes : Bytes)
  /-- A frame is complete; `endStream` is its flag. -/
  | frame (id : Int) (type : FrameType) (endStream : Bool)
  /-- `submit_response`, out of a reply of the handler. -/
  | respond (id : Int)
  /-- `data_read`. -/
  | read (id : Int)
  | close (id : Int)

/-- The members of `Stream` that hold the request. -/
structure ReqStream where
  id : Int
  method : Bytes := []
  path : Bytes := []
  body : Bytes := []
  deriving DecidableEq

/-- The body of `on_header`. -/
def ReqStream.setHeader (st : ReqStream) (name value : Bytes) : ReqStream :=
  if name = ascii ":method" then { st with method := value }
  else if name = ascii ":path" then { st with path := value }
  else st

/-- What nghttp2 keeps of a stream. -/
structure NgStream where
  userData : Option Int := none
  /-- `prd.source.ptr` of the response, once there is one. -/
  provider : Option Int := none
  /-- The client has ended its side. -/
  remoteClosed : Bool := false

/-- Where a request goes: the handlers get its body, the two refusals are answered at once. -/
inductive Route where
  | methodNotAllowed
  | register (body : Bytes)
  | map (body : Bytes)
  | notFound
  deriving DecidableEq

/-- The handler that `serve_h2` gives to `run`. -/
def route (q : ReqStream) : Route :=
  if q.method ≠ ascii "POST" then .methodNotAllowed
  else if q.path = ascii "/machine/register" then .register q.body
  else if q.path = ascii "/machine/map" then .map q.body
  else .notFound

structure Requests where
  /-- nghttp2's streams. -/
  table : Int → Option NgStream := fun _ => none
  /-- `streams_`: the pointers it owns. -/
  streams : Int → Option Int := fun _ => none
  /-- The `Stream`s that have been allocated and not freed, by address. -/
  heap : Int → Option ReqStream := fun _ => none
  next : Int := 0
  /-- What `on_request_` has been called with, and where it went. -/
  calls : List ReqStream := []
  routed : List (Int × Route) := []
  /-- The accesses to a `Stream` that has been freed. -/
  faults : Nat := 0

namespace Requests

/-- `nghttp2_session_get_stream_user_data`. -/
def getUserData (s : Requests) (id : Int) : Option Int := (s.table id).bind (·.userData)

/-- An access through a pointer. -/
def access (s : Requests) (p : Int) (f : ReqStream → Requests) : Requests :=
  match s.heap p with
  | some st => f st
  | none => { s with faults := s.faults + 1 }

/-- The owner gives up its pointer. -/
def freed (s : Requests) (id : Int) : Int → Option ReqStream :=
  match s.streams id with
  | some p => putAt s.heap p none
  | none => s.heap

def onBeginHeaders (s : Requests) (id : Int) (type : FrameType) (cat : HeadersCat) : Requests :=
  if type ≠ .headers ∨ cat ≠ .request then s
  else
    { s with
      table := putAt s.table id ((s.table id).map fun t => { t with userData := some s.next })
      heap := putAt (s.freed id) s.next (some { id })
      streams := putAt s.streams id (some s.next)
      next := s.next + 1 }

def onHeader (s : Requests) (id : Int) (type : FrameType) (name value : Bytes) : Requests :=
  if type ≠ .headers then s
  else
    match s.getUserData id with
    | none => s
    | some p => s.access p fun st => { s with heap := putAt s.heap p (some (st.setHeader name value)) }

def onData (s : Requests) (id : Int) (bytes : Bytes) : Requests :=
  match s.getUserData id with
  | none => s
  | some p => s.access p fun st => { s with heap := putAt s.heap p (some { st with body := st.body ++ bytes }) }

/-- `on_frame`; the handler is set before the first byte is received. -/
def onFrame (s : Requests) (id : Int) (type : FrameType) (endStream : Bool) : Requests :=
  if (type ≠ .headers ∧ type ≠ .data) ∨ endStream = false then s
  else
    match s.getUserData id with
    | none => s
    | some p =>
      s.access p fun st => { s with calls := s.calls ++ [st], routed := s.routed ++ [(st.id, route st)] }

def submitResponse (s : Requests) (id : Int) : Requests :=
  match s.streams id with
  | none => s
  | some p =>
    s.access p fun _ =>
      { s with table := putAt s.table id ((s.table id).map fun t => { t with provider := some p }) }

def dataRead (s : Requests) (id : Int) : Requests :=
  match (s.table id).bind (·.provider) with
  | none => s
  | some p => s.access p fun _ => s

def onClose (s : Requests) (id : Int) : Requests :=
  { s with heap := s.freed id, streams := putAt s.streams id none }

/-! ## 2. nghttp2 -/

/-- The stream is open, and the client has not ended it. -/
def receiving (s : Requests) (id : Int) : Bool := (s.table id).any fun t => !t.remoteClosed

/-- **The order nghttp2 promises**: a request begins on a stream that is not open, a stream is received on
    while it is open and not ended, its provider is asked once it has one, and it is closed once. Between
    streams there is no order. -/
def allows (s : Requests) : Callback → Bool
  | .beginHeaders id type cat =>
    if type = .headers ∧ cat = .request then (s.table id).isNone else s.receiving id
  | .header id _ _ _ => s.receiving id
  | .data id _ => s.receiving id
  | .frame id type _ => if type = .other then true else s.receiving id
  | .respond _ => true
  | .read id => ((s.table id).bind (·.provider)).isSome
  | .close id => (s.table id).isSome

/-- nghttp2 opens the stream before `on_begin_headers`. -/
def opened (s : Requests) (id : Int) (type : FrameType) (cat : HeadersCat) : Requests :=
  if type = .headers ∧ cat = .request then { s with table := putAt s.table id (some {}) } else s

/-- nghttp2 notes the end of the request after `on_frame_recv`. -/
def ended (s : Requests) (id : Int) (type : FrameType) (endStream : Bool) : Requests :=
  if type = .other ∨ endStream = false then s
  else { s with table := putAt s.table id ((s.table id).map fun t => { t with remoteClosed := true }) }

def handle (s : Requests) : Callback → Requests
  | .beginHeaders id type cat => (s.opened id type cat).onBeginHeaders id type cat
  | .header id type name value => s.onHeader id type name value
  | .data id bytes => s.onData id bytes
  | .frame id type endStream => (s.onFrame id type endStream).ended id type endStream
  | .respond id => s.submitResponse id
  | .read id => s.dataRead id
  -- nghttp2 drops the stream after `on_stream_close`
  | .close id => { s.onClose id with table := putAt s.table id none }

def step (s : Requests) (e : Callback) : Option Requests := if s.allows e then some (s.handle e) else none

end Requests

/-! ## 3. What a stream has said -/

/-- The callback begins a request on the stream. -/
def Callback.begins (id : Int) : Callback → Bool
  | .beginHeaders i type cat => decide (i = id ∧ type = .headers ∧ cat = .request)
  | _ => false

/-- The header it brings to the stream. -/
def Callback.headerOn (id : Int) : Callback → Option (Bytes × Bytes)
  | .header i type name value => if i = id ∧ type = .headers then some (name, value) else none
  | _ => none

/-- The octets it brings to the body of the stream. -/
def Callback.dataOn (id : Int) : Callback → Option Bytes
  | .data i bytes => if i = id then some bytes else none
  | _ => none

/-- The stream whose request it ends. -/
def Callback.ends? : Callback → Option Int
  | .frame id type endStream => if type ≠ .other ∧ endStream = true then some id else none
  | _ => none

/-- The callbacks since the last request on the stream began. -/
def sinceBegin (id : Int) (es : List Callback) : List Callback :=
  (es.reverse.takeWhile fun e => !e.begins id).reverse

/-- The last header of that name. -/
def lastHeader (id : Int) (name : Bytes) (es : List Callback) : Bytes :=
  (((es.filterMap (·.headerOn id)).filter (·.1 = name)).getLast?.map (·.2)).getD []

/-- **What a stream has said** since its request began: its own headers, the last of each name, and its own
    data, in order. -/
def draft (id : Int) (es : List Callback) : ReqStream where
  id := id
  method := lastHeader id (ascii ":method") (sinceBegin id es)
  path := lastHeader id (ascii ":path") (sinceBegin id es)
  body := ((sinceBegin id es).filterMap (·.dataOn id)).flatten

/-- The requests that have ended in the callbacks `es` after `past`, each as it stood then. -/
def requestsIn : List Callback → List Callback → List ReqStream
  | _, [] => []
  | past, e :: es => (e.ends?.map fun id => draft id past).toList ++ requestsIn (past ++ [e]) es

section Draft

variable {id : Int} {es : List Callback} {e : Callback}

/-- What one callback adds to a stream. -/
def ReqStream.absorb (st : ReqStream) (e : Callback) : ReqStream :=
  if e.begins st.id then { id := st.id }
  else
    match e.headerOn st.id, e.dataOn st.id with
    | some h, _ => st.setHeader h.1 h.2
    | none, some bytes => { st with body := st.body ++ bytes }
    | none, none => st

theorem sinceBegin_concat (id : Int) (es : List Callback) (e : Callback) :
    sinceBegin id (es ++ [e]) = if e.begins id then [] else sinceBegin id es ++ [e] := by
  unfold sinceBegin
  rw [List.reverse_append, List.reverse_singleton, List.singleton_append, List.takeWhile_cons]
  cases e.begins id with
  | true => rfl
  | false => exact List.reverse_cons

theorem filterMap_concat {α : Type} (f : Callback → Option α) (es : List Callback) (e : Callback) :
    (es ++ [e]).filterMap f = es.filterMap f ++ (f e).toList := by
  rw [List.filterMap_append, List.filterMap_cons, List.filterMap_nil]
  cases f e with
  | none => rfl
  | some a => rfl

theorem lastHeader_other (name : Bytes) (he : e.headerOn id = none) :
    lastHeader id name (es ++ [e]) = lastHeader id name es := by
  unfold lastHeader
  rw [filterMap_concat, he, Option.toList_none, List.append_nil]

theorem lastHeader_concat (name : Bytes) {h : Bytes × Bytes} (he : e.headerOn id = some h) :
    lastHeader id name (es ++ [e]) = if h.1 = name then h.2 else lastHeader id name es := by
  unfold lastHeader
  rw [filterMap_concat, he, Option.toList_some, List.filter_append, List.filter_singleton]
  by_cases hname : h.1 = name
  · simp [hname]
  · simp [hname]

theorem setHeader_cases (st : ReqStream) (name value : Bytes) :
    st.setHeader name value =
      { st with method := if name = ascii ":method" then value else st.method
                path := if name = ascii ":path" then value else st.path } := by
  unfold ReqStream.setHeader
  by_cases hm : name = ascii ":method"
  · have hp : ¬ name = ascii ":path" := by
      rw [hm]
      decide
    simp only [if_pos hm, if_neg hp]
  · by_cases hp : name = ascii ":path"
    · simp only [if_neg hm, if_pos hp]
    · simp only [if_neg hm, if_neg hp]

theorem absorb_id (st : ReqStream) (e : Callback) : (st.absorb e).id = st.id := by
  unfold ReqStream.absorb
  by_cases hb : e.begins st.id = true
  · rw [if_pos hb]
  · rw [if_neg hb]
    cases e.headerOn st.id with
    | some h =>
      show (st.setHeader h.1 h.2).id = st.id
      rw [setHeader_cases]
    | none =>
      cases e.dataOn st.id with
      | none => rfl
      | some bytes => rfl

/-- A header and data never come at once. -/
theorem dataOn_of_headerOn {h : Bytes × Bytes} (he : e.headerOn id = some h) : e.dataOn id = none := by
  cases e with
  | header => rfl
  | beginHeaders | data | frame | respond | read | close => cases he

/-- **One callback more.** -/
theorem draft_concat (id : Int) (es : List Callback) (e : Callback) :
    draft id (es ++ [e]) = (draft id es).absorb e := by
  unfold ReqStream.absorb
  cases hbegin : e.begins id with
  | true =>
    simp only [draft, sinceBegin_concat, hbegin, if_true]
    rfl
  | false =>
    simp only [draft, sinceBegin_concat, hbegin, Bool.false_eq_true, if_false]
    cases hh : e.headerOn id with
    | some h =>
      simp only [setHeader_cases, lastHeader_concat _ hh, filterMap_concat, dataOn_of_headerOn hh,
        Option.toList_none, List.append_nil]
    | none =>
      simp only [lastHeader_other _ hh, filterMap_concat]
      cases e.dataOn id with
      | none => simp only [Option.toList_none, List.append_nil]
      | some bytes => simp only [Option.toList_some, List.flatten_append, List.flatten_singleton]

theorem requestsIn_concat (past es : List Callback) (e : Callback) :
    requestsIn past (es ++ [e]) =
      requestsIn past es ++ (e.ends?.map fun id => draft id (past ++ es)).toList := by
  induction es generalizing past with
  | nil => simp [requestsIn]
  | cons e' es ih =>
    rw [List.cons_append, requestsIn, requestsIn, ih, List.append_assoc past, List.append_assoc]
    rfl

end Draft

/-! ## 4. The invariant -/

/-- **Every pointer that can be reached is the one `streams_` owns**, and what it points to is what its
    stream has said. -/
structure Requests.Sound (es : List Callback) (s : Requests) : Prop where
  closed : ∀ id, s.table id = none → s.streams id = none
  opened : ∀ id t, s.table id = some t → ∃ p, t.userData = some p ∧ (∀ q, t.provider = some q → q = p) ∧
    s.streams id = some p ∧ p < s.next ∧ s.heap p = some (draft id es)
  owned : ∀ p st, s.heap p = some st → s.streams st.id = some p
  calls : s.calls = requestsIn [] es
  routed : s.routed = (requestsIn [] es).map fun q => (q.id, route q)
  faults : s.faults = 0

section Sound

variable {es : List Callback} {s : Requests} {e : Callback} {id : Int}

/-- A callback that no stream takes anything from. -/
theorem Requests.Sound.quiet (h : Requests.Sound es s) (habsorb : ∀ i, (draft i es).absorb e = draft i es)
    (hends : e.ends? = none) : Requests.Sound (es ++ [e]) s := by
  have hcalls : requestsIn [] (es ++ [e]) = requestsIn [] es := by
    rw [requestsIn_concat, hends]
    exact List.append_nil _
  refine ⟨h.closed, ?_, h.owned, hcalls ▸ h.calls, hcalls ▸ h.routed, h.faults⟩
  intro i t ht
  rw [draft_concat, habsorb]
  exact h.opened i t ht

/-- A callback whose stream takes something from it. -/
theorem Requests.Sound.update (h : Requests.Sound es s) {t : NgStream} (ht : s.table id = some t)
    (hother : ∀ i ≠ id, (draft i es).absorb e = draft i es) (hends : e.ends? = none) :
    ∃ p, t.userData = some p ∧ s.heap p = some (draft id es) ∧
      Requests.Sound (es ++ [e]) { s with heap := putAt s.heap p (some ((draft id es).absorb e)) } := by
  obtain ⟨p, huser, hprov, hown, hnext, hheap⟩ := h.opened id t ht
  have hcalls : requestsIn [] (es ++ [e]) = requestsIn [] es := by
    rw [requestsIn_concat, hends]
    exact List.append_nil _
  refine ⟨p, huser, hheap, h.closed, ?_, ?_, hcalls ▸ h.calls, hcalls ▸ h.routed, h.faults⟩
  · intro i t' ht'
    by_cases hi : i = id
    · subst hi
      cases ht.symm.trans ht'
      refine ⟨p, huser, hprov, hown, hnext, ?_⟩
      rw [draft_concat]
      exact putAt_self _ _ _
    · obtain ⟨p', huser', hprov', hown', hnext', hheap'⟩ := h.opened i t' ht'
      -- two streams share no object: it knows its own number
      have hne : p' ≠ p := by
        intro heq
        rw [heq, hheap] at hheap'
        exact hi (congrArg ReqStream.id (Option.some.inj hheap')).symm
      refine ⟨p', huser', hprov', hown', hnext', ?_⟩
      rw [draft_concat, hother i hi]
      exact (putAt_other hne).trans hheap'
  · intro q st hq
    by_cases heq : q = p
    · subst heq
      cases (putAt_self _ _ _).symm.trans hq
      rw [absorb_id]
      exact hown
    · exact h.owned q st ((putAt_other heq).symm.trans hq)

/-- nghttp2 notes something about a stream. -/
theorem Requests.Sound.noted (h : Requests.Sound es s) (id : Int) (f : NgStream → NgStream)
    (huser : ∀ t, (f t).userData = t.userData)
    (hprov : ∀ t q, (f t).provider = some q → t.provider = some q ∨ s.streams id = some q) :
    Requests.Sound es { s with table := putAt s.table id ((s.table id).map f) } := by
  refine ⟨?_, ?_, h.owned, h.calls, h.routed, h.faults⟩
  · intro i hi
    by_cases heq : i = id
    · subst heq
      have hnone := (putAt_self _ _ _).symm.trans hi
      exact h.closed i (Option.map_eq_none_iff.mp hnone)
    · exact h.closed i ((putAt_other heq).symm.trans hi)
  · intro i t ht
    by_cases heq : i = id
    · subst heq
      obtain ⟨t₀, ht₀, rfl⟩ := Option.map_eq_some_iff.mp ((putAt_self _ _ _).symm.trans ht)
      obtain ⟨p, hu, hp, hown, hrest⟩ := h.opened i t₀ ht₀
      refine ⟨p, (huser t₀).trans hu, ?_, hown, hrest⟩
      intro q hq
      rcases hprov t₀ q hq with hq | hq
      · exact hp q hq
      · exact Option.some.inj (hq.symm.trans hown)
    · exact h.opened i t ((putAt_other heq).symm.trans ht)

/-- A stream that is received on. -/
theorem Requests.receiving_some (h : s.receiving id = true) : ∃ t, s.table id = some t := by
  obtain ⟨t, ht, _⟩ := (Option.any_eq_true _ _).mp h
  exact ⟨t, ht⟩

theorem absorb_begins (st : ReqStream) {i : Int} {type : FrameType} {cat : HeadersCat}
    (h : ¬ (i = st.id ∧ type = .headers ∧ cat = .request)) : st.absorb (.beginHeaders i type cat) = st := by
  unfold ReqStream.absorb
  have hb : (Callback.beginHeaders i type cat).begins st.id = false := decide_eq_false h
  rw [hb]
  rfl

theorem absorb_header (st : ReqStream) (name value : Bytes) :
    st.absorb (.header st.id .headers name value) = st.setHeader name value := by
  unfold ReqStream.absorb
  have hh : (Callback.header st.id .headers name value).headerOn st.id = some (name, value) :=
    if_pos ⟨rfl, rfl⟩
  simp only [hh]
  rfl

theorem absorb_header_other (st : ReqStream) {i : Int} {type : FrameType} (name value : Bytes)
    (h : ¬ (i = st.id ∧ type = .headers)) : st.absorb (.header i type name value) = st := by
  unfold ReqStream.absorb
  have hh : (Callback.header i type name value).headerOn st.id = none := if_neg h
  simp only [hh]
  rfl

theorem absorb_data (st : ReqStream) (bytes : Bytes) :
    st.absorb (.data st.id bytes) = { st with body := st.body ++ bytes } := by
  unfold ReqStream.absorb
  have hd : (Callback.data st.id bytes).dataOn st.id = some bytes := if_pos rfl
  simp only [hd]
  rfl

theorem absorb_data_other (st : ReqStream) {i : Int} (bytes : Bytes) (h : i ≠ st.id) :
    st.absorb (.data i bytes) = st := by
  unfold ReqStream.absorb
  have hd : (Callback.data i bytes).dataOn st.id = none := if_neg h
  simp only [hd]
  rfl

/-- A request begins. -/
theorem Requests.Sound.begins (h : Requests.Sound es s) (hnone : s.table id = none) :
    Requests.Sound (es ++ [.beginHeaders id .headers .request])
      ((s.opened id .headers .request).onBeginHeaders id .headers .request) := by
  have hown : s.streams id = none := h.closed id hnone
  have hs : (s.opened id .headers .request).onBeginHeaders id .headers .request =
      { s with table := putAt (putAt s.table id (some {})) id (some { userData := some s.next })
               heap := putAt s.heap s.next (some { id })
               streams := putAt s.streams id (some s.next)
               next := s.next + 1 } := by
    unfold Requests.opened Requests.onBeginHeaders Requests.freed
    simp [hown, putAt_self]
  have hcalls : requestsIn [] (es ++ [.beginHeaders id .headers .request]) = requestsIn [] es := by
    rw [requestsIn_concat]
    exact List.append_nil _
  rw [hs]
  refine ⟨?_, ?_, ?_, hcalls ▸ h.calls, hcalls ▸ h.routed, h.faults⟩
  · intro i hi
    by_cases heq : i = id
    · subst heq
      cases (putAt_self _ _ _).symm.trans hi
    · have hi' : s.table i = none := by
        rw [← hi]
        exact ((putAt_other heq).trans (putAt_other heq)).symm
      exact (putAt_other heq).trans (h.closed i hi')
  · intro i t ht
    rw [draft_concat]
    by_cases heq : i = id
    · subst heq
      cases (putAt_self _ _ _).symm.trans ht
      refine ⟨s.next, rfl, fun q hq => (by cases hq), putAt_self _ _ _, Int.lt_succ _, ?_⟩
      have hb : (Callback.beginHeaders i .headers .request).begins i = true := decide_eq_true ⟨rfl, rfl, rfl⟩
      have hdraft : (draft i es).absorb (.beginHeaders i .headers .request) = { id := i } := if_pos hb
      rw [hdraft]
      exact putAt_self _ _ _
    · have ht' : s.table i = some t := by
        rw [← ht]
        exact ((putAt_other heq).trans (putAt_other heq)).symm
      obtain ⟨p, huser, hprov, hown', hnext, hheap⟩ := h.opened i t ht'
      rw [absorb_begins _ fun hb => heq hb.1.symm]
      refine ⟨p, huser, hprov, (putAt_other heq).trans hown', Int.lt_trans hnext (Int.lt_succ _), ?_⟩
      exact (putAt_other (Int.ne_of_lt hnext)).trans hheap
  · intro q st hq
    by_cases heq : q = s.next
    · subst heq
      cases (putAt_self _ _ _).symm.trans hq
      exact putAt_self _ _ _
    · have hown' := h.owned q st ((putAt_other heq).symm.trans hq)
      have hid : st.id ≠ id := by
        intro hid
        rw [hid, hown] at hown'
        cases hown'
      exact (putAt_other hid).trans hown'

/-- A stream is closed: its pointer goes out of the table with the object. -/
theorem Requests.Sound.closes (h : Requests.Sound es s) {t : NgStream} (ht : s.table id = some t) :
    Requests.Sound (es ++ [.close id]) { s.onClose id with table := putAt s.table id none } := by
  obtain ⟨p, _, _, hown, _, hheap⟩ := h.opened id t ht
  have hquiet : ∀ i, (draft i es).absorb (.close id) = draft i es := fun i => rfl
  have hcalls : requestsIn [] (es ++ [.close id]) = requestsIn [] es := by
    rw [requestsIn_concat]
    exact List.append_nil _
  have hfreed : s.freed id = putAt s.heap p none := by rw [Requests.freed, hown]
  refine ⟨?_, ?_, ?_, hcalls ▸ h.calls, hcalls ▸ h.routed, h.faults⟩
  · intro i hi
    by_cases heq : i = id
    · subst heq
      exact putAt_self _ _ _
    · exact (putAt_other heq).trans (h.closed i ((putAt_other heq).symm.trans hi))
  · intro i t' ht'
    by_cases heq : i = id
    · subst heq
      cases (putAt_self _ _ _).symm.trans ht'
    · obtain ⟨p', huser', hprov', hown', hnext', hheap'⟩ := h.opened i t' ((putAt_other heq).symm.trans ht')
      have hne : p' ≠ p := by
        intro hp
        rw [hp, hheap] at hheap'
        exact heq (congrArg ReqStream.id (Option.some.inj hheap')).symm
      refine ⟨p', huser', hprov', (putAt_other heq).trans hown', hnext', ?_⟩
      show s.freed id p' = _
      rw [draft_concat, hquiet, hfreed]
      exact (putAt_other hne).trans hheap'
  · intro q st hq
    change s.freed id q = some st at hq
    rw [hfreed] at hq
    by_cases heq : q = p
    · subst heq
      cases (putAt_self _ _ _).symm.trans hq
    · have hown' := h.owned q st ((putAt_other heq).symm.trans hq)
      have hid : st.id ≠ id := by
        intro hid
        rw [hid, hown] at hown'
        exact heq (Option.some.inj hown').symm
      exact (putAt_other hid).trans hown'

/-- A frame is complete: it ends the request of its stream, or nothing happens. -/
theorem Requests.Sound.framed (h : Requests.Sound es s) (type : FrameType) (endStream : Bool)
    (hallow : s.allows (.frame id type endStream) = true) :
    Requests.Sound (es ++ [.frame id type endStream]) ((s.onFrame id type endStream).ended id type endStream) := by
  have hquiet : ∀ i, (draft i es).absorb (.frame id type endStream) = draft i es := fun i => rfl
  by_cases hends : type ≠ .other ∧ endStream = true
  · obtain ⟨hother, rfl⟩ := hends
    have hcond : ¬ ((type ≠ .headers ∧ type ≠ .data) ∨ true = false) := by
      cases type with
      | headers | data => simp
      | other => exact absurd rfl hother
    obtain ⟨t, ht⟩ := Requests.receiving_some (show s.receiving id = true by
      rw [← hallow]
      exact (if_neg hother).symm)
    obtain ⟨p, huser, hprov, hown, hnext, hheap⟩ := h.opened id t ht
    have hframe : s.onFrame id type true =
        { s with calls := s.calls ++ [draft id es]
                 routed := s.routed ++ [((draft id es).id, route (draft id es))] } := by
      unfold Requests.onFrame Requests.getUserData Requests.access
      rw [if_neg hcond, ht, Option.bind_some, huser]
      simp only [hheap]
    have hcalls : requestsIn [] (es ++ [.frame id type true]) = requestsIn [] es ++ [draft id es] := by
      have hid : (Callback.frame id type true).ends? = some id := if_pos ⟨hother, rfl⟩
      rw [requestsIn_concat, hid]
      rfl
    have hcalled : Requests.Sound (es ++ [.frame id type true]) (s.onFrame id type true) := by
      rw [hframe]
      refine ⟨h.closed, ?_, h.owned, ?_, ?_, h.faults⟩
      · intro i t' ht'
        rw [draft_concat, hquiet]
        exact h.opened i t' ht'
      · rw [hcalls, ← h.calls]
      · rw [hcalls, List.map_append, ← h.routed]
        rfl
    rw [Requests.ended, if_neg (by simp [hother])]
    exact hcalled.noted id _ (fun _ => rfl) (fun _ _ hq => .inl hq)
  · have hnone : (Callback.frame id type endStream).ends? = none := if_neg hends
    have hsame : (s.onFrame id type endStream).ended id type endStream = s := by
      unfold Requests.onFrame Requests.ended
      cases endStream with
      | false => simp
      | true =>
        cases type with
        | headers | data => exact absurd ⟨by decide, rfl⟩ hends
        | other => simp
    rw [hsame]
    exact h.quiet hquiet hnone

/-- Trailers, and answers to nothing, begin no request. -/
theorem Requests.Sound.ignores (h : Requests.Sound es s) {type : FrameType} {cat : HeadersCat}
    (hreq : ¬ (type = .headers ∧ cat = .request)) :
    Requests.Sound (es ++ [.beginHeaders id type cat]) ((s.opened id type cat).onBeginHeaders id type cat) := by
  have hsame : (s.opened id type cat).onBeginHeaders id type cat = s := by
    rw [Requests.opened, if_neg hreq, Requests.onBeginHeaders, if_pos (not_and_or.mp hreq)]
  rw [hsame]
  exact h.quiet (fun i => absorb_begins _ fun hb => hreq hb.2) rfl

/-- A header goes into the object of its stream. -/
theorem Requests.Sound.named (h : Requests.Sound es s) (type : FrameType) (name value : Bytes)
    (hallow : s.receiving id = true) :
    Requests.Sound (es ++ [.header id type name value]) (s.onHeader id type name value) := by
  by_cases htype : type = .headers
  · subst htype
    obtain ⟨t, ht⟩ := Requests.receiving_some hallow
    obtain ⟨p, huser, hheap, hnext⟩ := h.update (e := .header id .headers name value) ht
      (fun i hi => absorb_header_other _ name value fun hb => hi hb.1.symm) rfl
    have habsorb : (draft id es).absorb (.header id .headers name value) = (draft id es).setHeader name value :=
      absorb_header (draft id es) name value
    rw [habsorb] at hnext
    unfold Requests.onHeader Requests.getUserData Requests.access
    rw [if_neg (not_not.mpr rfl), ht, Option.bind_some, huser]
    simp only [hheap]
    exact hnext
  · have hsame : s.onHeader id type name value = s := if_pos htype
    rw [hsame]
    exact h.quiet (fun i => absorb_header_other _ name value fun hb => htype hb.2) rfl

/-- A piece of a body goes into the object of its stream. -/
theorem Requests.Sound.filled (h : Requests.Sound es s) (bytes : Bytes) (hallow : s.receiving id = true) :
    Requests.Sound (es ++ [.data id bytes]) (s.onData id bytes) := by
  obtain ⟨t, ht⟩ := Requests.receiving_some hallow
  obtain ⟨p, huser, hheap, hnext⟩ := h.update (e := .data id bytes) ht
    (fun i hi => absorb_data_other _ bytes fun hb => hi hb.symm) rfl
  have habsorb : (draft id es).absorb (.data id bytes) = { draft id es with body := (draft id es).body ++ bytes } :=
    absorb_data (draft id es) bytes
  rw [habsorb] at hnext
  unfold Requests.onData Requests.getUserData Requests.access
  rw [ht, Option.bind_some, huser]
  simp only [hheap]
  exact hnext

/-- An answer is handed to nghttp2: its data provider gets the pointer of its own stream. -/
theorem Requests.Sound.responds (h : Requests.Sound es s) :
    Requests.Sound (es ++ [.respond id]) (s.submitResponse id) := by
  have hquiet := h.quiet (e := .respond id) (fun i => rfl) rfl
  unfold Requests.submitResponse
  cases hown : s.streams id with
  | none => exact hquiet
  | some p =>
    cases ht : s.table id with
    | none => cases (h.closed id ht).symm.trans hown
    | some t =>
      obtain ⟨p', _, _, hown', _, hheap⟩ := h.opened id t ht
      cases hown.symm.trans hown'
      simp only [Requests.access, hheap]
      rw [← ht]
      exact hquiet.noted id _ (fun _ => rfl) fun t q hq => .inr (by cases hq; exact hown)

/-- The data provider finds its object. -/
theorem Requests.Sound.reads (h : Requests.Sound es s) :
    Requests.Sound (es ++ [.read id]) (s.dataRead id) := by
  have hsame : s.dataRead id = s := by
    unfold Requests.dataRead
    cases hp : (s.table id).bind (·.provider) with
    | none => rfl
    | some q =>
      obtain ⟨t, ht, hprov⟩ := Option.bind_eq_some_iff.mp hp
      obtain ⟨p, _, hone, _, _, hheap⟩ := h.opened id t ht
      rw [hone q hprov]
      simp only [Requests.access, hheap]
  rw [hsame]
  exact h.quiet (fun i => rfl) rfl

end Sound

/-- **Every callback keeps it.** -/
theorem requestStep_sound {es : List Callback} {s s' : Requests} {e : Callback} (h : Requests.Sound es s)
    (hstep : s.step e = some s') : Requests.Sound (es ++ [e]) s' := by
  unfold Requests.step at hstep
  by_cases hallow : s.allows e = true
  · rw [if_pos hallow] at hstep
    cases hstep
    cases e with
    | beginHeaders id type cat =>
      by_cases hreq : type = .headers ∧ cat = .request
      · obtain ⟨rfl, rfl⟩ := hreq
        exact h.begins (Option.isNone_iff_eq_none.mp hallow)
      · exact h.ignores hreq
    | header id type name value => exact h.named type name value hallow
    | data id bytes => exact h.filled bytes hallow
    | frame id type endStream => exact h.framed type endStream hallow
    | respond id => exact h.responds
    | read id => exact h.reads
    | close id =>
      obtain ⟨t, ht⟩ := Option.isSome_iff_exists.mp hallow
      exact h.closes ht
  · rw [if_neg hallow] at hstep
    cases hstep

/-! ## 5. Requests do not mix -/

/-- **Every request is handled as its own stream said it.** However nghttp2 interleaves the callbacks of the
    streams: the handler has been called once for each end of a request, in that order, with the last
    `:method` and `:path` and the whole body of that very stream since it began, and each call went where
    its method and path say; no freed `Stream` has been touched; a stream that is open can be answered; and
    a `Stream` that is left belongs to one that is open. -/
theorem requests_separate (es : List Callback) (s : Requests) (h : Run (Of Requests.step) {} es s) :
    s.calls = requestsIn [] es ∧ s.routed = (requestsIn [] es).map (fun q => (q.id, route q)) ∧
      s.faults = 0 ∧
      (∀ id, (s.table id).isSome → ∃ p, s.streams id = some p ∧ (s.heap p).isSome) ∧
      ∀ p, (s.heap p).isSome → ∃ id, s.streams id = some p ∧ (s.table id).isSome := by
  have hsound : Requests.Sound es s := by
    refine h.inv (I := Requests.Sound) ⟨fun _ _ => rfl, fun _ _ ht => ?_, fun _ _ hp => ?_, rfl, rfl, rfl⟩ ?_
    · cases ht
    · cases hp
    · intro es s e s' hs hstep
      exact requestStep_sound hs hstep
  refine ⟨hsound.calls, hsound.routed, hsound.faults, ?_, ?_⟩
  · intro id hopen
    obtain ⟨t, ht⟩ := Option.isSome_iff_exists.mp hopen
    obtain ⟨p, _, _, hown, _, hheap⟩ := hsound.opened id t ht
    exact ⟨p, hown, Option.isSome_iff_exists.mpr ⟨_, hheap⟩⟩
  · intro p hp
    obtain ⟨st, hst⟩ := Option.isSome_iff_exists.mp hp
    have hown := hsound.owned p st hst
    refine ⟨st.id, hown, ?_⟩
    cases ht : s.table st.id with
    | none => cases (hsound.closed _ ht).symm.trans hown
    | some t => rfl

/-- Two streams at once: a registration in two pieces with a trailer behind them, and a `GET`. -/
def twoStreams : List Callback :=
  [.beginHeaders 1 .headers .request, .header 1 .headers (ascii ":method") (ascii "POST"),
    .header 1 .headers (ascii ":path") (ascii "/machine/register"), .frame 1 .headers false,
    .beginHeaders 3 .headers .request, .data 1 [1, 2],
    .header 3 .headers (ascii ":method") (ascii "GET"), .header 3 .headers (ascii ":path") (ascii "/"),
    .frame 1 .data false, .frame 3 .headers true, .respond 3, .data 1 [3], .read 3, .frame 1 .data false,
    .beginHeaders 1 .headers .headers, .header 1 .headers (ascii "te") (ascii "x"), .close 3,
    .frame 1 .headers true, .respond 1]

theorem requests_separate_two :
    ∃ s, Run (Of Requests.step) {} twoStreams s ∧ s.faults = 0 ∧
      s.routed = [(3, .methodNotAllowed), (1, .register [1, 2, 3])] := by
  have hruns : (exec Requests.step {} twoStreams).isSome = true := by decide +kernel
  obtain ⟨s, hs⟩ := Option.isSome_iff_exists.mp hruns
  obtain ⟨_, hrouted, hfaults, _⟩ := requests_separate twoStreams s (run_of_exec hs)
  refine ⟨s, run_of_exec hs, hfaults, hrouted.trans ?_⟩
  decide +kernel

end Wirebone
