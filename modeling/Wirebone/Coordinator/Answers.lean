/-
  File:      Wirebone/Coordinator/Answers.lean
  Subject:   A PLAIN REQUEST AND ITS ANSWER, from one client to the other side and back.

  Every request that is not taken into the upgrade is answered by `write_http_response`, and the connection
  is closed behind the answer: its client has nothing but the bytes to tell a whole answer from a cut one.

  * `readAnswer` -- a client's reader: the head, and the body if it is as long as the head says;
  * `PlainReply` -- the four arguments of `write_http_response`, `readAnswer_front` -- of all fronts of its text
    the reader takes the whole one only, and finds in it what was put there;
  * `plainReply` -- what a request is to be answered, in the words of its client;
  * `Says` -- a part of the code sends a front of an answer, `says_client` -- so does `handle_client`;
  * **`plain_answered`** -- every plain request gets that answer, and never what could be taken for another.
-/
import Wirebone.Coordinator.Connect

namespace Wirebone

open ByteString Socket

/-! ## 1. What a client reads -/

structure Answer where
  /-- The numeral. -/
  status : Bytes
  contentType : Bytes
  body : Bytes
  deriving DecidableEq

/-- The bytes of a connection up to its end: the head in front of the blank line, its lines as the server
    splits them, and a body of the length that the head says. -/
def readAnswer (b : Bytes) : Option Answer :=
  (findText kHeadEnd b).bind fun i =>
    (parseHead (b.take i)).bind fun head =>
      if headerGet head (ascii "content-length") = decimal (b.drop (i + 4)).length then
        some
          { status := head.target
            contentType := headerGet head (ascii "content-type")
            body := b.drop (i + 4) }
      else none

/-- The arguments of `write_http_response`. -/
structure PlainReply where
  status : Nat
  statusText : Bytes
  contentType : Bytes
  body : Bytes
  deriving DecidableEq

def PlainReply.text (r : PlainReply) : Bytes := httpResponse r.status r.statusText r.contentType r.body

def PlainReply.answer (r : PlainReply) : Answer :=
  { status := decimal r.status, contentType := r.contentType, body := r.body }

/-- The texts of the head end no line, and no blank is in front of the type. -/
structure PlainReply.Plain (r : PlainReply) : Prop where
  text_ok : ∀ c ∈ r.statusText, c ≠ 13 ∧ c ≠ 10
  type_ok : ∀ c ∈ r.contentType, c ≠ 13 ∧ c ≠ 10
  type_head : r.contentType.head? ≠ some 32 ∧ r.contentType.head? ≠ some 9

/-- The lines of the head. -/
def PlainReply.lines (r : PlainReply) : List Bytes :=
  [ascii "HTTP/1.1" ++ 32 :: (decimal r.status ++ 32 :: r.statusText), ascii "Content-Type: " ++ r.contentType,
    ascii "Content-Length: " ++ decimal r.body.length, ascii "Connection: close"]

section Head

variable {r : PlainReply} {b : Bytes}

theorem reply_text (r : PlainReply) : r.text = joinLines r.lines ++ kHeadEnd ++ r.body := by
  have h1 : ascii "HTTP/1.1 " = ascii "HTTP/1.1" ++ [32] := rfl
  have h2 : ascii " " = [32] := rfl
  have h3 : ascii "\r\nContent-Type: " = 13 :: 10 :: ascii "Content-Type: " := rfl
  have h4 : ascii "\r\nContent-Length: " = 13 :: 10 :: ascii "Content-Length: " := rfl
  have h5 : ascii "\r\nConnection: close\r\n\r\n" = 13 :: 10 :: (ascii "Connection: close" ++ kHeadEnd) := rfl
  rw [PlainReply.text, httpResponse, PlainReply.lines, joinLines_cons, joinLines_cons, joinLines_cons, h1, h2, h3, h4, h5]
  simp only [joinLines, List.intercalate_singleton, List.append_assoc, List.cons_append, List.nil_append]

/-- No digit ends a line, and none is a blank. -/
theorem decimal_plain {n : Nat} {c : UInt8} (h : c ∈ decimal n) : isspace c = false := by
  obtain ⟨hlow, hhigh⟩ := decimal_digit h
  have hall : ∀ c : UInt8, 48 ≤ c.toNat → c.toNat ≤ 57 → isspace c = false :=
    forall_byte (by decide +kernel)
  exact hall c hlow hhigh

theorem decimal_ne (n : Nat) : decimal n ≠ [] := by
  unfold decimal
  rw [Ne, List.map_eq_nil_iff]
  exact Nat.toDigits_ne_nil

/-- A header line as `write_http_response` writes it. -/
theorem headerText_of (name value : Bytes) (hname : ∀ c ∈ name, c ≠ 58 ∧ c ≠ 13 ∧ c ≠ 10)
    (hvalue : ∀ c ∈ value, c ≠ 13 ∧ c ≠ 10) (hhead : value.head? ≠ some 32 ∧ value.head? ≠ some 9) :
    ∃ h : HeaderText, h.name = name ∧ h.value = value ∧ h.line = name ++ 58 :: 32 :: value :=
  ⟨{ name, pad := [32], value, name_ok := hname, pad_ok := List.forall_mem_singleton.mpr (.inl rfl)
     value_ok := hvalue, value_head := hhead }, rfl, rfl, rfl⟩

/-- The headers of a reply. -/
theorem reply_headers (h : r.Plain) :
    ∃ hs : List HeaderText, hs.map HeaderText.line = r.lines.tail ∧
      hs.map (fun h => (lower h.name, h.value)) =
        [(ascii "content-type", r.contentType), (ascii "content-length", decimal r.body.length),
          (ascii "connection", ascii "close")] := by
  have hdigits : ∀ c ∈ decimal r.body.length, c ≠ 13 ∧ c ≠ 10 := fun c hc => isspace_false (decimal_plain hc)
  have hfirst : (decimal r.body.length).head? ≠ some 32 ∧ (decimal r.body.length).head? ≠ some 9 := by
    constructor
    · intro hc
      cases decimal_plain (List.mem_of_head? hc)
    · intro hc
      cases decimal_plain (List.mem_of_head? hc)
  obtain ⟨h1, n1, v1, l1⟩ := headerText_of (ascii "Content-Type") r.contentType
    (List.all_iff_forall_prop.mp (by decide)) h.type_ok h.type_head
  obtain ⟨h2, n2, v2, l2⟩ := headerText_of (ascii "Content-Length") (decimal r.body.length)
    (List.all_iff_forall_prop.mp (by decide)) hdigits hfirst
  obtain ⟨h3, n3, v3, l3⟩ := headerText_of (ascii "Connection") (ascii "close")
    (List.all_iff_forall_prop.mp (by decide)) (List.all_iff_forall_prop.mp (by decide)) (by decide)
  refine ⟨[h1, h2, h3], ?_, ?_⟩
  · simp only [List.map_cons, List.map_nil, l1, l2, l3]
    rfl
  · simp only [List.map_cons, List.map_nil, n1, v1, n2, v2, n3, v3]
    rfl

theorem lines_ok (h : r.Plain) : ∀ l ∈ r.lines, PlainLine l := by
  obtain ⟨hs, hlines, _⟩ := reply_headers h
  have hproto : ∀ c ∈ ascii "HTTP/1.1", c ≠ 13 ∧ c ≠ 10 := List.all_iff_forall_prop.mp (by decide)
  intro l hl
  rcases List.mem_cons.mp hl with rfl | hl
  · refine .of_forall (List.cons_ne_nil _ _) fun c hc => ?_
    rcases List.mem_append.mp hc with hc | hc
    · exact hproto c hc
    · rcases List.mem_cons.mp hc with rfl | hc
      · decide
      · rcases List.mem_append.mp hc with hc | hc
        · exact isspace_false (decimal_plain hc)
        · rcases List.mem_cons.mp hc with rfl | hc
          · decide
          · exact h.text_ok c hc
  · obtain ⟨x, _, rfl⟩ := List.mem_map.mp (hlines.symm ▸ hl : l ∈ hs.map HeaderText.line)
    exact x.line_plain

/-- **The head of a reply, as it is read.** -/
theorem parseHead_reply (h : r.Plain) :
    ∃ head, parseHead (joinLines r.lines) = some head ∧ head.target = decimal r.status ∧
      headerGet head (ascii "content-type") = r.contentType ∧
      headerGet head (ascii "content-length") = decimal r.body.length := by
  obtain ⟨hs, hlines, hvalues⟩ := reply_headers h
  have hget : (getlines (joinLines r.lines)).map dropCr = r.lines := getlines_joinLines _ _ (lines_ok h)
  unfold parseHead
  cases hsplit : getlines (joinLines r.lines) with
  | nil =>
    rw [hsplit] at hget
    cases hget
  | cons first lines =>
    rw [hsplit, List.map_cons] at hget
    obtain ⟨hfirst, hrest⟩ := List.cons.inj hget
    have hproto : ∀ c ∈ ascii "HTTP/1.1", isspace c = false := List.all_iff_forall_prop.mp (by decide)
    have hword : nextWord (dropCr first) = (ascii "HTTP/1.1", 32 :: (decimal r.status ++ 32 :: r.statusText)) := by
      rw [hfirst]
      exact nextWord_word [] (List.forall_mem_nil _) (by decide) hproto rfl
    have hstatus : nextWord (32 :: (decimal r.status ++ 32 :: r.statusText)) =
        (decimal r.status, 32 :: r.statusText) :=
      nextWord_word [32] (List.forall_mem_singleton.mpr rfl) (decimal_ne _) (fun c hc => decimal_plain hc) rfl
    have hheaders := foldl_addHeader hs lines [] (hrest.trans hlines.symm)
    rw [hvalues, List.append_nil] at hheaders
    simp only [hword, hstatus, hheaders]
    exact ⟨_, rfl, rfl, rfl, rfl⟩

/-- **Of the fronts of a reply the reader takes the whole one only.** -/
theorem readAnswer_front (h : r.Plain) (hb : b <+: r.text) :
    readAnswer b = if b = r.text then some r.answer else none := by
  obtain ⟨rest, hrest⟩ := hb
  have hhead : findText kHeadEnd (joinLines r.lines ++ kHeadEnd) = some (joinLines r.lines).length :=
    findText_joinLines _ _ (lines_ok h)
  have hfind : findText kHeadEnd (b ++ rest) = some (joinLines r.lines).length := by
    rw [hrest, reply_text]
    refine (findText_append_iff _ ?_).mpr hhead
    rw [List.length_append]
  have hpart := findText_part hfind
  by_cases hle : (joinLines r.lines).length + kHeadEnd.length ≤ b.length
  · rw [if_pos hle] at hpart
    -- the head is complete
    have hcut : joinLines r.lines ++ kHeadEnd <+: b := by
      refine List.prefix_of_prefix_length_le ?_ ⟨rest, rfl⟩ (by rw [List.length_append]; exact hle)
      rw [hrest, reply_text]
      exact List.prefix_append _ _
    obtain ⟨body, rfl⟩ := hcut
    have hbody : body ++ rest = r.body := by
      rw [reply_text, List.append_assoc] at hrest
      exact List.append_cancel_left hrest
    have htake : (joinLines r.lines ++ kHeadEnd ++ body).take (joinLines r.lines).length = joinLines r.lines := by
      rw [List.append_assoc, List.take_left]
    have hdrop : (joinLines r.lines ++ kHeadEnd ++ body).drop ((joinLines r.lines).length + 4) = body := by
      rw [List.drop_left' (by rw [List.length_append]; rfl)]
    obtain ⟨head, hparse, htarget, htype, hlength⟩ := parseHead_reply h
    unfold readAnswer
    rw [hpart, Option.bind_some, htake, hparse, Option.bind_some, hdrop, hlength, htype, htarget]
    by_cases hwhole : body = r.body
    · rw [hwhole, if_pos rfl, if_pos (reply_text r).symm]
      rfl
    · have hshort : ¬ decimal r.body.length = decimal body.length := by
        intro heq
        refine hwhole ?_
        have hlen := decimal_injective heq
        rw [← hbody, List.length_append] at hlen
        rw [← hbody, List.length_eq_zero_iff.mp (show rest.length = 0 by omega), List.append_nil]
      have hne : ¬ joinLines r.lines ++ kHeadEnd ++ body = r.text := by
        rw [reply_text]
        exact fun heq => hwhole (List.append_cancel_left heq)
      rw [if_neg hshort, if_neg hne]
  · rw [if_neg hle] at hpart
    have hne : ¬ b = r.text := by
      intro heq
      rw [heq, reply_text, List.length_append, List.length_append] at hle
      omega
    rw [if_neg hne, readAnswer, hpart]
    rfl

end Head

/-! ## 2. What a request is to be answered -/

def textReply (status : Nat) (statusText body : Bytes) : PlainReply :=
  { status, statusText, contentType := ascii "text/plain", body }

/-- **The answer to a request**, by its path and by the last values of its two headers; `none` where it goes
    on into the handshake. -/
def plainReply (S : Server) (o : Outside) (r : RequestText) : Option PlainReply :=
  let path := r.target.takeWhile (· ≠ 63)
  let badRequest := textReply 400 (ascii "Bad Request")
  if path = ascii "/key" then
    some { status := 200, statusText := ascii "OK", contentType := ascii "application/json", body := keyBody S }
  else if path = ascii "/healthz" then some (textReply 200 (ascii "OK") (ascii "ok\n"))
  else if path ≠ ascii "/ts2021" then some (textReply 404 (ascii "Not Found") (ascii "not found\n"))
  else if r.lastValue (ascii "upgrade") ≠ ascii "tailscale-control-protocol" then
    some (badRequest (ascii "missing upgrade\n"))
  else if r.lastValue (ascii "x-tailscale-handshake") = [] then some (badRequest (ascii "missing handshake\n"))
  else if (o.b64Decode (r.lastValue (ascii "x-tailscale-handshake"))).isNone then
    some (badRequest (ascii "bad handshake\n"))
  else none

theorem textReply_plain {status : Nat} {statusText : Bytes} (h : ∀ c ∈ statusText, c ≠ 13 ∧ c ≠ 10)
    (body : Bytes) : (textReply status statusText body).Plain := by
  have htype : ∀ c ∈ ascii "text/plain", c ≠ 13 ∧ c ≠ 10 := List.all_iff_forall_prop.mp (by decide)
  have hhead : (ascii "text/plain").head? ≠ some 32 ∧ (ascii "text/plain").head? ≠ some 9 := by decide
  exact ⟨h, htype, hhead⟩

theorem plainReply_plain {S : Server} {o : Outside} {r : RequestText} {reply : PlainReply}
    (h : plainReply S o r = some reply) : reply.Plain := by
  have hok : ∀ c ∈ ascii "OK", c ≠ 13 ∧ c ≠ 10 := List.all_iff_forall_prop.mp (by decide)
  have hnot : ∀ c ∈ ascii "Not Found", c ≠ 13 ∧ c ≠ 10 := List.all_iff_forall_prop.mp (by decide)
  have hbad : ∀ c ∈ ascii "Bad Request", c ≠ 13 ∧ c ≠ 10 := List.all_iff_forall_prop.mp (by decide)
  have hjson : ∀ c ∈ ascii "application/json", c ≠ 13 ∧ c ≠ 10 := List.all_iff_forall_prop.mp (by decide)
  have hhead : (ascii "application/json").head? ≠ some 32 ∧ (ascii "application/json").head? ≠ some 9 := by
    decide
  simp only [plainReply] at h
  split at h
  · cases h
    exact ⟨hok, hjson, hhead⟩
  split at h
  · cases h
    exact textReply_plain hok _
  split at h
  · cases h
    exact textReply_plain hnot _
  split at h
  · cases h
    exact textReply_plain hbad _
  split at h
  · cases h
    exact textReply_plain hbad _
  split at h
  · cases h
    exact textReply_plain hbad _
  · cases h

/-! ## 3. Through the code -/

/-- **A part of the code sends a front of the text** and nothing else, and all of it where no call throws
    and no `send` fails. -/
structure Says (o : Outside) (text : Bytes) (t t' : Thread) : Prop where
  served : t'.served = t.served
  front : ∃ x, t'.sent = t.sent ++ x ∧ x <+: text ∧
    ((∀ site, o.throws site = none) → Flows t.sends → x = text)

section Through

variable {S : Server} {o : Outside} {fd : Int} {t t' : Thread} {text : Bytes}

/-- What has been received makes no difference to what is sent. -/
theorem Says.of_net (net : List Bytes) (h : Says o text { t with net } t') : Says o text t t' :=
  ⟨h.served, h.front⟩

/-- A call in front of it. -/
theorem says_call {β : Type} (site : CallSite) {f : Unit → ThreadM β}
    (h : o.throws site = none → Says o text t ((f ()).run.run t).2) :
    Says o text t ((call o site >>= f).run.run t).2 := by
  rcases run_call_bind (o := o) (t := t) site f with ⟨e, he, hrun⟩ | ⟨hnone, hrun⟩
  · rw [hrun]
    refine ⟨rfl, [], (List.append_nil _).symm, List.nil_prefix, fun hquiet => ?_⟩
    cases (hquiet site).symm.trans he
  · rw [hrun]
    exact h hnone

theorem says_respond (status : Nat) (statusText contentType body : Bytes) :
    Says o (httpResponse status statusText contentType body) t
      ((writeHttpResponse o status statusText contentType body).run.run t).2 := by
  refine says_call .respond fun _ => ?_
  obtain ⟨hout, _⟩ := sendAll_out (rfl : sendAll (httpResponse status statusText contentType body) t.sends = _)
  refine ⟨rfl, _, rfl, hout, fun _ hflows => ?_⟩
  obtain ⟨_, _, hall⟩ := sendAll_flows (httpResponse status statusText contentType body) hflows
  rw [hall]

/-- What is sent first, and then no more. -/
theorem says_then {α β : Type} {m : ThreadM α} {f : α → ThreadM β} (h : Says o text t (m.run.run t).2)
    (hf : ∀ a t₁, ((f a).run.run t₁).2.sent = t₁.sent ∧ ((f a).run.run t₁).2.served = t₁.served) :
    Says o text t ((m >>= f).run.run t).2 := by
  rw [run_bind]
  rcases hm : m.run.run t with ⟨e | a, t₁⟩
  · rw [hm] at h
    exact h
  · rw [hm] at h
    obtain ⟨hsent, hserved⟩ := hf a t₁
    obtain ⟨x, hx, hfront⟩ := h.front
    exact ⟨hserved.trans h.served, x, hsent.trans hx, hfront⟩

theorem says_refuse (body : Bytes) :
    Says o (textReply 400 (ascii "Bad Request") body).text t ((refuse o body).run.run t).2 :=
  says_then (says_respond _ _ _ _) fun _ _ => ⟨rfl, rfl⟩

theorem says_return {status : Nat} {statusText contentType body : Bytes} :
    Says o (httpResponse status statusText contentType body) t
      ((do
        writeHttpResponse o status statusText contentType body
        return true : ThreadM Bool).run.run t).2 :=
  says_then (says_respond _ _ _ _) fun _ _ => ⟨rfl, rfl⟩

/-- **`handle_ts2021` where it refuses.** -/
theorem says_ts2021 {r : RequestText} {req : HttpRequest} {reply : PlainReply}
    (hvalue : ∀ name, headerGet req name = r.lastValue name)
    (hpath : r.target.takeWhile (· ≠ 63) = ascii "/ts2021") (hreply : plainReply S o r = some reply) :
    Says o reply.text t ((handleTs2021 S o fd req).run.run t).2 := by
  have hkey : ¬ ascii "/ts2021" = ascii "/key" := by decide
  have hhealth : ¬ ascii "/ts2021" = ascii "/healthz" := by decide
  simp only [plainReply, hpath, if_neg hkey, if_neg hhealth, ne_eq, not_true_eq_false, if_false] at hreply
  unfold handleTs2021
  refine says_call .upgradeHeader fun _ => ?_
  rw [hvalue]
  by_cases hupgrade : r.lastValue (ascii "upgrade") = ascii "tailscale-control-protocol"
  · rw [if_neg (not_not.mpr hupgrade)] at hreply ⊢
    refine says_call .handshakeHeader fun _ => ?_
    rw [hvalue]
    by_cases hempty : r.lastValue (ascii "x-tailscale-handshake") = []
    · rw [if_pos hempty] at hreply ⊢
      cases hreply
      exact says_refuse _
    · rw [if_neg hempty] at hreply ⊢
      cases hdecode : o.b64Decode (r.lastValue (ascii "x-tailscale-handshake")) with
      | none =>
        rw [hdecode, Option.isNone_none, if_pos rfl] at hreply
        cases hreply
        exact says_refuse _
      | some init =>
        rw [hdecode] at hreply
        cases hreply
  · rw [if_pos hupgrade] at hreply ⊢
    cases hreply
    exact says_refuse _

/-- **`handle_client` on a plain request.** -/
theorem says_client {r : RequestText} (hlen : r.render.length ≤ kMaxHead) (hcut : Cuts 1024 r.render t.net)
    {reply : PlainReply} (hreply : plainReply S o r = some reply) :
    Says o reply.text t ((handleClient S o fd).run.run t).2 := by
  obtain ⟨req, hread, hpath, hvalue⟩ := requestOf_text r hlen hcut
  change (readHttpRequest t.net).1.map (·.1) = some req at hread
  unfold handleClient
  cases hthrow : o.throws .readRequest with
  | some e =>
    have hrecv : (recvRequest o).run.run t = (.error e, t) := by
      unfold recvRequest
      rw [run_bind, run_call_some hthrow]
    rw [run_bind, hrecv]
    refine ⟨rfl, [], (List.append_nil _).symm, List.nil_prefix, fun hquiet => ?_⟩
    cases (hquiet .readRequest).symm.trans hthrow
  | none =>
    rw [run_bind, run_recvRequest hthrow, hread]
    refine Says.of_net (readHttpRequest t.net).2 ?_
    simp only
    by_cases hkey : req.path = ascii "/key"
    · rw [if_pos hkey]
      simp only [plainReply, ← hpath, if_pos hkey, Option.some.injEq] at hreply
      rw [← hreply]
      exact says_call .keyText fun _ => says_return
    · rw [if_neg hkey]
      by_cases hhealth : req.path = ascii "/healthz"
      · rw [if_pos hhealth]
        simp only [plainReply, ← hpath, if_neg hkey, if_pos hhealth, Option.some.injEq] at hreply
        rw [← hreply]
        exact says_return
      · rw [if_neg hhealth]
        by_cases hts : req.path = ascii "/ts2021"
        · rw [if_pos hts]
          exact says_then (says_ts2021 hvalue (hpath.symm.trans hts) hreply) fun _ _ => ⟨rfl, rfl⟩
        · rw [if_neg hts]
          simp only [plainReply, ← hpath, if_neg hkey, if_neg hhealth, ne_eq, hts, not_false_eq_true, if_true,
            Option.some.injEq] at hreply
          rw [← hreply]
          exact says_return

/-- A plain request does not come through the upgrade. -/
theorem not_upgraded {r : RequestText} (hlen : r.render.length ≤ kMaxHead) {net : List Bytes}
    (hcut : Cuts 1024 r.render net) {reply : PlainReply} (hreply : plainReply S o r = some reply)
    (sends : List Nat) : ¬ Upgraded S o net sends := by
  intro hup
  obtain ⟨req, hread, hpath, hvalue⟩ := requestOf_text r hlen hcut
  obtain ⟨_, req', extra, hread', hts, _, hupgrade, _, hheader, init, hdecode, _⟩ := hup
  have hsame : some req' = some req := by
    rw [← hread, requestOf, hread']
    rfl
  obtain rfl := Option.some.inj hsame
  rw [hvalue] at hupgrade hheader hdecode
  have hkey : ¬ ascii "/ts2021" = ascii "/key" := by decide
  have hhealth : ¬ ascii "/ts2021" = ascii "/healthz" := by decide
  simp only [plainReply, ← hpath, hts, if_neg hkey, if_neg hhealth, ne_eq, not_true_eq_false, if_false, hupgrade,
    if_neg hheader, hdecode, Option.isNone_some, Bool.false_eq_true] at hreply
  cases hreply

end Through

/-! ## 4. The answer -/

/-- `client_thread` sends nothing itself. -/
theorem clientThread_keeps (S : Server) (o : Outside) (fd : Int) (t : Thread) :
    (clientThread S o fd t).sent = ((handleClient S o fd).run.run t).2.sent ∧
      (clientThread S o fd t).served = ((handleClient S o fd).run.run t).2.served := by
  have hclosed : ∀ t' : Thread, (if 0 ≤ fd then { t' with closes := t'.closes + 1 } else t').sent = t'.sent ∧
      (if 0 ≤ fd then { t' with closes := t'.closes + 1 } else t').served = t'.served := by
    intro t'
    split
    · exact ⟨rfl, rfl⟩
    · exact ⟨rfl, rfl⟩
  unfold clientThread
  rcases (handleClient S o fd).run.run t with ⟨e | _ | _, t'⟩
  · exact hclosed t'
  · exact ⟨rfl, rfl⟩
  · exact hclosed t'

theorem clientThread_once (S : Server) (o : Outside) {fd : Int} (net : List Bytes) (sends : List Nat)
    (hfd : 0 ≤ fd) (hno : ¬ (Upgraded S o net sends ∧ serveThrows o = true)) :
    (clientThread S o fd { net, sends }).closes = 1 := by
  have hhands := hands_client (S := S) (o := o) (t := { net, sends }) hfd
  unfold clientThread
  rcases hrun : (handleClient S o fd).run.run { net, sends } with ⟨r, t'⟩
  rw [hrun] at hhands
  rcases hhands with ⟨_, hr, hc⟩ | ⟨_, hr, hc⟩ | ⟨hyes, _⟩
  · cases hr
    exact hc
  · have hone : (if 0 ≤ fd then { t' with closes := t'.closes + 1 } else t').closes = 1 := by
      rw [if_pos hfd]
      exact congrArg (· + 1) hc
    rcases hr with hr | ⟨e, hr⟩
    · cases hr
      exact hone
    · cases hr
      exact hone
  · exact absurd hyes hno

/-- **Every plain request gets its answer.** For every request that a client may write, however its bytes
    are cut, whatever calls throw and wherever `send` stops: if it does not go on into the handshake, nobody
    is served, the descriptor is closed once, and what has been sent is a front of the one answer to that
    request. Its reader takes the whole answer and finds in it the status, the type and the body; it takes
    no part of it for an answer. And where no call throws and no `send` fails, all of it is sent. -/
theorem plain_answered (S : Server) (o : Outside) (fd : Int) (hfd : 0 ≤ fd) (r : RequestText)
    (hlen : r.render.length ≤ kMaxHead) (net : List Bytes) (hcut : Cuts 1024 r.render net) (sends : List Nat)
    (reply : PlainReply) (hreply : plainReply S o r = some reply) :
    (clientThread S o fd { net, sends }).served = none ∧ (clientThread S o fd { net, sends }).closes = 1 ∧
      (clientThread S o fd { net, sends }).sent <+: reply.text ∧
      readAnswer (clientThread S o fd { net, sends }).sent =
        (if (clientThread S o fd { net, sends }).sent = reply.text then some reply.answer else none) ∧
      ((∀ site, o.throws site = none) → Flows sends →
        (clientThread S o fd { net, sends }).sent = reply.text) := by
  have hno : ¬ (Upgraded S o net sends ∧ serveThrows o = true) := fun h =>
    not_upgraded hlen hcut hreply sends h.1
  have hclient : Says o reply.text { net, sends } ((handleClient S o fd).run.run { net, sends }).2 :=
    says_client hlen hcut hreply
  have hcloses := clientThread_once S o net sends hfd hno
  obtain ⟨hsent, hserved⟩ := clientThread_keeps S o fd { net, sends }
  obtain ⟨x, hx, hfront, hall⟩ := hclient.front
  rw [List.nil_append] at hx
  rw [hsent, hserved, hx]
  exact ⟨hclient.served, hcloses, hfront, readAnswer_front (plainReply_plain hreply) hfront, hall⟩

/-- `GET /key?v=1`, to a client that takes everything, and to one that is gone after 90 bytes. -/
theorem plain_answered_key :
    readAnswer (clientThread sampleServer { b64Decode := b64Groups } 7
        { net := byBytes keyRequest.render, sends := [1, 1] }).sent =
      some { status := ascii "200", contentType := ascii "application/json", body := keyBody sampleServer } ∧
    readAnswer (clientThread sampleServer { b64Decode := b64Groups } 7
        { net := byBytes keyRequest.render, sends := [90, 0] }).sent = none := by
  have hreply : plainReply sampleServer { b64Decode := b64Groups } keyRequest =
      some { status := 200, statusText := ascii "OK", contentType := ascii "application/json"
             body := keyBody sampleServer } := by decide +kernel
  have hrun (sends : List Nat) := plain_answered sampleServer { b64Decode := b64Groups } 7 (by decide) keyRequest
    (by decide +kernel) _ (byBytes_cuts (by decide) _) sends _ hreply
  obtain ⟨_, _, _, hread, hall⟩ := hrun [1, 1]
  obtain ⟨_, _, _, hread', _⟩ := hrun [90, 0]
  have hcut : ¬ (clientThread sampleServer { b64Decode := b64Groups } 7
      { net := byBytes keyRequest.render, sends := [90, 0] }).sent =
      httpResponse 200 (ascii "OK") (ascii "application/json") (keyBody sampleServer) := by decide +kernel
  refine ⟨?_, hread'.trans (if_neg hcut)⟩
  have hstatus : decimal 200 = ascii "200" := by decide
  rw [hread, if_pos (hall (fun _ => rfl) (by unfold Flows; decide)), PlainReply.answer, hstatus]

end Wirebone
