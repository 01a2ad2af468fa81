/-
  File:      Wirebone/Lib/Socket.lean
  Subject:   A STREAM SOCKET AS ITS CALLER SEES IT.

  What a connected stream socket does to a program is decided by the other side and the network:

  * the incoming side is a list of SEGMENTS; one `recv` answers with the next segment, or with as
    many of its bytes as were asked for, and an empty segment (or the end of the list) is an
    answer `≤ 0`: an error, or the end of the stream. Every sequence of answers is a list of
    segments, and every way to cut a byte stream is one whose segments are non-empty;
  * the outgoing side is a SCRIPT of counts; one `send` moves as many bytes as the next count
    admits, `0` is a failure, and past the script every `send` moves all it is given.

  `recvAll` and `sendAll` are the loops "until `n` bytes have moved" that every user of such a
  socket writes; `recvAll_some` says what a successful receive took on any socket,
  `recvAll_flatten` and `sendAll_flows` what the loops do on a socket that does not fail.
-/
import Mathlib.Data.List.Basic

namespace Socket

variable {β : Type*}

/-! ## 1. Receiving -/

/-- One `recv` of at most `n` bytes. The answer `[]` stands for a result `≤ 0`. -/
def recv (n : Nat) : List (List β) → List β × List (List β)
  | [] => ([], [])
  | seg :: net => if n < seg.length then (seg.take n, seg.drop n :: net) else (seg, net)

/-- `recv` until `left` bytes have come; `none` as soon as one answer is `≤ 0`. The first
    argument bounds the number of calls (each moves a byte). -/
def recvLoop : Nat → Nat → List (List β) → Option (List β) × List (List β)
  | _, 0, net => (some [], net)
  | 0, _ + 1, net => (none, net)
  | fuel + 1, left + 1, net =>
    match recv (left + 1) net with
    | ([], net') => (none, net')
    | (b :: bs, net') =>
      match recvLoop fuel (left + 1 - (b :: bs).length) net' with
      | (some rest, net'') => (some (b :: bs ++ rest), net'')
      | (none, net'') => (none, net'')

/-- `recv` until `n` bytes have come. -/
def recvAll (n : Nat) (net : List (List β)) : Option (List β) × List (List β) := recvLoop n n net

/-- The network delivers: no answer is `≤ 0` while bytes are left. -/
def Delivers (net : List (List β)) : Prop := ∀ seg ∈ net, seg ≠ []

theorem recv_long {n : Nat} {seg : List β} {net : List (List β)} (h : n < seg.length) :
    recv n (seg :: net) = (seg.take n, seg.drop n :: net) := if_pos h

theorem recv_short {n : Nat} {seg : List β} {net : List (List β)} (h : ¬ n < seg.length) :
    recv n (seg :: net) = (seg, net) := if_neg h

theorem recv_flatten {n : Nat} (net : List (List β)) :
    (recv n net).1 ++ (recv n net).2.flatten = net.flatten := by
  cases net with
  | nil => rfl
  | cons seg net =>
    by_cases h : n < seg.length
    · rw [recv_long h]
      simp only [List.flatten_cons, ← List.append_assoc, List.take_append_drop]
    · rw [recv_short h, List.flatten_cons]

theorem recv_length_le {n : Nat} (net : List (List β)) : (recv n net).1.length ≤ n := by
  cases net with
  | nil => exact Nat.zero_le _
  | cons seg net =>
    by_cases h : n < seg.length
    · rw [recv_long h]
      exact List.length_take_le n seg
    · rw [recv_short h]
      exact Nat.le_of_not_lt h

theorem recv_delivers {n : Nat} {net : List (List β)} (h : Delivers net) :
    Delivers (recv n net).2 := by
  cases net with
  | nil => exact h
  | cons seg net =>
    have hnet : Delivers net := fun s hs => h s (List.mem_cons_of_mem _ hs)
    by_cases hlt : n < seg.length
    · rw [recv_long hlt]
      intro s hs
      rcases List.mem_cons.mp hs with rfl | hs
      · simpa using hlt
      · exact hnet s hs
    · rw [recv_short hlt]
      exact hnet

theorem recv_ne_nil {n : Nat} {net : List (List β)} (h : Delivers net) (hn : 0 < n)
    (hne : net.flatten ≠ []) : (recv n net).1 ≠ [] := by
  cases net with
  | nil => exact absurd rfl hne
  | cons seg net =>
    have hseg := h seg List.mem_cons_self
    by_cases hlt : n < seg.length
    · rw [recv_long hlt, ← List.length_pos_iff, List.length_take]
      omega
    · rw [recv_short hlt]
      exact hseg

/-- On a network that delivers, the loop returns the next `left` bytes of the stream, however
    the stream is cut. -/
theorem recvLoop_flatten {fuel left : Nat} {net : List (List β)} (h : Delivers net)
    (hf : left ≤ fuel) (hl : left ≤ net.flatten.length) :
    (recvLoop fuel left net).1 = some (net.flatten.take left) ∧
      (recvLoop fuel left net).2.flatten = net.flatten.drop left ∧
      Delivers (recvLoop fuel left net).2 := by
  induction fuel generalizing left net with
  | zero =>
    obtain rfl : left = 0 := by omega
    exact ⟨by simp [recvLoop], by simp [recvLoop], h⟩
  | succ fuel ih =>
    cases left with
    | zero => exact ⟨by simp [recvLoop], by simp [recvLoop], h⟩
    | succ left =>
      have hne : net.flatten ≠ [] := by
        rw [← List.length_pos_iff]
        omega
      have hflat := recv_flatten (n := left + 1) net
      have hlen := recv_length_le (n := left + 1) net
      have hdel := recv_delivers (n := left + 1) h
      have hnn := recv_ne_nil h (Nat.succ_pos left) hne
      unfold recvLoop
      generalize recv (left + 1) net = r at hflat hlen hdel hnn
      obtain ⟨got, net'⟩ := r
      cases got with
      | nil => exact absurd rfl hnn
      | cons b bs =>
        simp only at hflat hlen hdel ⊢
        simp only [← hflat, List.length_append, List.length_cons] at hl hlen
        obtain ⟨h1, h2, h3⟩ := @ih (left + 1 - (b :: bs).length) net' hdel
          (by simp only [List.length_cons]; omega) (by simp only [List.length_cons]; omega)
        split
        · rename_i rest net'' heq
          rw [heq] at h1 h2 h3
          obtain rfl := Option.some.inj h1
          simp only at h2 h3 ⊢
          have hlen' : (b :: bs).length ≤ left + 1 := hlen
          rw [← hflat, List.take_append, List.drop_append, List.take_of_length_le hlen',
            List.drop_of_length_le hlen', List.nil_append]
          exact ⟨rfl, h2, h3⟩
        · rename_i net'' heq
          rw [heq] at h1
          cases h1

/-- **Receiving does not depend on how the stream is cut.** -/
theorem recvAll_flatten {n : Nat} {net : List (List β)} (h : Delivers net)
    (hl : n ≤ net.flatten.length) :
    (recvAll n net).1 = some (net.flatten.take n) ∧
      (recvAll n net).2.flatten = net.flatten.drop n ∧ Delivers (recvAll n net).2 :=
  recvLoop_flatten h (Nat.le_refl n) hl

/-- What a successful loop took from the stream, on any network. -/
theorem recvLoop_some {fuel left : Nat} {net net' : List (List β)} {bs : List β}
    (h : recvLoop fuel left net = (some bs, net')) :
    bs.length = left ∧ net.flatten = bs ++ net'.flatten := by
  induction fuel generalizing left net bs with
  | zero =>
    cases left with
    | zero =>
      cases h
      exact ⟨rfl, rfl⟩
    | succ left => cases h
  | succ fuel ih =>
    cases left with
    | zero =>
      cases h
      exact ⟨rfl, rfl⟩
    | succ left =>
      have hflat := recv_flatten (n := left + 1) net
      have hlen := recv_length_le (n := left + 1) net
      unfold recvLoop at h
      generalize recv (left + 1) net = r at hflat hlen h
      obtain ⟨got, net₁⟩ := r
      cases got with
      | nil => cases h
      | cons b bs₁ =>
        simp only at h hflat hlen
        split at h
        · rename_i rest net₂ heq
          cases h
          obtain ⟨hl, hf⟩ := ih heq
          refine ⟨?_, ?_⟩
          · simp only [List.length_append, hl]
            omega
          · rw [← hflat, hf, List.append_assoc]
        · cases h

theorem recvAll_some {n : Nat} {net net' : List (List β)} {bs : List β}
    (h : recvAll n net = (some bs, net')) : bs.length = n ∧ net.flatten = bs ++ net'.flatten :=
  recvLoop_some h

/-! ## 2. Sending -/

/-- One `send` of `n` bytes: how many moved (`0`: it failed), and the rest of the script. -/
def send (n : Nat) : List Nat → Nat × List Nat
  | [] => (n, [])
  | w :: ws => (min w n, ws)

/-- `send` until `buf` has gone; the flag is `false` as soon as one call fails. Returns the bytes
    put on the wire too. The first argument bounds the number of calls. -/
def sendLoop : Nat → List β → List Nat → Bool × List β × List Nat
  | _, [], script => (true, [], script)
  | 0, _ :: _, script => (false, [], script)
  | fuel + 1, b :: buf, script =>
    match send (b :: buf).length script with
    | (0, script') => (false, [], script')
    | (w + 1, script') =>
      match sendLoop fuel ((b :: buf).drop (w + 1)) script' with
      | (ok, out, script'') => (ok, (b :: buf).take (w + 1) ++ out, script'')

/-- `send` until all of `buf` has gone. -/
def sendAll (buf : List β) (script : List Nat) : Bool × List β × List Nat :=
  sendLoop buf.length buf script

/-- No `send` of the script fails. -/
def Flows (script : List Nat) : Prop := ∀ w ∈ script, w ≠ 0

theorem sendLoop_flows {fuel : Nat} {buf : List β} {script : List Nat} (h : Flows script)
    (hf : buf.length ≤ fuel) :
    (sendLoop fuel buf script).1 = true ∧ (sendLoop fuel buf script).2.1 = buf ∧
      Flows (sendLoop fuel buf script).2.2 := by
  induction fuel generalizing buf script with
  | zero =>
    obtain rfl : buf = [] := List.length_eq_zero_iff.mp (by omega)
    exact ⟨rfl, rfl, h⟩
  | succ fuel ih =>
    cases buf with
    | nil => exact ⟨rfl, rfl, h⟩
    | cons b buf =>
      have hs : (send (b :: buf).length script).1 ≠ 0 ∧ Flows (send (b :: buf).length script).2 := by
        cases script with
        | nil => exact ⟨by simp [send], h⟩
        | cons w ws =>
          have hw := h w List.mem_cons_self
          refine ⟨?_, fun x hx => h x (List.mem_cons_of_mem _ hx)⟩
          simp only [send, List.length_cons]
          omega
      unfold sendLoop
      generalize send (b :: buf).length script = r at hs
      obtain ⟨w, script'⟩ := r
      cases w with
      | zero => exact absurd rfl hs.1
      | succ w =>
        obtain ⟨h1, h2, h3⟩ := @ih ((b :: buf).drop (w + 1)) script' hs.2
          (by simp only [List.length_drop, List.length_cons] at hf ⊢; omega)
        refine ⟨h1, ?_, h3⟩
        simp only [h2, List.take_append_drop]

/-- **On a socket that does not fail the whole buffer goes out.** -/
theorem sendAll_flows {script : List Nat} (buf : List β) (h : Flows script) :
    ∃ script', Flows script' ∧ sendAll buf script = (true, buf, script') := by
  obtain ⟨h1, h2, h3⟩ := sendLoop_flows h (Nat.le_refl buf.length)
  exact ⟨(sendAll buf script).2.2, h3, Prod.ext h1 (Prod.ext h2 rfl)⟩

/-- **What goes out is a beginning of the buffer**, all of it exactly if no call fails. -/
theorem sendLoop_out {fuel : Nat} {buf out : List β} {script script' : List Nat} {ok : Bool}
    (hf : buf.length ≤ fuel) (h : sendLoop fuel buf script = (ok, out, script')) :
    out <+: buf ∧ (ok = true ↔ out = buf) := by
  induction fuel generalizing buf script out with
  | zero =>
    obtain rfl : buf = [] := List.length_eq_zero_iff.mp (by omega)
    cases h
    exact ⟨List.prefix_rfl, fun _ => rfl, fun _ => rfl⟩
  | succ fuel ih =>
    cases buf with
    | nil =>
      cases h
      exact ⟨List.prefix_rfl, fun _ => rfl, fun _ => rfl⟩
    | cons b buf =>
      unfold sendLoop at h
      rcases hs : send (b :: buf).length script with ⟨_ | w, script₁⟩
      · rw [hs] at h
        cases h
        exact ⟨List.nil_prefix, fun hok => (by cases hok), fun hnil => (by cases hnil)⟩
      · rw [hs] at h
        rcases hl : sendLoop fuel ((b :: buf).drop (w + 1)) script₁ with ⟨ok', out', script₂⟩
        simp only [hl] at h
        cases h
        have hlen : ((b :: buf).drop (w + 1)).length ≤ fuel := by
          simp only [List.length_drop, List.length_cons] at hf ⊢
          omega
        obtain ⟨hpre, hall⟩ := ih hlen hl
        have hsplit := List.take_append_drop (w + 1) (b :: buf)
        refine ⟨?_, ?_⟩
        · nth_rewrite 2 [← hsplit]
          exact (List.prefix_append_right_inj _).mpr hpre
        · rw [hall]
          nth_rewrite 3 [← hsplit]
          exact ⟨fun h => by rw [h], fun h => List.append_cancel_left h⟩

theorem sendAll_out {buf out : List β} {script script' : List Nat} {ok : Bool}
    (h : sendAll buf script = (ok, out, script')) : out <+: buf ∧ (ok = true ↔ out = buf) :=
  sendLoop_out (Nat.le_refl _) h

/-- Nothing goes out exactly if the first call fails. -/
theorem sendAll_nil_iff {buf out : List β} {script script' : List Nat} {ok : Bool} (hne : buf ≠ [])
    (h : sendAll buf script = (ok, out, script')) : out = [] ↔ script.head? = some 0 := by
  cases buf with
  | nil => exact absurd rfl hne
  | cons b buf =>
    unfold sendAll at h
    rw [List.length_cons, sendLoop] at h
    cases script with
    | nil =>
      simp only [send, List.length_cons] at h
      cases h
      exact ⟨fun h => (by cases h), fun h => (by cases h)⟩
    | cons w script =>
      cases w with
      | zero =>
        simp only [send, Nat.zero_min] at h
        cases h
        exact ⟨fun _ => rfl, fun _ => rfl⟩
      | succ w =>
        have hmin : min (w + 1) (b :: buf).length = min w buf.length + 1 := by
          rw [List.length_cons]
          omega
        simp only [send, hmin] at h
        cases h
        exact ⟨fun h => (by cases h), fun h => (by cases h)⟩

/-- The script behind the answers that take `n` bytes; `none` where one of them is a failure. -/
def takes : Nat → List Nat → Option (List Nat)
  | 0, script => some script
  | _ + 1, [] => some []
  | _ + 1, 0 :: _ => none
  | n + 1, (w + 1) :: script => takes (n - w) script

theorem takes_zero (script : List Nat) : takes 0 script = some script := by
  unfold takes
  rfl

theorem sendLoop_nil (fuel : Nat) (script : List Nat) :
    sendLoop fuel ([] : List β) script = (true, [], script) := by
  cases fuel with
  | zero => rfl
  | succ fuel => rfl

/-- Whether a buffer goes out is decided by its length. -/
theorem sendLoop_takes {fuel : Nat} {buf out : List β} {script script' : List Nat} {ok : Bool}
    (hf : buf.length ≤ fuel) (h : sendLoop fuel buf script = (ok, out, script')) :
    takes buf.length script = if ok then some script' else none := by
  induction fuel generalizing buf script out with
  | zero =>
    obtain rfl : buf = [] := List.length_eq_zero_iff.mp (by omega)
    cases h
    exact takes_zero _
  | succ fuel ih =>
    cases buf with
    | nil =>
      cases h
      exact takes_zero _
    | cons b buf =>
      unfold sendLoop at h
      cases script with
      | nil =>
        have hdrop : (b :: buf).drop (buf.length + 1) = [] := List.drop_length
        simp only [send, List.length_cons, hdrop, sendLoop_nil] at h
        cases h
        rfl
      | cons w script =>
        cases w with
        | zero =>
          simp only [send, Nat.zero_min] at h
          cases h
          rfl
        | succ w =>
          have hmin : min (w + 1) (b :: buf).length = min w buf.length + 1 := by
            rw [List.length_cons]
            omega
          have hlen : ((b :: buf).drop (min w buf.length + 1)).length = buf.length - w := by
            rw [List.length_drop, List.length_cons]
            omega
          rcases hl : sendLoop fuel ((b :: buf).drop (min w buf.length + 1)) script with ⟨ok', out', script₂⟩
          simp only [send, hmin, hl] at h
          cases h
          have hrest := ih (by rw [hlen]; simp only [List.length_cons] at hf; omega) hl
          rw [hlen] at hrest
          exact hrest

theorem sendAll_takes {buf out : List β} {script script' : List Nat} {ok : Bool}
    (h : sendAll buf script = (ok, out, script')) :
    takes buf.length script = if ok then some script' else none :=
  sendLoop_takes (Nat.le_refl _) h

end Socket
