/-
  File:      Wirebone/Http1/Segments.lean
  Subject:   WHETHER A REQUEST DEPENDS ON HOW TCP HAS CUT IT.

  The loop looks for the blank line in all it has, and compares the size of all it has with 64 KiB,
  after every `recv`. The bytes behind the blank line count, and how many of them have come along
  with it depends on the cut:

  * `Cuts` -- the ways to deliver a stream, in answers of 1 to 1024 bytes;
  * `readHead_outcome` -- every cut gives the head in front of the first blank line, or nothing;
  * `readHead_arrives`, `readHead_refused` -- a cut that is fine enough succeeds, a coarse one at the
    limit does not;
  * **`segmentation_agrees_iff`** -- the streams whose request does not depend on the cut.
-/
import Wirebone.Http1

namespace Wirebone

open ByteString Socket

/-! ## 1. Cuts -/

/-- **The answers to `recv` deliver the stream `s`**, in pieces of 1 to `m` bytes. -/
structure Cuts (m : Nat) (s : Bytes) (net : List Bytes) : Prop where
  stream : net.flatten = s
  pieces : ∀ seg ∈ net, 1 ≤ seg.length ∧ seg.length ≤ m

/-- The request of a stream that has been cut so; `none` where `read_http_request` returns `false`. -/
def requestOf (net : List Bytes) : Option HttpRequest := (readHttpRequest net).1.map (·.1)

/-- A byte at a time. -/
def byBytes (s : Bytes) : List Bytes := s.map ([·])

section Cuts

variable {m fuel i : Nat} {s buf head extra : Bytes} {net net' : List Bytes}

theorem byBytes_flatten (s : Bytes) : (byBytes s).flatten = s := by
  induction s with
  | nil => rfl
  | cons b s ih =>
    rw [byBytes, List.map_cons, List.flatten_cons]
    exact congrArg (b :: ·) ih

theorem byBytes_pieces {seg : Bytes} (h : seg ∈ byBytes s) : seg.length = 1 := by
  obtain ⟨b, _, rfl⟩ := List.mem_map.mp h
  rfl

theorem byBytes_cuts (hm : 1 ≤ m) (s : Bytes) : Cuts m s (byBytes s) := by
  refine ⟨byBytes_flatten s, fun seg hseg => ?_⟩
  have hlen := byBytes_pieces hseg
  omega

/-- A piece of at most 1024 bytes is one answer. -/
theorem recv_piece {seg : Bytes} (h : seg.length ≤ 1024) (net : List Bytes) :
    recv 1024 (seg :: net) = (seg, net) := recv_short (by omega)

/-! ## 2. The loop -/

/-- **Every cut gives the head in front of the first blank line, or nothing.** -/
theorem readHead_outcome (h : readHead fuel buf net = (some (head, extra), net'))
    (hbuf : buf.length ≤ kMaxHead) :
    ∃ i, findText kHeadEnd (buf ++ net.flatten) = some i ∧ head = (buf ++ net.flatten).take i ∧
      i + 4 ≤ kMaxHead := by
  induction fuel generalizing buf net with
  | zero => cases h
  | succ fuel ih =>
    rcases readHead_round h with ⟨i, hfind, hr, rfl⟩ | ⟨got, net₁, hflat, hlen, hread⟩
    · cases hr
      have hle : i + 4 ≤ buf.length := findText_le hfind
      refine ⟨i, (findText_append_iff _ hle).mpr hfind, ?_, by omega⟩
      rw [List.take_append_of_le_length (by omega)]
    · obtain ⟨i, hi, hhead, hmax⟩ := ih hread hlen
      rw [List.append_assoc, hflat] at hi hhead
      exact ⟨i, hi, hhead, hmax⟩

/-- **A cut into pieces of at most `m` bytes succeeds** where the blank line ends so far in front of
    the limit that a piece does not reach past it, or the whole stream stays below the limit. -/
theorem readHead_arrives (fuel : Nat) (buf : Bytes) (hm : m ≤ 1024)
    (hnet : ∀ seg ∈ net, 1 ≤ seg.length ∧ seg.length ≤ m)
    (hfind : findText kHeadEnd (buf ++ net.flatten) = some i)
    (hlimit : i + 3 + m ≤ kMaxHead ∨ (buf ++ net.flatten).length ≤ kMaxHead)
    (hfuel : i + 4 < fuel + buf.length) (hpos : 1 ≤ fuel) :
    ∃ extra net', readHead fuel buf net = (some ((buf ++ net.flatten).take i, extra), net') := by
  induction fuel generalizing buf net with
  | zero => omega
  | succ fuel ih =>
    have hpart : findText kHeadEnd buf = if i + 4 ≤ buf.length then some i else none := findText_part hfind
    by_cases hle : i + 4 ≤ buf.length
    · rw [if_pos hle] at hpart
      rw [readHead, hpart, List.take_append_of_le_length (by omega)]
      exact ⟨_, _, rfl⟩
    · rw [if_neg hle] at hpart
      have htotal : i + 4 ≤ (buf ++ net.flatten).length := findText_le hfind
      cases net with
      | nil =>
        rw [List.flatten_nil, List.append_nil] at htotal
        exact absurd htotal hle
      | cons seg net =>
        obtain ⟨hone, hseg⟩ := hnet seg List.mem_cons_self
        have hrest : ∀ x ∈ net, 1 ≤ x.length ∧ x.length ≤ m := fun x hx => hnet x (List.mem_cons_of_mem _ hx)
        rw [List.flatten_cons, ← List.append_assoc] at hfind hlimit ⊢
        have hsmall : ¬ kMaxHead < (buf ++ seg).length := by
          simp only [List.length_append] at hlimit ⊢
          omega
        rw [readHead, hpart, recv_piece (by omega)]
        cases seg with
        | nil => exact absurd hone (by decide)
        | cons b got =>
          simp only [if_neg hsmall]
          refine ih _ hrest hfind hlimit ?_ (by omega)
          simp only [List.length_append, List.length_cons]
          omega

/-- A byte at a time, up to the end of the blank line: one call for each. -/
theorem readHead_byBytes (pre rest : Bytes) (hfind : findText kHeadEnd (buf ++ pre ++ rest) = some i)
    (hshort : (buf ++ pre).length < i + 4) (hmax : (buf ++ pre).length ≤ kMaxHead) :
    readHead (fuel + pre.length) buf (byBytes pre ++ net) = readHead fuel (buf ++ pre) net := by
  induction pre generalizing buf with
  | nil => simp [byBytes]
  | cons b pre ih =>
    have hcons : buf ++ b :: pre = buf ++ [b] ++ pre := List.append_cons buf b pre
    rw [hcons] at hfind hshort hmax ⊢
    have hpart : findText kHeadEnd buf = none := by
      have hsplit := hfind
      rw [List.append_assoc, List.append_assoc] at hsplit
      rw [findText_part hsplit, if_neg]
      simp only [List.length_append] at hshort
      show ¬ i + 4 ≤ buf.length
      omega
    have hsmall : ¬ kMaxHead < (buf ++ [b]).length := by
      simp only [List.length_append] at hmax ⊢
      omega
    rw [← ih hfind hshort hmax, List.length_cons, ← Nat.add_assoc, readHead, hpart, byBytes, List.map_cons,
      List.cons_append, recv_piece (by simp)]
    simp only [if_neg hsmall]
    rfl

/-- **A piece that reaches past the limit is refused**, whatever is in front of the limit. -/
theorem readHead_refused {seg : Bytes} (hnone : findText kHeadEnd buf = none) (hseg : seg.length ≤ 1024)
    (hlong : kMaxHead < (buf ++ seg).length) : (readHead (fuel + 1) buf (seg :: net)).1 = none := by
  rw [readHead, hnone, recv_piece hseg]
  cases seg with
  | nil => rfl
  | cons b got => simp only [if_pos hlong]

end Cuts

/-! ## 3. Which requests depend on the cut -/

section Requests

variable {m i : Nat} {s head : Bytes} {net : List Bytes}

/-- A head that is not empty has a first line. -/
theorem parseHead_isSome (h : head ≠ []) : (parseHead head).isSome = true := by
  have hlines : getlines head ≠ [] := by
    intro hnil
    have hsplit := List.splitOn_ne_nil (10 : UInt8) head
    have hjoin : [10].intercalate (head.splitOn 10) = head := List.intercalate_splitOn (10 : UInt8)
    unfold getlines at hnil
    generalize head.splitOn 10 = lines at hnil hsplit hjoin
    by_cases hlast : lines.getLast? = some []
    · simp only [if_pos hlast] at hnil
      have hone : lines = [[]] := by
        have hconcat := List.dropLast_append_getLast? [] hlast
        rw [hnil] at hconcat
        exact hconcat.symm
      rw [hone] at hjoin
      exact h hjoin.symm
    · simp only [if_neg hlast] at hnil
      exact hsplit hnil
  unfold parseHead
  cases hg : getlines head with
  | nil => exact absurd hg hlines
  | cons first lines => rfl

theorem requestOf_some {req : HttpRequest} (h : requestOf net = some req) :
    ∃ i, findText kHeadEnd net.flatten = some i ∧ parseHead (net.flatten.take i) = some req ∧
      i + 4 ≤ kMaxHead := by
  unfold requestOf readHttpRequest at h
  rcases hr : readHead (kMaxHead + 1) [] net with ⟨_ | ⟨head, extra⟩, net'⟩
  · rw [hr] at h
    cases h
  · rw [hr] at h
    obtain ⟨i, hi, hhead, hmax⟩ := readHead_outcome hr (Nat.zero_le _)
    rw [List.nil_append] at hi hhead
    simp only [Option.map_map] at h
    obtain ⟨req', hreq, rfl⟩ := Option.map_eq_some_iff.mp h
    exact ⟨i, hi, hhead ▸ hreq, hmax⟩

/-- **The request of a cut that is fine enough.** -/
theorem requestOf_arrives (hm : m ≤ 1024) (hcut : Cuts m s net) (hfind : findText kHeadEnd s = some i)
    (hmax : i + 4 ≤ kMaxHead) (hlimit : i + 3 + m ≤ kMaxHead ∨ s.length ≤ kMaxHead) :
    requestOf net = parseHead (s.take i) := by
  have hstream := hcut.stream
  have hnil : [] ++ net.flatten = s := by rw [List.nil_append, hstream]
  obtain ⟨extra, net', hr⟩ := readHead_arrives (kMaxHead + 1) [] hm hcut.pieces
    (by rw [hnil]; exact hfind) (by rw [hnil]; exact hlimit) (by simp only [List.length_nil]; omega) (by omega)
  rw [hnil] at hr
  unfold requestOf readHttpRequest
  rw [hr]
  simp only [Option.map_map]
  cases parseHead (s.take i) with
  | none => rfl
  | some req => rfl

/-- The cut that has 64513 bytes one by one and then 1024 at once. -/
def coarseCut (s : Bytes) : List Bytes :=
  byBytes (s.take (kMaxHead - 1023)) ++
    ((s.drop (kMaxHead - 1023)).take 1024 :: byBytes (s.drop (kMaxHead + 1)))

theorem coarseCut_cuts (hlen : kMaxHead < s.length) : Cuts 1024 s (coarseCut s) := by
  refine ⟨?_, fun seg hseg => ?_⟩
  · have hmid : (s.drop (kMaxHead - 1023)).take 1024 ++ s.drop (kMaxHead + 1) = s.drop (kMaxHead - 1023) := by
      have hsplit := List.take_append_drop 1024 (s.drop (kMaxHead - 1023))
      rw [List.drop_drop] at hsplit
      exact hsplit
    rw [coarseCut, List.flatten_append, List.flatten_cons, byBytes_flatten, byBytes_flatten, hmid,
      List.take_append_drop]
  · rcases List.mem_append.mp hseg with hseg | hseg
    · exact ((byBytes_cuts (by decide) _).pieces seg hseg)
    · rcases List.mem_cons.mp hseg with rfl | hseg
      · rw [List.length_take, List.length_drop]
        unfold kMaxHead at hlen ⊢
        omega
      · exact ((byBytes_cuts (by decide) _).pieces seg hseg)

/-- At the limit this cut is refused. -/
theorem requestOf_coarse (hfind : findText kHeadEnd s = some i) (hlow : kMaxHead - 1022 ≤ i + 4)
    (hlen : kMaxHead < s.length) : requestOf (coarseCut s) = none := by
  have htake : (s.take (kMaxHead - 1023)).length = kMaxHead - 1023 := by
    rw [List.length_take]
    omega
  have hfind' : findText kHeadEnd ([] ++ s.take (kMaxHead - 1023) ++ s.drop (kMaxHead - 1023)) = some i := by
    rw [List.nil_append, List.take_append_drop]
    exact hfind
  have hshort : ([] ++ s.take (kMaxHead - 1023)).length < i + 4 := by
    rw [List.nil_append, htake]
    unfold kMaxHead at hlow ⊢
    omega
  have hmax : ([] ++ s.take (kMaxHead - 1023)).length ≤ kMaxHead := by
    rw [List.nil_append, htake]
    exact Nat.sub_le _ _
  have hnone : findText kHeadEnd (s.take (kMaxHead - 1023)) = none := by
    have hpart := findText_part hfind'
    rw [show kHeadEnd.length = 4 from rfl, if_neg (Nat.not_le_of_lt hshort)] at hpart
    exact hpart
  have hseg : ((s.drop (kMaxHead - 1023)).take 1024).length = 1024 := by
    rw [List.length_take, List.length_drop]
    unfold kMaxHead at hlen ⊢
    omega
  have hread : (readHead (kMaxHead + 1) [] (coarseCut s)).1 = none := by
    have hfuel : kMaxHead + 1 = 1023 + 1 + (s.take (kMaxHead - 1023)).length := by
      rw [htake]
      unfold kMaxHead
      omega
    rw [hfuel, coarseCut, readHead_byBytes _ _ hfind' hshort hmax, List.nil_append]
    refine readHead_refused hnone (Nat.le_of_eq hseg) ?_
    rw [List.length_append, htake, hseg]
    unfold kMaxHead
    omega
  unfold requestOf readHttpRequest
  rcases hr : readHead (kMaxHead + 1) [] (coarseCut s) with ⟨_ | ⟨head, extra⟩, net'⟩
  · rfl
  · rw [hr] at hread
    cases hread

/-- A byte at a time the request comes through wherever the blank line ends in front of the limit. -/
theorem requestOf_byBytes (hfind : findText kHeadEnd s = some i) (hmax : i + 4 ≤ kMaxHead) :
    requestOf (byBytes s) = parseHead (s.take i) :=
  requestOf_arrives (by decide) (byBytes_cuts (Nat.le_refl 1) s) hfind hmax (.inl (by omega))

/-- **The streams whose request depends on the cut**: the first blank line ends at one of the last
    1023 bytes in front of the limit, and the stream goes past the limit. -/
def cutMatters (s : Bytes) : Bool :=
  match findText kHeadEnd s with
  | none => false
  | some i => decide (kMaxHead - 1022 ≤ i + 4 ∧ i + 4 ≤ kMaxHead ∧ kMaxHead < s.length)

theorem cutMatters_iff : cutMatters s = true ↔
    ∃ i, findText kHeadEnd s = some i ∧ kMaxHead - 1022 ≤ i + 4 ∧ i + 4 ≤ kMaxHead ∧ kMaxHead < s.length := by
  unfold cutMatters
  cases hfind : findText kHeadEnd s with
  | none => simp
  | some i => simp

/-- The two cuts of such a stream. -/
theorem requestOf_differ (h : cutMatters s = true) :
    (requestOf (byBytes s)).isSome = true ∧ requestOf (coarseCut s) = none := by
  obtain ⟨i, hfind, hlow, hmax, hlen⟩ := cutMatters_iff.mp h
  refine ⟨?_, requestOf_coarse hfind hlow hlen⟩
  rw [requestOf_byBytes hfind hmax]
  refine parseHead_isSome fun hnil => ?_
  have hhead := congrArg List.length hnil
  rw [List.length_take, List.length_nil] at hhead
  unfold kMaxHead at hlow hlen
  omega

/-- Without a blank line in front of the limit there is no request. -/
theorem requestOf_none (h : ∀ i, findText kHeadEnd net.flatten = some i → kMaxHead < i + 4) :
    requestOf net = none := by
  cases hreq : requestOf net with
  | none => rfl
  | some req =>
    obtain ⟨i, hi, _, hmax⟩ := requestOf_some hreq
    exact absurd (h i hi) (Nat.not_lt_of_le hmax)

/-- Any other stream gives one request, or none. -/
theorem requestOf_same (h : cutMatters s = false) (hcut : Cuts 1024 s net) :
    requestOf net = requestOf (byBytes s) := by
  by_cases hin : ∃ i, findText kHeadEnd s = some i ∧ i + 4 ≤ kMaxHead
  · obtain ⟨i, hfind, hmax⟩ := hin
    rw [requestOf_byBytes hfind hmax]
    refine requestOf_arrives (Nat.le_refl 1024) hcut hfind hmax ?_
    by_contra hfar
    have hmatters : cutMatters s = true := by
      refine cutMatters_iff.mpr ⟨i, hfind, ?_, hmax, ?_⟩
      · omega
      · omega
    rw [h] at hmatters
    cases hmatters
  · have hno : ∀ i, findText kHeadEnd s = some i → kMaxHead < i + 4 := by
      intro i hfind
      by_contra hmax
      exact hin ⟨i, hfind, Nat.le_of_not_lt hmax⟩
    rw [requestOf_none (hcut.stream ▸ hno), requestOf_none ((byBytes_flatten s).symm ▸ hno)]

end Requests

/-- **A request does not depend on how the stream is cut**, exactly where its first blank line does
    not end within 1023 bytes in front of the limit with more than the limit sent. -/
theorem segmentation_agrees_iff (s : Bytes) :
    (∀ net net', Cuts 1024 s net → Cuts 1024 s net' → requestOf net = requestOf net') ↔
      cutMatters s = false := by
  constructor
  · intro h
    cases hc : cutMatters s with
    | false => rfl
    | true =>
      obtain ⟨hsome, hnone⟩ := requestOf_differ hc
      obtain ⟨_, _, _, _, hlen⟩ := cutMatters_iff.mp hc
      rw [h _ _ (byBytes_cuts (by decide) s) (coarseCut_cuts hlen), hnone] at hsome
      cases hsome
  · intro h net net' hcut hcut'
    rw [requestOf_same h hcut, requestOf_same h hcut']

/-- A first line of `n` bytes, the blank line, and `k` bytes behind it. -/
def longStream (n k : Nat) : Bytes := List.replicate n 97 ++ (kHeadEnd ++ List.replicate k 97)

theorem longStream_length (n k : Nat) : (longStream n k).length = n + 4 + k := by
  have hend : kHeadEnd.length = 4 := rfl
  rw [longStream, List.length_append, List.length_append, List.length_replicate, List.length_replicate, hend]
  omega

theorem cutMatters_longStream {n k : Nat} (hlow : kMaxHead - 1022 ≤ n + 4) (hmax : n + 4 ≤ kMaxHead)
    (hlen : kMaxHead < n + 4 + k) : cutMatters (longStream n k) = true := by
  have hfind : findText kHeadEnd (longStream n k) = some n := by
    have h := findText_headEnd (List.replicate n 97) (List.replicate k 97)
      (fun h => absurd (List.eq_of_mem_replicate h) (by decide))
    rw [List.length_replicate] at h
    exact h
  refine cutMatters_iff.mpr ⟨n, hfind, hlow, hmax, ?_⟩
  rw [longStream_length]
  exact hlen

/-- **One stream, two cuts**: a byte at a time it is a request; with 1024 bytes at once it is refused. -/
theorem segmentation_differs :
    Cuts 1024 (longStream 64510 1023) (byBytes (longStream 64510 1023)) ∧
      Cuts 1024 (longStream 64510 1023) (coarseCut (longStream 64510 1023)) ∧
      (requestOf (byBytes (longStream 64510 1023))).isSome = true ∧
      requestOf (coarseCut (longStream 64510 1023)) = none := by
  refine ⟨byBytes_cuts (by decide) _, coarseCut_cuts ?_, requestOf_differ (cutMatters_longStream ?_ ?_ ?_)⟩
  · rw [longStream_length]
    decide
  · decide
  · decide
  · decide

end Wirebone
