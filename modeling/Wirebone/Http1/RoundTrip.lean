/-
  File:      Wirebone/Http1/RoundTrip.lean
  Subject:   A REQUEST THAT A CLIENT WRITES IS READ AS IT WAS WRITTEN.

  The text of a request is its first line and one line for each header, each ended by `CR LF`, and
  an empty line. The reader looks for the end of all of it first, then cuts it at the `LF`s, and
  takes the `CR`s off:

  * `RequestText` -- a request as a client may write it: words without spaces, names without colons;
  * `findText_joinLines` -- the end of the last line is the first blank line;
  * `getlines_joinLines` -- the lines come out as they went in;
  * `parseHead_render` -- so do the words of the first line and the headers, the newest first;
  * **`request_roundTrip`** -- all of it, however the stream is cut.
-/
import Mathlib.Data.Bool.AllAny
import Wirebone.Http1.Segments

namespace Wirebone

open ByteString Socket

/-! ## 1. The text of a request -/

/-- A header line: the name, the blanks behind the colon, the value. -/
structure HeaderText where
  name : Bytes
  pad : Bytes
  value : Bytes
  name_ok : ∀ c ∈ name, c ≠ 58 ∧ c ≠ 13 ∧ c ≠ 10
  pad_ok : ∀ c ∈ pad, c = 32 ∨ c = 9
  value_ok : ∀ c ∈ value, c ≠ 13 ∧ c ≠ 10
  value_head : value.head? ≠ some 32 ∧ value.head? ≠ some 9

/-- **A request as a client may write it.** -/
structure RequestText where
  method : Bytes
  target : Bytes
  headers : List HeaderText
  method_ne : method ≠ []
  method_ok : ∀ c ∈ method, isspace c = false
  target_ne : target ≠ []
  target_ok : ∀ c ∈ target, isspace c = false

def HeaderText.line (h : HeaderText) : Bytes := h.name ++ 58 :: (h.pad ++ h.value)

def RequestText.firstLine (r : RequestText) : Bytes :=
  r.method ++ 32 :: (r.target ++ ascii " HTTP/1.1")

/-- `METHOD SP TARGET SP HTTP/1.1 CRLF (name: value CRLF)* CRLF`. -/
def RequestText.render (r : RequestText) : Bytes :=
  r.firstLine ++ ascii "\r\n" ++ (r.headers.flatMap fun h => h.line ++ ascii "\r\n") ++ ascii "\r\n"

/-- The value of the last header with that name, up to the case of its letters. -/
def RequestText.lastValue (r : RequestText) (name : Bytes) : Bytes :=
  match (r.headers.filter fun h => lower h.name = lower name).getLast? with
  | some h => h.value
  | none => []

/-- The two sides of the first `?`. -/
def SplitAtQuery (target path query : Bytes) : Prop :=
  (63 ∉ target ∧ path = target ∧ query = []) ∨ (63 ∉ path ∧ target = path ++ 63 :: query)

/-! ## 2. The blank line -/

/-- The lines without the end of the last one. -/
def joinLines (lines : List Bytes) : Bytes := [13, 10].intercalate lines

/-- A line of the head: it is not empty, and has no end of line inside. -/
structure PlainLine (line : Bytes) : Prop where
  ne : line ≠ []
  cr : 13 ∉ line
  lf : 10 ∉ line

theorem PlainLine.of_forall {line : Bytes} (hne : line ≠ []) (h : ∀ c ∈ line, c ≠ 13 ∧ c ≠ 10) :
    PlainLine line :=
  ⟨hne, fun hcr => (h 13 hcr).1 rfl, fun hlf => (h 10 hlf).2 rfl⟩

section Lines

variable {line next : Bytes} {lines : List Bytes}

theorem joinLines_cons (line next : Bytes) (lines : List Bytes) :
    joinLines (line :: next :: lines) = line ++ (13 :: 10 :: joinLines (next :: lines)) := by
  rw [joinLines, List.intercalate_cons_cons, List.append_assoc]
  rfl

theorem joinLines_end (line : Bytes) (lines : List Bytes) :
    joinLines (line :: lines) ++ [13, 10] = line ++ [13, 10] ++ (lines.flatMap (· ++ [13, 10])) := by
  induction lines generalizing line with
  | nil => simp [joinLines]
  | cons next lines ih =>
    rw [joinLines_cons, List.append_assoc, List.cons_append, List.cons_append, ih next]
    simp

/-- An end of line with no `CR` behind it is not the blank line. -/
theorem findText_crlf (s : Bytes) (h : s.head? ≠ some 13) :
    findText kHeadEnd (13 :: 10 :: s) = (findText kHeadEnd s).map (· + 2) := by
  have hfirst : ¬ kHeadEnd.isPrefixOf (13 :: 10 :: s) = true := by
    intro hp
    obtain ⟨tail, htail⟩ := List.isPrefixOf_iff_prefix.mp hp
    have hs : 13 :: 10 :: tail = s := congrArg (List.drop 2) htail
    rw [← hs] at h
    exact h rfl
  have hsecond : ¬ kHeadEnd.isPrefixOf (10 :: s) = true := by
    intro hp
    obtain ⟨tail, htail⟩ := List.isPrefixOf_iff_prefix.mp hp
    have hhead : kHeadEnd.head? = some 10 := congrArg List.head? htail
    cases hhead
  rw [findText, if_neg hfirst, findText, if_neg hsecond, Option.map_map]
  rfl

/-- The next line does not start with a `CR`. -/
theorem joinLines_head (lines : List Bytes) (s : Bytes) (h : PlainLine line) :
    (joinLines (line :: lines) ++ s).head? ≠ some 13 := by
  cases line with
  | nil => exact absurd rfl h.ne
  | cons b line =>
    rw [joinLines, List.intercalate_cons_cons_left, List.cons_append, List.head?_cons]
    intro hb
    cases hb
    exact h.cr List.mem_cons_self

/-- **The end of the last line is the first blank line.** -/
theorem findText_joinLines (line : Bytes) (lines : List Bytes) (h : ∀ l ∈ line :: lines, PlainLine l) :
    findText kHeadEnd (joinLines (line :: lines) ++ kHeadEnd) = some (joinLines (line :: lines)).length := by
  induction lines generalizing line with
  | nil =>
    have hline := findText_headEnd line [] (h line List.mem_cons_self).cr
    rw [List.append_nil] at hline
    rw [joinLines, List.intercalate_singleton]
    exact hline
  | cons next lines ih =>
    have hnext := ih next fun l hl => h l (List.mem_cons_of_mem _ hl)
    have hhead := joinLines_head lines kHeadEnd (h next (List.mem_cons_of_mem _ List.mem_cons_self))
    rw [joinLines_cons, List.append_assoc, findText_plain _ _ (h line List.mem_cons_self).cr,
      List.cons_append, List.cons_append, findText_crlf _ hhead, hnext]
    simp only [Option.map_some, Option.some.injEq, List.length_append, List.length_cons]
    omega

/-! ## 3. The lines -/

theorem dropCr_plain (h : 13 ∉ line) : dropCr line = line := by
  unfold dropCr
  rw [if_neg]
  intro hlast
  exact h (List.mem_of_getLast? hlast)

theorem dropCr_end (line : Bytes) : dropCr (line ++ [13]) = line := by
  unfold dropCr
  rw [if_pos (List.getLast?_concat ..), List.dropLast_concat]

theorem splitOn_joinLines (line : Bytes) (lines : List Bytes) (h : ∀ l ∈ line :: lines, PlainLine l) :
    ((joinLines (line :: lines)).splitOn 10).map dropCr = line :: lines := by
  induction lines generalizing line with
  | nil =>
    have hline := h line List.mem_cons_self
    rw [joinLines, List.intercalate_singleton, List.splitOn_eq_singleton hline.lf, List.map_cons,
      dropCr_plain hline.cr, List.map_nil]
  | cons next lines ih =>
    have hline : (10 : UInt8) ∉ line ++ [13] := by
      intro hmem
      rcases List.mem_append.mp hmem with hmem | hmem
      · exact (h line List.mem_cons_self).lf hmem
      · exact absurd (List.mem_singleton.mp hmem) (by decide)
    rw [joinLines_cons, List.append_cons, List.splitOn_append_cons_self_of_not_mem hline, List.map_cons,
      dropCr_end, ih next fun l hl => h l (List.mem_cons_of_mem _ hl)]

/-- **The lines come out as they went in**, once their `CR`s are off. -/
theorem getlines_joinLines (line : Bytes) (lines : List Bytes) (h : ∀ l ∈ line :: lines, PlainLine l) :
    (getlines (joinLines (line :: lines))).map dropCr = line :: lines := by
  have hsplit := splitOn_joinLines line lines h
  have hlast : ((joinLines (line :: lines)).splitOn 10).getLast? ≠ some [] := by
    intro hnil
    have hempty : (line :: lines).getLast? = some [] := by
      rw [← hsplit, List.getLast?_map, hnil]
      rfl
    exact (h [] (List.mem_of_getLast? hempty)).ne rfl
  unfold getlines
  simp only [if_neg hlast]
  exact hsplit

end Lines

/-! ## 4. Words and headers -/

section Words

variable {s word rest name : Bytes} {b : UInt8} {i : Nat}

/-- **A word**, behind blanks and in front of one. -/
theorem nextWord_word (pad : Bytes) (hpad : ∀ c ∈ pad, isspace c = true) (hne : word ≠ [])
    (hword : ∀ c ∈ word, isspace c = false) (hb : isspace b = true) : nextWord (pad ++ (word ++ b :: rest)) = (word, b :: rest) := by
  have hdrop : (pad ++ (word ++ b :: rest)).dropWhile isspace = word ++ b :: rest := by
    rw [List.dropWhile_append_of_pos hpad]
    cases word with
    | nil => exact absurd rfl hne
    | cons c word => rw [List.cons_append, List.dropWhile_cons_of_neg (by simp [hword])]
  have hnot : ∀ c ∈ word, (!isspace c) = true := by
    intro c hc
    rw [hword c hc]
    rfl
  have hstop : ¬ (!isspace b) = true := by
    rw [hb]
    decide
  have htake : (b :: rest).takeWhile (!isspace ·) = [] := List.takeWhile_cons_of_neg hstop
  have hleft : (b :: rest).dropWhile (!isspace ·) = b :: rest := List.dropWhile_cons_of_neg hstop
  unfold nextWord
  simp only [hdrop]
  rw [List.takeWhile_append_of_pos hnot, List.dropWhile_append_of_pos hnot, htake, hleft, List.append_nil]

/-- The first place of a byte that is not in front of it. -/
theorem idxOf?_append_cons (h : b ∉ name) (rest : Bytes) :
    (name ++ b :: rest).idxOf? b = some name.length := by
  induction name with
  | nil => simp [List.idxOf?_cons]
  | cons c name ih =>
    have hc : ¬ (c == b) = true := by
      intro hcb
      rw [beq_iff_eq.mp hcb] at h
      exact h List.mem_cons_self
    rw [List.cons_append, List.idxOf?_cons, if_neg hc, ih fun hmem => h (List.mem_cons_of_mem _ hmem)]
    rfl

/-- The two sides of the first place. -/
theorem idxOf?_sides (h : s.idxOf? b = some i) : b ∉ s.take i ∧ s = s.take i ++ b :: s.drop (i + 1) := by
  obtain ⟨hi, hat, hfirst⟩ := List.idxOf?_eq_some_iff.mp h
  constructor
  · intro hmem
    obtain ⟨j, hj, hget⟩ := List.mem_take_iff_getElem.mp hmem
    exact hfirst j (by omega) hget
  · rw [← hat, ← List.drop_eq_getElem_cons hi, List.take_append_drop]

/-- **What the loop over the header lines makes of a header**: the name in small letters, and the
    value without the blanks in front of it. -/
theorem addHeader_line (h : HeaderText) {line : Bytes} (hline : dropCr line = h.line)
    (headers : List (Bytes × Bytes)) : addHeader headers line = (lower h.name, h.value) :: headers := by
  have hcolon : h.line.idxOf? 58 = some h.name.length :=
    idxOf?_append_cons (fun hmem => (h.name_ok 58 hmem).1 rfl) _
  have hname : h.line.take h.name.length = h.name := List.take_left
  have hrest : h.line.drop (h.name.length + 1) = h.pad ++ h.value := by
    rw [HeaderText.line, List.append_cons]
    exact List.drop_left' (by rw [List.length_append, List.length_singleton])
  have hvalue : (h.pad ++ h.value).dropWhile (fun c => decide (c = 32 ∨ c = 9)) = h.value := by
    rw [List.dropWhile_append_of_pos fun c hc => decide_eq_true (h.pad_ok c hc)]
    cases hv : h.value with
    | nil => rfl
    | cons c value =>
      obtain ⟨hspace, htab⟩ := h.value_head
      rw [hv] at hspace htab
      refine List.dropWhile_cons_of_neg ?_
      simp only [decide_eq_true_eq]
      intro hc
      rcases hc with rfl | rfl
      · exact hspace rfl
      · exact htab rfl
  unfold addHeader
  simp only [hline, hcolon, hname, hrest, hvalue]

/-- All of them: the last comes first. -/
theorem foldl_addHeader (headers : List HeaderText) (lines : List Bytes) (acc : List (Bytes × Bytes))
    (h : lines.map dropCr = headers.map HeaderText.line) :
    lines.foldl addHeader acc = (headers.map fun h => (lower h.name, h.value)).reverse ++ acc := by
  induction headers generalizing lines acc with
  | nil =>
    rw [List.map_nil, List.map_eq_nil_iff] at h
    rw [h]
    rfl
  | cons first headers ih =>
    cases lines with
    | nil => cases h
    | cons line lines =>
      rw [List.map_cons, List.map_cons, List.cons.injEq] at h
      rw [List.foldl_cons, addHeader_line first h.1, ih _ _ h.2, List.map_cons, List.reverse_cons,
        List.append_assoc]
      rfl

end Words

/-! ## 5. The request -/

namespace RequestText

/-- The lines of a request. -/
def lines (r : RequestText) : List Bytes := r.firstLine :: r.headers.map HeaderText.line

/-- A request in front of its blank line. -/
theorem render_eq (r : RequestText) : r.render = joinLines r.lines ++ kHeadEnd := by
  have hend : kHeadEnd = [13, 10] ++ [13, 10] := rfl
  have hcrlf : ascii "\r\n" = [13, 10] := rfl
  rw [render, hcrlf, hend, ← List.append_assoc, lines, joinLines_end, List.flatMap_map]

end RequestText

/-- What is no blank ends no line. -/
theorem isspace_false {c : UInt8} (h : isspace c = false) : c ≠ 13 ∧ c ≠ 10 := by
  constructor
  · intro hcr
    rw [hcr] at h
    cases h
  · intro hlf
    rw [hlf] at h
    cases h

theorem RequestText.firstLine_plain (r : RequestText) : PlainLine r.firstLine := by
  refine .of_forall (fun hnil => r.method_ne (List.append_eq_nil_iff.mp hnil).1) fun c hc => ?_
  have hversion : ∀ c ∈ ascii " HTTP/1.1", c ≠ 13 ∧ c ≠ 10 := List.all_iff_forall_prop.mp (by decide)
  rcases List.mem_append.mp hc with hc | hc
  · exact isspace_false (r.method_ok c hc)
  · rcases List.mem_cons.mp hc with rfl | hc
    · decide
    · rcases List.mem_append.mp hc with hc | hc
      · exact isspace_false (r.target_ok c hc)
      · exact hversion c hc

theorem HeaderText.line_plain (h : HeaderText) : PlainLine h.line := by
  refine .of_forall (fun hnil => List.cons_ne_nil _ _ (List.append_eq_nil_iff.mp hnil).2) fun c hc => ?_
  rcases List.mem_append.mp hc with hc | hc
  · exact (h.name_ok c hc).2
  · rcases List.mem_cons.mp hc with rfl | hc
    · decide
    · rcases List.mem_append.mp hc with hc | hc
      · rcases h.pad_ok c hc with rfl | rfl
        · decide
        · decide
      · exact h.value_ok c hc

namespace RequestText

theorem lines_plain (r : RequestText) : ∀ l ∈ r.lines, PlainLine l := by
  intro l hl
  rcases List.mem_cons.mp hl with rfl | hl
  · exact r.firstLine_plain
  · obtain ⟨h, _, rfl⟩ := List.mem_map.mp hl
    exact h.line_plain

/-- **The head of a request is read as it was written**, with the headers in the order of the map. -/
theorem parseHead_render (r : RequestText) :
    ∃ req, parseHead (joinLines r.lines) = some req ∧ req.method = r.method ∧ req.target = r.target ∧
      SplitAtQuery r.target req.path req.query ∧
      req.headers = (r.headers.map fun h => (lower h.name, h.value)).reverse := by
  have hlines : (getlines (joinLines r.lines)).map dropCr = r.firstLine :: r.headers.map HeaderText.line :=
    getlines_joinLines _ _ r.lines_plain
  unfold parseHead
  cases hget : getlines (joinLines r.lines) with
  | nil =>
    rw [hget] at hlines
    cases hlines
  | cons first lines =>
    rw [hget, List.map_cons, List.cons.injEq] at hlines
    have hmethod : nextWord (dropCr first) = (r.method, 32 :: (r.target ++ ascii " HTTP/1.1")) := by
      rw [hlines.1]
      exact nextWord_word [] (by simp) r.method_ne r.method_ok rfl
    have htarget : nextWord (32 :: (r.target ++ ascii " HTTP/1.1")) = (r.target, ascii " HTTP/1.1") :=
      nextWord_word [32] (List.forall_mem_singleton.mpr rfl) r.target_ne r.target_ok rfl
    have hheaders := foldl_addHeader r.headers lines [] hlines.2
    rw [List.append_nil] at hheaders
    simp only [hmethod, htarget, hheaders]
    refine ⟨_, rfl, rfl, rfl, ?_, rfl⟩
    cases hq : r.target.idxOf? 63 with
    | none => exact .inl ⟨List.idxOf?_eq_none_iff.mp hq, rfl, rfl⟩
    | some q => exact .inr (idxOf?_sides hq)

/-- The last header of that name is the first in the map. -/
theorem headerGet_last (r : RequestText) {req : HttpRequest}
    (h : req.headers = (r.headers.map fun h => (lower h.name, h.value)).reverse) (name : Bytes) :
    headerGet req name = r.lastValue name := by
  unfold headerGet lastValue
  rw [h, ← List.map_reverse, List.find?_map, ← List.head?_reverse, ← List.filter_reverse, List.head?_filter]
  -- the same search on both sides
  have hsame : ((fun p : Bytes × Bytes => decide (p.1 = lower name)) ∘
      fun h : HeaderText => (lower h.name, h.value)) = fun h => decide (lower h.name = lower name) := rfl
  rw [hsame]
  cases r.headers.reverse.find? fun h => decide (lower h.name = lower name) with
  | none => rfl
  | some h => rfl

end RequestText

/-- **A request is read as it was written**, however the stream is cut. -/
theorem request_roundTrip (r : RequestText) (hlen : r.render.length ≤ kMaxHead) {net : List Bytes}
    (hcut : Cuts 1024 r.render net) :
    ∃ req, requestOf net = some req ∧ req.method = r.method ∧ req.target = r.target ∧
      SplitAtQuery r.target req.path req.query ∧ ∀ name, headerGet req name = r.lastValue name := by
  have hfind : findText kHeadEnd r.render = some (joinLines r.lines).length := by
    rw [r.render_eq]
    exact findText_joinLines _ _ r.lines_plain
  have hread := requestOf_arrives (Nat.le_refl 1024) hcut hfind
    (Nat.le_trans (findText_le hfind) hlen) (.inr hlen)
  have hhead : r.render.take (joinLines r.lines).length = joinLines r.lines := by
    rw [r.render_eq, List.take_left]
  obtain ⟨req, hparse, hmethod, htarget, hquery, hheaders⟩ := r.parseHead_render
  rw [hhead, hparse] at hread
  exact ⟨req, hread, hmethod, htarget, hquery, r.headerGet_last hheaders⟩

/-- `GET /key?v=1 HTTP/1.1`, with a header that comes twice. -/
def keyRequest : RequestText where
  method := ascii "GET"
  target := ascii "/key?v=1"
  headers :=
    [ { name := ascii "Upgrade"
        pad := ascii " "
        value := ascii "none"
        name_ok := List.all_iff_forall_prop.mp (by decide)
        pad_ok := List.all_iff_forall_prop.mp (by decide)
        value_ok := List.all_iff_forall_prop.mp (by decide)
        value_head := by decide },
      { name := ascii "upgrade"
        pad := ascii " \t"
        value := ascii "tailscale-control-protocol"
        name_ok := List.all_iff_forall_prop.mp (by decide)
        pad_ok := List.all_iff_forall_prop.mp (by decide)
        value_ok := List.all_iff_forall_prop.mp (by decide)
        value_head := by decide } ]
  method_ne := by decide
  method_ok := List.all_iff_forall_prop.mp (by decide)
  target_ne := by decide
  target_ok := List.all_iff_forall_prop.mp (by decide)

theorem request_roundTrip_key :
    ∃ req, requestOf (byBytes keyRequest.render) = some req ∧ req.method = ascii "GET" ∧
      req.target = ascii "/key?v=1" ∧ SplitAtQuery (ascii "/key?v=1") req.path req.query ∧
      headerGet req (ascii "UPGRADE") = ascii "tailscale-control-protocol" := by
  obtain ⟨req, hread, hmethod, htarget, hquery, hheaders⟩ :=
    request_roundTrip keyRequest (by decide +kernel) (byBytes_cuts (by decide) _)
  refine ⟨req, hread, hmethod, htarget, hquery, ?_⟩
  rw [hheaders]
  decide +kernel

end Wirebone
