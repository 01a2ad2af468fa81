/-
  File:      Wirebone/Http1.lean
  Subject:   http1.cpp: the request that opens a connection, and the plain answers.

  * `readHead` -- the receive loop up to the blank line, at most 64 KiB; `readHead_enough`: its bound
    on the number of calls is never what ends it;
  * `findText_iff` -- what `find` finds;
  * `parseHead`, `readHttpRequest` -- the request line and the headers, as the streams of the
    standard library cut them;
  * `headerGet`, `httpResponse` -- a header by its name, and the text of `write_http_response`.
-/
import Mathlib.Data.List.Basic
import Wirebone.Lib.ByteString
import Wirebone.Lib.Socket

namespace Wirebone

open ByteString Socket

/-! ## 1. Strings -/

def tolower (c : UInt8) : UInt8 := if 65 ≤ c ∧ c ≤ 90 then c + 32 else c

def lower (s : Bytes) : Bytes := s.map tolower

/-- `isspace` in the C locale. -/
def isspace (c : UInt8) : Bool := decide (c = 32 ∨ (9 ≤ c ∧ c ≤ 13))

/-- `std::string::find`. -/
def findText (text : Bytes) : Bytes → Option Nat
  | [] => if text = [] then some 0 else none
  | b :: s => if text.isPrefixOf (b :: s) then some 0 else (findText text s).map (· + 1)

/-- The lines that `std::getline` gives. After the last newline there is one more, if it is not
    empty. -/
def getlines (s : Bytes) : List Bytes :=
  let lines := s.splitOn 10
  if lines.getLast? = some [] then lines.dropLast else lines

/-- `in >> word`: the word, and what is left of the stream. -/
def nextWord (s : Bytes) : Bytes × Bytes :=
  let s := s.dropWhile isspace
  (s.takeWhile (!isspace ·), s.dropWhile (!isspace ·))

def dropCr (line : Bytes) : Bytes := if line.getLast? = some 13 then line.dropLast else line

/-! ## 2. Requests -/

structure HttpRequest where
  method : Bytes := []
  target : Bytes := []
  path : Bytes := []
  query : Bytes := []
  /-- The newest first: a header that comes again replaces the older one. -/
  headers : List (Bytes × Bytes) := []
  deriving DecidableEq

def kHeadEnd : Bytes := ascii "\r\n\r\n"

def kMaxHead : Nat := 64 * 1024

/-- The receive loop: the head and what came after it, or `none` where `read_http_request` returns
    `false`. The first argument bounds the number of calls. -/
def readHead : Nat → Bytes → List Bytes → Option (Bytes × Bytes) × List Bytes
  | 0, _, net => (none, net)
  | fuel + 1, buf, net =>
    match findText kHeadEnd buf with
    | some i => (some (buf.take i, buf.drop (i + 4)), net)
    | none =>
      match recv 1024 net with
      | ([], net') => (none, net')
      | (b :: got, net') =>
        if kMaxHead < (buf ++ b :: got).length then (none, net')
        else readHead fuel (buf ++ b :: got) net'

/-- The body of the loop over the header lines. -/
def addHeader (headers : List (Bytes × Bytes)) (line : Bytes) : List (Bytes × Bytes) :=
  let line := dropCr line
  match line.idxOf? 58 with
  | none => headers
  | some colon =>
    (lower (line.take colon), (line.drop (colon + 1)).dropWhile fun c => decide (c = 32 ∨ c = 9)) :: headers

def parseHead (head : Bytes) : Option HttpRequest :=
  match getlines head with
  | [] => none
  | first :: lines =>
    let (method, s) := nextWord (dropCr first)
    let (target, _) := nextWord s
    let (path, query) :=
      match target.idxOf? 63 with
      | none => (target, [])
      | some q => (target.take q, target.drop (q + 1))
    some { method, target, path, query, headers := lines.foldl addHeader [] }

/-- `read_http_request`: the request and `extra`, `none` where it returns `false`. -/
def readHttpRequest (net : List Bytes) : Option (HttpRequest × Bytes) × List Bytes :=
  match readHead (kMaxHead + 1) [] net with
  | (none, net') => (none, net')
  | (some (head, extra), net') => ((parseHead head).map fun req => (req, extra), net')

def headerGet (req : HttpRequest) (name : Bytes) : Bytes :=
  match req.headers.find? (·.1 = lower name) with
  | some h => h.2
  | none => []

/-- The text of `write_http_response`. -/
def httpResponse (status : Nat) (statusText contentType body : Bytes) : Bytes :=
  ascii "HTTP/1.1 " ++ decimal status ++ ascii " " ++ statusText ++ ascii "\r\nContent-Type: " ++
    contentType ++ ascii "\r\nContent-Length: " ++ decimal body.length ++
    ascii "\r\nConnection: close\r\n\r\n" ++ body

/-! ## 3. The blank line -/

section Find

variable {text s rest : Bytes} {i : Nat}

/-- **`find` gives the first place** where the text starts. -/
theorem findText_iff : findText text s = some i ↔
    i ≤ s.length ∧ text <+: s.drop i ∧ ∀ j < i, ¬ text <+: s.drop j := by
  induction s generalizing i with
  | nil =>
    unfold findText
    by_cases hnil : text = []
    · rw [if_pos hnil, Option.some.injEq, hnil]
      refine ⟨fun h => ?_, fun h => ?_⟩
      · subst h
        exact ⟨Nat.le_refl 0, List.nil_prefix, fun j hj => absurd hj (Nat.not_lt_zero j)⟩
      · exact (Nat.le_zero.mp h.1).symm
    · rw [if_neg hnil]
      refine ⟨fun h => (by cases h), fun h => ?_⟩
      rw [List.drop_nil] at h
      exact absurd (List.prefix_nil.mp h.2.1) hnil
  | cons b s ih =>
    unfold findText
    by_cases hfront : text.isPrefixOf (b :: s) = true
    · rw [if_pos hfront, Option.some.injEq]
      have hpre := List.isPrefixOf_iff_prefix.mp hfront
      refine ⟨fun h => ?_, fun h => ?_⟩
      · subst h
        exact ⟨Nat.zero_le _, hpre, fun j hj => absurd hj (Nat.not_lt_zero j)⟩
      · by_contra hne
        exact h.2.2 0 (by omega) hpre
    · rw [if_neg hfront, Option.map_eq_some_iff]
      have hpre : ¬ text <+: b :: s := fun h => hfront (List.isPrefixOf_iff_prefix.mpr h)
      constructor
      · intro h
        obtain ⟨j, hj, rfl⟩ := h
        obtain ⟨hle, hat, hfirst⟩ := ih.mp hj
        refine ⟨Nat.succ_le_succ hle, hat, fun k hk => ?_⟩
        cases k with
        | zero => exact hpre
        | succ k => exact hfirst k (Nat.lt_of_succ_lt_succ hk)
      · intro h
        obtain ⟨hle, hat, hfirst⟩ := h
        cases i with
        | zero => exact absurd hat hpre
        | succ i =>
          exact ⟨i, ih.mpr ⟨Nat.le_of_succ_le_succ hle, hat,
            fun j hj => hfirst (j + 1) (Nat.succ_lt_succ hj)⟩, rfl⟩

theorem findText_le (h : findText text s = some i) : i + text.length ≤ s.length := by
  obtain ⟨hle, hat, _⟩ := findText_iff.mp h
  have hlen := hat.length_le
  rw [List.length_drop] at hlen
  omega

/-- Bytes behind the text make no difference. -/
theorem findText_append_iff (rest : Bytes) (h : i + text.length ≤ s.length) :
    findText text (s ++ rest) = some i ↔ findText text s = some i := by
  have hpre : ∀ j ≤ i, (text <+: (s ++ rest).drop j ↔ text <+: s.drop j) := by
    intro j hj
    rw [List.drop_append_of_le_length (by omega)]
    refine ⟨fun hp => ?_, fun hp => hp.trans (List.prefix_append _ _)⟩
    refine List.prefix_of_prefix_length_le hp (List.prefix_append _ _) ?_
    rw [List.length_drop]
    omega
  rw [findText_iff, findText_iff, hpre i (Nat.le_refl i), List.length_append]
  constructor
  · intro hf
    exact ⟨by omega, hf.2.1, fun j hj hp => hf.2.2 j hj ((hpre j (Nat.le_of_lt hj)).mpr hp)⟩
  · intro hf
    exact ⟨by omega, hf.2.1, fun j hj hp => hf.2.2 j hj ((hpre j (Nat.le_of_lt hj)).mp hp)⟩

/-- The blank line is found as soon as all of it has come, and not before. -/
theorem findText_part (h : findText text (s ++ rest) = some i) :
    findText text s = if i + text.length ≤ s.length then some i else none := by
  by_cases hle : i + text.length ≤ s.length
  · rw [if_pos hle]
    exact (findText_append_iff rest hle).mp h
  · rw [if_neg hle]
    cases hs : findText text s with
    | none => rfl
    | some j =>
      have hj := findText_le hs
      have hmore := (findText_append_iff rest hj).mpr hs
      rw [h] at hmore
      cases hmore
      exact absurd hj hle

/-- The text in front, the text and the rest. -/
theorem findText_some (h : findText text s = some i) :
    s = s.take i ++ text ++ s.drop (i + text.length) := by
  obtain ⟨_, hat, _⟩ := findText_iff.mp h
  obtain ⟨rest, hrest⟩ := hat
  have hdrop : s.drop (i + text.length) = rest := by
    rw [← List.drop_drop, ← hrest, List.drop_left]
  rw [hdrop, List.append_assoc, hrest, List.take_append_drop]

/-- Bytes that are no `CR` are passed over. -/
theorem findText_plain (pre s : Bytes) (h : 13 ∉ pre) :
    findText kHeadEnd (pre ++ s) = (findText kHeadEnd s).map (· + pre.length) := by
  induction pre with
  | nil => simp
  | cons b pre ih =>
    have hb : ¬ kHeadEnd.isPrefixOf (b :: (pre ++ s)) = true := by
      intro hp
      have hhead : kHeadEnd.head? = some b := by
        obtain ⟨tail, htail⟩ := List.isPrefixOf_iff_prefix.mp hp
        exact congrArg List.head? htail
      cases hhead
      exact h List.mem_cons_self
    rw [List.cons_append, findText, if_neg hb, ih fun hmem => h (List.mem_cons_of_mem _ hmem), Option.map_map]
    rfl

/-- A blank line behind them is the first. -/
theorem findText_headEnd (pre rest : Bytes) (h : 13 ∉ pre) :
    findText kHeadEnd (pre ++ (kHeadEnd ++ rest)) = some pre.length := by
  rw [findText_plain pre _ h]
  have hzero : findText kHeadEnd (kHeadEnd ++ rest) = some 0 :=
    findText_iff.mpr ⟨Nat.zero_le _, List.prefix_append _ _, fun j hj => absurd hj (Nat.not_lt_zero j)⟩
  rw [hzero, Option.map_some, Nat.zero_add]

end Find

/-! ## 4. The receive loop -/

/-- Every call adds a byte, and the loop ends past `kMaxHead` bytes: with one call for each of them
    the bound makes no difference. -/
theorem readHead_enough {fuel : Nat} {buf : Bytes} (net : List Bytes) (more : Nat)
    (hbuf : buf.length ≤ kMaxHead) (hfuel : kMaxHead + 1 ≤ fuel + buf.length) :
    readHead (fuel + more) buf net = readHead fuel buf net := by
  induction fuel generalizing buf net with
  | zero => omega
  | succ fuel ih =>
    rw [Nat.succ_add, readHead, readHead]
    cases findText kHeadEnd buf with
    | some i => rfl
    | none =>
      rcases recv 1024 net with ⟨_ | ⟨b, got⟩, net'⟩
      · rfl
      · by_cases hlen : kMaxHead < (buf ++ b :: got).length
        · simp only [if_pos hlen]
        · simp only [if_neg hlen]
          refine ih net' (Nat.le_of_not_lt hlen) ?_
          simp only [List.length_append, List.length_cons]
          omega

/-- **One round of a successful read**: the blank line is there, or more bytes have come. -/
theorem readHead_round {fuel : Nat} {buf : Bytes} {net net' : List Bytes} {r : Bytes × Bytes}
    (h : readHead (fuel + 1) buf net = (some r, net')) :
    (∃ i, findText kHeadEnd buf = some i ∧ r = (buf.take i, buf.drop (i + 4)) ∧ net' = net) ∨
    (∃ got net₁, got ++ net₁.flatten = net.flatten ∧ (buf ++ got).length ≤ kMaxHead ∧
      readHead fuel (buf ++ got) net₁ = (some r, net')) := by
  rw [readHead] at h
  cases hfind : findText kHeadEnd buf with
  | some i =>
    rw [hfind] at h
    cases h
    exact .inl ⟨i, rfl, rfl, rfl⟩
  | none =>
    rw [hfind] at h
    have hflat := recv_flatten (n := 1024) net
    rcases hrecv : recv 1024 net with ⟨_ | ⟨b, got⟩, net₁⟩
    · rw [hrecv] at h
      cases h
    · rw [hrecv] at h hflat
      by_cases hlen : kMaxHead < (buf ++ b :: got).length
      · simp only [if_pos hlen] at h
        cases h
      · simp only [if_neg hlen] at h
        exact .inr ⟨b :: got, net₁, hflat, Nat.le_of_not_lt hlen, h⟩

/-- **What a successful read took from the stream**: the head, the blank line and `extra`. -/
theorem readHead_some {fuel : Nat} {buf head extra : Bytes} {net net' : List Bytes}
    (h : readHead fuel buf net = (some (head, extra), net')) :
    buf ++ net.flatten = head ++ kHeadEnd ++ extra ++ net'.flatten := by
  induction fuel generalizing buf net with
  | zero => cases h
  | succ fuel ih =>
    rcases readHead_round h with ⟨i, hfind, hr, rfl⟩ | ⟨got, net₁, hflat, _, hread⟩
    · cases hr
      have hcut : buf = buf.take i ++ kHeadEnd ++ buf.drop (i + 4) := findText_some hfind
      rw [← hcut]
    · rw [← ih hread, List.append_assoc, hflat]

end Wirebone
