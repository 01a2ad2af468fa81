/-
  File:      Wirebone/Dns/Basic.lean
  Subject:   dns.cpp: a question parsed, looked up in the registry and answered.

  * `parseQname` -- a name on the wire, with compression pointers; the loop runs 16 times at most,
    once for every label, pointer and the root;
  * `answer` -- the response to a datagram, `none` where there is none;
  * `readRrs` -- the answer section of a response, as a client reads it;
  * **`readRrs_encode`** -- the records of a response read back.
-/
import Wirebone.Store.Basic

namespace Wirebone

open ByteString

/-! ## 1. The wire -/

def byteAt (b : Bytes) (i : Nat) : UInt8 := b.getD i 0

/-- `(b[i] << 8) | b[i + 1]`. -/
def wordAt (b : Bytes) (i : Nat) : Nat := (byteAt b i).toNat * 256 + (byteAt b (i + 1)).toNat

def kTypeA : Nat := 1
def kTypeAAAA : Nat := 28
def kTypeAny : Nat := 255
def kClassIN : Nat := 1

def put16 (v : Nat) : Bytes := bigEndian 2 v
def put32 (v : Nat) : Bytes := bigEndian 4 v

/-- `name` without the dot that ends it. -/
def popDot (name : Bytes) : Bytes := if name.getLast? = some 46 then name.dropLast else name

/-- The loop of `parse_qname`: the offset after the name, and the name. The first argument is what
    is left of the 16 rounds; `stop` is `end`, where the name ends in front of the first pointer. -/
def parseQname (msg : Bytes) : Nat → Nat → Bool → Nat → Bytes → Option (Nat × Bytes)
  | 0, _, _, _, _ => none
  | hops + 1, off, jumped, stop, name =>
    if off ≥ msg.length then none
    else
      let lab := byteAt msg off
      if lab = 0 then some (if jumped then stop else off + 1, popDot name)
      else if lab &&& 0xc0 = 0xc0 then
        if off + 1 ≥ msg.length then none
        else
          let ptr := (lab &&& 0x3f).toNat * 256 + (byteAt msg (off + 1)).toNat
          parseQname msg hops ptr true (if jumped then stop else off + 2) name
      else
        let off := off + 1
        if off + lab.toNat > msg.length then none
        else
          parseQname msg hops (off + lab.toNat) jumped stop
            (name ++ (msg.drop off).take lab.toNat ++ [46])

/-- `std::tolower` in the C locale. -/
def toLower (c : UInt8) : UInt8 := if 65 ≤ c ∧ c ≤ 90 then c + 32 else c

def lowerCopy (s : Bytes) : Bytes := s.map toLower

/-! ## 2. The answer -/

/-- A resource record, as `add_rr` is given it. -/
structure DnsRr where
  type : Nat
  data : Bytes
  deriving DecidableEq

/-- The lambda `add_rr`. -/
def DnsRr.encode (rr : DnsRr) : Bytes :=
  [0xc0, 0x0c] ++ put16 rr.type ++ put16 kClassIN ++ put32 30 ++ put16 rr.data.length ++ rr.data

/-- The name a node has in the registry. -/
def dnsHost (n : NodeState) : Bytes :=
  lowerCopy (if n.hostname = [] then ascii "node-" ++ n.stableId else n.hostname)

/-- The test of the loop over the nodes; `domain` is in lower case. -/
def dnsMatches (domain want : Bytes) (n : NodeState) : Bool :=
  let host := dnsHost n
  let fqdn := host ++ ascii "." ++ domain
  want = host || want = fqdn || want = fqdn ++ ascii "."

/-- The records of a node that is found. -/
def answerRecords (I : Inet) (n : NodeState) (qtype : Nat) : List DnsRr :=
  (if (qtype = kTypeA ∨ qtype = kTypeAny) ∧ n.ipv4 ≠ [] then
    match I.pton4 n.ipv4 with
    | some a4 => [{ type := kTypeA, data := bigEndian 4 a4.toNat }]
    | none => []
  else []) ++
  (if (qtype = kTypeAAAA ∨ qtype = kTypeAny) ∧ n.ipv6 ≠ [] then
    match I.pton6 n.ipv6 with
    | some a6 => [{ type := kTypeAAAA, data := a6.val }]
    | none => []
  else [])

/-- The response: the header, the question as it came, and the records. -/
def dnsResponse (q : Bytes) (off : Nat) (found : Bool) (rrs : List DnsRr) : Bytes :=
  [byteAt q 0, byteAt q 1, 0x81, if found then 0x80 else 0x83, byteAt q 4, byteAt q 5] ++
    put16 rrs.length ++ [0, 0, 0, 0] ++ (q.take off).drop 12 ++ rrs.flatMap (·.encode)

def answer (I : Inet) (nodes : List NodeState) (domain q : Bytes) : Option Bytes :=
  if q.length < 12 then none
  else if (wordAt q 2).testBit 15 then none
  else if wordAt q 4 < 1 then none
  else
    match parseQname q 16 12 false 12 [] with
    | none => none
    | some (off, qname) =>
      if off + 4 > q.length then none
      else
        let qtype := wordAt q off
        let off := off + 4
        match nodes.find? (dnsMatches (lowerCopy domain) (lowerCopy qname)) with
        | none => some (dnsResponse q off false [])
        | some n => some (dnsResponse q off true (answerRecords I n qtype))

/-! ## 3. A client -/

/-- A name in its plain encoding: every label behind its length, and the root. -/
def encodeName (labels : List Bytes) : Bytes :=
  labels.flatMap (fun l => UInt8.ofNat l.length :: l) ++ [0]

/-- A question with one name. -/
structure DnsQuery where
  header : Bytes
  labels : List Bytes
  qtype : Nat
  qclass : Nat := 1
  header_length : header.length = 12
  /-- The `QR` bit is not set. -/
  query : byteAt header 2 < 128
  one : wordAt header 4 = 1

def DnsQuery.encode (q : DnsQuery) : Bytes :=
  q.header ++ encodeName q.labels ++ put16 q.qtype ++ put16 q.qclass

/-- Where the question ends. -/
def DnsQuery.questionEnd (q : DnsQuery) : Nat := 12 + (encodeName q.labels).length + 4

def rcode (resp : Bytes) : Nat := (byteAt resp 3).toNat % 16

/-- One record of the answer section, and the rest of it. -/
def readRr : Bytes → Option (DnsRr × Bytes)
  | _ :: _ :: t1 :: t0 :: _ :: _ :: _ :: _ :: _ :: _ :: l1 :: l0 :: rest =>
    let len := l1.toNat * 256 + l0.toNat
    if rest.length < len then none
    else some ({ type := t1.toNat * 256 + t0.toNat, data := rest.take len }, rest.drop len)
  | _ => none

/-- So many records, and nothing after them. -/
def readRrs : Nat → Bytes → Option (List DnsRr)
  | 0, b => if b = [] then some [] else none
  | n + 1, b => do
    let (rr, rest) ← readRr b
    let rrs ← readRrs n rest
    return rr :: rrs

/-- The answer section of the response to `q`. -/
def DnsQuery.answers (q : DnsQuery) (resp : Bytes) : Option (List DnsRr) :=
  readRrs (wordAt resp 6) (resp.drop q.questionEnd)

/-! ## 4. Names -/

section Names

theorem byteAt_append_length (pre : Bytes) (b : UInt8) (post : Bytes) :
    byteAt (pre ++ b :: post) pre.length = b := by
  simp [byteAt]

/-- A label of 1 to 63 bytes. -/
def goodLabel (l : Bytes) : Bool := decide (0 < l.length ∧ l.length ≤ 63)

/-- The dot at the end is taken off: what is left are the labels with dots between them. -/
theorem popDot_labels {labels : List Bytes} (h : labels ≠ []) :
    popDot (labels.flatMap (· ++ [46])) = [46].intercalate labels := by
  have hjoin : labels.flatMap (· ++ [46]) = [46].intercalate labels ++ [46] := by
    induction labels with
    | nil => exact absurd rfl h
    | cons l ls ih =>
      cases ls with
      | nil => simp [List.intercalate]
      | cons l' ls =>
        rw [List.flatMap_cons, ih (by simp)]
        simp [List.intercalate]
  rw [popDot, hjoin, List.getLast?_concat, if_pos rfl, List.dropLast_concat]

theorem lowerCopy_intercalate (labels : List Bytes) :
    lowerCopy ([46].intercalate labels) = [46].intercalate (labels.map lowerCopy) := by
  induction labels with
  | nil => rfl
  | cons l ls ih =>
    cases ls with
    | nil => simp [List.intercalate]
    | cons l' ls =>
      have hdot : toLower 46 = 46 := by decide
      simp only [lowerCopy, List.intercalate, List.map_cons, List.intersperse_cons_cons, List.flatten_cons,
        List.map_append] at ih ⊢
      rw [ih]
      simp [hdot]

end Names

/-! ## 5. Records -/

section Records

theorem bigEndian_two (v : Nat) : bigEndian 2 v = [UInt8.ofNat (v / 256), UInt8.ofNat v] := rfl

theorem word_bigEndian {v : Nat} (h : v < 65536) :
    (UInt8.ofNat (v / 256)).toNat * 256 + (UInt8.ofNat v).toNat = v := by
  rw [UInt8.toNat_ofNat', UInt8.toNat_ofNat']
  omega

theorem byteAt_left {b c : Bytes} {i : Nat} (h : i < b.length) : byteAt (b ++ c) i = byteAt b i := by
  rw [byteAt, byteAt, List.getD_eq_getElem?_getD, List.getD_eq_getElem?_getD, List.getElem?_append_left h]

theorem wordAt_left {b c : Bytes} {i : Nat} (h : i + 1 < b.length) : wordAt (b ++ c) i = wordAt b i := by
  rw [wordAt, wordAt, byteAt_left (by omega), byteAt_left h]

theorem wordAt_put16 (pre post : Bytes) {v : Nat} (h : v < 65536) :
    wordAt (pre ++ (put16 v ++ post)) pre.length = v := by
  have hone : byteAt (pre ++ (put16 v ++ post)) (pre.length + 1) = UInt8.ofNat v := by
    rw [put16, bigEndian_two, List.cons_append, List.append_cons]
    have hlen : pre.length + 1 = (pre ++ [UInt8.ofNat (v / 256)]).length := by simp
    rw [hlen]
    exact byteAt_append_length _ _ _
  have hzero : byteAt (pre ++ (put16 v ++ post)) pre.length = UInt8.ofNat (v / 256) :=
    byteAt_append_length _ _ _
  rw [wordAt, hone, hzero, word_bigEndian h]

/-- A record a client can read: its type and its length are 16-bit numbers. -/
structure DnsRr.Sized (rr : DnsRr) : Prop where
  type : rr.type < 65536
  data : rr.data.length < 65536

theorem readRr_encode {rr : DnsRr} (h : rr.Sized) (rest : Bytes) :
    readRr (rr.encode ++ rest) = some (rr, rest) := by
  have hbytes : rr.encode ++ rest =
      0xc0 :: 0x0c :: UInt8.ofNat (rr.type / 256) :: UInt8.ofNat rr.type :: 0 :: 1 :: 0 :: 0 :: 0 :: 30 ::
        UInt8.ofNat (rr.data.length / 256) :: UInt8.ofNat rr.data.length :: (rr.data ++ rest) := by
    simp only [DnsRr.encode, put16, put32, bigEndian_two, kClassIN]
    simp [bigEndian]
  have hlong : ¬ (rr.data ++ rest).length < rr.data.length := by
    rw [List.length_append]
    omega
  rw [hbytes]
  simp only [readRr, word_bigEndian h.type, word_bigEndian h.data, if_neg hlong, List.take_left,
    List.drop_left]

/-- **The records of a response read back.** -/
theorem readRrs_encode {rrs : List DnsRr} (h : ∀ rr ∈ rrs, rr.Sized) :
    readRrs rrs.length (rrs.flatMap (·.encode)) = some rrs := by
  induction rrs with
  | nil => rfl
  | cons rr rrs ih =>
    simp only [List.length_cons, readRrs, List.flatMap_cons, readRr_encode (h rr List.mem_cons_self),
      ih fun r hr => h r (List.mem_cons_of_mem _ hr), Option.bind_eq_bind, Option.bind_some,
      Option.pure_def]

end Records

end Wirebone
