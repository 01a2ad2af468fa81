/-
  File:      Wirebone/Dns/WellFormed.lean
  Subject:   WHETHER A RESPONSE IS WHAT ITS OWN HEADER SAYS: so many questions, so many records, and
             nothing else.

  The number of questions is copied from the query, and one question is kept. The name in it is
  copied as it came, reserved length bytes included.

  * `WireName`, `WireQuestion`, `WireRecord` -- the format;
  * `nameRest`, `questionRest`, `recordRest` -- its skippers, exact by **`skips_name`**,
    `skips_question`, `skips_record`;
  * `Spelled` -- the names as `parse_qname` takes them, and `spelled_rest`: such a name is of the
    format or nothing that starts with it is;
  * `WellFormed` -- the property, and **`response_wellFormed_iff`** -- when it holds: one question,
    with a name of the format (or addresses that read as the missing questions by chance).
-/
import Wirebone.Dns.Echo
import Wirebone.Lib.Delimited

namespace Wirebone

open ByteString Delimited

/-! ## 1. The format -/

/-- A name on the wire: labels of 1 to 63 bytes, and the root or a pointer. -/
inductive WireName : Bytes → Prop where
  | root : WireName [0]
  | pointer (hi lo : UInt8) (h : 192 ≤ hi.toNat) : WireName [hi, lo]
  | label (b : UInt8) (l rest : Bytes) (hlen : l.length = b.toNat) (hpos : 1 ≤ b.toNat)
      (h63 : b.toNat ≤ 63) (h : WireName rest) : WireName (b :: (l ++ rest))

/-- A name, the type and the class. -/
def WireQuestion (b : Bytes) : Prop :=
  ∃ name fixed : Bytes, WireName name ∧ fixed.length = 4 ∧ b = name ++ fixed

/-- A name, the type, the class and the time to live; and data behind its length. -/
def WireRecord (b : Bytes) : Prop :=
  ∃ name fixed data : Bytes, WireName name ∧ fixed.length = 8 ∧ data.length < 65536 ∧
    b = name ++ (fixed ++ (put16 data.length ++ data))

/-- What is behind a name. -/
def nameRest : Bytes → Option Bytes
  | [] => none
  | c :: b =>
    if c = 0 then some b
    else if 192 ≤ c.toNat then (if b = [] then none else some (b.drop 1))
    else if c.toNat ≤ 63 ∧ c.toNat ≤ b.length then nameRest (b.drop c.toNat)
    else none
termination_by b => b.length
decreasing_by
  simp only [List.length_drop, List.length_cons]
  omega

def questionRest (b : Bytes) : Option Bytes :=
  (nameRest b).bind fun r => if r.length < 4 then none else some (r.drop 4)

def recordRest (b : Bytes) : Option Bytes :=
  (nameRest b).bind fun r => if r.length < 10 + wordAt r 8 then none else some (r.drop (10 + wordAt r 8))

section Format

variable {b rest x : Bytes} {c hi lo : UInt8}

theorem nameRest_nil : nameRest [] = none := by rw [nameRest]

theorem nameRest_root (b : Bytes) : nameRest (0 :: b) = some b := by
  rw [nameRest, if_pos rfl]

theorem nameRest_pointer (h : 192 ≤ hi.toNat) (lo : UInt8) (b : Bytes) :
    nameRest (hi :: lo :: b) = some b := by
  rw [nameRest, if_neg (ne_zero_of_pos (by omega)), if_pos h, if_neg (List.cons_ne_nil _ _)]
  rfl

theorem nameRest_label (hpos : 1 ≤ c.toNat) (h63 : c.toNat ≤ 63) (hlen : c.toNat ≤ b.length) :
    nameRest (c :: b) = nameRest (b.drop c.toNat) := by
  rw [nameRest, if_neg (ne_zero_of_pos hpos), if_neg (by omega), if_pos ⟨h63, hlen⟩]

theorem nameRest_reserved (h64 : 64 ≤ c.toNat) (h191 : c.toNat ≤ 191) : nameRest (c :: b) = none := by
  rw [nameRest, if_neg (ne_zero_of_pos (by omega)), if_neg (by omega), if_neg (by omega)]

/-- A name of the format is taken off. -/
theorem nameRest_append (h : WireName x) (rest : Bytes) : nameRest (x ++ rest) = some rest := by
  induction h with
  | root => exact nameRest_root rest
  | pointer hi lo h => exact nameRest_pointer h lo rest
  | label b l tail hlen hpos h63 _ ih =>
    have hfit : b.toNat ≤ (l ++ tail ++ rest).length := by
      simp only [List.length_append]
      omega
    rw [List.cons_append, nameRest_label hpos h63 hfit, List.append_assoc, ← hlen, List.drop_left]
    exact ih

/-- What is taken off is a name of the format. -/
theorem wireName_of_rest (h : nameRest b = some rest) : ∃ x, WireName x ∧ b = x ++ rest := by
  induction hn : b.length using Nat.strong_induction_on generalizing b with
  | _ n ih =>
    cases b with
    | nil =>
      rw [nameRest_nil] at h
      cases h
    | cons c b =>
      by_cases h0 : c = 0
      · subst h0
        rw [nameRest_root] at h
        cases h
        exact ⟨[0], .root, rfl⟩
      have hpos : 1 ≤ c.toNat := by
        by_contra hz
        exact h0 (UInt8.toNat_inj.mp (by simpa using hz))
      by_cases hhi : 192 ≤ c.toNat
      · cases b with
        | nil =>
          rw [nameRest, if_neg h0, if_pos hhi, if_pos rfl] at h
          cases h
        | cons lo b =>
          rw [nameRest_pointer hhi] at h
          cases h
          exact ⟨[c, lo], .pointer c lo hhi, rfl⟩
      · by_cases hlab : c.toNat ≤ 63 ∧ c.toNat ≤ b.length
        · rw [nameRest_label hpos hlab.1 hlab.2] at h
          have hshort : (b.drop c.toNat).length < n := by
            rw [List.length_drop, ← hn, List.length_cons]
            omega
          obtain ⟨x, hx, hb⟩ := ih _ hshort h rfl
          have htake : (b.take c.toNat).length = c.toNat := by
            rw [List.length_take, Nat.min_eq_left hlab.2]
          refine ⟨c :: (b.take c.toNat ++ x), .label c _ x htake hpos hlab.1 hx, ?_⟩
          rw [List.cons_append, List.append_assoc, ← hb, List.take_append_drop]
        · rw [nameRest, if_neg h0, if_neg hhi, if_neg hlab] at h
          cases h

theorem skips_name : Skips WireName nameRest := by
  intro b rest
  constructor
  · exact wireName_of_rest
  · intro h
    obtain ⟨x, hx, rfl⟩ := h
    exact nameRest_append hx rest

theorem skips_question : Skips WireQuestion questionRest := by
  intro b rest
  constructor
  · intro h
    obtain ⟨r, hr, hif⟩ := Option.bind_eq_some_iff.mp h
    obtain ⟨name, hname, rfl⟩ := wireName_of_rest hr
    by_cases hshort : r.length < 4
    · rw [if_pos hshort] at hif
      cases hif
    · rw [if_neg hshort] at hif
      cases hif
      refine ⟨name ++ r.take 4, ⟨name, r.take 4, hname, ?_, rfl⟩, ?_⟩
      · rw [List.length_take, Nat.min_eq_left (Nat.le_of_not_lt hshort)]
      · rw [List.append_assoc, List.take_append_drop]
  · intro h
    obtain ⟨x, ⟨name, fixed, hname, hfixed, rfl⟩, rfl⟩ := h
    have hlong : ¬ (fixed ++ rest).length < 4 := by
      rw [List.length_append]
      omega
    rw [questionRest, List.append_assoc, nameRest_append hname, Option.bind_some, if_neg hlong,
      List.drop_left' hfixed]

theorem wordAt_lt (r : Bytes) (i : Nat) : wordAt r i < 65536 := by
  have h1 := (byteAt r i).toNat_lt
  have h2 := (byteAt r (i + 1)).toNat_lt
  unfold wordAt
  omega

/-- The length of the data, as it is written. -/
theorem put16_wordAt {r : Bytes} (h : 10 ≤ r.length) : (r.drop 8).take 2 = put16 (wordAt r 8) := by
  have h8 : r[8]? = some (byteAt r 8) := by
    have hsome : r[8]? = some r[8] := List.getElem?_eq_getElem (by omega)
    rw [byteAt_of_some hsome, hsome]
  have h9 : r[9]? = some (byteAt r 9) := by
    have hsome : r[9]? = some r[9] := List.getElem?_eq_getElem (by omega)
    rw [byteAt_of_some hsome, hsome]
  have hlo := (byteAt r 9).toNat_lt
  have hword : wordAt r 8 = (byteAt r 8).toNat * 256 + (byteAt r 9).toNat := rfl
  have hbytes : put16 (wordAt r 8) = [byteAt r 8, byteAt r 9] := by
    have hdiv : wordAt r 8 / 256 = (byteAt r 8).toNat := by
      rw [hword]
      omega
    have hmod : UInt8.ofNat (wordAt r 8) = byteAt r 9 := by
      refine UInt8.toNat_inj.mp ?_
      rw [UInt8.toNat_ofNat', hword]
      omega
    rw [put16, bigEndian_two, hdiv, hmod, UInt8.ofNat_toNat]
  rw [hbytes]
  refine List.ext_getElem? fun i => ?_
  rw [List.getElem?_take, List.getElem?_drop]
  by_cases hi : i < 2
  · rw [if_pos hi]
    interval_cases i
    · exact h8
    · exact h9
  · rw [if_neg hi, List.getElem?_eq_none (by simpa using Nat.le_of_not_lt hi)]

theorem skips_record : Skips WireRecord recordRest := by
  intro b rest
  constructor
  · intro h
    obtain ⟨r, hr, hif⟩ := Option.bind_eq_some_iff.mp h
    obtain ⟨name, hname, rfl⟩ := wireName_of_rest hr
    by_cases hshort : r.length < 10 + wordAt r 8
    · rw [if_pos hshort] at hif
      cases hif
    · rw [if_neg hshort] at hif
      cases hif
      have hword := wordAt_lt r 8
      have hdata : ((r.drop 10).take (wordAt r 8)).length = wordAt r 8 := by
        rw [List.length_take, List.length_drop]
        omega
      refine ⟨_, ⟨name, r.take 8, (r.drop 10).take (wordAt r 8), hname, ?_, by omega, rfl⟩, ?_⟩
      · rw [List.length_take]
        omega
      · have hparts : r = r.take 8 ++ ((r.drop 8).take 2 ++ ((r.drop 10).take (wordAt r 8) ++
            r.drop (10 + wordAt r 8))) := by
          rw [← List.drop_drop (l := r) (i := wordAt r 8) (j := 10), List.take_append_drop,
            ← List.drop_drop (l := r) (i := 2) (j := 8), List.take_append_drop, List.take_append_drop]
        rw [hdata, ← put16_wordAt (by omega)]
        simp only [List.append_assoc]
        rw [← hparts]
  · intro h
    obtain ⟨x, ⟨name, fixed, data, hname, hfixed, hdata, rfl⟩, rfl⟩ := h
    have hword : wordAt (fixed ++ (put16 data.length ++ (data ++ rest))) 8 = data.length := by
      rw [← hfixed]
      exact wordAt_put16 fixed (data ++ rest) hdata
    have hlong : ¬ (fixed ++ (put16 data.length ++ (data ++ rest))).length < 10 + data.length := by
      simp only [List.length_append, put16, bigEndian_length]
      omega
    have hhead : (fixed ++ (put16 data.length ++ data)).length = 10 + data.length := by
      simp only [List.length_append, put16, bigEndian_length]
      omega
    simp only [List.append_assoc]
    rw [recordRest, nameRest_append hname, Option.bind_some, hword, if_neg hlong]
    simp only [← List.append_assoc]
    rw [List.append_assoc fixed, List.drop_left' hhead]

/-- A name has a byte at least, and only the root has no more. -/
theorem nameRest_length (h : nameRest b = some rest) : rest.length < b.length := by
  obtain ⟨x, hx, rfl⟩ := wireName_of_rest h
  have hpos : 1 ≤ x.length := by
    cases hx with
    | root => exact Nat.le_refl 1
    | pointer => exact Nat.le_succ 1
    | label => exact Nat.le_add_left 1 _
  rw [List.length_append]
  omega

theorem root_of_length (h : nameRest (c :: b) = some rest) (hlen : b.length ≤ rest.length) :
    c = 0 ∧ rest = b := by
  obtain ⟨x, hx, hb⟩ := wireName_of_rest h
  have hcount := congrArg List.length hb
  rw [List.length_append, List.length_cons] at hcount
  cases hx with
  | root => exact ⟨(List.cons.inj hb).1, (List.cons.inj hb).2.symm⟩
  | pointer hi lo _ =>
    simp only [List.length_cons, List.length_nil] at hcount
    omega
  | label b' l tail hl hpos _ hx =>
    simp only [List.length_cons, List.length_append] at hcount
    omega

/-- A record has eleven bytes at least. -/
theorem recordRest_short (h : b.length < 11) : recordRest b = none := by
  unfold recordRest
  cases hr : nameRest b with
  | none => rfl
  | some r =>
    have hlen := nameRest_length hr
    rw [Option.bind_some, if_pos (by omega)]

end Format

/-! ## 2. The names that are echoed -/

/-- A name as `parse_qname` takes it up to the first pointer: a label may have 191 bytes. -/
inductive Spelled : Bytes → Prop where
  | root : Spelled [0]
  | pointer (hi lo : UInt8) (h : 192 ≤ hi.toNat) : Spelled [hi, lo]
  | label (b : UInt8) (l rest : Bytes) (hlen : l.length = b.toNat) (hpos : 1 ≤ b.toNat)
      (h191 : b.toNat ≤ 191) (h : Spelled rest) : Spelled (b :: (l ++ rest))

section Spelled

variable {msg name z : Bytes} {hops off stop : Nat} {r : Nat × Bytes}

theorem drop_of_some {b : UInt8} (h : msg[off]? = some b) : msg.drop off = b :: msg.drop (off + 1) := by
  obtain ⟨hlt, hget⟩ := List.getElem?_eq_some_iff.mp h
  rw [List.drop_eq_getElem_cons hlt, hget]

/-- The bytes of a name that is parsed, up to the offset behind it. -/
theorem spelled_of_parse (h : parseQname msg hops off false stop name = some r) :
    ∃ z rest, Spelled z ∧ msg.drop off = z ++ rest ∧ r.1 = off + z.length := by
  have hchain := reaches_of_parse h
  induction hchain generalizing stop name with
  | root hb =>
    rw [parseQname_root hb] at h
    cases h
    exact ⟨[0], _, .root, drop_of_some hb, rfl⟩
  | @pointer k off hi lo hb hhi hlo _ _ =>
    rw [parseQname_pointer hb hhi hlo] at h
    have hend : r.1 = off + 2 :=
      congrArg Prod.fst (Option.some.inj (h.symm.trans (parseQname_jumped h (off + 2))))
    refine ⟨[hi, lo], msg.drop (off + 2), .pointer hi lo hhi, ?_, hend⟩
    rw [drop_of_some hb, drop_of_some hlo]
    rfl
  | @label k off b hb hpos hlen hend _ ih =>
    rw [parseQname_label hb hpos hlen hend] at h
    obtain ⟨z, rest, hz, hmsg, hr⟩ := ih h
    have hl : ((msg.drop (off + 1)).take b.toNat).length = b.toNat := by
      rw [List.length_take, List.length_drop]
      omega
    refine ⟨_, rest, .label b _ z hl hpos hlen hz, ?_, ?_⟩
    · have hsplit := List.take_append_drop b.toNat (msg.drop (off + 1))
      rw [List.drop_drop, hmsg] at hsplit
      rw [drop_of_some hb, List.cons_append, List.append_assoc, hsplit]
    · rw [hr, List.length_cons, List.length_append, hl]
      omega

/-- **Such a name is of the format, or nothing that starts with it is.** -/
theorem spelled_rest (h : Spelled z) :
    (∀ rest, nameRest (z ++ rest) = some rest) ∨ ∀ rest, nameRest (z ++ rest) = none := by
  induction h with
  | root => exact .inl nameRest_root
  | pointer hi lo h => exact .inl (nameRest_pointer h lo)
  | label b l tail hlen hpos h191 _ ih =>
    by_cases h63 : b.toNat ≤ 63
    · have hnext : ∀ rest, nameRest (b :: (l ++ tail) ++ rest) = nameRest (tail ++ rest) := by
        intro rest
        have hfit : b.toNat ≤ (l ++ tail ++ rest).length := by
          simp only [List.length_append]
          omega
        rw [List.cons_append, nameRest_label hpos h63 hfit, List.append_assoc, ← hlen, List.drop_left]
      rcases ih with ih | ih
      · exact .inl fun rest => (hnext rest).trans (ih rest)
      · exact .inr fun rest => (hnext rest).trans (ih rest)
    · exact .inr fun rest => nameRest_reserved (by omega) h191

end Spelled

/-! ## 3. Records read as questions -/

/-- The time to live, the length and what is behind it: what a reader is left with that takes the
    front of a record for a question. -/
def ttlOn (n : UInt8) (data : Bytes) : Bytes := 0 :: 0 :: 0 :: 30 :: 0 :: n :: data

section Records

variable {n t : UInt8} {d rest : Bytes}

theorem aRecord_encode (a4 : UInt32) :
    (aRecord a4).encode = 0xc0 :: 0x0c :: 0 :: 1 :: 0 :: 1 :: ttlOn 4 (bigEndian 4 a4.toNat) := by
  have hfront : [0xc0, 0x0c] ++ put16 kTypeA ++ put16 kClassIN ++ put32 30 ++ put16 4 =
      [0xc0, 0x0c, 0, 1, 0, 1, 0, 0, 0, 30, 0, 4] := by decide
  have hlen : (bigEndian 4 a4.toNat).length = 4 := bigEndian_length 4 _
  simp only [DnsRr.encode, aRecord, hlen, hfront]
  rfl

theorem aaaaRecord_encode (a6 : In6Addr) :
    (aaaaRecord a6).encode = 0xc0 :: 0x0c :: 0 :: 28 :: 0 :: 1 :: ttlOn 16 a6.val := by
  have hfront : [0xc0, 0x0c] ++ put16 kTypeAAAA ++ put16 kClassIN ++ put32 30 ++ put16 16 =
      [0xc0, 0x0c, 0, 28, 0, 1, 0, 0, 0, 30, 0, 16] := by decide
  simp only [DnsRr.encode, aaaaRecord, a6.2, hfront]
  rfl

/-- The front of a record as a question. -/
theorem questionRest_front (t : UInt8) (data : Bytes) :
    questionRest (0xc0 :: 0x0c :: 0 :: t :: 0 :: 1 :: data) = some data := by
  rw [questionRest, nameRest_pointer (by decide), Option.bind_some, if_neg (by simp)]
  rfl

/-- The time to live and half of the length as a question. -/
theorem questionRest_ttl (n : UInt8) (data : Bytes) : questionRest (ttlOn n data) = some (n :: data) := by
  rw [questionRest, ttlOn, nameRest_root, Option.bind_some, if_neg (by simp)]
  rfl

/-- The other half and the data as a label. -/
theorem nameRest_data (hn : d.length = n.toNat) (hpos : 1 ≤ n.toNat) (h63 : n.toNat ≤ 63) (rest : Bytes) :
    nameRest (n :: (d ++ rest)) = nameRest rest := by
  have hfit : n.toNat ≤ (d ++ rest).length := by
    rw [List.length_append]
    omega
  rw [nameRest_label hpos h63 hfit, ← hn, List.drop_left]

/-- The time to live and what follows as a record: its length is in the data. -/
theorem recordRest_ttl (n : UInt8) (data : Bytes) :
    recordRest (ttlOn n data) =
      if data.length < 5 + wordAt data 3 then none else some (data.drop (5 + wordAt data 3)) := by
  have hword : wordAt (0 :: 0 :: 30 :: 0 :: n :: data) 8 = wordAt data 3 := rfl
  rw [recordRest, ttlOn, nameRest_root, Option.bind_some, hword]
  have hcount : (0 :: 0 :: 30 :: 0 :: n :: data).length = 5 + data.length := by
    simp only [List.length_cons]
    omega
  rw [hcount]
  by_cases hshort : data.length < 5 + wordAt data 3
  · rw [if_pos hshort, if_pos (by omega)]
  · rw [if_neg hshort, if_neg (by omega), show 10 + wordAt data 3 = (5 + wordAt data 3) + 5 by omega]
    rfl

theorem questionRest_nil : questionRest [] = none := by rw [questionRest, nameRest_nil]; rfl

theorem recordRest_nil : recordRest [] = none := recordRest_short (by decide)

/-- A record of `add_rr` is of the format. -/
theorem wireRecord_encode {rr : DnsRr} (h : rr.data.length < 65536) : WireRecord rr.encode := by
  refine ⟨[0xc0, 0x0c], put16 rr.type ++ put16 kClassIN ++ put32 30, rr.data, .pointer _ _ (by decide), rfl,
    h, ?_⟩
  simp [DnsRr.encode]

theorem recordRest_encode {rr : DnsRr} (h : rr.data.length < 65536) : recordRest rr.encode = some [] :=
  (skips_record _ _).mpr ⟨rr.encode, wireRecord_encode h, (List.append_nil _).symm⟩

/-- **The records of a response are so many records and nothing else.** -/
theorem skipMany_encode (rrs : List DnsRr) (h : ∀ rr ∈ rrs, rr.data.length < 65536) :
    skipMany recordRest rrs.length (rrs.flatMap (·.encode)) = some [] := by
  refine (skipMany_iff skips_record).mpr ⟨rrs.map (·.encode), List.length_map _, ?_, ?_⟩
  · intro x hx
    obtain ⟨rr, hrr, rfl⟩ := List.mem_map.mp hx
    exact wireRecord_encode (h rr hrr)
  · rw [List.append_nil, List.flatMap_def]

/-- So many questions and then so many records off the front. -/
def sectionsEnd (questions records : Nat) (b : Bytes) : Option Bytes :=
  (skipMany questionRest questions b).bind (skipMany recordRest records)

variable {k an : Nat} {b r : Bytes}

theorem sectionsEnd_next (h : questionRest b = some r) : sectionsEnd (k + 1) an b = sectionsEnd k an r := by
  rw [sectionsEnd, skipMany_some h]
  rfl

theorem sectionsEnd_stop (h : questionRest b = none) : sectionsEnd (k + 1) an b = none := by
  rw [sectionsEnd, skipMany_none h]
  rfl

theorem sectionsEnd_zero (an : Nat) (b : Bytes) : sectionsEnd 0 an b = skipMany recordRest an b := rfl

/-- Behind the data there is nothing: no question and no record starts with its length. -/
theorem data_stops (hn : d.length = n.toNat) (hpos : 1 ≤ n.toNat) (h63 : n.toNat ≤ 63) :
    questionRest (n :: d) = none ∧ recordRest (n :: d) = none := by
  have hname : nameRest (n :: d) = none := by
    have h := nameRest_data hn hpos h63 []
    rw [List.append_nil, nameRest_nil] at h
    exact h
  constructor
  · rw [questionRest, hname]
    rfl
  · rw [recordRest, hname]
    rfl

theorem sections_nil (k : Nat) : sectionsEnd k 0 [] = some [] ↔ k = 0 := by
  cases k with
  | zero => exact ⟨fun _ => rfl, fun _ => rfl⟩
  | succ k =>
    rw [sectionsEnd_stop questionRest_nil]
    exact ⟨fun h => (by cases h), fun h => absurd h (Nat.succ_ne_zero k)⟩

/-- One record, read as at least one question more than there is: the time to live, then the data. -/
theorem sections_one (k : Nat) (hn : d.length = n.toNat) (hpos : 1 ≤ n.toNat) (h63 : n.toNat ≤ 63) :
    sectionsEnd (k + 1) 1 (0xc0 :: 0x0c :: 0 :: t :: 0 :: 1 :: ttlOn n d) = some [] ↔
      k = 0 ∧ recordRest (ttlOn n d) = some [] := by
  obtain ⟨hq, hr⟩ := data_stops hn hpos h63
  rw [sectionsEnd_next (questionRest_front t _)]
  cases k with
  | zero =>
    rw [sectionsEnd_zero, skipMany_one]
    exact ⟨fun h => ⟨rfl, h⟩, fun h => h.2⟩
  | succ k =>
    rw [sectionsEnd_next (questionRest_ttl n d)]
    refine ⟨fun h => ?_, fun h => absurd h.1 (Nat.succ_ne_zero k)⟩
    cases k with
    | zero =>
      rw [sectionsEnd_zero, skipMany_none hr] at h
      cases h
    | succ k =>
      rw [sectionsEnd_stop hq] at h
      cases h

theorem sections_a (a4 : UInt32) (k : Nat) : sectionsEnd k 1 (aRecord a4).encode = some [] ↔ k = 0 := by
  cases k with
  | zero =>
    rw [sectionsEnd_zero, skipMany_one, recordRest_encode (by simp [aRecord])]
    exact ⟨fun _ => rfl, fun _ => rfl⟩
  | succ k =>
    have hshort : recordRest (ttlOn 4 (bigEndian 4 a4.toNat)) = none :=
      recordRest_short (by simp [ttlOn])
    rw [aRecord_encode, sections_one k (bigEndian_length 4 _) (by decide) (by decide), hshort]
    exact ⟨fun h => (by cases h.2), fun h => absurd h (Nat.succ_ne_zero k)⟩

theorem sections_aaaa (a6 : In6Addr) (k : Nat) :
    sectionsEnd k 1 (aaaaRecord a6).encode = some [] ↔ k = 0 ∨ k = 1 ∧ wordAt a6.val 3 = 11 := by
  cases k with
  | zero =>
    rw [sectionsEnd_zero, skipMany_one, recordRest_encode (by simp [aaaaRecord, a6.2])]
    exact ⟨fun _ => .inl rfl, fun _ => rfl⟩
  | succ k =>
    have hrec : recordRest (ttlOn 16 a6.val) = some [] ↔ wordAt a6.val 3 = 11 := by
      rw [recordRest_ttl, a6.2]
      by_cases hshort : 16 < 5 + wordAt a6.val 3
      · rw [if_pos hshort]
        exact ⟨fun h => (by cases h), fun h => absurd hshort (by omega)⟩
      · rw [if_neg hshort, Option.some.injEq, List.drop_eq_nil_iff, a6.2]
        omega
    rw [aaaaRecord_encode, sections_one k a6.2 (by decide) (by decide), hrec]
    omega

/-- Eleven bytes are one record exactly where they start with the root and end in the length 0. -/
theorem recordRest_eleven {c : UInt8} (h : b.length = 10) :
    recordRest (c :: b) = some r ↔ c = 0 ∧ wordAt b 8 = 0 ∧ r = [] := by
  constructor
  · intro hr
    obtain ⟨rest, hname, hif⟩ := Option.bind_eq_some_iff.mp hr
    by_cases hshort : rest.length < 10 + wordAt rest 8
    · rw [if_pos hshort] at hif
      cases hif
    · rw [if_neg hshort] at hif
      obtain ⟨rfl, rfl⟩ := root_of_length hname (by omega)
      have hzero : wordAt rest 8 = 0 := by omega
      rw [hzero, List.drop_of_length_le (by omega)] at hif
      exact ⟨rfl, hzero, (Option.some.inj hif).symm⟩
  · intro hr
    obtain ⟨rfl, hzero, rfl⟩ := hr
    rw [recordRest, nameRest_root, Option.bind_some, hzero, if_neg (by omega),
      List.drop_of_length_le (by omega)]

/-- Two records in the rest of an `AAAA`: neither has data. -/
theorem two_records (a6 : In6Addr) :
    skipMany recordRest 2 (ttlOn 16 a6.val) = some [] ↔
      wordAt a6.val 3 = 0 ∧ byteAt a6.val 5 = 0 ∧ wordAt a6.val 14 = 0 := by
  by_cases hzero : wordAt a6.val 3 = 0
  · have hlt : 5 < a6.val.length := by
      rw [a6.2]
      decide
    have hfirst : recordRest (ttlOn 16 a6.val) = some (byteAt a6.val 5 :: a6.val.drop 6) := by
      have hdrop : a6.val.drop 5 = byteAt a6.val 5 :: a6.val.drop 6 := by
        rw [List.drop_eq_getElem_cons hlt, byteAt_of_some (List.getElem?_eq_getElem hlt)]
      rw [recordRest_ttl, hzero, if_neg (by omega), hdrop]
    have hword : wordAt (a6.val.drop 6) 8 = wordAt a6.val 14 := by
      simp only [wordAt, byteAt, List.getD_eq_getElem?_getD, List.getElem?_drop]
    rw [skipMany_some hfirst, skipMany_one, recordRest_eleven (by rw [List.length_drop, a6.2]), hword]
    simp [hzero]
  · refine ⟨fun h => ?_, fun h => absurd h.1 hzero⟩
    obtain ⟨y, hy, hrest⟩ := Option.bind_eq_some_iff.mp h
    rw [recordRest_ttl] at hy
    by_cases hshort : a6.val.length < 5 + wordAt a6.val 3
    · rw [if_pos hshort] at hy
      cases hy
    · -- a first record with data leaves too little for a second
      rw [if_neg hshort] at hy
      cases hy
      rw [skipMany_one, recordRest_short (by rw [List.length_drop, a6.2]; omega)] at hrest
      cases hrest

theorem sections_both (a4 : UInt32) (a6 : In6Addr) (k : Nat) :
    sectionsEnd k 2 ((aRecord a4).encode ++ (aaaaRecord a6).encode) = some [] ↔
      k = 0 ∨ k = 3 ∧ wordAt a6.val 3 = 0 ∧ byteAt a6.val 5 = 0 ∧ wordAt a6.val 14 = 0 := by
  have hd : (bigEndian 4 a4.toNat).length = (4 : UInt8).toNat := bigEndian_length 4 _
  have hsecond := aaaaRecord_encode a6
  have hfront : (aRecord a4).encode ++ (aaaaRecord a6).encode =
      0xc0 :: 0x0c :: 0 :: 1 :: 0 :: 1 :: ttlOn 4 (bigEndian 4 a4.toNat ++ (aaaaRecord a6).encode) := by
    rw [aRecord_encode]
    rfl
  have hname := nameRest_data hd (by decide) (by decide) (aaaaRecord a6).encode
  obtain ⟨hq, hr⟩ := data_stops (n := 16) a6.2 (by decide) (by decide)
  rcases k with _ | _ | _ | _ | _ | k
  · have h : skipMany recordRest 2 ([aRecord a4, aaaaRecord a6].flatMap (·.encode)) = some [] :=
      skipMany_encode [aRecord a4, aaaaRecord a6] (by simp [aRecord, aaaaRecord, a6.2])
    rw [List.flatMap_cons, List.flatMap_singleton] at h
    exact ⟨fun _ => .inl rfl, fun _ => h⟩
  all_goals rw [hfront, sectionsEnd_next (questionRest_front _ _)]
  · -- the length of the first record is in the pointer of the second
    have hlong : recordRest (ttlOn 4 (bigEndian 4 a4.toNat ++ (aaaaRecord a6).encode)) = none := by
      have hword : 192 ≤ wordAt (bigEndian 4 a4.toNat ++ (aaaaRecord a6).encode) 3 := by
        rw [hsecond]
        exact Nat.le_add_left 192 _
      have hlen : (bigEndian 4 a4.toNat ++ (aaaaRecord a6).encode).length = 32 := by
        rw [hsecond, List.length_append, bigEndian_length]
        simp [ttlOn, a6.2]
      rw [recordRest_ttl, if_pos (by omega)]
    rw [sectionsEnd_zero, skipMany_none hlong]
    exact ⟨fun h => (by cases h), fun h => (by omega)⟩
  all_goals rw [sectionsEnd_next (questionRest_ttl _ _)]
  · -- the first record is the label in front of the second, and nothing is left
    have hrec : recordRest (4 :: (bigEndian 4 a4.toNat ++ (aaaaRecord a6).encode)) = some [] := by
      rw [recordRest, hname]
      exact recordRest_encode (by simp [aaaaRecord, a6.2])
    rw [sectionsEnd_zero, skipMany_some hrec, skipMany_none recordRest_nil]
    exact ⟨fun h => (by cases h), fun h => (by omega)⟩
  all_goals
    have hquestion : questionRest (4 :: (bigEndian 4 a4.toNat ++ (aaaaRecord a6).encode)) =
        some (ttlOn 16 a6.val) := by
      rw [questionRest, hname, hsecond]
      exact questionRest_front 28 _
    rw [sectionsEnd_next hquestion]
  · rw [sectionsEnd_zero, two_records]
    simp
  all_goals rw [sectionsEnd_next (questionRest_ttl _ _)]
  · rw [sectionsEnd_zero, skipMany_none hr]
    exact ⟨fun h => (by cases h), fun h => (by omega)⟩
  · rw [sectionsEnd_stop hq]
    exact ⟨fun h => (by cases h), fun h => (by omega)⟩

end Records

/-! ## 4. The response -/

/-- **The response is what its header says**: the id of the query, `QR`, no records of the last two
    sections; and behind the header so many questions, so many records and nothing else. -/
structure WellFormed (q resp : Bytes) : Prop where
  header : 12 ≤ resp.length
  id : resp.take 2 = q.take 2
  qr : (wordAt resp 2).testBit 15 = true
  authority : wordAt resp 8 = 0
  additional : wordAt resp 10 = 0
  sections : ∃ questions records : List Bytes, questions.length = wordAt resp 4 ∧
    records.length = wordAt resp 6 ∧ (∀ x ∈ questions, WireQuestion x) ∧ (∀ x ∈ records, WireRecord x) ∧
    resp.drop 12 = questions.flatten ++ records.flatten

/-- The name of the question is of the format. -/
def wellNamed (q : Bytes) : Prop := ∃ name rest, WireName name ∧ q.drop 12 = name ++ rest

/-- **One question; or records that read as the missing ones by chance**: an `AAAA` as a question and
    a record of 11 bytes, or an `A` and an `AAAA` as three questions and two empty records. -/
def CountsFit (qd : Nat) (rrs : List DnsRr) : Prop :=
  qd = 1 ∨ (qd = 2 ∧ ∃ a6, rrs = [aaaaRecord a6] ∧ wordAt a6.val 3 = 11) ∨
    (qd = 4 ∧ ∃ a4 a6, rrs = [aRecord a4, aaaaRecord a6] ∧ wordAt a6.val 3 = 0 ∧ byteAt a6.val 5 = 0 ∧
      wordAt a6.val 14 = 0)

/-- The records of the response to a query. -/
def queryRecords (I : Inet) (nodes : List NodeState) (domain q : Bytes) : List DnsRr :=
  match parseQname q 16 12 false 12 [] with
  | none => []
  | some (off, qname) => foundRecords I nodes domain qname (wordAt q off)

section Response

variable {I : Inet} {nodes : List NodeState} {domain q resp : Bytes} {off : Nat} {qname : Bytes}

theorem sectionsEnd_iff {questions records : Nat} {b : Bytes} :
    sectionsEnd questions records b = some [] ↔
      ∃ qs rs : List Bytes, qs.length = questions ∧ rs.length = records ∧ (∀ x ∈ qs, WireQuestion x) ∧
        (∀ x ∈ rs, WireRecord x) ∧ b = qs.flatten ++ rs.flatten := by
  constructor
  · intro h
    obtain ⟨mid, hq, hr⟩ := Option.bind_eq_some_iff.mp h
    obtain ⟨qs, hqs, hform, rfl⟩ := (skipMany_iff skips_question).mp hq
    obtain ⟨rs, hrs, hform', rfl⟩ := (skipMany_iff skips_record).mp hr
    exact ⟨qs, rs, hqs, hrs, hform, hform', by rw [List.append_nil]⟩
  · intro h
    obtain ⟨qs, rs, hqs, hrs, hform, hform', rfl⟩ := h
    refine Option.bind_eq_some_iff.mpr ⟨rs.flatten, ?_, ?_⟩
    · exact (skipMany_iff skips_question).mpr ⟨qs, hqs, hform, rfl⟩
    · exact (skipMany_iff skips_record).mpr ⟨rs, hrs, hform', (List.append_nil _).symm⟩

theorem aRecord_ne (a4 : UInt32) (a6 : In6Addr) : aRecord a4 ≠ aaaaRecord a6 := by
  intro h
  exact absurd (congrArg DnsRr.type h) (by decide : kTypeA ≠ kTypeAAAA)

theorem aaaaRecord_inj {a6 a6' : In6Addr} (h : aaaaRecord a6 = aaaaRecord a6') : a6 = a6' :=
  Subtype.ext (congrArg DnsRr.data h)

/-- **The records behind one question, read as `j` questions more and the records.** -/
theorem sections_iff (v4 : Option UInt32) (v6 : Option In6Addr) (j : Nat) :
    sectionsEnd j (v4.toList.map aRecord ++ v6.toList.map aaaaRecord).length
        ((v4.toList.map aRecord ++ v6.toList.map aaaaRecord).flatMap (·.encode)) = some [] ↔
      CountsFit (j + 1) (v4.toList.map aRecord ++ v6.toList.map aaaaRecord) := by
  cases v4 with
  | none =>
    cases v6 with
    | none =>
      have hsec := sections_nil j
      refine Iff.trans hsec ⟨fun h => .inl (by omega), fun h => ?_⟩
      rcases h with h | ⟨_, a6, h, _⟩ | ⟨_, a4, a6, h, _⟩
      · omega
      · cases h
      · cases h
    | some b6 =>
      have hsec := sections_aaaa b6 j
      rw [← List.flatMap_singleton (f := fun x : DnsRr => x.encode)] at hsec
      refine Iff.trans hsec ⟨fun h => ?_, fun h => ?_⟩
      · rcases h with h | ⟨hj, h11⟩
        · exact .inl (by omega)
        · exact .inr (.inl ⟨by omega, b6, rfl, h11⟩)
      · rcases h with h | ⟨hj, a6, h, h11⟩ | ⟨_, a4, a6, h, _⟩
        · exact .inl (by omega)
        · obtain rfl := aaaaRecord_inj (List.cons.inj h).1
          exact .inr ⟨by omega, h11⟩
        · cases (List.cons.inj h).2
  | some b4 =>
    cases v6 with
    | none =>
      have hsec := sections_a b4 j
      rw [← List.flatMap_singleton (f := fun x : DnsRr => x.encode)] at hsec
      refine Iff.trans hsec ⟨fun h => .inl (by omega), fun h => ?_⟩
      rcases h with h | ⟨_, a6, h, _⟩ | ⟨_, a4, a6, h, _⟩
      · omega
      · exact absurd (List.cons.inj h).1 (aRecord_ne b4 a6)
      · cases (List.cons.inj h).2
    | some b6 =>
      have hsec := sections_both b4 b6 j
      have hflat : (aRecord b4).encode ++ (aaaaRecord b6).encode =
          [aRecord b4, aaaaRecord b6].flatMap (·.encode) := by
        rw [List.flatMap_cons, List.flatMap_singleton]
      rw [hflat] at hsec
      refine Iff.trans hsec ⟨fun h => ?_, fun h => ?_⟩
      · rcases h with h | ⟨hj, h0⟩
        · exact .inl (by omega)
        · exact .inr (.inr ⟨by omega, b4, b6, rfl, h0⟩)
      · rcases h with h | ⟨_, a6, h, _⟩ | ⟨hj, a4, a6, h, h0⟩
        · exact .inl (by omega)
        · cases (List.cons.inj h).2
        · obtain rfl := aaaaRecord_inj (List.cons.inj (List.cons.inj h).2).1
          exact .inr ⟨by omega, h0⟩

/-- The header of a response, whatever it answers. -/
theorem Answered.header_fields (h : Answered I nodes domain q resp off qname) :
    12 ≤ resp.length ∧ resp.take 2 = q.take 2 ∧ (wordAt resp 2).testBit 15 = true ∧ wordAt resp 8 = 0 ∧
      wordAt resp 10 = 0 ∧ wordAt resp 4 = wordAt q 4 ∧
      wordAt resp 6 = (foundRecords I nodes domain qname (wordAt q off)).length := by
  have hcount := foundRecords_length I nodes domain qname (wordAt q off)
  have hid : q.take 2 = [byteAt q 0, byteAt q 1] := by
    have h2 := take_two h.header
    rw [List.take_take] at h2
    exact h2
  have hresp := h.response
  generalize foundRecords I nodes domain qname (wordAt q off) = rrs at hcount hresp ⊢
  have hbytes : resp = byteAt q 0 :: byteAt q 1 :: 0x81 ::
      (if (lookedUp nodes domain qname).isSome then 0x80 else 0x83) :: byteAt q 4 :: byteAt q 5 ::
      UInt8.ofNat (rrs.length / 256) :: UInt8.ofNat rrs.length :: 0 :: 0 :: 0 :: 0 ::
      ((q.take (off + 4)).drop 12 ++ rrs.flatMap (·.encode)) := by
    rw [hresp, dnsResponse_eq, dnsHeader, put16, bigEndian_two]
    rfl
  generalize (q.take (off + 4)).drop 12 ++ rrs.flatMap (·.encode) = body at hbytes
  have hword := word_bigEndian (v := rrs.length) (by omega)
  subst hbytes
  refine ⟨Nat.le_add_left 12 body.length, hid.symm, ?_, by simp [wordAt, byteAt], by simp [wordAt, byteAt],
    rfl, hword⟩
  -- 0x8180 or 0x8183
  cases (lookedUp nodes domain qname).isSome
  · simp only [wordAt, byteAt, List.getD_cons_succ, List.getD_cons_zero, Bool.false_eq_true, if_false]
    decide
  · simp only [wordAt, byteAt, List.getD_cons_succ, List.getD_cons_zero, if_true]
    decide

/-- The question of a response: the name up to its first pointer, and four bytes. -/
theorem Answered.question (h : Answered I nodes domain q resp off qname) :
    ∃ z rest fixed, Spelled z ∧ q.drop 12 = z ++ rest ∧ fixed.length = 4 ∧
      resp.drop 12 = z ++ (fixed ++ (foundRecords I nodes domain qname (wordAt q off)).flatMap (·.encode)) := by
  obtain ⟨z, rest, hz, hq, hoff⟩ := spelled_of_parse h.parsed
  have hfits := h.fits
  have hlen := congrArg List.length hq
  rw [List.length_drop, List.length_append] at hlen
  have hfixed : (rest.take 4).length = 4 := by
    rw [List.length_take]
    omega
  refine ⟨z, rest, rest.take 4, hz, hq, hfixed, ?_⟩
  have hquestion : (q.take (off + 4)).drop 12 = z ++ rest.take 4 := by
    have hsize : off + 4 - 12 = z.length + 4 := by
      have hz12 : off = 12 + z.length := hoff
      omega
    rw [List.drop_take, hq, hsize, List.take_append, List.take_of_length_le (Nat.le_add_right _ _),
      Nat.add_sub_cancel_left]
  rw [h.response, dnsResponse_eq, List.drop_left' (dnsHeader_length _ _ _), hquestion, List.append_assoc]

/-- **When the response is well formed.** -/
theorem Answered.wellFormed_iff (h : Answered I nodes domain q resp off qname) :
    WellFormed q resp ↔ wellNamed q ∧
      CountsFit (wordAt q 4) (foundRecords I nodes domain qname (wordAt q off)) := by
  obtain ⟨h12, hid, hqr, hauth, hadd, hqd, han⟩ := h.header_fields
  obtain ⟨z, rest, fixed, hz, hq, hfixed, hbody⟩ := h.question
  obtain ⟨v4, v6, hshape⟩ := foundRecords_shape I nodes domain qname (wordAt q off)
  obtain ⟨j, hj⟩ : ∃ j, wordAt q 4 = j + 1 := ⟨wordAt q 4 - 1, by have := h.asked; omega⟩
  have hform : WellFormed q resp ↔ sectionsEnd (wordAt resp 4) (wordAt resp 6) (resp.drop 12) = some [] := by
    rw [sectionsEnd_iff]
    exact ⟨fun hw => hw.sections, fun hs => ⟨h12, hid, hqr, hauth, hadd, hs⟩⟩
  have hnamed : wellNamed q ↔ ∃ x, nameRest (q.drop 12) = some x := by
    constructor
    · intro hw
      obtain ⟨name, x, hname, hx⟩ := hw
      exact ⟨x, (skips_name _ _).mpr ⟨name, hname, hx⟩⟩
    · intro hw
      obtain ⟨x, hx⟩ := hw
      obtain ⟨name, hname, hb⟩ := (skips_name _ _).mp hx
      exact ⟨name, x, hname, hb⟩
  rw [hform, hnamed, hqd, han, hbody, hq, hj]
  rcases spelled_rest hz with hsome | hnone
  · have hfirst : questionRest (z ++ (fixed ++ (foundRecords I nodes domain qname (wordAt q off)).flatMap
        (·.encode))) = some ((foundRecords I nodes domain qname (wordAt q off)).flatMap (·.encode)) := by
      have hlong : ∀ x : Bytes, ¬ (fixed ++ x).length < 4 := by
        intro x
        rw [List.length_append]
        omega
      rw [questionRest, hsome, Option.bind_some, if_neg (hlong _), List.drop_left' hfixed]
    rw [sectionsEnd_next hfirst, hshape, sections_iff v4 v6 j]
    exact ⟨fun hc => ⟨⟨_, hsome rest⟩, hc⟩, fun hc => hc.2⟩
  · have hfirst : ∀ x, questionRest (z ++ x) = none := by
      intro x
      rw [questionRest, hnone]
      rfl
    rw [sectionsEnd_stop (hfirst _)]
    refine ⟨fun hc => (by cases hc), fun hc => ?_⟩
    obtain ⟨⟨x, hx⟩, _⟩ := hc
    rw [hnone] at hx
    cases hx

end Response

/-- **When a response is structurally well formed**: for every query and registry with an answer,
    exactly where the name of the question is of the format and the query has one question (or one
    of the two numbers that the addresses may make up for). -/
theorem response_wellFormed_iff (I : Inet) (nodes : List NodeState) (domain q resp : Bytes)
    (h : answer I nodes domain q = some resp) :
    WellFormed q resp ↔ wellNamed q ∧ CountsFit (wordAt q 4) (queryRecords I nodes domain q) := by
  obtain ⟨off, qname, ha⟩ := answered_of_answer h
  have hrrs : queryRecords I nodes domain q = foundRecords I nodes domain qname (wordAt q off) := by
    simp only [queryRecords, ha.parsed]
  rw [hrrs]
  exact ha.wellFormed_iff

theorem response_wellFormed_alice :
    ∃ resp, answer Inet.sample [hostAlice] (ascii "q.local") pointedQuery = some resp ∧
      WellFormed pointedQuery resp := by
  have hresp : (answer Inet.sample [hostAlice] (ascii "q.local") pointedQuery).isSome = true := by
    decide +kernel
  obtain ⟨resp, h⟩ := Option.isSome_iff_exists.mp hresp
  refine ⟨resp, h, (response_wellFormed_iff _ _ _ _ resp h).mpr ⟨?_, .inl (by decide +kernel)⟩⟩
  exact ⟨_, [0, 1, 0, 1], .label 5 (ascii "alice") [0xc0, 4] (by decide) (by decide) (by decide)
    (.pointer 0xc0 4 (by decide)), by decide +kernel⟩

/-- Two questions, for `alice` and for `bob`. -/
def twoQuestions : Bytes :=
  [0, 7, 1, 0, 0, 2, 0, 0, 0, 0, 0, 0] ++ encodeName [ascii "alice"] ++ [0, 1, 0, 1] ++
    encodeName [ascii "bob"] ++ [0, 1, 0, 1]

/-- **A query with two questions**: the response announces two and has one. -/
theorem response_malformed :
    ∃ resp, answer Inet.sample [hostAlice] (ascii "q.local") twoQuestions = some resp ∧
      wordAt resp 4 = 2 ∧ ¬ WellFormed twoQuestions resp := by
  have hresp : (answer Inet.sample [hostAlice] (ascii "q.local") twoQuestions).map (wordAt · 4) = some 2 := by
    decide +kernel
  obtain ⟨resp, h, hqd⟩ := Option.map_eq_some_iff.mp hresp
  obtain ⟨off, qname, ha⟩ := answered_of_answer h
  refine ⟨resp, h, hqd, fun hw => ?_⟩
  have hparse : parseQname twoQuestions 16 12 false 12 [] = some (19, ascii "alice") := by decide +kernel
  obtain ⟨rfl, rfl⟩ := Prod.mk.inj (Option.some.inj (ha.parsed.symm.trans hparse))
  obtain ⟨_, hcounts⟩ := ha.wellFormed_iff.mp hw
  have hrrs : foundRecords Inet.sample [hostAlice] (ascii "q.local") (ascii "alice") (wordAt twoQuestions 19) =
      [aRecord 0x64400000] := by decide +kernel
  rw [hrrs] at hcounts
  rcases hcounts with h1 | ⟨_, a6, h6, _⟩ | ⟨_, a4, a6, h6, _⟩
  · exact absurd h1 (by decide +kernel)
  · exact absurd (List.cons.inj h6).1 (aRecord_ne _ a6)
  · cases (List.cons.inj h6).2

end Wirebone
