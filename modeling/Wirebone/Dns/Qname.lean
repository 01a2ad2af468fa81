/-
  File:      Wirebone/Dns/Qname.lean
  Subject:   THE LOOP OF `parse_qname`: what one round does, what it reads, and which names it takes.

  A round looks at one byte: the root ends the name, two set bits make a pointer, everything else is
  the length of a label. Sixteen rounds serve labels, pointers and the root alike:

  * `Round`, `round_at` -- the six kinds of rounds, one for every message and offset, with the
    equation of the loop for each;
  * `Reaches` -- the chains of labels and pointers that end in a root;
  * **`parseQname_plain_iff`** -- which uncompressed names are decoded, and which bytes that are no
    such name are refused;
  * `parseQnameIn`, `answerIn` -- the code with every read and every copy checked;
  * **`dns_reads_inside`** -- no read and no copy leaves the datagram.
-/
import Wirebone.Dns.Basic

namespace Wirebone

open ByteString

/-! ## 1. Rounds -/

/-- **What a round finds at an offset.** -/
inductive Round (msg : Bytes) (off : Nat) : Prop where
  | past (h : msg.length ≤ off)
  | root (h : msg[off]? = some 0)
  | pointer (hi lo : UInt8) (h : msg[off]? = some hi) (hhi : 192 ≤ hi.toNat) (hlo : msg[off + 1]? = some lo)
  | cutPointer (hi : UInt8) (h : msg[off]? = some hi) (hhi : 192 ≤ hi.toNat) (hcut : msg.length ≤ off + 1)
  | label (b : UInt8) (h : msg[off]? = some b) (hpos : 1 ≤ b.toNat) (hlen : b.toNat ≤ 191)
      (hend : off + 1 + b.toNat ≤ msg.length)
  | cutLabel (b : UInt8) (h : msg[off]? = some b) (hpos : 1 ≤ b.toNat) (hlen : b.toNat ≤ 191)
      (hcut : msg.length < off + 1 + b.toNat)

/-- Where a pointer leads. -/
def pointerTarget (hi lo : UInt8) : Nat := (hi &&& 0x3f).toNat * 256 + lo.toNat

section Rounds

variable {msg : Bytes} {off hops stop : Nat} {jumped : Bool} {name : Bytes}

theorem pointer_iff (b : UInt8) : b &&& 0xc0 = 0xc0 ↔ 192 ≤ b.toNat :=
  forall_byte (P := fun b => b &&& 0xc0 = 0xc0 ↔ 192 ≤ b.toNat) (by decide +kernel) b

theorem byteAt_of_some {i : Nat} {b : UInt8} (h : msg[i]? = some b) : byteAt msg i = b := by
  rw [byteAt, List.getD_eq_getElem?_getD, h]
  rfl

theorem lt_of_some {i : Nat} {b : UInt8} (h : msg[i]? = some b) : i < msg.length :=
  (List.getElem?_eq_some_iff.mp h).1

theorem ne_zero_of_pos {b : UInt8} (h : 1 ≤ b.toNat) : b ≠ 0 := by
  intro hz
  rw [hz] at h
  exact absurd h (by decide)

theorem round_at (msg : Bytes) (off : Nat) : Round msg off := by
  by_cases hoff : msg.length ≤ off
  · exact .past hoff
  have h : msg[off]? = some msg[off] := List.getElem?_eq_getElem (by omega)
  generalize msg[off] = b at h
  by_cases h0 : b = 0
  · subst h0
    exact .root h
  have hpos : 1 ≤ b.toNat := by
    by_contra hz
    exact h0 (UInt8.toNat_inj.mp (by simpa using hz))
  by_cases hhi : 192 ≤ b.toNat
  · by_cases hcut : msg.length ≤ off + 1
    · exact .cutPointer b h hhi hcut
    · exact .pointer b _ h hhi (List.getElem?_eq_getElem (by omega))
  · by_cases hend : off + 1 + b.toNat ≤ msg.length
    · exact .label b h hpos (by omega) hend
    · exact .cutLabel b h hpos (by omega) (by omega)

theorem parseQname_past (h : msg.length ≤ off) : parseQname msg hops off jumped stop name = none := by
  cases hops with
  | zero => rfl
  | succ hops => rw [parseQname, if_pos h]

theorem parseQname_root (h : msg[off]? = some 0) :
    parseQname msg (hops + 1) off jumped stop name =
      some (if jumped then stop else off + 1, popDot name) := by
  have hlt := lt_of_some h
  rw [parseQname, if_neg (by omega)]
  simp only [byteAt_of_some h, if_true]

theorem parseQname_pointer {hi lo : UInt8} (h : msg[off]? = some hi) (hhi : 192 ≤ hi.toNat)
    (hlo : msg[off + 1]? = some lo) :
    parseQname msg (hops + 1) off jumped stop name =
      parseQname msg hops (pointerTarget hi lo) true (if jumped then stop else off + 2) name := by
  have hlt := lt_of_some hlo
  have hne : hi ≠ 0 := ne_zero_of_pos (by omega)
  have hptr := (pointer_iff hi).mpr hhi
  rw [parseQname, if_neg (by omega)]
  simp only [byteAt_of_some h, if_neg hne, if_pos hptr, if_neg (show ¬ off + 1 ≥ msg.length by omega),
    byteAt_of_some hlo]
  rfl

theorem parseQname_cutPointer {hi : UInt8} (h : msg[off]? = some hi) (hhi : 192 ≤ hi.toNat)
    (hcut : msg.length ≤ off + 1) : parseQname msg hops off jumped stop name = none := by
  have hlt := lt_of_some h
  have hne : hi ≠ 0 := ne_zero_of_pos (by omega)
  have hptr := (pointer_iff hi).mpr hhi
  cases hops with
  | zero => rfl
  | succ hops =>
    rw [parseQname, if_neg (by omega)]
    simp only [byteAt_of_some h, if_neg hne, if_pos hptr, if_pos (show off + 1 ≥ msg.length by omega)]

theorem parseQname_label {b : UInt8} (h : msg[off]? = some b) (hpos : 1 ≤ b.toNat) (hlen : b.toNat ≤ 191)
    (hend : off + 1 + b.toNat ≤ msg.length) :
    parseQname msg (hops + 1) off jumped stop name =
      parseQname msg hops (off + 1 + b.toNat) jumped stop
        (name ++ (msg.drop (off + 1)).take b.toNat ++ [46]) := by
  have hne := ne_zero_of_pos hpos
  have hptr : ¬ b &&& 0xc0 = 0xc0 := fun hp => absurd ((pointer_iff b).mp hp) (by omega)
  rw [parseQname, if_neg (by omega)]
  simp only [byteAt_of_some h, if_neg hne, if_neg hptr,
    if_neg (show ¬ off + 1 + b.toNat > msg.length by omega)]

theorem parseQname_cutLabel {b : UInt8} (h : msg[off]? = some b) (hpos : 1 ≤ b.toNat)
    (hlen : b.toNat ≤ 191) (hcut : msg.length < off + 1 + b.toNat) :
    parseQname msg hops off jumped stop name = none := by
  have hlt := lt_of_some h
  have hne := ne_zero_of_pos hpos
  have hptr : ¬ b &&& 0xc0 = 0xc0 := fun hp => absurd ((pointer_iff b).mp hp) (by omega)
  cases hops with
  | zero => rfl
  | succ hops =>
    rw [parseQname, if_neg (by omega)]
    simp only [byteAt_of_some h, if_neg hne, if_neg hptr,
      if_pos (show off + 1 + b.toNat > msg.length by omega)]

end Rounds

/-! ## 2. Chains -/

/-- **A chain of labels and pointers that ends in a root**, of at most `k` rounds. A label may have
    up to 191 bytes here: this is the chain as the loop follows it. -/
inductive Reaches (msg : Bytes) : Nat → Nat → Prop where
  | root {k off : Nat} (h : msg[off]? = some 0) : Reaches msg (k + 1) off
  | pointer {k off : Nat} {hi lo : UInt8} (h : msg[off]? = some hi) (hhi : 192 ≤ hi.toNat)
      (hlo : msg[off + 1]? = some lo) (hr : Reaches msg k (pointerTarget hi lo)) : Reaches msg (k + 1) off
  | label {k off : Nat} {b : UInt8} (h : msg[off]? = some b) (hpos : 1 ≤ b.toNat) (hlen : b.toNat ≤ 191)
      (hend : off + 1 + b.toNat ≤ msg.length) (hr : Reaches msg k (off + 1 + b.toNat)) :
      Reaches msg (k + 1) off

section Chains

variable {msg : Bytes} {hops off stop : Nat} {jumped : Bool} {name : Bytes}

theorem reaches_of_parse {r : Nat × Bytes} (h : parseQname msg hops off jumped stop name = some r) :
    Reaches msg hops off := by
  induction hops generalizing off jumped stop name with
  | zero => cases h
  | succ hops ih =>
    cases round_at msg off with
    | past hp =>
      rw [parseQname_past hp] at h
      cases h
    | root hb => exact .root hb
    | pointer hi lo hb hhi hlo =>
      rw [parseQname_pointer hb hhi hlo] at h
      exact .pointer hb hhi hlo (ih h)
    | cutPointer hi hb hhi hcut =>
      rw [parseQname_cutPointer hb hhi hcut] at h
      cases h
    | label b hb hpos hlen hend =>
      rw [parseQname_label hb hpos hlen hend] at h
      exact .label hb hpos hlen hend (ih h)
    | cutLabel b hb hpos hlen hcut =>
      rw [parseQname_cutLabel hb hpos hlen hcut] at h
      cases h

theorem parse_of_reaches (h : Reaches msg hops off) (jumped : Bool) (stop : Nat) (name : Bytes) :
    ∃ r, parseQname msg hops off jumped stop name = some r := by
  induction h generalizing jumped stop name with
  | root hb => exact ⟨_, parseQname_root hb⟩
  | pointer hb hhi hlo _ ih =>
    rw [parseQname_pointer hb hhi hlo]
    exact ih _ _ _
  | label hb hpos hlen hend _ ih =>
    rw [parseQname_label hb hpos hlen hend]
    exact ih _ _ _

/-- **The loop fails exactly where no chain ends in a root.** -/
theorem parseQname_none_iff : parseQname msg hops off jumped stop name = none ↔ ¬ Reaches msg hops off := by
  constructor
  · intro h hr
    obtain ⟨r, hr⟩ := parse_of_reaches hr jumped stop name
    rw [h] at hr
    cases hr
  · intro h
    cases hp : parseQname msg hops off jumped stop name with
    | none => rfl
    | some r => exact absurd (reaches_of_parse hp) h

end Chains

/-! ## 3. Plain labels -/

/-- Labels, each behind its length, without the root. -/
def wireLabels (labels : List Bytes) : Bytes := labels.flatMap fun l => UInt8.ofNat l.length :: l

section Labels

variable {msg : Bytes} {hops off stop : Nat} {jumped : Bool} {name : Bytes}

theorem encodeName_eq (labels : List Bytes) : encodeName labels = wireLabels labels ++ [0] := rfl

theorem drop_cons {b : UInt8} {rest : Bytes} (h : msg.drop off = b :: rest) :
    msg[off]? = some b ∧ msg.drop (off + 1) = rest := by
  constructor
  · have hget : (msg.drop off)[0]? = msg[off]? := by rw [List.getElem?_drop, Nat.add_zero]
    rw [← hget, h]
    rfl
  · rw [← List.drop_drop, h]
    rfl

theorem toNat_ofNat_length {l : Bytes} (h : goodLabel l = true) : (UInt8.ofNat l.length).toNat = l.length := by
  have hgood := of_decide_eq_true h
  exact UInt8.toNat_ofNat_of_lt' (by simp only [UInt8.size]; omega)

/-- **A run of labels costs a round each** and leaves the loop behind them. -/
theorem parseQname_labels (labels : List Bytes) (tail : Bytes) (hgood : ∀ l ∈ labels, goodLabel l = true)
    (hbytes : msg.drop off = wireLabels labels ++ tail) :
    parseQname msg hops off jumped stop name =
      parseQname msg (hops - labels.length) (off + (wireLabels labels).length) jumped stop
        (name ++ labels.flatMap (· ++ [46])) := by
  induction labels generalizing off hops name with
  | nil => simp [wireLabels]
  | cons l ls ih =>
    cases hops with
    | zero => rw [Nat.zero_sub]; rfl
    | succ hops =>
      have hl := hgood l List.mem_cons_self
      have hnat := toNat_ofNat_length hl
      have hsize := of_decide_eq_true hl
      have hmsg : msg.drop off = UInt8.ofNat l.length :: (l ++ (wireLabels ls ++ tail)) := by
        rw [hbytes]
        simp [wireLabels]
      obtain ⟨hb, hrest⟩ := drop_cons hmsg
      have hnext : msg.drop (off + 1 + l.length) = wireLabels ls ++ tail := by
        rw [← List.drop_drop, hrest, List.drop_left]
      have hend : off + 1 + l.length ≤ msg.length := by
        have hlen := congrArg List.length hrest
        rw [List.length_drop, List.length_append] at hlen
        omega
      rw [parseQname_label hb (by omega) (by omega) (by omega), hnat, hrest, List.take_left,
        ih (fun l' hl' => hgood l' (List.mem_cons_of_mem _ hl')) hnext]
      have hwire : off + 1 + l.length + (wireLabels ls).length = off + (wireLabels (l :: ls)).length := by
        simp only [wireLabels, List.flatMap_cons, List.length_append, List.length_cons]
        omega
      rw [hwire, List.length_cons, Nat.add_sub_add_right, List.flatMap_cons]
      simp only [List.append_assoc]

/-- The bytes behind a run of labels. -/
theorem drop_labels {labels : List Bytes} {tail : Bytes} (hbytes : msg.drop off = wireLabels labels ++ tail) :
    msg.drop (off + (wireLabels labels).length) = tail := by
  rw [← List.drop_drop, hbytes, List.drop_left]

/-- **A plain name is parsed where its labels and the root fit the rounds that are left.** -/
theorem parseQname_encodeName (pre post : Bytes) (labels : List Bytes)
    (h : ∀ l ∈ labels, goodLabel l = true) (hops stop : Nat) (name : Bytes) :
    parseQname (pre ++ encodeName labels ++ post) hops pre.length false stop name =
      if labels.length < hops then
        some (pre.length + (encodeName labels).length, popDot (name ++ labels.flatMap (· ++ [46])))
      else none := by
  have hbytes : (pre ++ encodeName labels ++ post).drop pre.length = wireLabels labels ++ 0 :: post := by
    rw [encodeName_eq, List.append_assoc, List.drop_left, List.append_assoc, List.singleton_append]
  have hroot := (drop_cons (drop_labels hbytes)).1
  rw [parseQname_labels labels _ h hbytes]
  by_cases hlt : labels.length < hops
  · obtain ⟨k, hk⟩ : ∃ k, hops - labels.length = k + 1 := ⟨hops - labels.length - 1, by omega⟩
    rw [hk, parseQname_root hroot, if_pos hlt, encodeName_eq, List.length_append]
    rfl
  · rw [if_neg hlt, Nat.sub_eq_zero_of_le (Nat.le_of_not_lt hlt)]
    rfl

end Labels

/-! ## 4. Which plain names are decoded -/

/-- The message ends inside the name: behind its last byte, or inside a label. -/
def EndsFirst (tail : Bytes) : Prop :=
  tail = [] ∨ ∃ b rest, tail = b :: rest ∧ 1 ≤ b.toNat ∧ b.toNat ≤ 63 ∧ rest.length < b.toNat

/-- **What is asked of the loop** at an offset with labels of 1 to 63 bytes and then `tail`: it takes
    a name that ends in the root and has at most 255 bytes, and refuses a reserved length and a
    message that ends first. -/
structure DecodesPlain (msg : Bytes) (off : Nat) (labels : List Bytes) (tail : Bytes) : Prop where
  root : tail.head? = some 0 → (encodeName labels).length ≤ 255 →
    parseQname msg 16 off false off [] =
      some (off + (encodeName labels).length, [46].intercalate labels)
  reserved : ∀ b, tail.head? = some b → 64 ≤ b.toNat → b.toNat ≤ 191 →
    parseQname msg 16 off false off [] = none
  ended : EndsFirst tail → parseQname msg 16 off false off [] = none

/-- **The condition**: a name that ends in the root has at most 15 labels; a reserved length, taken
    as the length of a label, leads out of the message or to no root in the rounds that are left. -/
structure PlainFits (msg : Bytes) (off : Nat) (labels : List Bytes) (tail : Bytes) : Prop where
  root : tail.head? = some 0 → (encodeName labels).length ≤ 255 → labels.length ≤ 15
  reserved : ∀ b, tail.head? = some b → 64 ≤ b.toNat → b.toNat ≤ 191 → b.toNat < tail.length →
    ¬ Reaches msg (15 - labels.length) (off + (wireLabels labels).length + 1 + b.toNat)

section Plain

variable {msg : Bytes} {off : Nat} {labels : List Bytes} {tail : Bytes}

theorem popDot_joined (labels : List Bytes) :
    popDot (labels.flatMap (· ++ [46])) = [46].intercalate labels := by
  cases labels with
  | nil => rfl
  | cons l ls => exact popDot_labels (List.cons_ne_nil l ls)

/-- The whole labels of a name cost a round each. -/
theorem parseQname_after (hgood : ∀ l ∈ labels, goodLabel l = true)
    (hbytes : msg.drop off = wireLabels labels ++ tail) :
    parseQname msg 16 off false off [] =
      parseQname msg (16 - labels.length) (off + (wireLabels labels).length) false off
        (labels.flatMap (· ++ [46])) := by
  rw [parseQname_labels labels tail hgood hbytes, List.nil_append]

theorem parse_root_iff (hgood : ∀ l ∈ labels, goodLabel l = true)
    (hbytes : msg.drop off = wireLabels labels ++ tail) (hroot : tail.head? = some 0) :
    parseQname msg 16 off false off [] =
      some (off + (encodeName labels).length, [46].intercalate labels) ↔ labels.length ≤ 15 := by
  obtain ⟨rest, rfl⟩ := List.head?_eq_some_iff.mp hroot
  have hb := (drop_cons (drop_labels hbytes)).1
  rw [parseQname_after hgood hbytes]
  by_cases h15 : labels.length ≤ 15
  · obtain ⟨k, hk⟩ : ∃ k, 16 - labels.length = k + 1 := ⟨15 - labels.length, by omega⟩
    rw [hk, parseQname_root hb, popDot_joined, encodeName_eq, List.length_append]
    exact ⟨fun _ => h15, fun _ => rfl⟩
  · rw [Nat.sub_eq_zero_of_le (by omega)]
    refine ⟨fun h => ?_, fun h => absurd h h15⟩
    cases h

theorem parse_reserved_iff (hgood : ∀ l ∈ labels, goodLabel l = true)
    (hbytes : msg.drop off = wireLabels labels ++ tail) {b : UInt8} (htail : tail.head? = some b)
    (h64 : 64 ≤ b.toNat) (h191 : b.toNat ≤ 191) :
    parseQname msg 16 off false off [] = none ↔
      (b.toNat < tail.length →
        ¬ Reaches msg (15 - labels.length) (off + (wireLabels labels).length + 1 + b.toNat)) := by
  obtain ⟨rest, rfl⟩ := List.head?_eq_some_iff.mp htail
  obtain ⟨hb, hrest⟩ := drop_cons (drop_labels hbytes)
  have hlen := congrArg List.length hrest
  have hlt := lt_of_some hb
  rw [List.length_drop] at hlen
  rw [parseQname_after hgood hbytes, List.length_cons]
  by_cases hfit : b.toNat < rest.length + 1
  · by_cases h15 : labels.length ≤ 15
    · obtain ⟨k, hk⟩ : ∃ k, 16 - labels.length = k + 1 := ⟨15 - labels.length, by omega⟩
      rw [hk, parseQname_label hb (by omega) h191 (by omega), parseQname_none_iff,
        show 15 - labels.length = k by omega]
      exact ⟨fun h _ => h, fun h => h hfit⟩
    · rw [Nat.sub_eq_zero_of_le (by omega), Nat.sub_eq_zero_of_le (by omega)]
      refine ⟨fun _ _ hr => ?_, fun _ => rfl⟩
      cases hr
  · rw [parseQname_cutLabel hb (by omega) h191 (by omega)]
    exact ⟨fun _ h => absurd h hfit, fun _ => rfl⟩

theorem parse_ended (hgood : ∀ l ∈ labels, goodLabel l = true)
    (hbytes : msg.drop off = wireLabels labels ++ tail) (hend : EndsFirst tail) :
    parseQname msg 16 off false off [] = none := by
  have hrest := drop_labels hbytes
  rw [parseQname_after hgood hbytes]
  rcases hend with rfl | ⟨b, rest, rfl, hpos, hlen, hshort⟩
  · exact parseQname_past (List.drop_eq_nil_iff.mp hrest)
  · obtain ⟨hb, hrest⟩ := drop_cons hrest
    have hcount := congrArg List.length hrest
    have hlt := lt_of_some hb
    rw [List.length_drop] at hcount
    exact parseQname_cutLabel hb hpos (by omega) (by omega)

/-- **Which uncompressed names `parse_qname` decodes, and what it refuses**, for every message and
    every offset with labels of 1 to 63 bytes behind it. -/
theorem parseQname_plain_iff (msg : Bytes) (off : Nat) (labels : List Bytes) (tail : Bytes)
    (hgood : ∀ l ∈ labels, goodLabel l = true) (hbytes : msg.drop off = wireLabels labels ++ tail) :
    DecodesPlain msg off labels tail ↔ PlainFits msg off labels tail := by
  constructor
  · intro h
    refine ⟨fun hroot hlen => (parse_root_iff hgood hbytes hroot).mp (h.root hroot hlen), ?_⟩
    intro b hb h64 h191
    exact (parse_reserved_iff hgood hbytes hb h64 h191).mp (h.reserved b hb h64 h191)
  · intro h
    refine ⟨fun hroot hlen => (parse_root_iff hgood hbytes hroot).mpr (h.root hroot hlen), ?_,
      parse_ended hgood hbytes⟩
    intro b hb h64 h191
    exact (parse_reserved_iff hgood hbytes hb h64 h191).mpr (h.reserved b hb h64 h191)

end Plain

/-- `alice.q.local` behind a header. -/
theorem parseQname_plain_alice :
    parseQname (List.replicate 12 0 ++ encodeName [ascii "alice", ascii "q", ascii "local"] ++ [0, 1, 0, 1])
      16 12 false 12 [] = some (27, ascii "alice.q.local") := by
  have h := (parseQname_plain_iff (List.replicate 12 0 ++ encodeName [ascii "alice", ascii "q", ascii "local"] ++
    [0, 1, 0, 1]) 12 [ascii "alice", ascii "q", ascii "local"] [0, 0, 1, 0, 1] (by decide)
    (by decide +kernel)).mpr ⟨fun _ _ => by decide, fun b hb h64 => ?_⟩
  · have hdec := h.root rfl (by decide)
    rw [hdec]
    decide +kernel
  · cases hb
    exact absurd h64 (by decide)

/-- **A name of sixteen labels is refused, and a label of 64 bytes is taken.** -/
theorem parseQname_not_plain :
    ¬ DecodesPlain (encodeName (List.replicate 16 (ascii "a"))) 0 (List.replicate 16 (ascii "a")) [0] ∧
      ¬ DecodesPlain (64 :: List.replicate 64 97 ++ [0]) 0 [] (64 :: List.replicate 64 97 ++ [0]) := by
  constructor
  · intro h
    have hroot := h.root rfl (by decide +kernel)
    rw [show parseQname (encodeName (List.replicate 16 (ascii "a"))) 16 0 false 0 [] = none by
      decide +kernel] at hroot
    cases hroot
  · intro h
    have hres := h.reserved 64 rfl (by decide) (by decide)
    rw [show parseQname (64 :: List.replicate 64 97 ++ [0]) 16 0 false 0 [] =
      some (66, List.replicate 64 97) by decide +kernel] at hres
    cases hres

/-! ## 5. No read outside the datagram -/

/-- `msg[i]`; a fault outside the message. -/
def load (msg : Bytes) (i : Nat) : Except Nat UInt8 :=
  match msg[i]? with
  | some b => .ok b
  | none => .error i

/-- The bytes from `msg + i` to `msg + j`; a fault where they are not all in the message. -/
def copyRange (msg : Bytes) (i j : Nat) : Except Nat Bytes :=
  if i ≤ j ∧ j ≤ msg.length then .ok ((msg.drop i).take (j - i)) else .error j

/-- `parse_qname` with every read checked. -/
def parseQnameIn (msg : Bytes) : Nat → Nat → Bool → Nat → Bytes → Except Nat (Option (Nat × Bytes))
  | 0, _, _, _, _ => .ok none
  | hops + 1, off, jumped, stop, name =>
    if off ≥ msg.length then .ok none
    else do
      let lab ← load msg off
      if lab = 0 then
        return some (if jumped then stop else off + 1, popDot name)
      else if lab &&& 0xc0 = 0xc0 then
        if off + 1 ≥ msg.length then return none
        else
          let lo ← load msg (off + 1)
          parseQnameIn msg hops (pointerTarget lab lo) true (if jumped then stop else off + 2) name
      else
        let off := off + 1
        if off + lab.toNat > msg.length then return none
        else
          let label ← copyRange msg off (off + lab.toNat)
          parseQnameIn msg hops (off + lab.toNat) jumped stop (name ++ label ++ [46])

/-- `answer` with every read and every copy of the query checked. -/
def answerIn (I : Inet) (nodes : List NodeState) (domain q : Bytes) : Except Nat (Option Bytes) :=
  if q.length < 12 then .ok none
  else do
    let flags := (← load q 2).toNat * 256 + (← load q 3).toNat
    if flags.testBit 15 then return none
    else
      let qd := (← load q 4).toNat * 256 + (← load q 5).toNat
      if qd < 1 then return none
      else
        match ← parseQnameIn q 16 12 false 12 [] with
        | none => return none
        | some (off, qname) =>
          if off + 4 > q.length then return none
          else
            let qtype := (← load q off).toNat * 256 + (← load q (off + 1)).toNat
            let off := off + 4
            let found := nodes.find? (dnsMatches (lowerCopy domain) (lowerCopy qname))
            let header ← copyRange q 0 12
            let q4 ← load q 4
            let q5 ← load q 5
            let question ← copyRange q 12 off
            let rrs := match found with
              | none => []
              | some n => answerRecords I n qtype
            return some (header.take 2 ++ [0x81, if found.isSome then 0x80 else 0x83, q4, q5] ++
              put16 rrs.length ++ [0, 0, 0, 0] ++ question ++ rrs.flatMap (·.encode))

section Inside

variable {msg : Bytes} {hops off stop : Nat} {jumped : Bool} {name : Bytes}

theorem load_eq {i : Nat} (h : i < msg.length) : load msg i = .ok (byteAt msg i) := by
  have hget : msg[i]? = some msg[i] := List.getElem?_eq_getElem h
  rw [load, byteAt_of_some hget]
  simp only [hget]

theorem copyRange_eq {i j : Nat} (h : i ≤ j) (hj : j ≤ msg.length) :
    copyRange msg i j = .ok ((msg.drop i).take (j - i)) := if_pos ⟨h, hj⟩

/-- **No round of the loop reads outside the message.** -/
theorem parseQnameIn_eq (msg : Bytes) (hops off : Nat) (jumped : Bool) (stop : Nat) (name : Bytes) :
    parseQnameIn msg hops off jumped stop name = .ok (parseQname msg hops off jumped stop name) := by
  induction hops generalizing off jumped stop name with
  | zero => rfl
  | succ hops ih =>
    by_cases hoff : off ≥ msg.length
    · rw [parseQnameIn, parseQname, if_pos hoff, if_pos hoff]
    · rw [parseQnameIn, parseQname, if_neg hoff, if_neg hoff, load_eq (Nat.lt_of_not_le hoff)]
      simp only [bind, Except.bind, pure, Except.pure]
      by_cases h0 : byteAt msg off = 0
      · rw [if_pos h0, if_pos h0]
      · rw [if_neg h0, if_neg h0]
        by_cases hptr : byteAt msg off &&& 0xc0 = 0xc0
        · rw [if_pos hptr, if_pos hptr]
          by_cases hcut : off + 1 ≥ msg.length
          · rw [if_pos hcut, if_pos hcut]
          · rw [if_neg hcut, if_neg hcut, load_eq (Nat.lt_of_not_le hcut)]
            exact ih _ _ _ _
        · rw [if_neg hptr, if_neg hptr]
          by_cases hcut : off + 1 + (byteAt msg off).toNat > msg.length
          · rw [if_pos hcut, if_pos hcut]
          · rw [if_neg hcut, if_neg hcut, copyRange_eq (Nat.le_add_right _ _) (Nat.le_of_not_lt hcut),
              Nat.add_sub_cancel_left]
            exact ih _ _ _ _

/-- **Where a name ends**: inside the message, and not before it starts. The saved end is tracked
    apart from the cursor, so the invariant says something of the one that counts. -/
theorem parseQname_end {r : Nat × Bytes} {lo : Nat}
    (h : parseQname msg hops off jumped stop name = some r)
    (hinv : if jumped then lo ≤ stop ∧ stop ≤ msg.length else lo ≤ off) : lo ≤ r.1 ∧ r.1 ≤ msg.length := by
  have hchain := reaches_of_parse h
  induction hchain generalizing jumped stop name with
  | @root k off hb =>
    have hlt := lt_of_some hb
    rw [parseQname_root hb] at h
    cases h
    cases jumped with
    | false =>
      have hlo : lo ≤ off := hinv
      exact ⟨Nat.le_succ_of_le hlo, hlt⟩
    | true => exact hinv
  | @pointer k off hi lo' hb hhi hlo _ ih =>
    have hlt := lt_of_some hlo
    rw [parseQname_pointer hb hhi hlo] at h
    refine ih h ?_
    cases jumped with
    | false =>
      have hlo : lo ≤ off := hinv
      exact ⟨Nat.le_add_right_of_le hlo, hlt⟩
    | true => exact hinv
  | @label k off b hb hpos hlen hend _ ih =>
    rw [parseQname_label hb hpos hlen hend] at h
    refine ih h ?_
    cases jumped with
    | false =>
      have hlo : lo ≤ off := hinv
      show lo ≤ off + 1 + b.toNat
      omega
    | true => exact hinv

theorem take_two {q : Bytes} (h : 12 ≤ q.length) :
    ((q.drop 0).take (12 - 0)).take 2 = [byteAt q 0, byteAt q 1] := by
  cases q with
  | nil => exact absurd h (by decide)
  | cons a q =>
    cases q with
    | nil => exact absurd h (by simp)
    | cons b q => rfl

theorem wordAt_eq (q : Bytes) (i : Nat) :
    (byteAt q i).toNat * 256 + (byteAt q (i + 1)).toNat = wordAt q i := rfl

/-- **`answer` reads and copies inside the query only.** -/
theorem answerIn_eq (I : Inet) (nodes : List NodeState) (domain q : Bytes) :
    answerIn I nodes domain q = .ok (answer I nodes domain q) := by
  unfold answerIn answer
  by_cases hshort : q.length < 12
  · rw [if_pos hshort, if_pos hshort]
  have h12 : 12 ≤ q.length := Nat.le_of_not_lt hshort
  have hload : ∀ i, i < 12 → load q i = .ok (byteAt q i) := fun i hi => load_eq (by omega)
  rw [if_neg hshort, if_neg hshort, hload 2 (by decide), hload 3 (by decide), hload 4 (by decide),
    hload 5 (by decide), copyRange_eq (Nat.zero_le 12) h12, parseQnameIn_eq]
  simp only [bind, Except.bind, pure, Except.pure]
  rw [wordAt_eq, wordAt_eq]
  by_cases hqr : (wordAt q 2).testBit 15 = true
  · rw [if_pos hqr, if_pos hqr]
  rw [if_neg hqr, if_neg hqr]
  by_cases hqd : wordAt q 4 < 1
  · rw [if_pos hqd, if_pos hqd]
  rw [if_neg hqd, if_neg hqd]
  cases hparse : parseQname q 16 12 false 12 [] with
  | none => rfl
  | some r =>
    obtain ⟨off, qname⟩ := r
    have hlo : 12 ≤ off := (parseQname_end hparse (Nat.le_refl 12)).1
    simp only
    by_cases hcut : off + 4 > q.length
    · rw [if_pos hcut, if_pos hcut]
    rw [if_neg hcut, if_neg hcut, load_eq (show off < q.length by omega),
      load_eq (show off + 1 < q.length by omega), copyRange_eq (show 12 ≤ off + 4 by omega) (by omega)]
    simp only [wordAt_eq, take_two h12]
    cases nodes.find? (dnsMatches (lowerCopy domain) (lowerCopy qname)) with
    | none =>
      simp only [dnsResponse, List.drop_take]
      rfl
    | some n =>
      simp only [dnsResponse, List.drop_take]
      rfl

end Inside

/-- **The DNS path never reads outside the datagram.** For every datagram and every registry, the
    code with its reads and copies checked ends without a fault, as the code itself does; and where
    `parse_qname` succeeds, the name ends between the header and the end of the datagram. -/
theorem dns_reads_inside (I : Inet) (nodes : List NodeState) (domain q : Bytes) :
    answerIn I nodes domain q = .ok (answer I nodes domain q) ∧
      (∀ hops off jumped stop name, parseQnameIn q hops off jumped stop name =
        .ok (parseQname q hops off jumped stop name)) ∧
      ∀ off name, parseQname q 16 12 false 12 [] = some (off, name) → 12 ≤ off ∧ off ≤ q.length := by
  refine ⟨answerIn_eq I nodes domain q, parseQnameIn_eq q, fun off name h => ?_⟩
  exact parseQname_end h (Nat.le_refl 12)

/-- A pointer to itself behind `alice`: no fault and no answer; and a plain name, with where it ends. -/
theorem dns_reads_inside_loop :
    answerIn Inet.sample [] (ascii "q.local")
        ([0, 7, 1, 0, 0, 1, 0, 0, 0, 0, 0, 0] ++ wireLabels [ascii "alice"] ++ [0xc0, 18, 0, 1, 0, 1]) =
        .ok none ∧
      (parseQname (List.replicate 12 0 ++ encodeName [ascii "alice"] ++ [0, 1, 0, 1]) 16 12 false 12 [] =
        some (19, ascii "alice") ∧ 12 ≤ 19 ∧
        19 ≤ (List.replicate 12 (0 : UInt8) ++ encodeName [ascii "alice"] ++ [0, 1, 0, 1]).length) := by
  have hparse : parseQname (List.replicate 12 0 ++ encodeName [ascii "alice"] ++ [0, 1, 0, 1])
      16 12 false 12 [] = some (19, ascii "alice") := by decide +kernel
  refine ⟨?_, hparse, (dns_reads_inside Inet.sample [] [] _).2.2 19 (ascii "alice") hparse⟩
  rw [(dns_reads_inside Inet.sample [] (ascii "q.local") _).1]
  exact congrArg Except.ok (by decide +kernel)

end Wirebone
