/-
  File:      Wirebone/Lib/Framing.lean
  Subject:   LENGTH-PREFIXED FRAMES ON A STREAM OF OCTETS.

  A frame is a header of fixed width, which tells the length of the payload, and the payload. The
  reader takes header after header, each with as much as it tells, and stops where the stream ends
  inside a frame.

  * `Header` -- a header format, with the lengths it can tell;
  * `frame`, `unframe` -- the writer and the reader;
  * **`unframe_frames`** -- the reader finds the payloads of a stream of frames, in order;
  * **`unframe_of_part`** -- in a first part of such a stream it finds a first part of them.
-/
import Mathlib.Data.List.Basic

namespace Framing

variable {β : Type*}

/-- A header format: lengths below `bound` can be read back. -/
structure Header (β : Type*) where
  width : Nat
  bound : Nat
  write : Nat → List β
  read : List β → Nat
  width_pos : 0 < width
  write_length : ∀ n, (write n).length = width
  read_write : ∀ n, n < bound → read (write n) = n

def frame (H : Header β) (payload : List β) : List β := H.write payload.length ++ payload

/-- The payloads a reader finds, and what is left. The first argument bounds the frames. -/
def unframe (H : Header β) : Nat → List β → List (List β) × List β
  | 0, b => ([], b)
  | fuel + 1, b =>
    if b.length < H.width then ([], b)
    else
      let n := H.read (b.take H.width)
      let rest := b.drop H.width
      if rest.length < n then ([], b)
      else
        let r := unframe H fuel (rest.drop n)
        (rest.take n :: r.1, r.2)

section Reader

variable {H : Header β} {p b : List β} {ps : List (List β)}

theorem frame_length (H : Header β) (p : List β) : (frame H p).length = H.width + p.length := by
  rw [frame, List.length_append, H.write_length]

theorem take_frame (H : Header β) (p rest : List β) :
    (frame H p ++ rest).take H.width = H.write p.length := by
  rw [frame, List.append_assoc, ← H.write_length p.length, List.take_left]

theorem drop_frame (H : Header β) (p rest : List β) :
    (frame H p ++ rest).drop H.width = p ++ rest := by
  rw [frame, List.append_assoc, ← H.write_length p.length, List.drop_left]

/-- The reader takes one frame. -/
theorem unframe_frame (hp : p.length < H.bound) (fuel : Nat) (rest : List β) :
    unframe H (fuel + 1) (frame H p ++ rest) =
      (p :: (unframe H fuel rest).1, (unframe H fuel rest).2) := by
  have hlong : ¬ (frame H p ++ rest).length < H.width := by
    rw [List.length_append, frame_length]
    omega
  have hrest : ¬ (p ++ rest).length < p.length := by
    rw [List.length_append]
    omega
  simp only [unframe, if_neg hlong, take_frame, drop_frame, H.read_write _ hp, if_neg hrest,
    List.take_left, List.drop_left]

/-- **The reader finds the payloads of a stream of frames.** -/
theorem unframe_frames (hps : ∀ p ∈ ps, p.length < H.bound) {fuel : Nat} (hfuel : ps.length ≤ fuel) :
    unframe H fuel (ps.map (frame H)).flatten = (ps, []) := by
  induction ps generalizing fuel with
  | nil =>
    cases fuel with
    | zero => rfl
    | succ fuel => simp only [List.map_nil, List.flatten_nil, unframe, List.length_nil, if_pos H.width_pos]
  | cons p ps ih =>
    cases fuel with
    | zero => simp at hfuel
    | succ fuel =>
      rw [List.map_cons, List.flatten_cons, unframe_frame (hps p List.mem_cons_self),
        ih (fun q hq => hps q (List.mem_cons_of_mem _ hq)) (by simpa using hfuel)]

/-- A stream has no more frames than octets. -/
theorem length_le_flatten (ps : List (List β)) : ps.length ≤ ((ps.map (frame H)).flatten).length := by
  induction ps with
  | nil => exact Nat.le_refl 0
  | cons p ps ih =>
    have hpos := H.width_pos
    rw [List.map_cons, List.flatten_cons, List.length_append, frame_length, List.length_cons]
    omega

/-- The stream ends inside a frame. -/
theorem unframe_short (hp : p.length < H.bound) (hpart : b <+: frame H p) (hne : b ≠ frame H p)
    (fuel : Nat) : (unframe H fuel b).1 = [] := by
  cases fuel with
  | zero => rfl
  | succ fuel =>
    obtain ⟨rest, hrest⟩ := hpart
    have hlen : b.length < (frame H p).length := by
      rw [← hrest, List.length_append]
      have hpos : rest ≠ [] := by
        rintro rfl
        exact hne (by simpa using hrest)
      have := List.length_pos_of_ne_nil hpos
      omega
    by_cases hshort : b.length < H.width
    · simp only [unframe, if_pos hshort]
    · -- the header is complete, so the payload is not
      have hhead : b.take H.width = H.write p.length := by
        have hfull := take_frame H p []
        rw [List.append_nil, ← hrest, List.take_append_of_le_length (by omega)] at hfull
        exact hfull
      have hdrop : (b.drop H.width).length < p.length := by
        rw [frame_length] at hlen
        rw [List.length_drop]
        omega
      simp only [unframe, if_neg hshort, hhead, H.read_write _ hp, if_pos hdrop]

/-- **In a first part of a stream the reader finds a first part of the payloads.** -/
theorem unframe_of_part (hps : ∀ p ∈ ps, p.length < H.bound) (fuel : Nat)
    (hpart : b <+: (ps.map (frame H)).flatten) : (unframe H fuel b).1 <+: ps := by
  induction ps generalizing b fuel with
  | nil =>
    rw [List.map_nil, List.flatten_nil, List.prefix_nil] at hpart
    subst hpart
    cases fuel with
    | zero => exact List.nil_prefix
    | succ fuel =>
      simp only [unframe, List.length_nil, if_pos H.width_pos]
      exact List.nil_prefix
  | cons p ps ih =>
    have hp := hps p List.mem_cons_self
    rw [List.map_cons, List.flatten_cons] at hpart
    by_cases hlen : (frame H p).length ≤ b.length
    · -- the first frame is complete
      obtain ⟨b', rfl⟩ : frame H p <+: b :=
        List.prefix_of_prefix_length_le (List.prefix_append _ _) hpart hlen
      have hpart' : b' <+: (ps.map (frame H)).flatten := (List.prefix_append_right_inj _).mp hpart
      cases fuel with
      | zero => exact List.nil_prefix
      | succ fuel =>
        rw [unframe_frame hp]
        exact List.cons_prefix_cons.mpr ⟨rfl, ih (fun q hq => hps q (List.mem_cons_of_mem _ hq)) fuel hpart'⟩
    · have hin : b <+: frame H p :=
        List.prefix_of_prefix_length_le hpart (List.prefix_append _ _) (by omega)
      rw [unframe_short hp hin (by rintro rfl; omega)]
      exact List.nil_prefix

end Reader

end Framing
