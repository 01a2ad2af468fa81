/-
  File:      Wirebone/Lib/FirstMatch.lean
  Subject:   LISTS SEARCHED FROM THE FRONT: the first entry that matches is read or updated.

  A table kept as a list and looked up by a loop that stops at the first match. `modifyFirst p f`
  updates that entry in place.

  * `modifyFirst_map` -- a field that `f` keeps is kept at every position;
  * `find?_modifyFirst`, `find?_modifyFirst_other` -- what lookups see after an update;
  * `modifyFirst_eq_self_iff`, `view_modifyFirst` -- which updates change the list, and which views
    of it they change; `forall_modifyFirst_congr` -- which they do not tell apart;
  * `getElem?_modifyFirst` -- the entries that do not match keep their places;
  * `forall_modifyFirst_iff`, `eraseP_modifyFirst` -- the updated entry and the others apart;
  * `pushUntil` -- a loop that converts entry after entry and stops at the first failure, keeping
    what it has pushed.
-/
import Mathlib.Data.List.Basic

namespace FirstMatch

variable {α β : Type*} {p q : α → Bool} {f : α → α}

/-- Update the first entry that matches `p`. -/
def modifyFirst (p : α → Bool) (f : α → α) : List α → List α
  | [] => []
  | a :: l => if p a then f a :: l else a :: modifyFirst p f l

theorem modifyFirst_map {g : α → β} (h : ∀ a, g (f a) = g a) (l : List α) :
    (modifyFirst p f l).map g = l.map g := by
  induction l with
  | nil => rfl
  | cons a l ih =>
    by_cases ha : p a
    · simp only [modifyFirst, if_pos ha, List.map_cons, h]
    · simp only [modifyFirst, if_neg ha, List.map_cons, ih]

theorem modifyFirst_length (l : List α) : (modifyFirst p f l).length = l.length := by
  have h := congrArg List.length (modifyFirst_map (p := p) (f := f) (g := fun _ => ()) (fun _ => rfl) l)
  simpa using h

theorem find?_modifyFirst (h : ∀ a, p a = true → p (f a) = true) (l : List α) :
    (modifyFirst p f l).find? p = (l.find? p).map f := by
  induction l with
  | nil => rfl
  | cons a l ih =>
    by_cases ha : p a = true
    · rw [modifyFirst, if_pos ha, List.find?_cons_of_pos (h a ha), List.find?_cons_of_pos ha]
      rfl
    · rw [modifyFirst, if_neg ha, List.find?_cons_of_neg ha, List.find?_cons_of_neg ha, ih]

/-- A lookup that never meets an entry matching `p` sees nothing of the update. -/
theorem find?_modifyFirst_other (h : ∀ a, p a = true → q a = false ∧ q (f a) = false) (l : List α) :
    (modifyFirst p f l).find? q = l.find? q := by
  induction l with
  | nil => rfl
  | cons a l ih =>
    by_cases ha : p a = true
    · obtain ⟨h1, h2⟩ := h a ha
      rw [modifyFirst, if_pos ha, List.find?_cons_of_neg (by simp [h2]),
        List.find?_cons_of_neg (by simp [h1])]
    · rw [modifyFirst, if_neg ha, List.find?_cons, List.find?_cons, ih]

/-- A second update of the entry that changes nothing after the first. -/
theorem modifyFirst_twice {f' : α → α} (h : ∀ a, p a = true → p (f a) = true)
    (hf : ∀ a, f' (f a) = f a) (l : List α) :
    modifyFirst p f' (modifyFirst p f l) = modifyFirst p f l := by
  induction l with
  | nil => rfl
  | cons a l ih =>
    by_cases ha : p a = true
    · rw [modifyFirst, if_pos ha, modifyFirst, if_pos (h a ha), hf]
    · rw [modifyFirst, if_neg ha, modifyFirst, if_neg ha, ih]

/-- Without a match nothing is updated. -/
theorem modifyFirst_of_none {l : List α} (h : l.find? p = none) : modifyFirst p f l = l := by
  induction l with
  | nil => rfl
  | cons a l ih =>
    have ha : ¬ p a = true := fun ha => by
      rw [List.find?_cons_of_pos ha] at h
      cases h
    rw [List.find?_cons_of_neg ha] at h
    rw [modifyFirst, if_neg ha, ih h]

/-- An update changes the list exactly if it changes the entry. -/
theorem modifyFirst_eq_self_iff (l : List α) :
    modifyFirst p f l = l ↔ ∀ a, l.find? p = some a → f a = a := by
  induction l with
  | nil => exact ⟨fun _ a ha => (nomatch ha), fun _ => rfl⟩
  | cons b l ih =>
    by_cases hb : p b = true
    · rw [modifyFirst, if_pos hb, List.find?_cons_of_pos hb]
      constructor
      · intro h a ha
        cases ha
        exact (List.cons.inj h).1
      · intro h
        rw [h b rfl]
    · rw [modifyFirst, if_neg hb, List.find?_cons_of_neg hb, ← ih]
      exact ⟨fun h => (List.cons.inj h).2, fun h => by rw [h]⟩

/-- An entry that does not match stays where it is, and none appears. -/
theorem getElem?_modifyFirst (h : ∀ a, p a = true → p (f a) = true) (l : List α) {k : Nat} {a : α}
    (ha : p a = false) : (modifyFirst p f l)[k]? = some a ↔ l[k]? = some a := by
  induction l generalizing k with
  | nil => rfl
  | cons b l ih =>
    by_cases hb : p b = true
    · rw [modifyFirst, if_pos hb]
      cases k with
      | zero =>
        -- the entry at the front matches before and after: it is not `a`
        have hne : b ≠ a := fun e => by rw [e, ha] at hb; cases hb
        have hne' : f b ≠ a := fun e => by
          have hfb := h b hb
          rw [e, ha] at hfb
          cases hfb
        simp [hne, hne']
      | succ k => rfl
    · rw [modifyFirst, if_neg hb]
      cases k with
      | zero => rfl
      | succ k => exact ih

/-- A view of the list (some entries, each through `t`) shows the update exactly where it shows the
    updated entry, and shows it differently. -/
theorem view_modifyFirst {t : α → β} (hq : ∀ a, q (f a) = q a) (l : List α) :
    ((modifyFirst p f l).filter q).map t = (l.filter q).map t ↔
      ∀ a, l.find? p = some a → q a = true → t (f a) = t a := by
  induction l with
  | nil => exact ⟨fun _ a ha => (nomatch ha), fun _ => rfl⟩
  | cons b l ih =>
    by_cases hb : p b = true
    · rw [modifyFirst, if_pos hb, List.find?_cons_of_pos hb]
      by_cases hqb : q b = true
      · rw [List.filter_cons_of_pos ((hq b).trans hqb), List.filter_cons_of_pos hqb, List.map_cons,
          List.map_cons]
        constructor
        · intro h a ha _
          cases ha
          exact (List.cons.inj h).1
        · intro h
          rw [h b rfl hqb]
      · rw [List.filter_cons_of_neg (by rw [hq]; exact hqb), List.filter_cons_of_neg hqb]
        refine ⟨fun _ a ha hqa => ?_, fun _ => rfl⟩
        cases ha
        exact absurd hqa hqb
    · rw [modifyFirst, if_neg hb, List.find?_cons_of_neg hb]
      by_cases hqb : q b = true
      · rw [List.filter_cons_of_pos hqb, List.filter_cons_of_pos hqb, List.map_cons, List.map_cons, ← ih]
        exact ⟨fun h => (List.cons.inj h).2, fun h => by rw [h]⟩
      · rw [List.filter_cons_of_neg hqb, List.filter_cons_of_neg hqb]
        exact ih

/-- Two updates that agree on what `P` says of the updated entry agree on what it says of all. -/
theorem forall_modifyFirst_congr {P : α → Prop} {g : α → α} (h : ∀ a, P (f a) ↔ P (g a)) (l : List α) :
    (∀ a ∈ modifyFirst p f l, P a) ↔ ∀ a ∈ modifyFirst p g l, P a := by
  induction l with
  | nil => rfl
  | cons b l ih =>
    by_cases hb : p b = true
    · rw [modifyFirst, modifyFirst, if_pos hb, if_pos hb, List.forall_mem_cons, List.forall_mem_cons, h b]
    · rw [modifyFirst, modifyFirst, if_neg hb, if_neg hb, List.forall_mem_cons, List.forall_mem_cons, ih]

/-- Without the first match, nothing of its update is left. -/
theorem eraseP_modifyFirst (h : ∀ a, p a = true → p (f a) = true) (l : List α) :
    (modifyFirst p f l).eraseP p = l.eraseP p := by
  induction l with
  | nil => rfl
  | cons a l ih =>
    by_cases ha : p a = true
    · rw [modifyFirst, if_pos ha, List.eraseP_cons_of_pos (h a ha), List.eraseP_cons_of_pos ha]
    · rw [modifyFirst, if_neg ha, List.eraseP_cons_of_neg ha, List.eraseP_cons_of_neg ha, ih]

/-- Another entry can be taken out before the update or after it. -/
theorem eraseP_modifyFirst_other (h : ∀ a, p a = true → q a = false ∧ q (f a) = false) (l : List α) :
    (modifyFirst p f l).eraseP q = modifyFirst p f (l.eraseP q) := by
  induction l with
  | nil => rfl
  | cons a l ih =>
    by_cases ha : p a = true
    · obtain ⟨hq, hq'⟩ := h a ha
      rw [modifyFirst, if_pos ha, List.eraseP_cons_of_neg (by simp [hq']),
        List.eraseP_cons_of_neg (by simp [hq]), modifyFirst, if_pos ha]
    · rw [modifyFirst, if_neg ha]
      by_cases hq : q a = true
      · rw [List.eraseP_cons_of_pos hq, List.eraseP_cons_of_pos hq]
      · rw [List.eraseP_cons_of_neg hq, List.eraseP_cons_of_neg hq, modifyFirst, if_neg ha, ih]

/-- Taking another entry out leaves the first match. -/
theorem find?_eraseP_other (h : ∀ a, p a = true → q a = false) (l : List α) :
    (l.eraseP q).find? p = l.find? p := by
  induction l with
  | nil => rfl
  | cons a l ih =>
    by_cases hq : q a = true
    · have ha : ¬ p a = true := fun hp => by rw [h a hp] at hq; cases hq
      rw [List.eraseP_cons_of_pos hq, List.find?_cons_of_neg ha]
    · rw [List.eraseP_cons_of_neg hq]
      by_cases ha : p a = true
      · rw [List.find?_cons_of_pos ha, List.find?_cons_of_pos ha]
      · rw [List.find?_cons_of_neg ha, List.find?_cons_of_neg ha, ih]

/-- What holds of all entries after an update holds of the updated one and of all others. -/
theorem forall_modifyFirst_iff {P : α → Prop} {l : List α} {a : α} (h : l.find? p = some a) :
    (∀ b ∈ modifyFirst p f l, P b) ↔ P (f a) ∧ ∀ b ∈ l.eraseP p, P b := by
  induction l with
  | nil => cases h
  | cons b l ih =>
    by_cases hb : p b = true
    · rw [List.find?_cons_of_pos hb] at h
      cases h
      rw [modifyFirst, if_pos hb, List.eraseP_cons_of_pos hb, List.forall_mem_cons]
    · rw [List.find?_cons_of_neg hb] at h
      rw [modifyFirst, if_neg hb, List.eraseP_cons_of_neg hb, List.forall_mem_cons, List.forall_mem_cons, ih h]
      exact and_left_comm

/-! ## Pushing until a failure -/

/-- Convert entry after entry: what was converted, and the failure that ended the loop. -/
def pushUntil {ε : Type*} (get : α → Except ε β) : List α → List β × Option ε
  | [] => ([], none)
  | a :: l =>
    match get a with
    | .error e => ([], some e)
    | .ok b => (b :: (pushUntil get l).1, (pushUntil get l).2)

/-- Where every conversion succeeds, the loop is a map. -/
theorem pushUntil_map {γ ε : Type*} {get : α → Except ε β} {put : γ → α} {g : γ → β}
    (h : ∀ c, get (put c) = .ok (g c)) (l : List γ) :
    pushUntil get (l.map put) = (l.map g, none) := by
  induction l with
  | nil => rfl
  | cons c l ih => rw [List.map_cons, pushUntil, h, ih, List.map_cons]

/-- What the loop has pushed was converted from what it visits. -/
theorem mem_pushUntil {ε : Type*} {get : α → Except ε β} {l : List α} {b : β}
    (h : b ∈ (pushUntil get l).1) : ∃ a ∈ l, get a = .ok b := by
  induction l with
  | nil => cases h
  | cons a l ih =>
    rw [pushUntil] at h
    cases hg : get a with
    | error e =>
      rw [hg] at h
      cases h
    | ok b' =>
      rw [hg] at h
      rcases List.mem_cons.mp h with rfl | h
      · exact ⟨a, List.mem_cons_self, hg⟩
      · obtain ⟨a', ha', hb⟩ := ih h
        exact ⟨a', List.mem_cons_of_mem _ ha', hb⟩

/-- The loop that keeps nothing on a failure, in terms of the one that keeps what it has. -/
theorem mapM_pushUntil {ε : Type*} (get : α → Except ε β) (l : List α) :
    l.mapM get =
      match (pushUntil get l).2 with
      | none => .ok (pushUntil get l).1
      | some e => .error e := by
  induction l with
  | nil => rfl
  | cons a l ih =>
    rw [List.mapM_cons, ih, pushUntil]
    cases get a with
    | error e => rfl
    | ok b =>
      cases (pushUntil get l).2 with
      | none => rfl
      | some e => rfl

/-- A loop that throws has not come to the end of its list. -/
theorem length_pushUntil_lt {ε : Type*} {get : α → Except ε β} {l : List α}
    (h : (pushUntil get l).2 ≠ none) : (pushUntil get l).1.length < l.length := by
  induction l with
  | nil => exact absurd rfl h
  | cons a l ih =>
    rw [pushUntil] at h ⊢
    cases hget : get a with
    | error e => exact Nat.zero_lt_succ _
    | ok b =>
      rw [hget] at h
      exact Nat.succ_lt_succ (ih h)

end FirstMatch
