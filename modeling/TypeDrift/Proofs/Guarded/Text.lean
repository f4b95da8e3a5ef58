import TypeDrift.Proofs.Text.Coordinates

/-! # Guarded runs over a text

The readers of this library go along lists, where there is always a next element or the end.  Read
from a string of bytes and a row of tokens, the same script is reached through offsets and indices,
and every one of them could lie outside of what it points into; and a loop that moves an index could
go on for ever.

A guarded run says so.  Every access checks its offset or its index, every loop counts down a bound,
and what goes wrong is an outcome of its own (`Failure`): beside the reasons that a reader has for
refusing a text, a place that is out of range, and a bound that is used up.  The modules of this
directory follow the readers in this way, and show that a guarded run has the outcome of the reader
it follows.  So neither failure ever occurs.

This module has the text.  An offset counts bytes and is in range where it lies between two
characters (`Text.splitAt?_eq_some_iff`); in between no text can be taken.
-/
namespace TypeDrift

/-- Why a guarded run has no answer. -/
inductive Failure (ε : Type) where
  /-- What is read is refused. -/
  | refused (reason : ε)
  /-- A place that was looked up is none. -/
  | outOfRange
  /-- A loop has used up its bound. -/
  | endless
deriving DecidableEq, Repr

/-- The outcome of a guarded run. -/
abbrev Guarded (ε α : Type) := Except (Failure ε) α

namespace Guarded

variable {ε δ α β : Type}

/-- The outcome of a run in which nothing but a refusal can go wrong. -/
def plain : Except ε α → Guarded ε α
  | .ok a => .ok a
  | .error reason => .error (.refused reason)

/-- What was looked up. -/
def found : Option α → Guarded ε α
  | some a => .ok a
  | none => .error .outOfRange

/-- A refusal, for another reason. -/
def withReason (f : ε → δ) : Guarded ε α → Guarded δ α
  | .ok a => .ok a
  | .error (.refused reason) => .error (.refused (f reason))
  | .error .outOfRange => .error .outOfRange
  | .error .endless => .error .endless

@[simp] theorem ok_bind (a : α) (next : α → Guarded ε β) :
    ((.ok a : Guarded ε α) >>= next) = next a := rfl

@[simp] theorem error_bind (failure : Failure ε) (next : α → Guarded ε β) :
    ((.error failure : Guarded ε α) >>= next) = .error failure := rfl

@[simp] theorem found_some (a : α) : (found (some a) : Guarded ε α) = .ok a := rfl

@[simp] theorem plain_ok (a : α) : (plain (.ok a) : Guarded ε α) = .ok a := rfl

@[simp] theorem plain_error (reason : ε) :
    (plain (.error reason) : Guarded ε α) = .error (.refused reason) := rfl

end Guarded

namespace Text

/-- How many bytes a text takes. -/
def bytes : List Char → Nat
  | [] => 0
  | c :: text => c.utf8Size + bytes text

/-- The text before an offset and the text behind it, if the offset lies between two characters or
at an end. -/
def splitAt? : List Char → Nat → Option (List Char × List Char)
  | text, 0 => some ([], text)
  | [], _ + 1 => none
  | c :: text, offset + 1 =>
    if offset + 1 < c.utf8Size then none
    else (splitAt? text (offset + 1 - c.utf8Size)).map fun parts => (c :: parts.1, parts.2)

theorem bytes_append (front rest : List Char) :
    bytes (front ++ rest) = bytes front + bytes rest := by
  induction front with
  | nil => exact (Nat.zero_add _).symm
  | cons c front ih => rw [List.cons_append, bytes, bytes, ih, Nat.add_assoc]

theorem bytes_cons_pos (c : Char) (text : List Char) : 0 < bytes (c :: text) :=
  Nat.lt_of_lt_of_le c.utf8Size_pos (Nat.le_add_right _ _)

/-- **The offsets in range** are those between two characters, at most the length of the text. -/
theorem splitAt?_eq_some_iff {text front rest : List Char} {offset : Nat} :
    splitAt? text offset = some (front, rest) ↔ text = front ++ rest ∧ offset = bytes front := by
  constructor
  · intro h
    fun_induction splitAt? text offset generalizing front with
    | case1 => cases h; exact ⟨rfl, rfl⟩
    | case2 => cases h
    | case3 => cases h
    | case4 c text offset hsize ih =>
      obtain ⟨⟨front', rest'⟩, hsplit, heq⟩ := Option.map_eq_some_iff.mp h
      cases heq
      obtain ⟨rfl, hoffset⟩ := ih hsplit
      refine ⟨rfl, ?_⟩
      rw [bytes, ← hoffset]
      omega
  · rintro ⟨rfl, rfl⟩
    induction front with
    | nil => rw [splitAt?.eq_def]; rfl
    | cons c front ih =>
      have hpositive := Nat.ne_of_gt (bytes_cons_pos c front)
      obtain ⟨offset, hoffset⟩ := Nat.exists_eq_succ_of_ne_zero hpositive
      have hsize : ¬offset + 1 < c.utf8Size := by
        rw [← Nat.succ_eq_add_one, ← hoffset, bytes]
        omega
      have hbehind : offset + 1 - c.utf8Size = bytes front := by
        rw [← Nat.succ_eq_add_one, ← hoffset, bytes]
        omega
      rw [hoffset, List.cons_append, Nat.succ_eq_add_one, splitAt?, if_neg hsize, hbehind, ih]
      rfl

/-- Within a character of two bytes nothing can be taken. -/
example : splitAt? ['é', 'a'] 1 = none := by decide

/-- The first step of a text, as it is written. -/
def firstStep : List Char → List Char
  | '\r' :: '\n' :: _ => ['\r', '\n']
  | c :: _ => [c]
  | [] => []

/-- The text behind its first step. -/
def behindStep : List Char → List Char
  | '\r' :: '\n' :: rest => rest
  | _ :: rest => rest
  | [] => []

theorem firstStep_append (text : List Char) : firstStep text ++ behindStep text = text := by
  unfold firstStep
  split
  · rfl
  · next c rest hpair =>
    rw [behindStep]
    · rfl
    · exact hpair
  · rfl

/-- A text begins with a line break of two characters, or its first step is a character. -/
theorem step_cases (c : Char) (rest : List Char) :
    (∃ tail, c = '\r' ∧ rest = '\n' :: tail ∧ firstStep (c :: rest) = ['\r', '\n'] ∧
        behindStep (c :: rest) = tail) ∨
      (¬(c = '\r' ∧ rest.head? = some '\n') ∧ firstStep (c :: rest) = [c] ∧
        behindStep (c :: rest) = rest) := by
  by_cases hpair : c = '\r' ∧ rest.head? = some '\n'
  · obtain ⟨rfl, hhead⟩ := hpair
    cases rest with
    | nil => cases hhead
    | cons d tail =>
      cases Option.some.inj hhead
      exact .inl ⟨tail, rfl, rfl, rfl, rfl⟩
  · refine .inr ⟨hpair, ?_, ?_⟩
    · rw [firstStep]
      rintro tail rfl rfl
      exact hpair ⟨rfl, rfl⟩
    · rw [behindStep]
      rintro tail rfl rfl
      exact hpair ⟨rfl, rfl⟩

theorem behindStep_of_ne {c : Char} (rest : List Char) (h : c ≠ '\r') :
    behindStep (c :: rest) = rest := by
  rcases step_cases c rest with ⟨_, hc, -⟩ | ⟨-, -, hbehind⟩
  · exact absurd hc h
  · exact hbehind

theorem length_behindStep_lt (c : Char) (rest : List Char) :
    (behindStep (c :: rest)).length < (c :: rest).length := by
  rcases step_cases c rest with ⟨tail, rfl, rfl, -, hbehind⟩ | ⟨-, -, hbehind⟩
  · rw [hbehind]
    simp only [List.length_cons]
    omega
  · rw [hbehind]
    exact Nat.lt_succ_self _

/-- The steps of a text are its first one and those behind it, however much of these is taken. -/
theorem steps_firstStep_append (c : Char) (rest : List Char) {body left : List Char}
    (h : behindStep (c :: rest) = body ++ left) :
    steps (firstStep (c :: rest) ++ body) = c :: steps body := by
  rcases step_cases c rest with ⟨tail, rfl, rfl, hfirst, -⟩ | ⟨hpair, hfirst, hbehind⟩
  · rw [hfirst]
    rfl
  · rw [hfirst]
    refine steps_cons ?_
    rintro ⟨hc, hhead⟩
    refine hpair ⟨Option.some.inj hc, ?_⟩
    replace hhead : body.head? = some '\n' := hhead
    rw [← hbehind, h, List.head?_append, hhead]
    rfl

end Text

namespace Guarded

open Text

variable {ε : Type}

/-! ## Accesses to a text -/

/-- The text from an offset on. -/
def ahead (source : List Char) (offset : Nat) : Guarded ε (List Char) :=
  found ((splitAt? source offset).map Prod.snd)

/-- The text between two offsets. -/
def slice (source : List Char) (start stop : Nat) : Guarded ε (List Char) := do
  let (front, _) ← found (splitAt? source stop)
  let (_, text) ← found (splitAt? front start)
  .ok text

/-- The character at an offset, unless the text ends there. -/
def peek (source : List Char) (offset : Nat) : Guarded ε (Option Char) := do
  let rest ← ahead source offset
  .ok rest.head?

/-- The second character from an offset on. -/
def peekSecond (source : List Char) (offset : Nat) : Guarded ε (Option Char) := do
  let rest ← ahead source offset
  .ok rest.tail.head?

/-- The offset one step further on. -/
def advance (source : List Char) (offset : Nat) : Guarded ε Nat := do
  match ← peek source offset with
  | none => .ok offset
  | some c =>
    let behind := offset + c.utf8Size
    if c = '\r' then
      let next ← peek source behind
      .ok (if next = some '\n' then behind + 1 else behind)
    else .ok behind

/-- The offset so many steps further on. -/
def advanceTimes (source : List Char) : Nat → Nat → Guarded ε Nat
  | 0, offset => .ok offset
  | times + 1, offset => do advanceTimes source times (← advance source offset)

/-- The steps from an offset on, as long as `p` holds of their characters, and the offset behind
them. -/
def passWhile (source : List Char) (p : Char → Bool) : Nat → Nat → Guarded ε (List Char × Nat)
  | 0, _ => .error .endless
  | bound + 1, offset => do
    match ← peek source offset with
    | none => .ok ([], offset)
    | some c =>
      if p c then
        let (passed, stop) ← passWhile source p bound (← advance source offset)
        .ok (c :: passed, stop)
      else .ok ([], offset)

/-! ## Offsets in range -/

/-- The offset lies in the source, before this text. -/
def At (source : List Char) (offset : Nat) (rest : List Char) : Prop :=
  ∃ front, source = front ++ rest ∧ offset = bytes front

namespace At

variable {source rest : List Char} {offset : Nat}

theorem start (source : List Char) : At source 0 source := ⟨[], rfl, rfl⟩

theorem forward (taken : List Char) (h : At source offset (taken ++ rest)) :
    At source (offset + bytes taken) rest := by
  obtain ⟨front, rfl, rfl⟩ := h
  exact ⟨front ++ taken, (List.append_assoc ..).symm, (bytes_append ..).symm⟩

theorem ahead (h : At source offset rest) : (ahead source offset : Guarded ε _) = .ok rest := by
  obtain ⟨front, hsource, hoffset⟩ := h
  rw [Guarded.ahead, splitAt?_eq_some_iff.mpr ⟨hsource, hoffset⟩]
  rfl

theorem peek (h : At source offset rest) : (peek source offset : Guarded ε _) = .ok rest.head? := by
  rw [Guarded.peek, h.ahead]
  rfl

theorem peekSecond (h : At source offset rest) :
    (peekSecond source offset : Guarded ε _) = .ok rest.tail.head? := by
  rw [Guarded.peekSecond, h.ahead]
  rfl

/-- What lies between two offsets in range. -/
theorem slice {taken : List Char} {stop : Nat} (h : At source offset (taken ++ rest))
    (hstop : At source stop rest) : (slice source offset stop : Guarded ε _) = .ok taken := by
  obtain ⟨front, rfl, rfl⟩ := h
  obtain ⟨front', hsource, rfl⟩ := hstop
  obtain rfl : front ++ taken = front' :=
    List.append_cancel_right ((List.append_assoc ..).trans hsource)
  have hinside : splitAt? (front ++ taken) (bytes front) = some (front, taken) :=
    splitAt?_eq_some_iff.mpr ⟨rfl, rfl⟩
  simp only [Guarded.slice, splitAt?_eq_some_iff.mpr ⟨hsource, rfl⟩, found_some, ok_bind, hinside]

/-- **A step leads from an offset in range to an offset in range.** -/
theorem advance {c : Char} (h : At source offset (c :: rest)) :
    ∃ next, (advance source offset : Guarded ε _) = .ok next ∧
      At source next (behindStep (c :: rest)) := by
  have hbehind : At source (offset + c.utf8Size) rest := h.forward [c]
  rw [Guarded.advance, h.peek]
  rcases step_cases c rest with ⟨tail, rfl, rfl, -, htail⟩ | ⟨hpair, -, hrest⟩
  · refine ⟨offset + Char.utf8Size '\r' + 1, ?_, ?_⟩
    · simp only [List.head?_cons, ok_bind, if_true, hbehind.peek]
    · rw [htail]
      exact hbehind.forward ['\n']
  · refine ⟨offset + c.utf8Size, ?_, hrest.symm ▸ hbehind⟩
    simp only [List.head?_cons, ok_bind]
    split
    · next hc =>
      have hnext : rest.head? ≠ some '\n' := fun hnext => hpair ⟨hc, hnext⟩
      simp only [hbehind.peek, ok_bind, if_neg hnext]
    · rfl

theorem advance_of_ne {c : Char} (h : At source offset (c :: rest)) (hc : c ≠ '\r') :
    ∃ next, (Guarded.advance source offset : Guarded ε _) = .ok next ∧ At source next rest :=
  behindStep_of_ne rest hc ▸ h.advance

theorem advance_nil (h : At source offset []) :
    (Guarded.advance source offset : Guarded ε _) = .ok offset := by
  rw [Guarded.advance, h.peek]
  rfl

theorem advanceTimes {taken : List Char} (h : At source offset (taken ++ rest))
    (htaken : ∀ c ∈ taken, c ≠ '\r') :
    ∃ stop, (advanceTimes source taken.length offset : Guarded ε _) = .ok stop ∧
      At source stop rest := by
  induction taken generalizing offset with
  | nil => exact ⟨offset, rfl, h⟩
  | cons c taken ih =>
    obtain ⟨hc, htaken⟩ := List.forall_mem_cons.mp htaken
    obtain ⟨next, hnext, hat⟩ := h.advance_of_ne (ε := ε) hc
    obtain ⟨stop, hstop, hat'⟩ := ih hat htaken
    refine ⟨stop, ?_, hat'⟩
    rw [List.length_cons, Guarded.advanceTimes, hnext, ok_bind, hstop]

/-- A loop that stops at line breaks passes what `takeWhile` takes. -/
theorem passWhile {p : Char → Bool} (hp : p '\r' = false) {bound : Nat} (h : At source offset rest)
    (hbound : rest.length < bound) :
    ∃ stop, (passWhile source p bound offset : Guarded ε _) = .ok (rest.takeWhile p, stop) ∧
      At source stop (rest.dropWhile p) := by
  induction bound generalizing offset rest with
  | zero => exact absurd hbound (Nat.not_lt_zero _)
  | succ bound ih =>
    rw [Guarded.passWhile, h.peek]
    cases rest with
    | nil => exact ⟨offset, rfl, h⟩
    | cons c rest =>
      cases hc : p c with
      | false =>
        rw [List.takeWhile_cons_of_neg (by simp [hc]), List.dropWhile_cons_of_neg (by simp [hc])]
        refine ⟨offset, ?_, h⟩
        simp only [List.head?_cons, ok_bind, hc, Bool.false_eq_true, if_false]
      | true =>
        have hne : c ≠ '\r' := by
          rintro rfl
          rw [hp] at hc
          cases hc
        obtain ⟨next, hnext, hat⟩ := h.advance_of_ne (ε := ε) hne
        obtain ⟨stop, hstop, hat'⟩ := ih hat (Nat.lt_of_succ_lt_succ hbound)
        rw [List.takeWhile_cons_of_pos hc, List.dropWhile_cons_of_pos hc]
        refine ⟨stop, ?_, hat'⟩
        simp only [List.head?_cons, ok_bind, hc, if_true, hnext, hstop]

end At

/-- A guarded run follows a reader on a list: both refuse for the same reason, or both have the same
answer and stop at the same place. -/
inductive Follows {α : Type} (source : List Char) :
    Guarded ε (α × Nat) → Except ε (α × List Char) → Prop where
  | ok (a : α) {stop : Nat} {rest : List Char} (hat : At source stop rest) :
      Follows source (.ok (a, stop)) (.ok (a, rest))
  | refused (reason : ε) : Follows source (.error (.refused reason)) (.error reason)

/-- A step whose outcome is known, in front of a run that follows. -/
theorem Follows.step {α β : Type} {source : List Char} {x : Guarded ε β} {b : β}
    {next : β → Guarded ε (α × Nat)} {outcome : Except ε (α × List Char)} (hx : x = .ok b)
    (h : Follows source (next b) outcome) : Follows source (x >>= next) outcome := by
  subst hx
  exact h

end Guarded
end TypeDrift
