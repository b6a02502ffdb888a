import Kcom.Unicode

/-!
# `LocalUnicodeString`

A buffer of `n` units on the stack with the number of units in use (`src/unicode.rs`).
What lies beyond the terminator is left over from earlier contents, since `clear` only
resets the length. A push needs room for its units and a NUL in the smaller of `n` and
32767 units, and writes nothing where it is refused.

An index out of bounds is a panic, `none` here. Sums of lengths do not overflow: a `&str`
has at most `isize::MAX` bytes, and no more units than bytes.
-/

namespace Kcom.Unicode

open Utf16

/-- `LocalUnicodeString<N>`. -/
structure LocalUnicodeString (n : Nat) where
  buffer : List UInt16
  len : Nat
  size : buffer.length = n
  deriving DecidableEq

namespace LocalUnicodeString

variable {n : Nat}

/-! ## The functions -/

def new : LocalUnicodeString n where
  buffer := List.replicate n 0
  len := 0
  size := List.length_replicate

/-- `self.buffer[i] = unit`. -/
def setUnit (s : LocalUnicodeString n) (i : Nat) (unit : UInt16) : Option (LocalUnicodeString n) :=
  if i < n then
    some { s with buffer := s.buffer.set i unit, size := List.length_set.trans s.size }
  else none

/-- The loop over `encode_utf16`, from the index `i` on. -/
def setUnits (s : LocalUnicodeString n) (i : Nat) : List UInt16 → Option (LocalUnicodeString n)
  | [] => some s
  | unit :: units => (s.setUnit i unit).bind fun s => setUnits s (i + 1) units

/-- The smaller of `N` and the most units a `UNICODE_STRING` can count. -/
def capUnits (n : Nat) : Nat :=
  min n (65535 / 2)

def clear (s : LocalUnicodeString n) : Option (LocalUnicodeString n) :=
  let s := { s with len := 0 }
  if n ≠ 0 then s.setUnit 0 0 else some s

def tryPushStr (s : LocalUnicodeString n) (value : String) :
    Option (Except UnicodeStringError Unit × LocalUnicodeString n) :=
  let valueLen := (encode value.toList).length
  if s.len + valueLen + 1 > capUnits n then some (.error .tooLong, s)
  else do
    let s ← s.setUnits s.len (encode value.toList)
    let s := { s with len := s.len + valueLen }
    let s ← if s.len < n then s.setUnit s.len 0 else some s
    some (.ok (), s)

def fromStr (value : String) : Option (Except UnicodeStringError (LocalUnicodeString n)) :=
  (new.tryPushStr value).map fun (result, s) => result.map fun _ => s

/-- `fmt::Write::write_str`, whose error carries nothing. -/
def writeStr (s : LocalUnicodeString n) (value : String) :
    Option (Except Unit Unit × LocalUnicodeString n) :=
  (s.tryPushStr value).map fun (result, s) => (result.mapError fun _ => (), s)

/-- `&self.buffer[..self.len]`. -/
def asUtf16 (s : LocalUnicodeString n) : Option (List UInt16) :=
  if s.len ≤ n then some (s.buffer.take s.len) else none

/-- `as_unicode_ref` of a value whose buffer is at `address`. -/
def asUnicodeRef (address : Nat) (s : LocalUnicodeString n) : UnicodeString where
  length := .ofNat (s.len * 2)
  maximumLength := .ofNat (capUnits n * 2)
  buffer := address

/-! ## The contents -/

variable {s s' : LocalUnicodeString n} {units more : List UInt16} {value : String} {i : Nat}

/-- The buffer holds `units` and, if it holds anything, a NUL after them. -/
structure Holds (s : LocalUnicodeString n) (units : List UInt16) : Prop where
  len : s.len = units.length
  taken : s.buffer.take s.len = units
  nul : 0 < n → s.buffer[s.len]? = some 0
  fits : units = [] ∨ units.length + 1 ≤ capUnits n

theorem capUnits_le (n : Nat) : capUnits n ≤ n ∧ capUnits n ≤ 32767 := by
  unfold capUnits
  omega

theorem Holds.len_le (holds : s.Holds units) : s.len ≤ n := by
  have cap := capUnits_le n
  rw [holds.len]
  rcases holds.fits with rfl | fits
  · exact Nat.zero_le n
  · omega

theorem holds_new : (new : LocalUnicodeString n).Holds [] where
  len := rfl
  taken := rfl
  nul := fun positive => List.getElem?_replicate_of_lt positive
  fits := .inl rfl

/-- The loop writes the units one after the other, and nothing else. -/
theorem setUnits_eq (inside : i + units.length ≤ n) :
    ∃ s', s.setUnits i units = some s' ∧ s'.len = s.len ∧
      s'.buffer.take (i + units.length) = s.buffer.take i ++ units := by
  induction units generalizing s i with
  | nil => exact ⟨s, rfl, rfl, (List.append_nil _).symm⟩
  | cons unit units ih =>
      rw [List.length_cons] at inside
      have here : s.setUnit i unit = some _ := if_pos (by omega)
      obtain ⟨s', written, len, taken⟩ := ih (s := ⟨s.buffer.set i unit, s.len,
        List.length_set.trans s.size⟩) (i := i + 1) (by omega)
      refine ⟨s', ?_, len, ?_⟩
      · rw [setUnits, here]
        exact written
      · have bound : i < s.buffer.length := by
          rw [s.size]
          omega
        rw [List.length_cons, show i + (units.length + 1) = i + 1 + units.length by omega, taken,
          List.take_add_one, List.take_set_of_le (Nat.le_refl i)]
        simp [bound]

/-- A NUL is written after the units in use. -/
theorem holds_terminated (len : s.len = units.length) (taken : s.buffer.take s.len = units)
    (inside : s.len < n) (fits : units = [] ∨ units.length + 1 ≤ capUnits n) :
    ∃ s', s.setUnit s.len 0 = some s' ∧ s'.Holds units := by
  refine ⟨_, if_pos inside, len, ?_, fun _ => ?_, fits⟩
  · exact (List.take_set_of_le (Nat.le_refl _)).trans taken
  · exact List.getElem?_set_self (Nat.lt_of_lt_of_eq inside s.size.symm)

/-- A push that fits appends its units. -/
theorem Holds.push (holds : s.Holds units)
    (room : units.length + (encode value.toList).length + 1 ≤ capUnits n) :
    ∃ s', s.tryPushStr value = some (.ok (), s') ∧ s'.Holds (units ++ encode value.toList) := by
  have cap := (capUnits_le n).1
  have total : s.len + (encode value.toList).length = (units ++ encode value.toList).length := by
    rw [holds.len, List.length_append]
  have inside : s.len + (encode value.toList).length < n := by
    rw [holds.len]
    omega
  obtain ⟨s', written, len, taken⟩ := setUnits_eq (s := s) (Nat.le_of_lt inside)
  rw [holds.taken] at taken
  obtain ⟨s'', ended, holds'⟩ := holds_terminated
    (s := { s' with len := s.len + (encode value.toList).length }) total taken inside
    (.inr (by rw [List.length_append]; exact room))
  refine ⟨s'', ?_, holds'⟩
  rw [tryPushStr, if_neg (by rw [holds.len]; omega), written, Option.bind_eq_bind, Option.bind_some,
    len]
  simp only [if_pos inside, ended, Option.bind_some]

/-- A push that does not fit changes nothing. -/
theorem Holds.refuse (holds : s.Holds units)
    (full : capUnits n < units.length + (encode value.toList).length + 1) :
    s.tryPushStr value = some (.error .tooLong, s) := by
  rw [tryPushStr, holds.len]
  exact if_pos full

/-- `from_str` is a push on an empty buffer. -/
theorem fromStr_cases (v : String) :
    ((encode v.toList).length + 1 ≤ capUnits n ∧
      ∃ value : LocalUnicodeString n, fromStr v = some (.ok value) ∧
        value.Holds (encode v.toList)) ∨
    (capUnits n < (encode v.toList).length + 1 ∧
      (fromStr v : Option (Except UnicodeStringError (LocalUnicodeString n))) =
        some (.error .tooLong)) := by
  have fresh : (new : LocalUnicodeString n).Holds [] := holds_new
  rcases Nat.lt_or_ge (capUnits n) ((encode v.toList).length + 1) with full | room
  · have refused : (new : LocalUnicodeString n).tryPushStr v = some (.error .tooLong, new) :=
      fresh.refuse (by simpa using full)
    exact .inr ⟨full, by rw [fromStr, refused]; rfl⟩
  · obtain ⟨value, pushed, holds⟩ : ∃ value, (new : LocalUnicodeString n).tryPushStr v =
        some (.ok (), value) ∧ value.Holds ([] ++ encode v.toList) :=
      fresh.push (by simpa using room)
    exact .inl ⟨room, value, by rw [fromStr, pushed]; rfl, holds⟩

theorem Holds.clear (s : LocalUnicodeString n) : ∃ s', s.clear = some s' ∧ s'.Holds [] := by
  unfold LocalUnicodeString.clear
  split
  · next some =>
      exact holds_terminated (s := { s with len := 0 }) rfl rfl (Nat.pos_of_ne_zero some) (.inl rfl)
  · next none =>
      refine ⟨_, rfl, rfl, rfl, fun positive => ?_, .inl rfl⟩
      omega

theorem Holds.asUtf16 (holds : s.Holds units) : s.asUtf16 = some units := by
  rw [LocalUnicodeString.asUtf16, if_pos holds.len_le, holds.taken]

/-- The two lengths in bytes fit in 16 bits. -/
theorem Holds.asUnicodeRef (holds : s.Holds units) (address : Nat) :
    (s.asUnicodeRef address).length.toNat = 2 * s.len ∧
      (s.asUnicodeRef address).maximumLength.toNat = 2 * capUnits n ∧
      (0 < n → (s.asUnicodeRef address).length.toNat + 2 ≤
        (s.asUnicodeRef address).maximumLength.toNat) := by
  have cap := capUnits_le n
  have small : s.len ≤ capUnits n ∧ (0 < n → s.len + 1 ≤ capUnits n) := by
    rw [holds.len]
    rcases holds.fits with rfl | fits
    · refine ⟨Nat.zero_le _, fun positive => ?_⟩
      simp only [capUnits, List.length_nil]
      omega
    · exact ⟨Nat.le_of_succ_le fits, fun _ => fits⟩
  have short : s.len * 2 < 2 ^ 16 ∧ capUnits n * 2 < 2 ^ 16 := by omega
  have length : (s.asUnicodeRef address).length.toNat = s.len * 2 :=
    UInt16.toNat_ofNat_of_lt' short.1
  have maximum : (s.asUnicodeRef address).maximumLength.toNat = capUnits n * 2 :=
    UInt16.toNat_ofNat_of_lt' short.2
  rw [length, maximum]
  refine ⟨Nat.mul_comm _ _, Nat.mul_comm _ _, fun positive => ?_⟩
  have room := small.2 positive
  omega

end LocalUnicodeString

/-! ## Sequences of operations -/

inductive LocalOp
  | new
  | fromStr (value : String)
  | clear
  | tryPushStr (value : String)
  | writeStr (value : String)
  deriving DecidableEq, Repr

/-- A variable of type `LocalUnicodeString<N>`, with the strings that were pushed
successfully since its contents were last cleared. -/
structure Session (n : Nat) where
  value : LocalUnicodeString n
  pushed : List String

namespace Session

variable {n : Nat}

/-- `LocalUnicodeString::<N>::new()`. -/
def empty (n : Nat) : Session n :=
  ⟨.new, []⟩

/-- One operation. `new` and a successful `from_str` assign the variable; one that fails
has no value to assign. -/
def step (s : Session n) : LocalOp → Option (Session n)
  | .new => some (empty n)
  | .fromStr v => (LocalUnicodeString.fromStr v).map fun
      | .ok value => ⟨value, [v]⟩
      | .error _ => s
  | .clear => s.value.clear.map fun value => ⟨value, []⟩
  | .tryPushStr v => (s.value.tryPushStr v).map fun
      | (.ok (), value) => ⟨value, s.pushed ++ [v]⟩
      | (.error _, value) => ⟨value, s.pushed⟩
  | .writeStr v => (s.value.writeStr v).map fun
      | (.ok (), value) => ⟨value, s.pushed ++ [v]⟩
      | (.error _, value) => ⟨value, s.pushed⟩

/-- A sequence of operations on a new value. -/
def run (n : Nat) (ops : List LocalOp) : Option (Session n) :=
  ops.foldlM step (empty n)

/-- The units of the strings that were pushed. -/
def units (s : Session n) : List UInt16 :=
  s.pushed.flatMap fun v => encode v.toList

variable {s : Session n}

/-- A push appends its string, or leaves everything as it is. -/
theorem push_cases (holds : s.value.Holds s.units) (v : String) :
    (s.units.length + (encode v.toList).length + 1 ≤ LocalUnicodeString.capUnits n ∧
      ∃ value, s.value.tryPushStr v = some (.ok (), value) ∧
        value.Holds (units ⟨value, s.pushed ++ [v]⟩)) ∨
    (LocalUnicodeString.capUnits n < s.units.length + (encode v.toList).length + 1 ∧
      s.value.tryPushStr v = some (.error .tooLong, s.value)) := by
  rcases Nat.lt_or_ge (LocalUnicodeString.capUnits n)
    (s.units.length + (encode v.toList).length + 1) with full | room
  · exact .inr ⟨full, holds.refuse full⟩
  · obtain ⟨value, pushed, holds'⟩ := holds.push room
    refine .inl ⟨room, value, pushed, ?_⟩
    simpa [units] using holds'

theorem holds_step (holds : s.value.Holds s.units) (op : LocalOp) :
    ∃ s', s.step op = some s' ∧ s'.value.Holds s'.units := by
  cases op with
  | new => exact ⟨_, rfl, LocalUnicodeString.holds_new⟩
  | fromStr v =>
      rcases LocalUnicodeString.fromStr_cases (n := n) v with
        ⟨-, value, made, holds'⟩ | ⟨-, refused⟩
      · refine ⟨⟨value, [v]⟩, by rw [step, made, Option.map_some], ?_⟩
        simpa [units] using holds'
      · exact ⟨s, by rw [step, refused, Option.map_some], holds⟩
  | clear =>
      obtain ⟨value, cleared, holds'⟩ := LocalUnicodeString.Holds.clear s.value
      exact ⟨⟨value, []⟩, by rw [step, cleared, Option.map_some], holds'⟩
  | tryPushStr v =>
      rcases push_cases holds v with ⟨-, value, pushed, holds'⟩ | ⟨-, refused⟩
      · exact ⟨⟨value, s.pushed ++ [v]⟩, by rw [step, pushed, Option.map_some], holds'⟩
      · exact ⟨s, by rw [step, refused, Option.map_some], holds⟩
  | writeStr v =>
      rcases push_cases holds v with ⟨-, value, pushed, holds'⟩ | ⟨-, refused⟩
      · refine ⟨⟨value, s.pushed ++ [v]⟩, ?_, holds'⟩
        simp only [step, LocalUnicodeString.writeStr, pushed, Option.map_some, Except.mapError]
      · refine ⟨s, ?_, holds⟩
        simp only [step, LocalUnicodeString.writeStr, refused, Option.map_some, Except.mapError]

theorem holds_run (holds : s.value.Holds s.units) (ops : List LocalOp) :
    ∃ s', ops.foldlM step s = some s' ∧ s'.value.Holds s'.units := by
  induction ops generalizing s with
  | nil => exact ⟨s, rfl, holds⟩
  | cons op ops ih =>
      obtain ⟨s', first, holds'⟩ := holds_step holds op
      obtain ⟨s'', rest, holds''⟩ := ih holds'
      exact ⟨s'', by rw [List.foldlM_cons, first]; exact rest, holds''⟩

end Session

/-- After any sequence of operations none of which has panicked: the contents are the units
pushed since they were last cleared, terminated if there is a buffer, the view counts them
without truncation, and the next push is granted exactly if its units and a NUL fit, and
changes nothing otherwise. `from_str` makes a value exactly of the strings that fit in this
way, and it holds their units. -/
theorem local_unicode_string (n : Nat) (ops : List LocalOp) :
    ∃ s, Session.run n ops = some s ∧
      s.value.asUtf16 = some (s.pushed.flatMap fun v => encode v.toList) ∧
      (0 < n → s.value.buffer[s.value.len]? = some 0) ∧
      (∀ address, (s.value.asUnicodeRef address).length.toNat = 2 * s.value.len ∧
        (s.value.asUnicodeRef address).maximumLength.toNat = 2 * min n 32767 ∧
        (0 < n → (s.value.asUnicodeRef address).length.toNat + 2 ≤
          (s.value.asUnicodeRef address).maximumLength.toNat)) ∧
      (∀ v, ∃ result value, s.value.tryPushStr v = some (result, value) ∧
        (∃ written, s.value.writeStr v = some (written, value) ∧
          (written = .ok () ↔ result = .ok ())) ∧
        (result = .ok () ↔ (s.pushed.flatMap fun v => encode v.toList).length +
          (encode v.toList).length + 1 ≤ min n 32767) ∧
        (result ≠ .ok () → value = s.value)) ∧
      ∀ v, ∃ made : Except UnicodeStringError (LocalUnicodeString n),
        LocalUnicodeString.fromStr v = some made ∧
          ((∃ value, made = .ok value) ↔ (encode v.toList).length + 1 ≤ min n 32767) ∧
          ∀ value, made = .ok value → value.asUtf16 = some (encode v.toList) := by
  have fresh : (Session.empty n).value.Holds (Session.empty n).units :=
    LocalUnicodeString.holds_new
  obtain ⟨s, ran, holds⟩ := Session.holds_run fresh ops
  refine ⟨s, ran, holds.asUtf16, holds.nul, holds.asUnicodeRef, fun v => ?_, fun v => ?_⟩
  · rcases Session.push_cases holds v with ⟨room, value, pushed, -⟩ | ⟨full, refused⟩
    · refine ⟨.ok (), value, pushed, ⟨.ok (), ?_, iff_of_true rfl rfl⟩, iff_of_true rfl room, ?_⟩
      · simp only [LocalUnicodeString.writeStr, pushed, Option.map_some, Except.mapError]
      · exact fun failed => absurd rfl failed
    · refine ⟨.error .tooLong, s.value, refused, ⟨.error (), ?_, iff_of_false nofun nofun⟩,
        iff_of_false nofun (Nat.not_le.mpr full), fun _ => rfl⟩
      simp only [LocalUnicodeString.writeStr, refused, Option.map_some, Except.mapError]
  · rcases LocalUnicodeString.fromStr_cases (n := n) v with ⟨room, value, made, holds'⟩ |
      ⟨full, refused⟩
    · refine ⟨.ok value, made, iff_of_true ⟨value, rfl⟩ room, ?_⟩
      intro value' same
      cases same
      exact holds'.asUtf16
    · exact ⟨_, refused, iff_of_false nofun (Nat.not_le.mpr full), nofun⟩

end Kcom.Unicode
