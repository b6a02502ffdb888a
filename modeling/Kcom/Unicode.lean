import Kcom.Utf16
import Kcom.Com.Object

/-!
# UNICODE_STRING

`OwnedUnicodeString::new_in` and `unicode_string_to_string` (`src/unicode.rs`): a
string is counted in UTF-16 units, stored unit by unit behind a length in bytes
that has to fit in 16 bits, and read back through the same length. The memory
holds 16-bit cells at byte addresses; the allocator is the pointer it returns for
a layout, null where it fails.

`unicode_codec` says that the two functions are inverse on every string and that
the second is exact on every sequence of units.
-/

namespace Kcom.Unicode

open ReprC (Mem)
open Com (Width)
open Utf16

/-! ## Data -/

inductive UnicodeStringError
  | tooLong
  | allocationFailed
  | invalidUtf16
  deriving DecidableEq, Repr

/-- `UNICODE_STRING`. -/
structure UnicodeString where
  length : UInt16
  maximumLength : UInt16
  buffer : Nat
  deriving DecidableEq, Repr

/-- `OwnedUnicodeString`, without its allocator. -/
structure OwnedUnicodeString where
  inner : UnicodeString
  buffer : Nat
  bufferLen : Nat
  deriving DecidableEq, Repr

/-- `core::alloc::Layout`. -/
structure Layout where
  size : Nat
  align : Nat
  deriving DecidableEq, Repr

/-- `Layout::array::<u16>`, which fails above `isize::MAX`. -/
def Layout.arrayU16 (w : Width) (n : Nat) : Option Layout :=
  if 2 * n + 1 < 2 ^ (8 * w.bytes - 1) then some ⟨2 * n, 2⟩ else none

/-- Write units one after the other. -/
def writeUnits (m : Mem UInt16) (p : Nat) : List UInt16 → Mem UInt16
  | [] => m
  | u :: us => writeUnits (m.write p u) (p + 2) us

/-- `slice::from_raw_parts`; `none` where a unit is not readable. -/
def readUnits (m : Mem UInt16) (p : Nat) : Nat → Option (List UInt16)
  | 0 => some []
  | n + 1 => do
      let u ← m p
      let us ← readUnits m (p + 2) n
      some (u :: us)

/-! ## The functions -/

def newIn (w : Width) (alloc : Layout → Nat) (value : String) (m : Mem UInt16) :
    Except UnicodeStringError (OwnedUnicodeString × Mem UInt16) :=
  let len := (encode value.toList).length
  let maxUnits := 65535 / 2
  if len + 1 > maxUnits then .error .tooLong
  else
    match Layout.arrayU16 w (len + 1) with
    | none => .error .tooLong
    | some layout =>
        let buffer := alloc layout
        if buffer = 0 then .error .allocationFailed
        else
          let m := (writeUnits m buffer (encode value.toList)).write (buffer + 2 * len) 0
          .ok (⟨⟨.ofNat (len * 2), .ofNat ((len + 1) * 2), buffer⟩, buffer, len + 1⟩, m)

def OwnedUnicodeString.asUtf16 (m : Mem UInt16) (s : OwnedUnicodeString) : Option (List UInt16) :=
  readUnits m s.buffer (s.inner.length.toNat / 2)

def unicodeStringAsSlice (m : Mem UInt16) (unicode : UnicodeString) : Option (List UInt16) :=
  if unicode.buffer = 0 ∨ unicode.length = 0 then some []
  else readUnits m unicode.buffer (unicode.length.toNat / 2)

/-- The loop over `decode_utf16`. A `push` within the reserved capacity does not
allocate; `none` is one beyond it, which panics if there is no memory. -/
def pushAll (capacity : Nat) : String → List (Except UInt16 Char) →
    Option (Except UnicodeStringError String)
  | out, [] => some (.ok out)
  | out, .ok ch :: rest =>
      if out.utf8ByteSize + ch.utf8Size ≤ capacity then pushAll capacity (out.push ch) rest
      else none
  | _, .error _ :: _ => some (.error .invalidUtf16)

/-- `reserve` tells which reservations the global allocator grants; a reservation of
nothing is always granted. -/
def unicodeStringToString (w : Width) (reserve : Nat → Bool) (m : Mem UInt16)
    (unicode : UnicodeString) : Option (Except UnicodeStringError String) := do
  let slice ← unicodeStringAsSlice m unicode
  if 2 ^ (8 * w.bytes) ≤ slice.length * 3 then some (.error .tooLong)
  else if slice.length * 3 = 0 ∨ reserve (slice.length * 3) = true then
    pushAll (slice.length * 3) "" (decode slice)
  else some (.error .allocationFailed)

/-! ## The buffer -/

section Buffer

variable {m : Mem UInt16} {p a : Nat} {us : List UInt16}

theorem writeUnits_below (below : a < p) : writeUnits m p us a = m a := by
  induction us generalizing m p with
  | nil => rfl
  | cons u us ih =>
      have next : a < p + 2 := Nat.lt_add_right 2 below
      calc writeUnits (m.write p u) (p + 2) us a = m.write p u a := ih next
        _ = m a := Mem.write_of_ne (Nat.ne_of_lt below)

theorem writeUnits_above (above : p + 2 * us.length ≤ a) : writeUnits m p us a = m a := by
  induction us generalizing m p with
  | nil => rfl
  | cons u us ih =>
      rw [List.length_cons] at above
      calc writeUnits (m.write p u) (p + 2) us a = m.write p u a := ih (by omega)
        _ = m a := Mem.write_of_ne (by omega)

/-- Stores beyond the last unit leave a slice as it is. -/
theorem readUnits_write {c : UInt16} {n : Nat} (beyond : p + 2 * n ≤ a) :
    readUnits (m.write a c) p n = readUnits m p n := by
  induction n generalizing p with
  | zero => rfl
  | succ n ih =>
      have here : m.write a c p = m p := Mem.write_of_ne (by omega)
      rw [readUnits, readUnits, here, ih (by omega)]

theorem readUnits_append {us vs : List UInt16} (first : readUnits m p us.length = some us)
    (second : readUnits m (p + 2 * us.length) vs.length = some vs) :
    readUnits m p (us ++ vs).length = some (us ++ vs) := by
  induction us generalizing p with
  | nil => exact second
  | cons u us ih =>
      rw [List.length_cons, readUnits] at first
      obtain ⟨u', here, rest⟩ := Option.bind_eq_some_iff.mp first
      obtain ⟨us', tail, same⟩ := Option.bind_eq_some_iff.mp rest
      obtain ⟨rfl, rfl⟩ := List.cons.inj (Option.some.inj same)
      have later : p + 2 + 2 * us'.length = p + 2 * (u' :: us').length := by
        rw [List.length_cons]
        omega
      rw [← later] at second
      rw [List.cons_append, List.length_cons, readUnits, here, ih tail second]
      rfl

theorem readUnits_writeUnits : readUnits (writeUnits m p us) p us.length = some us := by
  induction us generalizing m p with
  | nil => rfl
  | cons u us ih =>
      have here : writeUnits (m.write p u) (p + 2) us p = some u := by
        rw [writeUnits_below (by omega), Mem.write_same]
      rw [List.length_cons, readUnits, writeUnits, here, ih]
      rfl

end Buffer

/-! ## Reading -/

section Reading

variable {capacity : Nat} {out : String} {units : List UInt16}

/-- With room for the whole text, the loop appends it. -/
theorem pushAll_ok (t : List Char)
    (room : out.utf8ByteSize + (t.map Char.utf8Size).sum ≤ capacity) :
    pushAll capacity out (t.map .ok) = some (.ok (out ++ String.ofList t)) := by
  induction t generalizing out with
  | nil => rw [List.map_nil, pushAll, String.ofList_nil, String.append_empty]
  | cons c t ih =>
      rw [List.map_cons, List.sum_cons] at room
      have later : (out.push c).utf8ByteSize + (t.map Char.utf8Size).sum ≤ capacity := by
        rw [String.utf8ByteSize_push]
        omega
      have joined : out.push c ++ String.ofList t = out ++ String.ofList (c :: t) := by
        apply String.toList_injective
        simp
      rw [List.map_cons, pushAll, if_pos (by omega), ih later, joined]

/-- The loop stops at the first error, before the text outgrows the reservation. -/
theorem pushAll_error (formed : ¬WellFormed units)
    (room : out.utf8ByteSize + 3 * units.length ≤ capacity) :
    pushAll capacity out (decode units) = some (.error .invalidUtf16) := by
  fun_induction decode units generalizing out with
  | case1 => exact absurd .nil formed
  | case2 u =>
      split_ifs with surrogate
      · rfl
      · obtain ⟨high, low⟩ := not_or.mp surrogate
        exact absurd (.scalar high low .nil) formed
  | case3 u v rest high low ih =>
      have char := utf8Size_le_encodeChar (Utf16.pair u v)
      rw [encodeChar_pair high low] at char
      simp only [List.length_cons, List.length_nil] at char room
      rw [pushAll, if_pos (by omega)]
      apply ih fun tail => formed (.pair high low tail)
      rw [String.utf8ByteSize_push]
      omega
  | case4 => rfl
  | case5 => rfl
  | case6 u v rest high low ih =>
      have char := utf8Size_le_encodeChar (Utf16.scalar u)
      rw [encodeChar_scalar high low] at char
      simp only [List.length_cons, List.length_nil] at char room
      rw [pushAll, if_pos (by omega)]
      apply ih fun tail => formed (.scalar high low tail)
      rw [List.length_cons, String.utf8ByteSize_push]
      omega

end Reading

/-! ## The two functions together -/

section Codec

variable {w : Width} {m m' : Mem UInt16} {p n : Nat} {units : List UInt16} {unicode : UnicodeString}
  {reserve : Nat → Bool}

/-- A slice is readable where each of its units is. -/
theorem readUnits_iff : readUnits m p n = some units ↔
    units.length = n ∧ ∀ (i : Nat) (u : UInt16), units[i]? = some u → m (p + 2 * i) = some u := by
  induction n generalizing p units with
  | zero =>
      rw [readUnits, Option.some.injEq, List.length_eq_zero_iff]
      constructor
      · intro empty
        subst empty
        exact ⟨rfl, nofun⟩
      · intro ⟨empty, _⟩
        exact empty.symm
  | succ n ih =>
      constructor
      · intro read
        obtain ⟨u, here, rest⟩ := Option.bind_eq_some_iff.mp read
        obtain ⟨us, tail, same⟩ := Option.bind_eq_some_iff.mp rest
        obtain rfl := Option.some.inj same
        obtain ⟨length, later⟩ := ih.mp tail
        refine ⟨congrArg (· + 1) length, ?_⟩
        intro i v found
        cases i with
        | zero => exact here.trans found
        | succ i =>
            have next := later i v found
            rwa [show p + 2 + 2 * i = p + 2 * (i + 1) by omega] at next
      · intro ⟨length, each⟩
        cases units with
        | nil => cases length
        | cons u us =>
            have here : m p = some u := each 0 u rfl
            have tail : readUnits m (p + 2) n = some us := by
              refine ih.mpr ⟨Nat.succ.inj length, ?_⟩
              intro i v found
              have next := each (i + 1) v found
              rwa [show p + 2 * (i + 1) = p + 2 + 2 * i by omega] at next
            simp [readUnits, here, tail]

/-- The units that a `UNICODE_STRING` counts: the `Length / 2` cells at its `Buffer`, and none
where it is null. -/
structure UnicodeString.Holds (m : Mem UInt16) (unicode : UnicodeString) (units : List UInt16) :
    Prop where
  length : units.length = if unicode.buffer = 0 then 0 else unicode.length.toNat / 2
  cells : ∀ (i : Nat) (u : UInt16), units[i]? = some u → m (unicode.buffer + 2 * i) = some u

theorem slice_iff : unicodeStringAsSlice m unicode = some units ↔ unicode.Holds m units := by
  have whole : unicodeStringAsSlice m unicode =
      readUnits m unicode.buffer (if unicode.buffer = 0 then 0 else unicode.length.toNat / 2) := by
    unfold unicodeStringAsSlice
    by_cases null : unicode.buffer = 0
    · rw [if_pos (.inl null), if_pos null, readUnits]
    · by_cases zero : unicode.length = 0
      · rw [if_pos (.inr zero), if_neg null, zero]
        rfl
      · rw [if_neg (by simp [null, zero]), if_neg null]
  rw [whole, readUnits_iff]
  exact ⟨fun ⟨length, cells⟩ => ⟨length, cells⟩, fun holds => ⟨holds.length, holds.cells⟩⟩

/-- A `UNICODE_STRING` holds at most 32767 units. -/
theorem slice_length (slice : unicodeStringAsSlice m unicode = some units) :
    units.length ≤ 32767 := by
  have bound := unicode.length.toNat_lt
  have length := (slice_iff.mp slice).length
  split at length <;> omega

/-- With memory for the text only the loop decides. -/
theorem toString_eq (slice : unicodeStringAsSlice m unicode = some units)
    (memory : reserve (units.length * 3) = true) :
    unicodeStringToString w reserve m unicode = pushAll (units.length * 3) "" (decode units) := by
  have short := slice_length slice
  have wide : 2 ^ 32 ≤ 2 ^ (8 * w.bytes) := by cases w <;> decide
  rw [unicodeStringToString, slice]
  simp only [Option.bind_eq_bind, Option.bind_some]
  rw [if_neg (by omega), if_pos (.inr memory)]

theorem toString_encode (s : String)
    (slice : unicodeStringAsSlice m unicode = some (encode s.toList))
    (memory : reserve ((encode s.toList).length * 3) = true) :
    unicodeStringToString w reserve m unicode = some (.ok s) := by
  have room : ("" : String).utf8ByteSize + (s.toList.map Char.utf8Size).sum ≤
      (encode s.toList).length * 3 := by
    have bytes := utf8Size_le s.toList
    rw [String.utf8ByteSize_empty]
    omega
  rw [toString_eq slice memory, decode_encode, pushAll_ok _ room, String.empty_append,
    String.ofList_toList]

theorem toString_illFormed (slice : unicodeStringAsSlice m unicode = some units)
    (memory : reserve (units.length * 3) = true) (formed : ¬WellFormed units) :
    unicodeStringToString w reserve m unicode = some (.error .invalidUtf16) := by
  rw [toString_eq slice memory]
  apply pushAll_error formed
  rw [String.utf8ByteSize_empty]
  omega

/-- The `UNICODE_STRING` that `new_in` has built of `value` in the block of `layout` at
`buffer`. -/
structure Encoded (value : String) (layout : Layout) (buffer : Nat) (m : Mem UInt16)
    (s : OwnedUnicodeString) (m' : Mem UInt16) : Prop where
  length : s.inner.length.toNat = 2 * (encode value.toList).length
  maximumLength : s.inner.maximumLength.toNat = 2 * ((encode value.toList).length + 1)
  pointer : s.inner.buffer = buffer ∧ s.buffer = buffer
  units : readUnits m' buffer ((encode value.toList).length + 1) = some (encode value.toList ++ [0])
  /-- Only units of the block are written. -/
  inside : ∀ a, m' a ≠ m a → buffer ≤ a ∧ a + 2 ≤ buffer + layout.size

theorem arrayU16_eq (short : n ≤ 32767) : Layout.arrayU16 w n = some ⟨2 * n, 2⟩ := by
  have wide : 2 ^ 31 ≤ 2 ^ (8 * w.bytes - 1) := by cases w <;> decide
  rw [Layout.arrayU16, if_pos (by omega)]

/-- The terminated units of a string, as `new_in` writes them. -/
theorem readUnits_terminated (us : List UInt16) :
    readUnits ((writeUnits m p us).write (p + 2 * us.length) 0) p (us.length + 1) =
      some (us ++ [0]) := by
  have first : readUnits ((writeUnits m p us).write (p + 2 * us.length) 0) p us.length = some us :=
    (readUnits_write (Nat.le_refl _)).trans readUnits_writeUnits
  have last : readUnits ((writeUnits m p us).write (p + 2 * us.length) 0) (p + 2 * us.length)
      [(0 : UInt16)].length = some [0] := by
    rw [List.length_singleton, readUnits, Mem.write_same]
    rfl
  have whole := readUnits_append first last
  rw [List.length_append] at whole
  exact whole

theorem newIn_eq {alloc : Layout → Nat} {value : String}
    (short : (encode value.toList).length ≤ 32766)
    (allocated : alloc ⟨2 * ((encode value.toList).length + 1), 2⟩ ≠ 0) :
    ∃ s m', newIn w alloc value m = .ok (s, m') ∧
      Encoded value ⟨2 * ((encode value.toList).length + 1), 2⟩
        (alloc ⟨2 * ((encode value.toList).length + 1), 2⟩) m s m' := by
  have array : Layout.arrayU16 w ((encode value.toList).length + 1) = some _ :=
    arrayU16_eq (Nat.succ_le_succ short)
  rw [newIn, if_neg (by omega), array]
  dsimp only
  rw [if_neg allocated]
  generalize alloc _ = buffer at allocated ⊢
  refine ⟨_, _, rfl, ?_, ?_, ⟨rfl, rfl⟩, readUnits_terminated _, ?_⟩
  · have fits : (encode value.toList).length * 2 < 2 ^ 16 := by omega
    exact (UInt16.toNat_ofNat_of_lt' fits).trans (Nat.mul_comm _ _)
  · have fits : ((encode value.toList).length + 1) * 2 < 2 ^ 16 := by omega
    exact (UInt16.toNat_ofNat_of_lt' fits).trans (Nat.mul_comm _ _)
  · intro a changed
    dsimp only at changed ⊢
    by_contra outside
    apply changed
    rcases Nat.lt_or_ge a buffer with below | from_
    · rw [Mem.write_of_ne (by omega), writeUnits_below below]
    · rw [Mem.write_of_ne (by omega), writeUnits_above (by omega)]

theorem readUnits_of_append {us vs : List UInt16} (read : readUnits m p n = some (us ++ vs)) :
    readUnits m p us.length = some us := by
  induction us generalizing p n with
  | nil => rfl
  | cons u us ih =>
      cases n with
      | zero => cases read
      | succ n =>
          obtain ⟨u', here, rest⟩ := Option.bind_eq_some_iff.mp read
          obtain ⟨us', tail, same⟩ := Option.bind_eq_some_iff.mp rest
          obtain ⟨rfl, rfl⟩ := List.cons.inj (Option.some.inj same)
          rw [List.length_cons, readUnits, here, ih tail]
          rfl

theorem Encoded.asUtf16 {value : String} {layout : Layout} {buffer : Nat} {s : OwnedUnicodeString}
    (encoded : Encoded value layout buffer m s m') : s.asUtf16 m' = some (encode value.toList) := by
  have half : s.inner.length.toNat / 2 = (encode value.toList).length := by
    rw [encoded.length]
    omega
  rw [OwnedUnicodeString.asUtf16, encoded.pointer.2, half]
  exact readUnits_of_append encoded.units

theorem Encoded.slice {value : String} {layout : Layout} {buffer : Nat} {s : OwnedUnicodeString}
    (encoded : Encoded value layout buffer m s m') (nonnull : buffer ≠ 0) :
    unicodeStringAsSlice m' s.inner = some (encode value.toList) := by
  have units : s.asUtf16 m' = some (encode value.toList) := encoded.asUtf16
  rw [OwnedUnicodeString.asUtf16, encoded.pointer.2, ← encoded.pointer.1] at units
  unfold unicodeStringAsSlice
  split
  · rename_i empty
    rcases empty with null | zero
    · exact absurd (encoded.pointer.1.symm.trans null) nonnull
    · rw [zero] at units
      exact units
  · exact units

theorem newIn_tooLong {alloc : Layout → Nat} {value : String} :
    newIn w alloc value m = .error .tooLong ↔ 32766 < (encode value.toList).length := by
  constructor
  · intro tooLong
    by_contra fits
    have array : Layout.arrayU16 w ((encode value.toList).length + 1) = some _ :=
      arrayU16_eq (Nat.succ_le_succ (Nat.le_of_not_lt fits))
    unfold newIn at tooLong
    rw [if_neg (by omega), array] at tooLong
    dsimp only at tooLong
    split at tooLong <;> cases tooLong
  · intro long
    unfold newIn
    rw [if_pos (by omega)]

end Codec

/-- **The codec.** `new_in` refuses exactly the strings of more than 32766 units and
stores the others, from where `unicode_string_to_string` reads them back; and of any
`UNICODE_STRING` that function returns the text that its units stand for if they are
well formed, and `InvalidUtf16` otherwise. -/
theorem unicode_codec (w : Width) :
    (∀ (alloc : Layout → Nat) (value : String) (m : Mem UInt16),
      (newIn w alloc value m = .error .tooLong ↔ 32766 < (encode value.toList).length) ∧
        ((encode value.toList).length ≤ 32766 →
          alloc ⟨2 * ((encode value.toList).length + 1), 2⟩ ≠ 0 →
          ∃ s m', newIn w alloc value m = .ok (s, m') ∧
            Encoded value ⟨2 * ((encode value.toList).length + 1), 2⟩
              (alloc ⟨2 * ((encode value.toList).length + 1), 2⟩) m s m' ∧
            s.asUtf16 m' = some (encode value.toList) ∧
            ∀ reserve : Nat → Bool, reserve ((encode value.toList).length * 3) = true →
              unicodeStringToString w reserve m' s.inner = some (.ok value))) ∧
      ∀ (reserve : Nat → Bool) (m : Mem UInt16) (unicode : UnicodeString) (units : List UInt16),
        unicode.Holds m units → reserve (units.length * 3) = true →
          ((∃ t, unicodeStringToString w reserve m unicode = some (.ok t) ∧
              encode t.toList = units) ↔ WellFormed units) ∧
            (¬WellFormed units →
              unicodeStringToString w reserve m unicode = some (.error .invalidUtf16)) := by
  constructor
  · intro alloc value m
    refine ⟨newIn_tooLong, fun short allocated => ?_⟩
    obtain ⟨s, m', built, encoded⟩ := newIn_eq short allocated
    refine ⟨s, m', built, encoded, encoded.asUtf16, fun reserve memory => ?_⟩
    exact toString_encode value (encoded.slice allocated) memory
  · intro reserve m unicode units holds memory
    have slice := slice_iff.mpr holds
    refine ⟨⟨?_, fun formed => ?_⟩, toString_illFormed slice memory⟩
    · rintro ⟨t, -, rfl⟩
      exact wellFormed_encode _
    · obtain ⟨t, rfl⟩ := formed.exists_encode
      have text : (String.ofList t).toList = t := String.toList_ofList
      refine ⟨String.ofList t, ?_, by rw [text]⟩
      rw [← text] at slice memory
      exact toString_encode _ slice memory

/-- A text with a character outside the first plane, read back from its four units. -/
theorem unicode_codec_of_pair :
    ∃ s m', newIn .w64 (fun _ => 0x1000) "aß😀" (fun _ => none) = .ok (s, m') ∧
      s.inner = ⟨8, 10, 0x1000⟩ ∧
      unicodeStringToString .w64 (fun _ => true) m' s.inner = some (.ok "aß😀") := by
  have short : (encode "aß😀".toList).length ≤ 32766 := by decide
  obtain ⟨s, m', built, encoded, -, read⟩ :=
    ((unicode_codec .w64).1 (fun _ => 0x1000) "aß😀" (fun _ => none)).2 short (by decide)
  refine ⟨s, m', built, ?_, read _ rfl⟩
  have bytes : s.inner.length = 8 := UInt16.toNat_inj.mp encoded.length
  have all : s.inner.maximumLength = 10 := UInt16.toNat_inj.mp encoded.maximumLength
  show (⟨s.inner.length, s.inner.maximumLength, s.inner.buffer⟩ : UnicodeString) = _
  rw [bytes, all, encoded.pointer.1]

end Kcom.Unicode
