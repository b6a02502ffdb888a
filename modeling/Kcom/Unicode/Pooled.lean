import Kcom.Allocator.Shared
import Kcom.Unicode

/-!
# Strings in the pool

`OwnedUnicodeString::new_in` with a `WdkAllocator`: the buffer is a block of the kernel's
pool and its units lie there as bytes, next to whatever else the pool holds. `cells` is the
pool as memory of 16-bit units, of which only those inside a block may be read; over it the
functions of `Kcom.Unicode` read what the bytes say.

`drop` works the layout out again from the length of the buffer.
-/

namespace Kcom.Unicode

open ReprC (Bytes Mem Region)
open Com (Width)
open Allocator (Config WdkAllocator Answer Pool Block Fresh Grant)
open Utf16

/-! ## Units as bytes -/

/-- Write units one after the other. -/
def storeUnits (m : Bytes) (p : Nat) : List UInt16 → Bytes
  | [] => m
  | u :: us => storeUnits (m.writeWord p 2 u.toNat) (p + 2) us

/-- The `n` units from `p` on. -/
def unitsAt (m : Bytes) (p : Nat) : Nat → List UInt16
  | 0 => []
  | n + 1 => .ofNat (m.readWord p 2) :: unitsAt m (p + 2) n

/-- Some block of the pool has the two bytes. -/
def readable (p : Pool) (a : Nat) : Bool :=
  p.blocks.any fun b => b.base ≤ a ∧ a + 2 ≤ b.base + b.size

/-- The units that may be read. -/
def cells (p : Pool) : Mem UInt16 :=
  fun a => if readable p a then some (.ofNat (p.mem.readWord a 2)) else none

section Units

variable {m m' : Bytes} {a n p : Nat} {us : List UInt16}

theorem storeUnits_of_not_has {x : Nat} (outside : ¬(Region.mk p (2 * us.length)).Has x) :
    storeUnits m p us x = m x := by
  induction us generalizing m p with
  | nil => rfl
  | cons u us ih =>
      rw [List.length_cons] at outside
      have later : ¬(Region.mk (p + 2) (2 * us.length)).Has x := by
        unfold Region.Has at *
        dsimp only at *
        omega
      calc storeUnits m p (u :: us) x = m.writeWord p 2 u.toNat x := ih later
        _ = m x := by
          unfold Region.Has at outside
          dsimp only at outside
          rcases Nat.lt_or_ge x p with below | here
          · exact Bytes.writeWord_below below
          · exact Bytes.writeWord_above (by omega)

theorem unitsAt_congr (same : ∀ x, a ≤ x → x < a + 2 * n → m' x = m x) :
    unitsAt m' a n = unitsAt m a n := by
  induction n generalizing a with
  | zero => rfl
  | succ n ih =>
      have first : m'.readWord a 2 = m.readWord a 2 :=
        Bytes.readWord_congr fun x low high => same x low (by omega)
      rw [unitsAt, unitsAt, first, ih fun x low high => same x (by omega) (by omega)]

theorem unitsAt_storeUnits : unitsAt (storeUnits m p us) p us.length = us := by
  induction us generalizing m p with
  | nil => rfl
  | cons u us ih =>
      have first : (storeUnits (m.writeWord p 2 u.toNat) (p + 2) us).readWord p 2 = u.toNat := by
        have written : (m.writeWord p 2 u.toNat).readWord p 2 = u.toNat :=
          Bytes.readWord_writeWord_of_lt u.toNat_lt
        refine Eq.trans (Bytes.readWord_congr fun x _ high => ?_) written
        apply storeUnits_of_not_has
        unfold Region.Has
        dsimp only
        omega
      rw [List.length_cons, unitsAt, storeUnits, first, ih, UInt16.ofNat_toNat]

/-- Units inside a block can be read. -/
theorem readUnits_cells {p : Pool} {b : Block} (block : b ∈ p.blocks)
    (inside : b.base ≤ a ∧ a + 2 * n ≤ b.base + b.size) :
    readUnits (cells p) a n = some (unitsAt p.mem a n) := by
  induction n generalizing a with
  | zero => rfl
  | succ n ih =>
      have here : readable p a = true := by
        refine List.any_eq_true.mpr ⟨b, block, decide_eq_true ?_⟩
        omega
      have cell : cells p a = some (.ofNat (p.mem.readWord a 2)) := if_pos here
      rw [readUnits, cell, ih (by omega), unitsAt]
      rfl

end Units

/-! ## The functions -/

/-- `Layout::array::<u16>`. -/
def arrayU16 (w : Width) (n : Nat) : Option Allocator.Layout :=
  if 2 * n + 1 < 2 ^ (8 * w.bytes - 1) then some ⟨2 * n, 2, 1, rfl⟩ else none

/-- The fields that describe the text at `buffer`. -/
def describe (value : String) (buffer : Nat) : OwnedUnicodeString :=
  let len := (encode value.toList).length
  ⟨⟨.ofNat (len * 2), .ofNat ((len + 1) * 2), buffer⟩, buffer, len + 1⟩

/-- The units of the text, and the terminator. -/
def storeText (value : String) (buffer : Nat) (m : Bytes) : Bytes :=
  let units := encode value.toList
  (storeUnits m buffer units).writeWord (buffer + 2 * units.length) 2 0

/-- `new_in` -/
def OwnedUnicodeString.newIn (cfg : Config) (value : String) (alloc : WdkAllocator)
    (ans : Answer) (p : Pool) : Option (Pool × Except UnicodeStringError OwnedUnicodeString) :=
  let len := (encode value.toList).length
  let maxUnits := 65535 / 2
  if len + 1 > maxUnits then some (p, .error .tooLong)
  else
    match arrayU16 cfg.build.width (len + 1) with
    | none => some (p, .error .tooLong)
    | some layout =>
        (cfg.alloc alloc ans layout p).map fun (p, buffer) =>
          if buffer = 0 then (p, .error .allocationFailed)
          else ({ p with mem := storeText value buffer p.mem }, .ok (describe value buffer))

def OwnedUnicodeString.drop (cfg : Config) (s : OwnedUnicodeString) (alloc : WdkAllocator)
    (p : Pool) : Option Pool :=
  if s.buffer = 0 then some p
  else
    match arrayU16 cfg.build.width s.bufferLen with
    | none => some p
    | some layout => cfg.dealloc alloc s.buffer layout p

/-- The layout of a text's buffer. -/
def textLayout (value : String) : Allocator.Layout :=
  ⟨2 * ((encode value.toList).length + 1), 2, 1, rfl⟩

section Functions

variable {cfg : Config} {value : String} {alloc : WdkAllocator} {ans : Answer} {p : Pool}
  {buffer : Nat} {w : Width}

theorem arrayU16_of_short (short : (encode value.toList).length ≤ 32766) :
    arrayU16 w ((encode value.toList).length + 1) = some (textLayout value) := by
  have wide : 2 ^ 31 ≤ 2 ^ (8 * w.bytes - 1) := by cases w <;> decide
  rw [arrayU16, if_pos (by omega), textLayout]

theorem storeText_of_not_has {x : Nat} {m : Bytes}
    (outside : ¬(Region.mk buffer (textLayout value).size).Has x) :
    storeText value buffer m x = m x := by
  unfold Region.Has textLayout at outside
  dsimp only at outside
  unfold storeText
  have kept : storeUnits m buffer (encode value.toList) x = m x := by
    apply storeUnits_of_not_has
    unfold Region.Has
    dsimp only
    omega
  rcases Nat.lt_or_ge x (buffer + 2 * (encode value.toList).length) with below | beyond
  · rw [Bytes.writeWord_below below, kept]
  · rw [Bytes.writeWord_above (by omega), kept]

theorem unitsAt_append {m : Bytes} {a n : Nat} :
    unitsAt m a (n + 1) = unitsAt m a n ++ [.ofNat (m.readWord (a + 2 * n) 2)] := by
  induction n generalizing a with
  | zero => rfl
  | succ n ih =>
      rw [unitsAt, ih, unitsAt, List.cons_append, Nat.mul_succ, Nat.add_assoc, Nat.add_comm 2]

theorem unitsAt_storeText {m : Bytes} :
    unitsAt (storeText value buffer m) buffer ((encode value.toList).length + 1) =
      encode value.toList ++ [0] := by
  have text : unitsAt (storeText value buffer m) buffer (encode value.toList).length =
      encode value.toList := by
    calc unitsAt (storeText value buffer m) buffer (encode value.toList).length
        = unitsAt (storeUnits m buffer (encode value.toList)) buffer (encode value.toList).length :=
          unitsAt_congr fun x _ below => Bytes.writeWord_below below
      _ = encode value.toList := unitsAt_storeUnits
  have last : (storeText value buffer m).readWord (buffer + 2 * (encode value.toList).length) 2 =
      0 := Bytes.readWord_writeWord_of_lt (by decide)
  rw [unitsAt_append, text, last]
  rfl

/-- Both models of `new_in` describe their text alike. -/
theorem eq_describe {allocate : Layout → Nat} {m m' : Mem UInt16} {s : OwnedUnicodeString}
    (built : newIn w allocate value m = .ok (s, m')) :
    s = describe value (allocate ⟨(textLayout value).size, (textLayout value).align⟩) := by
  unfold newIn at built
  dsimp only at built
  split at built
  · cases built
  · cases array : Layout.arrayU16 w ((encode value.toList).length + 1) with
    | none =>
        rw [array] at built
        cases built
    | some layout =>
        rw [array] at built
        dsimp only at built
        obtain ⟨-, same⟩ := Option.ite_none_right_eq_some.mp array
        cases same
        split at built
        · cases built
        · exact (Prod.mk.inj (Except.ok.inj built)).1.symm

/-- What the functions of `Kcom.Unicode` read of a string. -/
structure OwnedUnicodeString.Reads (w : Width) (p : Pool) (s : OwnedUnicodeString)
    (value : String) : Prop where
  asUtf16 : s.asUtf16 (cells p) = some (encode value.toList)
  slice : unicodeStringAsSlice (cells p) s.inner = some (encode value.toList)
  terminator : cells p (s.buffer + 2 * (encode value.toList).length) = some 0
  text : ∀ reserve : Nat → Bool, reserve ((encode value.toList).length * 3) = true →
    unicodeStringToString w reserve (cells p) s.inner = some (.ok value)

/-- A string whose buffer has the units of a text reads as that text. -/
theorem reads_of_units {b : Block} (short : (encode value.toList).length ≤ 32766)
    (nonNull : buffer ≠ 0) (block : b ∈ p.blocks)
    (inside : b.base ≤ buffer ∧ buffer + (textLayout value).size ≤ b.base + b.size)
    (units : unitsAt p.mem buffer ((encode value.toList).length + 1) =
      encode value.toList ++ [0]) :
    (describe value buffer).Reads w p value := by
  have all : readUnits (cells p) buffer ((encode value.toList).length + 1) =
      some (encode value.toList ++ [0]) :=
    (readUnits_cells block inside).trans (congrArg some units)
  obtain ⟨s, m', built, encoded⟩ : ∃ s m', newIn w (fun _ => buffer) value (cells p) = .ok (s, m') ∧
      Encoded value ⟨2 * ((encode value.toList).length + 1), 2⟩ buffer (cells p) s m' :=
    newIn_eq short nonNull
  obtain rfl := eq_describe built
  -- nothing is written here, so the frame condition is void
  have here : Encoded value ⟨2 * ((encode value.toList).length + 1), 2⟩ buffer (cells p)
      (describe value buffer) (cells p) :=
    ⟨encoded.length, encoded.maximumLength, encoded.pointer, all,
      fun a changed => absurd rfl changed⟩
  refine ⟨here.asUtf16, here.slice nonNull, ?_,
    fun reserve memory => toString_encode value (here.slice nonNull) memory⟩
  have last : readable p (buffer + 2 * (encode value.toList).length) = true := by
    refine List.any_eq_true.mpr ⟨b, block, decide_eq_true ?_⟩
    unfold textLayout at inside
    dsimp only at inside
    omega
  have word := (List.append_inj' (unitsAt_append.symm.trans units) rfl).2
  exact (if_pos last).trans (congrArg some (List.singleton_inj.mp word))

/-- A refusal leaves the pool as it was. -/
theorem newIn_cases (value : String) (alloc : WdkAllocator)
    (fresh : (encode value.toList).length ≤ 32766 → Fresh cfg p (textLayout value) ans) :
    (∃ e, OwnedUnicodeString.newIn cfg value alloc ans p = some (p, .error e)) ∨
      (encode value.toList).length ≤ 32766 ∧ ans.base ≠ 0 ∧ ∃ p' buffer,
        Grant cfg alloc false (textLayout value) ans.base p p' buffer ∧
          OwnedUnicodeString.newIn cfg value alloc ans p =
            some ({ p' with mem := storeText value buffer p'.mem },
              .ok (describe value buffer)) := by
  by_cases short : (encode value.toList).length ≤ 32766
  · have positive : 0 < (textLayout value).size := Nat.mul_pos Nat.two_pos (Nat.succ_pos _)
    unfold OwnedUnicodeString.newIn
    rw [if_neg (by omega), arrayU16_of_short short]
    dsimp only
    rcases cfg.request_cases alloc false (fresh short) with
      ⟨empty, -⟩ | refused | ⟨-, block, p', buffer, granted, grant⟩
    · exact absurd empty (Nat.ne_of_gt positive)
    · rw [show cfg.alloc alloc ans (textLayout value) p = some (p, 0) from refused]
      exact .inl ⟨_, rfl⟩
    · rw [show cfg.alloc alloc ans (textLayout value) p = some (p', buffer) from granted]
      refine .inr ⟨short, block, p', buffer, grant, ?_⟩
      rw [Option.map_some, if_neg grant.nonNull]
  · left
    refine ⟨.tooLong, ?_⟩
    unfold OwnedUnicodeString.newIn
    rw [if_pos (by omega)]

/-- `drop` finds the layout that was asked for. -/
theorem drop_describe (short : (encode value.toList).length ≤ 32766) (nonNull : buffer ≠ 0) :
    (describe value buffer).drop cfg alloc p = cfg.dealloc alloc buffer (textLayout value) p := by
  have array : arrayU16 cfg.build.width (describe value buffer).bufferLen =
      some (textLayout value) := arrayU16_of_short short
  rw [OwnedUnicodeString.drop, if_neg (show (describe value buffer).buffer ≠ 0 from nonNull), array]
  rfl

end Functions

end Kcom.Unicode
