import Kcom.Conc.System
import Kcom.Unicode

/-!
# Decoding within the reservation

`unicode_string_to_string` reserves three bytes for each unit and then pushes what
`decode_utf16` yields, one character at a time. The decoder takes one or two units for a
character and may put one back when it reports an error, and the text it has yielded
takes at most three bytes for each unit taken. So no push ever outgrows the reservation,
at whatever point the loop stops, and only `try_reserve` can find no memory.
-/

namespace Utf16

/-! ## The decoder -/

/-- `core::char::DecodeUtf16`: the units ahead, and one that was put back. -/
structure Decoder where
  buf : Option UInt16
  iter : List UInt16
  deriving DecidableEq, Repr

namespace Decoder

/-- What starts with the unit `u`. -/
def nextFrom (u : UInt16) (iter : List UInt16) : Except UInt16 Char × Decoder :=
  if ¬High u ∧ ¬Low u then (.ok (scalar u), ⟨none, iter⟩)
  else if Low u then (.error u, ⟨none, iter⟩)
  else
    match iter with
    | [] => (.error u, ⟨none, []⟩)
    | v :: rest =>
        if Low v then (.ok (pair u v), ⟨none, rest⟩)
        else (.error u, ⟨some v, rest⟩)

def next (d : Decoder) : Option (Except UInt16 Char × Decoder) :=
  match d.buf, d.iter with
  | some u, iter => some (nextFrom u iter)
  | none, [] => none
  | none, u :: iter => some (nextFrom u iter)

variable {d d' : Decoder} {u e : UInt16} {us iter : List UInt16} {r : Except UInt16 Char}
  {ch : Char}

/-- A character takes the units that encode it, and nothing is put back. -/
theorem nextFrom_ok (yields : nextFrom u iter = (.ok ch, d')) :
    d'.buf = none ∧ u :: iter = encodeChar ch ++ d'.iter ∧
      decode (u :: iter) = .ok ch :: decode d'.iter := by
  unfold nextFrom at yields
  split at yields
  · next plain =>
      rw [Prod.mk.injEq, Except.ok.injEq] at yields
      obtain ⟨rfl, rfl⟩ := yields
      rw [encodeChar_scalar plain.1 plain.2]
      exact ⟨rfl, rfl, decode_scalar plain.1 plain.2⟩
  · next surrogate =>
      split at yields
      · cases yields
      · next low =>
          have high : High u := by
            by_contra high
            exact surrogate ⟨high, low⟩
          split at yields
          · cases yields
          · split at yields
            · next trailing =>
                rw [Prod.mk.injEq, Except.ok.injEq] at yields
                obtain ⟨rfl, rfl⟩ := yields
                rw [encodeChar_pair high trailing]
                exact ⟨rfl, rfl, decode_pair high trailing⟩
            · cases yields

/-- An error is an error of the sequence, and leaves no more units ahead than there were. -/
theorem nextFrom_error (yields : nextFrom u iter = (.error e, d')) :
    d'.iter.length ≤ iter.length ∧ ∃ rest, decode (u :: iter) = .error e :: rest := by
  unfold nextFrom at yields
  split at yields
  · cases yields
  · next surrogate =>
      split at yields
      · next low =>
          cases yields
          refine ⟨Nat.le_refl _, ?_⟩
          have high : ¬High u := by
            unfold High Low at *
            omega
          cases iter with
          | nil => exact ⟨[], by rw [decode, if_pos (.inr low)]⟩
          | cons v rest => exact ⟨decode (v :: rest), by rw [decode, if_neg high, if_pos low]⟩
      · next low =>
          have high : High u := by
            by_contra high
            exact surrogate ⟨high, low⟩
          split at yields
          · cases yields
            exact ⟨Nat.le_refl _, [], by rw [decode, if_pos (.inl high)]⟩
          · next v rest =>
              split at yields
              · cases yields
              · next trailing =>
                  cases yields
                  refine ⟨Nat.le_succ _, decode (v :: rest), ?_⟩
                  rw [decode, if_pos high, if_neg trailing]

end Decoder

end Utf16

namespace Kcom.Unicode

open Conc
open ReprC (Mem)
open Com (Width)
open Utf16

/-! ## The loop -/

/-- A point of the loop: the decoder, `out`, and what was returned. -/
structure Point where
  decoder : Decoder
  out : String
  result : Option (Except UnicodeStringError String)

/-- One turn of the loop over `decode_utf16`. -/
def Point.turn (p : Point) : Option Point :=
  if p.result.isSome then none
  else
    match p.decoder.next with
    | none => some { p with result := some (.ok p.out) }
    | some (.ok ch, decoder) => some { p with decoder := decoder, out := p.out.push ch }
    | some (.error _, decoder) =>
        some { p with decoder := decoder, result := some (.error .invalidUtf16) }

/-- The loop on a slice. -/
def decoding (units : List UInt16) : Sys Point Unit where
  start p := p = ⟨⟨none, units⟩, "", none⟩
  step p _ := p.turn

/-- At a point of the loop: the text takes three bytes at most for each unit taken, and what
the loop will return is what the whole slice decodes to. -/
structure Within (units : List UInt16) (p : Point) : Prop where
  bytes : p.out.utf8ByteSize + 3 * p.decoder.iter.length ≤ 3 * units.length
  ahead : p.result = none → p.decoder.buf = none ∧
    pushAll (units.length * 3) p.out (decode p.decoder.iter) =
      pushAll (units.length * 3) "" (decode units)
  returned : ∀ r, p.result = some r → pushAll (units.length * 3) "" (decode units) = some r

section Loop

variable {units : List UInt16} {p p' : Point}

theorem Within.turn (within : Within units p) (turn : p.turn = some p') : Within units p' := by
  unfold Point.turn at turn
  split at turn
  · cases turn
  · next running =>
      rw [Bool.not_eq_true, Option.isSome_eq_false_iff, Option.isNone_iff_eq_none] at running
      obtain ⟨buf, ahead⟩ := within.ahead running
      have bytes := within.bytes
      cases iter : p.decoder.iter with
      | nil =>
          have ended : p.decoder.next = none := by rw [Decoder.next, buf, iter]
          rw [ended] at turn
          cases turn
          rw [iter] at ahead
          refine ⟨bytes, fun more => ?_, fun r read => ?_⟩
          · cases more
          · rw [← ahead, decode, pushAll]
            exact read
      | cons u rest =>
          have yields : p.decoder.next = some (Decoder.nextFrom u rest) := by
            rw [Decoder.next, buf, iter]
          rw [iter, List.length_cons] at bytes
          rw [iter] at ahead
          rw [yields] at turn
          rcases taken : Decoder.nextFrom u rest with ⟨yielded, decoder⟩
          rw [taken] at turn
          cases yielded with
          | ok ch =>
              cases turn
              obtain ⟨empty, split, decoded⟩ := Decoder.nextFrom_ok taken
              have char := utf8Size_le_encodeChar ch
              have lengths := congrArg List.length split
              rw [List.length_cons, List.length_append] at lengths
              have more : (p.out.push ch).utf8ByteSize + 3 * decoder.iter.length ≤
                  3 * units.length := by
                rw [String.utf8ByteSize_push]
                omega
              refine ⟨more, fun _ => ⟨empty, ?_⟩, fun r read => ?_⟩
              · rw [← ahead, decoded, pushAll, if_pos]
                rw [String.utf8ByteSize_push] at more
                omega
              · rw [running] at read
                cases read
          | error e =>
              cases turn
              obtain ⟨fewer, later, decoded⟩ := Decoder.nextFrom_error taken
              refine ⟨?_, fun more => ?_, fun r read => ?_⟩
              · change p.out.utf8ByteSize + 3 * decoder.iter.length ≤ 3 * units.length
                omega
              · cases more
              · rw [← ahead, decoded, pushAll]
                exact read

theorem within_of_reach (reached : (decoding units).Reachable p) : Within units p := by
  refine reached.invariant ?_ fun p _ p' within _ step => within.turn step
  intro p begins
  rw [show p = ⟨⟨none, units⟩, "", none⟩ from begins]
  exact ⟨by simp, fun _ => ⟨rfl, rfl⟩, nofun⟩

/-- The loop always returns, with the text or with an error of the units. -/
theorem pushAll_returns (units : List UInt16) :
    ∃ r, pushAll (units.length * 3) "" (decode units) = some r ∧
      ∀ e, r = .error e → e = .invalidUtf16 := by
  by_cases formed : WellFormed units
  · obtain ⟨t, rfl⟩ := formed.exists_encode
    have room : ("" : String).utf8ByteSize + (t.map Char.utf8Size).sum ≤ (encode t).length * 3 := by
      have bytes := utf8Size_le t
      rw [String.utf8ByteSize_empty]
      omega
    refine ⟨.ok ("" ++ String.ofList t), ?_, nofun⟩
    rw [decode_encode, pushAll_ok t room]
  · refine ⟨_, pushAll_error formed (by rw [String.utf8ByteSize_empty]; omega), fun e same => ?_⟩
    exact (Except.error.inj same).symm

end Loop

/-- At every point of the loop over any slice the text takes at most three bytes for each
unit that has been taken, and three times the length of a `UNICODE_STRING` does not
overflow. The function therefore returns, without a push beyond its reservation, and fails
for lack of memory exactly if the reservation is refused. -/
theorem decoding_within_reservation (w : Width) :
    (∀ (units : List UInt16) (p : Point), (decoding units).Reachable p →
      p.decoder.iter.length ≤ units.length ∧
        p.out.utf8ByteSize ≤ 3 * (units.length - p.decoder.iter.length)) ∧
    ∀ (m : Mem UInt16) (unicode : UnicodeString) (units : List UInt16),
      unicodeStringAsSlice m unicode = some units →
        units.length * 3 < 2 ^ (8 * w.bytes) ∧
        ∀ reserve : Nat → Bool,
          (∃ r, unicodeStringToString w reserve m unicode = some r ∧
            (r = .error .allocationFailed ↔
              units.length * 3 ≠ 0 ∧ reserve (units.length * 3) = false)) ∧
          (reserve (units.length * 3) = true → ∀ p r, (decoding units).Reachable p →
            p.result = some r → unicodeStringToString w reserve m unicode = some r) := by
  constructor
  · intro units p reached
    have bytes := (within_of_reach reached).bytes
    omega
  · intro m unicode units slice
    have short := slice_length slice
    have wide : 2 ^ 32 ≤ 2 ^ (8 * w.bytes) := by cases w <;> decide
    have fits : units.length * 3 < 2 ^ (8 * w.bytes) := by omega
    refine ⟨fits, fun reserve => ⟨?_, fun granted p r reached returned => ?_⟩⟩
    · rw [unicodeStringToString, slice]
      simp only [Option.bind_eq_bind, Option.bind_some]
      rw [if_neg (by omega)]
      split
      · next memory =>
          obtain ⟨r, returns, error⟩ := pushAll_returns units
          refine ⟨r, returns, fun failed => ?_, fun refused => ?_⟩
          · cases error _ failed
          · rcases memory with nothing | granted
            · exact absurd nothing refused.1
            · rw [refused.2] at granted
              cases granted
      · next memory =>
          refine ⟨_, rfl, iff_of_true rfl ?_⟩
          simpa using memory
    · rw [toString_eq slice granted]
      exact (within_of_reach reached).returned r returned

/-- A letter and an unpaired surrogate: one byte has been written when the error is found. -/
theorem decoding_within_reservation_of_surrogate :
    ∃ m : Mem UInt16, unicodeStringAsSlice m ⟨4, 4, 0x1000⟩ = some [0x61, 0xD83D] ∧
      (∃ p, (decoding [0x61, 0xD83D]).Reachable p ∧ p.out = "a" ∧
        p.out.utf8ByteSize ≤ 3 * (2 - p.decoder.iter.length)) ∧
      ∃ r, unicodeStringToString .w64 (fun _ => true) m ⟨4, 4, 0x1000⟩ = some r := by
  have slice : unicodeStringAsSlice (writeUnits (fun _ => none) 0x1000 [0x61, 0xD83D])
      ⟨4, 4, 0x1000⟩ = some [0x61, 0xD83D] := by decide
  obtain ⟨loop, whole⟩ := decoding_within_reservation .w64
  have reached : (decoding [0x61, 0xD83D]).Reachable ⟨⟨none, [0xD83D]⟩, "a", none⟩ :=
    .step (a := ()) (.start rfl) trivial rfl
  obtain ⟨r, returns, -⟩ := ((whole _ _ _ slice).2 fun _ => true).1
  exact ⟨_, slice, ⟨_, reached, rfl, (loop _ _ reached).2⟩, r, returns⟩

end Kcom.Unicode
