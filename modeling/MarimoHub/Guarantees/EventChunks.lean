import MarimoHub.Source.KernelStream
import MarimoHub.Source.Text

/-!
# The events do not depend on the chunks

Decoder, lines and fields each go on where the part before left off (`decodeStream_append`,
`drain_append`, `consumeLines_append`), so a chunk and the rest of the stream are parsed like the
two of them at once. A character that was encoded is decoded again (`decodeStream_char`), so the
lines are those of the text that was sent.
-/

namespace MarimoHub.Guarantees.Kernels

open Source.Kernels Source.Texts

theorem decodeStream_append (decoder : TextDecoder) (chunk rest : List UInt8) :
    decodeStream decoder (chunk ++ rest) =
      let first := decodeStream decoder chunk
      let more := decodeStream first.1 rest
      (more.1, first.2 ++ more.2) := by
  induction chunk generalizing decoder with
  | nil => rfl
  | cons byte chunk ih => simp [decodeStream, ih]

theorem consumeLines_append (fields : SseFields) (lines rest : List (List Char)) :
    consumeLines fields (lines ++ rest) =
      let first := consumeLines fields lines
      let more := consumeLines first.1 rest
      (more.1, first.2 ++ more.2) := by
  induction lines generalizing fields with
  | nil => rfl
  | cons line lines ih => simp [consumeLines, ih]

theorem nextLine_append (done : Bool) (more : List Char)
    (found : nextLine false buffer = some (line, rest)) :
    nextLine done (buffer ++ more) = some (line, rest ++ more) := by
  unfold nextLine at found ⊢
  split at found
  · cases found
  next newline tail left =>
  have before : (buffer ++ more).takeWhile (!isNewline ·) = buffer.takeWhile (!isNewline ·) := by
    have whole : buffer.takeWhile (!isNewline ·) ++ newline :: tail = buffer := by
      rw [← left, List.takeWhile_append_dropWhile]
    have size := congrArg List.length whole
    rw [List.length_append, List.length_cons] at size
    rw [List.takeWhile_append, if_neg (by omega)]
  rw [before, List.dropWhile_append, left]
  simp only [List.isEmpty_cons, Bool.false_eq_true, if_false, List.cons_append]
  split at found
  · cases found
  next kept =>
  obtain ⟨rfl, rfl⟩ := Prod.mk.inj (Option.some.inj found)
  -- a carriage return was not the last character, so what follows it was there
  cases tail with
  | nil => simp_all
  | cons next tail =>
    by_cases pair : newline = '\r' ∧ next = '\n'
    · simp [pair]
    · simp [if_neg pair]

theorem drain_append (done : Bool) (buffer more : List Char) :
    drain done (buffer ++ more) =
      let first := drain false buffer
      let next := drain done (first.2 ++ more)
      (first.1 ++ next.1, next.2) := by
  fun_induction drain false buffer with
  | case1 buffer found => rfl
  | case2 buffer line rest found ih =>
    rw [drain, nextLine_append done more found]
    simp [ih]

theorem run_eq (parser : SseParser) (chunks : List (List UInt8)) :
    parser.run chunks =
      let decoded := decodeStream parser.decoder chunks.flatten
      let drained := drain true (parser.buffer ++ decoded.2 ++ flush decoded.1)
      let last := if drained.2 = [] then [] else [drained.2]
      (consumeLines parser.fields (drained.1 ++ last ++ [[]])).2 := by
  induction chunks generalizing parser with
  | nil => simp [SseParser.run, decodeStream]
  | cons chunk rest ih =>
    let decoded := decodeStream parser.decoder chunk
    let more := decodeStream decoded.1 rest.flatten
    have whole := drain_append true (parser.buffer ++ decoded.2) (more.2 ++ flush more.1)
    rw [SseParser.run, ih]
    simp only [List.append_assoc] at whole ⊢
    simp only [List.flatten_cons, decodeStream_append, List.append_assoc, decoded, more] at whole ⊢
    simp only [whole, List.append_assoc, consumeLines_append]

/-- However a stream is split into chunks, the same events are parsed. -/
theorem events_independent_of_chunks (bytes : List UInt8) :
    ∃ events, ∀ chunks : List (List UInt8), chunks.flatten = bytes →
      parseSseStream chunks = events := by
  refine ⟨parseSseStream [bytes], fun chunks whole => ?_⟩
  rw [parseSseStream, parseSseStream, run_eq, run_eq, whole, List.flatten_singleton]

/-! ## The text behind the bytes -/

section

variable {started : Bool} {codePoint lower upper : Nat}

theorem decodeStream_lead (small : byte < 256)
    (waits : startByte started byte = (decoder, [])) (rest : List UInt8) :
    decodeStream { started } (UInt8.ofNat byte :: rest) = decodeStream decoder rest := by
  simp [decodeStream, decodeByte, Nat.mod_eq_of_lt small, waits]

theorem decodeStream_continue (needed n : Nat) (low : lower ≤ n % 64 + 128)
    (high : n % 64 + 128 ≤ upper) (rest : List UInt8) :
    decodeStream ⟨needed + 1, codePoint, lower, upper, started⟩
        (UInt8.ofNat (n % 64 + 128) :: rest) =
      if needed = 0 then
        let next := emit started (Char.ofNat (codePoint * 64 + n % 64))
        let more := decodeStream next.1 rest
        (more.1, next.2 ++ more.2)
      else decodeStream { needed, codePoint := codePoint * 64 + n % 64, started } rest := by
  have byte : (UInt8.ofNat (n % 64 + 128)).toNat = n % 64 + 128 := by
    simp
    omega
  have value : (n % 64 + 128) % 64 = n % 64 := by omega
  have inside : ¬ (n % 64 + 128 < lower ∨ upper < n % 64 + 128) := by omega
  by_cases last : needed = 0 <;>
    simp only [decodeStream, decodeByte, byte, value, if_neg inside] <;> simp [last]

theorem decodeStream_char (started : Bool) (char : Char) :
    decodeStream { started } (String.utf8EncodeChar char) = emit started char := by
  have valid : char.toNat < 0xD800 ∨ 0xDFFF < char.toNat ∧ char.toNat < 0x110000 := char.valid
  have same := Char.ofNat_toNat char
  unfold String.utf8EncodeChar
  generalize shown : char.val.toNat = v
  rw [show char.toNat = v from shown] at valid same
  subst same
  have joined : v / 64 * 64 + v % 64 = v := Nat.div_add_mod' v 64
  dsimp only
  split
  · next one =>
    simp [decodeStream, decodeByte, startByte, Nat.mod_eq_of_lt (show v < 256 by omega), one]
  split
  · next two =>
    have lead : startByte started (v / 64 % 32 + 192) =
        ({ needed := 1, codePoint := v / 64, started }, []) := by
      unfold startByte
      grind
    rw [decodeStream_lead (by omega) lead, decodeStream_continue 0 v (by omega) (by omega)]
    simp [decodeStream, joined]
  split
  · next three =>
    -- the bounds on the second byte exclude overlong encodings and surrogates
    have lead : startByte started (v / 4096 % 16 + 224) =
        ({ needed := 2, codePoint := v / 4096, started
           lower := if v / 4096 = 0 then 0xA0 else 0x80
           upper := if v / 4096 = 13 then 0x9F else 0xBF }, []) := by
      unfold startByte
      grind
    rw [decodeStream_lead (by omega) lead, decodeStream_continue 1 (v / 64) (by grind) (by grind),
      if_neg (by simp), decodeStream_continue 0 v (by omega) (by omega)]
    simp [decodeStream, show v / 4096 * 64 + v / 64 % 64 = v / 64 by omega, joined]
  · next four =>
    have lead : startByte started (v / 262144 % 8 + 240) =
        ({ needed := 3, codePoint := v / 262144, started
           lower := if v / 262144 = 0 then 0x90 else 0x80
           upper := if v / 262144 = 4 then 0x8F else 0xBF }, []) := by
      unfold startByte
      grind
    rw [decodeStream_lead (by omega) lead, decodeStream_continue 2 (v / 4096) (by grind) (by grind),
      if_neg (by simp), decodeStream_continue 1 (v / 64) (by omega) (by omega), if_neg (by simp),
      decodeStream_continue 0 v (by omega) (by omega)]
    simp [decodeStream, joined,
      show (v / 262144 * 64 + v / 4096 % 64) * 64 + v / 64 % 64 = v / 64 by omega]

end

theorem decodeStream_encode (started : Bool) (text : List Char) :
    decodeStream { started } (encode text) =
      ({ started := started || !text.isEmpty }, if started then text else dropMark text) := by
  induction text generalizing started with
  | nil => simp [encode, decodeStream, dropMark]
  | cons char text ih =>
    rw [encode, List.flatMap_cons, decodeStream_append, decodeStream_char]
    rw [encode] at ih
    cases started with
    | true => simp [emit, ih]
    | false => by_cases mark : char = '\uFEFF' <;> simp [emit, ih, dropMark, byteOrderMark, mark]

/-- However the bytes of a text are split into chunks, also inside its characters, the events are
those of the lines of the text, without a first byte order mark. -/
theorem events_of_encoded_text (text : List Char) (chunks : List (List UInt8))
    (sent : chunks.flatten = encode text) :
    parseSseStream chunks =
      let drained := drain true (dropMark text)
      let last := if drained.2 = [] then [] else [drained.2]
      (consumeLines {} (drained.1 ++ last ++ [[]])).2 := by
  rw [parseSseStream, run_eq, sent, decodeStream_encode]
  simp [flush]

/-- A character that is cut, and one that takes two bytes. -/
theorem events_of_encoded_text_cut :
    parseSseStream [[0x64, 0x61, 0x74, 0x61, 0x3A, 0xC3], [0xA9, 0x0A]] = [⟨none, ['é']⟩] := by
  have drained : drain true (dropMark "data:é\n".toList) = (["data:é".toList], []) := by
    have rest : drain true [] = ([], []) := by
      rw [drain, show nextLine true [] = none by decide]
    rw [drain, show nextLine true _ = some ("data:é".toList, []) by decide]
    simp [rest]
  rw [events_of_encoded_text "data:é\n".toList _ (by decide), drained]
  rfl

end MarimoHub.Guarantees.Kernels
