import Mathlib.Data.List.Basic

/-!
# The event stream of a kernel

`parseSseStream` in `services/runtime/kernelExecute.ts`, read to its end. `decodeByte` is the
streaming `TextDecoder` of the platform, one byte at a time; text is a list of code points.
-/

namespace MarimoHub.Source.Kernels

/-- `needed` bytes of a character are missing, the next one between `lower` and `upper`; `started`
once something was decoded, since only a first byte order mark is dropped. -/
structure TextDecoder where
  needed : Nat := 0
  codePoint : Nat := 0
  lower : Nat := 0x80
  upper : Nat := 0xBF
  started : Bool := false

def replacement : Char := '\uFFFD'

def emit (started : Bool) (char : Char) : TextDecoder × List Char :=
  ({ started := true }, if !started && char = '\uFEFF' then [] else [char])

def startByte (started : Bool) (byte : Nat) : TextDecoder × List Char :=
  if byte ≤ 0x7F then emit started (Char.ofNat byte)
  else if 0xC2 ≤ byte ∧ byte ≤ 0xDF then ({ needed := 1, codePoint := byte % 0x20, started }, [])
  else if 0xE0 ≤ byte ∧ byte ≤ 0xEF then
    ({ needed := 2, codePoint := byte % 0x10, started
       lower := if byte = 0xE0 then 0xA0 else 0x80
       upper := if byte = 0xED then 0x9F else 0xBF }, [])
  else if 0xF0 ≤ byte ∧ byte ≤ 0xF4 then
    ({ needed := 3, codePoint := byte % 8, started
       lower := if byte = 0xF0 then 0x90 else 0x80
       upper := if byte = 0xF4 then 0x8F else 0xBF }, [])
  else emit started replacement

def decodeByte (decoder : TextDecoder) (byte : Nat) : TextDecoder × List Char :=
  if decoder.needed = 0 then startByte decoder.started byte
  else if byte < decoder.lower ∨ decoder.upper < byte then
    let next := startByte true byte
    (next.1, replacement :: next.2)
  else
    let codePoint := decoder.codePoint * 64 + byte % 64
    if decoder.needed = 1 then emit decoder.started (Char.ofNat codePoint)
    else ({ needed := decoder.needed - 1, codePoint, started := decoder.started }, [])

/-- `decoder.decode(value, { stream: true })`. -/
def decodeStream : TextDecoder → List UInt8 → TextDecoder × List Char
  | decoder, [] => (decoder, [])
  | decoder, byte :: rest =>
    let first := decodeByte decoder byte.toNat
    let more := decodeStream first.1 rest
    (more.1, first.2 ++ more.2)

/-- `decoder.decode(undefined, { stream: false })`. -/
def flush (decoder : TextDecoder) : List Char :=
  if decoder.needed = 0 then [] else [replacement]

structure SseEvent where
  event : Option (List Char)
  data : List Char

/-- The fields of the event that is not complete yet. -/
structure SseFields where
  event : Option (List Char) := none
  data : List (List Char) := []

def consumeLine (fields : SseFields) (line : List Char) : SseFields × Option SseEvent :=
  if line = [] then
    if fields.data = [] then ({ fields with event := none }, none)
    else ({}, some ⟨fields.event.filter (· ≠ []), ['\n'].intercalate fields.data⟩)
  else if line.head? = some ':' then (fields, none)
  else
    let field := line.takeWhile (· ≠ ':')
    let value := (line.dropWhile (· ≠ ':')).drop 1
    let value := if value.head? = some ' ' then value.drop 1 else value
    if field = "event".toList then ({ fields with event := some value }, none)
    else if field = "data".toList then ({ fields with data := fields.data ++ [value] }, none)
    else (fields, none)

def consumeLines : SseFields → List (List Char) → SseFields × List SseEvent
  | fields, [] => (fields, [])
  | fields, line :: rest =>
    let first := consumeLine fields line
    let more := consumeLines first.1 rest
    (more.1, first.2.toList ++ more.2)

def isNewline (char : Char) : Bool := char = '\r' || char = '\n'

/-- The next line of the buffer and what follows it. A carriage return at the end of the buffer is
no line end yet unless the stream is done. -/
def nextLine (done : Bool) (buffer : List Char) : Option (List Char × List Char) :=
  match buffer.dropWhile (!isNewline ·) with
  | [] => none
  | newline :: rest =>
    if !done && newline = '\r' && rest = [] then none
    else some (buffer.takeWhile (!isNewline ·),
      if newline = '\r' ∧ rest.head? = some '\n' then rest.drop 1 else rest)

theorem nextLine_shorter
    (found : nextLine done buffer = some (line, rest)) : rest.length < buffer.length := by
  unfold nextLine at found
  split at found
  · cases found
  · next newline more tail =>
    have bound := (List.dropWhile_suffix (l := buffer) (!isNewline ·)).length_le
    rw [tail, List.length_cons] at bound
    split at found
    · cases found
    · cases found
      split <;> simp <;> omega

/-- The lines the inner loop takes from the buffer, and what it leaves. -/
def drain (done : Bool) (buffer : List Char) : List (List Char) × List Char :=
  match _found : nextLine done buffer with
  | none => ([], buffer)
  | some (line, rest) => (line :: (drain done rest).1, (drain done rest).2)
termination_by buffer.length
decreasing_by all_goals exact nextLine_shorter _found

structure SseParser where
  decoder : TextDecoder := {}
  buffer : List Char := []
  fields : SseFields := {}

/-- The reads of the outer loop: the chunks, and then the end of the stream. -/
def SseParser.run (parser : SseParser) : List (List UInt8) → List SseEvent
  | [] =>
    let drained := drain true (parser.buffer ++ flush parser.decoder)
    let last := if drained.2 = [] then [] else [drained.2]
    (consumeLines parser.fields (drained.1 ++ last ++ [[]])).2
  | chunk :: rest =>
    let decoded := decodeStream parser.decoder chunk
    let drained := drain false (parser.buffer ++ decoded.2)
    let consumed := consumeLines parser.fields drained.1
    consumed.2 ++ SseParser.run ⟨decoded.1, drained.2, consumed.1⟩ rest

def parseSseStream (chunks : List (List UInt8)) : List SseEvent := SseParser.run {} chunks

end MarimoHub.Source.Kernels
