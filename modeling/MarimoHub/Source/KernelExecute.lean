import MarimoHub.Source.Text

/-!
# Capturing the output of a kernel

The loop of `executeInKernel` in `services/runtime/kernelExecute.ts` over the messages of the event
stream. A message is what its event and its JSON body say; one that says nothing of the three is
skipped. An abort ends the list of messages; `timedOut` is left out.
-/

namespace MarimoHub.Source.Kernels

open Texts

/-- The captured text and whether `value` was cut; `none` as in `decode`. -/
def appendCapped (current value : List Char) (cap : ℚ) : Option (List Char × Bool) :=
  let currentBytes := (encode current).length
  let remaining := max 0 (cap - currentBytes)
  let bytes := encode value
  if (bytes.length : ℚ) ≤ remaining then some (current ++ value, false)
  else (utf8HeadBytes bytes (some remaining)).map fun head => (current ++ head, true)

structure KernelOutput (Data : Type) where
  mimetype : String
  data : Data

inductive KernelMessage (Data : Type) where
  | stdout (text : List Char)
  | stderr (text : List Char)
  | done (success : Bool) (output : Option (KernelOutput Data))

/-- A string as a JSON value, and `typeof data === 'string' ? data : JSON.stringify(data)`. -/
structure JsonText (Data : Type) where
  ofString : List Char → Data
  serialize : Data → List Char

structure KernelCaps where
  maxStdoutBytes : ℚ := 256 * 1024
  maxStderrBytes : ℚ := 256 * 1024
  maxOutputBytes : ℚ := 1024 * 1024

structure KernelExecuteResult (Data : Type) where
  completed : Bool := false
  success : Bool := false
  stdout : List Char := []
  stderr : List Char := []
  output : Option (KernelOutput Data) := none
  truncated : Bool := false

variable {Data : Type} (json : JsonText Data) (caps : KernelCaps)

def receive (result : KernelExecuteResult Data) :
    KernelMessage Data → Option (KernelExecuteResult Data)
  | .stdout text => (appendCapped result.stdout text caps.maxStdoutBytes).map fun appended =>
      { result with stdout := appended.1, truncated := result.truncated || appended.2 }
  | .stderr text => (appendCapped result.stderr text caps.maxStderrBytes).map fun appended =>
      { result with stderr := appended.1, truncated := result.truncated || appended.2 }
  | .done success none => some { result with completed := true, success := success }
  | .done success (some candidate) =>
    (appendCapped [] (json.serialize candidate.data) caps.maxOutputBytes).map fun capped =>
      { result with
        completed := true
        success := success
        truncated := result.truncated || capped.2
        output := some ⟨candidate.mimetype,
          if capped.2 then json.ofString capped.1 else candidate.data⟩ }

def executeInKernel (messages : List (KernelMessage Data)) : Option (KernelExecuteResult Data) :=
  messages.foldlM (receive json caps) {}

end MarimoHub.Source.Kernels
