import MarimoHub.Source.KernelExecute
import MarimoHub.Guarantees.Utf8Cuts

/-!
# What is captured of a kernel's output

Each event is cut by what the cap leaves (`appendCapped_eq`), so a stream ends as `captured` of its
texts. A text that was cut before a character that no longer fits leaves some bytes of the cap, and
a later event uses them: what is captured is the longest prefix exactly when no later text adds
anything to the cut (`KeepsPrefix`).
-/

namespace MarimoHub.Guarantees.Texts

open Source.Texts Source.Kernels

variable {Data : Type} {json : JsonText Data} {caps : KernelCaps} {left : Nat}
  {text whole : List Char} {texts out err : List (List Char)}

/-! ## One stream -/

/-- What a text adds when so many bytes of the cap are left. -/
def added (left : Nat) (text : List Char) : List Char :=
  if (encode text).length ≤ left then text else dropMark (headFit left text)

def captured (left : Nat) : List (List Char) → List Char
  | [] => []
  | text :: rest => added left text ++ captured (left - (encode (added left text)).length) rest

/-- A text that adds nothing: of one that does not fit, at most a byte order mark would. -/
def Silent (left : Nat) (text : List Char) : Prop :=
  text = [] ∨ ¬ Fits left text ∧ (headFit left text = [] ∨ headFit left text = [byteOrderMark])

/-- The first text that does not fit is cut before its end, and all later ones are silent. If the
cut part begins with a byte order mark the decoder drops that one; then it has to consist of such
marks, and the later texts have to add one. -/
def KeepsPrefix (left : Nat) : List (List Char) → Prop
  | [] => True
  | text :: rest =>
    let head := headFit left text
    if (encode text).length ≤ left then KeepsPrefix (left - (encode text).length) rest
    else if head.head? = some byteOrderMark then
      head = List.replicate head.length byteOrderMark ∧
        captured (left - (encode (dropMark head)).length) rest = [byteOrderMark]
    else ∀ later ∈ rest, Silent (left - (encode head).length) later

theorem encode_append (left right : List Char) :
    encode (left ++ right) = encode left ++ encode right := List.flatMap_append ..

theorem headFit_append (seen text : List Char) :
    headFit left (seen ++ text) = if (encode seen).length ≤ left then
      seen ++ headFit (left - (encode seen).length) text else headFit left seen := by
  induction seen generalizing left with
  | nil => simp [encode]
  | cons c cs ih =>
    rw [List.cons_append, headFit, headFit, encode_cons, List.length_append]
    split
    · next room =>
      rw [ih, Nat.sub_sub]
      split <;> split <;> first | rfl | omega
    · next full => rw [if_neg (by omega)]

theorem dropMark_length (text : List Char) :
    (encode (dropMark text)).length ≤ (encode text).length := by
  cases text with
  | nil => exact le_rfl
  | cons c cs => by_cases mark : c = byteOrderMark <;> simp [dropMark, mark, encode_cons]

theorem added_fits (left : Nat) (text : List Char) : Fits left (added left text) := by
  unfold added
  split
  · assumption
  · exact (dropMark_length _).trans (headFit_longest text left).fits

theorem captured_fits (left : Nat) (texts : List (List Char)) :
    Fits left (captured left texts) := by
  induction texts generalizing left with
  | nil => exact Nat.zero_le _
  | cons text rest ih =>
    have here := added_fits left text
    have later := ih (left - (encode (added left text)).length)
    simp only [Fits, captured, encode_append, List.length_append] at *
    omega

theorem captured_snoc (left : Nat) (texts : List (List Char)) (text : List Char) :
    captured left (texts ++ [text]) =
      captured left texts ++ added (left - (encode (captured left texts)).length) text := by
  induction texts generalizing left with
  | nil => simp [captured, encode]
  | cons first rest ih =>
    rw [List.cons_append, captured, ih, captured, List.append_assoc, encode_append,
      List.length_append, Nat.sub_sub]

theorem captured_whole (fits : Fits left texts.flatten) : captured left texts = texts.flatten := by
  induction texts generalizing left with
  | nil => rfl
  | cons text rest ih =>
    simp only [Fits, List.flatten_cons, encode_append, List.length_append] at fits
    have here : added left text = text := if_pos (by omega)
    rw [captured, here, ih (by unfold Fits; omega), List.flatten_cons]

theorem added_eq_nil : added left text = [] ↔ Silent left text := by
  unfold added Silent Fits
  split
  · next room => simp [room]
  · next full =>
    have filled : text ≠ [] := by
      rintro rfl
      exact full (Nat.zero_le _)
    cases headFit left text with
    | nil => simp [dropMark, full]
    | cons c cs => by_cases mark : c = byteOrderMark <;> simp [dropMark, mark, full, filled]

theorem captured_eq_nil : captured left texts = [] ↔ ∀ text ∈ texts, Silent left text := by
  induction texts with
  | nil => simp [captured]
  | cons text rest ih =>
    rw [captured, List.append_eq_nil_iff, List.forall_mem_cons, ← added_eq_nil, ← ih]
    refine and_congr_right fun none => ?_
    simp [none, encode]

/-- Only marks can be shifted by one. -/
theorem append_eq_cons_iff (c : Char) (cs more : List Char) :
    cs ++ more = c :: cs ↔ cs = List.replicate cs.length c ∧ more = [c] := by
  induction cs with
  | nil => simp
  | cons d ds ih =>
    rw [List.cons_append, List.cons.injEq, List.length_cons, List.replicate_succ, List.cons.injEq]
    constructor
    · rintro ⟨rfl, shifted⟩
      exact ⟨⟨rfl, (ih.mp shifted).1⟩, (ih.mp shifted).2⟩
    · rintro ⟨⟨rfl, marks⟩, one⟩
      exact ⟨rfl, ih.mpr ⟨marks, one⟩⟩

theorem captured_eq_headFit (left : Nat) (texts : List (List Char)) :
    captured left texts = headFit left texts.flatten ↔ KeepsPrefix left texts := by
  induction texts generalizing left with
  | nil => simp [captured, headFit, KeepsPrefix]
  | cons text rest ih =>
    rw [List.flatten_cons, headFit_append, captured, added, KeepsPrefix]
    split
    · rw [List.append_cancel_left_eq, ih]
    · split
      · next marked =>
        obtain ⟨cs, eq⟩ := List.head?_eq_some_iff.mp marked
        rw [eq, dropMark, if_pos rfl, append_eq_cons_iff, List.length_cons, List.replicate_succ,
          List.cons.injEq]
        simp
      · next plain =>
        rw [dropMark_eq_self.mpr plain, List.append_right_eq_self, captured_eq_nil]

theorem longest_iff (budget : Nat) (whole kept : List Char) :
    Longest (· <+: whole) budget kept ↔ kept = headFit budget whole := by
  have longest := headFit_longest whole budget
  constructor
  · intro other
    exact (List.prefix_of_prefix_length_le other.part longest.part
      (longest.longest kept other.part other.fits)).eq_of_length_le
        (other.longest _ longest.part longest.fits)
  · rintro rfl
    exact longest

/-! ## The messages -/

theorem appendCapped_eq (current value : List Char) (cap : ℚ) : appendCapped current value cap =
      let left := ⌊cap⌋₊ - (encode current).length
      some (current ++ added left value, !decide ((encode value).length ≤ left)) := by
  have left : ⌊max 0 (cap - (encode current).length)⌋₊ = ⌊cap⌋₊ - (encode current).length := by
    rw [← Nat.floor_sub_natCast]
    rcases le_total 0 (cap - (encode current).length) with positive | negative
    · rw [max_eq_right positive]
    · rw [max_eq_left negative, Nat.floor_of_nonpos negative, Nat.floor_zero]
  have room : ((encode value).length : ℚ) ≤ max 0 (cap - (encode current).length) ↔
      (encode value).length ≤ ⌊cap⌋₊ - (encode current).length := by
    rw [← left, Nat.le_floor_iff (le_max_left ..)]
  simp only [appendCapped, room, utf8HeadBytes_encode, byteBudget, Option.elim_some, left,
    Option.map_some, added]
  split <;> simp [*]

def stdoutOf : KernelMessage Data → List Char
  | .stdout text => text
  | _ => []

def stderrOf : KernelMessage Data → List Char
  | .stderr text => text
  | _ => []

def OutputFits (json : JsonText Data) (caps : KernelCaps) : KernelMessage Data → Prop
  | .done _ (some output) => Fits ⌊caps.maxOutputBytes⌋₊ (json.serialize output.data)
  | _ => True

/-- The two captured texts, and the flag provided that the outputs fit. -/
structure Captured (caps : KernelCaps) (small : Prop) (out err : List (List Char))
    (result : KernelExecuteResult Data) : Prop where
  stdout : result.stdout = captured ⌊caps.maxStdoutBytes⌋₊ out
  stderr : result.stderr = captured ⌊caps.maxStderrBytes⌋₊ err
  flagged : small → (result.truncated = true ↔
    ¬ Fits ⌊caps.maxStdoutBytes⌋₊ out.flatten ∨ ¬ Fits ⌊caps.maxStderrBytes⌋₊ err.flatten)

variable {small : Prop} {result : KernelExecuteResult Data} {message : KernelMessage Data}
  {messages : List (KernelMessage Data)}

theorem captured_silent (left : Nat) (texts : List (List Char)) :
    captured left (texts ++ [[]]) = captured left texts := by
  simp [captured_snoc, added, encode]

/-- Dropped text stays dropped, and a text is cut when the whole does not fit any more. -/
theorem dropped_snoc (left : Nat) (texts : List (List Char)) (text : List Char) :
    ¬ Fits left (texts ++ [text]).flatten ↔ ¬ Fits left texts.flatten ∨
      ¬ (encode text).length ≤ left - (encode (captured left texts)).length := by
  by_cases fits : Fits left texts.flatten
  · rw [captured_whole fits]
    simp only [Fits, List.flatten_append, List.flatten_singleton, encode_append,
      List.length_append] at fits ⊢
    omega
  · simp only [Fits, List.flatten_append, encode_append, List.length_append] at fits ⊢
    omega

theorem Captured.receive (before : Captured caps small out err result)
    (fits : small → OutputFits json caps message) :
    ∃ next, receive json caps result message = some next ∧
      Captured caps small (out ++ [stdoutOf message]) (err ++ [stderrOf message]) next := by
  obtain ⟨stdout, stderr, flagged⟩ := before
  cases message with
  | stdout text =>
    refine ⟨_, by rw [Source.Kernels.receive, appendCapped_eq, Option.map_some], ?_, ?_, ?_⟩
    · simp [stdoutOf, stdout, captured_snoc]
    · simpa [stderrOf, captured_silent] using stderr
    · intro given
      simp only [stdoutOf, stderrOf, dropped_snoc, stdout, Bool.or_eq_true, flagged given]
      simp [encode]
      tauto
  | stderr text =>
    refine ⟨_, by rw [Source.Kernels.receive, appendCapped_eq, Option.map_some], ?_, ?_, ?_⟩
    · simpa [stdoutOf, captured_silent] using stdout
    · simp [stderrOf, stderr, captured_snoc]
    · intro given
      simp only [stdoutOf, stderrOf, dropped_snoc, stderr, Bool.or_eq_true, flagged given]
      simp [encode]
      tauto
  | done success output =>
    have same : Captured caps small (out ++ [[]]) (err ++ [[]]) result :=
      ⟨by rw [stdout, captured_silent], by rw [stderr, captured_silent], by simpa using flagged⟩
    cases output with
    | none => exact ⟨_, rfl, same.stdout, same.stderr, same.flagged⟩
    | some output =>
      refine ⟨_, by rw [Source.Kernels.receive, appendCapped_eq, Option.map_some], ?_, ?_, ?_⟩
      · exact same.stdout
      · exact same.stderr
      · intro given
        have whole : (encode (json.serialize output.data)).length ≤
            ⌊caps.maxOutputBytes⌋₊ - (encode []).length := fits given
        simpa only [whole, decide_true, Bool.not_true, Bool.or_false, stdoutOf, stderrOf]
          using same.flagged given

theorem Captured.run (before : Captured caps small out err result)
    (fits : small → ∀ message ∈ messages, OutputFits json caps message) :
    ∃ next, messages.foldlM (Source.Kernels.receive json caps) result = some next ∧
      Captured caps small (out ++ messages.map stdoutOf) (err ++ messages.map stderrOf) next := by
  induction messages generalizing out err result with
  | nil => exact ⟨result, rfl, by simpa⟩
  | cons message rest ih =>
    obtain ⟨next, received, after⟩ := before.receive fun given => fits given message (by simp)
    obtain ⟨last, done, after⟩ := ih after fun given m inside => fits given m (by simp [inside])
    refine ⟨last, by rw [List.foldlM_cons, received]; exact done, ?_⟩
    simpa only [List.map_cons, List.append_assoc, List.singleton_append] using after

/-- Whatever the messages and the caps, what is captured of a stream is its longest prefix that fits
exactly when its texts keep the prefix, and the flag says whether text was dropped. -/
theorem capture_longest (json : JsonText Data) (caps : KernelCaps)
    (messages : List (KernelMessage Data)) :
    ∃ result, executeInKernel json caps messages = some result ∧
      (Longest (· <+: messages.flatMap stdoutOf) ⌊caps.maxStdoutBytes⌋₊ result.stdout ↔
        KeepsPrefix ⌊caps.maxStdoutBytes⌋₊ (messages.map stdoutOf)) ∧
      (Longest (· <+: messages.flatMap stderrOf) ⌊caps.maxStderrBytes⌋₊ result.stderr ↔
        KeepsPrefix ⌊caps.maxStderrBytes⌋₊ (messages.map stderrOf)) ∧
      ((∀ message ∈ messages, OutputFits json caps message) → (result.truncated = true ↔
        result.stdout ≠ messages.flatMap stdoutOf ∨
          result.stderr ≠ messages.flatMap stderrOf)) := by
  have start : Captured caps (∀ message ∈ messages, OutputFits json caps message) [] []
      ({} : KernelExecuteResult Data) := ⟨rfl, rfl, fun _ => by simp [Fits, encode]⟩
  obtain ⟨result, run, stdout, stderr, flagged⟩ := start.run id
  rw [List.nil_append] at stdout stderr
  have dropped (budget : Nat) (texts : List (List Char)) :
      captured budget texts ≠ texts.flatten ↔ ¬ Fits budget texts.flatten :=
    not_congr ⟨fun whole => whole ▸ captured_fits budget texts, captured_whole⟩
  simp only [List.flatMap_def, longest_iff, ← captured_eq_headFit]
  refine ⟨result, run, by rw [stdout], by rw [stderr], fun given => ?_⟩
  rw [flagged given, stdout, stderr, dropped, dropped, List.nil_append, List.nil_append]

/-- A text that is cut keeps the prefix alone, and no longer with a text behind it. -/
example : KeepsPrefix 2 [['a', 'é']] ∧ ¬ KeepsPrefix 2 [['a', 'é'], ['b']] := by
  constructor
  · rw [← captured_eq_headFit]
    decide
  · rw [← captured_eq_headFit]
    decide

/-- The second event uses the byte that the cut character left. -/
theorem later_text_follows_cut : (executeInKernel ⟨fun _ => (), fun _ => []⟩ ⟨2, 2, 2⟩
        [.stdout ['a', 'é'], .stdout ['b']]).map (·.stdout) = some ['a', 'b'] ∧
      ¬ ['a', 'b'] <+: ['a', 'é', 'b'] := by
  refine ⟨?_, by decide⟩
  have two : ⌊(2 : ℚ)⌋₊ = 2 := Nat.floor_ofNat 2
  simp only [executeInKernel, List.foldlM_cons, Source.Kernels.receive, appendCapped_eq]
  decide

end MarimoHub.Guarantees.Texts
