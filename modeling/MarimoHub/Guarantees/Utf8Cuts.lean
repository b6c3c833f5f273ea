import MarimoHub.Source.Text

/-!
# What is kept of a text that is cut

An encoded character is one byte that continues nothing, followed by continuation bytes
(`encodeChar_bytes`). So the walk from the cut to the next byte that starts a character keeps the
longest part that fits, and only the decoder's byte order mark is lost.
-/

namespace MarimoHub.Guarantees.Texts

open Source.Texts

variable {budget : Nat} {value : List Char} {start rest : List UInt8}

def Fits (budget : Nat) (text : List Char) : Prop := (encode text).length ≤ budget

/-- Of the parts in question the longest one that fits. -/
structure Longest (among : List Char → Prop) (budget : Nat) (kept : List Char) : Prop where
  part : among kept
  fits : Fits budget kept
  longest : ∀ other, among other → Fits budget other → other.length ≤ kept.length

theorem encodeChar_bytes (c : Char) : ∃ first more, String.utf8EncodeChar c = first :: more ∧
    isContinuationByte first = false ∧ ∀ byte ∈ more, isContinuationByte byte = true := by
  have next (n : Nat) : isContinuationByte (UInt8.ofNat (n % 64 + 128)) = true :=
    (by decide : ∀ k < 64, isContinuationByte (UInt8.ofNat (k + 128)) = true) _
      (Nat.mod_lt n (by decide))
  unfold String.utf8EncodeChar
  dsimp only
  split
  · next small =>
    exact ⟨_, _, rfl, (by decide : ∀ k < 128, isContinuationByte (UInt8.ofNat k) = false) _
      (by omega), by simp⟩
  split
  · exact ⟨_, _, rfl, (by decide : ∀ k < 32, isContinuationByte (UInt8.ofNat (k + 192)) = false) _
      (Nat.mod_lt _ (by decide)), by simp only [List.forall_mem_cons, next]; simp⟩
  split
  · exact ⟨_, _, rfl, (by decide : ∀ k < 16, isContinuationByte (UInt8.ofNat (k + 224)) = false) _
      (Nat.mod_lt _ (by decide)), by simp only [List.forall_mem_cons, next]; simp⟩
  · exact ⟨_, _, rfl, (by decide : ∀ k < 8, isContinuationByte (UInt8.ofNat (k + 240)) = false) _
      (Nat.mod_lt _ (by decide)), by simp only [List.forall_mem_cons, next]; simp⟩

theorem encode_cons (c : Char) (cs : List Char) :
    encode (c :: cs) = String.utf8EncodeChar c ++ encode cs := List.flatMap_cons ..

theorem encode_head (text : List Char) : (encode text)[0]?.any isContinuationByte = false := by
  cases text with
  | nil => rfl
  | cons c cs =>
    obtain ⟨first, more, eq, head, -⟩ := encodeChar_bytes c
    simp [encode_cons, eq, head]

theorem decode_encode (text : List Char) : decode (encode text) = some (dropMark text) := by
  have same : (encode text).toByteArray = text.utf8Encode := rfl
  simp [decode, same]

theorem dropMark_eq_self : dropMark value = value ↔ value.head? ≠ some byteOrderMark := by
  cases value with
  | nil => simp [dropMark]
  | cons c cs => by_cases mark : c = byteOrderMark <;> simp [dropMark, mark]

/-! ## The head -/

theorem headEnd_inside (short : n ≤ start.length)
    (more : ∀ byte ∈ start, isContinuationByte byte = true) :
    headEnd (first :: start ++ rest) n = 0 := by
  induction n with
  | zero => rfl
  | succ n ih =>
    have here : (first :: start ++ rest)[n + 1]?.any isContinuationByte = true := by
      simp [List.getElem?_append_left short, List.getElem?_eq_getElem short,
        more _ (List.getElem_mem short)]
    rw [headEnd, if_pos here, ih (by omega)]

theorem headEnd_behind (filled : start ≠ []) (head : rest[0]?.any isContinuationByte = false) :
    headEnd (start ++ rest) (start.length + n) = start.length + headEnd rest n := by
  induction n with
  | zero =>
    obtain ⟨k, size⟩ := Nat.exists_eq_succ_of_ne_zero (mt List.length_eq_zero_iff.mp filled)
    have here : (start ++ rest)[k + 1]?.any isContinuationByte = false := by
      rw [← Nat.succ_eq_add_one, ← size, List.getElem?_append_right le_rfl, Nat.sub_self, head]
    show headEnd (start ++ rest) start.length = start.length
    rw [size, headEnd, if_neg (by simp [here])]
  | succ n ih =>
    have here : (start ++ rest)[start.length + n + 1]? = rest[n + 1]? := by
      rw [List.getElem?_append_right (by omega)]
      congr 1
      omega
    rw [← Nat.add_assoc, headEnd, headEnd, here, ih]
    split <;> rfl

/-- The characters that fit one after the other. -/
def headFit (budget : Nat) : List Char → List Char
  | [] => []
  | c :: cs =>
    let size := (String.utf8EncodeChar c).length
    if size ≤ budget then c :: headFit (budget - size) cs else []

theorem take_headEnd (value : List Char) (budget : Nat) :
    (encode value).take (headEnd (encode value) (min (encode value).length budget)) =
      encode (headFit budget value) := by
  induction value generalizing budget with
  | nil => simp [encode, headFit]
  | cons c cs ih =>
    obtain ⟨first, more, eq, -, tail⟩ := encodeChar_bytes c
    rw [headFit, encode_cons]
    split
    · next room =>
      have cut : min (String.utf8EncodeChar c ++ encode cs).length budget =
          (String.utf8EncodeChar c).length +
            min (encode cs).length (budget - (String.utf8EncodeChar c).length) := by
        rw [List.length_append]
        omega
      rw [cut, headEnd_behind (by simp) (encode_head cs), List.take_length_add_append, ih,
        encode_cons]
    · next full =>
      rw [eq, List.length_cons] at full
      rw [eq, headEnd_inside (by omega) tail]
      rfl

theorem headFit_longest (value : List Char) (budget : Nat) :
    Longest (· <+: value) budget (headFit budget value) := by
  induction value generalizing budget with
  | nil => exact ⟨List.nil_prefix, Nat.zero_le _, fun other part _ => part.length_le⟩
  | cons c cs ih =>
    rw [headFit]
    split
    · next room =>
      have below := ih (budget - (String.utf8EncodeChar c).length)
      refine ⟨(List.prefix_cons_inj c).mpr below.part, ?_, ?_⟩
      · have := below.fits
        simp only [Fits, encode_cons, List.length_append] at this ⊢
        omega
      · rintro (_ | ⟨d, more⟩) part fits
        · exact Nat.zero_le _
        · obtain ⟨rfl, inner⟩ := List.cons_prefix_cons.mp part
          simp only [Fits, encode_cons, List.length_append] at fits
          exact Nat.succ_le_succ (below.longest more inner (Nat.le_sub_of_add_le' fits))
    · next full =>
      refine ⟨List.nil_prefix, Nat.zero_le _, ?_⟩
      rintro (_ | ⟨d, more⟩) part fits
      · exact le_rfl
      · obtain ⟨rfl, -⟩ := List.cons_prefix_cons.mp part
        simp only [Fits, encode_cons, List.length_append] at fits
        omega

theorem utf8HeadBytes_encode (value : List Char) (maxBytes : Option ℚ) :
    utf8HeadBytes (encode value) maxBytes =
      some (dropMark (headFit (byteBudget maxBytes) value)) := by
  rw [utf8HeadBytes, take_headEnd, decode_encode]

theorem headFit_of_fits (fits : Fits budget value) : headFit budget value = value :=
  (headFit_longest value budget).part.eq_of_length_le
    ((headFit_longest value budget).longest value List.prefix_rfl fits)

/-! ## The tail -/

/-- What is left when characters are dropped until the rest fits. -/
def tailFit (budget : Nat) : List Char → List Char
  | [] => []
  | c :: cs => if (encode (c :: cs)).length ≤ budget then c :: cs else tailFit budget cs

theorem dropWhile_head (head : rest[0]?.any isContinuationByte = false) :
    rest.dropWhile isContinuationByte = rest := by
  cases rest with
  | nil => rfl
  | cons first more => exact List.dropWhile_cons_of_neg (by simpa using head)

theorem dropWhile_cut (value : List Char) (budget : Nat) :
    ((encode value).drop ((encode value).length - budget)).dropWhile isContinuationByte =
      encode (tailFit budget value) := by
  induction value with
  | nil => simp [encode, tailFit]
  | cons c cs ih =>
    rw [tailFit]
    split
    · next room => rw [Nat.sub_eq_zero_of_le room, List.drop_zero, dropWhile_head (encode_head _)]
    · next full =>
      obtain ⟨first, more, eq, -, tail⟩ := encodeChar_bytes c
      rw [← ih, encode_cons, List.drop_append]
      rw [encode_cons, List.length_append] at full
      have inside : ∀ byte ∈ (String.utf8EncodeChar c).drop
          ((String.utf8EncodeChar c ++ encode cs).length - budget),
          isContinuationByte byte = true := by
        obtain ⟨k, size⟩ := Nat.exists_eq_add_of_lt (Nat.lt_of_not_le full)
        intro byte member
        rw [List.length_append, size, Nat.add_assoc, Nat.add_sub_cancel_left, eq] at member
        exact tail byte (List.mem_of_mem_drop member)
      rw [List.dropWhile_append_of_pos inside, List.length_append]
      congr 2
      omega

theorem tailFit_longest (value : List Char) (budget : Nat) :
    Longest (· <:+ value) budget (tailFit budget value) := by
  induction value with
  | nil => exact ⟨List.suffix_rfl, Nat.zero_le _, fun other part _ => part.length_le⟩
  | cons c cs ih =>
    rw [tailFit]
    split
    · next room => exact ⟨List.suffix_rfl, room, fun other part _ => part.length_le⟩
    · next full =>
      refine ⟨ih.part.trans (List.suffix_cons c cs), ih.fits, fun other part fits => ?_⟩
      rcases List.suffix_cons_iff.mp part with rfl | part
      · exact absurd fits full
      · exact ih.longest other part fits

/-! ## Both cuts -/

theorem utf8Head_eq (value : List Char) (maxBytes : Option ℚ) : utf8Head value maxBytes =
    some (if (encode value).length ≤ byteBudget maxBytes then value
      else dropMark (headFit (byteBudget maxBytes) value)) := by
  rw [utf8Head, utf8HeadBytes_encode]
  cases value with
  | nil => simp [encode, headFit, dropMark]
  | cons c cs =>
    -- a text that is not empty fits the number exactly when it fits what is left of it
    have same : maxBytes.any (((encode (c :: cs)).length : ℚ) ≤ ·) ↔
        (encode (c :: cs)).length ≤ byteBudget maxBytes := by
      have filled : (encode (c :: cs)).length ≠ 0 := by
        obtain ⟨first, more, eq, -⟩ := encodeChar_bytes c
        simp [encode_cons, eq]
      cases maxBytes with
      | none => simpa [byteBudget] using filled
      | some bytes =>
        rw [Option.any_some, decide_eq_true_eq]
        exact (Nat.le_floor_iff' filled).symm
    simp only [same]
    split <;> rfl

theorem utf8Tail_eq (value : List Char) (maxBytes : Option ℚ) : utf8Tail value maxBytes =
    some (if (encode value).length ≤ byteBudget maxBytes then value
      else dropMark (tailFit (byteBudget maxBytes) value)) := by
  rw [utf8Tail, dropWhile_cut, decode_encode]
  split <;> rfl

/-- The longest part is what is returned, unless it is cut and loses its byte order mark. -/
theorem cut_eq_iff (longest : Longest among budget kept)
    (whole : (encode value).length ≤ budget → kept = value) :
    some (if (encode value).length ≤ budget then value else dropMark kept) = some kept ↔
      kept = value ∨ kept.head? ≠ some byteOrderMark := by
  split
  · next fits => simp [whole fits]
  · next full =>
    have cut : kept ≠ value := by
      rintro rfl
      exact full longest.fits
    simp [cut, dropMark_eq_self]

/-- Head and tail are the longest prefix and suffix that fit, exactly when these are the whole text
or do not begin with a byte order mark. -/
theorem utf8_cuts_longest (value : List Char) (maxBytes : Option ℚ) :
    (∃ head, Longest (· <+: value) (byteBudget maxBytes) head ∧
      (utf8Head value maxBytes = some head ↔
        head = value ∨ head.head? ≠ some byteOrderMark)) ∧
    ∃ tail, Longest (· <:+ value) (byteBudget maxBytes) tail ∧
      (utf8Tail value maxBytes = some tail ↔
        tail = value ∨ tail.head? ≠ some byteOrderMark) := by
  have head := headFit_longest value (byteBudget maxBytes)
  have tail := tailFit_longest value (byteBudget maxBytes)
  constructor
  · refine ⟨_, head, ?_⟩
    rw [utf8Head_eq]
    exact cut_eq_iff head headFit_of_fits
  · refine ⟨_, tail, ?_⟩
    rw [utf8Tail_eq]
    exact cut_eq_iff tail fun fits =>
      tail.part.eq_of_length_le (tail.longest value List.suffix_rfl fits)

/-- With four bytes the head is no prefix, and the tail leaves out a character that fits. -/
theorem cut_drops_mark : utf8Head [byteOrderMark, 'a', 'b'] (some 4) = some ['a'] ∧
      ¬ ['a'] <+: [byteOrderMark, 'a', 'b'] ∧
    utf8Tail ['a', byteOrderMark, 'b'] (some 4) = some ['b'] ∧ Fits 4 [byteOrderMark, 'b'] := by
  have budget : byteBudget (some 4) = 4 := Nat.floor_ofNat 4
  have size : (encode [byteOrderMark, 'a', 'b']).length = 5 := by decide
  refine ⟨?_, by decide, ?_, (by decide : _ ≤ 4)⟩
  · rw [utf8Head, size, utf8HeadBytes_encode]
    decide
  · rw [utf8Tail, dropWhile_cut]
    decide

end MarimoHub.Guarantees.Texts
