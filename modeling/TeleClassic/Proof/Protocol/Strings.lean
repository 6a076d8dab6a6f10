import TeleClassic.Impl.Strings
import TeleClassic.Proof.Protocol
import Mathlib.Data.List.DropRight

/-!
# Strings on the wire

What the two loops of `tc_protocol_send_string` leave at each place of the buffer
(`getElem_filledBuffer`): the text up to its NUL or to 64 bytes, and spaces. What
the loop of `tc_protocol_decode_string` leaves (`stripSpaces_eq`): the field up to
its last byte that is no space, and NULs. So they come to the functions without
loops (`filledBuffer_eq`, `decodeString_eq`), and a string survives the wire up to
its trailing spaces (`strings_survive`).
-/

namespace TC.Proof.Protocol

open TC.Impl.Protocol
open TC.Impl.Strings (Buffer copyText padText filledBuffer stripSpaces)

/-! ## Sending -/

/-- The `while` loop stops at the first NUL from `i` on, or at 64. -/
theorem copyText_spec (str : Nat → Byte) (buffer : Buffer) {i : Nat} (hi : i ≤ maxStrLen) :
    ∃ n, i ≤ n ∧ n ≤ maxStrLen ∧ (∀ j, i ≤ j → j < n → str j ≠ 0) ∧ (n < maxStrLen → str n = 0) ∧
      (copyText str buffer i).2 = n ∧
      ∀ j (hj : j < maxStrLen), (copyText str buffer i).1[j] = if i ≤ j ∧ j < n then str j else buffer[j] := by
  fun_induction copyText str buffer i with
  | case1 buffer i h ih =>
    obtain ⟨n, hin, hn, hne, hstop, hlen, hget⟩ := ih h.2
    refine ⟨n, by omega, hn, fun j hij hjn => ?_, hstop, hlen, fun j hj => ?_⟩
    · rcases Nat.lt_or_eq_of_le hij with hlt | rfl
      · exact hne j hlt hjn
      · exact h.1
    · rw [hget j hj, Vector.getElem_set]
      by_cases heq : i = j
      · subst heq
        simp [show i < n by omega]
      · simp only [heq, if_false]
        congr 1
        simp only [eq_iff_iff]
        omega
  | case2 buffer i h =>
    refine ⟨i, Nat.le_refl i, hi, fun j hij hji => absurd hij (by omega), fun hlt => ?_, rfl, fun j hj => ?_⟩
    · by_contra hne
      exact h ⟨hne, hlt⟩
    · rw [if_neg (by omega)]

theorem getElem_padText (buffer : Buffer) (i : Nat) {j : Nat} (hj : j < maxStrLen) :
    (padText buffer i)[j] = if i ≤ j then 0x20 else buffer[j] := by
  fun_induction padText buffer i with
  | case1 buffer i h ih =>
    rw [ih, Vector.getElem_set]
    by_cases heq : i = j
    · subst heq
      simp
    · simp only [heq, if_false]
      congr 1
      simp only [eq_iff_iff]
      omega
  | case2 buffer i h => rw [if_neg (by omega)]

/-- The first 64 bytes of a memory. -/
def window (str : Nat → Byte) : List Byte := (List.range maxStrLen).map str

/-- The text in a window that has its first NUL at `n`, or none. -/
theorem strn_window {str : Nat → Byte} {n : Nat} (hn : n ≤ maxStrLen) (hne : ∀ j < n, str j ≠ 0)
    (hstop : n < maxStrLen → str n = 0) : strn maxStrLen (window str) = (List.range n).map str := by
  have hsplit : window str = (List.range n).map str ++ (List.range (maxStrLen - n)).map fun k => str (n + k) := by
    rw [window, ← Nat.add_sub_cancel' hn, List.range_add, List.map_append, List.map_map, Nat.add_sub_cancel_left]
    rfl
  have htext : ∀ b ∈ (List.range n).map str, (decide (b ≠ 0)) = true := by
    intro b hb
    obtain ⟨j, hj, rfl⟩ := List.mem_map.mp hb
    simpa using hne j (List.mem_range.mp hj)
  have hrest : ((List.range (maxStrLen - n)).map fun k => str (n + k)).takeWhile (· ≠ 0) = [] := by
    rcases Nat.lt_or_eq_of_le hn with hlt | rfl
    · rw [show maxStrLen - n = (maxStrLen - n - 1) + 1 by omega, List.range_succ_eq_map, List.map_cons,
        List.takeWhile_cons_of_neg (by simpa using hstop hlt)]
    · simp
  rw [strn, cstr, List.take_of_length_le (by simp [window]), hsplit, List.takeWhile_append_of_pos htext, hrest,
    List.append_nil]

/-- What the loops send is the text and spaces. -/
theorem filledBuffer_eq (str : Nat → Byte) (buffer : Buffer) :
    (filledBuffer str buffer).toList = stringField (window str) := by
  obtain ⟨n, -, hn, hne, hstop, hlen, hget⟩ := copyText_spec str buffer (Nat.zero_le maxStrLen)
  have htext := strn_window hn (fun j hj => hne j (Nat.zero_le j) hj) hstop
  refine List.ext_getElem (by rw [Vector.length_toList, length_stringField]) fun j hj hj' => ?_
  rw [Vector.length_toList] at hj
  simp only [Vector.getElem_toList, filledBuffer, hlen, stringField, htext, List.length_map, List.length_range]
  rw [getElem_padText _ _ hj, hget j hj, List.getElem_append]
  by_cases hjn : j < n
  · simp [hjn, show ¬ n ≤ j by omega]
  · simp [hjn, show n ≤ j by omega]

/-! ## Decoding -/

/-- The text of a string field: without its trailing spaces. -/
def text (field : List Byte) : List Byte := field.rdropWhile (· = 0x20)

theorem text_length_le (field : List Byte) : (text field).length ≤ field.length :=
  (List.rdropWhile_prefix _ _).length_le

/-- The loop from `i` down, when everything from `i` on is stripped. -/
theorem stripSpaces_eq (dest : Buffer) {i : Nat} (hi : i ≤ maxStrLen) :
    (stripSpaces dest i i hi).2 = (text (dest.toList.take i)).length ∧
      ∀ j (hj : j < maxStrLen), (stripSpaces dest i i hi).1[j] =
        if (text (dest.toList.take i)).length ≤ j ∧ j < i then 0 else dest[j] := by
  induction i generalizing dest with
  | zero => simp [stripSpaces, text]
  | succ i ih =>
    have hlast : dest.toList.take (i + 1) = dest.toList.take i ++ [dest.get ⟨i, hi⟩] := by
      rw [List.take_succ_eq_append_getElem (by rw [Vector.length_toList]; exact hi)]
      simp [Vector.get]
    rw [stripSpaces]
    split
    · rename_i hspace
      have htext : text (dest.toList.take (i + 1)) = dest.toList.take (i + 1) := by
        rw [hlast, text, List.rdropWhile_concat_neg _ _ _ (by simpa using hspace)]
      rw [htext]
      refine ⟨by simp [hi], fun j hj => ?_⟩
      refine (if_neg ?_).symm
      simp only [List.length_take, Vector.length_toList]
      omega
    · rename_i hspace
      have htext : text (dest.toList.take (i + 1)) = text (dest.toList.take i) := by
        rw [hlast, text, text, List.rdropWhile_concat_pos _ _ _ (by simpa using hspace)]
      have hkept : (dest.set i 0 hi).toList.take i = dest.toList.take i := by
        rw [Vector.toList_set, List.take_set_of_le (Nat.le_refl i)]
      have hle := text_length_le (dest.toList.take i)
      rw [List.length_take, Vector.length_toList] at hle
      obtain ⟨hlen, hget⟩ := ih (dest.set i 0 hi) (Nat.le_of_succ_le hi)
      rw [hkept] at hlen hget
      rw [htext]
      refine ⟨hlen, fun j hj => ?_⟩
      rw [hget j hj, Vector.getElem_set]
      by_cases heq : i = j
      · subst heq
        simp [show (text (dest.toList.take i)).length ≤ i by omega]
      · simp only [heq, if_false]
        congr 1
        simp only [eq_iff_iff]
        omega

/-- A text in a buffer of 64 bytes, with NULs after it. -/
def padded (t : List Byte) : List Byte := t ++ List.replicate (maxStrLen - t.length) 0

theorem decodeString_eq (packet : Buffer) :
    (Impl.Strings.tcProtocolDecodeString packet).1.toList = padded (text packet.toList) ∧
      (Impl.Strings.tcProtocolDecodeString packet).2 = (text packet.toList).length := by
  obtain ⟨hlen, hget⟩ := stripSpaces_eq packet (Nat.le_refl maxStrLen)
  have hall : packet.toList.take maxStrLen = packet.toList := List.take_of_length_le (by simp)
  have hle := text_length_le packet.toList
  rw [Vector.length_toList] at hle
  rw [hall] at hlen hget
  refine ⟨List.ext_getElem ?_ fun j hj hj' => ?_, hlen⟩
  · simp only [padded, Vector.length_toList, List.length_append, List.length_replicate]
    omega
  · rw [Vector.length_toList] at hj
    have hpart : text packet.toList <+: packet.toList := List.rdropWhile_prefix _ _
    simp only [Vector.getElem_toList, padded, List.getElem_append]
    refine (hget j hj).trans ?_
    by_cases hjt : j < (text packet.toList).length
    · have heq := hpart.getElem hjt
      rw [Vector.getElem_toList] at heq
      simp [hjt, show ¬ (text packet.toList).length ≤ j by omega, heq]
    · simp [hjt, hj, show (text packet.toList).length ≤ j by omega]

/-- Without loops. -/
theorem decodeString_refines (packet : Buffer) :
    ((Impl.Strings.tcProtocolDecodeString packet).1.toList, (Impl.Strings.tcProtocolDecodeString packet).2) =
      tcProtocolDecodeString packet.toList := by
  have htext : decodedText packet.toList = text packet.toList := by
    rw [decodedText, List.take_of_length_le (by simp), text, List.rdropWhile]
  obtain ⟨hbuffer, hlen⟩ := decodeString_eq packet
  rw [tcProtocolDecodeString, htext, hbuffer, hlen, padded]

theorem sendString_refines (socket : Stream) (str : Nat → Byte) (buffer : Buffer) :
    Impl.Strings.tcProtocolSendString socket str buffer = tcProtocolSendString socket (window str) := by
  rw [Impl.Strings.tcProtocolSendString, filledBuffer_eq]
  rfl

/-! ## Both ways -/

/-- The bytes are at the start of the memory. -/
def Holds (str : Nat → Byte) (bytes : List Byte) : Prop := ∀ i (h : i < bytes.length), str i = bytes[i]

instance (str : Nat → Byte) (bytes : List Byte) : Decidable (Holds str bytes) :=
  inferInstanceAs (Decidable (∀ i (h : i < bytes.length), str i = bytes[i]))

theorem text_append_spaces (t : List Byte) (k : Nat) : text (t ++ List.replicate k 0x20) = text t := by
  induction k with
  | zero => rw [List.replicate_zero, List.append_nil]
  | succ k ih =>
    rw [List.replicate_succ', ← List.append_assoc, text, List.rdropWhile_concat_pos _ _ _ (by simp)]
    exact ih

/-- A field is its text and spaces. -/
theorem text_append (field : List Byte) :
    text field ++ List.replicate (field.length - (text field).length) 0x20 = field := by
  induction field using List.reverseRecOn with
  | nil => rfl
  | append_singleton l b ih =>
    by_cases h : b = 0x20
    · have htext : text (l ++ [b]) = text l := List.rdropWhile_concat_pos _ _ _ (by simpa using h)
      have hle := text_length_le l
      rw [htext, List.length_append, List.length_singleton, Nat.sub_add_comm hle, List.replicate_succ',
        ← List.append_assoc, ih, h]
    · have htext : text (l ++ [b]) = l ++ [b] := List.rdropWhile_concat_neg _ _ _ (by simpa using h)
      rw [htext, Nat.sub_self, List.replicate_zero, List.append_nil]

/-- The text of a string that is in memory with its terminator. -/
theorem strn_of_holds {str : Nat → Byte} {s : List Byte} (hs : ∀ b ∈ s, b ≠ 0) (hstr : Holds str (s ++ [0])) :
    strn maxStrLen (window str) = s.take maxStrLen := by
  have hbyte : ∀ j (h : j < s.length), str j = s[j] := fun j h => by
    rw [hstr j (by simp; omega), List.getElem_append_left h]
  have hend : str s.length = 0 := by
    rw [hstr s.length (by simp), List.getElem_append_right (Nat.le_refl _)]
    simp
  rw [strn_window (Nat.min_le_right s.length maxStrLen)]
  · refine List.ext_getElem (by simp [Nat.min_comm]) fun j hj hj' => ?_
    simp only [List.length_map, List.length_range] at hj
    simp [hbyte j (by omega)]
  · intro j hj
    rw [hbyte j (by omega)]
    exact hs _ (List.getElem_mem _)
  · intro h
    rw [show min s.length maxStrLen = s.length by omega]
    exact hend

/-- The text of a decoded buffer, whatever is behind it. -/
theorem strn_of_decoded {str : Nat → Byte} {field : Buffer} (hfield : ∀ b ∈ field.toList, b ≠ 0)
    (hstr : Holds str (padded (text field.toList))) : strn maxStrLen (window str) = text field.toList := by
  have hle := text_length_le field.toList
  rw [Vector.length_toList] at hle
  have hwindow : window str = padded (text field.toList) := by
    have hlen : (padded (text field.toList)).length = maxStrLen := by
      simp only [padded, List.length_append, List.length_replicate]
      omega
    refine List.ext_getElem (by simp [window, hlen]) fun j hj hj' => ?_
    simp [window, hstr j hj']
  have htext : ∀ b ∈ text field.toList, decide (b ≠ 0) = true := fun b hb => by
    simpa using hfield b ((List.rdropWhile_prefix _ _).subset hb)
  have hnul : (List.replicate (maxStrLen - (text field.toList).length) (0 : Byte)).takeWhile (· ≠ 0) = [] := by
    cases maxStrLen - (text field.toList).length <;> rfl
  rw [strn, List.take_of_length_le (by simp [window]), hwindow, padded, cstr, List.takeWhile_append_of_pos htext,
    hnul, List.append_nil]

/-- For every memory: a string that is terminated there is sent as a field of 64
bytes, which is decoded to the first 64 bytes of the string less their trailing
spaces; and the buffer that a field without NULs is decoded to is sent as that
field again, whatever is behind it in memory. -/
theorem strings_survive (socket : Stream) (str : Nat → Byte) (buffer : Buffer) :
    (∀ s : List Byte, (∀ b ∈ s, b ≠ 0) → Holds str (s ++ [0]) → ∃ field : Buffer,
      (Impl.Strings.tcProtocolSendString socket str buffer).2 = socket.offer field.toList ∧
      (Impl.Strings.tcProtocolDecodeString field).1.toList = padded (text (s.take maxStrLen)) ∧
      (Impl.Strings.tcProtocolDecodeString field).2 = (text (s.take maxStrLen)).length) ∧
    ∀ field : Buffer, (∀ b ∈ field.toList, b ≠ 0) →
      Holds str (Impl.Strings.tcProtocolDecodeString field).1.toList →
      (Impl.Strings.tcProtocolSendString socket str buffer).2 = socket.offer field.toList := by
  have hsent : (Impl.Strings.tcProtocolSendString socket str buffer).2 = socket.offer (filledBuffer str buffer).toList := by
    rw [sendString_refines, filledBuffer_eq, tcProtocolSendString, pSocketSend, if_neg (stringField_ne_nil _)]
    cases socket.next <;> rfl
  have hfilled := filledBuffer_eq str buffer
  rw [stringField] at hfilled
  refine ⟨fun s hs hstr => ⟨filledBuffer str buffer, hsent, ?_⟩, fun field hfield hstr => ?_⟩
  · obtain ⟨hbuffer, hlen⟩ := decodeString_eq (filledBuffer str buffer)
    rw [hfilled, strn_of_holds hs hstr, text_append_spaces] at hbuffer hlen
    exact ⟨hbuffer, hlen⟩
  · rw [(decodeString_eq field).1] at hstr
    have hfield' := text_append field.toList
    rw [Vector.length_toList] at hfield'
    rw [hsent, hfilled, strn_of_decoded hfield hstr, hfield']

/-- "A " in memory. -/
def letterAndSpace (i : Nat) : Byte := [0x41, 0x20].getD i 0

/-- 64 letters in memory, and no NUL behind them. -/
def fullBuffer (i : Nat) : Byte := if i < maxStrLen then 0x41 else 0x42

theorem strings_survive_letters :
    (∃ field : Buffer,
      (Impl.Strings.tcProtocolSendString readySocket letterAndSpace (Vector.replicate _ 0)).2 =
        readySocket.offer field.toList ∧
      (Impl.Strings.tcProtocolDecodeString field).1.toList = padded [0x41] ∧
      (Impl.Strings.tcProtocolDecodeString field).2 = 1) ∧
    (Impl.Strings.tcProtocolSendString readySocket fullBuffer (Vector.replicate _ 0)).2 =
      readySocket.offer (Vector.replicate maxStrLen 0x41).toList := by
  refine ⟨(strings_survive readySocket letterAndSpace _).1 [0x41, 0x20] (by decide) (by decide),
    (strings_survive readySocket fullBuffer _).2 (Vector.replicate maxStrLen 0x41) (by simp) ?_⟩
  have hkept : Impl.Strings.tcProtocolDecodeString (Vector.replicate maxStrLen 0x41) =
      (Vector.replicate maxStrLen 0x41, maxStrLen) := by decide
  rw [hkept]
  intro i hi
  simp only [Vector.length_toList] at hi
  simp [fullBuffer, hi]

end TC.Proof.Protocol
